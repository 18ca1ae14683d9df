import Mathlib.Data.List.Induction
import Misterplex.Rbsp.NaluScanner

/-!
# Captures of whole units

What a parser has collected when a capture ends, and what it ought to be: the bytes of
one unit of the stream, from its header to the next start code, with emulation
prevention removed. A slice header ends after 48 bytes. The scan of contiguous bytes
closes only captures of this kind.
-/

namespace Misterplex.UnitCapture

open Emulation List
open NaluScanner (CapTarget CapPort CapEvent ScanRegs clearPulses consumeByte canStore storeByte events)

/-- Number of zero bytes at the end, added to a number of zeros before the list if all
its bytes are zero. -/
def zerosFrom (zeros : ℕ) (bytes : List Byte) : ℕ :=
  bytes.foldl (fun z b => if b = 0#8 then z+1 else 0) zeros

/-- Number of zero bytes at the end. -/
def trailingZeros (bytes : List Byte) : ℕ := zerosFrom 0 bytes

@[simp] theorem zerosFrom_nil (zeros : ℕ) : zerosFrom zeros []=zeros := rfl

theorem zerosFrom_cons (zeros : ℕ) (b : Byte) (bytes : List Byte) :
    zerosFrom zeros (b::bytes)=zerosFrom (if b = 0#8 then zeros+1 else 0) bytes := rfl

theorem trailingZeros_concat (bytes : List Byte) (b : Byte) :
    trailingZeros (bytes ++ [b]) = if b = 0#8 then trailingZeros bytes+1 else 0 := by
  unfold trailingZeros zerosFrom
  rw [foldl_append]
  rfl

/-- Zeros before a list of two bytes or more do not decide whether two zeros end it. -/
theorem two_le_zerosFrom (zeros more : ℕ) (b c : Byte) (bytes : List Byte) :
    2≤zerosFrom zeros (b::c::bytes) ↔ 2≤zerosFrom more (b::c::bytes) := by
  induction bytes generalizing zeros more b c with
  | nil =>
    rw [zerosFrom_cons,zerosFrom_cons,zerosFrom_cons,zerosFrom_cons]
    simp only [zerosFrom_nil]
    split_ifs
    · omega
    · omega
    · omega
  | cons d bytes ih =>
    exact ih _ _ c d

theorem removeEpb_concat (bytes : List Byte) (b : Byte) :
    removeEpb (bytes ++ [b]) =
      removeEpb bytes ++ if b = 3#8 ∧ 2 ≤ trailingZeros bytes then [] else [b] := by
  induction bytes using removeEpb.induct with
  | case1 x y z rest hskip ih =>
    obtain ⟨rfl,rfl,rfl⟩ := hskip
    have hzeros : trailingZeros (0#8::0#8::3#8::rest)=trailingZeros rest := rfl
    rw [cons_append,cons_append,cons_append,removeEpb_zeros_three,
      removeEpb_zeros_three,ih,hzeros]
    rfl
  | case2 x y z rest hskip ih =>
    have hzeros : 2≤trailingZeros (x::y::z::rest) ↔ 2≤trailingZeros (y::z::rest) :=
      two_le_zerosFrom _ _ y z rest
    rw [cons_append,cons_append,cons_append,removeEpb,if_neg hskip,removeEpb,
      if_neg hskip,← cons_append,← cons_append,ih,cons_append]
    simp only [hzeros]
  | case3 bytes hshort =>
    rcases bytes with _ | ⟨x,_ | ⟨y,_ | ⟨z,rest⟩⟩⟩
    · simp [removeEpb,trailingZeros]
    · simp only [cons_append,nil_append,removeEpb,trailingZeros,zerosFrom_cons,
        zerosFrom_nil]
      split_ifs
      · omega
      · rfl
      · omega
      · rfl
    · by_cases hx : x=0#8
      · by_cases hy : y=0#8
        · subst hx hy
          by_cases hb : b=3#8
          · subst hb
            rfl
          · simp [removeEpb,hb]
        · simp [removeEpb,trailingZeros,zerosFrom_cons,hy]
      · simp only [cons_append,nil_append,removeEpb,trailingZeros,zerosFrom_cons,
          zerosFrom_nil,hx,false_and,if_false]
        split_ifs
        · omega
        · rfl
        · omega
        · rfl
    · exact absurd rfl (hshort x y z rest)

theorem replicate_suffix_iff (n : ℕ) (bytes : List Byte) :
    List.replicate n 0#8 <:+ bytes ↔ n≤trailingZeros bytes := by
  induction bytes using reverseRecOn generalizing n with
  | nil =>
    rw [suffix_nil,replicate_eq_nil_iff]
    exact Nat.le_zero.symm
  | append_singleton bytes b ih =>
    rw [trailingZeros_concat]
    cases n with
    | zero => simp
    | succ n =>
      rw [replicate_succ',suffix_concat_iff]
      by_cases hb : b=0#8
      · subst hb
        simp [ih]
      · simp [hb,Ne.symm hb]

/-- What the parsers have collected from the pulses. -/
structure CaptureLog where
  /-- Bytes since the last clear pulse of each port. -/
  held : CapTarget → List Byte
  /-- Captures that have ended, with their port. -/
  closed : List (CapTarget × List Byte)

/-- Nothing collected. -/
def CaptureLog.empty : CaptureLog := ⟨fun _ => [],[]⟩

/-- One pulse. -/
def CaptureLog.record (log : CaptureLog) : CapEvent → CaptureLog
  | .clear t => { log with held := Function.update log.held t [] }
  | .byte t b => { log with held := Function.update log.held t (log.held t ++ [b]) }
  | .finish t => { log with closed := log.closed ++ [(t,log.held t)] }

/-- The pulses of a cycle. -/
def CaptureLog.after (log : CaptureLog) (es : List CapEvent) : CaptureLog := es.foldl record log

/-- The parser to which a unit with this header goes. -/
def targetOf (hdr : Byte) : CapTarget :=
  match (hdr.extractLsb' 0 5).toNat with
  | 7 => .sps
  | 8 => .pps
  | 5 => .slice
  | 1 => .slice
  | _ => .none

/-- 00 00 01. -/
def startCodeBytes : List Byte := [0#8,0#8,1#8]

/-- The capture is what one unit of the stream yields: the unit up to the next start code,
or the first 48 bytes of a slice. -/
def FromUnit (stream : List Byte) (c : CapTarget × List Byte) : Prop :=
  ∃ (pre : List Byte) (hdr : Byte) (raw post : List Byte),
    stream = pre ++ startCodeBytes ++ hdr::raw ++ post ∧
    targetOf hdr=c.1 ∧
    ¬startCodeBytes <:+: raw ∧
    c.2=removeEpb raw ∧
    (c.1 = .slice ∧ c.2.length=48 ∨
      (c.1 = .slice → c.2.length<48) ∧ [0#8,0#8] <:+ raw ∧ post.head?=some 1#8)

theorem FromUnit.append {stream : List Byte} {c : CapTarget × List Byte} (h : FromUnit stream c)
    (more : List Byte) : FromUnit (stream ++ more) c := by
  obtain ⟨pre,hdr,raw,post,rfl,htarget,hfree,hbytes,hend⟩ := h
  refine ⟨pre,hdr,raw,post ++ more,by simp only [append_assoc],htarget,hfree,hbytes,
    hend.imp id ?_⟩
  rintro ⟨hshort,hzeros,hone⟩
  refine ⟨hshort,hzeros,?_⟩
  rw [head?_append,hone]
  rfl

theorem startCode_infix_concat (raw : List Byte) (b : Byte) :
    startCodeBytes <:+: raw ++ [b] ↔
      startCodeBytes <:+: raw ∨ b=1#8 ∧ 2≤trailingZeros raw := by
  have hsuffix : startCodeBytes <:+ raw ++ [b] ↔ b=1#8 ∧ 2≤trailingZeros raw := by
    rw [← replicate_suffix_iff]
    constructor
    · rintro ⟨front,hfront⟩
      have hsplit : (front ++ [0#8,0#8]) ++ [1#8] = raw ++ [b] := by
        rw [← hfront]
        simp [startCodeBytes]
      obtain ⟨hraw,hb⟩ := append_inj' hsplit rfl
      exact ⟨(singleton_inj.mp hb).symm,front,hraw⟩
    · rintro ⟨rfl,front,rfl⟩
      exact ⟨front,by simp [startCodeBytes,replicate]⟩
  rw [infix_concat_iff,hsuffix]
  exact Or.comm

/-- No byte is captured before the next unit header. -/
def Resting (r : ScanRegs) : Prop := r.capTgt = .none ∨ r.capTgt = .slice ∧ r.slDone=true

/-- No unit is under capture, and no start code has begun. -/
def BetweenUnits (r : ScanRegs) : Prop := Resting r ∧ r.pendType=false ∧ r.zrun=0#2

instance (r : ScanRegs) : Decidable (Resting r) := instDecidableOr

instance (r : ScanRegs) : Decidable (BetweenUnits r) := instDecidableAnd

/-- The unit with this header is under capture, and these of its bytes have been seen. -/
structure Open (hdr : Byte) (raw : List Byte) (r : ScanRegs) (log : CaptureLog) : Prop where
  /-- The capture goes to the parser of the unit. -/
  target : r.capTgt=targetOf hdr
  some_ : targetOf hdr ≠ .none
  /-- No unit header is due. -/
  payload : r.pendType=false
  /-- The capture has not ended early. -/
  going : r.slDone=false
  /-- Zero run of the search for start codes. -/
  zrun : r.zrun.toNat=min (trailingZeros raw) 3
  epbZ : r.epbZ.toNat=min (trailingZeros raw) 2
  free : ¬startCodeBytes <:+: raw
  held : log.held (targetOf hdr)=removeEpb raw
  short : targetOf hdr = .slice →
    (removeEpb raw).length<48 ∧ r.capLen.toNat=(removeEpb raw).length

/-- The registers say where the scan stands after the bytes since the last point at which
it did not matter what came before. -/
inductive Scanned : List Byte → ScanRegs → CaptureLog → Prop
  /-- Nothing is captured; the zeros may begin a start code. -/
  | resting {r : ScanRegs} {log : CaptureLog} (hrest : Resting r) (hpend : r.pendType=false) :
      Scanned (List.replicate r.zrun.toNat 0#8) r log
  /-- A start code has been seen. -/
  | pending {r : ScanRegs} {log : CaptureLog} (hnone : r.capTgt = .none)
      (hpend : r.pendType=true) : Scanned startCodeBytes r log
  | capturing {r : ScanRegs} {log : CaptureLog} {hdr : Byte} {raw : List Byte}
      (hopen : Open hdr raw r log) : Scanned (startCodeBytes ++ hdr::raw) r log

/-- The registers after a byte, with the pulses of the cycle before gone. -/
def nextRegs (r : ScanRegs) (b : Byte) : ScanRegs := consumeByte (clearPulses r) b

/-- The parsers see the pulses that the byte makes. -/
def nextLog (r : ScanRegs) (log : CaptureLog) (b : Byte) : CaptureLog := log.after (events (nextRegs r b))

/-- One more byte is scanned, and a capture that ends comes from a unit. -/
def Advances (seen : List Byte) (r : ScanRegs) (log : CaptureLog) (b : Byte) : Prop :=
  ∃ before since : List Byte, seen ++ [b] = before ++ since ∧
    Scanned since (nextRegs r b) (nextLog r log b) ∧
    ∀ c∈(nextLog r log b).closed, c∈log.closed ∨ FromUnit (seen ++ [b]) c

variable {r : ScanRegs} {log : CaptureLog} {b : Byte} {pre : List Byte}

variable {raw : List Byte}

theorem replicate_zrun_suffix (h : r.zrun.toNat=min (trailingZeros raw) 3) :
    List.replicate r.zrun.toNat 0#8 <:+ raw := by
  rw [replicate_suffix_iff]
  omega

/-- A byte has been counted. -/
def counted (r : ScanRegs) : ScanRegs :=
  { clearPulses r with bytesSeen := r.bytesSeen+1, hasStream := true }

theorem nextRegs_header (h : r.pendType=true) : nextRegs r b=NaluScanner.headerByte (counted r) b :=
  if_pos h

theorem nextRegs_zero (h : r.pendType=false) : nextRegs r 0#8=NaluScanner.zeroByte (counted r) := by
  have hquiet : ¬r.pendType=true := by simp [h]
  exact (if_neg hquiet).trans (if_pos rfl)

theorem nextRegs_startCode (h : r.pendType=false) (hz : 2≤r.zrun.toNat) :
    nextRegs r 1#8=NaluScanner.startCode (counted r) := by
  have hquiet : ¬r.pendType=true := by simp [h]
  have hone : (1#8 : Byte)=1#8 ∧ 2≤(counted r).zrun.toNat := ⟨rfl,hz⟩
  exact (if_neg hquiet).trans (if_pos hone)

theorem nextRegs_payload (h : r.pendType=false) (h0 : b≠0#8)
    (h1 : ¬(b=1#8 ∧ 2≤r.zrun.toNat)) :
    nextRegs r b=NaluScanner.payloadByte (counted r) b := by
  have hquiet : ¬r.pendType=true := by simp [h]
  exact (if_neg hquiet).trans ((if_neg h0).trans (if_neg h1))

open NaluScanner

/-- The count of zeros saturates at three. -/
theorem zrun_next {n : ℕ} {zrun : BitVec 2} (h : zrun.toNat=min n 3) :
    (if zrun.toNat < 3 then zrun+1 else zrun).toNat=min (n+1) 3 := by
  by_cases hlt : zrun.toNat<3
  · rw [if_pos hlt,toNat_inc_of_lt hlt]
    omega
  · rw [if_neg hlt]
    omega

theorem epbZ_next {n : ℕ} {epbZ : BitVec 2} (h : epbZ.toNat=min n 2) :
    (if epbZ.toNat < 2 then epbZ+1 else epbZ).toNat=min (n+1) 2 := by
  by_cases hlt : epbZ.toNat<2
  · rw [if_pos hlt,toNat_inc_of_lt (by omega)]
    omega
  · rw [if_neg hlt]
    omega

theorem Resting.not_stored (h : Resting r) : canStore (counted r)=false := by
  cases h with
  | inl hnone => simp [canStore,counted,clearPulses,hnone]
  | inr hdone => simp [canStore,counted,clearPulses,hdone.1,hdone.2]

theorem Resting.close (h : Resting r) : NaluScanner.closeCapture (counted r)=counted r := by
  have htarget : (counted r).capTgt=r.capTgt := rfl
  have hdone : (counted r).slDone=r.slDone := rfl
  unfold closeCapture
  rw [htarget,hdone]
  cases h with
  | inl hnone => rw [hnone]
  | inr hslice =>
    rw [hslice.1,hslice.2]
    exact if_pos rfl

theorem nextLog_silent (h : events (nextRegs r b)=[]) : nextLog r log b=log := by
  unfold nextLog
  rw [h]
  rfl

/-- Where the scan comes to rest it does not matter which bytes came before the zeros. -/
theorem advances_to_rest {seen : List Byte} (hrest : Resting (nextRegs r b))
    (hpend : (nextRegs r b).pendType=false)
    (hzeros : List.replicate (nextRegs r b).zrun.toNat 0#8 <:+ seen ++ [b])
    (hclosed : ∀ c∈(nextLog r log b).closed, c∈log.closed ∨ FromUnit (seen ++ [b]) c) :
    Advances seen r log b := by
  obtain ⟨front,hfront⟩ := hzeros
  exact ⟨front,_,hfront.symm,Scanned.resting hrest hpend,hclosed⟩

theorem advances_resting (hrest : Resting r) (hpend : r.pendType=false) :
    Advances (pre ++ List.replicate r.zrun.toNat 0#8) r log b := by
  have hkeep : ¬canStore (counted r)=true := by simp [hrest.not_stored]
  by_cases hzero : b=0#8
  · subst hzero
    have hnext : nextRegs r 0#8 =
        { counted r with zrun := if r.zrun.toNat < 3 then r.zrun+1 else r.zrun } :=
      (nextRegs_zero hpend).trans (if_neg hkeep)
    have hsilent : nextLog r log 0#8=log := nextLog_silent (by rw [hnext]; rfl)
    refine advances_to_rest (by rw [hnext]; exact hrest) (by rw [hnext]; exact hpend) ?_
      (fun c hc => Or.inl (by rwa [hsilent] at hc))
    have hcount := zrun_next (n := r.zrun.toNat) (by omega : r.zrun.toNat=min r.zrun.toNat 3)
    rw [hnext,replicate_suffix_iff,trailingZeros_concat,if_pos rfl]
    have hbefore := (replicate_suffix_iff r.zrun.toNat (pre ++ replicate r.zrun.toNat 0#8)).mp
      (suffix_append _ _)
    dsimp only
    omega
  · by_cases hone : b=1#8 ∧ 2≤r.zrun.toNat
    · have hnext : nextRegs r b =
          { counted r with capTgt := .none, slDone := false, epbZ := 0#2, capLen := 0#6,
                           pendType := true, zrun := 0#2 } := by
        rw [hone.1,nextRegs_startCode hpend hone.2,startCode,hrest.close]
      have hsilent : nextLog r log b=log := nextLog_silent (by rw [hnext]; rfl)
      obtain ⟨extra,hextra⟩ : ∃ k, r.zrun.toNat=k+2 := ⟨r.zrun.toNat-2,by omega⟩
      refine ⟨pre ++ replicate extra 0#8,startCodeBytes,?_,?_,
        fun c hc => Or.inl (by rwa [hsilent] at hc)⟩
      · rw [hone.1,hextra,replicate_add]
        simp [startCodeBytes,replicate]
      · exact Scanned.pending (by rw [hnext]) (by rw [hnext])
    · have hnext : nextRegs r b = { counted r with zrun := 0#2 } :=
        (nextRegs_payload hpend hzero hone).trans (if_neg hkeep)
      have hsilent : nextLog r log b=log := nextLog_silent (by rw [hnext]; rfl)
      refine advances_to_rest (by rw [hnext]; exact hrest) (by rw [hnext]; exact hpend) ?_
        (fun c hc => Or.inl (by rwa [hsilent] at hc))
      rw [hnext]
      exact nil_suffix

theorem advances_pending (hnone : r.capTgt = .none) (hpend : r.pendType=true) :
    Advances (pre ++ startCodeBytes) r log b := by
  have hclose : closeCapture (counted r)=counted r := Resting.close (Or.inl hnone)
  have hnext := nextRegs_header (b := b) hpend
  unfold headerByte at hnext
  rw [hclose] at hnext
  have hopens : ∀ t : CapTarget, t ≠ .none → targetOf b=t →
      (nextRegs r b).capTgt=t → (nextRegs r b).pendType=false → (nextRegs r b).slDone=false →
      (nextRegs r b).zrun=0#2 → (nextRegs r b).epbZ=0#2 → (nextRegs r b).capLen=0#6 →
      events (nextRegs r b)=[CapEvent.clear t] → Advances (pre ++ startCodeBytes) r log b := by
    intro t hsome htype htarget hpayload hgoing hzrun hepb hlen hevents
    have hlog : nextLog r log b=log.record (.clear t) := by
      unfold nextLog
      rw [hevents]
      rfl
    have hopen : Open b [] (nextRegs r b) (nextLog r log b) :=
      { target := by rw [htarget,htype]
        some_ := by rw [htype]; exact hsome
        payload := hpayload
        going := hgoing
        zrun := by rw [hzrun]; rfl
        epbZ := by rw [hepb]; rfl
        free := by simp [startCodeBytes]
        held := by rw [hlog,htype]; exact Function.update_self _ _ _
        short := fun _ => by rw [hlen]; simp [removeEpb] }
    exact ⟨pre,startCodeBytes ++ [b],append_assoc _ _ _,Scanned.capturing hopen,
      fun c hc => Or.inl (by rwa [hlog] at hc)⟩
  have hrests : (nextRegs r b).capTgt = .none → (nextRegs r b).pendType=false →
      (nextRegs r b).zrun=0#2 → events (nextRegs r b)=[] →
      Advances (pre ++ startCodeBytes) r log b := by
    intro htarget hpayload hzrun hevents
    refine advances_to_rest (Or.inl htarget) hpayload ?_
      (fun c hc => Or.inl (by rwa [nextLog_silent hevents] at hc))
    rw [hzrun]
    exact nil_suffix
  split at hnext
  · next htype =>
    exact hopens .sps (by decide) (by simp [targetOf,htype]) (by rw [hnext]) (by rw [hnext])
      (by rw [hnext])
      (by rw [hnext]) (by rw [hnext]) (by rw [hnext]) (by rw [hnext]; rfl)
  · next htype =>
    exact hopens .pps (by decide) (by simp [targetOf,htype]) (by rw [hnext]) (by rw [hnext])
      (by rw [hnext])
      (by rw [hnext]) (by rw [hnext]) (by rw [hnext]) (by rw [hnext]; rfl)
  · next htype =>
    exact hopens .slice (by decide) (by simp [targetOf,htype]) (by rw [hnext]) (by rw [hnext])
      (by rw [hnext]) (by rw [hnext]) (by rw [hnext]) (by rw [hnext]) (by rw [hnext]; rfl)
  · next htype =>
    exact hopens .slice (by decide) (by simp [targetOf,htype]) (by rw [hnext]) (by rw [hnext])
      (by rw [hnext]) (by rw [hnext]) (by rw [hnext]) (by rw [hnext]) (by rw [hnext]; rfl)
  · exact hrests (by rw [hnext]) (by rw [hnext]) (by rw [hnext]) (by rw [hnext]; rfl)

variable {hdr : Byte}

theorem Open.target_cases (h : Open hdr raw r log) :
    targetOf hdr = .sps ∨ targetOf hdr = .pps ∨ targetOf hdr = .slice := by
  have hsome := h.some_
  cases htarget : targetOf hdr with
  | none => exact absurd htarget hsome
  | sps => exact Or.inl rfl
  | pps => exact Or.inr (Or.inl rfl)
  | slice => exact Or.inr (Or.inr rfl)

theorem Open.stored (h : Open hdr raw r log) : canStore (counted r)=true := by
  have htarget : (counted r).capTgt=targetOf hdr := h.target
  have hgoing : (counted r).slDone=false := h.going
  unfold canStore
  rw [htarget,hgoing]
  rcases h.target_cases with hs | hp | hl
  · simp [hs]
  · simp [hp]
  · have hlen : (counted r).capLen.toNat=(removeEpb raw).length := (h.short hl).2
    have hshort := (h.short hl).1
    rw [hl,hlen]
    simp [hshort]

/-- A byte is stored, and the unit stays under capture unless it is a slice with 48 bytes. -/
theorem advances_store (h : Open hdr raw r log) {t : ScanRegs}
    (hnext : nextRegs r b=storeByte (clearPulses t) b) (htarget : t.capTgt=r.capTgt)
    (hlen : t.capLen=r.capLen) (hpend : t.pendType=false) (hgoing : t.slDone=false)
    (hzrun : t.zrun.toNat=min (trailingZeros (raw ++ [b])) 3)
    (hepb : t.epbZ.toNat=min (trailingZeros (raw ++ [b])) 2)
    (hfree : ¬startCodeBytes <:+: raw ++ [b]) (hkeep : ¬(b=3#8 ∧ 2≤trailingZeros raw)) :
    Advances (pre ++ (startCodeBytes ++ hdr::raw)) r log b := by
  have hbytes : removeEpb (raw ++ [b]) = removeEpb raw ++ [b] := by
    rw [removeEpb_concat,if_neg hkeep]
  have hcap : (clearPulses t).capTgt=targetOf hdr := htarget.trans h.target
  have hseen : pre ++ (startCodeBytes ++ hdr::raw) ++ [b] =
      pre ++ (startCodeBytes ++ hdr::(raw ++ [b])) := by simp
  have hgoes : (nextRegs r b).capTgt=targetOf hdr → (nextRegs r b).pendType=false →
      (nextRegs r b).slDone=false → (nextRegs r b).zrun=t.zrun → (nextRegs r b).epbZ=t.epbZ →
      events (nextRegs r b)=[CapEvent.byte (targetOf hdr) b] →
      (targetOf hdr = .slice →
        (nextRegs r b).capLen=r.capLen+1 ∧ (removeEpb raw).length<47) →
      Advances (pre ++ (startCodeBytes ++ hdr::raw)) r log b := by
    intro hto hpayload hgo hz he hevents hroom
    have hlog : nextLog r log b=log.record (.byte (targetOf hdr) b) := by
      unfold nextLog
      rw [hevents]
      rfl
    refine ⟨pre,_,hseen,Scanned.capturing ⟨hto,h.some_,hpayload,hgo,by rw [hz,hzrun],
      by rw [he,hepb],hfree,?_,fun hslice => ?_⟩,fun c hc => Or.inl (by rwa [hlog] at hc)⟩
    · rw [hlog,hbytes,← h.held]
      exact Function.update_self _ _ _
    · have hcount := (h.short hslice).2
      obtain ⟨hl,hless⟩ := hroom hslice
      have hinc : (1 : BitVec 6).toNat=1 := rfl
      rw [hbytes,length_append,length_singleton,hl,BitVec.toNat_add,hinc]
      omega
  have hmain : targetOf hdr ≠ .slice → targetOf hdr = .sps ∨ targetOf hdr = .pps := fun hne => by
    rcases h.target_cases with hs | hp | hl
    · exact Or.inl hs
    · exact Or.inr hp
    · exact absurd hl hne
  by_cases hslice : targetOf hdr = .slice
  · have hcount := (h.short hslice).2
    have hcapLen : (clearPulses t).capLen=r.capLen := hlen
    rw [hslice] at hcap hgoes
    unfold storeByte at hnext
    rw [hcap,hcapLen] at hnext
    by_cases hlast : r.capLen=47#6
    · rw [if_pos ⟨rfl,hlast⟩] at hnext
      have hevents : events (nextRegs r b)=[CapEvent.byte .slice b,CapEvent.finish .slice] := by
        rw [hnext]
        rfl
      have hheld := h.held
      rw [hslice] at hheld
      have hlog : (nextLog r log b).closed = log.closed ++ [(.slice,removeEpb (raw ++ [b]))] := by
        unfold nextLog
        rw [hevents,hbytes,← hheld]
        simp [CaptureLog.after,CaptureLog.record]
      have hz : (nextRegs r b).zrun=t.zrun := by rw [hnext]; rfl
      refine advances_to_rest (Or.inr ⟨by rw [hnext]; rfl,by rw [hnext]⟩)
        (by rw [hnext]; exact hpend) ?_ ?_
      · have hsuffix := replicate_zrun_suffix (r := t) hzrun
        rw [hz,hseen]
        exact hsuffix.trans (((suffix_cons _ _).trans (suffix_append _ _)).trans
          (suffix_append _ _))
      · intro c hc
        rw [hlog] at hc
        rcases mem_append.mp hc with hold | hnew
        · exact Or.inl hold
        · rw [mem_singleton] at hnew
          subst hnew
          refine Or.inr ⟨pre,hdr,raw ++ [b],[],by simp,hslice,hfree,rfl,Or.inl ⟨rfl,?_⟩⟩
          have hnat : r.capLen.toNat=47 := by rw [hlast]; rfl
          rw [hbytes,length_append,length_singleton]
          omega
    · rw [if_neg (fun hc => hlast hc.2)] at hnext
      have hless : r.capLen.toNat≠47 := fun hc => hlast (BitVec.eq_of_toNat_eq hc)
      have hshort := (h.short hslice).1
      exact hgoes (by rw [hnext]) (by rw [hnext]; exact hpend)
        (by rw [hnext]; exact hgoing) (by rw [hnext]; rfl) (by rw [hnext]; rfl) (by rw [hnext]; rfl)
        (fun _ => ⟨by rw [hnext],by omega⟩)
  · obtain ⟨hev,hto,hp,hd,hz,he⟩ := storeByte_spec (r := t) b hcap (hmain hslice)
    exact hgoes (by rw [hnext,hto]) (by rw [hnext,hp,hpend]) (by rw [hnext,hd,hgoing])
      (by rw [hnext,hz]) (by rw [hnext,he]) (by rw [hnext,hev]) (fun hc => absurd hc hslice)

theorem advances_close (h : Open hdr raw r log) (htwo : 2≤r.zrun.toNat) :
    Advances (pre ++ (startCodeBytes ++ hdr::raw)) r log 1#8 := by
  have hzrun := h.zrun
  have hnext := nextRegs_startCode h.payload htwo
  have htarget : (counted r).capTgt=targetOf hdr := h.target
  have hgoing : (counted r).slDone=false := h.going
  have hevents : events (nextRegs r 1#8)=[CapEvent.finish (targetOf hdr)] := by
    rw [hnext,startCode,closeCapture,htarget,hgoing]
    rcases h.target_cases with hs | hp | hl
    · rw [hs]
      rfl
    · rw [hp]
      rfl
    · rw [hl]
      rfl
  have hlog : (nextLog r log 1#8).closed = log.closed ++ [(targetOf hdr,removeEpb raw)] := by
    unfold nextLog
    rw [hevents,← h.held]
    rfl
  have hzeros : [0#8,0#8] <:+ raw := (replicate_suffix_iff 2 raw).mpr (by omega)
  obtain ⟨front,hfront⟩ := hzeros
  refine ⟨pre ++ (startCodeBytes ++ hdr::front),startCodeBytes,?_,
    Scanned.pending (by rw [hnext]; rfl) (by rw [hnext]; rfl),?_⟩
  · rw [← hfront]
    simp [startCodeBytes]
  · intro c hc
    rw [hlog] at hc
    rcases mem_append.mp hc with hold | hnew
    · exact Or.inl hold
    · rw [mem_singleton] at hnew
      subst hnew
      exact Or.inr ⟨pre,hdr,raw,[1#8],by simp,rfl,h.free,rfl,
        Or.inr ⟨fun hslice => (h.short hslice).1,⟨front,hfront⟩,rfl⟩⟩

theorem advances_capturing (h : Open hdr raw r log) :
    Advances (pre ++ (startCodeBytes ++ hdr::raw)) r log b := by
  have hfree : ¬(b=1#8 ∧ 2≤trailingZeros raw) → ¬startCodeBytes <:+: raw ++ [b] := fun hno hc =>
    ((startCode_infix_concat raw b).mp hc).elim h.free hno
  have hzrun := h.zrun
  have hepb := h.epbZ
  by_cases hzero : b=0#8
  · subst hzero
    refine advances_store (t := { counted r with
        zrun := if r.zrun.toNat < 3 then r.zrun+1 else r.zrun,
        epbZ := if r.epbZ.toNat < 2 then r.epbZ+1 else r.epbZ }) h ?_ rfl rfl h.payload h.going
      ?_ ?_ (hfree (by simp)) (by simp)
    · exact (nextRegs_zero h.payload).trans (if_pos h.stored)
    · rw [trailingZeros_concat,if_pos rfl]
      exact zrun_next hzrun
    · rw [trailingZeros_concat,if_pos rfl]
      exact epbZ_next hepb
  · by_cases hone : b=1#8 ∧ 2≤r.zrun.toNat
    · obtain ⟨rfl,htwo⟩ := hone
      exact advances_close h htwo
    · have hno : ¬(b=1#8 ∧ 2≤trailingZeros raw) := fun hc => hone ⟨hc.1,by omega⟩
      have hnext := nextRegs_payload h.payload hzero hone
      unfold payloadByte at hnext
      rw [if_pos h.stored] at hnext
      by_cases hthree : b=3#8 ∧ 2≤r.epbZ.toNat
      · have hskip : nextRegs r b = { counted r with zrun := 0#2, epbZ := 0#2 } :=
          hnext.trans (if_pos hthree)
        have hzeros : trailingZeros (raw ++ [b])=0 := by rw [trailingZeros_concat,if_neg hzero]
        have hsilent : nextLog r log b=log := nextLog_silent (by rw [hskip]; rfl)
        refine ⟨pre,startCodeBytes ++ hdr::(raw ++ [b]),by simp,Scanned.capturing
          ⟨by rw [hskip]; exact h.target,h.some_,by rw [hskip]; exact h.payload,
            by rw [hskip]; exact h.going,?_,?_,hfree hno,?_,?_⟩,
          fun c hc => Or.inl (by rwa [hsilent] at hc)⟩
        · rw [hskip,hzeros]
          rfl
        · rw [hskip,hzeros]
          rfl
        · rw [hsilent,removeEpb_concat,if_pos ⟨hthree.1,by omega⟩,append_nil]
          exact h.held
        · rw [hskip,removeEpb_concat,if_pos ⟨hthree.1,by omega⟩,append_nil]
          exact h.short
      · refine advances_store (t := { counted r with zrun := 0#2, epbZ := 0#2 }) h ?_ rfl rfl
          h.payload h.going ?_ ?_ (hfree hno) (fun hc => hthree ⟨hc.1,by omega⟩)
        · exact hnext.trans (if_neg hthree)
        · rw [trailingZeros_concat,if_neg hzero]
          rfl
        · rw [trailingZeros_concat,if_neg hzero]
          rfl

theorem Scanned.advances {since : List Byte} (h : Scanned since r log) :
    Advances (pre ++ since) r log b := by
  cases h with
  | resting hrest hpend => exact advances_resting hrest hpend
  | pending hnone hpend => exact advances_pending hnone hpend
  | capturing hopen => exact advances_capturing hopen

theorem Scanned.clearPulses {since : List Byte} (h : Scanned since r log) :
    Scanned since (NaluScanner.clearPulses r) log := by
  cases h with
  | resting hrest hpend => exact Scanned.resting (r := NaluScanner.clearPulses r) hrest hpend
  | pending hnone hpend => exact Scanned.pending hnone hpend
  | capturing hopen =>
    exact Scanned.capturing { hopen with }

theorem BetweenUnits.scanned (h : BetweenUnits r) (log : CaptureLog) : Scanned [] r log := by
  have hscan : Scanned (replicate r.zrun.toNat 0#8) r log := Scanned.resting h.1 h.2.1
  rwa [h.2.2] at hscan

theorem FromUnit.bounded {stream : List Byte} {c : CapTarget × List Byte} (h : FromUnit stream c) :
    ∃ n ≤ stream.length, ∃ m ≤ stream.length, c.2=removeEpb ((stream.drop n).take m) := by
  obtain ⟨front,hdr,raw,post,rfl,_,_,hbytes,_⟩ := h
  have hfront : front ++ startCodeBytes ++ hdr::raw ++ post =
      (front ++ startCodeBytes ++ [hdr]) ++ (raw ++ post) := by simp
  refine ⟨(front ++ startCodeBytes ++ [hdr]).length,?_,raw.length,?_,?_⟩
  · rw [hfront]
    exact List.IsPrefix.length_le (prefix_append _ _)
  · simp only [length_append,length_cons]
    omega
  · rw [hfront,drop_left,take_left]
    exact hbytes

end Misterplex.UnitCapture
