import Misterplex.Header.PpsAgreement
import Misterplex.Header.Rest
import Misterplex.Rbsp.UnitCapture

/-!
# Units one after another

What the three header parsers make of a sequence of captured units, when each
of them is given to its parser alone and the parser is left alone until it is at
rest. A slice sees the values of the sets before it. Time does not occur here.

The pulses of the scanner make up such units: a port is cleared, gets its bytes and
ends, and no other port pulses in between. Which units they are is a function of the
bytes scanned.
-/

namespace Misterplex.Header

open BitString BitGrammar Cavlc Emulation ParserText List
open NaluScanner (CapTarget)

/-- A captured unit. -/
structure CapturedUnit where
  target : CapTarget
  /-- Its bytes without emulation prevention. -/
  bytes : List Byte
  /-- Of its header. -/
  (isIdr nalRef : Bool)
  deriving DecidableEq, Repr

/-- The parser with other bytes in its buffer. -/
def Parser.holding {σ ρ : Type} (p : Parser σ ρ) (mem : List Byte) : Parser σ ρ :=
  { p with walk := { p.walk with mem } }

/-- The parsers. -/
structure Parsers where
  /-- The parser of sequence parameter sets. -/
  sps : SpsParser
  /-- The parser of picture parameter sets. -/
  pps : PpsParser
  /-- The parser of slices. -/
  slice : SliceParser

/-- The parsers after reset. -/
def Parsers.reset : Parsers := ⟨SpsParser.reset,PpsParser.reset,SliceParser.reset⟩

/-- The input wires of the slice parser, with what the two others show. -/
def slicePort (cap : CapPort) (isIdr nalRef : Bool) (s : SpsRegs) (o : PpsOut) : SlicePort where
  cap := cap
  isIdrNal := isIdr
  nalRefIdcNonzero := nalRef
  log2MaxFrameNum := s.log2MaxFrameNum
  pocType := s.pocType
  spsReady := s.valid
  ppsReady := o.valid
  deblockCtrl := o.deblockCtrl
  picInitQp := o.picInitQp

/-- The parser of sequence parameter sets, left alone. -/
def settleSps (p : SpsParser) : SpsParser := spsOrdered.settling.settle p

/-- The parser of picture parameter sets, left alone. -/
def settlePps (p : PpsParser) : PpsParser := ppsOrdered.settling.settle p

/-- The slice parser, left alone. -/
def settleSlice (p : SliceParser) : SliceParser := sliceOrdered.settling.settle p

/-- A unit is parsed from its own bytes, and a slice with the values of the sets before it. -/
def Parsers.parse (P : Parsers) (u : CapturedUnit) : Parsers :=
  match u.target with
  | .sps => { P with sps := settleSps (SpsParser.start (P.sps.holding (u.bytes.take maxB))) }
  | .pps => { P with pps := settlePps (PpsParser.start (P.pps.holding (u.bytes.take ppsMaxB))) }
  | .slice =>
    { P with
      slice := settleSlice (SliceParser.start (P.slice.cleared.holding (u.bytes.take maxB))
        (slicePort CapPort.close u.isIdr u.nalRef P.sps.regs P.pps.regs.out)) }
  | .none => P

variable (us : List CapturedUnit)

/-- The parsers after a sequence of units. -/
def parsed : Parsers := us.foldl Parsers.parse Parsers.reset

/-- What the parsers show behind each unit for one of them. -/
def shownFor {α : Type} (t : CapTarget) (show_ : Parsers → α) (P : Parsers) :
    List CapturedUnit → List α
  | [] => []
  | u::us =>
    (if u.target = t then [show_ (P.parse u)] else []) ++ shownFor t show_ (P.parse u) us

/-- What is parsed of the sequence parameter sets. -/
def spsParses : List SpsRegs := shownFor .sps (·.sps.regs) Parsers.reset us

/-- What is parsed of the picture parameter sets. -/
def ppsParses : List PpsRegs := shownFor .pps (·.pps.regs) Parsers.reset us

/-- What is parsed of the slices. -/
def sliceParses : List SliceRegs :=
  shownFor .slice (·.slice.regs) Parsers.reset us

theorem parsed_concat (u : CapturedUnit) :
    parsed (us ++ [u])=(parsed us).parse u := foldl_append

theorem shownFor_concat {α : Type} (t : CapTarget) (show_ : Parsers → α) (P : Parsers)
    (us : List CapturedUnit) (u : CapturedUnit) :
    shownFor t show_ P (us ++ [u]) = shownFor t show_ P us ++
      if u.target = t then [show_ ((us.foldl Parsers.parse P).parse u)] else [] := by
  induction us generalizing P with
  | nil => exact append_nil _
  | cons v us ih => simp only [cons_append,shownFor,ih,append_assoc,foldl_cons]

theorem length_shownFor {α : Type} (t : CapTarget) (show_ : Parsers → α) (P : Parsers)
    (us : List CapturedUnit) :
    (shownFor t show_ P us).length=(us.filter fun u => u.target=t).length := by
  induction us generalizing P with
  | nil => rfl
  | cons u us ih =>
    rw [shownFor,length_append,ih,filter_cons]
    by_cases ht : u.target=t
    · rw [if_pos ht,if_pos (decide_eq_true ht),length_singleton,length_cons]
      omega
    · rw [if_neg ht,if_neg (by rw [decide_eq_true_eq]; exact ht),length_nil,Nat.zero_add]

open NaluScanner (ScanRegs CapTarget clearPulses canStore storeByte)
open UnitCapture (nextRegs counted nextRegs_header nextRegs_zero nextRegs_startCode
  nextRegs_payload)

/-- The capture port of a target. -/
def portOf (r : ScanRegs) : CapTarget → NaluScanner.CapPort
  | .sps => r.sps
  | .pps => r.pps
  | .slice => r.sl
  | .none => NaluScanner.CapPort.idle

/-- The bytes held for a port after its pulses, before an end. -/
def heldAfter (p : NaluScanner.CapPort) (held : Option (List Byte)) : Option (List Byte) :=
  let opened := if p.clear then some [] else held
  if p.en then opened.map (· ++ [p.data]) else opened

/-- What the ports have brought. -/
structure Captures where
  /-- The bytes of the unit under capture, for each port. -/
  held : CapTarget → Option (List Byte)
  /-- The units whose capture has ended. -/
  units : List CapturedUnit

namespace Captures

/-- Nothing yet. -/
def empty : Captures := ⟨fun _ => none,[]⟩

/-- The unit that ends at a port, if one does. -/
def ending (c : Captures) (r : ScanRegs) (t : CapTarget) : List CapturedUnit :=
  if (portOf r t).finish then
    [⟨t,(heldAfter (portOf r t) (c.held t)).getD [],r.slIsIdr,r.slNalRefIdcNonzero⟩]
  else []

/-- The pulses of a cycle. -/
def hear (c : Captures) (r : ScanRegs) : Captures where
  held t := if (portOf r t).finish then none else heldAfter (portOf r t) (c.held t)
  units := c.units ++ (c.ending r .sps ++ c.ending r .pps ++ c.ending r .slice)

end Captures

/-- The scanner and what its pulses have made. -/
structure Scan where
  /-- The scanner's registers. -/
  regs : ScanRegs
  /-- What is captured. -/
  captures : Captures

namespace Scan

/-- Before the first byte. -/
def start : Scan := ⟨ScanRegs.cleared,Captures.empty⟩

/-- One more byte. -/
def next (s : Scan) (b : Byte) : Scan where
  regs := nextRegs s.regs b
  captures := s.captures.hear (nextRegs s.regs b)

end Scan

/-- The scan of some bytes. -/
def scanOf (bytes : List Byte) : Scan := bytes.foldl Scan.next Scan.start

/-- The units captured from some bytes. -/
def unitsOf (bytes : List Byte) : List CapturedUnit := (scanOf bytes).captures.units

/-- No pulse. -/
structure Silent (p : NaluScanner.CapPort) : Prop where
  clear : p.clear=false
  en : p.en=false
  finish : p.finish=false

/-- The pulses of a cycle, with the bytes that are held before it. -/
inductive Pulses (held : CapTarget → Option (List Byte)) (r : ScanRegs) : Prop
  | silent (h : ∀ t, Silent (portOf r t))
  | clear (t : CapTarget) (hother : ∀ u≠t, Silent (portOf r u)) (hclear : (portOf r t).clear=true)
      (hen : (portOf r t).en=false) (hfinish : (portOf r t).finish=false)
  /-- A byte of the unit under capture. -/
  | byte (t : CapTarget) (bytes : List Byte) (hheld : held t=some bytes)
      (hother : ∀ u≠t, Silent (portOf r u)) (hclear : (portOf r t).clear=false)
      (hen : (portOf r t).en=true) (hfinish : (portOf r t).finish=false)
  | finish (t : CapTarget) (bytes : List Byte) (hheld : held t=some bytes)
      (hother : ∀ u≠t, Silent (portOf r u)) (hclear : (portOf r t).clear=false)
      (hen : (portOf r t).en=false) (hfinish : (portOf r t).finish=true)
  | last (bytes : List Byte) (hheld : held .slice=some bytes)
      (hother : ∀ u≠CapTarget.slice, Silent (portOf r u)) (hclear : r.sl.clear=false)
      (hen : r.sl.en=true) (hfinish : r.sl.finish=true)

/-- The unit that the scanner captures has its bytes held. -/
def HoldsUnit (held : CapTarget → Option (List Byte)) (r : ScanRegs) : Prop :=
  r.capTgt ≠ .none → (r.capTgt = .slice → r.slDone=false) → held r.capTgt≠none

/-- The pulses after a byte, and what is held behind them. -/
def Heard (held : CapTarget → Option (List Byte)) (r : ScanRegs) : Prop :=
  Pulses held r ∧
    HoldsUnit (fun t => if (portOf r t).finish then none else heldAfter (portOf r t) (held t)) r

variable {held : CapTarget → Option (List Byte)} {r : ScanRegs}

theorem heldAfter_silent {p : NaluScanner.CapPort} (h : Silent p) (bytes : Option (List Byte)) :
    (if p.finish then none else heldAfter p bytes)=bytes := by
  rw [h.finish,heldAfter,h.clear,h.en]
  rfl

theorem silent_clearPulses (r : ScanRegs) (t : CapTarget) : Silent (portOf (clearPulses r) t) := by
  cases t <;> exact ⟨rfl,rfl,rfl⟩

open Pulses

theorem heard_silent {r' : ScanRegs} (hsilent : ∀ t, Silent (portOf r' t)) (hholds : HoldsUnit held r)
    (htarget : r'.capTgt = .none ∨ r'.capTgt=r.capTgt ∧ r'.slDone=r.slDone) : Heard held r' := by
  refine ⟨silent hsilent,?_⟩
  intro hsome hgoing
  dsimp only
  rw [heldAfter_silent (hsilent _)]
  rcases htarget with hnone | ⟨hsame,hdone⟩
  · exact absurd hnone hsome
  · rw [hsame] at hsome hgoing ⊢
    exact hholds hsome (hdone ▸ hgoing)

theorem heldAfter_byte {p : NaluScanner.CapPort} {bytes : List Byte} (hclear : p.clear=false)
    (hen : p.en=true) (hfinish : p.finish=false) :
    (if p.finish then none else heldAfter p (some bytes))=some (bytes ++ [p.data]) := by
  rw [hfinish,heldAfter,hclear,hen]
  rfl

theorem heard_byte {t : CapTarget} {bytes : List Byte} (hheld : held t=some bytes)
    (htarget : r.capTgt=t) (hother : ∀ u≠t, Silent (portOf r u))
    (hclear : (portOf r t).clear=false) (hen : (portOf r t).en=true)
    (hfinish : (portOf r t).finish=false) : Heard held r := by
  refine ⟨byte t bytes hheld hother hclear hen hfinish,?_⟩
  intro _ _
  dsimp only
  rw [htarget,hheld,heldAfter_byte hclear hen hfinish]
  exact Option.some_ne_none _

theorem heard_store {t : ScanRegs} {b : Byte} (hholds : HoldsUnit held t) (hsome : t.capTgt ≠ .none)
    (hgoing : t.slDone=false) : Heard held (storeByte (clearPulses t) b) := by
  obtain ⟨bytes,hheld⟩ := Option.ne_none_iff_exists'.mp (hholds hsome fun _ => hgoing)
  have hkeep : (clearPulses t).capTgt=t.capTgt := rfl
  unfold storeByte
  rw [hkeep]
  cases htarget : t.capTgt with
  | none => exact absurd htarget hsome
  | sps =>
    rw [htarget] at hheld
    refine heard_byte hheld rfl ?_ rfl rfl rfl
    intro u hu
    cases u with
    | sps => exact absurd rfl hu
    | _ => exact ⟨rfl,rfl,rfl⟩
  | pps =>
    rw [htarget] at hheld
    refine heard_byte hheld rfl ?_ rfl rfl rfl
    intro u hu
    cases u with
    | pps => exact absurd rfl hu
    | _ => exact ⟨rfl,rfl,rfl⟩
  | slice =>
    rw [htarget] at hheld
    dsimp only
    split
    · refine ⟨last bytes hheld ?_ rfl rfl rfl,?_⟩
      · intro u hu
        cases u with
        | slice => exact absurd rfl hu
        | _ => exact ⟨rfl,rfl,rfl⟩
      · intro _ hdone
        exact Bool.noConfusion (hdone rfl)
    · refine heard_byte hheld rfl ?_ rfl rfl rfl
      intro u hu
      cases u with
      | slice => exact absurd rfl hu
      | _ => exact ⟨rfl,rfl,rfl⟩

open NaluScanner

theorem heard_startCode (hholds : HoldsUnit held r) :
    Heard held (NaluScanner.startCode (counted r)) := by
  have htarget : (counted r).capTgt=r.capTgt := rfl
  have hdone : (counted r).slDone=r.slDone := rfl
  refine ⟨?_,fun hsome => absurd rfl hsome⟩
  unfold NaluScanner.startCode NaluScanner.closeCapture
  rw [htarget,hdone]
  cases hcase : r.capTgt with
  | none =>
    refine silent fun t => ?_
    cases t <;> exact ⟨rfl,rfl,rfl⟩
  | sps =>
    obtain ⟨bytes,hheld⟩ := Option.ne_none_iff_exists'.mp
      (hholds (by rw [hcase]; nofun) (by rw [hcase]; nofun))
    rw [hcase] at hheld
    refine finish .sps bytes hheld ?_ rfl rfl rfl
    intro u hu
    cases u with
    | sps => exact absurd rfl hu
    | _ => exact ⟨rfl,rfl,rfl⟩
  | pps =>
    obtain ⟨bytes,hheld⟩ := Option.ne_none_iff_exists'.mp
      (hholds (by rw [hcase]; nofun) (by rw [hcase]; nofun))
    rw [hcase] at hheld
    refine finish .pps bytes hheld ?_ rfl rfl rfl
    intro u hu
    cases u with
    | pps => exact absurd rfl hu
    | _ => exact ⟨rfl,rfl,rfl⟩
  | slice =>
    cases hslice : r.slDone with
    | true =>
      refine silent fun t => ?_
      cases t <;> exact ⟨rfl,rfl,rfl⟩
    | false =>
      obtain ⟨bytes,hheld⟩ := Option.ne_none_iff_exists'.mp
        (hholds (by rw [hcase]; nofun) fun _ => hslice)
      rw [hcase] at hheld
      refine finish .slice bytes hheld ?_ rfl rfl rfl
      intro u hu
      cases u with
      | slice => exact absurd rfl hu
      | _ => exact ⟨rfl,rfl,rfl⟩

theorem heard_clear {t : CapTarget} (htarget : r.capTgt=t) (hother : ∀ u≠t, Silent (portOf r u))
    (hclear : (portOf r t).clear=true) (hen : (portOf r t).en=false)
    (hfinish : (portOf r t).finish=false) : Heard held r := by
  refine ⟨clear t hother hclear hen hfinish,?_⟩
  intro _ _
  dsimp only
  rw [htarget,hfinish,heldAfter,hclear,hen]
  exact Option.some_ne_none _

theorem heard_header {b : Byte} (hnone : r.capTgt = .none) :
    Heard held (NaluScanner.headerByte (counted r) b) := by
  have hclose : closeCapture (counted r)=counted r :=
    UnitCapture.Resting.close (Or.inl hnone)
  unfold headerByte
  rw [hclose]
  split
  · refine heard_clear (t := .sps) rfl ?_ rfl rfl rfl
    intro u hu
    cases u with
    | sps => exact absurd rfl hu
    | _ => exact ⟨rfl,rfl,rfl⟩
  · refine heard_clear (t := .pps) rfl ?_ rfl rfl rfl
    intro u hu
    cases u with
    | pps => exact absurd rfl hu
    | _ => exact ⟨rfl,rfl,rfl⟩
  · refine heard_clear (t := .slice) rfl ?_ rfl rfl rfl
    intro u hu
    cases u with
    | slice => exact absurd rfl hu
    | _ => exact ⟨rfl,rfl,rfl⟩
  · refine heard_clear (t := .slice) rfl ?_ rfl rfl rfl
    intro u hu
    cases u with
    | slice => exact absurd rfl hu
    | _ => exact ⟨rfl,rfl,rfl⟩
  · refine ⟨silent fun t => ?_,fun hsome => absurd rfl hsome⟩
    cases t <;> exact ⟨rfl,rfl,rfl⟩

theorem stored_of_canStore (h : canStore (counted r)=true) :
    r.capTgt ≠ .none ∧ r.slDone=false := by
  unfold canStore at h
  simp only [Bool.and_eq_true,bne_iff_ne,Bool.not_eq_true'] at h
  exact ⟨h.1.1,h.1.2⟩

theorem heard_nextRegs (b : Byte) (hvalid : NaluScanner.Valid r) (hholds : HoldsUnit held r) :
    Heard held (nextRegs r b) := by
  cases hpend : r.pendType with
  | true =>
    rw [nextRegs_header hpend]
    exact heard_header (hvalid hpend)
  | false =>
    by_cases hzero : b=0#8
    · subst hzero
      rw [nextRegs_zero hpend]
      unfold zeroByte
      by_cases hstore : canStore (counted r)=true
      · rw [if_pos hstore]
        obtain ⟨hsome,hgoing⟩ := stored_of_canStore hstore
        exact heard_store (t := { counted r with
          zrun := if (counted r).zrun.toNat < 3 then (counted r).zrun+1 else (counted r).zrun
          epbZ := if (counted r).epbZ.toNat < 2 then (counted r).epbZ+1 else (counted r).epbZ })
          hholds hsome hgoing
      · rw [if_neg hstore]
        refine heard_silent (fun t => ?_) hholds (Or.inr ⟨rfl,rfl⟩)
        cases t <;> exact ⟨rfl,rfl,rfl⟩
    · by_cases hone : b=1#8 ∧ 2≤r.zrun.toNat
      · obtain ⟨rfl,htwo⟩ := hone
        rw [nextRegs_startCode hpend htwo]
        exact heard_startCode hholds
      · rw [nextRegs_payload hpend hzero hone]
        unfold payloadByte
        have hsilent : ∀ t : ScanRegs, (∀ u, Silent (portOf t u)) → t.capTgt=r.capTgt →
            t.slDone=r.slDone → Heard held t := fun t hports htarget hdone =>
          heard_silent hports hholds (Or.inr ⟨htarget,hdone⟩)
        by_cases hstore : canStore (counted r)=true
        · rw [if_pos hstore]
          obtain ⟨hsome,hgoing⟩ := stored_of_canStore hstore
          by_cases hthree : b=3#8 ∧ 2≤(counted r).epbZ.toNat
          · rw [if_pos hthree]
            refine hsilent _ (fun u => ?_) rfl rfl
            cases u <;> exact ⟨rfl,rfl,rfl⟩
          · rw [if_neg hthree]
            exact heard_store (t := { counted r with zrun := 0#2, epbZ := 0#2 }) hholds hsome hgoing
        · rw [if_neg hstore]
          refine hsilent _ (fun u => ?_) rfl rfl
          cases u <;> exact ⟨rfl,rfl,rfl⟩

/-- What is known of the scan of any bytes. -/
structure Scan.Sound (s : Scan) : Prop where
  /-- No unit is under capture where a header is due. -/
  valid : NaluScanner.Valid s.regs
  holds : HoldsUnit s.captures.held s.regs

/-- A byte keeps the captures, and its pulses are what they ask for. -/
theorem Scan.Sound.next {s : Scan} (h : s.Sound) (b : Byte) :
    (s.next b).Sound ∧ Pulses s.captures.held (nextRegs s.regs b) := by
  obtain ⟨hpulses,hholds⟩ := heard_nextRegs b h.valid h.holds
  exact ⟨⟨valid_consumeByte _ b,hholds⟩,hpulses⟩

theorem scanOf_concat (bytes : List Byte) (b : Byte) : scanOf (bytes ++ [b])=(scanOf bytes).next b :=
  foldl_append

theorem sound_scanOf (bytes : List Byte) : (scanOf bytes).Sound := by
  induction bytes using reverseRecOn with
  | nil => exact ⟨fun hpend => absurd hpend Bool.false_ne_true,fun hsome => absurd rfl hsome⟩
  | append_singleton bytes b ih =>
    rw [scanOf_concat]
    exact (ih.next b).1

end Misterplex.Header
