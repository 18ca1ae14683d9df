import Mathlib.Data.BitVec

/-!
# Reset and flush pulses over the status word

Reset and the two flushes are status bits that are raised by one status write and lowered by
another. A write merges the private copy of the status with the low half that the core reports
and sends nine SPI words. Each reading and each write may be refused or stop midway, and the
core has taken the low half with the second SPI word, whether or not the others follow.
-/

namespace Misterplex.StatusPulse

/-- The bytes of a status word. -/
abbrev Status := Fin 16 → BitVec 8

/-- Byte of a status bit. -/
def byteOf (bit : ℕ) : Fin 16 := Fin.ofNat 16 (bit/8)

/-- Bit of a status word. -/
def getBit (w : Status) (bit : ℕ) : Bool := (w (byteOf bit)).getLsbD (bit%8)

/-- Set or clear one bit of a status word. -/
def setBit (w : Status) (bit : ℕ) (value : Bool) : Status :=
  Function.update w (byteOf bit)
    (if value then w (byteOf bit) ||| (1#8 <<< (bit%8))
    else w (byteOf bit) &&& ~~~(1#8 <<< (bit%8)))

/-- How the handshake of one SPI word ends. A word without its acknowledgement may have reached
the core all the same. -/
inductive WordOutcome
  | acked
  | ackTimeoutSet (latched : Bool)
  | ackTimeoutClr
  | notUserMode (latched : Bool)
  deriving DecidableEq, Repr

/-- Error text that spiWord leaves. -/
def WordOutcome.err : WordOutcome → Option String
  | .acked => none
  | .ackTimeoutSet _ => some "SPI ACK timeout (set)"
  | .ackTimeoutClr => some "SPI ACK timeout (clr)"
  | .notUserMode _ => some "FPGA not in user mode"

/-- The core has taken the word. -/
def WordOutcome.latched : WordOutcome → Bool
  | .acked => true
  | .ackTimeoutSet latched => latched
  | .ackTimeoutClr => true
  | .notUserMode latched => latched

/-- What a status write meets on the bus. -/
structure WriteTurn where
  /-- SpiExclusive has the bus. -/
  safe : Bool
  /-- gpiUserMode before the transfer. -/
  userMode : Bool
  /-- The handshake of each SPI word, the command being word 0. -/
  words : ℕ → WordOutcome

/-- What a status reading meets on the bus. -/
structure ReadTurn where
  /-- The bus is safe to use. -/
  safe : Bool
  /-- The FPGA is in user mode. -/
  userMode : Bool
  /-- The bytes that readStatusRaw fetches, or the text of its error. -/
  answer : Except String Status

/-- The object that drives the bus, and the core behind it. -/
structure Spi where
  /-- The register window is mapped. -/
  ok : Bool
  /-- Private copy of the status. -/
  status : Status
  /-- The last error. -/
  err : String
  /-- Status register of the core. -/
  core : Status
  /-- Status words of the running call whose low half the core took, the newest first. -/
  sent : List Status

/-- The words of one status write: the command and eight of data. -/
def kStatusWriteSpiWords : ℕ := 1+8

/-- SPI word `i` of a status write replaces two bytes of the register; word 0 is the command. -/
def latch (w : Status) (i : ℕ) (core : Status) : Status :=
  fun k => if k.val/2+1 = i then w k else core k

/-- Issue the SPI words of a status write until one fails. -/
def commitFrom (w : Status) (words : ℕ → WordOutcome) : ℕ → ℕ → Status → Option String × Status
  | 0,_,core => (none,core)
  | n+1,i,core =>
    let core' := if (words i).latched then latch w i core else core
    match (words i).err with
    | none => commitFrom w words n (i+1) core'
    | some e => (some e,core')

/-- The core takes the low half of the status word. -/
def tookLow (words : ℕ → WordOutcome) : Bool := words 0 == .acked && (words 1).latched

variable (s : Spi)

/-- Write the whole status word, one SPI word after another. -/
def writeStatusWordRaw (t : WriteTurn) (w : Status) : Bool × Spi :=
  let r := commitFrom w t.words kStatusWriteSpiWords 0 s.core
  let s := { s with core := r.2, sent := if tookLow t.words then w::s.sent else s.sent }
  match r.1 with
  | none => (true,{ s with err := "", status := w })
  | some e => (false,{ s with err := e })

/-- Write the status word when the bus is safe to use. -/
def setStatusWord (t : WriteTurn) (w : Status) : Bool × Spi :=
  if s.ok = false then (false,{ s with err := "setStatusWord: bad args" })
  else if t.safe = false then (false,{ s with err := "Main busy on SPI — skipped" })
  else if t.userMode = false then (false,{ s with err := "FPGA not in user mode" })
  else
    let r := writeStatusWordRaw s t w
    (r.2.err.isEmpty,r.2)

/-- Read the status word back from the core. -/
def getCoreStatus (t : ReadTurn) : Option Status × Spi :=
  if s.ok = false then (none,{ s with err := "getCoreStatus: not open" })
  else if t.safe = false then (none,{ s with err := "Main busy on SPI — skipped" })
  else if t.userMode = false then (none,{ s with err := "FPGA not in user mode" })
  else match t.answer with
    | .error e => (none,{ s with err := e })
    | .ok live => (some live,{ s with err := "" })

/-- The two low bytes as the core reports them. -/
def liveLow (w live : Status) : Status := fun k => if k.val < 2 then live k else w k

/-- Set one bit: the low sixteen in the word that the core reports, the others in the last one
written. -/
def setStatusBit (r : ReadTurn) (t : WriteTurn) (bit value : ℤ) : Bool × Spi :=
  if s.ok = false ∨ bit<0 ∨ 127 < bit then (false,{ s with err := "setStatusBit: bad args" })
  else if bit < 16 then
    let c := getCoreStatus s r
    let word := match c.1 with
      | none => s.status
      | some live =>
        if bit ≠ 0 then setBit (liveLow s.status live) 0 false else liveLow s.status live
    setStatusWord c.2 t (setBit word bit.toNat (value≠0))
  else setStatusWord s t (setBit s.status bit.toNat (value≠0))

/-- The base of setStatusBits: the low half that the core reports unless it is zero, and its
aspect ratio bits if there are any. -/
def mergeLive (w live : Status) : Status :=
  let w := if live 1 ++ live 0 ≠ 0#16 then liveLow w live else w
  if live 15 &&& 0x06#8 ≠ 0#8 then
    Function.update w 15 ((w 15 &&& ~~~0x06#8) ||| (live 15 &&& 0x06#8))
  else w

/-- The loop over the pairs: the word and want_pulse0, or a bit out of range. -/
def applyPairs : List (ℤ × ℤ) → Status → Bool → Option (Status × Bool)
  | [],w,wantPulse0 => some (w,wantPulse0)
  | (bit,value)::pairs,w,wantPulse0 =>
    if bit < 0 ∨ 127 < bit then none
    else applyPairs pairs (setBit w bit.toNat (value≠0)) (wantPulse0 || (bit = 0 && value ≠ 0))

/-- Some pair sets a bit. -/
def wants (pairs : List (ℤ × ℤ)) (bit : ℤ) : Bool := pairs.any fun p => p.1 = bit && p.2 ≠ 0

/-- Set every pair in the status word and write it; a set bit 0 is lowered by a second write. -/
def setStatusBits (r : ReadTurn) (t₁ t₂ : WriteTurn) (pairs : List (ℤ × ℤ)) : Bool × Spi :=
  if s.ok = false ∨ pairs = [] then (false,{ s with err := "setStatusBits: bad args" })
  else
    let c := getCoreStatus s r
    let word := match c.1 with
      | none => s.status
      | some live => mergeLive s.status live
    match applyPairs pairs word false with
    | none => (false,{ c.2 with err := "setStatusBits: bit out of range" })
    | some (word,wantPulse0) =>
      let word := if wantPulse0 then word else setBit word 0 false
      let word := if wants pairs 10 then word else setBit word 10 false
      let word := if wants pairs 11 then word else setBit word 11 false
      let a := setStatusWord c.2 t₁ word
      if a.1 = false then (false,a.2)
      else if wantPulse0 then setStatusWord a.2 t₂ (setBit word 0 false)
      else (true,a.2)

/-- How the mapping of the bitstream ring ends. -/
inductive DdrMap
  | mapped
  | openFailed
  | mmapFailed
  deriving DecidableEq, Repr

/-- Flush the ring: only its mapping can fail. -/
def flushBitstreamDdr : DdrMap → Bool × Spi
  | .mapped => (true,{ s with err := "" })
  | .openFailed => (false,{ s with err := "ensureBitstreamDdrMap: open /dev/mem failed" })
  | .mmapFailed => (false,{ s with err := "ensureBitstreamDdrMap: mmap bitstream ring failed" })

/-- Raise and lower the audio flush bit. -/
def flushAudioFifo (r₁ : ReadTurn) (t₁ : WriteTurn) (r₂ : ReadTurn) (t₂ : WriteTurn) :
    Bool × Spi :=
  let a := setStatusBit s r₁ t₁ 10 1
  if a.1 = false then (false,a.2) else setStatusBit a.2 r₂ t₂ 10 0

/-- Flush the ring, then raise and lower the FIFO's flush bit. -/
def flushBitstreamFifo (d : DdrMap) (r₁ : ReadTurn) (t₁ : WriteTurn) (r₂ : ReadTurn)
    (t₂ : WriteTurn) : Bool × Spi :=
  let ddr := flushBitstreamDdr s d
  let a := setStatusBit ddr.2 r₁ t₁ 11 1
  if a.1 = false then (ddr.1,a.2)
  else
    let b := setStatusBit a.2 r₂ t₂ 11 0
    (b.1 || ddr.1,b.2)

/-- The reset and flush bits. -/
def pulseBits : List ℕ := [0,10,11]

/-- A call begins. -/
def Spi.begin : Spi := { s with sent := [] }

/-- A status word of the call had a bit at 1. -/
def Spi.Raised (bit : ℕ) : Prop := ∃ w∈s.sent, getBit w bit=true

/-- After a success the last status word that the core took has every raised bit of a list
at 0; after a failure the core does not hold such a bit. -/
def Releases (bits : List ℕ) (c : Bool × Spi) : Prop :=
  ∀ p∈bits, c.2.Raised p →
    if c.1 = true then ∀ w, c.2.sent.head?=some w → getBit w p = false
    else getBit c.2.core p = false

/-- The core takes the low half in a write. -/
def Spi.takes (t : WriteTurn) : Bool := s.ok && t.safe && t.userMode && tookLow t.words

/-- A write succeeds. -/
def Spi.writes (t : WriteTurn) : Bool :=
  s.ok && t.safe && t.userMode &&
    (List.range kStatusWriteSpiWords).all fun i => t.words i == .acked

/-- What a reading brings. -/
def Spi.live (r : ReadTurn) : Option Status :=
  if s.ok && r.safe && r.userMode then r.answer.toOption else none

/-- Value of a bit after the pairs. -/
def endValue (pairs : List (ℤ × ℤ)) (bit : ℕ) (v : Bool) : Bool :=
  pairs.foldl (fun v p => if p.1 = (bit : ℤ) then decide (p.2≠0) else v) v

/-- The last pair of a bit sets it. -/
def endsSet (pairs : List (ℤ × ℤ)) (bit : ℕ) : Bool := endValue pairs bit false

/-- The core does not take the first half, or the first write succeeds and the core takes the
second half. -/
def Lowered (t₁ t₂ : WriteTurn) : Prop :=
  s.takes t₁=false ∨ (s.writes t₁=true ∧ s.takes t₂=true)

/-- As before, and the second word carries no other pulse bit: reset is down in the copy unless
a reading succeeds, and the other flush is down in the newest of the readings and the copy. -/
def LoweredAlone (r₁ : ReadTurn) (t₁ : WriteTurn) (r₂ : ReadTurn) (t₂ : WriteTurn) (other : ℕ) :
    Prop :=
  s.takes t₁=false ∨ (s.writes t₁=true ∧ s.takes t₂=true ∧
    ((s.live r₂).or (s.live r₁)=none → getBit s.status 0=false) ∧
    getBit (((s.live r₂).or (s.live r₁)).getD s.status) other=false)

/-- A pair is out of range, or the core does not take the first half, or the pairs end with both
flushes down and reset is down or lowered by the second write. -/
def PairsLowered (t₁ t₂ : WriteTurn) (pairs : List (ℤ × ℤ)) : Prop :=
  (∃ p∈pairs, p.1<0 ∨ 127<p.1) ∨ s.takes t₁=false ∨
    (endsSet pairs 10=false ∧ endsSet pairs 11=false ∧
      (endsSet pairs 0=false ∨ (s.writes t₁=true ∧ s.takes t₂=true)))

theorem getLsbD_one_shiftLeft (i j : ℕ) (hi : i<8) :
    (1#8 <<< i).getLsbD j=decide (j=i) := by
  by_cases h : j=i
  · simp [h,hi]
  · simp only [h]
    by_cases hlt : j < i
    · simp [hlt]
    · simp [show j-i≠0 by omega]

theorem getBit_setBit (w : Status) {b c : ℕ} (hb : b<128) (hc : c<128) (v : Bool) :
    getBit (setBit w b v) c = if c = b then v else getBit w c := by
  have hone := getLsbD_one_shiftLeft (b%8) (c%8) (Nat.mod_lt _ (by decide))
  by_cases hk : byteOf c=byteOf b
  · have hdiv : c/8=b/8 := by
      have hval := congrArg Fin.val hk
      simp only [byteOf,Fin.val_ofNat] at hval
      omega
    have heq : c%8=b%8 ↔ c=b := by omega
    rw [getBit,setBit,hk,Function.update_self,getBit,hk]
    cases v with
    | false =>
      simp only [Bool.false_eq_true,if_false,BitVec.getLsbD_and,BitVec.getLsbD_not,hone,heq]
      by_cases h : c=b
      · simp [h]
      · simp [h,Nat.mod_lt c (show 0<8 by decide)]
    | true =>
      simp only [if_true,BitVec.getLsbD_or,hone,heq]
      by_cases h : c=b <;> simp [h]
  · have hne : c≠b := fun h => hk (congrArg byteOf h)
    rw [getBit,setBit,Function.update_of_ne hk,if_neg hne,getBit]

/-- Two status words with the same low bytes have the same low bits. -/
theorem getBit_congr {v w : Status} (h : ∀ k : Fin 16, k.val<2 → v k=w k) {p : ℕ}
    (hp : p<16) : getBit v p=getBit w p := by
  have hk : (byteOf p).val<2 := by
    simp only [byteOf,Fin.val_ofNat]
    omega
  rw [getBit,getBit,h _ hk]

theorem commitFrom_succ (w : Status) (words : ℕ → WordOutcome) (n i : ℕ) (core : Status) :
    commitFrom w words (n+1) i core =
      match (words i).err with
      | none => commitFrom w words n (i+1) (if (words i).latched then latch w i core else core)
      | some e => (some e,if (words i).latched then latch w i core else core) := rfl

theorem commitFrom_low (w : Status) (words : ℕ → WordOutcome) (n i : ℕ) (core : Status)
    (hi : 2 ≤ i) (k : Fin 16) (hk : k.val<2) : (commitFrom w words n i core).2 k=core k := by
  induction n generalizing i core with
  | zero => rfl
  | succ n ih =>
    have hkeep : (if (words i).latched then latch w i core else core) k=core k := by
      split_ifs
      · rw [latch,if_neg (by omega)]
      · rfl
    rw [commitFrom_succ]
    cases (words i).err with
    | none => exact (ih (i+1) _ (by omega)).trans hkeep
    | some e => exact hkeep

theorem commitFrom_done_iff (w : Status) (words : ℕ → WordOutcome) (n i : ℕ) (core : Status) :
    (commitFrom w words n i core).1=none ↔ ∀ j<n, words (i+j) = .acked := by
  induction n generalizing i core with
  | zero => exact ⟨fun _ j hj => absurd hj (Nat.not_lt_zero j),fun _ => rfl⟩
  | succ n ih =>
    by_cases hack : words i = .acked
    · simp only [commitFrom_succ,hack,WordOutcome.err,ih]
      constructor
      · intro h j hj
        cases j with
        | zero => exact hack
        | succ j =>
          rw [← Nat.add_assoc,Nat.add_right_comm]
          exact h j (Nat.lt_of_succ_lt_succ hj)
      · intro h j hj
        rw [Nat.add_right_comm,Nat.add_assoc]
        exact h (j+1) (Nat.succ_lt_succ hj)
    · refine ⟨fun h => absurd h ?_,fun h => absurd (h 0 (Nat.succ_pos n)) hack⟩
      rw [commitFrom_succ]
      cases ho : words i with
      | acked => exact absurd ho hack
      | ackTimeoutSet _ => exact Option.some_ne_none _
      | ackTimeoutClr => exact Option.some_ne_none _
      | notUserMode _ => exact Option.some_ne_none _

theorem commitFrom_err {w : Status} {words : ℕ → WordOutcome} {n i : ℕ} {core : Status}
    {e : String} (h : (commitFrom w words n i core).1=some e) : e.isEmpty=false := by
  induction n generalizing i core with
  | zero => exact absurd h.symm (Option.some_ne_none e)
  | succ n ih =>
    rw [commitFrom_succ] at h
    cases ho : words i with
    | acked =>
      rw [ho] at h
      exact ih h
    | ackTimeoutSet _ => rw [ho] at h; rw [← Option.some.inj h]; decide
    | ackTimeoutClr => rw [ho] at h; rw [← Option.some.inj h]; decide
    | notUserMode _ => rw [ho] at h; rw [← Option.some.inj h]; decide

/-- The low half of the register is that of the word once the second SPI word is in, and the
old one before. -/
theorem commit_low (w core : Status) (words : ℕ → WordOutcome) {p : ℕ} (hp : p<16) :
    getBit (commitFrom w words kStatusWriteSpiWords 0 core).2 p =
      getBit (if tookLow words then w else core) p := by
  refine getBit_congr (fun k hk => ?_) hp
  have hcommand : latch w 0 core=core := by
    funext j
    rw [latch,if_neg (by omega)]
  rw [kStatusWriteSpiWords,show (1+8 : ℕ)=7+1+1 from rfl,commitFrom_succ,hcommand,
    ite_self,tookLow]
  cases h0 : words 0 with
  | acked =>
    rw [WordOutcome.err,commitFrom_succ]
    have hlow : (if (words 1).latched then latch w 1 core else core) k =
        (if (words 1).latched then w else core) k := by
      split_ifs
      · rw [latch,if_pos (by omega)]
      · rfl
    cases (words 1).err with
    | none => exact (commitFrom_low w words 7 2 _ le_rfl k hk).trans hlow
    | some e => exact hlow
  | ackTimeoutSet l => rfl
  | ackTimeoutClr => rfl
  | notUserMode l => rfl

theorem setStatusWord_refused {t : WriteTurn} (h : (s.ok && t.safe && t.userMode)=false)
    (w : Status) : ∃ e, setStatusWord s t w=(false,{ s with err := e }) := by
  rw [setStatusWord]
  split_ifs with hok hsafe huser
  · exact ⟨_,rfl⟩
  · exact ⟨_,rfl⟩
  · exact ⟨_,rfl⟩
  · exact absurd h (by simp [hok,hsafe,huser])

/-- What a status write does: it succeeds when all words are acknowledged, and the core holds
the low half of the word as soon as it has taken it. -/
def Written (t : WriteTurn) (w : Status) (c : Bool × Spi) : Prop :=
  ∃ e core, c=(s.writes t,{ s with
      err := e, core := core, status := if s.writes t then w else s.status,
      sent := if s.takes t then w::s.sent else s.sent }) ∧
    ∀ p<16, getBit core p=getBit (if s.takes t then w else s.core) p

/-- Writing a word leaves the old one or the new one. -/
theorem setStatusWord_spec (t : WriteTurn) (w : Status) : Written s t w (setStatusWord s t w) := by
  rw [Written]
  cases hon : s.ok && t.safe && t.userMode with
  | false =>
    have htakes : s.takes t=false := by rw [Spi.takes,hon,Bool.false_and]
    have hwrites : s.writes t=false := by rw [Spi.writes,hon,Bool.false_and]
    obtain ⟨e,he⟩ := setStatusWord_refused s hon w
    rw [htakes,hwrites,he]
    exact ⟨e,s.core,rfl,fun p _ => rfl⟩
  | true =>
    have htakes : s.takes t=tookLow t.words := by rw [Spi.takes,hon,Bool.true_and]
    have hwrites : s.writes t=true ↔
        (commitFrom w t.words kStatusWriteSpiWords 0 s.core).1=none := by
      rw [commitFrom_done_iff,Spi.writes,hon,Bool.true_and]
      simp
    have hraw : setStatusWord s t w =
        ((writeStatusWordRaw s t w).2.err.isEmpty,(writeStatusWordRaw s t w).2) := by
      obtain ⟨hboth,huser⟩ := Bool.and_eq_true_iff.mp hon
      obtain ⟨hok,hsafe⟩ := Bool.and_eq_true_iff.mp hboth
      simp [setStatusWord,hok,hsafe,huser]
    have hlow := fun p (hp : p<16) => commit_low w s.core t.words hp
    rw [hraw,writeStatusWordRaw,htakes]
    have herr : ∀ e, (commitFrom w t.words kStatusWriteSpiWords 0 s.core).1=some e →
        e.isEmpty=false := fun e => commitFrom_err
    generalize commitFrom w t.words kStatusWriteSpiWords 0 s.core=r at *
    cases hr : r.1 with
    | none =>
      rw [hwrites.mpr hr]
      exact ⟨"",r.2,rfl,hlow⟩
    | some e =>
      have hno : s.writes t=false :=
        Bool.eq_false_iff.mpr fun h => Option.some_ne_none e (hr.symm.trans (hwrites.mp h))
      rw [hno]
      exact ⟨e,r.2,by rw [herr e hr]; rfl,hlow⟩

/-- A reading changes nothing but the error text. -/
theorem getCoreStatus_spec (r : ReadTurn) :
    ∃ e, getCoreStatus s r=(s.live r,{ s with err := e }) := by
  cases hon : s.ok && r.safe && r.userMode with
  | false =>
    have hnone : s.live r=none := by rw [Spi.live,hon]; rfl
    rw [hnone,getCoreStatus]
    split_ifs with hok hsafe huser
    · exact ⟨_,rfl⟩
    · exact ⟨_,rfl⟩
    · exact ⟨_,rfl⟩
    · exact absurd hon (by simp [hok,hsafe,huser])
  | true =>
    obtain ⟨hboth,huser⟩ := Bool.and_eq_true_iff.mp hon
    obtain ⟨hok,hsafe⟩ := Bool.and_eq_true_iff.mp hboth
    rw [getCoreStatus,hok,hsafe,huser,Spi.live,hon]
    cases r.answer with
    | error e => exact ⟨e,rfl⟩
    | ok live => exact ⟨"",rfl⟩

theorem getBit_liveLow (w live : Status) {p : ℕ} (hp : p<16) :
    getBit (liveLow w live) p=getBit live p :=
  getBit_congr (fun k hk => by rw [liveLow,if_pos hk]) hp

/-- The core holds the low half of the last status word that it took. -/
def Spi.Tracks : Prop := ∀ w, s.sent.head?=some w → ∀ p<16, getBit s.core p=getBit w p

/-- A call releases bits exactly when the last status word that the core took has none. -/
theorem releases_iff {bits : List ℕ} (hbits : ∀ p∈bits, p<16) {c : Bool × Spi}
    (h : c.2.Tracks) :
    Releases bits c ↔ ∀ w, c.2.sent.head?=some w → ∀ p∈bits, getBit w p=false := by
  constructor
  · intro hrel w hw p hp
    by_contra hup
    have hmem : w∈c.2.sent := List.mem_of_mem_head? hw
    have hlow := hrel p hp ⟨w,hmem,Bool.not_eq_false _ ▸ hup⟩
    split_ifs at hlow with hc
    · exact hup (hlow w hw)
    · exact hup ((h w hw p (hbits p hp)).symm.trans hlow)
  · intro hall p hp hraised
    obtain ⟨v,hv,-⟩ := hraised
    split_ifs
    · exact fun w hw => hall w hw p hp
    · cases hhead : c.2.sent.head? with
      | none => exact absurd (List.head?_eq_none_iff.mp hhead) (List.ne_nil_of_mem hv)
      | some w => rw [h w hhead p (hbits p hp)]; exact hall w hhead p hp

/-- The word of setStatusBit below bit 16, before its bit is set. -/
def baseWord (r : ReadTurn) (bit : ℤ) : Status :=
  match s.live r with
  | none => s.status
  | some live => if bit ≠ 0 then setBit (liveLow s.status live) 0 false else liveLow s.status live

/-- Setting a low bit writes that bit into the base word. -/
theorem setStatusBit_spec (r : ReadTurn) (t : WriteTurn) (bit : ℤ) (h0 : 0≤bit)
    (h16 : bit<16) (value : ℤ) :
    Written s t (setBit (baseWord s r bit) bit.toNat (value≠0))
      (setStatusBit s r t bit value) := by
  rw [setStatusBit]
  by_cases hok : s.ok=false
  · have htakes : s.takes t=false := by rw [Spi.takes,hok]; rfl
    have hwrites : s.writes t=false := by rw [Spi.writes,hok]; rfl
    rw [if_pos (Or.inl hok),Written,htakes,hwrites]
    exact ⟨_,s.core,rfl,fun p _ => rfl⟩
  · obtain ⟨e,he⟩ := getCoreStatus_spec s r
    rw [if_neg (not_or.mpr ⟨hok,by omega⟩),if_pos h16,he]
    exact setStatusWord_spec { s with err := e } t _

variable {s}

theorem Written.result {t : WriteTurn} {w : Status} {c : Bool × Spi} (h : Written s t w c) :
    c.1=s.writes t ∧ c.2.ok=s.ok ∧ c.2.status=(if s.writes t then w else s.status) ∧
      c.2.sent = if s.takes t then w::s.sent else s.sent := by
  obtain ⟨e,core,rfl,-⟩ := h
  exact ⟨rfl,rfl,rfl,rfl⟩

theorem Written.tracks {t : WriteTurn} {w : Status} {c : Bool × Spi} (h : Written s t w c)
    (hs : s.Tracks) : c.2.Tracks := by
  obtain ⟨e,core,rfl,hcore⟩ := h
  intro v hv p hp
  rw [hcore p hp]
  cases htakes : s.takes t with
  | false => exact hs v (by simpa [htakes] using hv) p hp
  | true =>
    have hvw : w=v := by simpa [htakes] using hv
    rw [if_pos rfl,hvw]

theorem Spi.takes_of_writes {t : WriteTurn} (h : s.writes t=true) : s.takes t=true := by
  obtain ⟨hon,hall⟩ := Bool.and_eq_true_iff.mp h
  have h0 := beq_iff_eq.mp (List.all_eq_true.mp hall 0 (by decide))
  have h1 := beq_iff_eq.mp (List.all_eq_true.mp hall 1 (by decide))
  rw [Spi.takes,hon,tookLow,h0,h1]
  rfl

/-- A call of at most two writes is judged by the last status word that the core took. -/
theorem releases_writes {t₁ t₂ : WriteTurn} {w₁ w₂ : Status} {a b c : Bool × Spi} {two : Bool}
    {bits : List ℕ} (ha : Written s.begin t₁ w₁ a) (hb : Written a.2 t₂ w₂ b)
    (hc : c.2 = if a.1 && two then b.2 else a.2) (hbits : ∀ p∈bits, p<16) :
    Releases bits c ↔ (s.takes t₁=true →
      ∀ p∈bits, getBit (if s.writes t₁ && two && s.takes t₂ then w₂ else w₁) p=false) := by
  have hbegin : s.begin.Tracks := fun w hw => absurd hw.symm (Option.some_ne_none w)
  have htc : c.2.Tracks := by
    rw [hc]
    split_ifs
    · exact hb.tracks (ha.tracks hbegin)
    · exact ha.tracks hbegin
  obtain ⟨hfirst,hok,-,hsent₁⟩ := ha.result
  obtain ⟨-,-,-,hsent₂⟩ := hb.result
  have hlater : a.2.takes t₂=s.takes t₂ := by
    rw [Spi.takes,hok,Spi.takes]
    rfl
  have hwrites : a.1=s.writes t₁ := hfirst
  have hone : a.2.sent = if s.takes t₁ then [w₁] else [] := hsent₁
  have hhead : c.2.sent.head? =
      if s.takes t₁ then some (if s.writes t₁ && two && s.takes t₂ then w₂ else w₁) else none := by
    rw [hc,hwrites]
    cases hw : s.writes t₁ && two with
    | true =>
      have ht := Spi.takes_of_writes (Bool.and_eq_true_iff.mp hw).1
      rw [if_pos rfl,hsent₂,hlater,hone,ht]
      cases s.takes t₂ <;> rfl
    | false =>
      rw [if_neg Bool.false_ne_true,hone]
      cases s.takes t₁ <;> rfl
  rw [releases_iff hbits htc,hhead]
  cases s.takes t₁ with
  | true => exact ⟨fun h _ => h _ rfl,fun h w hw => Option.some.inj hw ▸ h rfl⟩
  | false => exact ⟨fun _ h => absurd h Bool.false_ne_true,fun _ w hw => nomatch hw⟩

theorem getBit_baseWord (r : ReadTurn) {bit : ℤ} (hbit : bit≠0) {p : ℕ} (hp : p<16) :
    getBit (baseWord s r bit) p =
      if p = 0 ∧ s.live r ≠ none then false else getBit ((s.live r).getD s.status) p := by
  rw [baseWord]
  cases s.live r with
  | none => simp
  | some live =>
    simp only [if_pos hbit]
    rw [getBit_setBit _ (by decide) (by omega),getBit_liveLow _ _ hp]
    simp

/-- Below its own bit the second word of a flush is the newest of the readings and the copy. -/
theorem getBit_secondWord {r₁ r₂ : ReadTurn} {u : Spi} {own p : ℕ} (h0 : own≠0) (hown : own<16)
    (hcopy : u.status=setBit (baseWord s r₁ own) own true) (hlive : u.live r₂=s.live r₂)
    (hp : p<16) (hne : p≠own) :
    getBit (setBit (baseWord u r₂ own) own false) p =
      if p = 0 ∧ (s.live r₂).or (s.live r₁) ≠ none then false
      else getBit (((s.live r₂).or (s.live r₁)).getD s.status) p := by
  have hbit : (own : ℤ)≠0 := by omega
  rw [getBit_setBit _ (by omega) (by omega),if_neg hne,getBit_baseWord _ hbit hp,hlive]
  cases s.live r₂ with
  | some live => rfl
  | none =>
    rw [if_neg (fun h => h.2 rfl),Option.getD_none,hcopy,getBit_setBit _ (by omega) (by omega),
      if_neg hne,getBit_baseWord _ hbit hp]
    rfl

/-- The two writes of a flush. -/
theorem flush_releases {r₁ r₂ : ReadTurn} {t₁ t₂ : WriteTurn} {a b c : Bool × Spi} {other : ℕ}
    (own : ℕ) (hset : ∀ p, p∈pulseBits ↔ p=0 ∨ p=own ∨ p=other) (h0 : own≠0)
    (hne : other≠own) (hother : other≠0)
    (ha : Written s.begin t₁ (setBit (baseWord s r₁ own) own true) a)
    (hb : Written a.2 t₂ (setBit (baseWord a.2 r₂ own) own false) b)
    (hc : c.2 = if a.1 then b.2 else a.2) :
    (Releases [own] c ↔ Lowered s t₁ t₂) ∧
      (Releases pulseBits c ↔ LoweredAlone s r₁ t₁ r₂ t₂ other) := by
  have hbits : ∀ p∈pulseBits, p<16 := by decide
  have hown : own<16 := hbits own ((hset own).mpr (Or.inr (Or.inl rfl)))
  have hoth : other<16 := hbits other ((hset other).mpr (Or.inr (Or.inr rfl)))
  have hlast : c.2 = if a.1 && true then b.2 else a.2 := by rw [hc,Bool.and_true]
  have hself : ∀ (w : Status) (v : Bool), getBit (setBit w own v) own=v := by
    intro w v
    rw [getBit_setBit w (by omega) (by omega),if_pos rfl]
  obtain ⟨-,hok,hstatus,-⟩ := ha.result
  have hlive : a.2.live r₂=s.live r₂ := by
    rw [Spi.live,hok,Spi.live]
    rfl
  constructor
  · rw [releases_writes ha hb hlast (by simpa using hown),Lowered]
    cases s.takes t₁ <;> cases s.writes t₁ <;> cases s.takes t₂ <;> simp [hself]
  · rw [releases_writes ha hb hlast hbits,LoweredAlone,Bool.and_true,← and_assoc,
      ← Bool.and_eq_true]
    simp only [hset,forall_eq_or_imp,forall_eq]
    cases htakes : s.takes t₁ with
    | false => simp
    | true =>
      cases hboth : s.writes t₁ && s.takes t₂ with
      | false => simp [hself]
      | true =>
        have hcopy : a.2.status=setBit (baseWord s r₁ own) own true :=
          hstatus.trans (if_pos (Bool.and_eq_true_iff.mp hboth).1)
        rw [if_pos rfl,hself,getBit_secondWord h0 hown hcopy hlive (by decide) h0.symm,
          getBit_secondWord h0 hown hcopy hlive hoth hne]
        cases (s.live r₂).or (s.live r₁) <;> simp [hother]

theorem flushAudioFifo_releases (r₁ : ReadTurn) (t₁ : WriteTurn) (r₂ : ReadTurn) (t₂ : WriteTurn) :
    (Releases [10] (flushAudioFifo s.begin r₁ t₁ r₂ t₂) ↔ Lowered s t₁ t₂) ∧
      (Releases pulseBits (flushAudioFifo s.begin r₁ t₁ r₂ t₂) ↔
        LoweredAlone s r₁ t₁ r₂ t₂ 11) := by
  have ha := setStatusBit_spec s.begin r₁ t₁ 10 (by decide) (by decide) 1
  have hb := setStatusBit_spec (setStatusBit s.begin r₁ t₁ 10 1).2 r₂ t₂ 10 (by decide)
    (by decide) 0
  refine flush_releases 10 (fun p => by simp [pulseBits]) (by decide) (by decide)
    (by decide) ha hb ?_
  rw [flushAudioFifo]
  cases (setStatusBit s.begin r₁ t₁ 10 1).1 <;> rfl

theorem flushBitstreamFifo_releases (d : DdrMap) (r₁ : ReadTurn) (t₁ : WriteTurn) (r₂ : ReadTurn)
    (t₂ : WriteTurn) :
    (Releases [11] (flushBitstreamFifo s.begin d r₁ t₁ r₂ t₂) ↔ Lowered s t₁ t₂) ∧
      (Releases pulseBits (flushBitstreamFifo s.begin d r₁ t₁ r₂ t₂) ↔
        LoweredAlone s r₁ t₁ r₂ t₂ 10) := by
  have hddr : ∃ e, (flushBitstreamDdr s.begin d).2 = { s.begin with err := e } := by
    cases d <;> exact ⟨_,rfl⟩
  obtain ⟨e,he⟩ := hddr
  have ha := setStatusBit_spec { s.begin with err := e } r₁ t₁ 11 (by decide) (by decide) 1
  rw [← he] at ha
  have hb := setStatusBit_spec (setStatusBit (flushBitstreamDdr s.begin d).2 r₁ t₁ 11 1).2 r₂ t₂
    11 (by decide) (by decide) 0
  have hstart : Written s.begin t₁ (setBit (baseWord s r₁ (11 : ℕ)) 11 true)
      (setStatusBit (flushBitstreamDdr s.begin d).2 r₁ t₁ 11 1) := by
    rw [he] at ha ⊢
    exact ha
  refine flush_releases 11 (fun p => by simp [pulseBits,or_comm]) (by decide) (by decide)
    (by decide) hstart hb ?_
  rw [flushBitstreamFifo]
  cases (setStatusBit (flushBitstreamDdr s.begin d).2 r₁ t₁ 11 1).1 <;> rfl

theorem applyPairs_eq_none_iff (pairs : List (ℤ × ℤ)) (w : Status) (want : Bool) :
    applyPairs pairs w want=none ↔ ∃ p∈pairs, p.1<0 ∨ 127<p.1 := by
  induction pairs generalizing w want with
  | nil => simp [applyPairs]
  | cons p pairs ih =>
    rw [applyPairs]
    by_cases hrange : p.1<0 ∨ 127<p.1
    · rw [if_pos hrange]
      exact ⟨fun _ => ⟨p,List.mem_cons_self,hrange⟩,fun _ => rfl⟩
    · rw [if_neg hrange,ih,List.exists_mem_cons_iff]
      exact ⟨Or.inr,fun h => h.resolve_left hrange⟩

theorem applyPairs_some {pairs : List (ℤ × ℤ)} {w w' : Status} {want want' : Bool}
    (h : applyPairs pairs w want=some (w',want')) :
    want'=(want || wants pairs 0) ∧
      ∀ c<128, getBit w' c=endValue pairs c (getBit w c) := by
  induction pairs generalizing w want with
  | nil =>
    obtain ⟨rfl,rfl⟩ := Prod.mk.inj (Option.some.inj h)
    exact ⟨(Bool.or_false _).symm,fun c _ => rfl⟩
  | cons p pairs ih =>
    rw [applyPairs] at h
    by_cases hrange : p.1<0 ∨ 127<p.1
    · rw [if_pos hrange] at h
      exact absurd h.symm (Option.some_ne_none _)
    · rw [if_neg hrange] at h
      obtain ⟨hwant,hbits⟩ := ih h
      refine ⟨by rw [hwant,wants,wants,List.any_cons,Bool.or_assoc],fun c hc => ?_⟩
      rw [hbits c hc,getBit_setBit _ (by omega) hc,endValue,endValue,List.foldl_cons]
      refine congrArg (fun v => List.foldl _ v pairs) (if_congr ?_ rfl rfl)
      omega

/-- Where some pair sets a bit, the value before the pairs does not matter; where none does, a
clear bit stays clear. -/
theorem endValue_wants (pairs : List (ℤ × ℤ)) (bit : ℕ) (v : Bool) :
    (if wants pairs bit then endValue pairs bit v else false)=endValue pairs bit false := by
  induction pairs generalizing v with
  | nil => rfl
  | cons p pairs ih =>
    rw [endValue,endValue,List.foldl_cons,List.foldl_cons,wants,List.any_cons]
    by_cases hbit : p.1=(bit : ℤ)
    · rw [if_pos hbit,if_pos hbit,decide_eq_true hbit,Bool.true_and]
      cases decide (p.2≠0) with
      | true => rfl
      | false => exact ih false
    · rw [if_neg hbit,if_neg hbit,decide_eq_false hbit,Bool.false_and,Bool.false_or]
      exact ih v

/-- The clearing of the pulse bits that no pair sets. -/
theorem getBit_cleared (w : Status) (pairs : List (ℤ × ℤ)) (p : ℕ) (hp : p∈pulseBits)
    (v : Status) (hbits : ∀ c<128, getBit w c=endValue pairs c (getBit v c)) :
    getBit
      (let word := if wants pairs 0 then w else setBit w 0 false
       let word := if wants pairs 10 then word else setBit word 10 false
       if wants pairs 11 then word else setBit word 11 false) p=endsSet pairs p := by
  have hpick : ∀ (c : Bool) (u : Status) (b : ℕ), b<128 → ∀ q<128,
      getBit (if c then u else setBit u b false) q =
        if q = b then (if c then getBit u q else false) else getBit u q := by
    intro c u b hb q hq
    cases c with
    | true => simp
    | false =>
      rw [if_neg Bool.false_ne_true,getBit_setBit u hb hq,if_neg Bool.false_ne_true]
  have hp16 : p<128 := (by decide : ∀ p∈pulseBits, p<128) p hp
  rw [hpick _ _ 11 (by decide) p hp16,hpick _ _ 10 (by decide) p hp16,
    hpick _ _ 0 (by decide) p hp16,hbits p hp16,endsSet,← endValue_wants pairs p (getBit v p)]
  simp only [pulseBits,List.mem_cons,List.not_mem_nil,or_false] at hp
  rcases hp with rfl | rfl | rfl <;> rfl

theorem releases_of_none {bits : List ℕ} {c : Bool × Spi} (h : c.2.sent=[]) :
    Releases bits c := by
  intro p _ hraised
  obtain ⟨w,hw,-⟩ := hraised
  exact absurd (h ▸ hw) List.not_mem_nil

/-- What the two writes of setStatusBits leave, by the values that the pairs end with. -/
theorem pairsLowered_iff {t₁ t₂ : WriteTurn} {pairs : List (ℤ × ℤ)} {w₁ w₂ : Status}
    (hrange : ¬∃ p∈pairs, p.1<0 ∨ 127<p.1)
    (h₁ : ∀ p∈pulseBits, getBit w₁ p=endsSet pairs p)
    (h₂ : ∀ p∈pulseBits, getBit w₂ p = if p = 0 then false else endsSet pairs p) :
    (s.takes t₁=true → ∀ p∈pulseBits,
        getBit (if s.writes t₁ && wants pairs 0 && s.takes t₂ then w₂ else w₁) p=false) ↔
      PairsLowered s t₁ t₂ pairs := by
  have hzero : wants pairs 0=false → endsSet pairs 0=false := by
    intro h
    have hclear := endValue_wants pairs 0 false
    rw [Int.natCast_zero,h,if_neg Bool.false_ne_true] at hclear
    exact hclear.symm
  have hall : ∀ u : Status, (∀ p∈pulseBits, getBit u p=false) ↔
      getBit u 0=false ∧ getBit u 10=false ∧ getBit u 11=false := by
    simp [pulseBits]
  rw [PairsLowered,hall,or_iff_right hrange]
  cases s.takes t₁ with
  | false => simp
  | true =>
    cases hboth : s.writes t₁ && wants pairs 0 && s.takes t₂ with
    | true =>
      obtain ⟨hw,ht⟩ := Bool.and_eq_true_iff.mp hboth
      rw [if_pos rfl,h₂ 0 (by decide),h₂ 10 (by decide),h₂ 11 (by decide)]
      simp [(Bool.and_eq_true_iff.mp hw).1,ht]
    | false =>
      rw [if_neg Bool.false_ne_true,h₁ 0 (by decide),h₁ 10 (by decide),
        h₁ 11 (by decide)]
      have hend : s.writes t₁=true → s.takes t₂=true → endsSet pairs 0=false := by
        intro hw ht
        rw [hw,ht,Bool.true_and,Bool.and_true] at hboth
        exact hzero hboth
      constructor
      · intro h
        obtain ⟨h0,h10,h11⟩ := h rfl
        exact Or.inr ⟨h10,h11,Or.inl h0⟩
      · intro h _
        obtain ⟨h10,h11,hreset⟩ := h.resolve_left Bool.noConfusion
        exact ⟨hreset.elim id fun hw => hend hw.1 hw.2,h10,h11⟩

theorem setStatusBits_releases (r : ReadTurn) (t₁ t₂ : WriteTurn) (pairs : List (ℤ × ℤ)) :
    Releases pulseBits (setStatusBits s.begin r t₁ t₂ pairs) ↔ PairsLowered s t₁ t₂ pairs := by
  rw [setStatusBits]
  by_cases hargs : s.begin.ok=false ∨ pairs=[]
  · rw [if_pos hargs]
    refine ⟨fun _ => Or.inr ?_,fun _ => releases_of_none rfl⟩
    rcases hargs with hok | hnil
    · have hok' : s.ok=false := hok
      exact Or.inl (by rw [Spi.takes,hok']; rfl)
    · rw [hnil]
      exact Or.inr ⟨rfl,rfl,Or.inl rfl⟩
  · obtain ⟨e,he⟩ := getCoreStatus_spec s.begin r
    rw [if_neg hargs,he]
    dsimp only
    generalize (match s.begin.live r with
      | none => s.begin.status
      | some live => mergeLive s.begin.status live)=base
    cases happly : applyPairs pairs base false with
    | none =>
      have hout := (applyPairs_eq_none_iff pairs base false).mp happly
      exact ⟨fun _ => Or.inl hout,fun _ => releases_of_none rfl⟩
    | some pair =>
      obtain ⟨w,want⟩ := pair
      obtain ⟨hwant,hbits⟩ := applyPairs_some happly
      rw [Bool.false_or] at hwant
      have hrange : ¬∃ p∈pairs, p.1<0 ∨ 127<p.1 := by
        rw [← applyPairs_eq_none_iff pairs base false,happly]
        exact Option.some_ne_none _
      have hfirst := fun p hp => getBit_cleared w pairs p hp base hbits
      rw [hwant]
      dsimp only at hfirst ⊢
      generalize (if wants pairs 11 then _ else _ : Status)=word at *
      have hsecond : ∀ p∈pulseBits, getBit (setBit word 0 false) p =
          if p = 0 then false else endsSet pairs p := by
        intro p hp
        have hp128 : p<128 := (by decide : ∀ p∈pulseBits, p<128) p hp
        rw [getBit_setBit word (by decide) hp128,hfirst p hp]
      have ha := setStatusWord_spec { s.begin with err := e } t₁ word
      have hb := setStatusWord_spec
        (setStatusWord { s.begin with err := e } t₁ word).2 t₂ (setBit word 0 false)
      have hlast : ∀ a b : Bool × Spi,
          (if a.1 = false then (false,a.2) else if wants pairs 0 then b else (true,a.2)).2 =
            if a.1 && wants pairs 0 then b.2 else a.2 := by
        intro a b
        cases a.1 <;> cases wants pairs 0 <;> rfl
      rw [releases_writes (s := s) ha hb (hlast _ _) (by decide)]
      exact pairsLowered_iff hrange hfirst hsecond

/-- A flush releases its bit exactly when the pulse is lowered, and all pulse bits exactly when
it is lowered alone; setStatusBits releases them exactly when the pairs are lowered. -/
theorem pulses_released_iff (s : Spi) :
    (∀ r₁ t₁ r₂ t₂,
      (Releases [10] (flushAudioFifo s.begin r₁ t₁ r₂ t₂) ↔ Lowered s t₁ t₂) ∧
        (Releases pulseBits (flushAudioFifo s.begin r₁ t₁ r₂ t₂) ↔
          LoweredAlone s r₁ t₁ r₂ t₂ 11)) ∧
    (∀ d r₁ t₁ r₂ t₂,
      (Releases [11] (flushBitstreamFifo s.begin d r₁ t₁ r₂ t₂) ↔ Lowered s t₁ t₂) ∧
        (Releases pulseBits (flushBitstreamFifo s.begin d r₁ t₁ r₂ t₂) ↔
          LoweredAlone s r₁ t₁ r₂ t₂ 10)) ∧
    ∀ r t₁ t₂ pairs, Releases pulseBits (setStatusBits s.begin r t₁ t₂ pairs) ↔
      PairsLowered s t₁ t₂ pairs :=
  ⟨flushAudioFifo_releases,flushBitstreamFifo_releases,setStatusBits_releases⟩

/-- A mapped object and a core with all status bits at 0. -/
def restSpi : Spi := ⟨true,fun _ => 0#8,"",fun _ => 0#8,[]⟩

/-- A reading that finds the bus busy. -/
def busyRead : ReadTurn := ⟨false,true,.error ""⟩

/-- A write with all acknowledgements, and one that finds the bus busy. -/
def ackedWrite : WriteTurn := ⟨true,true,fun _ => .acked⟩

/-- A write attempt at which the bus is not safe. -/
def busyWrite : WriteTurn := ⟨false,true,fun _ => .acked⟩

/-- With the second write refused flushAudioFifo fails with the audio FIFO held in flush, and
flushBitstreamFifo succeeds with the stream held in flush. -/
theorem pulse_left_high :
    ((flushAudioFifo restSpi.begin busyRead ackedWrite busyRead busyWrite).1=false ∧
        ¬Releases [10] (flushAudioFifo restSpi.begin busyRead ackedWrite busyRead busyWrite)) ∧
      (flushBitstreamFifo restSpi.begin .mapped busyRead ackedWrite busyRead busyWrite).1=true ∧
        ¬Releases [11]
          (flushBitstreamFifo restSpi.begin .mapped busyRead ackedWrite busyRead busyWrite) := by
  have hleft : ¬Lowered restSpi ackedWrite busyWrite := by
    unfold Lowered
    decide
  rw [(flushAudioFifo_releases busyRead ackedWrite busyRead busyWrite).1,
    (flushBitstreamFifo_releases .mapped busyRead ackedWrite busyRead busyWrite).1]
  exact ⟨⟨by decide,hleft⟩,by decide,hleft⟩

end Misterplex.StatusPulse
