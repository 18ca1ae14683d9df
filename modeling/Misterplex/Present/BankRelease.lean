import Mathlib.Data.BitVec

/-!
# Banks, release samples and kicks of the frame writer

The core publishes which bank may be written, which one it displays and how many
swaps it has done. A send chooses its bank from these samples, copies the frame
and rings the bank, by the mapped doorbell or over SPI; how it rings is probed by
the first send. A frame that already stands in a bank is committed, which rings
without a copy.
-/

namespace Misterplex.BankRelease

/-- The release sample that the core publishes. -/
structure BankReleaseStatus where
  /-- The banks that are free. -/
  freeBankMask : BitVec 2
  /-- The bank shown. -/
  dispBank : BitVec 1
  /-- A swap waits for vertical sync. -/
  swapPending : Bool
  /-- The swaps so far. -/
  framesDone : BitVec 16
  deriving DecidableEq, Repr

/-- Some bank may be written. -/
def BankReleaseStatus.anyFree (s : BankReleaseStatus) : Bool := s.freeBankMask != 0#2

/-- The lowest bank that may be written. -/
def BankReleaseStatus.freeBank (s : BankReleaseStatus) : Option ℕ :=
  if s.freeBankMask.getLsbD 0 then some 0
  else if s.freeBankMask.getLsbD 1 then some 1
  else none

/-- How a send may choose its bank. -/
inductive DdrBankWritePolicy
  /-- Without a free bank the one that is not displayed is written. -/
  | bestEffort
  /-- Only a free bank is written, after the previous frame was swapped in. -/
  | requireReleased
  deriving DecidableEq, Repr

/-- The swap count that the previous strict write relied on. -/
structure DdrStrictReleaseState where
  /-- The baseline has been read. -/
  baselineValid : Bool := false
  /-- A write is under way, or its kick was not confirmed. -/
  baselinePending : Bool := false
  /-- Swap count of the sample that authorised the write. -/
  framesDone : BitVec 16 := 0#16
  deriving DecidableEq, Repr

/-- A write begins: its baseline is to be read. -/
def DdrStrictReleaseState.beginWrite (s : DdrStrictReleaseState) : DdrStrictReleaseState :=
  { s with baselinePending := true }

/-- A strict write is kicked. -/
def DdrStrictReleaseState.noteWrite (_ : DdrStrictReleaseState) (status : BankReleaseStatus) :
    DdrStrictReleaseState :=
  { baselineValid := true, baselinePending := false, framesDone := status.framesDone }

/-- A sample shows that the previous write was swapped in. -/
def DdrStrictReleaseState.acknowledgesPreviousWrite (s : DdrStrictReleaseState)
    (status : BankReleaseStatus) : Bool :=
  !s.baselinePending && (!s.baselineValid || status.framesDone != s.framesDone)

/-- The bank that a sample lets a send write. -/
def decideDdrBankWrite (status : BankReleaseStatus) (policy : DdrBankWritePolicy)
    (strictState : DdrStrictReleaseState) : Option ℕ :=
  if status.anyFree then
    if policy = .requireReleased ∧ strictState.acknowledgesPreviousWrite status = false then none
    else status.freeBank
  else if policy = .requireReleased then none
  else some (status.dispBank.toNat ^^^ 1)

/-- How a bank is rung. -/
inductive KickMode
  /-- Neither way worked; tried again after a while. -/
  | unavailable
  | probing
  | doorbell
  | spi
  deriving DecidableEq, Repr

/-- What a send meets before it copies. -/
structure CopyInput where
  /-- The time after which an unavailable path is probed again has passed. -/
  reprobe : Bool
  /-- The device is open, the frame window mapped and its layout set. -/
  mapped : Bool
  /-- What the core answers to the polls. -/
  readings : List BankReleaseStatus
  deriving DecidableEq, Repr

/-- What a send or a commit meets when it kicks. -/
structure KickInput where
  /-- The cache was cleaned. -/
  cleaned : Bool
  /-- The doorbell was written. -/
  doorbell : Bool
  /-- The core shows that it saw the doorbell. -/
  seen : Bool
  /-- The pulse is written over SPI. -/
  pulse : Bool
  /-- The SPI kick went through to its end. -/
  spi : Bool
  /-- The core shows that it saw the SPI kick. -/
  spiSeen : Bool
  deriving DecidableEq, Repr

/-- What a kick leaves behind. -/
structure KickResult where
  /-- How banks are rung from now on. -/
  kickMode : KickMode
  /-- How often the bank was rung. -/
  rings : ℕ
  /-- The kick is reported as done. -/
  ok : Bool
  deriving DecidableEq, Repr

variable (policy : DdrBankWritePolicy)

/-- Ring over SPI, after `rung` rings of the doorbell that nothing answered. -/
def kickDdrSpi (mode : KickMode) (rung : ℕ) (i : KickInput) : KickResult :=
  let rings := rung+if i.pulse then 1 else 0
  if i.pulse = false ∨ i.spi = false then
    ⟨if policy = .requireReleased then .unavailable else mode,rings,false⟩
  else if mode = .probing ∧ i.spiSeen = false then ⟨.unavailable,rings,false⟩
  else ⟨.spi,rings,true⟩

/-- Ring a bank. A doorbell that cannot be written once it is the known way, and a path that is
unavailable, ring nothing and are reported as done. -/
def kick (mode : KickMode) (i : KickInput) : KickResult :=
  if i.cleaned = false then ⟨mode,0,false⟩
  else
    match mode with
    | .unavailable => ⟨.unavailable,0,true⟩
    | .doorbell => ⟨.doorbell,if i.doorbell then 1 else 0,true⟩
    | .spi => kickDdrSpi policy .spi 0 i
    | .probing =>
      if i.doorbell ∧ i.seen then ⟨.doorbell,1,true⟩
      else kickDdrSpi policy .probing (if i.doorbell then 1 else 0) i

/-- The kick does not ring twice: a doorbell that is rung while the way is probed and that
nothing answers is not followed by a pulse over SPI. -/
def KickInput.Single (i : KickInput) (mode : KickMode) : Prop :=
  ¬(mode = .probing ∧ i.cleaned=true ∧ i.doorbell=true ∧ i.seen=false ∧ i.pulse=true)

instance (i : KickInput) (mode : KickMode) : Decidable (i.Single mode) :=
  inferInstanceAs (Decidable (¬(_ ∧ _ ∧ _ ∧ _ ∧ _)))

/-- The kick rings the doorbell. -/
def KickInput.Rings (i : KickInput) (policy : DdrBankWritePolicy) (mode : KickMode) : Prop :=
  (kick policy mode i).rings≠0

instance (i : KickInput) (policy : DdrBankWritePolicy) (mode : KickMode) :
    Decidable (i.Rings policy mode) :=
  inferInstanceAs (Decidable (_ ≠ _))

theorem kickDdrSpi_rings (mode : KickMode) (rung : ℕ) (i : KickInput) :
    (kickDdrSpi policy mode rung i).rings = rung+if i.pulse then 1 else 0 := by
  unfold kickDdrSpi
  by_cases hfails : i.pulse=false ∨ i.spi=false
  · rw [if_pos hfails]
  · rw [if_neg hfails]
    by_cases hunseen : mode = .probing ∧ i.spiSeen=false
    · rw [if_pos hunseen]
    · rw [if_neg hunseen]

theorem kick_rings_le {mode : KickMode} {i : KickInput} (h : i.Single mode)
    (policy : DdrBankWritePolicy) : (kick policy mode i).rings≤1 := by
  unfold kick
  by_cases hclean : i.cleaned=false
  · rw [if_pos hclean]
    exact Nat.zero_le 1
  · rw [if_neg hclean]
    cases mode with
    | unavailable => exact Nat.zero_le 1
    | doorbell => cases i.doorbell <;> simp
    | spi =>
      rw [kickDdrSpi_rings]
      cases i.pulse <;> simp
    | probing =>
      by_cases hseen : i.doorbell=true ∧ i.seen=true
      · rw [if_pos hseen]
      · rw [if_neg hseen,kickDdrSpi_rings]
        have hnot : ¬(i.doorbell=true ∧ i.pulse=true) := fun hboth =>
          h ⟨rfl,by simpa using hclean,hboth.1,by simpa [hboth.1] using hseen,hboth.2⟩
        cases hbell : i.doorbell <;> cases hpulse : i.pulse <;> simp_all

end Misterplex.BankRelease
