import Misterplex.Rbsp.BitFeeder
import Misterplex.Rbsp.NaluScanner

/-!
# h264_rbsp_filter

A one-byte output register behind the counting stripper. Every cycle takes the
handshakes on both sides from the same register state, so a byte moves through
in order whatever the stalls on either side.

The host remover and the capture path of the scanner undo emulation prevention on every
payload. The filter and the bit feeder share the counting stripper, whose zero counter
survives a skip, and lose the 03 that follows an odd run of at least three zeros.
-/

namespace Misterplex.RbspFilter

open Trace Emulation CountingStrip

/-- Registers of the module; `strip` holds zero_count and inhibit_skip. -/
structure FilterState where
  /-- Output register holds a byte. -/
  outValid : Bool
  outByte : Byte
  /-- Output byte was the last of its unit. -/
  outLast : Bool
  /-- Index of the output byte in the RBSP. -/
  outIndex : BitVec 16
  /-- Bytes pushed so far. -/
  rbspLen : BitVec 16
  /-- Bytes skipped so far. -/
  epbRemoved : BitVec 16
  /-- The last byte of the unit has been taken. -/
  done : Bool
  /-- Zero counter and inhibit flag. -/
  strip : StripState
  deriving DecidableEq, Repr

/-- Input wires of one clock cycle. -/
structure FilterInput where
  reset : Bool
  /-- Clear pulse between units. -/
  clear : Bool
  /-- Producer offers a byte. -/
  inValid : Bool
  inByte : Byte
  /-- Offered byte is the last of its unit. -/
  inLast : Bool
  /-- Consumer takes the output byte. -/
  outReady : Bool
  deriving DecidableEq, Repr

/-- Register values after reset or clear. -/
def cleared : FilterState :=
  { outValid := false, outByte := 0#8, outLast := false, outIndex := 0#16, rbspLen := 0#16,
    epbRemoved := 0#16, done := false, strip := StripState.cleared }

variable (s : FilterState)

/-- The in_ready wire. -/
def canAccept (i : FilterInput) : Bool := !s.outValid || i.outReady

/-- The skip_epb wire for an offered byte. -/
def skipEpb (i : FilterInput) : Bool :=
  i.inValid && canAccept s i && s.strip.skipEpb i.inByte

/-- One rising clock edge. -/
def step (i : FilterInput) : FilterState :=
  if i.reset || i.clear then cleared
  else
    let s₁ := if s.outValid && i.outReady then { s with outValid := false } else s
    if i.inValid && canAccept s i then
      if skipEpb s i then
        { s₁ with epbRemoved := s.epbRemoved+1, strip := s.strip.next i.inByte,
                  done := s.done || i.inLast }
      else
        { s₁ with outValid := true, outByte := i.inByte, outLast := i.inLast,
                  outIndex := s.rbspLen, rbspLen := s.rbspLen+1,
                  strip := s.strip.next i.inByte, done := s.done || i.inLast }
    else s₁

/-- Byte taken from the producer in a cycle. -/
def accepted (i : FilterInput) : List Byte :=
  if i.inValid && canAccept s i then [i.inByte] else []

/-- Byte handed to the consumer in a cycle. -/
def delivered (i : FilterInput) : List Byte :=
  if s.outValid && i.outReady then [s.outByte] else []

/-- A cycle without reset or clear. -/
def Quiet (i : FilterInput) : Prop := i.reset=false ∧ i.clear=false

/-- Bytes in the output register. -/
def pending : List Byte := if s.outValid then [s.outByte] else []

theorem step_strip {i : FilterInput} (hq : Quiet i) :
    (step s i).strip = strip.after s.strip (accepted s i) := by
  obtain ⟨hr,hc⟩ := hq
  unfold step accepted
  simp only [hr,hc,Bool.or_self,Bool.false_eq_true,if_false]
  by_cases ha : (i.inValid && canAccept s i)=true
  · split_ifs <;> rfl
  · split_ifs <;> rfl

/-- A quiet cycle hands on the register or keeps it, and an accepted byte that
is not skipped takes its place. -/
theorem step_conserve {i : FilterInput} (hq : Quiet i) :
    delivered s i ++ pending (step s i) = pending s ++ strip.run s.strip (accepted s i) := by
  obtain ⟨hr,hc⟩ := hq
  unfold step accepted delivered pending skipEpb
  simp only [hr,hc,Bool.or_self,Bool.false_eq_true,if_false]
  by_cases ha : (i.inValid && canAccept s i)=true
  · have hready : s.outValid=true → i.outReady=true := by
      intro hv
      simpa [canAccept,hv] using (Bool.and_eq_true_iff.mp ha).2
    rw [if_pos ha,if_pos ha,ha]
    cases hv : s.outValid with
    | false => cases hk : s.strip.skipEpb i.inByte <;> simp [CountingStrip.strip,hk,hv]
    | true =>
      rw [hready hv]
      cases hk : s.strip.skipEpb i.inByte <;> simp [CountingStrip.strip,hk]
  · rw [if_neg ha,if_neg ha]
    cases hv : s.outValid <;> cases ho : i.outReady <;> simp [hv]

/-- The module is a stage of the counting stripper that holds at most one byte. -/
def stage : Transducer.Stage strip step accepted delivered where
  valid _ := True
  legal := Quiet
  control s := s.strip
  pending := pending
  valid_step _ _ _ _ := trivial
  control_step s _ _ hq := step_strip s hq
  conserve s _ _ hq := step_conserve s hq

/-- The filter recovers a payload when every stall pattern that takes its coded
bytes from reset on and drains the output register delivers the payload. -/
def Recovers (bytes : List Byte) : Prop :=
  ∀ inputs : List FilterInput, (∀ i∈inputs, Quiet i) →
    emitted step accepted cleared inputs=insertEpb bytes →
    (finalState step cleared inputs).outValid=false →
    emitted step delivered cleared inputs=bytes

theorem delivered_eq_strip (inputs : List FilterInput) (hq : ∀ i∈inputs, Quiet i)
    (hdrain : (finalState step cleared inputs).outValid=false) :
    emitted step delivered cleared inputs =
      strip.run StripState.cleared (emitted step accepted cleared inputs) := by
  have h := stage.conserve_run cleared inputs trivial hq
  have hend : stage.pending (finalState step cleared inputs)=[] := if_neg (by simp [hdrain])
  rw [hend,List.append_nil] at h
  exact h

/-- The stall-free schedule of a byte list, with one more cycle to drain. -/
def straightInputs (bytes : List Byte) : List FilterInput :=
  bytes.map (fun b => ⟨false,false,true,b,false,true⟩) ++ [⟨false,false,false,0#8,false,true⟩]

theorem straightInputs_quiet (bytes : List Byte) : ∀ i∈straightInputs bytes, Quiet i := by
  intro i hi
  rcases List.mem_append.mp hi with h | h
  · obtain ⟨b,_,rfl⟩ := List.mem_map.mp h
    exact ⟨rfl,rfl⟩
  · rw [List.mem_singleton.mp h]
    exact ⟨rfl,rfl⟩

/-- Bytes fed one after the other come out as they are. -/
theorem straightInputs_run (bytes : List Byte) :
    emitted step accepted s (straightInputs bytes)=bytes ∧
      (finalState step s (straightInputs bytes)).outValid=false := by
  induction bytes generalizing s with
  | nil =>
    constructor
    · rfl
    · cases hv : s.outValid <;> simp [straightInputs,step,canAccept,hv]
  | cons b bytes ih =>
    have h := ih (step s ⟨false,false,true,b,false,true⟩)
    refine ⟨?_,h.2⟩
    have ha : accepted s ⟨false,false,true,b,false,true⟩=[b] := by
      simp [accepted,canAccept]
    rw [straightInputs,List.map_cons,List.cons_append,emitted_cons,ha]
    exact congrArg (b :: ·) h.1

theorem recovers_iff (bytes : List Byte) :
    Recovers bytes ↔ ¬OddZeroRunBeforeThree bytes := by
  rw [← strip_insertEpb_iff]
  constructor
  · intro h
    obtain ⟨hacc,hdrain⟩ := straightInputs_run cleared (insertEpb bytes)
    have hq := straightInputs_quiet (insertEpb bytes)
    have hd := delivered_eq_strip _ hq hdrain
    rw [h _ hq hacc hdrain,hacc] at hd
    exact hd.symm
  · intro h inputs hq hacc hdrain
    rw [delivered_eq_strip inputs hq hdrain,hacc,h]

end Misterplex.RbspFilter

namespace Misterplex.Strippers

open Emulation

/-- Every stripper of the repository recovers a payload from its coded form. -/
def EveryStripperRecovers (bytes : List Byte) : Prop :=
  removeEpb (insertEpb bytes)=bytes ∧ RbspFilter.Recovers bytes ∧ BitFeeder.Recovers bytes ∧
    NaluScanner.Recovers bytes

/-- The four strippers agree with the payload exactly when no odd run of at
least three zeros stands before a 03. -/
theorem everyStripperRecovers_iff (bytes : List Byte) :
    EveryStripperRecovers bytes ↔ ¬OddZeroRunBeforeThree bytes := by
  have hfilter := RbspFilter.recovers_iff bytes
  have hfeeder := BitFeeder.recovers_iff bytes
  constructor
  · intro h
    exact hfilter.mp h.2.1
  · intro h
    exact ⟨removeEpb_insertEpb bytes,hfilter.mpr h,hfeeder.mpr h,NaluScanner.recovers bytes⟩

/-- Three zeros and a 03 are coded as 00 00 03 00 03, and the second 03 is lost. -/
theorem not_everyStripperRecovers_zeros_three :
    ¬EveryStripperRecovers [0#8,0#8,0#8,3#8] := by
  intro h
  have hclean := (RbspFilter.recovers_iff [0#8,0#8,0#8,3#8]).mp h.2.1
  exact hclean ⟨[],0,[],rfl,by decide⟩

end Misterplex.Strippers
