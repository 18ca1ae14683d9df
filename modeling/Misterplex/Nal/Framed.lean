import Misterplex.Nal.Dispatch
import Misterplex.Nal.PumpRun

/-!
# Written units are read again

A NAL unit is written as a start code, a header byte and its payload with emulation prevention.
No start code begins behind the first one, so units are handed on as they were written.
-/

namespace Misterplex.AnnexB

open Dispatch Emulation List

/-- A NAL unit before it is written. -/
structure Nal where
  /-- The start code has four bytes. -/
  long : Bool
  /-- The header byte. -/
  header : Byte
  /-- The payload without emulation prevention. -/
  rbsp : List Byte
  /-- The header is not zero. -/
  header_ne : header≠0#8
  /-- A payload ends with its stop bit. -/
  last_ne : rbsp.getLast?≠some 0#8

/-- The unit's start code. -/
def Nal.code (n : Nal) : List Byte := if n.long then [0#8,0#8,0#8,1#8] else [0#8,0#8,1#8]

/-- The unit as the stream spells it. -/
def Nal.written (n : Nal) : List Byte := n.code ++ n.header::insertEpb n.rbsp

/-- No start code begins in a part of a stream. -/
def NoCode (rest l : List Byte) : Prop := ∀ k<l.length, annexBStartLen (l ++ rest) k=0

variable {b : Byte} {l rest : List Byte}

/-- A start code shows in its first three bytes. -/
theorem startLen_eq_zero (h : l.getD 0 0#8≠0#8 ∨ l.getD 1 0#8≠0#8 ∨
    l.getD 2 0#8≠0#8 ∧ l.getD 2 0#8≠1#8) : annexBStartLen l 0=0 := by
  rcases annexBStartLen_cases l 0 with hnone | ⟨-,-,h0,h1,h2⟩ | ⟨-,-,h0,h1,h2,-⟩
  · exact hnone
  · exact (h.elim (· h0) fun h => h.elim (· h1) (·.2 h2)).elim
  · exact (h.elim (· h0) fun h => h.elim (· h1) (·.1 h2)).elim

/-- A byte that begins no start code may be put before a part. -/
theorem NoCode.cons (h : annexBStartLen (b::(l ++ rest)) 0=0) (hl : NoCode rest l) :
    NoCode rest (b::l) := by
  intro k hk
  cases k with
  | zero => exact h
  | succ k =>
    have hdrop := annexBStartLen_drop (b::(l ++ rest)) 1 k
    rw [Nat.add_comm] at hdrop
    exact hdrop.symm.trans (hl k (Nat.lt_of_succ_lt_succ hk))

theorem NoCode.byte (hb : b≠0#8) (hl : NoCode rest l) : NoCode rest (b::l) :=
  .cons (startLen_eq_zero (.inl hb)) hl

/-- So may a zero that a nonzero byte follows. -/
theorem NoCode.zero (hb : b≠0#8) (hl : NoCode rest l) : NoCode rest (0#8::b::l) :=
  .cons (startLen_eq_zero (.inr (.inl hb))) (.byte hb hl)

/-- So may two zeros before a byte above one. -/
theorem NoCode.zeros (h0 : b≠0#8) (h1 : b≠1#8) (hl : NoCode rest l) :
    NoCode rest (0#8::0#8::b::l) :=
  .cons (startLen_eq_zero (.inr (.inr ⟨h0,h1⟩))) (.zero h0 hl)

/-- Emulation prevention leaves no start code. The induction carries the pending zeros. -/
theorem noCode_insertEpbFrom {bs : List Byte} (hlast : bs.getLast?≠some 0#8) :
    NoCode rest (insertEpbFrom 0 bs) ∧
      (bs≠[] → NoCode rest (0#8::insertEpbFrom 1 bs) ∧
        NoCode rest (0#8::0#8::insertEpbFrom 2 bs)) := by
  induction bs with
  | nil => exact ⟨fun k hk => absurd hk (Nat.not_lt_zero k),fun h => absurd rfl h⟩
  | cons b bs ih =>
    have hrest : bs.getLast?≠some 0#8 := fun h => hlast (by rw [getLast?_cons,h]; rfl)
    obtain ⟨hnone,hmore⟩ := ih hrest
    by_cases hb : b=0#8
    · subst hb
      have hne : bs≠[] := fun h => hlast (by rw [h]; rfl)
      obtain ⟨hone,htwo⟩ := hmore hne
      exact ⟨hone,fun _ => ⟨htwo,.zeros (by decide) (by decide) hone⟩⟩
    · rw [insertEpbFrom_ne (by decide) hb,insertEpbFrom_ne (by decide) hb]
      refine ⟨.byte hb hnone,fun _ => ⟨.zero hb hnone,?_⟩⟩
      by_cases hle : b≤3#8
      · rw [insertEpbFrom_two_small hb hle]
        exact .zeros (by decide) (by decide) (.byte hb hnone)
      · have h1 : b≠1#8 := fun h => hle (h ▸ by decide)
        rw [insertEpbFrom_large hle]
        exact .zeros hb h1 hnone

namespace Nal

variable (n : Nal)

theorem code_pos : 0<n.code.length := by
  rw [code]
  cases n.long <;> decide

theorem code_lt : n.code.length<n.written.length := by
  rw [written,length_append,length_cons]
  omega

theorem startLen (rest : List Byte) : annexBStartLen (n.written ++ rest) 0=n.code.length := by
  rw [written,code]
  cases n.long <;> simp [annexBStartLen]

theorem startLen_written : annexBStartLen n.written 0=n.code.length := by
  rw [← n.startLen [],append_nil]

theorem noCode (rest : List Byte) : ∀ k, n.code.length≤k → k<n.written.length →
    annexBStartLen (n.written ++ rest) k=0 := by
  intro k hk hlt
  have hbody : NoCode rest (n.header::insertEpb n.rbsp) :=
    .byte n.header_ne (noCode_insertEpbFrom n.last_ne).1
  obtain ⟨i,rfl⟩ := Nat.exists_eq_add_of_le hk
  rw [written,length_append] at hlt
  rw [← annexBStartLen_drop,written,append_assoc,drop_left]
  exact hbody i (by omega)

theorem unitBetween_written (rest : List Byte) :
    unitBetween (n.written ++ rest) 0 n.written.length=[n.written] := by
  rw [unitBetween,n.startLen,Nat.zero_add,if_pos n.code_lt,take_left,drop_zero]

/-- The units of written units. -/
theorem units_written (nals : List Nal) :
    nalUnits (nals.flatMap written)=nals.map written := by
  induction nals with
  | nil => rfl
  | cons n nals ih =>
    have hstart := n.startLen (nals.flatMap written)
    have hpos : annexBStartLen (n.written ++ nals.flatMap written) 0≠0 :=
      hstart ▸ n.code_pos.ne'
    have hnone := hstart ▸ n.noCode (nals.flatMap written)
    have hunit := n.unitBetween_written (nals.flatMap written)
    rw [flatMap_cons,map_cons,← ih]
    cases nals with
    | nil =>
      rw [flatMap_nil,append_nil] at hpos hnone hunit ⊢
      refine (nalUnits_last hpos fun k hk => ?_).trans hunit
      by_cases hlt : k<n.written.length
      · exact hnone k hk hlt
      · rw [annexBStartLen,if_pos (Nat.le_of_not_lt hlt)]
    | cons m nals =>
      have hnext : annexBStartLen (n.written ++ (m::nals).flatMap written)
          n.written.length≠0 := by
        have hdrop := annexBStartLen_drop (n.written ++ (m::nals).flatMap written)
          n.written.length 0
        rw [drop_left,flatMap_cons,m.startLen,Nat.add_zero] at hdrop
        exact hdrop ▸ m.code_pos.ne'
      rw [nalUnits_next hpos (hstart ▸ n.code_lt.le) hnext hnone,hunit,drop_left]
      rfl

theorem type_written : annexBNalType n.written = n.header &&& 0x1f#8 := by
  have hpos := n.code_pos
  have hlt := n.code_lt
  rw [annexBNalType,n.startLen_written,if_neg (by omega),written]
  simp

theorem payload_written : removeEpb (payloadOf n.written)=n.rbsp := by
  have hlen : n.code.length+1=(n.code ++ [n.header]).length := by rw [length_append]; rfl
  rw [payloadOf,pumpStartLen_eq,n.startLen_written,written,append_cons,hlen,drop_left,
    removeEpb_insertEpb]

end Nal

/-- However a stream of written units is cut, the pump hands them to the dispatcher, which reads
their types, and their payloads are taken back from them. The framer hands on the same units. -/
theorem written_units_read {w : Surroundings} (hw : w.Healthy) (cabacSkip : Bool)
    (nals : List Nal) (chunks : List (List Byte))
    (hstream : chunks.flatten=nals.flatMap Nal.written) (hread : ∀ data∈chunks, data≠[])
    (hcap : (Pump.start w cabacSkip).Within w chunks) :
    ((Pump.start w cabacSkip).run w chunks).handed=nals.map Nal.written ∧
      (((Pump.start w cabacSkip).run w chunks).handed.map fun unit =>
          (annexBNalType unit,removeEpb (payloadOf unit))) =
        (nals.map fun n => (n.header &&& 0x1f#8,n.rbsp)) ∧
      ∀ maxAccumBytes cut, cut.flatten=nals.flatMap Nal.written →
        (AnnexBFramer.new maxAccumBytes).Within cut →
          (AnnexBFramer.new maxAccumBytes).nalsOf cut=nals.map Nal.written := by
  have hhanded : ((Pump.start w cabacSkip).run w chunks).handed=nals.map Nal.written := by
    rw [((Pump.start_ready hw cabacSkip).run hw hread hcap).handed,nil_append,hstream]
    exact Nal.units_written nals
  refine ⟨hhanded,?_,fun maxAccumBytes cut hcut hin => ?_⟩
  · rw [hhanded,map_map]
    exact map_congr_left fun n _ => Prod.ext n.type_written n.payload_written
  · rw [AnnexBFramer.nalsOf_units (Nat.zero_le _) hin,hcut]
    exact Nal.units_written nals

/-- A payload of two zero bytes and a 01, cut inside its start code. -/
theorem written_units_read_cut :
    ((Pump.start Pump.undisturbed false).run Pump.undisturbed
        [[0#8,0#8],[1#8,0x65#8,0#8,0#8,3#8,1#8]]).handed.map
      (fun unit => (annexBNalType unit,removeEpb (payloadOf unit))) =
      [(5#8,[0#8,0#8,1#8])] :=
  (written_units_read (w := Pump.undisturbed) ⟨rfl,rfl,fun _ => rfl,fun _ => rfl⟩ false
    [⟨false,0x65#8,[0#8,0#8,1#8],by decide,by decide⟩]
    [[0#8,0#8],[1#8,0x65#8,0#8,0#8,3#8,1#8]] (by decide) (by decide)
    ⟨by decide,by decide,trivial⟩).2.1.trans (by decide)

end Misterplex.AnnexB
