import Mathlib.Algebra.GroupWithZero.Nat
import Mathlib.Data.Nat.Find
import Misterplex.Nal.AnnexBFramer

/-!
# When the framer overflows

What the framer holds after a push is a function of what it held and of the
chunk: the bytes from the last start code on, or nothing when a unit is
unfinished and the buffer is larger than its bound. The size of a buffer counts
the units that the same push has handed on already. A stream is delivered whole
exactly when the bytes that are thrown away on the way belong to no unit.
-/

namespace Misterplex.AnnexB

open Emulation List

/-- Bytes of some units. -/
def size (units : List (List Byte)) : ℕ := (units.map List.length).sum

theorem size_append (us vs : List (List Byte)) : size (us ++ vs)=size us+size vs := by
  rw [size,map_append,sum_append]
  rfl

variable (s : List Byte)

theorem size_unitBetween {j : ℕ} (hj : j ≤ s.length) :
    unitBetween s 0 j=[] ∨ 0<j ∧ size (unitBetween s 0 j)=j := by
  unfold unitBetween
  by_cases hfull : 0+annexBStartLen s 0<j
  · refine Or.inr ⟨by omega,?_⟩
    rw [if_pos hfull,size,map_singleton,sum_singleton,drop_zero,
      length_take_of_le hj]
  · exact Or.inl (if_neg hfull)

theorem first_code (m : ℕ) : (∀ k, m≤k → annexBStartLen s k=0) ∨
      ∃ j, m≤j ∧ j ≤ s.length ∧ annexBStartLen s j≠0 ∧
        ∀ k, m≤k → k<j → annexBStartLen s k=0 := by
  by_cases hnone : ∀ k, m≤k → annexBStartLen s k=0
  · exact Or.inl hnone
  · have hex : ∃ j, m≤j ∧ annexBStartLen s j≠0 := by
      obtain ⟨j,hj⟩ := not_forall.mp hnone
      exact ⟨j,Classical.not_imp.mp hj⟩
    obtain ⟨hm,hcode⟩ := Nat.find_spec hex
    refine Or.inr ⟨Nat.find hex,hm,?_,hcode,?_⟩
    · have hlen := annexBStartLen_cases s (Nat.find hex)
      omega
    · intro k h1 h2
      exact not_not.mp fun hne => Nat.find_min hex h2 ⟨h1,hne⟩

/-- The units of a stream whose start code at the beginning is followed by the
units of a tail. -/
theorem nalUnits_begin {s : List Byte} (hstart : annexBStartLen s 0≠0) :
    ∃ j, annexBStartLen s 0≤j ∧ j ≤ s.length ∧
      (∀ k, annexBStartLen s 0≤k → k<j → annexBStartLen s k=0) ∧
      (j=s.length ∨ annexBStartLen s j≠0) ∧
      nalUnits s = unitBetween s 0 j ++ nalUnits (s.drop j) := by
  cases first_code s (annexBStartLen s 0) with
  | inl hnone =>
    have hlen := annexBStartLen_cases s 0
    refine ⟨s.length,by omega,le_rfl,fun k h1 _ => hnone k h1,Or.inl rfl,?_⟩
    rw [nalUnits_last hstart hnone,drop_length]
    exact (append_nil _).symm
  | inr hfound =>
    obtain ⟨j,hfrom,hle,hcode,hnone⟩ := hfound
    exact ⟨j,hfrom,hle,hnone,Or.inr hcode,nalUnits_next hstart hfrom hcode hnone⟩

/-- A byte in front of a stream takes no byte from its units, and leaves them as
they are unless it adds to them. -/
theorem size_cons (b : Byte) (rest : List Byte) :
    size (nalUnits rest) ≤ size (nalUnits (b::rest)) ∧
      (size (nalUnits rest)=size (nalUnits (b::rest)) →
        nalUnits rest=nalUnits (b::rest)) := by
  have hdrop : (b::rest).drop 1=rest := rfl
  have hshift : ∀ k, annexBStartLen rest k=annexBStartLen (b::rest) (k+1) := by
    intro k
    have hk := annexBStartLen_drop (b::rest) 1 k
    rw [hdrop,Nat.add_comm] at hk
    exact hk
  by_cases hstart : annexBStartLen (b::rest) 0=0
  · have hskip := nalUnits_skip (s := b::rest) (i := 1) (Nat.succ_le_succ (Nat.zero_le _))
      (fun k hk => by rw [Nat.lt_one_iff.mp hk]; exact hstart)
    rw [hskip,hdrop]
    exact ⟨le_rfl,fun _ => rfl⟩
  · obtain ⟨j,hfrom,hle,hnone,hend,hunits⟩ := nalUnits_begin hstart
    have hlen : (b::rest).length=rest.length+1 := rfl
    have hsize := annexBStartLen_cases (b::rest) 0
    have htail : (b::rest).drop j=rest.drop (j-1) := by
      rw [← drop_succ_cons (a := b) (l := rest),Nat.sub_add_cancel (by omega)]
    rw [htail] at hunits
    rw [hunits,size_append]
    by_cases h4 : annexBStartLen (b::rest) 0=4
    · have h3 : annexBStartLen rest 0=3 := by
        rcases hsize with h0 | ⟨h3,_⟩ | ⟨_,h4len,_,h1,h2,h3⟩
        · omega
        · omega
        · have hzero : rest.getD 0 0#8=0#8 := h1
          have hzero' : rest.getD 1 0#8=0#8 := h2
          have hone : rest.getD 2 0#8=1#8 := h3
          have hne : ¬(1#8=0#8) := by decide
          unfold annexBStartLen
          rw [if_neg (by omega),if_neg (fun hc => hne (hone.symm.trans hc.2.2.2.1)),
            if_pos ⟨by omega,hzero,hzero',hone⟩]
      have hrest : nalUnits rest = unitBetween rest 0 (j-1) ++ nalUnits (rest.drop (j-1)) := by
        have hnone' : ∀ k, annexBStartLen rest 0≤k → k<j-1 → annexBStartLen rest k=0 := by
          intro k h1 h2
          rw [hshift]
          exact hnone (k+1) (by omega) (by omega)
        rcases hend with hend | hcode
        · have hall : ∀ k, annexBStartLen rest 0≤k → annexBStartLen rest k=0 := by
            intro k hk
            by_cases hin : k<j-1
            · exact hnone' k hk hin
            · have hcase := annexBStartLen_cases rest k
              omega
          rw [nalUnits_last (by omega) hall,show j-1=rest.length by omega,drop_length]
          exact (append_nil _).symm
        · refine nalUnits_next (by omega) (by omega) ?_ hnone'
          rw [hshift,Nat.sub_add_cancel (by omega)]
          exact hcode
      rw [hrest,size_append]
      have hempty : unitBetween rest 0 (j-1)=[] ↔ unitBetween (b::rest) 0 j=[] := by
        unfold unitBetween
        rw [h3,h4]
        by_cases hfull : 0+4<j
        · rw [if_pos (show 0+3<j-1 by omega),if_pos hfull]
          exact ⟨fun h => (nomatch h),fun h => (nomatch h)⟩
        · rw [if_neg (show ¬0+3<j-1 by omega),if_neg hfull]
      rcases size_unitBetween rest (show j-1≤rest.length by omega) with hnil | ⟨hpos,hs⟩
      · rw [hnil,hempty.mp hnil]
        exact ⟨le_rfl,fun _ => rfl⟩
      · rcases size_unitBetween (b::rest) hle with hnil | ⟨hpos',hs'⟩
        · rw [hnil,hempty.mpr hnil]
          exact ⟨le_rfl,fun _ => rfl⟩
        · exact ⟨by omega,fun h => by omega⟩
    · have hrest : nalUnits rest=nalUnits (rest.drop (j-1)) := by
        refine nalUnits_skip (by omega) fun k hk => ?_
        rw [hshift]
        by_cases hin : k+1<annexBStartLen (b::rest) 0
        · have hinside : annexBStartLen (b::rest) (0+(k+1))=0 ∨
              (k+1=1 ∧ annexBStartLen (b::rest) 0=4) :=
            annexBStartLen_inside (Nat.succ_pos k) hin
          rw [Nat.zero_add] at hinside
          exact hinside.resolve_right fun h => h4 h.2
        · exact hnone (k+1) (by omega) (by omega)
      rw [hrest]
      refine ⟨by omega,fun h => ?_⟩
      rcases size_unitBetween (b::rest) hle with hnil | ⟨hpos,hs⟩
      · rw [hnil,nil_append]
      · omega

/-- Bytes in front of a stream take no byte from its units, and leave them as
they are unless they add to them. -/
theorem size_front (front rest : List Byte) :
    size (nalUnits rest) ≤ size (nalUnits (front ++ rest)) ∧
      (size (nalUnits rest)=size (nalUnits (front ++ rest)) →
        nalUnits rest=nalUnits (front ++ rest)) := by
  induction front with
  | nil => exact ⟨le_rfl,fun _ => rfl⟩
  | cons b front ih =>
    obtain ⟨hle,heq⟩ := ih
    obtain ⟨hle',heq'⟩ := size_cons b (front ++ rest)
    rw [cons_append]
    refine ⟨Nat.le_trans hle hle',fun h => ?_⟩
    rw [heq (by omega)]
    exact heq' (by omega)

/-- Offset of the last start code, near the end when there is none. -/
def lastCode : ℕ := (startCodes s).getLast?.getD (s.length-3)

/-- Bytes from the last start code on, the last three when there is none. -/
def remains : List Byte := s.drop (lastCode s)

/-- Bytes from the first start code on, the last three when there is none. -/
def begun : List Byte := s.drop ((startCodes s).headD (s.length-3))

/-- There is a byte behind the first three of the last start code. -/
def Unfinished : Prop := lastCode s+3<s.length

instance (s : List Byte) : Decidable (Unfinished s) := inferInstanceAs (Decidable (_ < _))

/-- A unit is unfinished and the bytes from the first start code on, those of
finished units included, are more than a bound. -/
def Overflows (maxAcc : ℕ) (s : List Byte) : Prop := Unfinished s ∧ maxAcc<(begun s).length

instance (maxAcc : ℕ) (s : List Byte) : Decidable (Overflows maxAcc s) :=
  inferInstanceAs (Decidable (_ ∧ _))

/-- What is left of some bytes after a push. -/
def leftOf (maxAcc : ℕ) (s : List Byte) : List Byte :=
  if Overflows maxAcc s then [] else remains s

/-- Whatever is thrown away while chunks are pushed belongs to no unit: the units
of what follows are the same with it in front. -/
def Spares (maxAcc : ℕ) : List Byte → List (List Byte) → Prop
  | _,[] => True
  | left,data::chunks =>
    (Overflows maxAcc (left ++ data) →
        nalUnits chunks.flatten=nalUnits (remains (left ++ data) ++ chunks.flatten)) ∧
      Spares maxAcc (leftOf maxAcc (left ++ data)) chunks

theorem lastCode_short {s : List Byte} (h : s.length≤3) : lastCode s=0 := by
  unfold lastCode
  cases hlast : (startCodes s).getLast? with
  | none =>
    rw [Option.getD_none]
    omega
  | some p =>
    have hmem := mem_of_getLast? hlast
    have hcode := (of_decide_eq_true (mem_filter.mp hmem).2).1
    have hcase := annexBStartLen_cases s p
    rw [Option.getD_some]
    omega

theorem lastCode_skip {s : List Byte} {m : ℕ} (hle : m=0 ∨ m+3 ≤ s.length)
    (hnone : ∀ k < m, annexBStartLen s k=0) : lastCode s=m+lastCode (s.drop m) := by
  cases hle with
  | inl hzero =>
    rw [hzero,drop_zero,Nat.zero_add]
  | inr hroom =>
    unfold lastCode
    rw [startCodes_skip (by omega) hnone,getLast?_map,length_drop]
    cases (startCodes (s.drop m)).getLast? with
    | none =>
      rw [Option.map_none,Option.getD_none,Option.getD_none]
      omega
    | some p => rfl

theorem lastCode_begin {s : List Byte} {j : ℕ} (hstart : annexBStartLen s 0≠0)
    (hfrom : annexBStartLen s 0≤j) (hnext : annexBStartLen s j≠0)
    (hnone : ∀ k, annexBStartLen s 0≤k → k<j → annexBStartLen s k=0) :
    lastCode s=j+lastCode (s.drop j) := by
  have hle : j ≤ s.length := by
    have hcode := annexBStartLen_cases s j
    omega
  have htail : annexBStartLen (s.drop j) 0≠0 := by
    rw [annexBStartLen_drop]
    exact hnext
  have hfits : annexBStartLen (s.drop j) 0≤(s.drop j).length := by
    have hcode := annexBStartLen_cases (s.drop j) 0
    omega
  have hcodes := startCodes_begin htail (Nat.le_refl _) hfits fun k h1 h2 => absurd h1 (by omega)
  unfold lastCode
  rw [startCodes_begin hstart hfrom hle hnone,hcodes,map_cons,getLast?_cons_cons,
    ← map_cons,getLast?_map,getLast?_cons]
  rfl

theorem lastCode_alone {s : List Byte} (hstart : annexBStartLen s 0≠0)
    (hnone : ∀ k, annexBStartLen s 0≤k → annexBStartLen s k=0) : lastCode s=0 := by
  have hfits : annexBStartLen s 0 ≤ s.length := by
    have hcode := annexBStartLen_cases s 0
    omega
  unfold lastCode
  rw [startCodes_begin hstart hfits le_rfl fun k h1 _ => hnone k h1,drop_length]
  rfl

namespace AnnexBFramer

theorem ending_short {acc : List Byte} {i : ℕ} (h : acc.length ≤ i+3) :
    (if Unfinished (acc.drop i) then Ending.waits (i+lastCode (acc.drop i))
      else .done (i+lastCode (acc.drop i))) = .done i := by
  have hlen : (acc.drop i).length≤3 := by
    rw [length_drop]
    omega
  have hlast := lastCode_short hlen
  have hdone : ¬Unfinished (acc.drop i) := by
    unfold Unfinished
    omega
  rw [if_neg hdone,hlast,Nat.add_zero]

theorem emitFrom_ending (acc : List Byte) (fuel i : ℕ)
    (hstart : annexBStartLen acc i≠0 ∨ acc.length ≤ i+3) (hfuel : acc.length ≤ i+fuel) :
    (emitFrom acc false fuel i).2 =
      if Unfinished (acc.drop i) then .waits (i+lastCode (acc.drop i))
      else .done (i+lastCode (acc.drop i)) := by
  induction fuel generalizing i with
  | zero => exact (ending_short (by omega)).symm
  | succ fuel ih =>
    rw [emitFrom]
    by_cases hin : i+3<acc.length
    · have hcode : annexBStartLen acc i≠0 := hstart.resolve_right (by omega)
      have hat : annexBStartLen (acc.drop i) 0=annexBStartLen acc i := by
        rw [annexBStartLen_drop,Nat.add_zero]
      rw [if_pos hin]
      rw [if_neg hcode]
      cases hnext : nextStart acc acc.length (i+annexBStartLen acc i) with
      | none =>
        have hnone : ∀ k, annexBStartLen (acc.drop i) 0≤k →
            annexBStartLen (acc.drop i) k=0 := by
          intro k hk
          rw [annexBStartLen_drop]
          exact nextStart_none hnext (by omega) (i+k) (by omega)
        have hlast := lastCode_alone (hat ▸ hcode) hnone
        have hwaits : Unfinished (acc.drop i) := by
          unfold Unfinished
          rw [hlast,length_drop]
          omega
        rw [if_pos hwaits,hlast,Nat.add_zero]
        rfl
      | some j =>
        obtain ⟨hle,hend,hj,hbetween⟩ := nextStart_some hnext
        have hback : i+(j-i)=j := by omega
        have hlast : lastCode (acc.drop i)=j-i+lastCode (acc.drop j) := by
          have hbegin := lastCode_begin (s := acc.drop i) (j := j-i) (hat ▸ hcode)
            (by omega) (by rw [annexBStartLen_drop,hback]; exact hj) (by
              intro k h1 h2
              rw [annexBStartLen_drop]
              exact hbetween (i+k) (by omega) (by omega))
          rw [drop_drop,hback] at hbegin
          exact hbegin
        have hsame : Unfinished (acc.drop i) ↔ Unfinished (acc.drop j) := by
          unfold Unfinished
          rw [hlast,length_drop,length_drop]
          omega
        have hrec := ih j (Or.inl hj) (by omega)
        simp only [Option.isNone_some,Bool.false_and,Bool.false_eq_true,if_false,
          Option.getD_some,Bool.not_false]
        rw [hrec,hlast,show i+(j-i+lastCode (acc.drop j))=j+lastCode (acc.drop j) by
          omega]
        by_cases hun : Unfinished (acc.drop j)
        · rw [if_pos hun,if_pos (hsame.mpr hun)]
        · rw [if_neg hun,if_neg (fun h => hun (hsame.mp h))]
    · rw [if_neg hin]
      exact (ending_short (by omega)).symm

theorem skipFrom_stops (acc : List Byte) (fuel i : ℕ) (hfuel : acc.length ≤ i+fuel) :
    annexBStartLen acc (skipFrom acc fuel i)≠0 ∨ acc.length ≤ skipFrom acc fuel i+3 := by
  induction fuel generalizing i with
  | zero =>
    rw [skipFrom]
    exact Or.inr (by omega)
  | succ fuel ih =>
    rw [skipFrom]
    by_cases hin : i+3<acc.length
    · rw [if_pos hin]
      by_cases hstart : annexBStartLen acc i≠0
      · rw [if_pos hstart]
        exact Or.inl hstart
      · rw [if_neg hstart]
        exact ih (i+1) (by omega)
    · rw [if_neg hin]
      exact Or.inr (by omega)

theorem skip_acc (f : AnnexBFramer) :
    ∃ m, f.acc.drop (skipFrom f.acc f.acc.length f.parseFrom)=f.left.drop m ∧
      (m=0 ∨ m+3≤f.left.length) ∧ (∀ k < m, annexBStartLen f.left k=0) ∧
      (annexBStartLen (f.left.drop m) 0≠0 ∨ (f.left.drop m).length≤3) := by
  obtain ⟨hle,hnone⟩ := skipFrom_spec f.acc f.acc.length f.parseFrom
  have hstop := skipFrom_stops f.acc f.acc.length f.parseFrom (by omega)
  generalize skipFrom f.acc f.acc.length f.parseFrom=k at hle hnone hstop
  have hback : f.parseFrom+(k-f.parseFrom)=k := by omega
  refine ⟨k-f.parseFrom,?_,?_,?_,?_⟩
  · rw [left,drop_drop,hback]
  · by_cases hmove : k=f.parseFrom
    · exact Or.inl (by omega)
    · have hlast := (hnone (k-1) (by omega) (by omega)).1
      rw [left,length_drop]
      exact Or.inr (by omega)
  · intro x hx
    rw [left,annexBStartLen_drop]
    exact (hnone (f.parseFrom+x) (by omega) (by omega)).2
  · rw [left,drop_drop,hback,annexBStartLen_drop,Nat.add_zero,length_drop]
    exact hstop.imp id fun h => by omega

theorem overflows_iff {s : List Byte} {m : ℕ} (maxAcc : ℕ) (hle : m=0 ∨ m+3 ≤ s.length)
    (hnone : ∀ k < m, annexBStartLen s k=0)
    (hstop : annexBStartLen (s.drop m) 0≠0 ∨ (s.drop m).length≤3) :
    Overflows maxAcc s ↔ Unfinished (s.drop m) ∧ maxAcc<(s.drop m).length := by
  have hlast := lastCode_skip hle hnone
  have hsame : Unfinished s ↔ Unfinished (s.drop m) := by
    unfold Unfinished
    rw [hlast,length_drop]
    omega
  rw [Overflows,hsame]
  refine and_congr_right fun hun => ?_
  have hlong : 3<(s.drop m).length := by
    unfold Unfinished at hun
    omega
  have hcode : annexBStartLen (s.drop m) 0≠0 := hstop.resolve_right (by omega)
  have hfits : annexBStartLen (s.drop m) 0≤(s.drop m).length := by
    have hcase := annexBStartLen_cases (s.drop m) 0
    omega
  have hm : m ≤ s.length := by omega
  have hcodes := startCodes_begin hcode le_rfl hfits fun k h1 h2 => absurd h1 (by omega)
  have hbegun : begun s=s.drop m := by
    rw [begun,startCodes_skip hm hnone,hcodes]
    rfl
  rw [hbegun]

/-- The units taken out are the complete ones, and the rest is kept unless it is too long. -/
theorem emitComplete_spec (f : AnnexBFramer) :
    (f.emitComplete false).2.Sound ∧ (f.emitComplete false).2.maxAcc=f.maxAcc ∧
      (f.emitComplete false).2.left=leftOf f.maxAcc f.left ∧
      ∀ tail, nalUnits (f.left ++ tail) =
        (f.emitComplete false).1 ++ nalUnits (remains f.left ++ tail) := by
  have hskip := fun tail => units_skip f.acc tail f.acc.length f.parseFrom
  obtain ⟨m,hacc,hle,hnone,hstop⟩ := skip_acc f
  have hover := overflows_iff f.maxAcc hle hnone hstop
  have hremains : remains f.left=(f.left.drop m).drop (lastCode (f.left.drop m)) := by
    rw [remains,lastCode_skip hle hnone,drop_drop]
  rw [hacc] at hskip
  unfold emitComplete
  rw [hacc,hremains]
  unfold leftOf
  rw [hremains]
  dsimp only
  generalize f.left.drop m=acc at hskip hstop hover
  have hend := emitFrom_ending acc acc.length 0 (hstop.imp id fun h => by omega) (by omega)
  obtain ⟨hbound,hunits⟩ := emitFrom_open acc acc.length 0 (Nat.zero_le _)
  rw [drop_zero,Nat.zero_add] at hend
  generalize emitFrom acc false acc.length 0=answer at hend hbound hunits
  obtain ⟨nals,ending⟩ := answer
  subst hend
  by_cases hun : Unfinished acc
  · rw [if_pos hun] at hbound hunits ⊢
    by_cases hlarge : f.maxAcc<acc.length
    · rw [if_pos (hover.mpr ⟨hun,hlarge⟩)]
      dsimp only
      rw [if_pos hlarge]
      exact ⟨Nat.zero_le _,rfl,rfl,fun tail => (hskip tail).trans (hunits tail)⟩
    · rw [if_neg fun h => hlarge (hover.mp h).2]
      dsimp only
      rw [if_neg hlarge]
      exact ⟨hbound,rfl,rfl,fun tail => (hskip tail).trans (hunits tail)⟩
  · rw [if_neg hun] at hbound hunits ⊢
    rw [if_neg fun h => hun (hover.mp h).1]
    exact ⟨Nat.zero_le _,rfl,rfl,fun tail => (hskip tail).trans (hunits tail)⟩

/-- A push takes out the units that it completes. -/
theorem push_spec {f : AnnexBFramer} (hf : f.Sound) (data : List Byte) :
    (f.push data).2.Sound ∧ (f.push data).2.maxAcc=f.maxAcc ∧
      (f.push data).2.left=leftOf f.maxAcc (f.left ++ data) ∧
      ∀ tail, nalUnits (f.left ++ (data ++ tail)) =
        (f.push data).1 ++ nalUnits (remains (f.left ++ data) ++ tail) := by
  have hleft : left { f with acc := f.acc ++ data } = f.left ++ data :=
    drop_append_of_le_length hf
  have hemit := emitComplete_spec { f with acc := f.acc ++ data }
  rw [hleft] at hemit
  obtain ⟨hsound,hbound,hend,hunits⟩ := hemit
  refine ⟨hsound,hbound,hend,fun tail => ?_⟩
  rw [← append_assoc]
  exact hunits tail

/-- Over a whole run no byte is handed on that is in no unit, and the units are
those of the stream exactly when what is thrown away belongs to none. -/
theorem nalsOf_spares {f : AnnexBFramer} (hf : f.Sound) (chunks : List (List Byte)) :
    size (f.nalsOf chunks) ≤ size (nalUnits (f.left ++ chunks.flatten)) ∧
      (f.nalsOf chunks=nalUnits (f.left ++ chunks.flatten) ↔
        Spares f.maxAcc f.left chunks) := by
  induction chunks generalizing f with
  | nil =>
    rw [nalsOf,finish_units,flatten_nil,append_nil]
    exact ⟨le_rfl,iff_of_true rfl trivial⟩
  | cons data chunks ih =>
    obtain ⟨hsound,hbound,hleft,hunits⟩ := push_spec hf data
    obtain ⟨hsize,hiff⟩ := ih hsound
    rw [hleft,hbound] at hiff
    rw [hleft] at hsize
    rw [nalsOf,flatten_cons,hunits chunks.flatten,size_append,size_append,
      append_cancel_left_eq,Spares]
    by_cases hover : Overflows f.maxAcc (f.left ++ data)
    · have hlost : leftOf f.maxAcc (f.left ++ data)=[] := if_pos hover
      rw [hlost] at hiff hsize ⊢
      rw [nil_append] at hiff hsize
      obtain ⟨hfront,hsame⟩ := size_front (remains (f.left ++ data)) chunks.flatten
      refine ⟨by omega,?_⟩
      constructor
      · intro h
        have hkeep : nalUnits chunks.flatten =
            nalUnits (remains (f.left ++ data) ++ chunks.flatten) := by
          rw [← h] at hfront hsame
          exact (hsame (by omega)).trans h
        exact ⟨fun _ => hkeep,hiff.mp (h.trans hkeep.symm)⟩
      · rintro ⟨hkeep,hrest⟩
        exact (hiff.mpr hrest).trans (hkeep hover)
    · have hkept : leftOf f.maxAcc (f.left ++ data)=remains (f.left ++ data) := if_neg hover
      rw [hkept] at hiff hsize ⊢
      exact ⟨by omega,hiff.trans (iff_and_self.mpr fun _ h => absurd h hover)⟩

/-- The framer hands on all units of a stream exactly when its overflows throw
nothing away that belongs to one. -/
theorem nalsOf_eq_nalUnits_iff (maxAccumBytes : ℕ) (chunks : List (List Byte)) :
    (new maxAccumBytes).nalsOf chunks=nalUnits chunks.flatten ↔
      Spares maxAccumBytes [] chunks :=
  (nalsOf_spares (f := new maxAccumBytes) (Nat.le_refl 0) chunks).2

/-- Two units of five bytes. -/
def twoUnits : List Byte :=
  [0#8,0#8,1#8,0x65#8,0xaa#8,0#8,0#8,1#8,0x41#8,0xbb#8]

/-- Pushed at once into a framer with room for eight bytes, the second unit is
thrown away because the first still counts. -/
theorem not_nalsOf_eq_nalUnits :
    ¬((∀ u∈nalUnits twoUnits, u.length≤8) →
      (new 8).nalsOf [twoUnits]=nalUnits [twoUnits].flatten) := by
  decide

end AnnexBFramer

end Misterplex.AnnexB
