import Misterplex.Rbsp.Emulation

/-!
# NAL units of an Annex B byte stream

A unit runs from its start code of three or four bytes to just before the next
start code or the end of the stream. A three-byte code inside a four-byte one is
no start code of its own. The laws at the end say how the units of a stream
follow from those of its tail; they are all that a framer has to respect.
-/

namespace Misterplex.AnnexB

open Emulation List

variable (p : List Byte)

/-- Length of the start code at an offset, zero if there is none. -/
def annexBStartLen (off : ℕ) : ℕ :=
  if p.length ≤ off then 0
  else if off+4 ≤ p.length ∧ p.getD off 0#8=0#8 ∧ p.getD (off+1) 0#8=0#8 ∧
      p.getD (off+2) 0#8=0#8 ∧ p.getD (off+3) 0#8 = 1#8 then 4
  else if off+3 ≤ p.length ∧ p.getD off 0#8=0#8 ∧ p.getD (off+1) 0#8=0#8 ∧
      p.getD (off+2) 0#8 = 1#8 then 3
  else 0

/-- There is a start code at an offset, and not inside another one. -/
def isStartCode (s : List Byte) (p : ℕ) : Bool :=
  annexBStartLen s p≠0 ∧ ¬(0<p ∧ annexBStartLen s (p-1)=4)

/-- Offsets of the start codes. -/
def startCodes (s : List Byte) : List ℕ := (List.range s.length).filter (isStartCode s)

/-- The bytes between two offsets, the first at a start code, unless there is
nothing behind the code. -/
def unitBetween (s : List Byte) (p q : ℕ) : List (List Byte) :=
  if p+annexBStartLen s p < q then [(s.take q).drop p] else []

/-- The nonempty units from the given start codes on. -/
def unitsFrom (s : List Byte) : List ℕ → List (List Byte)
  | [] => []
  | [p] => unitBetween s p s.length
  | p::q::codes => unitBetween s p q ++ unitsFrom s (q::codes)

/-- The nonempty NAL units of a stream, with their start codes. -/
def nalUnits (s : List Byte) : List (List Byte) := unitsFrom s (startCodes s)

theorem getD_drop (i k : ℕ) : (p.drop i).getD k 0#8=p.getD (i+k) 0#8 := by
  rw [getD_eq_getElem?_getD,getElem?_drop,getD_eq_getElem?_getD]

theorem getD_append {p : List Byte} (t : List Byte) {k : ℕ} (h : k<p.length) :
    (p ++ t).getD k 0#8=p.getD k 0#8 := by
  rw [getD_eq_getElem?_getD,getElem?_append_left h,getD_eq_getElem?_getD]

theorem annexBStartLen_drop (i k : ℕ) : annexBStartLen (p.drop i) k=annexBStartLen p (i+k) := by
  simp only [annexBStartLen,getD_drop,length_drop,Nat.add_assoc]
  have h4 : k+4≤p.length-i ↔ i+(k+4)≤p.length := by omega
  have h3 : k+3≤p.length-i ↔ i+(k+3)≤p.length := by omega
  have h0 : p.length-i≤k ↔ p.length ≤ i+k := by omega
  simp only [h4,h3,h0]

theorem annexBStartLen_cases (off : ℕ) : annexBStartLen p off=0 ∨
    (annexBStartLen p off=3 ∧ off+3≤p.length ∧ p.getD off 0#8=0#8 ∧
      p.getD (off+1) 0#8=0#8 ∧ p.getD (off+2) 0#8=1#8) ∨
    (annexBStartLen p off=4 ∧ off+4≤p.length ∧ p.getD off 0#8=0#8 ∧
      p.getD (off+1) 0#8=0#8 ∧ p.getD (off+2) 0#8=0#8 ∧ p.getD (off+3) 0#8=1#8) := by
  unfold annexBStartLen
  split_ifs with h h4 h3
  · exact Or.inl rfl
  · exact Or.inr (Or.inr ⟨rfl,h4⟩)
  · exact Or.inr (Or.inl ⟨rfl,h3⟩)
  · exact Or.inl rfl

theorem annexBStartLen_append {p : List Byte} (t : List Byte) {off : ℕ} (h : off+4≤p.length) :
    annexBStartLen (p ++ t) off=annexBStartLen p off := by
  unfold annexBStartLen
  rw [getD_append t (by omega),getD_append t (by omega),getD_append t (by omega),
    getD_append t (by omega),length_append]
  have h4 : off+4≤p.length+t.length ↔ off+4≤p.length := by omega
  have h3 : off+3≤p.length+t.length ↔ off+3≤p.length := by omega
  have h0 : p.length+t.length≤off ↔ p.length≤off := by omega
  simp only [h4,h3,h0]

theorem annexBStartLen_append_of_ne {p : List Byte} (t : List Byte) {off : ℕ}
    (h : annexBStartLen p off≠0) : annexBStartLen (p ++ t) off=annexBStartLen p off := by
  rcases annexBStartLen_cases p off with h0 | ⟨h3,hlen,hb0,hb1,hb2⟩ | ⟨h4,hlen,_⟩
  · exact absurd h0 h
  · have hne : ¬(1#8=0#8) := by decide
    rw [h3]
    unfold annexBStartLen
    rw [getD_append t (by omega),getD_append t (by omega),getD_append t (by omega),hb0,hb1,hb2,
      length_append,if_neg (by omega),if_neg (fun hc => hne hc.2.2.2.1),
      if_pos ⟨by omega,rfl,rfl,rfl⟩]
  · exact annexBStartLen_append t hlen

/-- No start code begins inside another one, except the three-byte code in a
four-byte one. -/
theorem annexBStartLen_inside {p : List Byte} {off k : ℕ} (hpos : 0<k)
    (hk : k<annexBStartLen p off) :
    annexBStartLen p (off+k)=0 ∨ (k=1 ∧ annexBStartLen p off=4) := by
  have hne : (0#8 : Byte)≠1#8 := by decide
  by_cases hzero : annexBStartLen p (off+k)=0
  · exact Or.inl hzero
  · have hfirst : p.getD (off+k) 0#8=0#8 ∧ p.getD (off+k+1) 0#8=0#8 := by
      rcases annexBStartLen_cases p (off+k) with h0 | ⟨_,_,hb0,hb1,_⟩ | ⟨_,_,hb0,hb1,_⟩
      · exact absurd h0 hzero
      · exact ⟨hb0,hb1⟩
      · exact ⟨hb0,hb1⟩
    obtain ⟨hb0,hb1⟩ := hfirst
    rcases annexBStartLen_cases p off with h0 | ⟨h3,_,_,_,hc2⟩ | ⟨h4,_,_,_,_,hc3⟩
    · omega
    · rcases (show k=1 ∨ k=2 by omega) with rfl | rfl
      · exact absurd (hb1.symm.trans hc2) hne
      · exact absurd (hb0.symm.trans hc2) hne
    · rcases (show k=1 ∨ k=2 ∨ k=3 by omega) with rfl | rfl | rfl
      · exact Or.inr ⟨rfl,h4⟩
      · exact absurd (hb1.symm.trans hc3) hne
      · exact absurd (hb0.symm.trans hc3) hne

variable {s : List Byte}

theorem startCodes_split {j : ℕ} (hle : j ≤ s.length)
    (hprev : 0<j → annexBStartLen s (j-1)≠4) :
    startCodes s = (List.range j).filter (isStartCode s) ++ (startCodes (s.drop j)).map (j + ·) := by
  have hsplit : range s.length = range j ++ (range (s.drop j).length).map (j + ·) := by
    rw [length_drop,← range_add,Nat.add_sub_cancel' hle]
  rw [startCodes,hsplit,filter_append,filter_map,startCodes]
  refine congrArg₂ (· ++ ·) rfl (congrArg (map (j + ·)) (filter_congr fun k _ => ?_))
  have hinside : (0<j+k ∧ annexBStartLen s (j+k-1)=4) ↔
      (0<k ∧ annexBStartLen (s.drop j) (k-1)=4) := by
    cases k with
    | zero =>
      constructor
      · intro h
        exact absurd h.2 (hprev h.1)
      · omega
    | succ k =>
      rw [annexBStartLen_drop,show j+(k+1)-1=j+k by omega,Nat.add_sub_cancel]
      omega
  simp only [Function.comp_apply,isStartCode,annexBStartLen_drop,hinside]

theorem startCodes_skip {i : ℕ} (hle : i ≤ s.length) (hnone : ∀ k < i, annexBStartLen s k=0) :
    startCodes s=(startCodes (s.drop i)).map (i + ·) := by
  have hprev : 0 < i → annexBStartLen s (i-1)≠4 := by
    intro hpos h4
    have hzero := hnone (i-1) (by omega)
    omega
  have hhead : (range i).filter (isStartCode s)=[] := by
    rw [filter_eq_nil_iff]
    intro k hk hstart
    exact (of_decide_eq_true hstart).1 (hnone k (mem_range.mp hk))
  rw [startCodes_split hle hprev,hhead,nil_append]

theorem startCodes_begin {j : ℕ} (hstart : annexBStartLen s 0≠0)
    (hfrom : annexBStartLen s 0≤j) (hle : j ≤ s.length)
    (hnone : ∀ k, annexBStartLen s 0≤k → k<j → annexBStartLen s k=0) :
    startCodes s=0::(startCodes (s.drop j)).map (j + ·) := by
  have hsize : 3≤annexBStartLen s 0 := by
    have hcode := annexBStartLen_cases s 0
    omega
  have hlater : ∀ k, 0<k → k<j → annexBStartLen s k=0 ∨
      (k=1 ∧ annexBStartLen s 0=4) := by
    intro k hpos hk
    by_cases hin : k<annexBStartLen s 0
    · have hinside := annexBStartLen_inside (p := s) hpos (by rwa [Nat.zero_add] : k<annexBStartLen s (0+0))
      rw [Nat.zero_add] at hinside
      exact hinside
    · exact Or.inl (hnone k (by omega) hk)
  have hprev : 0<j → annexBStartLen s (j-1)≠4 := by
    have hzero := hlater (j-1) (by omega) (by omega)
    omega
  obtain ⟨m,rfl⟩ : ∃ m, j=m+1 := ⟨j-1,by omega⟩
  have hhead : (range (m+1)).filter (isStartCode s)=[0] := by
    have hfirst : isStartCode s 0=true := decide_eq_true ⟨hstart,fun h => absurd h.1 (by omega)⟩
    have hrest : ((range m).map Nat.succ).filter (isStartCode s)=[] := by
      rw [filter_eq_nil_iff]
      intro k hk hstartk
      obtain ⟨l,hl,rfl⟩ := mem_map.mp hk
      have hl := mem_range.mp hl
      obtain ⟨hne,hnot⟩ := of_decide_eq_true hstartk
      rcases hlater (l+1) (by omega) (by omega) with h0 | ⟨h1,h4⟩
      · exact hne h0
      · refine hnot ⟨by omega,?_⟩
        rw [Nat.succ_sub_one,show l=0 by omega]
        exact h4
    rw [range_succ_eq_map,filter_cons_of_pos hfirst,hrest]
  rw [startCodes_split hle hprev,hhead,singleton_append]

theorem unitBetween_shift (s : List Byte) (i p q : ℕ) :
    unitBetween s (i+p) (i+q)=unitBetween (s.drop i) p q := by
  have hslice : (s.take (i+q)).drop (i+p)=((s.drop i).take q).drop p := by
    rw [take_drop,drop_drop]
  have hroom : i+p+annexBStartLen s (i+p) < i+q ↔ p+annexBStartLen s (i+p)<q := by
    omega
  simp only [unitBetween,annexBStartLen_drop,hslice,hroom]

theorem unitsFrom_shift {i : ℕ} (hle : i ≤ s.length) (codes : List ℕ) :
    unitsFrom s (codes.map (i + ·))=unitsFrom (s.drop i) codes := by
  induction codes with
  | nil => rfl
  | cons p codes ih =>
    cases codes with
    | nil =>
      have hlast := unitBetween_shift s i p (s.drop i).length
      rw [length_drop,Nat.add_sub_cancel' hle] at hlast
      rw [map_cons,map_nil,unitsFrom,unitsFrom,hlast,length_drop]
    | cons q codes =>
      rw [map_cons] at ih
      rw [map_cons,map_cons,unitsFrom,unitsFrom,unitBetween_shift,ih]

theorem nalUnits_skip {i : ℕ} (hle : i ≤ s.length)
    (hnone : ∀ k < i, annexBStartLen s k=0) : nalUnits s=nalUnits (s.drop i) := by
  rw [nalUnits,startCodes_skip hle hnone,unitsFrom_shift hle,nalUnits]

theorem nalUnits_next {j : ℕ} (hstart : annexBStartLen s 0≠0)
    (hfrom : annexBStartLen s 0≤j) (hnext : annexBStartLen s j≠0)
    (hnone : ∀ k, annexBStartLen s 0≤k → k<j → annexBStartLen s k=0) :
    nalUnits s = unitBetween s 0 j ++ nalUnits (s.drop j) := by
  have hle : j ≤ s.length := by
    have hcode := annexBStartLen_cases s j
    omega
  have htail : annexBStartLen (s.drop j) 0≠0 := by
    rw [annexBStartLen_drop]
    exact hnext
  have hcodes : ∃ codes, startCodes (s.drop j)=0::codes := by
    have hfits : annexBStartLen (s.drop j) 0≤(s.drop j).length := by
      have hcode := annexBStartLen_cases (s.drop j) 0
      omega
    exact ⟨_,startCodes_begin htail (Nat.le_refl _) hfits fun k h1 h2 => absurd h1 (by omega)⟩
  obtain ⟨codes,hcodes⟩ := hcodes
  rw [nalUnits,startCodes_begin hstart hfrom hle hnone,nalUnits,← unitsFrom_shift hle,hcodes,
    map_cons,Nat.add_zero,unitsFrom]

theorem nalUnits_last (hstart : annexBStartLen s 0≠0)
    (hnone : ∀ k, annexBStartLen s 0≤k → annexBStartLen s k=0) :
    nalUnits s=unitBetween s 0 s.length := by
  have hfrom : annexBStartLen s 0 ≤ s.length := by
    have hcode := annexBStartLen_cases s 0
    omega
  rw [nalUnits,startCodes_begin hstart hfrom (Nat.le_refl _) fun k h1 _ => hnone k h1,drop_length]
  rfl

theorem nalUnits_short (h : s.length≤3) : nalUnits s=[] := by
  by_cases hstart : annexBStartLen s 0=0
  · have hnone : ∀ k<s.length, annexBStartLen s k=0 := by
      intro k _
      cases k with
      | zero => exact hstart
      | succ k =>
        have hcode := annexBStartLen_cases s (k+1)
        omega
    rw [nalUnits_skip (Nat.le_refl _) hnone,drop_length]
    rfl
  · have hsize := annexBStartLen_cases s 0
    have hnone : ∀ k, annexBStartLen s 0≤k → annexBStartLen s k=0 := by
      intro k hk
      have hcode := annexBStartLen_cases s k
      omega
    rw [nalUnits_last hstart hnone,unitBetween,if_neg (by omega)]

end Misterplex.AnnexB
