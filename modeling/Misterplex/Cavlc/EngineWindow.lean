import Misterplex.Cavlc.HostLevels
import Misterplex.Cavlc.ResidualEngine

/-!
# What the engine sees of the stream

The 32-bit window shows the bits left, padded with zeros. A parallel search over
it reads the symbol of its code, and an attempt at a level reads the level
unless the prefix is too long.
-/

namespace Misterplex.Cavlc.Engine

open BitString PrefixCode Host List

/-- The bits from a position to the end. -/
def window (i : Inputs) (pos : ℕ) : List Bool := (List.range' pos (i.bitLen-pos)).map i.bitAt

theorem length_window (i : Inputs) (pos : ℕ) : (window i pos).length=i.bitLen-pos := by
  rw [window,length_map,length_range']

theorem drop_window (i : Inputs) (pos n : ℕ) : (window i pos).drop n=window i (pos+n) := by
  rw [window,← map_drop,drop_range',Nat.mul_one,window,Nat.sub_sub]

variable {i : Inputs}

theorem window_eq_nil {pos : ℕ} (h : i.bitLen≤pos) : window i pos=[] :=
  eq_nil_of_length_eq_zero (by rw [length_window]; omega)

theorem peek32_eq (i : Inputs) {pos : ℕ} (h : pos≤512) :
    peek32 i pos=(window i pos ++ List.replicate 32 false).take 32 := by
  refine ext_getElem ?_ ?_
  · rw [peek32,length_map,length_range,length_take,length_append,
      length_replicate]
    omega
  · intro k h1 _
    rw [peek32,length_map,length_range] at h1
    have hwrap : (pos+k)%1024=pos+k := Nat.mod_eq_of_lt (by omega)
    simp only [peek32,getElem_map,getElem_range,getElem_take,hwrap]
    by_cases hin : pos+k < i.bitLen
    · rw [if_pos hin,getElem_append_left (by rw [length_window]; omega)]
      simp only [window,getElem_map,getElem_range',Nat.one_mul]
    · rw [if_neg hin,getElem_append_right (by rw [length_window]; omega),
        getElem_replicate]

theorem take_peek32 {pos n : ℕ} (h : pos≤512) (hn : n≤32)
    (hlen : pos+n ≤ i.bitLen) : (peek32 i pos).take n=(window i pos).take n := by
  rw [peek32_eq i h,take_take,Nat.min_eq_left hn,take_append_of_le_length]
  rw [length_window]
  omega

theorem findSome?_congr {α β : Type} {l : List α} {f g : α → Option β}
    (h : ∀ x∈l, f x=g x) : l.findSome? f=l.findSome? g := by
  induction l with
  | nil => rfl
  | cons x l ih =>
    rw [findSome?_cons,findSome?_cons,h x mem_cons_self,
      ih fun y hy => h y (mem_cons_of_mem x hy)]

theorem search_eq {pos tries maxLen : ℕ} (look : ℕ → ℕ → Option ℕ) (h : pos≤512)
    (hmax : maxLen≤tries) (htries : tries≤32) : shortestFrom look maxLen (window i pos) =
      (search i pos tries maxLen look).map fun r => (r.1,window i (pos+r.2)) := by
  have hsplit : range' 1 tries = range' 1 maxLen ++ range' (1+maxLen) (tries-maxLen) := by
    rw [range'_append_1,Nat.add_sub_cancel' hmax]
  have htail : ∀ f : ℕ → Option (ℕ × ℕ), (range' (1+maxLen) (tries-maxLen)).findSome?
      (fun len => if len ≤ maxLen ∧ (pos+len)%1024 ≤ i.bitLen then f len else none)=none := by
    intro f
    refine findSome?_eq_none_iff.mpr fun len hlen => if_neg ?_
    have hbound := mem_range'_1.mp hlen
    omega
  rw [search,hsplit,findSome?_append,htail,Option.or_none,map_findSome?,shortestFrom]
  refine findSome?_congr fun len hlen => ?_
  obtain ⟨hpos,hle⟩ := mem_range'_1.mp hlen
  have hwrap : (pos+len)%1024=pos+len := Nat.mod_eq_of_lt (by omega)
  rw [Function.comp_apply,hwrap,length_window]
  by_cases hin : pos+len ≤ i.bitLen
  · rw [if_pos (by omega),if_pos ⟨by omega,hin⟩,takeMsb,take_peek32 h (by omega) hin,
      Option.map_map,drop_window]
    rfl
  · rw [if_neg (by omega),if_neg (fun hc => hin hc.2)]
    rfl

theorem search_within {pos tries maxLen found len : ℕ} {look : ℕ → ℕ → Option ℕ}
    (h : pos≤512) (htries : tries≤32) (hs : search i pos tries maxLen look=some (found,len)) :
    pos+len ≤ i.bitLen := by
  obtain ⟨n,hn,hhit⟩ := exists_of_findSome?_eq_some hs
  have hbound := mem_range'_1.mp hn
  by_cases hc : n ≤ maxLen ∧ (pos+n)%1024 ≤ i.bitLen
  · rw [if_pos hc] at hhit
    obtain ⟨_,_,heq⟩ := Option.map_eq_some_iff.mp hhit
    obtain ⟨_,rfl⟩ := Prod.mk.inj heq
    have hwrap : (pos+n)%1024=pos+n := Nat.mod_eq_of_lt (by omega)
    rw [hwrap] at hc
    exact hc.2
  · rw [if_neg hc] at hhit
    cases hhit

theorem search_symbol {pos tries maxLen : ℕ} {look : ℕ → ℕ → Option ℕ} {T : Code}
    (h : pos≤512) (hmax : maxLen≤tries) (htries : tries≤32)
    (hlook : ∀ bits, shortestFrom look maxLen bits=symbol T bits) :
    match readSymbol T (window i pos) with
    | .ok (v,rest) => ∃ len, search i pos tries maxLen look=some (v,len) ∧
        pos+len ≤ i.bitLen ∧ rest=window i (pos+len)
    | .error e => e = .invalid ∧ search i pos tries maxLen look=none := by
  have heq := search_eq (i := i) look h hmax htries
  rw [hlook] at heq
  rw [readSymbol]
  cases hs : symbol T (window i pos) with
  | none =>
    rw [hs] at heq
    exact ⟨rfl,Option.map_eq_none_iff.mp heq.symm⟩
  | some p =>
    rw [hs] at heq
    obtain ⟨r,hr,rfl⟩ := Option.map_eq_some_iff.mp heq.symm
    exact ⟨r.2,hr,search_within h htries hr,rfl⟩

theorem takeWhile_zeros (n : ℕ) (tail : List Bool) :
    (List.replicate n false ++ true::tail).takeWhile (fun b => !b)=List.replicate n false := by
  induction n with
  | zero => rfl
  | succ n ih =>
    rw [replicate_succ,cons_append,takeWhile_cons_of_pos rfl,ih]

theorem clz32_found {pos n : ℕ} {rest : List Bool} (h : pos≤512) (hn : n<32)
    (hz : zerosBeforeOne (window i pos)=some (n,rest)) : clz32 (peek32 i pos)=n := by
  obtain ⟨m,hm⟩ : ∃ m, 32-n=m+1 := ⟨31-n,by omega⟩
  have hwin : peek32 i pos =
      replicate n false ++ true::(rest ++ replicate 32 false).take m := by
    rw [peek32_eq i h,zerosBeforeOne_eq_some hz,append_assoc,cons_append,
      take_append,length_replicate,hm,take_succ_cons,take_replicate,
      Nat.min_eq_right (by omega)]
  rw [clz32,hwin,takeWhile_zeros,length_replicate]

theorem clz32_missing {pos : ℕ} (h : pos≤512)
    (hz : zerosBeforeOne (window i pos)=none) : clz32 (peek32 i pos)=32 := by
  have hwin : peek32 i pos=replicate 32 false := by
    rw [peek32_eq i h,zerosBeforeOne_eq_none hz,replicate_append_replicate,
      take_replicate,Nat.min_eq_left (Nat.le_add_left _ _)]
  rw [clz32,hwin]
  rfl

theorem takeMsb_suffix {pos n s : ℕ} (h : pos≤512) (hfit : n+s≤32)
    (hlen : pos+n+s ≤ i.bitLen) :
    takeMsb (shiftLeft (peek32 i pos) n) s=value ((window i (pos+n)).take s) := by
  have htake : (peek32 i pos).take (n+s)=(window i pos).take (n+s) :=
    take_peek32 h hfit (by omega)
  have hdrop := congrArg (drop n) htake
  rw [drop_take,drop_take,drop_window,Nat.add_sub_cancel_left] at hdrop
  rw [takeMsb,shiftLeft,take_append_of_le_length,hdrop]
  rw [length_drop,peek32,length_map,length_range]
  omega

variable {first : Bool}

theorem suffixSize_eq {pfx sl : ℕ} (hp : pfx≤15) (hsl : SuffixRange first sl) :
    suffixSize first pfx sl=levelSuffixSize pfx sl := by
  unfold SuffixRange at hsl
  unfold suffixSize levelSuffixSize
  split_ifs at hsl ⊢ <;> omega

theorem levelCodeOf_eq {pfx sl : ℕ} (sfx t1 : ℕ) (hp : pfx≤15) (hsl : SuffixRange first sl) :
    levelCodeOf first pfx sl sfx t1=levelCode pfx sfx sl (first && decide (t1<3)) := by
  have hoffset : escapeOffset pfx=0 := if_neg (by omega)
  unfold levelCodeOf levelCode
  rw [hoffset,Nat.min_eq_right hp]
  simp only [Nat.shiftLeft_eq]
  cases first with
  | true =>
    have hsl1 : sl=0 ∨ sl=1 := by
      have hle : sl≤1 := hsl
      omega
    simp only [if_true,Bool.true_and,decide_eq_true_eq]
    rcases hsl1 with rfl | rfl
    · split_ifs <;> omega
    · simp only [ne_eq,one_ne_zero,not_false_eq_true,if_true,and_false,if_false]
      split_ifs <;> omega
  | false =>
    obtain ⟨hlow,_⟩ : 1 ≤ sl ∧ sl≤6 := hsl
    simp only [Bool.false_eq_true,if_false,Bool.false_and,Nat.add_zero]
    by_cases h15 : pfx<15
    · rw [if_pos h15,if_neg (by omega),Nat.add_zero]
    · obtain rfl : pfx=15 := by omega
      rw [if_neg h15,if_neg (by omega),Nat.add_zero]

theorem levelFromCode_eq {code : ℕ} (h : code<8192) : levelFromCode code=levelOfCode code := by
  have hwrap : ∀ v : ℤ, -32768≤v → v<32768 → signed16 v=v := by
    intro v hlow hhigh
    rw [signed16,Int.bmod_def]
    split_ifs <;> omega
  unfold levelFromCode levelOfCode
  rw [hwrap _ (by omega) (by omega)]
  by_cases hodd : code%2=1
  · rw [if_pos hodd,if_neg (by omega),hwrap] <;> omega
  · rw [if_neg hodd,if_pos (by omega)]
    omega

theorem suffixAfter_eq_host {pfx sl : ℕ} {lvl : ℤ} (hsl : sl≤6)
    (hl : lvl.natAbs≤8192) : suffixAfter first pfx sl lvl=hostSuffixAfter first pfx sl lvl := by
  unfold suffixAfter hostSuffixAfter
  cases first with
  | true =>
    have hiff : 6<unsigned16 (lvl+3) ↔ 6<uint32 (lvl+3) := by
      unfold unsigned16 uint32
      omega
    simp only [if_true,suffixNextFirst,suffixAfterFirst,hiff]
  | false =>
    have hlim : sl<6 → kLim.getD sl 0=suffixLimit sl ∧ suffixLimit sl≤48 := by
      intro h6
      rcases (show sl=0 ∨ sl=1 ∨ sl=2 ∨ sl=3 ∨ sl=4 ∨ sl=5 by omega) with
        rfl | rfl | rfl | rfl | rfl | rfl <;> decide
    simp only [Bool.false_eq_true,if_false,suffixNext,suffixAfterNext]
    by_cases h6 : sl<6
    · obtain ⟨hk,h48⟩ := hlim h6
      have hiff : 2*suffixLimit sl<unsigned16 (suffixLimit sl+lvl) ↔
          2*suffixLimit sl<uint32 (suffixLimit sl+lvl) := by
        unfold unsigned16 uint32
        omega
      rw [if_pos h6,hk]
      simp only [h6,true_and,hiff]
      split_ifs <;> rfl
    · rw [if_neg h6,if_neg (fun h => h6 h.1)]

theorem takeLevel_eq {idx pfx sl sfx : ℕ} (t1 cons : ℕ) (hp : pfx≤15)
    (hsl : SuffixRange first sl) (hidx : idx<16) (hsfx : sfx<2^levelSuffixSize pfx sl) :
    takeLevel first idx pfx sl t1 cons sfx = .taken
      ⟨pfx,sfx,levelOfCode (levelCode pfx sfx sl (first && decide (t1<3))),
        nextSuffixLength sl (levelOfCode (levelCode pfx sfx sl (first && decide (t1<3)))),cons⟩ := by
  have h6 : sl≤6 := by
    unfold SuffixRange at hsl
    split_ifs at hsl <;> omega
  have hcode := levelCode_lt (first && decide (t1<3)) h6 hsfx
  have hnext := hostSuffixAfter_eq (first && decide (t1<3)) hp hsl hsfx
  have habs := natAbs_levelOfCode (levelCode pfx sfx sl (first && decide (t1<3)))
  simp only [takeLevel,levelCodeOf_eq sfx t1 hp hsl,levelFromCode_eq hcode]
  rw [if_neg (by omega),suffixAfter_eq_host h6 (by omega),hnext]

/-- An attempt at a level inside the stream reads the level: it is taken where
one is read, and given up where the bits are no level. -/
theorem tryLevel_reads {idx sl pos : ℕ} (t1 : ℕ) (hlen : i.bitLen≤512)
    (hpos : pos < i.bitLen) (hidx : idx<16) (hsl : SuffixRange first sl) :
    match readLevel sl (first && decide (t1<3)) (window i pos) with
    | .ok (l,rest) => ∃ t, tryLevel i first idx sl t1 pos = .taken t ∧ t.level=l ∧
        t.sl=nextSuffixLength sl l ∧ pos+t.cons ≤ i.bitLen ∧ rest=window i (pos+t.cons)
    | .error .invalid => tryLevel i first idx sl t1 pos = .short
    | .error .longPrefix => True := by
  have h512 : pos≤512 := by omega
  have havail : (i.bitLen+1024-pos)%1024=i.bitLen-pos := by omega
  have h6 : sl≤6 := by
    unfold SuffixRange at hsl
    split_ifs at hsl <;> omega
  rw [readLevel,readLevelPrefix]
  cases hz : zerosBeforeOne (window i pos) with
  | none =>
    have hclz := clz32_missing h512 hz
    dsimp only [bind,Except.bind]
    rw [tryLevel,hclz,if_pos (Or.inl le_rfl)]
  | some p =>
    obtain ⟨pfx,rest⟩ := p
    by_cases hlong : 15<pfx
    · dsimp only
      rw [if_pos hlong]
      trivial
    · have hbits := congrArg length (zerosBeforeOne_eq_some hz)
      rw [length_window,length_append,length_replicate,length_cons] at hbits
      have hrest : rest=window i (pos+(pfx+1)) := by
        rw [← drop_window,zerosBeforeOne_eq_some hz,drop_append,length_replicate,
          drop_eq_nil_of_le (by rw [length_replicate]; omega),Nat.add_sub_cancel_left]
        rfl
      have hclz := clz32_found h512 (show pfx<32 by omega) hz
      have hsize := suffixSize_eq (show pfx≤15 by omega) hsl
      have hsmall := levelSuffixSize_le pfx h6
      have htry : tryLevel i first idx sl t1 pos =
          if i.bitLen < (pos+(pfx+1+levelSuffixSize pfx sl))%1024 then .short
          else if 32 < pfx+1+levelSuffixSize pfx sl then .long pfx (levelSuffixSize pfx sl)
          else takeLevel first idx pfx sl t1 (pfx+1+levelSuffixSize pfx sl)
            (takeMsb (shiftLeft (peek32 i pos) (pfx+1)) (levelSuffixSize pfx sl)) := by
        simp only [tryLevel,hclz,hsize,havail]
        rw [if_neg (show ¬(32≤pfx ∨ i.bitLen-pos≤pfx ∨ 31<pfx) by omega)]
      rw [htry]
      dsimp only
      rw [if_neg hlong]
      dsimp only [bind,Except.bind]
      unfold readField
      generalize hs : levelSuffixSize pfx sl=s at hsmall
      rw [Nat.mod_eq_of_lt (show pos+(pfx+1+s)<1024 by omega)]
      by_cases hfit : s≤rest.length
      · have hin : pos+(pfx+1+s) ≤ i.bitLen := by omega
        have hval := takeMsb_suffix (i := i) h512 (show pfx+1+s≤32 by omega) (by omega)
        have hsuf : value (rest.take s)<2^levelSuffixSize pfx sl := by
          have hlt := value_lt (rest.take s)
          rw [length_take_of_le hfit] at hlt
          rw [hs]
          exact hlt
        have htake := takeLevel_eq t1 (pfx+1+s) (show pfx≤15 by omega) hsl hidx hsuf
        rw [if_pos hfit,if_neg (show ¬i.bitLen<pos+(pfx+1+s) by omega),
          if_neg (show ¬32<pfx+1+s by omega),hval,← hrest,htake]
        refine ⟨_,rfl,rfl,rfl,hin,?_⟩
        rw [hrest,drop_window,Nat.add_assoc pos]
      · rw [if_neg hfit,if_pos (show i.bitLen<pos+(pfx+1+s) by omega)]

end Misterplex.Cavlc.Engine
