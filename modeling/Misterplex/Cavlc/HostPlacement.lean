import Misterplex.Cavlc.HostBlock

/-!
# What the host places for any bits

The syntax elements that any bits spell are collected with the readers of the
host, level codes before they become 16-bit levels. They fix what is placed:
the zeros and the coefficients fill one scan from its start, and its last entry
is the highest level. That scan fits in every block but one: a block of fifteen
coefficients reads its zeros with the code for sixteen.
-/

namespace Misterplex.Cavlc.Host

open List

variable {br : BitReader}

theorem matchFrom_index {lens bits : List ℕ} {n i : ℕ} (fuel len code : ℕ)
    (h : (matchFrom lens bits n fuel len code br).1=some i) : i<n ∧ 0<lens.getD i 0 := by
  induction fuel generalizing len code br with
  | zero => cases h
  | succ fuel ih =>
    by_cases hok : br.ok=true
    · rw [matchFrom,if_pos hok] at h
      dsimp only at h
      cases hl : lookup lens bits n (len+1) (2*code+(br.u 1).1) with
      | some j =>
        rw [hl] at h
        obtain rfl : j=i := Option.some.inj h
        have hmem := mem_range.mp (mem_of_find?_eq_some hl)
        have hhit := find?_some hl
        rw [Bool.and_eq_true,beq_iff_eq,beq_iff_eq] at hhit
        exact ⟨hmem,by omega⟩
      | none =>
        rw [hl] at h
        exact ih _ _ h
    · rw [matchFrom,if_neg hok] at h
      cases h

theorem healthy_of_matchMap {lens bits : List ℕ} {n i : ℕ}
    (h : (matchMap br lens bits n).1=some i) : br.ok=true := by
  cases hok : br.ok with
  | true => rfl
  | false =>
    rw [matchMap,matchFrom,if_neg (by simp [hok])] at h
    cases h

theorem chromaTz_room :
    ∀ tc<4, 0<tc → ∀ i<4, 0<(chromaTzLen.getD (tc-1) []).getD i 0 → tc+i≤4 := by
  decide

/-- Places that the total_zeros code of a block size knows. -/
def places (maxNumCoeff : ℕ) : ℕ := if maxNumCoeff = 4 then 4 else 16

theorem totalZeros_room {maxNumCoeff tc zeros : ℕ} (htc : 0<tc)
    (hle : tc ≤ maxNumCoeff) (hmax : maxNumCoeff≤16)
    (h : (totalZeros br maxNumCoeff tc).1=some zeros) : tc+zeros≤places maxNumCoeff := by
  unfold totalZeros at h
  by_cases hlt : tc < maxNumCoeff
  · rw [if_pos hlt] at h
    by_cases h4 : maxNumCoeff=4
    · rw [if_pos h4] at h
      obtain ⟨hi,hlen⟩ := matchFrom_index 16 0 0 h
      rw [places,if_pos h4]
      exact chromaTz_room tc (by omega) htc zeros hi hlen
    · rw [if_neg h4] at h
      obtain ⟨hi,_⟩ := matchFrom_index 16 0 0 h
      rw [places,if_neg h4]
      omega
  · rw [if_neg hlt] at h
    obtain rfl : 0=zeros := Option.some.inj h
    unfold places
    split_ifs <;> omega

theorem healthy_of_totalZeros {maxNumCoeff tc zeros : ℕ} (hlt : tc < maxNumCoeff)
    (h : (totalZeros br maxNumCoeff tc).1=some zeros) : br.ok=true := by
  unfold totalZeros at h
  rw [if_pos hlt] at h
  by_cases h4 : maxNumCoeff=4
  · rw [if_pos h4] at h
    exact healthy_of_matchMap h
  · rw [if_neg h4] at h
    exact healthy_of_matchMap h

theorem runsFrom_shape {n zerosLeft left : ℕ} {runs : List ℕ}
    (h : (runsFrom n zerosLeft br).1=some (runs,left)) :
    runs.length=n ∧ runs.sum+left=zerosLeft := by
  induction n generalizing zerosLeft runs br with
  | zero =>
    obtain ⟨rfl,rfl⟩ := Prod.mk.inj (Option.some.inj h)
    exact ⟨rfl,by rw [sum_nil,Nat.zero_add]⟩
  | succ n ih =>
    by_cases hpos : 0<zerosLeft
    · rw [runsFrom,if_pos hpos] at h
      generalize runBefore br zerosLeft=answer at h
      obtain ⟨found,br'⟩ := answer
      cases found with
      | none => cases h
      | some r =>
        dsimp only at h
        by_cases hlt : zerosLeft<r
        · rw [if_pos hlt] at h
          cases h
        · rw [if_neg hlt] at h
          obtain ⟨p,hp,heq⟩ := Option.map_eq_some_iff.mp h
          obtain ⟨rfl,rfl⟩ := Prod.mk.inj heq
          obtain ⟨hlen,hsum⟩ := ih hp
          rw [length_cons,sum_cons,hlen]
          exact ⟨rfl,by omega⟩
    · rw [runsFrom,if_neg hpos] at h
      obtain ⟨p,hp,heq⟩ := Option.map_eq_some_iff.mp h
      obtain ⟨rfl,rfl⟩ := Prod.mk.inj heq
      obtain ⟨hlen,hsum⟩ := ih hp
      rw [length_cons,sum_cons,hlen]
      exact ⟨rfl,by omega⟩

theorem length_signs (n : ℕ) (br : BitReader) : (signs n br).1.length=n := by
  induction n generalizing br with
  | zero => rfl
  | succ n ih => rw [signs,length_cons,ih]

theorem one_of_mem_signs {n : ℕ} {l : ℤ} (h : l∈(signs n br).1) : l=1 ∨ l = -1 := by
  induction n generalizing br with
  | zero => cases h
  | succ n ih =>
    cases mem_cons.mp h with
    | inl hl =>
      rw [hl]
      split_ifs
      · exact Or.inr rfl
      · exact Or.inl rfl
    | inr hl => exact ih hl

/-- The level codes behind the trailing ones, before they become levels. -/
def levelCodes (t1 : ℕ) : ℕ → Bool → ℕ → BitReader → Option (List ℕ) × BitReader
  | 0,_,_,br => (some [],br)
  | n+1,first,suffixLength,br =>
    if br.ok then
      match levelPrefix 32 0 br with
      | (none,br) => (none,br)
      | (some zeros,br) =>
        let r := hostLevelCode first zeros suffixLength t1 br
        let rest := levelCodes t1 n false
          (hostSuffixAfter first zeros suffixLength (toSigned r.1)) r.2
        (rest.1.map fun codes => r.1::codes,rest.2)
    else (some [],br)

theorem levelsFrom_codes (t1 n : ℕ) (first : Bool) (suffixLength : ℕ) (level : List ℤ)
    (br : BitReader) :
    levelsAnswer (levelsFrom t1 n first suffixLength level br) =
      ((levelCodes t1 n first suffixLength br).1.map fun codes => level ++ codes.map toSigned,
        (levelCodes t1 n first suffixLength br).2) := by
  induction n generalizing first suffixLength level br with
  | zero =>
    rw [levelsFrom,levelCodes,levelsAnswer,Option.map_some,map_nil,append_nil]
    rfl
  | succ n ih =>
    by_cases hok : br.ok=true
    · rw [levelsFrom_succ t1 n first suffixLength level hok,levelCodes,if_pos hok]
      generalize levelPrefix 32 0 br=answer
      obtain ⟨found,br'⟩ := answer
      cases found with
      | none => rfl
      | some zeros =>
        rw [ih,Option.map_map]
        refine congrArg₂ Prod.mk (congrArg (fun f => Option.map f _) ?_) rfl
        funext codes
        simp only [Function.comp_apply,map_cons,append_assoc,singleton_append]
    · rw [levelsFrom,if_neg hok,levelCodes,if_neg hok,levelsAnswer,Option.map_some,
        map_nil,append_nil]
      rfl

theorem length_levelCodes {t1 n suffixLength : ℕ} {first : Bool} {codes : List ℕ}
    (h : (levelCodes t1 n first suffixLength br).1=some codes) : codes.length≤n ∧
      ((levelCodes t1 n first suffixLength br).2.ok=true → codes.length=n) := by
  induction n generalizing first suffixLength br codes with
  | zero =>
    obtain rfl : []=codes := Option.some.inj h
    exact ⟨le_rfl,fun _ => rfl⟩
  | succ n ih =>
    by_cases hok : br.ok=true
    · rw [levelCodes,if_pos hok] at h ⊢
      generalize levelPrefix 32 0 br=answer at h ⊢
      obtain ⟨found,br'⟩ := answer
      cases found with
      | none => cases h
      | some zeros =>
        obtain ⟨later,hlater,rfl⟩ := Option.map_eq_some_iff.mp h
        obtain ⟨hle,hall⟩ := ih hlater
        exact ⟨Nat.succ_le_succ hle,fun hend => congrArg (· + 1) (hall hend)⟩
    · rw [levelCodes,if_neg hok] at h ⊢
      obtain rfl : []=codes := Option.some.inj h
      exact ⟨Nat.zero_le _,fun hend => absurd hend hok⟩

/-- A level code whose level is a multiple of 65536. -/
def Vanishes (code : ℕ) : Prop := code%131072=131070 ∨ code%131072=131071

instance (code : ℕ) : Decidable (Vanishes code) := inferInstanceAs (Decidable (_ ∨ _))

theorem toSigned_eq_zero_iff (code : ℕ) : toSigned code=0 ↔ Vanishes code := by
  unfold toSigned Vanishes int16
  rw [← Int.dvd_iff_bmod_eq_zero]
  split_ifs <;> omega

/-- The syntax elements that the bits of a nonempty block spell. -/
structure Elements where
  /-- Nonzero coefficients, and trailing ones of them. -/
  (totalCoeff trailingOnes : ℕ)
  ones : List ℤ
  codes : List ℕ
  zeros : ℕ
  /-- Runs of zeros, from the highest frequency down. -/
  runs : List ℕ
  /-- All of them end before the data does. -/
  whole : Bool
  deriving DecidableEq, Repr

/-- The elements behind the levels. -/
def zeroElements (tc t1 maxNumCoeff : ℕ) (ones : List ℤ) (codes : List ℕ) (br : BitReader) :
    Option Elements :=
  match totalZeros br maxNumCoeff tc with
  | (none,_) => none
  | (some zeros,br) =>
    match runsFrom (tc-1) zeros br with
    | (none,_) => none
    | (some (runs,left),br) => some ⟨tc,t1,ones,codes,zeros,runs ++ [left],br.ok⟩

/-- The elements behind coeff_token. -/
def coefficientElements (tc t1 maxNumCoeff : ℕ) (br : BitReader) : Option Elements :=
  match levelCodes t1 (tc-t1) true (firstSuffixLength tc t1) (signs t1 br).2 with
  | (none,_) => none
  | (some codes,br') => zeroElements tc t1 maxNumCoeff (signs t1 br).1 codes br'

/-- The elements of a block, absent when it is empty or its bits stop being one. -/
def elements (br : BitReader) (nC : ℤ) (maxNumCoeff : ℕ) : Option Elements :=
  if br.ok then
    match token br nC with
    | (none,_) => none
    | (some idx,br) =>
      if (nC = -1 ∧ 4 < idx/4) ∨ maxNumCoeff < idx/4 ∨ idx/4 < idx%4 ∨ idx/4 = 0 then none
      else coefficientElements (idx/4) (idx%4) maxNumCoeff br
  else none

namespace Elements

/-- The levels, zero where the data ends before a level code. -/
def levels (e : Elements) : List ℤ :=
  e.ones ++ e.codes.map toSigned ++
    List.replicate (e.totalCoeff-e.trailingOnes-e.codes.length) 0

/-- The block that is placed. -/
def block (e : Elements) : Block := ⟨e.trailingOnes,e.levels,e.runs⟩

/-- What holds of the elements of any bits. -/
structure Sound (e : Elements) (maxNumCoeff : ℕ) : Prop where
  some_coeff : 0<e.totalCoeff
  /-- The coefficients fit their block. -/
  coeff_le : e.totalCoeff ≤ maxNumCoeff
  ones_le : e.trailingOnes≤e.totalCoeff
  /-- There are as many of them as announced. -/
  length_ones : e.ones.length=e.trailingOnes
  one_of_ones : ∀ l∈e.ones, l=1 ∨ l = -1
  /-- There are at most as many level codes as other coefficients. -/
  codes_le : e.codes.length≤e.totalCoeff-e.trailingOnes
  /-- There are as many when the zeros were read or no data was missing. -/
  length_codes : e.totalCoeff < maxNumCoeff ∨ e.whole=true →
    e.codes.length=e.totalCoeff-e.trailingOnes
  length_runs : e.runs.length=e.totalCoeff
  sum_runs : e.runs.sum=e.zeros
  /-- Coefficients and zeros fit the places of their code. -/
  room : e.totalCoeff+e.zeros≤places maxNumCoeff
  full : e.totalCoeff=maxNumCoeff → e.zeros=0

variable {e : Elements} {maxNumCoeff : ℕ}

theorem Sound.length_levels (h : e.Sound maxNumCoeff) : e.levels.length=e.totalCoeff := by
  have hones := h.length_ones
  have hle := h.ones_le
  have hcodes := h.codes_le
  rw [levels,length_append,length_append,length_map,length_replicate]
  omega

theorem levels_getD (e : Elements) (i : ℕ) :
    e.levels.getD i 0=(e.ones ++ e.codes.map toSigned).getD i 0 := by
  rw [levels,getD_eq_getElem?_getD,getD_eq_getElem?_getD,getElem?_append]
  by_cases hi : i<(e.ones ++ e.codes.map toSigned).length
  · rw [if_pos hi]
  · rw [if_neg hi,getElem?_replicate,getElem?_eq_none (by omega)]
    split_ifs <;> rfl

/-- Placing the levels of a block that was written down fills its coefficients. -/
theorem Sound.place (h : e.Sound maxNumCoeff) :
    placeFrom ((List.range e.totalCoeff).reverse.map fun i =>
      ((e.ones ++ e.codes.map toSigned).getD i 0,e.runs.getD i 0)) 0 (pad16 []) =
        (true,e.block.coeff) := by
  have hroom := h.room
  have hfit : e.totalCoeff+e.zeros≤16 := by
    unfold places at hroom
    split_ifs at hroom <;> omega
  have hplaced := place_block (b := e.block) (h.length_runs.trans h.length_levels.symm) (by
    refine le_trans (le_of_eq ?_) hfit
    exact congrArg₂ (· + ·) h.length_levels h.sum_runs)
  rw [show e.block.totalCoeff=e.totalCoeff from h.length_levels] at hplaced
  rw [← hplaced]
  refine congrArg (fun ps => placeFrom ps 0 (pad16 [])) (map_congr_left fun i _ => ?_)
  exact congrArg₂ Prod.mk (levels_getD e i).symm rfl

end Elements

/-- What a result has to do with the elements of its bits. -/
def Yields (found : Option Elements) (maxNumCoeff : ℕ) (r : ResidualResult) : Prop :=
  (found=none ∧ r.ok=false ∧ r.coeff=pad16 []) ∨
    ∃ e, found=some e ∧ e.Sound maxNumCoeff ∧ r.ok=e.whole ∧ r.totalCoeff=e.totalCoeff ∧
      r.trailingOnes=e.trailingOnes ∧ r.coeff=e.block.coeff

theorem afterLevels_yields {tc t1 maxNumCoeff : ℕ} {ones : List ℤ} {codes : List ℕ} (htc : 0<tc)
    (hle : tc ≤ maxNumCoeff) (hmax : maxNumCoeff≤16)
    (ht1 : t1≤tc) (hlen : ones.length=t1) (hone : ∀ l∈ones, l=1 ∨ l = -1)
    (hcodes : codes.length≤tc-t1) (hall : br.ok=true → codes.length=tc-t1)
    (level : List ℤ) : Yields (zeroElements tc t1 maxNumCoeff ones codes br) maxNumCoeff
      (afterLevels ⟨false,tc,t1,level,pad16 []⟩ maxNumCoeff (ones ++ codes.map toSigned)
        br).1 := by
  have hroom : ∀ zeros, (totalZeros br maxNumCoeff tc).1=some zeros →
      tc+zeros≤places maxNumCoeff := fun _ => totalZeros_room htc hle hmax
  have hhealthy : ∀ zeros, tc < maxNumCoeff → (totalZeros br maxNumCoeff tc).1=some zeros →
      br.ok=true := fun _ => healthy_of_totalZeros
  have hfull : ∀ zeros, (totalZeros br maxNumCoeff tc).1=some zeros → tc=maxNumCoeff →
      zeros=0 := by
    intro zeros h heq
    rw [totalZeros,if_neg (by omega)] at h
    exact (Option.some.inj h).symm
  have hdead : br.ok=false → (totalZeros br maxNumCoeff tc).2.ok=false :=
    fun hbad => totalZeros_failed hbad maxNumCoeff tc
  unfold zeroElements afterLevels
  generalize totalZeros br maxNumCoeff tc=answer at hroom hhealthy hfull hdead
  obtain ⟨found,br'⟩ := answer
  cases found with
  | none => exact Or.inl ⟨rfl,rfl,rfl⟩
  | some zeros =>
    have hshape : ∀ runs left, (runsFrom (tc-1) zeros br').1=some (runs,left) →
        runs.length=tc-1 ∧ runs.sum+left=zeros := fun _ _ => runsFrom_shape
    have hend : br'.ok=false → (runsFrom (tc-1) zeros br').2.ok=false :=
      runsFrom_failed (tc-1)
    dsimp only [afterZeros]
    generalize runsFrom (tc-1) zeros br'=answer at hshape hend
    obtain ⟨found,br''⟩ := answer
    cases found with
    | none => exact Or.inl ⟨rfl,rfl,rfl⟩
    | some p =>
      obtain ⟨runs,left⟩ := p
      obtain ⟨hruns,hsum⟩ := hshape runs left rfl
      have hsound : Elements.Sound
          ⟨tc,t1,ones,codes,zeros,runs ++ [left],br''.ok⟩ maxNumCoeff := by
        refine ⟨htc,hle,ht1,hlen,hone,hcodes,?_,?_,?_,hroom zeros rfl,hfull zeros rfl⟩
        · rintro (hlt | hwhole)
          · exact hall (hhealthy zeros hlt rfl)
          · refine hall ?_
            cases hok : br.ok with
            | true => rfl
            | false => exact absurd (hwhole.symm.trans (hend (hdead hok))) Bool.noConfusion
        · rw [length_append,length_singleton,hruns]
          exact Nat.sub_add_cancel htc
        · rw [sum_append,sum_singleton]
          exact hsum
      have hplace := hsound.place
      refine Or.inr ⟨_,rfl,hsound,?_,rfl,rfl,?_⟩
      · exact congrArg (fun r => r.1 && br''.ok) hplace
      · exact congrArg Prod.snd hplace

theorem coefficients_yields {tc t1 maxNumCoeff : ℕ} (br : BitReader) (htc : 0<tc)
    (hle : tc ≤ maxNumCoeff) (hmax : maxNumCoeff≤16) (ht1 : t1≤tc) :
    Yields (coefficientElements tc t1 maxNumCoeff br) maxNumCoeff
      (coefficients ⟨false,tc,t1,pad16 [],pad16 []⟩ br maxNumCoeff).1 := by
  have hanswer := levelsFrom_codes t1 (tc-t1) true (firstSuffixLength tc t1) (signs t1 br).1
    (signs t1 br).2
  have hlength : ∀ codes,
      (levelCodes t1 (tc-t1) true (firstSuffixLength tc t1) (signs t1 br).2).1=some codes →
        codes.length≤tc-t1 ∧
          ((levelCodes t1 (tc-t1) true (firstSuffixLength tc t1) (signs t1 br).2).2.ok=true →
            codes.length=tc-t1) := fun _ => length_levelCodes
  rw [coefficients_eq]
  unfold coefficientElements
  generalize levelCodes t1 (tc-t1) true (firstSuffixLength tc t1) (signs t1 br).2=found at *
  generalize levelsFrom t1 (tc-t1) true (firstSuffixLength tc t1) (signs t1 br).1
    (signs t1 br).2=answer at *
  obtain ⟨found,br'⟩ := found
  obtain ⟨more,level,br''⟩ := answer
  cases found with
  | none =>
    cases more with
    | false => exact Or.inl ⟨rfl,rfl,rfl⟩
    | true => cases congrArg Prod.fst hanswer
  | some codes =>
    cases more with
    | false => cases congrArg Prod.fst hanswer
    | true =>
      obtain rfl : level = (signs t1 br).1 ++ codes.map toSigned :=
        Option.some.inj (congrArg Prod.fst hanswer)
      obtain rfl : br''=br' := congrArg Prod.snd hanswer
      obtain ⟨hcodes,hall⟩ := hlength codes rfl
      exact afterLevels_yields htc hle hmax ht1 (length_signs t1 br)
        (fun l => one_of_mem_signs) hcodes hall _

theorem residualBlock_yields (br : BitReader) (nC : ℤ) {maxNumCoeff : ℕ} (hpos : 0 < maxNumCoeff)
    (hmax : maxNumCoeff≤16) :
    (elements br nC maxNumCoeff=none ∧
        (residualBlock br nC maxNumCoeff).1=⟨true,0,0,pad16 [],pad16 []⟩) ∨
      Yields (elements br nC maxNumCoeff) maxNumCoeff (residualBlock br nC maxNumCoeff).1 := by
  unfold residualBlock elements
  cases hok : br.ok with
  | false => exact Or.inr (Or.inl ⟨rfl,rfl,rfl⟩)
  | true =>
    have hentry : ¬(!true || decide (maxNumCoeff=0) || decide (16 < maxNumCoeff))=true := by
      simp only [Bool.not_true,Bool.false_or,Bool.or_eq_true,decide_eq_true_eq]
      omega
    rw [if_neg hentry,if_pos rfl]
    generalize token br nC=answer
    obtain ⟨found,br'⟩ := answer
    cases found with
    | none => exact Or.inr (Or.inl ⟨rfl,rfl,rfl⟩)
    | some idx =>
      dsimp only
      by_cases hbad : (nC = -1 ∧ 4 < idx/4) ∨ maxNumCoeff < idx/4 ∨ idx/4 < idx%4 ∨
          3 < idx%4
      · rw [if_pos hbad,if_pos (by omega)]
        exact Or.inr (Or.inl ⟨rfl,rfl,rfl⟩)
      · rw [if_neg hbad]
        by_cases hzero : idx/4=0
        · have hones : idx%4=0 := by omega
          rw [if_pos hzero,if_pos (by omega),hzero,hones]
          exact Or.inl ⟨rfl,rfl⟩
        · rw [if_neg hzero,if_neg (by omega)]
          exact Or.inr (coefficients_yields br' (by omega) (by omega) hmax (by omega))

theorem scan_cons (t1 : ℕ) (l : ℤ) (levels : List ℤ) (r : ℕ) (runs : List ℕ) :
    Block.scan ⟨t1,l::levels,r::runs⟩ =
      Block.scan ⟨t1,levels,runs⟩ ++ List.replicate r 0 ++ [l] := by
  simp only [Block.scan,zip_cons_cons,reverse_cons,flatMap_append,
    flatMap_cons,flatMap_nil,append_nil,append_assoc]

theorem length_scan (t1 : ℕ) {levels : List ℤ} {runs : List ℕ}
    (h : runs.length=levels.length) :
    (Block.scan ⟨t1,levels,runs⟩).length=levels.length+runs.sum := by
  induction levels generalizing runs with
  | nil =>
    rw [eq_nil_of_length_eq_zero h]
    rfl
  | cons l levels ih =>
    cases runs with
    | nil => cases h
    | cons r runs =>
      have hrest := ih (Nat.succ.inj h)
      rw [scan_cons,length_append,length_append,length_replicate,hrest,
        length_singleton,length_cons,sum_cons]
      omega

theorem filter_scan (t1 : ℕ) {levels : List ℤ} {runs : List ℕ}
    (h : runs.length=levels.length) :
    (Block.scan ⟨t1,levels,runs⟩).filter (· ≠ 0)=(levels.filter (· ≠ 0)).reverse := by
  induction levels generalizing runs with
  | nil =>
    rfl
  | cons l levels ih =>
    cases runs with
    | nil => cases h
    | cons r runs =>
      have hzeros : (replicate r (0 : ℤ)).filter (· ≠ 0)=[] := by
        rw [filter_replicate,if_neg (by decide)]
      rw [scan_cons,filter_append,filter_append,hzeros,append_nil,
        ih (Nat.succ.inj h)]
      by_cases hl : l=0
      · have hdrop : ¬decide (l≠0)=true := by rw [hl]; decide
        rw [filter_cons,filter_cons,if_neg hdrop,if_neg hdrop,filter_nil,
          append_nil]
      · have hkeep : decide (l≠0)=true := decide_eq_true hl
        rw [filter_cons,filter_cons,if_pos hkeep,if_pos hkeep,filter_nil,
          reverse_cons]

theorem coeff_getD_of_le {b : Block} {i : ℕ} (h : b.scan.length ≤ i) : b.coeff.getD i 0=0 := by
  rw [Block.coeff,getD_append_right _ _ _ _ h,getD_eq_getElem?_getD,
    getElem?_replicate]
  split_ifs <;> rfl

theorem filter_coeff (b : Block) : b.coeff.filter (· ≠ 0)=b.scan.filter (· ≠ 0) := by
  rw [Block.coeff,filter_append,filter_replicate,if_neg (by decide),append_nil]

/-- What a result promises its caller. -/
structure Placed (maxNumCoeff : ℕ) (r : ResidualResult) : Prop where
  /-- As many entries are nonzero as the block has coefficients. -/
  count : r.ok=true → (r.coeff.filter (· ≠ 0)).length=r.totalCoeff
  ones_le : r.ok=true → r.trailingOnes≤r.totalCoeff
  /-- The highest nonzero entries are that many ones and minus ones. -/
  ones : r.ok=true →
    ∀ l∈(r.coeff.filter (· ≠ 0)).reverse.take r.trailingOnes, l=1 ∨ l = -1
  /-- No nonzero entry stands at or beyond the size of the block. -/
  within : ∀ i, maxNumCoeff ≤ i → r.coeff.getD i 0=0

theorem placed_of_empty (maxNumCoeff : ℕ) {r : ResidualResult} (hcoeff : r.coeff=pad16 [])
    (hok : r.ok=true → r.totalCoeff=0 ∧ r.trailingOnes=0) : Placed maxNumCoeff r := by
  have hfilter : (pad16 []).filter (· ≠ 0)=[] := by decide
  refine ⟨?_,?_,?_,?_⟩
  · intro h
    rw [hcoeff,hfilter,(hok h).1]
    rfl
  · intro h
    rw [(hok h).1,(hok h).2]
  · intro h l hl
    rw [hcoeff,hfilter,reverse_nil,take_nil] at hl
    cases hl
  · intro i _
    rw [hcoeff,pad16,nil_append,getD_eq_getElem?_getD,getElem?_replicate]
    split_ifs <;> rfl

namespace Elements

variable {e : Elements} {maxNumCoeff : ℕ}

/-- The highest level is one that sixteen bits turn into zero. -/
def TopVanishes (e : Elements) : Prop := e.trailingOnes=0 ∧ ∀ c∈e.codes.head?, Vanishes c

/-- The zeros of fifteen coefficients are at most fifteen with them, and no
level of a block that ends with the data is lost. -/
structure Harmless (e : Elements) (maxNumCoeff : ℕ) : Prop where
  /-- Coefficients and zeros of a block of fifteen do not fill sixteen places,
  unless the highest level is lost. -/
  fits : maxNumCoeff=15 → e.totalCoeff+e.zeros=16 → e.TopVanishes
  /-- No level code of a whole block vanishes. -/
  kept : e.whole=true → ∀ c∈e.codes, ¬Vanishes c

theorem Sound.length_scan (h : e.Sound maxNumCoeff) :
    e.block.scan.length=e.totalCoeff+e.zeros := by
  have hlen := Host.length_scan e.trailingOnes (h.length_runs.trans h.length_levels.symm)
  rw [h.length_levels,h.sum_runs] at hlen
  exact hlen

theorem Sound.filter_coeff (h : e.Sound maxNumCoeff) :
    e.block.coeff.filter (· ≠ 0)=(e.levels.filter (· ≠ 0)).reverse := by
  rw [Host.filter_coeff]
  exact filter_scan e.trailingOnes (h.length_runs.trans h.length_levels.symm)

theorem Sound.levels_whole (h : e.Sound maxNumCoeff)
    (hall : e.totalCoeff < maxNumCoeff ∨ e.whole=true) :
    e.levels = e.ones ++ e.codes.map toSigned := by
  rw [levels,h.length_codes hall,Nat.sub_self,replicate_zero,append_nil]

theorem Sound.count_iff (h : e.Sound maxNumCoeff) (hwhole : e.whole=true) :
    (e.block.coeff.filter (· ≠ 0)).length=e.totalCoeff ↔ ∀ c∈e.codes, ¬Vanishes c := by
  rw [h.filter_coeff,length_reverse,← h.length_levels,length_filter_eq_length_iff,
    h.levels_whole (Or.inr hwhole)]
  constructor
  · intro hall c hc hzero
    have hl := hall (toSigned c) (mem_append_right _ (mem_map_of_mem hc))
    exact of_decide_eq_true hl ((toSigned_eq_zero_iff c).mpr hzero)
  · intro hkept l hl
    refine decide_eq_true ?_
    cases mem_append.mp hl with
    | inl hone =>
      rcases h.one_of_ones l hone with rfl | rfl <;> decide
    | inr hcode =>
      obtain ⟨c,hc,rfl⟩ := mem_map.mp hcode
      exact fun hzero => hkept c hc ((toSigned_eq_zero_iff c).mp hzero)

theorem Sound.ones_at_end (h : e.Sound maxNumCoeff) :
    (e.block.coeff.filter (· ≠ 0)).reverse.take e.trailingOnes=e.ones := by
  have hkeep : e.ones.filter (· ≠ 0)=e.ones := by
    refine filter_eq_self.mpr ?_
    intro l hl
    rcases h.one_of_ones l hl with rfl | rfl <;> decide
  rw [h.filter_coeff,reverse_reverse,levels,append_assoc,filter_append,hkeep,
    ← h.length_ones,take_left]

/-- A full block has its first level in the last place. -/
theorem Sound.top (h : e.Sound maxNumCoeff) (hfull : e.totalCoeff+e.zeros=16) :
    e.block.coeff.getD 15 0=e.levels.headD 0 := by
  have hlen := h.length_scan
  have hlevels := h.length_levels
  have hruns := h.length_runs
  have hpos := h.some_coeff
  unfold block at hlen ⊢
  generalize e.levels=levels at hlen hlevels ⊢
  generalize e.runs=runs at hlen hruns ⊢
  cases levels with
  | nil =>
    rw [length_nil] at hlevels
    omega
  | cons l levels =>
    cases runs with
    | nil =>
      rw [length_nil] at hruns
      omega
    | cons r runs =>
      rw [scan_cons,length_append,length_singleton] at hlen
      have hfront : (Block.scan ⟨e.trailingOnes,levels,runs⟩ ++ replicate r 0).length =
          15 := by omega
      rw [Block.coeff,scan_cons,append_assoc _ [l],
        getD_append_right _ _ _ _ (le_of_eq hfront),hfront]
      rfl

theorem Sound.top_eq_zero_iff (h : e.Sound maxNumCoeff) (hlt : e.totalCoeff < maxNumCoeff) :
    e.levels.headD 0=0 ↔ e.TopVanishes := by
  have hlevels := h.levels_whole (Or.inl hlt)
  have hones := h.length_ones
  have hcodes := h.length_codes (Or.inl hlt)
  have hpos := h.some_coeff
  have hone := h.one_of_ones
  rw [hlevels]
  unfold TopVanishes
  generalize e.ones=ones at hones hone ⊢
  generalize e.codes=codes at hcodes ⊢
  cases ones with
  | nil =>
    rw [length_nil] at hones
    cases codes with
    | nil =>
      rw [length_nil] at hcodes
      omega
    | cons c codes =>
      rw [nil_append,map_cons,headD_cons,toSigned_eq_zero_iff,head?_cons,
        ← hones]
      simp only [Option.mem_some_iff,forall_eq',true_and]
  | cons l ones =>
    rw [length_cons] at hones
    constructor
    · rintro rfl
      rcases hone 0 mem_cons_self with h0 | h0 <;> exact absurd h0 (by decide)
    · intro hzero
      exact absurd hzero.1 (by omega)

/-- Nothing nonzero is placed beyond a block unless a block of fifteen fills
sixteen places. -/
theorem Sound.within_iff (h : e.Sound maxNumCoeff)
    (hsize : maxNumCoeff=4 ∨ maxNumCoeff=15 ∨ maxNumCoeff=16) :
    (∀ i, maxNumCoeff ≤ i → e.block.coeff.getD i 0=0) ↔
      (maxNumCoeff=15 → e.totalCoeff+e.zeros=16 → e.TopVanishes) := by
  have hroom := h.room
  have hscan := h.length_scan
  have hfull := h.full
  have hle := h.coeff_le
  constructor
  · rintro hwithin rfl h16
    have hlt : e.totalCoeff<15 := by omega
    exact (h.top_eq_zero_iff hlt).mp ((h.top h16).symm.trans (hwithin 15 le_rfl))
  · intro hfits i hi
    by_cases hout : e.block.scan.length ≤ i
    · exact coeff_getD_of_le hout
    · have h15 : maxNumCoeff=15 ∧ e.totalCoeff+e.zeros=16 ∧ i=15 := by
        unfold places at hroom
        split_ifs at hroom <;> omega
      obtain ⟨rfl,h16,rfl⟩ := h15
      rw [h.top h16]
      exact (h.top_eq_zero_iff (by omega)).mpr (hfits rfl h16)

end Elements

/-- The host keeps its promise on a block exactly when the elements its bits
spell are harmless. -/
theorem residualBlock_placed_iff (br : BitReader) (nC : ℤ) (maxNumCoeff : ℕ)
    (hsize : (maxNumCoeff=4 ∧ nC = -1) ∨ maxNumCoeff=15 ∨ maxNumCoeff=16) :
    Placed maxNumCoeff (residualBlock br nC maxNumCoeff).1 ↔
      ∀ e∈elements br nC maxNumCoeff, e.Harmless maxNumCoeff := by
  have hyields := residualBlock_yields br nC (show 0 < maxNumCoeff by omega)
    (show maxNumCoeff≤16 by omega)
  generalize (residualBlock br nC maxNumCoeff).1=r at hyields ⊢
  generalize elements br nC maxNumCoeff=found at hyields ⊢
  rcases hyields with ⟨rfl,rfl⟩ | ⟨rfl,hdown,hcoeff⟩ | ⟨e,rfl,h,hok,htc,ht1,hcoeff⟩
  · exact ⟨fun _ e he => (nomatch he),fun _ => placed_of_empty _ rfl fun _ => ⟨rfl,rfl⟩⟩
  · have hfail : r.ok=true → r.totalCoeff=0 ∧ r.trailingOnes=0 :=
      fun hup => absurd (hdown.symm.trans hup) Bool.noConfusion
    exact ⟨fun _ e he => (nomatch he),fun _ => placed_of_empty _ hcoeff hfail⟩
  · have hwithin := h.within_iff (show maxNumCoeff=4 ∨ maxNumCoeff=15 ∨ maxNumCoeff=16 by
      omega)
    constructor
    · intro hplaced e' he
      obtain rfl : e=e' := Option.some.inj he
      refine ⟨hwithin.mp (hcoeff ▸ hplaced.within),fun hwhole => (h.count_iff hwhole).mp ?_⟩
      have hcount := hplaced.count (hok.trans hwhole)
      rw [hcoeff,htc] at hcount
      exact hcount
    · intro hharmless
      obtain ⟨hfits,hkept⟩ := hharmless e rfl
      refine ⟨fun hup => ?_,fun _ => ?_,fun _ => ?_,?_⟩
      · rw [hcoeff,htc]
        exact (h.count_iff (hok.symm.trans hup)).mpr (hkept (hok.symm.trans hup))
      · rw [htc,ht1]
        exact h.ones_le
      · rw [hcoeff,ht1,h.ones_at_end]
        exact h.one_of_ones
      · rw [hcoeff]
        exact hwithin.mpr hfits

/-- One trailing one with no zeros before it is placed within fifteen places. -/
theorem residualBlock_placed_one : Placed 15 (residualBlock ⟨[80#8],0,true⟩ 0 15).1 := by
  refine (residualBlock_placed_iff ⟨[80#8],0,true⟩ 0 15 (Or.inr (Or.inl rfl))).mpr ?_
  intro e he
  obtain rfl := Option.some.inj he
  exact ⟨fun _ h => absurd h (by decide),fun _ c hc => by cases hc⟩

/-- One trailing one behind fifteen zeros is accepted in a block of fifteen and
placed at its sixteenth entry. -/
theorem not_residualBlock_placed : ¬Placed 15 (residualBlock ⟨[64#8,16#8],0,true⟩ 0 15).1 := by
  have hcoeff : (residualBlock ⟨[64#8,16#8],0,true⟩ 0 15).1.coeff.getD 15 0=1 := by
    decide
  intro hplaced
  exact absurd (hcoeff.symm.trans (hplaced.within 15 le_rfl)) (by decide)

/-- A level of 65536 is accepted as a coefficient that is zero. -/
example : (residualBlock ⟨[20#8,0#8,0#8,32#8,253#8,232#8],0,true⟩ 0 16).1 =
    ⟨true,1,0,pad16 [0],pad16 []⟩ := by
  decide

end Misterplex.Cavlc.Host
