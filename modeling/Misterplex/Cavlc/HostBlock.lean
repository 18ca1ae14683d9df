import Misterplex.Cavlc.HostLevels
import Misterplex.Cavlc.HostRuns

/-!
# The host decoder reads blocks

The parts come together: the host's result for a block is the block that is
read, and its flag is down exactly where nothing is read. With the round trip
of the syntax, the host recovers every block from its code.
-/

namespace Misterplex.Cavlc.Host

open BitString PrefixCode List

theorem ok_of_bind_ok {α β : Type} {m : Except Stop α} {f : α → Except Stop β} {b : β}
    (h : (m >>= f) = .ok b) : ∃ a, m = .ok a ∧ f a = .ok b := by
  cases m with
  | error e => cases h
  | ok a => exact ⟨a,rfl,h⟩

variable {left rest : List Bool}

theorem length_readSigns {n : ℕ} {ones : List ℤ}
    (h : readSigns n left = .ok (ones,rest)) : ones.length=n := by
  induction n generalizing left rest ones with
  | zero =>
    obtain ⟨rfl,rfl⟩ := Prod.mk.inj (Except.ok.inj h)
    rfl
  | succ n ih =>
    obtain ⟨p,_,h⟩ := ok_of_bind_ok h
    obtain ⟨q,hq,h⟩ := ok_of_bind_ok h
    obtain ⟨rfl,rfl⟩ := Prod.mk.inj (Except.ok.inj h)
    rw [length_cons,ih hq]

variable {levels : List ℤ}

theorem length_readLevels {n suffixLength : ℕ} {lift : Bool}
    (h : readLevels n suffixLength lift left = .ok (levels,rest)) :
    levels.length=n := by
  induction n generalizing suffixLength lift left rest levels with
  | zero =>
    obtain ⟨rfl,rfl⟩ := Prod.mk.inj (Except.ok.inj h)
    rfl
  | succ n ih =>
    obtain ⟨p,_,h⟩ := ok_of_bind_ok h
    obtain ⟨q,hq,h⟩ := ok_of_bind_ok h
    obtain ⟨rfl,rfl⟩ := Prod.mk.inj (Except.ok.inj h)
    rw [length_cons,ih hq]

theorem readRuns_shape {n zerosLeft : ℕ} {runs : List ℕ}
    (h : readRuns (n+1) zerosLeft left = .ok (runs,rest)) :
    runs.length=n+1 ∧ runs.sum=zerosLeft := by
  induction n generalizing zerosLeft left rest runs with
  | zero =>
    obtain ⟨rfl,rfl⟩ := Prod.mk.inj (Except.ok.inj h)
    exact ⟨rfl,sum_singleton⟩
  | succ n ih =>
    by_cases hpos : 0<zerosLeft
    · rw [readRuns_succ hpos] at h
      obtain ⟨p,hp,h⟩ := ok_of_bind_ok h
      obtain ⟨q,hq,h⟩ := ok_of_bind_ok h
      obtain ⟨rfl,rfl⟩ := Prod.mk.inj (Except.ok.inj h)
      obtain ⟨hlen,hsum⟩ := ih hq
      have hle : p.1≤zerosLeft := by
        obtain ⟨r,_,hr⟩ := ok_of_bind_ok hp
        by_cases hlt : zerosLeft<r.1
        · rw [if_pos hlt] at hr
          cases hr
        · rw [if_neg hlt] at hr
          rw [← Except.ok.inj hr]
          omega
      rw [length_cons,sum_cons,hlen,hsum]
      exact ⟨rfl,by omega⟩
    · rw [readRuns,if_pos (by omega)] at h
      obtain ⟨q,hq,h⟩ := ok_of_bind_ok h
      obtain ⟨rfl,rfl⟩ := Prod.mk.inj (Except.ok.inj h)
      obtain ⟨hlen,hsum⟩ := ih hq
      rw [length_cons,sum_cons,hlen,hsum]
      exact ⟨rfl,by omega⟩

theorem length_totalZerosRows :
    ∀ tc<16, 0<tc → (totalZerosRows.getD (tc-1) []).length=17-tc := by
  decide

theorem length_totalZerosChromaRows :
    ∀ tc<4, 0<tc → (totalZerosChromaRows.getD (tc-1) []).length=5-tc := by
  decide

theorem readTotalZeros_le {maxNumCoeff tc zeros : ℕ} (htc : 0<tc)
    (hle : tc ≤ maxNumCoeff) (hmax : maxNumCoeff≤16)
    (h : readTotalZeros maxNumCoeff tc left = .ok (zeros,rest)) : tc+zeros≤16 := by
  unfold readTotalZeros at h
  by_cases hlt : tc < maxNumCoeff
  · rw [if_pos hlt,readSymbol] at h
    have hbound : (totalZerosCode maxNumCoeff tc).length≤17-tc := by
      rw [totalZerosCode,codewords,length_map,totalZerosLiterals]
      by_cases h4 : maxNumCoeff=4
      · rw [if_pos h4,length_totalZerosChromaRows tc (by omega) htc]
        omega
      · rw [if_neg h4,length_totalZerosRows tc (by omega) htc]
    cases hs : symbol (totalZerosCode maxNumCoeff tc) left with
    | none =>
      rw [hs] at h
      cases h
    | some p =>
      rw [hs] at h
      obtain ⟨w,hw,_,_⟩ :=
        (symbol_eq_some_iff (prefixFree_totalZerosCode maxNumCoeff tc) left p.1 p.2).mp hs
      have hi := (List.getElem?_eq_some_iff.mp hw).1
      have hp : p.1=zeros := congrArg Prod.fst (Except.ok.inj h)
      omega
  · rw [if_neg hlt] at h
    obtain ⟨rfl,rfl⟩ := Prod.mk.inj (Except.ok.inj h)
    omega

/-- The host's result for a block. -/
def resultOf (b : Block) : ResidualResult :=
  ⟨true,b.totalCoeff,b.trailingOnes,pad16 b.levels,b.coeff⟩

/-- The answer of the block decoder: its result when the flag is up. -/
def blockAnswer (r : ResidualResult × BitReader) : Option ResidualResult × BitReader :=
  (if r.1.ok then some r.1 else none,r.2)

theorem blockAnswer_none {r : ResidualResult × BitReader} (h : r.1.ok=false) :
    (blockAnswer r).1=none := by
  rw [blockAnswer,h]
  rfl

variable (out : ResidualResult)

/-- The part of `coefficients` behind total_zeros. -/
def afterZeros (level : List ℤ) (zeros : ℕ) (br : BitReader) : ResidualResult × BitReader :=
  match runsFrom (out.totalCoeff-1) zeros br with
  | (none,br) => (out,br)
  | (some (runs,left),br) =>
    let run := runs ++ [left]
    let pairs := (List.range out.totalCoeff).reverse.map fun i => (level.getD i 0,run.getD i 0)
    let placed := placeFrom pairs 0 out.coeff
    ({ out with coeff := placed.2, ok := placed.1 && br.ok },br)

/-- The part of `coefficients` behind the levels. -/
def afterLevels (maxNumCoeff : ℕ) (level : List ℤ) (br : BitReader) : ResidualResult × BitReader :=
  match totalZeros br maxNumCoeff out.totalCoeff with
  | (none,br) => (out,br)
  | (some zeros,br) => afterZeros out level zeros br

theorem coefficients_eq (br : BitReader) (maxNumCoeff : ℕ) : coefficients out br maxNumCoeff =
      match levelsFrom out.trailingOnes (out.totalCoeff-out.trailingOnes) true
        (firstSuffixLength out.totalCoeff out.trailingOnes) (signs out.trailingOnes br).1
        (signs out.trailingOnes br).2 with
      | (false,level,br) => ({ out with level := pad16 level },br)
      | (true,level,br) => afterLevels { out with level := pad16 level } maxNumCoeff level br := by
  rfl

variable {br : BitReader}

theorem afterZeros_failed {out : ResidualResult} (hout : out.ok=false) (level : List ℤ)
    {zeros : ℕ} (h : (runsFrom (out.totalCoeff-1) zeros br).1=none ∨
      (runsFrom (out.totalCoeff-1) zeros br).2.ok=false) :
    (afterZeros out level zeros br).1.ok=false := by
  unfold afterZeros
  generalize runsFrom (out.totalCoeff-1) zeros br=answer at h
  obtain ⟨found,br'⟩ := answer
  cases found with
  | none => exact hout
  | some p =>
    have hbad : br'.ok=false := by
      cases h with
      | inl h => cases h
      | inr h => exact h
    simp only [hbad,Bool.and_false]

variable {maxNumCoeff : ℕ}

theorem afterLevels_failed {out : ResidualResult} (hout : out.ok=false) (level : List ℤ)
    (h : (totalZeros br maxNumCoeff out.totalCoeff).1=none ∨
      (totalZeros br maxNumCoeff out.totalCoeff).2.ok=false) :
    (afterLevels out maxNumCoeff level br).1.ok=false := by
  unfold afterLevels
  generalize totalZeros br maxNumCoeff out.totalCoeff=answer at h
  obtain ⟨found,br'⟩ := answer
  cases found with
  | none => exact hout
  | some zeros =>
    have hbad : br'.ok=false := by
      cases h with
      | inl h => cases h
      | inr h => exact h
    exact afterZeros_failed hout level (Or.inr (runsFrom_failed _ hbad))

theorem pairs_eq {runs : List ℕ} {tc : ℕ} (hl : levels.length=tc) (hr : runs.length=tc) :
    ((List.range tc).reverse.map fun i => (levels.getD i 0,runs.getD i 0)) =
      (levels.zip runs).reverse := by
  rw [map_reverse]
  congr 1
  refine ext_getElem ?_ ?_
  · rw [length_map,length_range,length_zip,hl,hr,Nat.min_self]
  · intro i h1 h2
    rw [length_map,length_range] at h1
    simp only [getElem_map,getElem_range,getElem_zip]
    rw [getD_eq_getElem _ _ (by omega),getD_eq_getElem _ _ (by omega)]

theorem sum_pairs {runs : List ℕ} (h : runs.length=levels.length) :
    ((levels.zip runs).reverse.map fun p => p.2+1).sum=levels.length+runs.sum := by
  rw [map_reverse,sum_reverse]
  induction levels generalizing runs with
  | nil =>
    rw [eq_nil_of_length_eq_zero h]
    rfl
  | cons l levels ih =>
    cases runs with
    | nil => cases h
    | cons r runs =>
      have hrest := ih (Nat.succ.inj h)
      simp only [zip_cons_cons,map_cons,sum_cons,length_cons]
      omega

theorem place_block {b : Block} (hpair : b.runs.length=b.levels.length)
    (hroom : b.levels.length+b.runs.sum≤16) :
    placeFrom ((List.range b.totalCoeff).reverse.map fun i =>
      (b.levels.getD i 0,b.runs.getD i 0)) 0 (pad16 [])=(true,b.coeff) := by
  rw [pairs_eq (show b.levels.length=b.totalCoeff from rfl)
    (show b.runs.length=b.totalCoeff from hpair)]
  have hsum := sum_pairs hpair
  have hplace := placeFrom_pad16 (b.levels.zip b.runs).reverse [] (by
    rw [hsum,length_nil]
    omega)
  rw [length_nil] at hplace
  rw [hplace,nil_append]
  rfl

variable {d : List Emulation.Byte}

theorem afterZeros_agrees {n t1 zeros : ℕ} (hlen : levels.length=n+1)
    (hroom : n+1+zeros≤16) {left : List Bool} (hat : BitReader.At d left br) : Agrees d
      (readRuns (n+1) zeros left >>= fun r => pure (resultOf ⟨t1,levels,r.1⟩,r.2))
      (blockAnswer (afterZeros ⟨false,n+1,t1,pad16 levels,pad16 []⟩ levels zeros br)) := by
  refine (runsFrom_agrees n (fun _ => by omega) hat).bind ?_ ?_
  · intro runs rest hruns hfound hrest
    obtain ⟨hrlen,hrsum⟩ := readRuns_shape hruns
    obtain ⟨p,hp,happ⟩ := Option.map_eq_some_iff.mp hfound
    have hlast : BitReader.At d rest (runsFrom n zeros br).2 := hrest
    have hok := hlast.healthy
    have hplace := place_block (b := ⟨t1,levels,runs⟩) (by rw [hrlen,hlen])
      (by rw [hlen,hrsum]; exact hroom)
    rw [show Block.totalCoeff ⟨t1,levels,runs⟩=n+1 from hlen] at hplace
    unfold afterZeros
    rw [Nat.add_sub_cancel]
    generalize runsFrom n zeros br=answer at hp hok hlast
    obtain ⟨found,br'⟩ := answer
    subst hp
    dsimp only
    rw [happ,hplace,hok]
    refine ⟨?_,hlast⟩
    simp only [blockAnswer,Bool.and_self,if_true,resultOf]
    rw [show Block.totalCoeff ⟨t1,levels,runs⟩=n+1 from hlen]
  · intro hfail
    refine Or.inl (blockAnswer_none (afterZeros_failed rfl levels ?_))
    cases hfail with
    | inl h => exact Or.inl (Option.map_eq_none_iff.mp h)
    | inr h => exact Or.inr h

theorem afterLevels_agrees {maxNumCoeff tc t1 : ℕ} (htc : 0<tc)
    (hle : tc ≤ maxNumCoeff) (hmax : maxNumCoeff≤16) (hlen : levels.length=tc)
    {left : List Bool} (hat : BitReader.At d left br) :
    Agrees d
      (readTotalZeros maxNumCoeff tc left >>= fun z =>
        readRuns tc z.1 z.2 >>= fun r => pure (resultOf ⟨t1,levels,r.1⟩,r.2))
      (blockAnswer
        (afterLevels ⟨false,tc,t1,pad16 levels,pad16 []⟩ maxNumCoeff levels br)) := by
  obtain ⟨n,rfl⟩ : ∃ n, tc=n+1 := ⟨tc-1,by omega⟩
  refine (totalZeros_agrees htc hmax hat).bind ?_ ?_
  · intro zeros rest hread hsome hrest
    have hroom := readTotalZeros_le htc hle hmax hread
    unfold afterLevels
    generalize totalZeros br maxNumCoeff (n+1)=answer at hsome hrest
    obtain ⟨found,br'⟩ := answer
    subst hsome
    exact afterZeros_agrees hlen hroom hrest
  · intro hfail
    exact Or.inl (blockAnswer_none (afterLevels_failed rfl levels hfail))

theorem coefficients_failed_signs (hout : out.ok=false)
    (maxNumCoeff : ℕ) (h : (signs out.trailingOnes br).2.ok=false) :
    (coefficients out br maxNumCoeff).1.ok=false := by
  have hlevels := levelsFrom_failed out.trailingOnes (out.totalCoeff-out.trailingOnes) true
    (firstSuffixLength out.totalCoeff out.trailingOnes) (signs out.trailingOnes br).1 h
  rw [coefficients_eq]
  generalize levelsFrom out.trailingOnes (out.totalCoeff-out.trailingOnes) true
    (firstSuffixLength out.totalCoeff out.trailingOnes) (signs out.trailingOnes br).1
    (signs out.trailingOnes br).2=answer at hlevels
  obtain ⟨more,level,br'⟩ := answer
  cases more with
  | false => exact hout
  | true =>
    have hkeep : ({ out with level := pad16 level } : ResidualResult).ok=false := hout
    exact afterLevels_failed hkeep level (Or.inr (totalZeros_failed hlevels _ _))

theorem coefficients_failed {out : ResidualResult} (hout : out.ok=false) (maxNumCoeff : ℕ)
    (h : br.ok=false) : (coefficients out br maxNumCoeff).1.ok=false :=
  coefficients_failed_signs out hout maxNumCoeff (signs_failed _ h)

theorem coefficients_agrees {maxNumCoeff tc t1 : ℕ} (htc : 0<tc) (ht1 : t1≤tc)
    (hle : tc ≤ maxNumCoeff) (hmax : maxNumCoeff≤16)
    {left : List Bool} (hat : BitReader.At d left br) : Agrees d
      (readCoefficients maxNumCoeff tc t1 left >>= fun p => pure (resultOf p.1,p.2))
      (blockAnswer (coefficients ⟨false,tc,t1,pad16 [],pad16 []⟩ br maxNumCoeff)) := by
  have hstages : (readCoefficients maxNumCoeff tc t1 left >>= fun p => pure (resultOf p.1,p.2)) =
      readSigns t1 left >>= fun o =>
        (readLevels (tc-t1) (firstSuffixLength tc t1) (true && decide (t1<3)) o.2 >>= fun p =>
          pure (o.1 ++ p.1,p.2)) >>= fun l =>
            readTotalZeros maxNumCoeff tc l.2 >>= fun z =>
              readRuns tc z.1 z.2 >>= fun r => pure (resultOf ⟨t1,l.1,r.1⟩,r.2) := by
    simp only [readCoefficients,bind_assoc,pure_bind,Bool.true_and]
  have hrange : SuffixRange true (firstSuffixLength tc t1) := by
    refine (show firstSuffixLength tc t1≤1 from ?_)
    unfold firstSuffixLength
    split_ifs <;> omega
  rw [hstages,coefficients_eq]
  refine (signs_agrees t1 hat).bind ?_ ?_
  · intro ones rest hsigns hones hrest
    have hval : (signs t1 br).1=ones := Option.some.inj hones
    have hlevels := levelsFrom_agrees t1 (tc-t1) ones hrange hrest
    rw [hval]
    refine hlevels.bind ?_ ?_
    · intro levels rest' hread hsome hrest'
      have hlen : levels.length=tc := by
        obtain ⟨p,hp,h⟩ := ok_of_bind_ok hread
        obtain ⟨rfl,_⟩ := Prod.mk.inj (Except.ok.inj h)
        rw [length_append,length_readSigns hsigns,length_readLevels hp]
        omega
      generalize levelsFrom t1 (tc-t1) true (firstSuffixLength tc t1) ones (signs t1 br).2 =
        answer at hsome hrest'
      obtain ⟨more,level,br'⟩ := answer
      cases more with
      | false => cases hsome
      | true =>
        obtain rfl : level=levels := Option.some.inj hsome
        exact afterLevels_agrees htc hle hmax hlen hrest'
    · intro hfail
      generalize levelsFrom t1 (tc-t1) true (firstSuffixLength tc t1) ones (signs t1 br).2 =
        answer at hfail
      obtain ⟨more,level,br'⟩ := answer
      cases more with
      | false => exact Or.inl (blockAnswer_none rfl)
      | true =>
        have hbad : br'.ok=false := by
          cases hfail with
          | inl h => cases h
          | inr h => exact h
        exact Or.inl (blockAnswer_none
          (afterLevels_failed rfl level (Or.inr (totalZeros_failed hbad _ _))))
  · intro hfail
    cases hfail with
    | inl h => cases h
    | inr h =>
      have hdown := coefficients_failed_signs ⟨false,tc,t1,pad16 [],pad16 []⟩ rfl maxNumCoeff h
      exact Or.inl (blockAnswer_none hdown)

theorem matchFrom_past_end {lens bits : List ℕ} {n i : ℕ} (fuel len code : ℕ)
    (hok : br.ok=true) (hsome : (matchFrom lens bits n fuel len code br).1=some i)
    (hfail : (matchFrom lens bits n fuel len code br).2.ok=false) : bits.getD i 0%2=0 := by
  induction fuel generalizing len code br with
  | zero => cases hsome
  | succ fuel ih =>
    rw [matchFrom,if_pos hok] at hsome hfail
    dsimp only at hsome hfail
    cases hl : lookup lens bits n (len+1) (2*code+(br.u 1).1) with
    | some j =>
      rw [hl] at hsome hfail
      have hzero := BitReader.u_one_of_failing hok hfail
      have hij : j=i := Option.some.inj hsome
      have hhit := find?_some hl
      rw [Bool.and_eq_true,beq_iff_eq,beq_iff_eq,hij,hzero] at hhit
      omega
    | none =>
      rw [hl] at hsome hfail
      cases hnext : (br.u 1).2.ok with
      | true => exact ih _ _ hnext hsome hfail
      | false =>
        have hstop : ∀ m l c, (matchFrom lens bits n m l c (br.u 1).2).1=none := by
          intro m l c
          cases m with
          | zero => rfl
          | succ m => rw [matchFrom,if_neg (by simp [hnext])]
        rw [hstop] at hsome
        cases hsome

theorem emptyCode_odd :
    (∀ tab<4, (coeffTokenBits.getD tab []).getD 0 0%2=1) ∧ chromaDcBits.getD 0 0%2=1 := by
  decide

theorem token_past_end {nC : ℤ} {idx : ℕ} (hok : br.ok=true)
    (hsome : (token br nC).1=some idx) (hfail : (token br nC).2.ok=false) : idx≠0 := by
  rintro rfl
  unfold token at hsome hfail
  by_cases hdc : nC = -1
  · rw [if_pos hdc] at hsome hfail
    have heven := matchFrom_past_end 16 0 0 hok hsome hfail
    have hodd := emptyCode_odd.2
    omega
  · rw [if_neg hdc] at hsome hfail
    have htab : (if nC < 2 then 0 else if nC < 4 then 1 else if nC < 8 then 2 else 3)<4 := by
      split_ifs <;> omega
    have heven := matchFrom_past_end 16 0 0 hok hsome hfail
    have hodd := emptyCode_odd.1 _ htab
    omega

theorem coefficients_healthy {out : ResidualResult} (hout : out.ok=false)
    (h : (coefficients out br maxNumCoeff).1.ok=true) :
    (coefficients out br maxNumCoeff).2.ok=true := by
  rw [coefficients_eq] at h ⊢
  generalize levelsFrom out.trailingOnes (out.totalCoeff-out.trailingOnes) true
    (firstSuffixLength out.totalCoeff out.trailingOnes) (signs out.trailingOnes br).1
    (signs out.trailingOnes br).2=answer at h ⊢
  obtain ⟨more,level,br'⟩ := answer
  cases more with
  | false => exact absurd (hout.symm.trans h) Bool.noConfusion
  | true =>
    dsimp only [afterLevels] at h ⊢
    generalize totalZeros br' maxNumCoeff out.totalCoeff=answer at h ⊢
    obtain ⟨found,br''⟩ := answer
    cases found with
    | none => exact absurd (hout.symm.trans h) Bool.noConfusion
    | some zeros =>
      dsimp only [afterZeros] at h ⊢
      generalize runsFrom (out.totalCoeff-1) zeros br''=answer at h ⊢
      obtain ⟨found,br''⟩ := answer
      cases found with
      | none => exact absurd (hout.symm.trans h) Bool.noConfusion
      | some p => exact (Bool.and_eq_true_iff.mp h).2

theorem residualBlock_healthy {nC : ℤ} (hok : br.ok=true)
    (h : (residualBlock br nC maxNumCoeff).1.ok=true) :
    (residualBlock br nC maxNumCoeff).2.ok=true := by
  unfold residualBlock at h ⊢
  by_cases hentry : (!br.ok || decide (maxNumCoeff=0) || decide (16 < maxNumCoeff))=true
  · rw [if_pos hentry] at h
    cases h
  · rw [if_neg hentry] at h ⊢
    have hpast : ∀ idx, (token br nC).1=some idx → (token br nC).2.ok=false → idx≠0 :=
      fun _ => token_past_end hok
    generalize token br nC=answer at h hpast ⊢
    obtain ⟨found,br'⟩ := answer
    cases found with
    | none => cases h
    | some idx =>
      dsimp only at h ⊢
      by_cases hbad : (nC = -1 ∧ 4 < idx/4) ∨ maxNumCoeff < idx/4 ∨ idx/4 < idx%4 ∨
          3 < idx%4
      · rw [if_pos hbad] at h
        cases h
      · rw [if_neg hbad] at h ⊢
        by_cases hzero : idx/4=0
        · rw [if_pos hzero]
          cases hdead : br'.ok with
          | true => rfl
          | false => exact absurd (show idx=0 by omega) (hpast idx rfl hdead)
        · rw [if_neg hzero] at h ⊢
          exact coefficients_healthy rfl h

/-- The host decoder reads a block: it returns the block that is read and
stands behind it, and its flag is down where nothing is read. -/
theorem residualBlock_agrees (nC : ℤ) (hpos : 0 < maxNumCoeff)
    (hmax : maxNumCoeff≤16) {left : List Bool} (hat : BitReader.At d left br) :
    Agrees d (readBlock (tokenTable nC) maxNumCoeff left >>= fun p => pure (resultOf p.1,p.2))
      (blockAnswer (residualBlock br nC maxNumCoeff)) := by
  have hentry : ¬(!br.ok || decide (maxNumCoeff=0) || decide (16 < maxNumCoeff))=true := by
    rw [hat.healthy]
    simp only [Bool.not_true,Bool.false_or,Bool.or_eq_true,decide_eq_true_eq]
    omega
  rw [readBlock,bind_assoc,residualBlock,if_neg hentry]
  refine (token_agrees nC hat).bind ?_ ?_
  · intro idx rest hread hsome hrest
    generalize token br nC=answer at hsome hrest
    obtain ⟨found,br'⟩ := answer
    subst hsome
    dsimp only
    have hdc : nC = -1 → idx/4≤4 := by
      intro h
      have htable : tokenTable nC = .chromaDc := by rw [tokenTable,if_pos h]
      rw [htable,readSymbol] at hread
      cases hs : symbol TokenTable.chromaDc.code left with
      | none =>
        rw [hs] at hread
        cases hread
      | some p =>
        rw [hs] at hread
        obtain ⟨w,hw,_,_⟩ :=
          (symbol_eq_some_iff (prefixFree_code .chromaDc) left p.1 p.2).mp hs
        have hi := (List.getElem?_eq_some_iff.mp hw).1
        have hlen : TokenTable.chromaDc.code.length=20 := by decide
        have hp : p.1=idx := congrArg Prod.fst (Except.ok.inj hread)
        omega
    by_cases hbad : maxNumCoeff < idx/4 ∨ idx/4 < idx%4
    · rw [if_pos hbad,if_pos (by omega)]
      exact Or.inl rfl
    · have hgo : ¬((nC = -1 ∧ 4 < idx/4) ∨ maxNumCoeff < idx/4 ∨ idx/4 < idx%4 ∨
          3 < idx%4) := by
        rintro (⟨h1,h2⟩ | h)
        · exact absurd (hdc h1) (by omega)
        · omega
      rw [if_neg hbad,if_neg hgo]
      by_cases hzero : idx/4=0
      · have hones : idx%4=0 := by omega
        rw [if_pos hzero,if_pos hzero,hzero,hones]
        exact ⟨rfl,hrest⟩
      · rw [if_neg hzero,if_neg hzero]
        exact coefficients_agrees (Nat.pos_of_ne_zero hzero) (by omega) (by omega) hmax hrest
  · intro hfail
    refine Or.inl (blockAnswer_none ?_)
    cases hfound : (token br nC).1 with
    | none =>
      generalize token br nC=answer at hfound
      obtain ⟨found,br'⟩ := answer
      subst hfound
      rfl
    | some idx =>
      have hdead : (token br nC).2.ok=false := by
        cases hfail with
        | inl h => cases hfound.symm.trans h
        | inr h => exact h
      have hne := token_past_end hat.healthy hfound hdead
      generalize token br nC=answer at hfound hdead
      obtain ⟨found,br'⟩ := answer
      subst hfound
      dsimp only
      by_cases hbad : (nC = -1 ∧ 4 < idx/4) ∨ maxNumCoeff < idx/4 ∨ idx/4 < idx%4 ∨
          3 < idx%4
      · rw [if_pos hbad]
        rfl
      · rw [if_neg hbad,if_neg (by omega)]
        exact coefficients_failed rfl maxNumCoeff hdead

/-- Block sizes with the values of nC they are decoded with. -/
def SizeFor (nC : ℤ) (maxNumCoeff : ℕ) : Prop :=
  (nC = -1 ∧ maxNumCoeff=4) ∨ (0≤nC ∧ (maxNumCoeff=15 ∨ maxNumCoeff=16))

theorem blockKind_of_sizeFor {nC : ℤ} (h : SizeFor nC maxNumCoeff) :
    BlockKind (tokenTable nC) maxNumCoeff := by
  cases h with
  | inl h =>
    obtain ⟨rfl,rfl⟩ := h
    exact BlockKind.chromaDc
  | inr h =>
    have hne : tokenTable nC ≠ .chromaDc := by
      unfold tokenTable
      rw [if_neg (by omega)]
      split_ifs <;> decide
    cases h.2 with
    | inl h15 => exact h15 ▸ BlockKind.ac hne
    | inr h16 => exact h16 ▸ BlockKind.full hne

/-- Run on the code of a coefficient vector followed by anything, the host
returns its nonzero count, trailing ones and coefficients and stands at the
first bit behind the code. -/
theorem residualBlock_encodeBlock (nC : ℤ) (maxNumCoeff : ℕ) (coeffs : List ℤ)
    (tail : List Bool) (br : BitReader) (hsize : SizeFor nC maxNumCoeff)
    (hlen : coeffs.length=maxNumCoeff) (hfit : (blockOf coeffs).Fits) (hok : br.ok=true)
    (hrest : br.rest = encodeBlock (tokenTable nC) maxNumCoeff (blockOf coeffs) ++ tail) :
    let r := residualBlock br nC maxNumCoeff
    r.1.ok=true ∧ r.1.totalCoeff=(coeffs.filter (· ≠ 0)).length ∧
      r.1.trailingOnes=countTrailingOnes (coeffs.filter (· ≠ 0)).reverse ∧
      r.1.coeff = coeffs ++ List.replicate (16-maxNumCoeff) 0 ∧
      r.2.bit=br.bit+(encodeBlock (tokenTable nC) maxNumCoeff (blockOf coeffs)).length ∧
      r.2.rest=tail ∧ r.2.ok=true := by
  have hkind := blockKind_of_sizeFor hsize
  have hle := hkind.le
  have hpos : 0 < maxNumCoeff := by
    unfold SizeFor at hsize
    omega
  have hwf := wf_blockOf hlen
  have hcode : 0<(encodeBlock (tokenTable nC) maxNumCoeff (blockOf coeffs)).length := by
    have hroom := hwf.room
    have ht1 : (blockOf coeffs).trailingOnes≤(blockOf coeffs).totalCoeff :=
      hwf.ones ▸ countTrailingOnes_le_length (blockOf coeffs).levels
    have hused := code_used hkind (by omega) ht1 (hwf.ones ▸ countTrailingOnes_le_three _)
    rw [encodeBlock,length_append]
    exact Nat.add_pos_left (length_pos_iff.mpr hused) _
  have hbit : br.bit≤8*br.d.length := by
    have hl := congrArg length hrest
    rw [BitReader.rest,length_drop,length_bitsOf,length_append] at hl
    omega
  have hat := BitReader.at_rest hok hbit
  have hread := readBlock_encodeBlock hkind hwf hfit tail
  have hagree := residualBlock_agrees nC hpos hle hat
  have hposition := hat.position
  rw [hrest] at hagree hposition
  rw [hread] at hagree
  obtain ⟨hanswer,hend⟩ := hagree
  have hlevels : (blockOf coeffs).levels=(coeffs.filter (· ≠ 0)).reverse := by
    rw [← filter_reverse]
    exact levels_runLevels coeffs.reverse
  generalize residualBlock br nC maxNumCoeff=r at hanswer hend
  obtain ⟨result,br'⟩ := r
  have hresult : result=resultOf (blockOf coeffs) := by
    dsimp only [blockAnswer] at hanswer
    split_ifs at hanswer
    exact Option.some.inj hanswer
  have hend' : BitReader.At br.d tail br' := hend
  have hposition' := hend'.position
  rw [length_append] at hposition
  refine ⟨by rw [hresult]; rfl,?_,?_,?_,?_,hend'.left,hend'.healthy⟩
  · rw [hresult]
    exact (congrArg length hlevels).trans length_reverse
  · rw [hresult,← hlevels]
    rfl
  · rw [hresult,← hlen]
    exact coeff_blockOf (by omega)
  · dsimp only
    omega

/-- A block with an escaped level that starts inside a byte and is followed by
two more bits. -/
theorem residualBlock_encodeBlock_escape :
    (residualBlock ⟨[225#8,96#8,0#8,16#8,7#8,215#8],3,true⟩ 0 16).1.coeff =
      [0,-20,0,1,-1,0,0,0,0,0,0,0,0,0,0,0] := by
  have h := residualBlock_encodeBlock 0 16 [0,-20,0,1,-1,0,0,0,0,0,0,0,0,0,0,0]
    [true,true] ⟨[225#8,96#8,0#8,16#8,7#8,215#8],3,true⟩ (Or.inr ⟨le_rfl,Or.inr rfl⟩) rfl
    (by decide) rfl (by decide)
  exact h.2.2.2.1

end Misterplex.Cavlc.Host
