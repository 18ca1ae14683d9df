import Misterplex.Cavlc.BlockSyntax

/-!
# Coding a residual block

The encoder writes a block of coefficients the way the syntax is defined: runs
and levels are split off the scan from the highest frequency down, up to three
leading ones become trailing ones, and the suffix length follows the levels.
Reading the code back yields the block, whatever bits follow.
-/

namespace Misterplex.Cavlc

open BitString PrefixCode List

/-- Nonzero coefficients with the zeros below them, highest frequency first. -/
def runLevels : List ℤ → List (ℤ × ℕ)
  | [] => []
  | c::cs => if c = 0 then runLevels cs else (c,(cs.takeWhile (· = 0)).length)::runLevels cs

variable (levels : List ℤ)

/-- Number of trailing ones of the levels, at most three. -/
def countTrailingOnes : ℕ :=
  min 3 (levels.takeWhile fun l => decide (l=1 ∨ l = -1)).length

/-- The block of a vector of coefficients in scan order. -/
def blockOf (coeffs : List ℤ) : Block :=
  ⟨countTrailingOnes ((runLevels coeffs.reverse).map Prod.fst),
    (runLevels coeffs.reverse).map Prod.fst,(runLevels coeffs.reverse).map Prod.snd⟩

/-- The level code of a level. -/
def codeOfLevel (lift : Bool) (level : ℤ) : ℕ :=
  2*level.natAbs-2+(if level < 0 then 1 else 0)-(if lift then 2 else 0)

/-- The escape threshold of a suffix length: codes from there on are written
with the prefix of fifteen zeros. -/
def escapeCode (suffixLength : ℕ) : ℕ :=
  if suffixLength = 0 then 30 else 15*2^suffixLength

/-- Bits of a prefix and a suffix of given size. -/
def levelBits (levelPrefix size levelSuffix : ℕ) : List Bool :=
  List.replicate levelPrefix false ++ true::ofNat size levelSuffix

/-- Bits of a level code. -/
def encodeLevelCode (suffixLength code : ℕ) : List Bool :=
  if escapeCode suffixLength ≤ code then levelBits 15 12 (code-escapeCode suffixLength)
  else if suffixLength = 0 then
    if code < 14 then levelBits code 0 0 else levelBits 14 4 (code-14)
  else levelBits (code/2^suffixLength) suffixLength (code%2^suffixLength)

/-- Code of a level. -/
def encodeLevel (suffixLength : ℕ) (lift : Bool) (level : ℤ) : List Bool :=
  encodeLevelCode suffixLength (codeOfLevel lift level)

/-- Code of the levels, adapting the suffix length. -/
def encodeLevels : ℕ → Bool → List ℤ → List Bool
  | _,_,[] => []
  | suffixLength,lift,level::levels =>
    encodeLevel suffixLength lift level ++
      encodeLevels (nextSuffixLength suffixLength level) false levels

/-- Every level is written with a prefix of at most fifteen zeros. -/
def LevelsFit : ℕ → Bool → List ℤ → Prop
  | _,_,[] => True
  | suffixLength,lift,level::levels =>
    codeOfLevel lift level<escapeCode suffixLength+2^12 ∧
      LevelsFit (nextSuffixLength suffixLength level) false levels

instance decidableLevelsFit : ∀ (suffixLength : ℕ) (lift : Bool) (levels : List ℤ),
    Decidable (LevelsFit suffixLength lift levels)
  | _,_,[] => isTrue trivial
  | suffixLength,_,level::levels =>
    @instDecidableAnd _ _ _ (decidableLevelsFit (nextSuffixLength suffixLength level) false levels)

/-- Signs of the trailing ones. -/
def encodeSigns (ones : List ℤ) : List Bool := ones.map fun l => decide (l<0)

/-- Code of the runs, the last of which follows from the rest. -/
def encodeRuns : ℕ → List ℕ → List Bool
  | _,[] => []
  | _,[_] => []
  | zerosLeft,run::runs =>
    if zerosLeft = 0 then encodeRuns 0 runs
    else (runBeforeCode zerosLeft).getD run [] ++ encodeRuns (zerosLeft-run) runs

/-- Code of a block. -/
def encodeBlock (table : TokenTable) (maxNumCoeff : ℕ) (b : Block) : List Bool :=
  table.code.getD (4*b.totalCoeff+b.trailingOnes) [] ++
    if b.totalCoeff = 0 then []
    else
      encodeSigns (b.levels.take b.trailingOnes) ++
        encodeLevels (firstSuffixLength b.totalCoeff b.trailingOnes) (decide (b.trailingOnes<3))
          (b.levels.drop b.trailingOnes) ++
        (if b.totalCoeff < maxNumCoeff then
          (totalZerosCode maxNumCoeff b.totalCoeff).getD b.runs.sum [] else []) ++
        encodeRuns b.runs.sum b.runs

/-- The levels of a block are written with a prefix of at most fifteen zeros. -/
def Block.Fits (b : Block) : Prop :=
  LevelsFit (firstSuffixLength b.totalCoeff b.trailingOnes) (decide (b.trailingOnes<3))
    (b.levels.drop b.trailingOnes)

instance (b : Block) : Decidable b.Fits := decidableLevelsFit _ _ _

theorem zerosBeforeOne_replicate (n : ℕ) (bits : List Bool) :
    zerosBeforeOne (List.replicate n false ++ true::bits)=some (n,bits) := by
  induction n with
  | zero => rfl
  | succ n ih => rw [replicate_succ,cons_append,zerosBeforeOne,ih]; rfl

theorem readField_append (field bits : List Bool) :
    readField field.length (field ++ bits) = .ok (value field,bits) := by
  rw [readField,if_pos (by rw [length_append]; omega),take_left,drop_left]

theorem readLevel_levelBits {levelPrefix suffixLength levelSuffix : ℕ} (lift : Bool)
    (bits : List Bool) (hp : levelPrefix≤15)
    (hs : levelSuffix<2^levelSuffixSize levelPrefix suffixLength) :
    readLevel suffixLength lift
        (levelBits levelPrefix (levelSuffixSize levelPrefix suffixLength) levelSuffix ++ bits) =
      .ok (levelOfCode (levelCode levelPrefix levelSuffix suffixLength lift),bits) := by
  have hprefix : ∀ rest, readLevelPrefix (replicate levelPrefix false ++ true::rest) =
      .ok (levelPrefix,rest) := by
    intro rest
    rw [readLevelPrefix,zerosBeforeOne_replicate]
    exact if_neg (by omega)
  have hfield := readField_append (ofNat (levelSuffixSize levelPrefix suffixLength) levelSuffix)
    bits
  rw [length_ofNat,value_ofNat hs] at hfield
  rw [readLevel,levelBits,append_assoc,cons_append, hprefix]
  simp only [bind,Except.bind,hfield]
  rfl

theorem levelOfCode_codeOfLevel (lift : Bool) {level : ℤ} (h0 : level≠0)
    (hlift : lift=true → 2≤level.natAbs) :
    levelOfCode (codeOfLevel lift level+if lift then 2 else 0)=level := by
  unfold levelOfCode codeOfLevel
  cases lift with
  | false =>
    simp only [Bool.false_eq_true,if_false,Nat.sub_zero,Nat.add_zero]
    by_cases hneg : level<0
    · rw [if_pos hneg,if_neg (by omega)]
      omega
    · rw [if_neg hneg,if_pos (by omega)]
      omega
  | true =>
    have hge := hlift rfl
    simp only [if_true]
    by_cases hneg : level<0
    · rw [if_pos hneg,if_neg (by omega)]
      omega
    · rw [if_neg hneg,if_pos (by omega)]
      omega

theorem readLevel_encodeLevelCode {suffixLength code : ℕ} (lift : Bool) (bits : List Bool)
    (hfit : code<escapeCode suffixLength+2^12) :
    readLevel suffixLength lift (encodeLevelCode suffixLength code ++ bits) =
      .ok (levelOfCode (code+if lift then 2 else 0),bits) := by
  have hread : ∀ {p s : ℕ}, p≤15 → s<2^levelSuffixSize p suffixLength →
      (min 15 p*2^suffixLength+s)+(if 15 ≤ p ∧ suffixLength = 0 then 15 else 0)=code →
      readLevel suffixLength lift (levelBits p (levelSuffixSize p suffixLength) s ++ bits) =
        .ok (levelOfCode (code+if lift then 2 else 0),bits) := by
    intro p s hp hs hcode
    rw [readLevel_levelBits lift bits hp hs,levelCode,hcode]
  have hpow : 0<2^suffixLength := Nat.two_pow_pos suffixLength
  unfold encodeLevelCode
  by_cases hsl : suffixLength=0
  · subst hsl
    simp only [escapeCode,if_true] at hfit ⊢
    by_cases hesc : 30≤code
    · rw [if_pos hesc]
      exact hread (show 15≤15 by omega) (show code-30<2^12 by omega)
        (by simp only [le_refl,and_self,if_true]; omega)
    · rw [if_neg hesc]
      by_cases h14 : code<14
      · have hsize : levelSuffixSize code 0=0 := by
          rw [levelSuffixSize,if_neg (by omega),if_neg (by omega)]
        have h := hread (show code≤15 by omega) (Nat.two_pow_pos (levelSuffixSize code 0))
          (by rw [if_neg (by omega)]; omega)
        rw [if_pos h14]
        rw [hsize] at h
        exact h
      · rw [if_neg h14]
        exact hread (show 14≤15 by omega) (show code-14<2^4 by omega)
          (by rw [if_neg (by omega)]; omega)
  · simp only [escapeCode,if_neg hsl] at hfit ⊢
    by_cases hesc : 15*2^suffixLength≤code
    · have hsize : levelSuffixSize 15 suffixLength=12 := by
        rw [levelSuffixSize,if_neg (by omega),if_pos rfl]
      have h := hread (show 15≤15 by omega)
        (show code-15*2^suffixLength<2^levelSuffixSize 15 suffixLength by
          rw [hsize]; omega)
        (by rw [if_neg (by omega),Nat.min_self]; omega)
      rw [if_pos hesc]
      exact h
    · have hdiv : code/2^suffixLength<15 := (Nat.div_lt_iff_lt_mul hpow).mpr (by omega)
      have hmod := Nat.mod_lt code hpow
      have hsize : levelSuffixSize (code/2^suffixLength) suffixLength=suffixLength := by
        rw [levelSuffixSize,if_neg (by omega),if_neg (by omega)]
      have h := hread (show code/2^suffixLength≤15 by omega)
        (show code%2^suffixLength <
          2^levelSuffixSize (code/2^suffixLength) suffixLength by rw [hsize]; exact hmod)
        (by
          rw [if_neg (by omega),Nat.min_eq_right (by omega),Nat.mul_comm,Nat.add_zero]
          exact Nat.div_add_mod code (2^suffixLength))
      rw [if_neg hesc]
      rw [hsize] at h
      exact h

theorem readLevel_encodeLevel {suffixLength : ℕ} {lift : Bool} {level : ℤ} (bits : List Bool)
    (h0 : level≠0) (hlift : lift=true → 2≤level.natAbs)
    (hfit : codeOfLevel lift level<escapeCode suffixLength+2^12) :
    readLevel suffixLength lift (encodeLevel suffixLength lift level ++ bits) =
      .ok (level,bits) := by
  rw [encodeLevel,readLevel_encodeLevelCode lift bits hfit,levelOfCode_codeOfLevel lift h0 hlift]

theorem readLevels_encodeLevels {suffixLength : ℕ} {lift : Bool}
    (bits : List Bool) (h0 : ∀ l∈levels, l≠0)
    (hlift : lift=true → ∀ l∈levels.head?, 2≤l.natAbs)
    (hfit : LevelsFit suffixLength lift levels) :
    readLevels levels.length suffixLength lift (encodeLevels suffixLength lift levels ++ bits) =
      .ok (levels,bits) := by
  induction levels generalizing suffixLength lift with
  | nil => rfl
  | cons level levels ih =>
    have hfirst := readLevel_encodeLevel
      (encodeLevels (nextSuffixLength suffixLength level) false levels ++ bits)
      (h0 level mem_cons_self) (fun h => hlift h level rfl) hfit.1
    have hrest := ih (fun l hl => h0 l (mem_cons_of_mem level hl))
      (fun h => absurd h Bool.false_ne_true) hfit.2
    rw [length_cons,readLevels,encodeLevels,append_assoc]
    simp only [bind,Except.bind,hfirst,hrest]
    rfl

theorem readSigns_encodeSigns (ones : List ℤ) (bits : List Bool)
    (h : ∀ l∈ones, l=1 ∨ l = -1) :
    readSigns ones.length (encodeSigns ones ++ bits) = .ok (ones,bits) := by
  induction ones with
  | nil => rfl
  | cons l ones ih =>
    have hrest := ih (fun m hm => h m (mem_cons_of_mem l hm))
    have hfield := readField_append [decide (l<0)] (encodeSigns ones ++ bits)
    have hsign : (if value [decide (l<0)] = 1 then (-1 : ℤ) else 1)=l := by
      cases h l mem_cons_self with
      | inl h1 => rw [h1]; rfl
      | inr h1 => rw [h1]; rfl
    have hcons : encodeSigns (l::ones) ++ bits =
        [decide (l<0)] ++ (encodeSigns ones ++ bits) := rfl
    rw [length_cons,readSigns,hcons]
    rw [length_singleton] at hfield
    simp only [bind,Except.bind,hfield,hrest,hsign]
    rfl

theorem readSymbol_getD {T : Code} (hT : PrefixFree T) {i : ℕ} (hne : T.getD i []≠[])
    (bits : List Bool) : readSymbol T (T.getD i [] ++ bits) = .ok (i,bits) := by
  have hget : T[i]?=some (T.getD i []) := by
    cases hi : T[i]? with
    | none =>
      rw [getD_eq_getElem?_getD,hi] at hne
      exact absurd rfl hne
    | some w => rw [getD_eq_getElem?_getD,hi,Option.getD_some]
  rw [readSymbol,symbol_append hT hget hne]

theorem runBeforeCode_used :
    ∀ zerosLeft<15, ∀ run<zerosLeft+1, 0<zerosLeft →
      (runBeforeCode zerosLeft).getD run []≠[] := by
  decide

theorem readRuns_encodeRuns (runs : List ℕ) (bits : List Bool)
    (hsum : 2≤runs.length → runs.sum≤14) :
    readRuns runs.length runs.sum (encodeRuns runs.sum runs ++ bits) = .ok (runs,bits) := by
  induction runs with
  | nil => rfl
  | cons run runs ih =>
    cases runs with
    | nil => rfl
    | cons next runs =>
      have hle : run+(next::runs).sum≤14 := by
        have h := hsum (by rw [length_cons,length_cons]; omega)
        exact h
      have hrest := ih (fun _ => by omega)
      rw [length_cons] at hrest
      rw [length_cons,length_cons,readRuns,encodeRuns,sum_cons]
      by_cases hzero : run+(next::runs).sum=0
      · have hrun : run=0 := by omega
        have hrestsum : (next::runs).sum=0 := by omega
        rw [hrestsum] at hrest
        rw [if_pos hzero,if_pos hzero,hrun]
        simp only [bind,Except.bind,hrest]
        rfl
      · have hcode := runBeforeCode_used (run+(next::runs).sum) (by omega) run (by omega)
          (by omega)
        have hsymbol := readSymbol_getD (prefixFree_runBeforeCode _) hcode
          (encodeRuns (next::runs).sum (next::runs) ++ bits)
        rw [if_neg hzero,if_neg hzero,Nat.add_sub_cancel_left,append_assoc]
        simp only [bind,Except.bind,hsymbol]
        rw [if_neg (by omega),Nat.add_sub_cancel_left,hrest]
        rfl
      · exact fun h => by cases h

theorem totalZerosRows_used :
    ∀ tc<16, 0<tc → ∀ zeros<17-tc,
      (codewords (totalZerosRows.getD (tc-1) [])).getD zeros []≠[] := by
  decide

theorem totalZerosChromaRows_used :
    ∀ tc<4, 0<tc → ∀ zeros<5-tc,
      (codewords (totalZerosChromaRows.getD (tc-1) [])).getD zeros []≠[] := by
  decide

/-- The block sizes and the coeff_token tables used for them. -/
inductive BlockKind : TokenTable → ℕ → Prop
  | chromaDc : BlockKind .chromaDc 4
  /-- Blocks without their DC coefficient. -/
  | ac {table : TokenTable} : table ≠ .chromaDc → BlockKind table 15
  | full {table : TokenTable} : table ≠ .chromaDc → BlockKind table 16

variable {table : TokenTable}

theorem BlockKind.le {maxNumCoeff : ℕ} (h : BlockKind table maxNumCoeff) : maxNumCoeff≤16 := by
  cases h <;> decide

theorem totalZerosCode_used {maxNumCoeff tc zeros : ℕ}
    (h : BlockKind table maxNumCoeff) (htc : 0<tc) (hlt : tc < maxNumCoeff)
    (hroom : tc+zeros ≤ maxNumCoeff) : (totalZerosCode maxNumCoeff tc).getD zeros []≠[] := by
  cases h with
  | chromaDc => exact totalZerosChromaRows_used tc hlt htc zeros (by omega)
  | ac _ => exact totalZerosRows_used tc (by omega) htc zeros (by omega)
  | full _ => exact totalZerosRows_used tc hlt htc zeros (by omega)

theorem coeffToken_used :
    ∀ T∈[coeffToken0,coeffToken2,coeffToken4,coeffToken8],
      ∀ tc<17, ∀ t1<4, t1≤tc → (codewords T).getD (4*tc+t1) []≠[] := by
  decide

theorem coeffTokenChromaDc_used :
    ∀ tc<5, ∀ t1<4, t1≤tc → (codewords coeffTokenChromaDc).getD (4*tc+t1) []≠[] := by
  decide

theorem code_used {maxNumCoeff tc t1 : ℕ} (h : BlockKind table maxNumCoeff)
    (htc : tc ≤ maxNumCoeff) (ht1 : t1≤tc) (h3 : t1≤3) :
    table.code.getD (4*tc+t1) []≠[] := by
  have hle := h.le
  have hfull : table ≠ .chromaDc → table.code.getD (4*tc+t1) []≠[] := by
    intro hne
    refine coeffToken_used table.literals ?_ tc (by omega) t1 (by omega) ht1
    cases table with
    | nc0 => simp [TokenTable.literals]
    | nc2 => simp [TokenTable.literals]
    | nc4 => simp [TokenTable.literals]
    | nc8 => simp [TokenTable.literals]
    | chromaDc => exact absurd rfl hne
  cases h with
  | chromaDc => exact coeffTokenChromaDc_used tc (by omega) t1 (by omega) ht1
  | ac hne => exact hfull hne
  | full hne => exact hfull hne

/-- A block as an encoder forms it: nonzero levels, a run for each, no more
coefficients than there is room for, and as many trailing ones as there are. -/
structure Block.Wf (maxNumCoeff : ℕ) (b : Block) : Prop where
  nonzero : ∀ l∈b.levels, l≠0
  paired : b.runs.length=b.levels.length
  room : b.totalCoeff+b.runs.sum ≤ maxNumCoeff
  /-- Trailing ones are the leading ones of the levels, at most three. -/
  ones : b.trailingOnes=countTrailingOnes b.levels

theorem countTrailingOnes_le_length : countTrailingOnes levels≤levels.length := by
  have h := (List.takeWhile_prefix (l := levels) fun l : ℤ => decide (l=1 ∨ l = -1)).length_le
  unfold countTrailingOnes
  omega

theorem countTrailingOnes_le_three : countTrailingOnes levels≤3 := by
  unfold countTrailingOnes
  omega

theorem ones_take : ∀ l∈levels.take (countTrailingOnes levels), l=1 ∨ l = -1 := by
  intro l hl
  have hpre : levels.take (countTrailingOnes levels) <+:
      levels.takeWhile fun l => decide (l=1 ∨ l = -1) := by
    have htake := List.takeWhile_prefix (l := levels) fun l : ℤ => decide (l=1 ∨ l = -1)
    refine prefix_of_prefix_length_le (List.take_prefix _ _) htake ?_
    rw [length_take,countTrailingOnes]
    omega
  exact of_decide_eq_true ((all_eq_true.mp all_takeWhile l (hpre.subset hl)))

theorem head_drop_ones {levels : List ℤ} (hlt : countTrailingOnes levels<3)
    (h0 : ∀ l∈levels, l≠0) :
    ∀ l∈(levels.drop (countTrailingOnes levels)).head?, 2≤l.natAbs := by
  intro l hl
  have hcount : countTrailingOnes levels =
      (levels.takeWhile fun l => decide (l=1 ∨ l = -1)).length := by
    unfold countTrailingOnes at hlt ⊢
    omega
  have hsplit : levels.drop (countTrailingOnes levels) =
      levels.dropWhile fun l => decide (l=1 ∨ l = -1) := by
    have happ := takeWhile_append_dropWhile
      (p := fun l : ℤ => decide (l=1 ∨ l = -1)) (l := levels)
    calc levels.drop (countTrailingOnes levels)
        = (levels.takeWhile (fun l => decide (l=1 ∨ l = -1)) ++
            levels.dropWhile fun l => decide (l=1 ∨ l = -1)).drop (countTrailingOnes levels) := by
          rw [happ]
      _ = levels.dropWhile fun l => decide (l=1 ∨ l = -1) := by rw [hcount,drop_left]
  have hmem : l∈levels := mem_of_mem_drop (mem_of_mem_head? hl)
  have hnot := head?_dropWhile_not (fun l : ℤ => decide (l=1 ∨ l = -1)) levels
  rw [hsplit] at hl
  rw [Option.mem_def.mp hl] at hnot
  have hne : ¬(l=1 ∨ l = -1) := of_decide_eq_false hnot
  have hl0 := h0 l hmem
  omega

theorem readTotalZeros_encode {maxNumCoeff tc zeros : ℕ}
    (hkind : BlockKind table maxNumCoeff) (htc : 0<tc) (hroom : tc+zeros ≤ maxNumCoeff)
    (bits : List Bool) : readTotalZeros maxNumCoeff tc
        ((if tc < maxNumCoeff then (totalZerosCode maxNumCoeff tc).getD zeros [] else []) ++ bits) =
      .ok (zeros,bits) := by
  unfold readTotalZeros
  by_cases hlt : tc < maxNumCoeff
  · rw [if_pos hlt,if_pos hlt]
    exact readSymbol_getD (prefixFree_totalZerosCode maxNumCoeff tc)
      (totalZerosCode_used hkind htc hlt hroom) bits
  · have hzero : zeros=0 := by omega
    rw [if_neg hlt,if_neg hlt,hzero,nil_append]

theorem readBlock_encodeBlock {maxNumCoeff : ℕ}
    (hkind : BlockKind table maxNumCoeff) {b : Block} (hb : b.Wf maxNumCoeff) (hfit : b.Fits)
    (bits : List Bool) :
    readBlock table maxNumCoeff (encodeBlock table maxNumCoeff b ++ bits) = .ok (b,bits) := by
  have hroom := hb.room
  have hle := hkind.le
  have ht1 : b.trailingOnes≤b.totalCoeff := hb.ones ▸ countTrailingOnes_le_length b.levels
  have ht3 : b.trailingOnes≤3 := hb.ones ▸ countTrailingOnes_le_three b.levels
  have htoken := readSymbol_getD (prefixFree_code table)
    (code_used hkind (by omega) ht1 ht3)
  have hdiv : (4*b.totalCoeff+b.trailingOnes)/4=b.totalCoeff := by omega
  have hmod : (4*b.totalCoeff+b.trailingOnes)%4=b.trailingOnes := by omega
  unfold readBlock encodeBlock
  rw [append_assoc]
  simp only [bind,Except.bind,htoken]
  rw [hdiv,hmod,if_neg (by omega)]
  by_cases hzero : b.totalCoeff=0
  · have hlevels : b.levels=[] := eq_nil_of_length_eq_zero hzero
    have hruns : b.runs=[] := by
      have hp := hb.paired
      rw [hlevels] at hp
      exact eq_nil_of_length_eq_zero hp
    have hones : b.trailingOnes=0 := by omega
    have hbeq : b=⟨0,[],[]⟩ := by
      cases b
      simp only at hlevels hruns hones
      rw [hlevels,hruns,hones]
    rw [if_pos hzero,if_pos hzero,hbeq]
    rfl
  · have hlen : b.levels.length=b.totalCoeff := rfl
    have hsigns := readSigns_encodeSigns (b.levels.take b.trailingOnes)
    have hlift : decide (b.trailingOnes<3)=true →
        ∀ l∈(b.levels.drop b.trailingOnes).head?, 2≤l.natAbs := by
      intro h
      have hlt : countTrailingOnes b.levels<3 := hb.ones ▸ of_decide_eq_true h
      rw [hb.ones]
      exact head_drop_ones hlt hb.nonzero
    have hnonzero : ∀ l∈b.levels.drop b.trailingOnes, l≠0 :=
      fun l hl => hb.nonzero l (mem_of_mem_drop hl)
    have hlevels := fun rest =>
      readLevels_encodeLevels (b.levels.drop b.trailingOnes) rest hnonzero hlift hfit
    have hzeros := readTotalZeros_encode hkind (Nat.pos_of_ne_zero hzero) hroom
    have hruns := readRuns_encodeRuns b.runs bits (fun h => by rw [hb.paired,hlen] at h; omega)
    have hones : ∀ l∈b.levels.take b.trailingOnes, l=1 ∨ l = -1 := hb.ones ▸ ones_take b.levels
    have htake : (b.levels.take b.trailingOnes).length=b.trailingOnes :=
      length_take_of_le ht1
    have hdrop : (b.levels.drop b.trailingOnes).length=b.totalCoeff-b.trailingOnes := by
      rw [length_drop,hlen]
    rw [htake] at hsigns
    rw [hdrop] at hlevels
    rw [hb.paired,hlen] at hruns
    rw [if_neg hzero,if_neg hzero,readCoefficients]
    simp only [append_assoc,bind,Except.bind,hsigns _ hones,hlevels,hzeros,hruns]
    rw [take_append_drop]
    rfl

/-- Zeros at the head of a list of coefficients. -/
def leadingZeros (cs : List ℤ) : ℕ := (cs.takeWhile (· = 0)).length

theorem runLevels_rebuild (cs : List ℤ) :
    ((runLevels cs).reverse.flatMap fun p => List.replicate p.2 0 ++ [p.1]) ++
      List.replicate (leadingZeros cs) 0 = cs.reverse := by
  induction cs with
  | nil => rfl
  | cons c cs ih =>
    by_cases hc : c=0
    · have hlead : leadingZeros (c::cs)=leadingZeros cs+1 := by
        rw [leadingZeros,takeWhile_cons_of_pos (by simpa using hc),length_cons]
        rfl
      rw [runLevels,if_pos hc,hlead,replicate_succ',← append_assoc,ih,
        reverse_cons,hc]
    · have hlead : leadingZeros (c::cs)=0 := by
        rw [leadingZeros,takeWhile_cons_of_neg (by simpa using hc)]
        rfl
      rw [runLevels,if_neg hc,hlead,replicate_zero,append_nil,reverse_cons,
        flatMap_append,reverse_cons,← ih,append_assoc,flatMap_singleton]
      rfl

theorem runLevels_nonzero (cs : List ℤ) : ∀ p∈runLevels cs, p.1≠0 := by
  induction cs with
  | nil => exact fun p hp => absurd hp not_mem_nil
  | cons c cs ih =>
    intro p hp
    by_cases hc : c=0
    · rw [runLevels,if_pos hc] at hp
      exact ih p hp
    · rw [runLevels,if_neg hc] at hp
      cases mem_cons.mp hp with
      | inl h => rw [h]; exact hc
      | inr h => exact ih p h

theorem levels_runLevels (cs : List ℤ) : (runLevels cs).map Prod.fst=cs.filter (· ≠ 0) := by
  induction cs with
  | nil => rfl
  | cons c cs ih =>
    by_cases hc : c=0
    · rw [runLevels,if_pos hc,filter_cons_of_neg (by simpa using hc),ih]
    · rw [runLevels,if_neg hc,filter_cons_of_pos (by simpa using hc),map_cons,ih]

theorem runLevels_room (cs : List ℤ) :
    (runLevels cs).length+((runLevels cs).map Prod.snd).sum+leadingZeros cs=cs.length := by
  induction cs with
  | nil => rfl
  | cons c cs ih =>
    by_cases hc : c=0
    · have hlead : leadingZeros (c::cs)=leadingZeros cs+1 := by
        rw [leadingZeros,takeWhile_cons_of_pos (by simpa using hc),length_cons]
        rfl
      rw [runLevels,if_pos hc,hlead,length_cons]
      omega
    · have hlead : leadingZeros (c::cs)=0 := by
        rw [leadingZeros,takeWhile_cons_of_neg (by simpa using hc)]
        rfl
      have hrun : (cs.takeWhile (· = 0)).length=leadingZeros cs := rfl
      rw [runLevels,if_neg hc,hlead,hrun,length_cons,map_cons,sum_cons,
        length_cons]
      omega

theorem wf_blockOf {coeffs : List ℤ} {maxNumCoeff : ℕ} (h : coeffs.length=maxNumCoeff) :
    (blockOf coeffs).Wf maxNumCoeff := by
  have hroom := runLevels_room coeffs.reverse
  rw [length_reverse,h] at hroom
  refine ⟨?_,?_,?_,rfl⟩
  · intro l hl
    obtain ⟨p,hp,rfl⟩ := mem_map.mp hl
    exact runLevels_nonzero coeffs.reverse p hp
  · simp only [blockOf,length_map]
  · simp only [blockOf,Block.totalCoeff,length_map]
    omega

theorem coeff_blockOf {coeffs : List ℤ} (h : coeffs.length≤16) :
    (blockOf coeffs).coeff = coeffs ++ List.replicate (16-coeffs.length) 0 := by
  have hscan : (blockOf coeffs).scan =
      (runLevels coeffs.reverse).reverse.flatMap fun p => replicate p.2 0 ++ [p.1] := by
    have hzip : (blockOf coeffs).levels.zip (blockOf coeffs).runs=runLevels coeffs.reverse := by
      simp only [blockOf,zip_map',Prod.mk.eta,map_id']
    rw [Block.scan,hzip]
  have hbuild := runLevels_rebuild coeffs.reverse
  rw [← hscan,reverse_reverse] at hbuild
  have hlen := congrArg length hbuild
  rw [length_append,length_replicate] at hlen
  have hsplit : 16-(blockOf coeffs).scan.length =
      leadingZeros coeffs.reverse+(16-coeffs.length) := by omega
  rw [Block.coeff,hsplit,replicate_add,← append_assoc,hbuild]

end Misterplex.Cavlc
