import Misterplex.Cavlc.BlockCode
import Misterplex.Cavlc.ResidualBlock

/-!
# The host decoder reads symbols

A function of the host decoder is compared with the reading of the syntax
element it decodes: where the reading succeeds the host returns the same value
and stands behind the element, where the bits are no code it fails or its
reader has run out of bits. Here this is shown for the table search and the
elements it reads.
-/

namespace Misterplex.Cavlc.Host

open BitString PrefixCode List

/-- A decoder's answer agrees with a reading that starts at the same bits. A
reading that ends at a long level prefix makes no demand. -/
def Agrees {α : Type} (d : List Emulation.Byte) (reading : Except Stop (α × List Bool))
    (answer : Option α × BitReader) : Prop :=
  match reading with
  | .ok (a,rest) => answer.1=some a ∧ BitReader.At d rest answer.2
  | .error .invalid => answer.1=none ∨ answer.2.ok=false
  | .error .longPrefix => True

section Rules

variable {α β : Type} {d : List Emulation.Byte} {answer : Option α × BitReader}

/-- Readings in sequence: the rest is compared where the first one succeeds,
and a failure must stay one. -/
theorem Agrees.bind {reading : Except Stop (α × List Bool)}
    {f : α × List Bool → Except Stop (β × List Bool)} {answer' : Option β × BitReader}
    (h : Agrees d reading answer)
    (hok : ∀ a rest, reading = .ok (a,rest) → answer.1=some a →
      BitReader.At d rest answer.2 → Agrees d (f (a,rest)) answer')
    (hfail : answer.1=none ∨ answer.2.ok=false → answer'.1=none ∨ answer'.2.ok=false) :
    Agrees d (reading >>= f) answer' := by
  cases hr : reading with
  | error e =>
    rw [hr] at h
    cases e with
    | invalid => exact hfail h
    | longPrefix => trivial
  | ok p =>
    rw [hr] at h
    exact hok p.1 p.2 hr h.1 h.2

end Rules

variable {d : List Emulation.Byte} {br : BitReader} {left : List Bool}

theorem u_agrees {n : ℕ} (hn : n≤32) (hat : BitReader.At d left br) :
    Agrees d (readField n left) (some (br.u n).1,(br.u n).2) := by
  unfold readField
  by_cases hle : n≤left.length
  · have hlen : (left.take n).length=n := length_take_of_le hle
    have hsplit : BitReader.At d (left.take n ++ left.drop n) br := by
      rw [take_append_drop]
      exact hat
    have hread := BitReader.At.u (left.take n) hsplit (by omega)
    rw [hlen] at hread
    rw [if_pos hle]
    exact ⟨congrArg some hread.1,hread.2⟩
  · rw [if_neg hle]
    exact Or.inr (hat.u_short (by omega))

theorem readField_lt {n v : ℕ} {left rest : List Bool} (h : readField n left = .ok (v,rest)) :
    v<2^n := by
  unfold readField at h
  by_cases hle : n≤left.length
  · rw [if_pos hle] at h
    obtain ⟨rfl,rfl⟩ := Prod.mk.inj (Except.ok.inj h)
    have hlt := value_lt (left.take n)
    rw [length_take_of_le hle] at hlt
    exact hlt
  · rw [if_neg hle] at h
    cases h

variable (lens bits : List ℕ)

/-- A host table row of lengths and values holds the codewords of literals. -/
def rowHolds (n : ℕ) (literals : List ℕ) : Bool :=
  literals.length ≤ n && (List.range n).all fun i =>
    if literals.getD i 0 ≤ 1 then lens.getD i 0 == 0
    else 1 ≤ lens.getD i 0 && lens.getD i 0 ≤ 16 &&
      literals.getD i 0 == 2^lens.getD i 0+bits.getD i 0 &&
      bits.getD i 0 < 2^lens.getD i 0

/-- The two checks of a row that make its search realize a code. -/
def rowGood (n : ℕ) (literals : List ℕ) : Bool :=
  rowHolds lens bits n literals && literalsPrefixFree literals

theorem literalStarts_self {c : ℕ} (h : 1<c) : literalStarts c c=true := by
  rw [literalStarts,Nat.sub_self,Nat.shiftRight_zero,beq_self_eq_true,Bool.and_true,
    decide_eq_true h]

variable {literals : List ℕ}

theorem literal_unique (h : literalsPrefixFree literals=true) {i j c : ℕ}
    (hc : 1<c) (hi : literals[i]?=some c) (hj : literals[j]?=some c) : i=j := by
  have hpair := all_eq_true.mp
    (all_eq_true.mp h (c,i) (mem_zipIdx_iff_getElem?.mpr hi)) (c,j)
    (mem_zipIdx_iff_getElem?.mpr hj)
  rw [literalStarts_self hc,Bool.not_true,Bool.false_or,beq_iff_eq] at hpair
  exact congrArg Prod.snd hpair

theorem realizes_lookup {lens bits : List ℕ} {n : ℕ} (h : rowGood lens bits n literals=true) :
    Realizes (lookup lens bits n) (codewords literals) 16 := by
  obtain ⟨hrow,hfree⟩ := Bool.and_eq_true_iff.mp h
  obtain ⟨hlen,hall⟩ := Bool.and_eq_true_iff.mp hrow
  have hlen := of_decide_eq_true hlen
  have hentry : ∀ i<n, 1<literals.getD i 0 → lens.getD i 0≤16 ∧
      literals.getD i 0=2^lens.getD i 0+bits.getD i 0 ∧
      bits.getD i 0<2^lens.getD i 0 := by
    intro i hi hc
    have hcheck := all_eq_true.mp hall i (mem_range.mpr hi)
    rw [if_neg (by omega)] at hcheck
    simp only [Bool.and_eq_true,decide_eq_true_eq,beq_iff_eq] at hcheck
    exact ⟨hcheck.1.1.2,hcheck.1.2,hcheck.2⟩
  have hfound : ∀ {w : List Bool} {j : ℕ}, w≠[] →
      lookup lens bits n w.length (value w)=some j →
      literals[j]?=some (2^w.length+value w) := by
    intro w j hne hj
    have hpos := length_pos_iff.mpr hne
    have hmem := mem_range.mp (mem_of_find?_eq_some hj)
    have hhit := find?_some hj
    simp only [Bool.and_eq_true,beq_iff_eq] at hhit
    have hc : 1<literals.getD j 0 := by
      by_contra hsmall
      have hcheck := all_eq_true.mp hall j (mem_range.mpr hmem)
      rw [if_pos (by omega),beq_iff_eq] at hcheck
      omega
    have hlit := (hentry j hmem hc).2.1
    rw [hhit.1,hhit.2] at hlit
    rw [← hlit]
    cases hget : literals[j]? with
    | none =>
      rw [getD_eq_getElem?_getD,hget] at hc
      exact absurd hc (by simp)
    | some c => rw [getD_eq_getElem?_getD,hget,Option.getD_some]
  constructor
  · intro i w hw hne
    rw [codewords,List.getElem?_map] at hw
    obtain ⟨c,hc,hword⟩ := Option.map_eq_some_iff.mp hw
    have hget : literals.getD i 0=c := by rw [getD_eq_getElem?_getD,hc,Option.getD_some]
    have hin : i<n := by
      have hi := (List.getElem?_eq_some_iff.mp hc).1
      omega
    have hbig : 1<c := by
      by_contra hsmall
      have hempty : codeword c=[] := by
        rcases (show c=0 ∨ c=1 by omega) with rfl | rfl <;> rfl
      exact hne (hword ▸ hempty)
    obtain ⟨h16,hsum,hlt⟩ := hentry i hin (by omega)
    have hlog : c.log2=lens.getD i 0 := by
      refine (Nat.log2_eq_iff (by omega)).mpr ⟨by omega,?_⟩
      omega
    have hwlen : w.length=lens.getD i 0 := by rw [← hword,codeword,length_ofNat,hlog]
    have hwval : value w=bits.getD i 0 := by
      have hval := value_codeword (show c≠0 by omega)
      rw [hword,hlog] at hval
      omega
    refine ⟨by omega,?_⟩
    have hhit : (lens.getD i 0 == w.length && bits.getD i 0 == value w)=true := by
      rw [hwlen,hwval,beq_self_eq_true,beq_self_eq_true]
      rfl
    cases hj : lookup lens bits n w.length (value w) with
    | none =>
      have hmiss := find?_eq_none.mp hj i (mem_range.mpr hin)
      exact absurd hhit hmiss
    | some j =>
      have hlit := hfound hne hj
      have hsame : 2^w.length+value w=c := by rw [hwlen,hwval,← hget,hsum]
      rw [hsame] at hlit
      rw [literal_unique hfree hbig hlit hc]
  · intro w i hne _ hw
    rw [codewords,List.getElem?_map,hfound hne hw,Option.map_some,codeword_of_value rfl]

theorem matchFrom_agrees (n : ℕ) (fuel : ℕ) (len code : ℕ) (hat : BitReader.At d left br) :
    match scanFrom (lookup lens bits n) fuel len code left with
    | some (i,rest) => (matchFrom lens bits n fuel len code br).1=some i ∧
        BitReader.At d rest (matchFrom lens bits n fuel len code br).2
    | none => (matchFrom lens bits n fuel len code br).1=none ∨
        (matchFrom lens bits n fuel len code br).2.ok=false := by
  induction fuel generalizing len code left br with
  | zero => exact Or.inl rfl
  | succ fuel ih =>
    rw [matchFrom,if_pos hat.healthy]
    cases left with
    | nil =>
      have hfail := BitReader.At.u_short hat (show [].length<1 by decide)
      dsimp only
      cases lookup lens bits n (len+1) (2*code+(br.u 1).1) with
      | some i => exact Or.inr hfail
      | none =>
        cases fuel with
        | zero => exact Or.inl rfl
        | succ fuel =>
          rw [matchFrom,if_neg (by simp [hfail])]
          exact Or.inl rfl
    | cons b left =>
      obtain ⟨hval,hnext⟩ := hat.u_one
      rw [scanFrom]
      dsimp only
      rw [hval]
      cases lookup lens bits n (len+1) (2*code+b.toNat) with
      | some i => exact ⟨rfl,hnext⟩
      | none => exact ih (len+1) (2*code+b.toNat) hnext

theorem matchMap_agrees {lens bits : List ℕ} {n : ℕ}
    (h : rowGood lens bits n literals=true) (hat : BitReader.At d left br) :
    Agrees d (readSymbol (codewords literals) left) (matchMap br lens bits n) := by
  have hfree := prefixFree_codewords (Bool.and_eq_true_iff.mp h).2
  have hscan := scanFrom_eq_symbol hfree (realizes_lookup h) left
  have hmatch := matchFrom_agrees lens bits n 16 0 0 hat
  rw [hscan] at hmatch
  rw [matchMap,readSymbol]
  cases hs : symbol (codewords literals) left with
  | none =>
    rw [hs] at hmatch
    exact hmatch
  | some r =>
    rw [hs] at hmatch
    exact hmatch

theorem matchMap_failed (h : br.ok=false) (lens bits : List ℕ) (n : ℕ) :
    matchMap br lens bits n=(none,br) := by
  rw [matchMap,matchFrom,if_neg (by simp [h])]

/-- The coeff_token table of a value of nC. -/
def tokenTable (nC : ℤ) : TokenTable :=
  if nC = -1 then .chromaDc
  else if nC < 2 then .nc0
  else if nC < 4 then .nc2
  else if nC < 8 then .nc4
  else .nc8

theorem rowGood_token (tab : Fin 4) :
    rowGood (coeffTokenLen.getD tab []) (coeffTokenBits.getD tab []) (4*17)
      ([coeffToken0,coeffToken2,coeffToken4,coeffToken8].getD tab []) = true := by
  revert tab
  decide

theorem token_agrees (nC : ℤ) (hat : BitReader.At d left br) :
    Agrees d (readSymbol (tokenTable nC).code left) (token br nC) := by
  unfold token tokenTable
  by_cases hdc : nC = -1
  · rw [if_pos hdc,if_pos hdc]
    exact matchMap_agrees (by decide) hat
  · rw [if_neg hdc,if_neg hdc]
    by_cases h2 : nC<2
    · rw [if_pos h2,if_pos h2]
      exact matchMap_agrees (rowGood_token 0) hat
    · rw [if_neg h2,if_neg h2]
      by_cases h4 : nC<4
      · rw [if_pos h4,if_pos h4]
        exact matchMap_agrees (rowGood_token 1) hat
      · rw [if_neg h4,if_neg h4]
        by_cases h8 : nC<8
        · rw [if_pos h8,if_pos h8]
          exact matchMap_agrees (rowGood_token 2) hat
        · rw [if_neg h8,if_neg h8]
          exact matchMap_agrees (rowGood_token 3) hat

theorem rowGood_totalZeros :
    ∀ tc<16, 0<tc → rowGood (totalZerosLen.getD (tc-1) []) (totalZerosBits.getD (tc-1) [])
      (16-tc+1) (totalZerosRows.getD (tc-1) [])=true := by
  decide

theorem rowGood_chromaTz :
    ∀ tc<4, 0<tc → rowGood (chromaTzLen.getD (tc-1) []) (chromaTzBits.getD (tc-1) []) 4
      (totalZerosChromaRows.getD (tc-1) [])=true := by
  decide

theorem totalZeros_agrees {maxNumCoeff tc : ℕ} (htc : 0<tc) (hmax : maxNumCoeff≤16)
    (hat : BitReader.At d left br) :
    Agrees d (readTotalZeros maxNumCoeff tc left) (totalZeros br maxNumCoeff tc) := by
  unfold readTotalZeros totalZeros totalZerosCode totalZerosLiterals
  by_cases hlt : tc < maxNumCoeff
  · rw [if_pos hlt,if_pos hlt]
    by_cases h4 : maxNumCoeff=4
    · rw [if_pos h4,if_pos h4]
      exact matchMap_agrees (rowGood_chromaTz tc (by omega) htc) hat
    · rw [if_neg h4,if_neg h4]
      exact matchMap_agrees (rowGood_totalZeros tc (by omega) htc) hat
  · rw [if_neg hlt,if_neg hlt]
    exact ⟨rfl,hat⟩

theorem totalZeros_failed (h : br.ok=false) (maxNumCoeff tc : ℕ) :
    (totalZeros br maxNumCoeff tc).2.ok=false := by
  unfold totalZeros
  split_ifs
  · rw [matchMap_failed h]
    exact h
  · rw [matchMap_failed h]
    exact h
  · exact h

end Misterplex.Cavlc.Host
