import Mathlib.Data.List.Infix
import Misterplex.Lib.BitString

/-!
# Prefix codes given by a table of codewords

A code maps an index to a codeword, the empty codeword marking an unused
index. Reading a symbol means finding the codeword that starts the bits. In a
prefix-free code at most one does, so a decoder that tries growing lengths
reads the same symbol as one that tries the codewords in any order.
-/

namespace Misterplex.PrefixCode

open BitString List

/-- Codewords by index; the empty codeword marks an unused index. -/
abbrev Code := List (List Bool)

/-- A codeword in use starts the bits. -/
def starts (w bits : List Bool) : Bool := w != [] && w.isPrefixOf bits

/-- First symbol whose codeword starts the bits, with the bits behind it. -/
def symbol (T : Code) (bits : List Bool) : Option (ℕ × List Bool) :=
  (T.zipIdx.find? fun p => starts p.1 bits).map fun p => (p.2,bits.drop p.1.length)

/-- No codeword in use starts another one. -/
def PrefixFree (T : Code) : Prop :=
  ∀ p∈T.zipIdx, ∀ q∈T.zipIdx, starts p.1 q.1=true → p=q

instance (T : Code) : Decidable (PrefixFree T) :=
  inferInstanceAs (Decidable (∀ p∈T.zipIdx, ∀ q∈T.zipIdx, starts p.1 q.1=true → p=q))

theorem starts_iff (w bits : List Bool) : starts w bits=true ↔ w≠[] ∧ w <+: bits := by
  rw [starts,Bool.and_eq_true,bne_iff_ne,List.isPrefixOf_iff_prefix]

/-- A codeword in use starts itself followed by anything. -/
theorem starts_append {w : List Bool} (hw : w≠[]) (rest : List Bool) :
    starts w (w ++ rest)=true :=
  (starts_iff w (w ++ rest)).mpr ⟨hw,prefix_append w rest⟩

/-- At most one codeword of a prefix-free code starts given bits. -/
theorem PrefixFree.unique {T : Code} (hT : PrefixFree T) {p q : List Bool × ℕ}
    (hp : p∈T.zipIdx) (hq : q∈T.zipIdx) {bits : List Bool} (hps : starts p.1 bits=true)
    (hqs : starts q.1 bits=true) : p=q := by
  obtain ⟨hpne,hpre⟩ := (starts_iff _ _).mp hps
  obtain ⟨hqne,hqre⟩ := (starts_iff _ _).mp hqs
  cases le_total p.1.length q.1.length with
  | inl h =>
    have hpq := prefix_of_prefix_length_le hpre hqre h
    exact hT p hp q hq ((starts_iff _ _).mpr ⟨hpne,hpq⟩)
  | inr h =>
    have hqp := prefix_of_prefix_length_le hqre hpre h
    exact (hT q hq p hp ((starts_iff _ _).mpr ⟨hqne,hqp⟩)).symm

/-- A symbol is read exactly when the bits are its codeword and the rest. -/
theorem symbol_eq_some_iff {T : Code} (hT : PrefixFree T) (bits : List Bool) (i : ℕ)
    (rest : List Bool) :
    symbol T bits=some (i,rest) ↔ ∃ w, T[i]?=some w ∧ w≠[] ∧ bits = w ++ rest := by
  constructor
  · intro h
    obtain ⟨p,hp,heq⟩ := Option.map_eq_some_iff.mp h
    have hmem := mem_of_find?_eq_some hp
    have hstart := find?_some hp
    obtain ⟨hne,hpre⟩ := (starts_iff _ _).mp hstart
    obtain ⟨rfl,rfl⟩ := Prod.mk.inj heq
    refine ⟨p.1,mem_zipIdx_iff_getElem?.mp hmem,hne,?_⟩
    obtain ⟨tail,htail⟩ := hpre
    rw [← htail,drop_left]
  · rintro ⟨w,hw,hne,rfl⟩
    have hmem : (w,i)∈T.zipIdx := mem_zipIdx_iff_getElem?.mpr hw
    have hstart := starts_append hne rest
    cases hfind : T.zipIdx.find? (fun p => starts p.1 (w ++ rest)) with
    | none =>
      have hnone := find?_eq_none.mp hfind (w,i) hmem
      exact absurd hstart hnone
    | some p =>
      have hpstart : starts p.1 (w ++ rest)=true := by
        have hsome := find?_some hfind
        exact hsome
      have hp := hT.unique (mem_of_find?_eq_some hfind) hmem hpstart hstart
      rw [symbol,hfind,hp,Option.map_some,drop_left]

/-- No symbol is read from no bits. -/
theorem symbol_nil (T : Code) : symbol T []=none := by
  rw [symbol,Option.map_eq_none_iff,find?_eq_none]
  intro p _ hstart
  obtain ⟨hne,hpre⟩ := (starts_iff _ _).mp hstart
  exact hne (prefix_nil.mp hpre)

/-- A codeword in use is read back whatever follows it. -/
theorem symbol_append {T : Code} (hT : PrefixFree T) {i : ℕ} {w : List Bool}
    (hw : T[i]?=some w) (hne : w≠[]) (rest : List Bool) :
    symbol T (w ++ rest)=some (i,rest) :=
  (symbol_eq_some_iff hT _ i rest).mpr ⟨w,hw,hne,rfl⟩

/-- A lookup by length and value answers for exactly the codewords in use, none
longer than a bound. -/
structure Realizes (look : ℕ → ℕ → Option ℕ) (T : Code) (maxLen : ℕ) : Prop where
  /-- Every codeword in use is found under its length and value. -/
  complete : ∀ (i : ℕ) (w : List Bool), T[i]?=some w → w≠[] →
    w.length ≤ maxLen ∧ look w.length (value w)=some i
  /-- Whatever is found is the codeword of that length and value. -/
  sound : ∀ (w : List Bool) (i : ℕ), w≠[] → w.length ≤ maxLen →
    look w.length (value w)=some i → T[i]?=some w

variable {look : ℕ → ℕ → Option ℕ}

/-- A reader that answers only with codewords that start the bits, and that
answers whenever one does, reads the symbol. -/
theorem eq_symbol {T : Code} (hT : PrefixFree T) {maxLen : ℕ}
    (hlook : Realizes look T maxLen) {bits : List Bool} {r : Option (ℕ × List Bool)}
    (hsound : ∀ i rest, r=some (i,rest) →
      ∃ w, w≠[] ∧ w.length ≤ maxLen ∧ bits = w ++ rest ∧ look w.length (value w)=some i)
    (hcomplete : ∀ (i : ℕ) (w : List Bool), w≠[] → w.length ≤ maxLen → w <+: bits →
      look w.length (value w)=some i → r≠none) :
    r=symbol T bits := by
  cases r with
  | some p =>
    obtain ⟨w,hne,hlen,hbits,hw⟩ := hsound p.1 p.2 rfl
    have hword := hlook.sound w p.1 hne hlen hw
    exact ((symbol_eq_some_iff hT bits p.1 p.2).mpr ⟨w,hword,hne,hbits⟩).symm
  | none =>
    cases hs : symbol T bits with
    | none => rfl
    | some q =>
      obtain ⟨w,hw,hne,hbits⟩ := (symbol_eq_some_iff hT bits q.1 q.2).mp hs
      obtain ⟨hlen,hfound⟩ := hlook.complete q.1 w hw hne
      have hpre : w <+: bits := hbits ▸ prefix_append w q.2
      exact absurd rfl (hcomplete q.1 w hne hlen hpre hfound)

/-- The bit-serial search: read a bit, extend the value, look it up. -/
def scanFrom (look : ℕ → ℕ → Option ℕ) : ℕ → ℕ → ℕ → List Bool → Option (ℕ × List Bool)
  | 0,_,_,_ => none
  | _ + 1,_,_,[] => none
  | fuel+1,len,code,b::bs =>
    match look (len+1) (2*code+b.toNat) with
    | some i => some (i,bs)
    | none => scanFrom look fuel (len+1) (2*code+b.toNat) bs

theorem value_concat (pre : List Bool) (b : Bool) : value (pre ++ [b])=2*value pre+b.toNat := by
  rw [value_append,value_cons,value_nil,length_singleton,length_nil]
  omega

/-- What the bit-serial search finds after some bits is under the length and
value of those bits and the ones read since. -/
theorem scanFrom_sound (look : ℕ → ℕ → Option ℕ) (fuel : ℕ) (pre bits : List Bool) (i : ℕ)
    (rest : List Bool) (h : scanFrom look fuel pre.length (value pre) bits=some (i,rest)) :
    ∃ w, w≠[] ∧ w.length≤pre.length+fuel ∧ pre ++ bits = w ++ rest ∧
      look w.length (value w)=some i := by
  induction fuel generalizing pre bits with
  | zero => cases h
  | succ fuel ih =>
    cases bits with
    | nil => cases h
    | cons b bs =>
      have hlen : pre.length+1=(pre ++ [b]).length := by rw [length_append]; rfl
      have hval : 2*value pre+b.toNat=value (pre ++ [b]) := (value_concat pre b).symm
      have happ : pre ++ b::bs = (pre ++ [b]) ++ bs := by rw [append_assoc]; rfl
      rw [scanFrom,hlen,hval] at h
      rw [happ]
      cases hl : look (pre ++ [b]).length (value (pre ++ [b])) with
      | some j =>
        rw [hl] at h
        obtain ⟨rfl,rfl⟩ := Prod.mk.inj (Option.some.inj h)
        exact ⟨pre ++ [b],by simp,by omega,rfl,hl⟩
      | none =>
        rw [hl] at h
        obtain ⟨w,hne,hle,hrest⟩ := ih (pre ++ [b]) bs h
        exact ⟨w,hne,by omega,hrest⟩

/-- The bit-serial search finds something when a longer start of the bits is
under its length and value. -/
theorem scanFrom_complete (look : ℕ → ℕ → Option ℕ) (fuel : ℕ) (pre bits w : List Bool) (i : ℕ)
    (hpre : w <+: pre ++ bits) (hlt : pre.length<w.length) (hle : w.length≤pre.length+fuel)
    (hw : look w.length (value w)=some i) :
    scanFrom look fuel pre.length (value pre) bits≠none := by
  induction fuel generalizing pre bits with
  | zero => omega
  | succ fuel ih =>
    cases bits with
    | nil =>
      have hlen := hpre.length_le
      rw [append_nil] at hlen
      omega
    | cons b bs =>
      have hlen : pre.length+1=(pre ++ [b]).length := by rw [length_append]; rfl
      have hval : 2*value pre+b.toNat=value (pre ++ [b]) := (value_concat pre b).symm
      have happ : pre ++ b::bs = (pre ++ [b]) ++ bs := by rw [append_assoc]; rfl
      rw [happ] at hpre
      rw [scanFrom,hlen,hval]
      cases hl : look (pre ++ [b]).length (value (pre ++ [b])) with
      | some j => exact Option.some_ne_none _
      | none =>
        have hne : w.length≠(pre ++ [b]).length := by
          intro heq
          have hpre' := prefix_of_prefix_length_le hpre (prefix_append (pre ++ [b]) bs)
            heq.le
          have hw' : w = pre ++ [b] := hpre'.eq_of_length heq
          rw [hw',hl] at hw
          cases hw
        exact ih (pre ++ [b]) bs hpre (by omega) (by omega)

/-- The bit-serial search reads the symbol. -/
theorem scanFrom_eq_symbol {T : Code} (hT : PrefixFree T) {maxLen : ℕ}
    (hlook : Realizes look T maxLen) (bits : List Bool) :
    scanFrom look maxLen 0 0 bits=symbol T bits := by
  refine eq_symbol hT hlook ?_ ?_
  · intro i rest h
    have hfound := scanFrom_sound look maxLen [] bits i rest h
    rw [length_nil,Nat.zero_add] at hfound
    exact hfound
  · intro i w hne hlen hpre hw
    have hpos := length_pos_iff.mpr hne
    exact scanFrom_complete look maxLen [] bits w i hpre hpos (by omega) hw

/-- The parallel search: the shortest length whose leading bits are found. -/
def shortestFrom (look : ℕ → ℕ → Option ℕ) (maxLen : ℕ) (bits : List Bool) :
    Option (ℕ × List Bool) :=
  (List.range' 1 maxLen).findSome? fun len =>
    if len ≤ bits.length then
      (look len (value (bits.take len))).map fun i => (i,bits.drop len)
    else none

/-- Parallel searches agree when wherever their lookups differ an earlier length
was found by both. -/
theorem shortestFrom_congr {look look' : ℕ → ℕ → Option ℕ} (maxLen : ℕ) (bits : List Bool)
    (h : ∀ len, 1≤len → len ≤ maxLen → len≤bits.length →
      look len (value (bits.take len))=look' len (value (bits.take len)) ∨
      ∃ m, 1 ≤ m ∧ m<len ∧ look m (value (bits.take m))≠none ∧
        look' m (value (bits.take m))≠none) :
    shortestFrom look maxLen bits=shortestFrom look' maxLen bits := by
  have hrange : ∀ n ≤ maxLen, shortestFrom look n bits=shortestFrom look' n bits := by
    intro n
    induction n with
    | zero => intro _; rfl
    | succ n ih =>
      intro hn
      have hprev := ih (by omega)
      have hsplit : ∀ f : ℕ → ℕ → Option ℕ, shortestFrom f (n+1) bits =
          (shortestFrom f n bits).or (if n+1 ≤ bits.length then
            (f (n+1) (value (bits.take (n+1)))).map fun i => (i,bits.drop (n+1))
            else none) := by
        intro f
        rw [shortestFrom,range'_1_concat,findSome?_append,shortestFrom,
          findSome?_singleton,Nat.add_comm 1 n]
      rw [hsplit,hsplit,hprev]
      by_cases hlen : n+1≤bits.length
      · cases h (n+1) (by omega) hn hlen with
        | inl heq => rw [heq]
        | inr hearlier =>
          obtain ⟨m,hpos,hlt,_,hfound⟩ := hearlier
          have hsome : shortestFrom look' n bits≠none := by
            intro hnone
            have hmem : m∈range' 1 n := mem_range'_1.mpr ⟨hpos,by omega⟩
            have hmiss := findSome?_eq_none_iff.mp hnone m hmem
            rw [if_pos (by omega),Option.map_eq_none_iff] at hmiss
            exact hfound hmiss
          obtain ⟨r,hr⟩ := Option.ne_none_iff_exists'.mp hsome
          rw [hr,Option.some_or,Option.some_or]
      · rw [if_neg hlen,if_neg hlen]
  exact hrange maxLen le_rfl

/-- The parallel search reads the symbol. -/
theorem shortestFrom_eq_symbol {T : Code} (hT : PrefixFree T)
    {maxLen : ℕ} (hlook : Realizes look T maxLen) (bits : List Bool) :
    shortestFrom look maxLen bits=symbol T bits := by
  refine eq_symbol hT hlook ?_ ?_
  · intro i rest h
    obtain ⟨len,hmem,hhit⟩ := exists_of_findSome?_eq_some h
    obtain ⟨hpos,hmax⟩ := mem_range'_1.mp hmem
    by_cases hle : len≤bits.length
    · rw [if_pos hle] at hhit
      obtain ⟨j,hj,heq⟩ := Option.map_eq_some_iff.mp hhit
      obtain ⟨rfl,rfl⟩ := Prod.mk.inj heq
      have hlen : (bits.take len).length=len := length_take_of_le hle
      refine ⟨bits.take len,?_,by omega,(take_append_drop len bits).symm,by rw [hlen,hj]⟩
      exact ne_nil_of_length_pos (by omega)
    · rw [if_neg hle] at hhit
      cases hhit
  · intro i w hne hlen hpre hw hnone
    have hpos := length_pos_iff.mpr hne
    have hmem : w.length∈range' 1 maxLen := mem_range'_1.mpr ⟨hpos,by omega⟩
    have hmiss := findSome?_eq_none_iff.mp hnone w.length hmem
    rw [if_pos hpre.length_le,← prefix_iff_eq_take.mp hpre,hw] at hmiss
    cases hmiss

/-- The value of the first item with a key. -/
def caseOf (items : List (ℕ × ℕ)) (key : ℕ) : Option ℕ :=
  (items.find? fun item => item.1 == key).map Prod.snd

/-- The items of one table in a case statement over keys that hold a table
number, a length of some bits and a word of some bits are the code. -/
def CaseHolds (items : List (ℕ × ℕ)) (lenBits wordBits table maxLen : ℕ) (T : Code) : Prop :=
  (∀ p∈T.zipIdx, p.1≠[] → p.1.length ≤ maxLen ∧
    caseOf items ((table*2^lenBits+p.1.length)*2^wordBits+value p.1)=some p.2) ∧
  ∀ item∈items, item.1/2^wordBits/2^lenBits=table →
    T[item.2]?=some (ofNat (item.1/2^wordBits%2^lenBits) (item.1%2^wordBits))

instance (items : List (ℕ × ℕ)) (lenBits wordBits table maxLen : ℕ) (T : Code) :
    Decidable (CaseHolds items lenBits wordBits table maxLen T) :=
  inferInstanceAs (Decidable (_ ∧ _))

/-- A packed key is taken apart into its table, length and word. -/
theorem packed_parts (lenBits wordBits table : ℕ) {len word : ℕ} (hlen : len<2^lenBits)
    (hword : word<2^wordBits) :
    ((table*2^lenBits+len)*2^wordBits+word)/2^wordBits/2^lenBits=table ∧
    ((table*2^lenBits+len)*2^wordBits+word)/2^wordBits%2^lenBits=len ∧
    ((table*2^lenBits+len)*2^wordBits+word)%2^wordBits=word := by
  have hhigh : ((table*2^lenBits+len)*2^wordBits+word)/2^wordBits =
      table*2^lenBits+len := by
    rw [Nat.mul_comm,Nat.mul_add_div (Nat.two_pow_pos wordBits),Nat.div_eq_of_lt hword,
      Nat.add_zero]
  rw [hhigh,Nat.mul_comm table,Nat.mul_add_div (Nat.two_pow_pos lenBits),Nat.mul_add_mod,
    Nat.div_eq_of_lt hlen,Nat.mod_eq_of_lt hlen,Nat.mul_comm _ (2^wordBits),Nat.mul_add_mod,
    Nat.mod_eq_of_lt hword]
  exact ⟨Nat.add_zero table,rfl,rfl⟩

/-- A case statement that holds a code realizes it. -/
theorem realizes_caseOf {items : List (ℕ × ℕ)} {lenBits wordBits table maxLen : ℕ} {T : Code}
    (h : CaseHolds items lenBits wordBits table maxLen T) (hlen : maxLen<2^lenBits)
    (hword : maxLen≤wordBits) :
    Realizes (fun len word => caseOf items ((table*2^lenBits+len)*2^wordBits+word)) T
      maxLen := by
  constructor
  · intro i w hw hne
    exact h.1 (w,i) (mem_zipIdx_iff_getElem?.mpr hw) hne
  · intro w i _ hle hfound
    obtain ⟨item,hitem,rfl⟩ := Option.map_eq_some_iff.mp hfound
    have hmem := mem_of_find?_eq_some hitem
    have hkey := find?_some hitem
    rw [beq_iff_eq] at hkey
    have hval : value w<2^wordBits :=
      lt_of_lt_of_le (value_lt w) (Nat.pow_le_pow_right (by omega) (by omega))
    have hlt : w.length<2^lenBits := by omega
    obtain ⟨htable,hlength,hvalue⟩ := packed_parts lenBits wordBits table hlt hval
    rw [← hkey] at htable hlength hvalue
    rw [h.2 item hmem htable,hlength,hvalue,ofNat_of_mod (Nat.mod_eq_of_lt (value_lt w))]

end Misterplex.PrefixCode
