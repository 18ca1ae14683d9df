import Misterplex.Intra.DecodingOrder

/-!
# Prediction modes of 4x4 blocks

The host keeps the modes of a picture in an array that starts with -1 everywhere. Blocks of
I_NxN macroblocks and of I_16x16 macroblocks write it, an I_PCM macroblock does not, and -1
is read as a neighbour that is not there. By the standard an I_PCM neighbour is there and
counts as DC. The modes differ just where such a neighbour stands beside one of mode 0 or 1
and the coded rest of the mode does not hide it.
-/

namespace Misterplex.Intra.PredModes

open PicSize

/-- A macroblock of an I slice: an I_NxN macroblock has for each block in decoding order the
rest of its mode, or none where the predicted mode is used. -/
inductive Macroblock
  /-- mb_type 0. -/
  | nxn (rem : ℕ → Option (BitVec 3))
  /-- mb_type 1 to 24. -/
  | whole
  /-- mb_type 25. -/
  | pcm

/-- Place of a block in an array of modes. -/
def cell (mb lx ly : ℕ) : ℕ := mb*16+ly*4+lx

/-- The array behind the first blocks of a macroblock, each written with a mode that may
depend on the array before it. -/
def fillBlocks {α : Type} (mb : ℕ) (mode : (ℕ → α) → ℕ → α) (a : ℕ → α) : ℕ → ℕ → α
  | 0 => a
  | k+1 => Function.update (fillBlocks mb mode a k) (cell mb (blkX k) (blkY k))
      (mode (fillBlocks mb mode a k) k)

section Host

variable (mbW mbH : ℕ)

/-- The stored mode of a block, -1 outside the picture. -/
def modeAt (i4mode : ℕ → ℤ) (mbx mby : ℤ) (lx ly : ℕ) : ℤ :=
  if mbx < 0 ∨ mby<0 ∨ mbW ≤ mbx ∨ mbH ≤ mby then -1
  else i4mode (((mby*mbW+mbx)*16).toNat+ly*4+lx)

/-- The mode of a block from its predicted mode. -/
def modeOf (pred : ℤ) : Option (BitVec 3) → ℤ
  | none => pred
  | some rem => rem.toNat+if pred ≤ rem.toNat then 1 else 0

/-- The predicted mode of a block of an I_NxN macroblock. -/
def predicted (i4mode : ℕ → ℤ) (mb blk : ℕ) : ℤ :=
  let mbx : ℤ := (mb%mbW : ℕ)
  let mby : ℤ := (mb/mbW : ℕ)
  let lx := blkX blk
  let ly := blkY blk
  let modeA := if 0 < lx then modeAt mbW mbH i4mode mbx mby (lx-1) ly
    else modeAt mbW mbH i4mode (mbx-1) mby 3 ly
  let modeB := if 0 < ly then modeAt mbW mbH i4mode mbx mby lx (ly-1)
    else modeAt mbW mbH i4mode mbx (mby-1) lx 3
  if modeA < 0 ∨ modeB < 0 then 2 else min modeA modeB

/-- The mode that a block of an I_NxN macroblock gets. -/
def nxnMode (mb : ℕ) (rem : ℕ → Option (BitVec 3)) (i4mode : ℕ → ℤ) (blk : ℕ) : ℤ :=
  modeOf (predicted mbW mbH i4mode mb blk) (rem blk)

/-- The stored modes after one macroblock. -/
def afterMb (mb : ℕ) (i4mode : ℕ → ℤ) : Macroblock → ℕ → ℤ
  | .nxn rem => fillBlocks mb (nxnMode mbW mbH mb rem) i4mode 16
  | .whole => fillBlocks mb (fun _ _ => 2) i4mode 16
  | .pcm => i4mode

/-- i4mode before a macroblock of a slice. -/
def i4modeBefore (mbs : List Macroblock) : ℕ → ℕ → ℤ
  | 0 => fun _ => -1
  | n+1 => (mbs[n]?.map (afterMb mbW mbH n (i4modeBefore mbs n))).getD (i4modeBefore mbs n)

/-- predModes of an I_NxN macroblock. -/
def predModes (mbs : List Macroblock) (n : ℕ) (rem : ℕ → Option (BitVec 3)) (blk : ℕ) : ℤ :=
  nxnMode mbW mbH n rem
    (fillBlocks n (nxnMode mbW mbH n rem) (i4modeBefore mbW mbH mbs n) blk) blk

end Host

/-- What a neighbouring block is to the block beside it. -/
inductive Side
  | absent
  | pcm
  /-- It has a mode; in I_16x16 that is DC. -/
  | mode (m : ℕ)
  deriving DecidableEq, Repr

/-- intraMxMPredModeN of a neighbour that is available. -/
def Side.intraMxMPredMode : Side → Option ℕ
  | .absent => none
  | .pcm => some 2
  | .mode m => some m

/-- predIntra4x4PredMode by 8.3.1.1. -/
def predIntra4x4PredMode (a b : Side) : ℕ :=
  match a.intraMxMPredMode,b.intraMxMPredMode with
  | some a,some b => min a b
  | _,_ => 2

/-- Intra4x4PredMode by 8.3.1.1. -/
def intra4x4PredMode (pred : ℕ) : Option (BitVec 3) → ℕ
  | none => pred
  | some rem => if rem.toNat < pred then rem.toNat else rem.toNat+1

section Standard

variable (mbW : ℕ) (mbs : List Macroblock)

/-- Macroblock, column and row of the block to the left. -/
def blockA (mb lx ly : ℕ) : Option (ℕ × ℕ × ℕ) :=
  if 0 < lx then some (mb,lx-1,ly)
  else if 0 < mb%mbW then some (mb-1,3,ly)
  else none

/-- Macroblock, column and row of the block above. -/
def blockB (mb lx ly : ℕ) : Option (ℕ × ℕ × ℕ) :=
  if 0 < ly then some (mb,lx,ly-1)
  else if 0 < mb/mbW then some (mb-mbW,lx,3)
  else none

/-- What a neighbouring block is, from the modes that are known. -/
def sideOf (modes : ℕ → ℕ) : Option (ℕ × ℕ × ℕ) → Side
  | none => .absent
  | some (mb,lx,ly) =>
    match mbs[mb]? with
    | some (.nxn _) => .mode (modes (cell mb lx ly))
    | some .pcm => .pcm
    | _ => .mode 2

/-- The neighbours of a block to the left and above. -/
def sides (modes : ℕ → ℕ) (mb blk : ℕ) : Side × Side :=
  (sideOf mbs modes (blockA mbW mb (blkX blk) (blkY blk)),
    sideOf mbs modes (blockB mbW mb (blkX blk) (blkY blk)))

/-- The mode that the standard gives a block of an I_NxN macroblock. -/
def standardMode (mb : ℕ) (rem : ℕ → Option (BitVec 3)) (modes : ℕ → ℕ) (blk : ℕ) : ℕ :=
  intra4x4PredMode (predIntra4x4PredMode (sides mbW mbs modes mb blk).1
    (sides mbW mbs modes mb blk).2) (rem blk)

/-- The modes of the standard before a macroblock. -/
def modesBefore : ℕ → ℕ → ℕ
  | 0 => fun _ => 0
  | n+1 =>
    match mbs[n]? with
    | some (.nxn rem) => fillBlocks n (standardMode mbW mbs n rem) (modesBefore n) 16
    | _ => modesBefore n

/-- The modes of the standard before a block of an I_NxN macroblock. -/
def modesAt (n : ℕ) (rem : ℕ → Option (BitVec 3)) (blk : ℕ) : ℕ → ℕ :=
  fillBlocks n (standardMode mbW mbs n rem) (modesBefore mbW mbs n) blk

end Standard

/-- Whether the rest of a mode tells a predicted mode of 0 or 1 from DC. -/
def Tells (m : ℕ) : Option (BitVec 3) → Prop
  | none => m<2
  | some rem => m≤rem.toNat ∧ rem.toNat<2

/-- Beside an I_PCM neighbour is one whose mode shows. -/
def Slips : Side × Side → Option (BitVec 3) → Prop
  | (.pcm,.mode m),rem => Tells m rem
  | (.mode m,.pcm),rem => Tells m rem
  | _,_ => False

instance (m : ℕ) : (rem : Option (BitVec 3)) → Decidable (Tells m rem)
  | none => inferInstanceAs (Decidable (m<2))
  | some rem => inferInstanceAs (Decidable (m≤rem.toNat ∧ rem.toNat<2))

instance (rem : Option (BitVec 3)) : (s : Side × Side) → Decidable (Slips s rem)
  | (.pcm,.mode m) => inferInstanceAs (Decidable (Tells m rem))
  | (.mode m,.pcm) => inferInstanceAs (Decidable (Tells m rem))
  | (.absent,_) | (.pcm,.absent) | (.pcm,.pcm) | (.mode _,.absent) | (.mode _,.mode _) =>
    inferInstanceAs (Decidable False)

/-- The modes of a macroblock are those of the standard. -/
def Right (mbW mbH : ℕ) (mbs : List Macroblock) (n : ℕ) : Prop :=
  ∀ rem, mbs[n]?=some (.nxn rem) → ∀ blk<16,
    predModes mbW mbH mbs n rem blk =
      (standardMode mbW mbs n rem (modesAt mbW mbs n rem blk) blk : ℤ)

/-- No block of a macroblock has an I_PCM neighbour beside one whose mode shows. -/
def Spared (mbW : ℕ) (mbs : List Macroblock) (n : ℕ) : Prop :=
  ∀ rem, mbs[n]?=some (.nxn rem) → ∀ blk<16,
    ¬Slips (sides mbW mbs (modesAt mbW mbs n rem blk) n blk) (rem blk)

/-- What i4mode holds for a neighbour. -/
def Side.stored : Side → ℤ
  | .mode m => m
  | _ => -1

/-- Modes that are derived from a predicted mode p and from DC differ where the rest tells. -/
theorem intra4x4PredMode_two_iff (p : ℕ) (rem : Option (BitVec 3)) :
    intra4x4PredMode 2 rem=intra4x4PredMode (min p 2) rem ↔ ¬Tells p rem := by
  cases rem with
  | none =>
    unfold intra4x4PredMode Tells
    dsimp only
    omega
  | some rem =>
    unfold intra4x4PredMode Tells
    dsimp only
    split_ifs <;> omega

theorem modeOf_eq (p : ℕ) (rem : Option (BitVec 3)) :
    modeOf p rem=(intra4x4PredMode p rem : ℤ) := by
  cases rem with
  | none => rfl
  | some rem =>
    unfold modeOf intra4x4PredMode
    dsimp only
    split_ifs <;> omega

theorem predicted_stored (a b : Side) :
    (if a.stored < 0 ∨ b.stored < 0 then 2 else min a.stored b.stored) =
      ((match a,b with
        | .mode m,.mode m' => min m m'
        | _,_ => 2 : ℕ) : ℤ) := by
  cases a with
  | absent => exact if_pos (Or.inl (by decide))
  | pcm => exact if_pos (Or.inl (by decide))
  | mode m =>
    cases b with
    | absent => exact if_pos (Or.inr (by decide))
    | pcm => exact if_pos (Or.inr (by decide))
    | mode m' =>
      have hnot : ¬((m : ℤ)<0 ∨ (m' : ℤ)<0) := by omega
      have hmin : min (m : ℤ) m'=((min m m' : ℕ) : ℤ) := by omega
      exact (if_neg hnot).trans hmin

theorem modeOf_eq_iff (a b : Side) (rem : Option (BitVec 3)) :
    modeOf (if a.stored < 0 ∨ b.stored < 0 then 2 else min a.stored b.stored) rem =
      (intra4x4PredMode (predIntra4x4PredMode a b) rem : ℤ) ↔ ¬Slips (a,b) rem := by
  rw [predicted_stored,modeOf_eq,Nat.cast_inj]
  cases a with
  | absent => exact iff_of_true rfl id
  | pcm =>
    cases b with
    | absent => exact iff_of_true rfl id
    | pcm => exact iff_of_true rfl id
    | mode m =>
      have hpred : predIntra4x4PredMode .pcm (.mode m)=min m 2 := Nat.min_comm 2 m
      rw [hpred]
      exact intra4x4PredMode_two_iff m rem
  | mode m =>
    cases b with
    | absent => exact iff_of_true rfl id
    | pcm => exact intra4x4PredMode_two_iff m rem
    | mode m' => exact iff_of_true rfl id

variable {α : Type} {mb n k : ℕ}

theorem cell_inj {mb mb' lx ly lx' ly' : ℕ} (hx : lx<4) (hy : ly<4) (hx' : lx'<4)
    (hy' : ly'<4) (h : cell mb lx ly=cell mb' lx' ly') : mb=mb' ∧ lx=lx' ∧ ly=ly' := by
  unfold cell at h
  omega

theorem fillBlocks_other {mode : (ℕ → α) → ℕ → α} {a : ℕ → α} {mb' lx ly : ℕ} (hne : mb'≠mb)
    (hx : lx<4) (hy : ly<4) (hk : k≤16) :
    fillBlocks mb mode a k (cell mb' lx ly)=a (cell mb' lx ly) := by
  induction k with
  | zero => rfl
  | succ k ih =>
    have hblk := blk_bounds (k := k) (by omega)
    rw [fillBlocks,Function.update_of_ne,ih (by omega)]
    intro heq
    exact hne (cell_inj hx hy hblk.1 hblk.2 heq).1

theorem fillBlocks_of_lt {mode : (ℕ → α) → ℕ → α} {a : ℕ → α} {j : ℕ} (hj : j<k) (hk : k≤16) :
    fillBlocks mb mode a k (cell mb (blkX j) (blkY j))=mode (fillBlocks mb mode a j) j := by
  induction k with
  | zero => omega
  | succ k ih =>
    rw [fillBlocks]
    by_cases hlast : j=k
    · rw [hlast,Function.update_self]
    · have hbj := blk_bounds (k := j) (by omega)
      have hbk := blk_bounds (k := k) (by omega)
      rw [Function.update_of_ne,ih (by omega) (by omega)]
      intro heq
      obtain ⟨_,hx,hy⟩ := cell_inj hbj.1 hbj.2 hbk.1 hbk.2 heq
      have hord := (blkOrd_eq_iff hbj.1 (k := k)).mpr ⟨hx,hy⟩
      have hself := (blkOrd_eq_iff hbj.1 (k := j)).mpr ⟨rfl,rfl⟩
      omega

variable {mbW mbH : ℕ} {mbs : List Macroblock} {a : ℕ → ℤ} {m : ℕ → ℕ}
  {rem : ℕ → Option (BitVec 3)}

/-- What the array holds for a neighbour. -/
def readAt (a : ℕ → ℤ) : Option (ℕ × ℕ × ℕ) → ℤ
  | none => -1
  | some (mb,lx,ly) => a (cell mb lx ly)

theorem modeAt_inside {x y : ℕ} (hx : x < mbW) (hy : y < mbH) (lx ly : ℕ) :
    modeAt mbW mbH a x y lx ly=a (cell (y*mbW+x) lx ly) := by
  have hplace : ((((y : ℤ)*mbW+x)*16).toNat : ℕ)=(y*mbW+x)*16 := by
    norm_cast
  unfold modeAt cell
  rw [if_neg (by omega),hplace]

theorem predicted_eq (hn : n < mbW*mbH) (blk : ℕ) :
    predicted mbW mbH a n blk =
      if readAt a (blockA mbW n (blkX blk) (blkY blk)) < 0 ∨
          readAt a (blockB mbW n (blkX blk) (blkY blk)) < 0 then 2
      else min (readAt a (blockA mbW n (blkX blk) (blkY blk)))
        (readAt a (blockB mbW n (blkX blk) (blkY blk))) := by
  have hpos : 0 < mbW := Nat.pos_of_lt_mul_right hn
  have hx : n%mbW < mbW := Nat.mod_lt n hpos
  have hy : n/mbW < mbH := Nat.div_lt_of_lt_mul hn
  have hself : n/mbW*mbW+n%mbW=n := Nat.div_add_mod' n mbW
  have hA : (if 0 < blkX blk then
        modeAt mbW mbH a (n%mbW : ℕ) (n/mbW : ℕ) (blkX blk-1) (blkY blk)
      else modeAt mbW mbH a ((n%mbW : ℕ)-1) (n/mbW : ℕ) 3 (blkY blk)) =
      readAt a (blockA mbW n (blkX blk) (blkY blk)) := by
    unfold blockA
    by_cases hlx : 0<blkX blk
    · rw [if_pos hlx,if_pos hlx,modeAt_inside hx hy,hself]
      rfl
    · rw [if_neg hlx,if_neg hlx]
      by_cases hcol : 0<n%mbW
      · have hleft : ((n%mbW : ℕ) : ℤ)-1=((n%mbW-1 : ℕ) : ℤ) := by omega
        have hplace : n/mbW*mbW+(n%mbW-1)=n-1 := by omega
        rw [if_pos hcol,hleft,modeAt_inside (by omega) hy,hplace]
        rfl
      · rw [if_neg hcol]
        exact if_pos (Or.inl (by omega))
  have hB : (if 0 < blkY blk then
        modeAt mbW mbH a (n%mbW : ℕ) (n/mbW : ℕ) (blkX blk) (blkY blk-1)
      else modeAt mbW mbH a (n%mbW : ℕ) ((n/mbW : ℕ)-1) (blkX blk) 3) =
      readAt a (blockB mbW n (blkX blk) (blkY blk)) := by
    unfold blockB
    by_cases hly : 0<blkY blk
    · rw [if_pos hly,if_pos hly,modeAt_inside hx hy,hself]
      rfl
    · rw [if_neg hly,if_neg hly]
      by_cases hrow : 0<n/mbW
      · have habove : ((n/mbW : ℕ) : ℤ)-1=((n/mbW-1 : ℕ) : ℤ) := by omega
        have hplace : (n/mbW-1)*mbW+n%mbW=n-mbW := by
          rw [Nat.sub_mul,Nat.one_mul]
          have hle : mbW≤n/mbW*mbW := Nat.le_mul_of_pos_left mbW hrow
          omega
        rw [if_pos hrow,habove,modeAt_inside hx (by omega),hplace]
        rfl
      · rw [if_neg hrow]
        exact if_pos (Or.inr (Or.inl (by omega)))
  unfold predicted
  dsimp only
  rw [hA,hB]

/-- A neighbour of a block lies in an earlier macroblock or is an earlier block. -/
def Earlier (n k : ℕ) (q : ℕ × ℕ × ℕ) : Prop :=
  q.2.1<4 ∧ q.2.2<4 ∧ (q.1<n ∨ q.1=n ∧ blkOrd q.2.1 q.2.2<k)

theorem earlier_blockA (hk : k<16) {q : ℕ × ℕ × ℕ}
    (hq : blockA mbW n (blkX k) (blkY k)=some q) : Earlier n k q := by
  have hbounds := blk_bounds hk
  have hself := (blkOrd_eq_iff hbounds.1).mpr ⟨rfl,rfl⟩
  unfold blockA at hq
  split_ifs at hq with hlx hcol
  · obtain rfl := Option.some.inj hq
    refine ⟨Nat.lt_of_le_of_lt (Nat.sub_le _ _) hbounds.1,hbounds.2,Or.inr ⟨rfl,?_⟩⟩
    unfold blkOrd at hself ⊢
    dsimp only
    omega
  · obtain rfl := Option.some.inj hq
    have hle := Nat.mod_le n mbW
    exact ⟨(by decide : 3<4),hbounds.2,Or.inl (by omega)⟩

theorem earlier_blockB (hW : 0 < mbW) (hk : k<16) {q : ℕ × ℕ × ℕ}
    (hq : blockB mbW n (blkX k) (blkY k)=some q) : Earlier n k q := by
  have hbounds := blk_bounds hk
  have hself := (blkOrd_eq_iff hbounds.1).mpr ⟨rfl,rfl⟩
  unfold blockB at hq
  split_ifs at hq with hly hrow
  · obtain rfl := Option.some.inj hq
    refine ⟨hbounds.1,Nat.lt_of_le_of_lt (Nat.sub_le _ _) hbounds.2,Or.inr ⟨rfl,?_⟩⟩
    unfold blkOrd at hself ⊢
    dsimp only
    omega
  · obtain rfl := Option.some.inj hq
    have hle : mbW≤n := (Nat.div_pos_iff.mp hrow).2
    exact ⟨hbounds.1,(by decide : 3<4),Or.inl (by omega)⟩

/-- The array holds for each earlier block what it is to a neighbour. -/
structure Known (mbs : List Macroblock) (n : ℕ) (a : ℕ → ℤ) (m : ℕ → ℕ) : Prop where
  earlier : ∀ mb<n, mb < mbs.length → ∀ lx<4, ∀ ly<4,
    a (cell mb lx ly)=(sideOf mbs m (some (mb,lx,ly))).stored
  later : ∀ mb, n ≤ mb → ∀ lx<4, ∀ ly<4, a (cell mb lx ly) = -1

/-- The mode of a block in the host is that of the standard. -/
def BlockRight (mbW mbH : ℕ) (mbs : List Macroblock) (n : ℕ) (rem : ℕ → Option (BitVec 3))
    (blk : ℕ) : Prop :=
  predModes mbW mbH mbs n rem blk =
    (standardMode mbW mbs n rem (modesAt mbW mbs n rem blk) blk : ℤ)

/-- In a macroblock whose earlier blocks are right the array holds what neighbours are. -/
theorem Known.readAt_eq (h : Known mbs n (i4modeBefore mbW mbH mbs n) (modesBefore mbW mbs n))
    (hmb : mbs[n]?=some (.nxn rem)) (hk : k<16)
    (hbefore : ∀ j<k, BlockRight mbW mbH mbs n rem j) {q : Option (ℕ × ℕ × ℕ)}
    (hq : ∀ p, q=some p → Earlier n k p) :
    readAt (fillBlocks n (nxnMode mbW mbH n rem) (i4modeBefore mbW mbH mbs n) k) q =
      (sideOf mbs (modesAt mbW mbs n rem k) q).stored := by
  cases q with
  | none => rfl
  | some p =>
    obtain ⟨mb,lx,ly⟩ := p
    obtain ⟨hx,hy,hplace⟩ := hq _ rfl
    have hn : n < mbs.length := (List.getElem?_eq_some_iff.mp hmb).1
    rcases hplace with hearlier | ⟨hsame,hord⟩
    · have hother := h.earlier mb hearlier (by omega) lx hx ly hy
      have hne : mb≠n := by omega
      unfold readAt sideOf modesAt at *
      dsimp only at hother ⊢
      rw [fillBlocks_other hne hx hy (by omega),fillBlocks_other hne hx hy (by omega),hother]
    · subst hsame
      obtain ⟨j,hj⟩ : ∃ j, blkOrd lx ly=j := ⟨_,rfl⟩
      rw [hj] at hord
      obtain ⟨rfl,rfl⟩ := (blkOrd_eq_iff hx).mp hj
      have hright := hbefore j hord
      have hstored : (sideOf mbs (modesAt mbW mbs mb rem k)
          (some (mb,blkX j,blkY j))).stored =
          (modesAt mbW mbs mb rem k (cell mb (blkX j) (blkY j)) : ℤ) := by
        unfold sideOf
        dsimp only
        rw [hmb]
        rfl
      rw [hstored]
      unfold readAt modesAt
      dsimp only
      rw [fillBlocks_of_lt hord (by omega),fillBlocks_of_lt hord (by omega)]
      exact hright

theorem Known.block_iff (h : Known mbs n (i4modeBefore mbW mbH mbs n) (modesBefore mbW mbs n))
    (hn : n < mbW*mbH) (hmb : mbs[n]?=some (.nxn rem)) (hk : k<16)
    (hbefore : ∀ j<k, BlockRight mbW mbH mbs n rem j) :
    BlockRight mbW mbH mbs n rem k ↔
      ¬Slips (sides mbW mbs (modesAt mbW mbs n rem k) n k) (rem k) := by
  have hpos : 0 < mbW := Nat.pos_of_lt_mul_right hn
  have hcode : predModes mbW mbH mbs n rem k=modeOf (predicted mbW mbH (fillBlocks n
      (nxnMode mbW mbH n rem) (i4modeBefore mbW mbH mbs n) k) n k) (rem k) := rfl
  unfold BlockRight standardMode sides
  rw [hcode,predicted_eq hn,
    h.readAt_eq (q := blockA mbW n _ _) hmb hk hbefore fun p hp => earlier_blockA hk hp,
    h.readAt_eq (q := blockB mbW n _ _) hmb hk hbefore fun p hp => earlier_blockB hpos hk hp]
  exact modeOf_eq_iff _ _ _

/-- Two properties agree below a bound where each place behind places that have the first
has both or none. -/
theorem forall_lt_iff {P Q : ℕ → Prop} {bound : ℕ}
    (h : ∀ k<bound, (∀ j<k, P j) → (P k ↔ Q k)) : (∀ k<bound, P k) ↔ ∀ k<bound, Q k := by
  constructor
  · intro hP k hk
    exact (h k hk fun j hj => hP j (by omega)).mp (hP k hk)
  · intro hQ k
    induction k using Nat.strong_induction_on with
    | _ k ih =>
      intro hk
      exact (h k hk fun j hj => ih j hj (by omega)).mpr (hQ k hk)

theorem Known.right_iff (h : Known mbs n (i4modeBefore mbW mbH mbs n) (modesBefore mbW mbs n))
    (hn : n < mbW*mbH) : Right mbW mbH mbs n ↔ Spared mbW mbs n := by
  refine forall_congr' fun rem => forall_congr' fun hmb => forall_lt_iff fun k hk hbefore => ?_
  exact h.block_iff hn hmb hk hbefore

theorem exists_blk {lx ly : ℕ} (hx : lx<4) (hy : ly<4) :
    ∃ j<16, lx=blkX j ∧ ly=blkY j :=
  ⟨blkOrd lx ly,blkOrd_lt hx hy,(blkOrd_eq_iff hx).mp rfl⟩

/-- What the other blocks are to their neighbours stays when a macroblock is filled. -/
theorem Known.fill (h : Known mbs n a m) {mode : (ℕ → ℤ) → ℕ → ℤ} {m' : ℕ → ℕ}
    (hm : ∀ mb<n, ∀ lx<4, ∀ ly<4, m' (cell mb lx ly)=m (cell mb lx ly))
    (hnow : ∀ j<16, mode (fillBlocks n mode a j) j =
      (sideOf mbs m' (some (n,blkX j,blkY j))).stored) :
    Known mbs (n+1) (fillBlocks n mode a 16) m' where
  earlier := by
    intro mb hmb hlen lx hx ly hy
    by_cases hsame : mb=n
    · subst hsame
      obtain ⟨j,hj,rfl,rfl⟩ := exists_blk hx hy
      rw [fillBlocks_of_lt hj (Nat.le_refl 16),hnow j hj]
    · have hold := h.earlier mb (by omega) hlen lx hx ly hy
      rw [fillBlocks_other hsame hx hy (Nat.le_refl 16),hold]
      unfold sideOf
      dsimp only
      rw [hm mb (by omega) lx hx ly hy]
  later := by
    intro mb hmb lx hx ly hy
    rw [fillBlocks_other (by omega) hx hy (Nat.le_refl 16)]
    exact h.later mb (by omega) lx hx ly hy

/-- A macroblock whose modes are right is known to those behind it. -/
theorem Known.next (h : Known mbs n (i4modeBefore mbW mbH mbs n) (modesBefore mbW mbs n))
    (hright : Right mbW mbH mbs n) :
    Known mbs (n+1) (i4modeBefore mbW mbH mbs (n+1)) (modesBefore mbW mbs (n+1)) := by
  unfold i4modeBefore modesBefore
  cases hmb : mbs[n]? with
  | none =>
    have hlen := List.getElem?_eq_none_iff.mp hmb
    exact ⟨fun mb _ hmb => h.earlier mb (by omega) hmb,fun mb hmb => h.later mb (by omega)⟩
  | some found =>
    cases found with
    | nxn rem =>
      refine h.fill (fun mb hmb lx hx ly hy =>
        fillBlocks_other (by omega) hx hy (Nat.le_refl 16)) fun j hj => ?_
      unfold sideOf
      dsimp only
      rw [hmb,fillBlocks_of_lt hj (Nat.le_refl 16)]
      exact hright rem hmb j hj
    | whole =>
      refine h.fill (fun _ _ _ _ _ _ => rfl) fun j hj => ?_
      unfold sideOf
      dsimp only
      rw [hmb]
      rfl
    | pcm =>
      refine ⟨fun mb hlt hlen lx hx ly hy => ?_,fun mb hlt => h.later mb (by omega)⟩
      by_cases hsame : mb=n
      · rw [hsame]
        unfold sideOf
        dsimp only
        rw [hmb]
        exact h.later n (Nat.le_refl n) lx hx ly hy
      · exact h.earlier mb (by omega) hlen lx hx ly hy

/-- The modes of all macroblocks of a slice are those of the standard just if no block slips. -/
theorem modes_right_iff (mbW mbH : ℕ) (mbs : List Macroblock) (hfits : mbs.length ≤ mbW*mbH) :
    (∀ n < mbs.length, Right mbW mbH mbs n) ↔ ∀ n < mbs.length, Spared mbW mbs n := by
  have hknown : ∀ n, (∀ k<n, Right mbW mbH mbs k) →
      Known mbs n (i4modeBefore mbW mbH mbs n) (modesBefore mbW mbs n) := by
    intro n hbefore
    induction n with
    | zero => exact ⟨fun mb hmb => absurd hmb (Nat.not_lt_zero mb),fun _ _ _ _ _ _ => rfl⟩
    | succ n ih => exact (ih fun k hk => hbefore k (by omega)).next (hbefore n (by omega))
  exact forall_lt_iff fun n hn hbefore => (hknown n hbefore).right_iff (by omega)

/-- An I_PCM macroblock to the left of an I_NxN macroblock, and above it one with vertical
prediction; the blocks of the last one code a rest above 1. -/
def apartPcm : List Macroblock :=
  [.whole,.nxn fun blk => if blk = 0 then some 0 else none,.pcm,.nxn fun _ => some 5]

/-- No block of that slice slips, so its modes are those of the standard. -/
theorem modes_right_apart :
    Right 2 2 apartPcm 0 ∧ Right 2 2 apartPcm 1 ∧ Right 2 2 apartPcm 2 ∧ Right 2 2 apartPcm 3 := by
  have hright := (modes_right_iff 2 2 apartPcm (by decide)).mpr fun n hn => ?_
  · exact ⟨hright 0 (by decide),hright 1 (by decide),hright 2 (by decide),hright 3 (by decide)⟩
  have hcases : n=0 ∨ n=1 ∨ n=2 ∨ n=3 := by
    have hfour : n<4 := hn
    omega
  rcases hcases with rfl | rfl | rfl | rfl
  · exact fun _ hnxn => nomatch hnxn
  · rintro _ ⟨⟩
    decide
  · exact fun _ hnxn => nomatch hnxn
  · rintro _ ⟨⟩
    decide

/-- The same macroblocks, but each block of the last one takes its predicted mode. -/
def besidePcm : List Macroblock :=
  [.whole,.nxn fun blk => if blk = 0 then some 0 else none,.pcm,.nxn fun _ => none]

/-- Its last macroblock starts with DC in the host and with vertical prediction by the standard. -/
theorem not_modes_right : ¬∀ (mbW mbH : ℕ) (mbs : List Macroblock),
    mbs.length ≤ mbW*mbH → ∀ n < mbs.length, Right mbW mbH mbs n := by
  intro h
  have hblock := h 2 2 besidePcm (by decide) 3 (by decide) (fun _ => none) rfl 0 (by decide)
  exact absurd hblock (by decide)

end Misterplex.Intra.PredModes
