import Misterplex.Nal.AnnexB

/-!
# The Annex B framer

The framer appends each chunk to its accumulator and emits the units whose end it
can see; the others wait for more bytes or for the end of the stream. What is
left in the accumulator is all that it needs to remember: the units of the
stream are those emitted and those of what is left with the rest of the stream.
-/

namespace Misterplex.AnnexB

open Emulation List

/-- The framer. -/
structure AnnexBFramer where
  /-- Size above which a waiting accumulator is thrown away. -/
  maxAcc : ℕ
  /-- The bytes that are not yet a unit. -/
  acc : List Byte
  /-- Offset of the unit that waits. -/
  parseFrom : ℕ
  deriving DecidableEq, Repr

namespace AnnexBFramer

/-- A framer with nothing accumulated. -/
def new (maxAccumBytes : ℕ) : AnnexBFramer := ⟨maxAccumBytes,[],0⟩

/-- Throw away what is accumulated. -/
def reset (f : AnnexBFramer) : AnnexBFramer := { f with acc := [], parseFrom := 0 }

/-- The loop to the first start code with a byte behind its first three. The first
argument bounds the iterations. -/
def skipFrom (acc : List Byte) : ℕ → ℕ → ℕ
  | 0,i => i
  | fuel+1,i =>
    if i+3 < acc.length then
      if annexBStartLen acc i ≠ 0 then i else skipFrom acc fuel (i+1)
    else i

/-- The loop to the next start code behind one. The first argument bounds the
iterations. -/
def nextStart (acc : List Byte) : ℕ → ℕ → Option ℕ
  | 0,_ => none
  | fuel+1,j =>
    if j+2 < acc.length then
      if annexBStartLen acc j ≠ 0 then some j else nextStart acc fuel (j+1)
    else none

/-- How the emitting loop ends: a unit waits at an offset, or all up to an offset is
done. -/
inductive Ending where
  | waits (i : ℕ)
  | done (i : ℕ)
  deriving DecidableEq, Repr

/-- The emitting loop. It returns the units and how it ends. The first argument
bounds the iterations. -/
def emitFrom (acc : List Byte) (final : Bool) : ℕ → ℕ → List (List Byte) × Ending
  | 0,i => ([],.done i)
  | fuel+1,i =>
    if i+3 < acc.length then
      let sc := annexBStartLen acc i
      if sc = 0 then emitFrom acc final fuel (i+1)
      else
        let next := nextStart acc acc.length (i+sc)
        if next.isNone && !final then ([],.waits i)
        else
          let j := next.getD acc.length
          let nal := if i+sc < j then [(acc.take j).drop i] else []
          if final && acc.length ≤ j then (nal,.done j)
          else
            let rest := emitFrom acc final fuel j
            (nal ++ rest.1,rest.2)
    else ([],.done i)

/-- Emit the units that are complete, at the end of the stream all of them. -/
def emitComplete (f : AnnexBFramer) (final : Bool) : List (List Byte) × AnnexBFramer :=
  let acc := f.acc.drop (skipFrom f.acc f.acc.length f.parseFrom)
  match emitFrom acc final acc.length 0 with
  | (nals,.waits i) =>
    (nals,if f.maxAcc < acc.length then f.reset else { f with acc := acc, parseFrom := i })
  | (nals,.done i) => (nals,{ f with acc := acc.drop i, parseFrom := 0 })

/-- Push a chunk. -/
def push (f : AnnexBFramer) (data : List Byte) : List (List Byte) × AnnexBFramer :=
  emitComplete { f with acc := f.acc ++ data } false

/-- End the stream. -/
def finish (f : AnnexBFramer) : List (List Byte) × AnnexBFramer := emitComplete f true

/-- Push chunks one after the other and end the stream: the units handed on. -/
def nalsOf (f : AnnexBFramer) : List (List Byte) → List (List Byte)
  | [] => f.finish.1
  | data::chunks => (f.push data).1 ++ (f.push data).2.nalsOf chunks

/-- The accumulator stays within its bound while chunks are pushed. -/
def Within (f : AnnexBFramer) : List (List Byte) → Prop
  | [] => True
  | data::chunks => (f.acc ++ data).length≤f.maxAcc ∧ (f.push data).2.Within chunks

/-- The first loop passes only offsets without a start code and stops at one or
near the end. -/
theorem skipFrom_spec (acc : List Byte) (fuel i : ℕ) :
    i ≤ skipFrom acc fuel i ∧
    (∀ k, i≤k → k<skipFrom acc fuel i → k+3<acc.length ∧ annexBStartLen acc k=0) := by
  induction fuel generalizing i with
  | zero => exact ⟨Nat.le_refl i,fun k h1 h2 => absurd h1 (Nat.not_le_of_lt h2)⟩
  | succ fuel ih =>
    rw [skipFrom]
    by_cases hin : i+3<acc.length
    · rw [if_pos hin]
      by_cases hstart : annexBStartLen acc i≠0
      · rw [if_pos hstart]
        exact ⟨Nat.le_refl i,fun k h1 h2 => absurd h1 (Nat.not_le_of_lt h2)⟩
      · rw [if_neg hstart]
        obtain ⟨hle,hnone⟩ := ih (i+1)
        refine ⟨by omega,fun k h1 h2 => ?_⟩
        by_cases hk : k=i
        · subst hk
          exact ⟨hin,not_not.mp hstart⟩
        · exact hnone k (by omega) h2
    · rw [if_neg hin]
      exact ⟨Nat.le_refl i,fun k h1 h2 => absurd h1 (Nat.not_le_of_lt h2)⟩

variable {acc : List Byte}

theorem nextStart_some {fuel i j : ℕ} (h : nextStart acc fuel i=some j) :
    i≤j ∧ j+2<acc.length ∧ annexBStartLen acc j≠0 ∧
      ∀ k, i≤k → k<j → annexBStartLen acc k=0 := by
  induction fuel generalizing i with
  | zero => cases h
  | succ fuel ih =>
    rw [nextStart] at h
    by_cases hin : i+2<acc.length
    · rw [if_pos hin] at h
      by_cases hstart : annexBStartLen acc i≠0
      · rw [if_pos hstart] at h
        obtain rfl := Option.some.inj h
        exact ⟨Nat.le_refl i,hin,hstart,fun k h1 h2 => absurd h1 (Nat.not_le_of_lt h2)⟩
      · rw [if_neg hstart] at h
        obtain ⟨hle,hend,hj,hnone⟩ := ih h
        refine ⟨by omega,hend,hj,fun k h1 h2 => ?_⟩
        by_cases hk : k=i
        · subst hk
          exact not_not.mp hstart
        · exact hnone k (by omega) h2
    · rw [if_neg hin] at h
      cases h

theorem nextStart_none {fuel i : ℕ} (h : nextStart acc fuel i=none)
    (hfuel : acc.length ≤ i+fuel) (k : ℕ) (hk : i≤k) : annexBStartLen acc k=0 := by
  have hend : ∀ m, acc.length ≤ m+2 → annexBStartLen acc m=0 := by
    intro m hm
    have hcode := annexBStartLen_cases acc m
    omega
  induction fuel generalizing i with
  | zero => exact hend k (by omega)
  | succ fuel ih =>
    rw [nextStart] at h
    by_cases hin : i+2<acc.length
    · rw [if_pos hin] at h
      by_cases hstart : annexBStartLen acc i≠0
      · rw [if_pos hstart] at h
        cases h
      · rw [if_neg hstart] at h
        by_cases hik : k=i
        · subst hik
          exact not_not.mp hstart
        · exact ih h (by omega) (by omega)
    · exact hend k (by omega)

/-- Offset at which the emitting loop ends. -/
def Ending.offset : Ending → ℕ
  | .waits i => i
  | .done i => i

theorem units_pass (tail : List Byte) {i : ℕ} (hin : i+3<acc.length)
    (hzero : annexBStartLen acc i=0) :
    nalUnits (acc.drop i ++ tail)=nalUnits (acc.drop (i+1) ++ tail) := by
  have hlen : (acc.drop i).length=acc.length-i := length_drop
  have hnone : ∀ k<1, annexBStartLen (acc.drop i ++ tail) k=0 := by
    intro k hk
    obtain rfl : k=0 := by omega
    rw [annexBStartLen_append tail (by omega),annexBStartLen_drop]
    exact hzero
  rw [nalUnits_skip (by rw [length_append]; omega) hnone,
    drop_append_of_le_length (by omega),drop_drop]

theorem units_next (tail : List Byte) {i j : ℕ} (hin : i+3<acc.length)
    (hstart : annexBStartLen acc i≠0)
    (hnext : nextStart acc acc.length (i+annexBStartLen acc i)=some j) :
    nalUnits (acc.drop i ++ tail) =
      (if i+annexBStartLen acc i < j then [(acc.take j).drop i] else []) ++
        nalUnits (acc.drop j ++ tail) := by
  obtain ⟨hle,hend,hj,hnone⟩ := nextStart_some hnext
  have hlen : (acc.drop i).length=acc.length-i := length_drop
  have hcode : annexBStartLen (acc.drop i ++ tail) 0=annexBStartLen acc i := by
    rw [annexBStartLen_append tail (by omega),annexBStartLen_drop,Nat.add_zero]
  have hcodeNext : annexBStartLen (acc.drop i ++ tail) (j-i)≠0 := by
    have hat : annexBStartLen (acc.drop i) (j-i)=annexBStartLen acc j := by
      rw [annexBStartLen_drop,Nat.add_sub_cancel' (by omega)]
    rw [annexBStartLen_append_of_ne tail (by rw [hat]; exact hj),hat]
    exact hj
  have hbetween : ∀ k, annexBStartLen (acc.drop i ++ tail) 0≤k → k<j-i →
      annexBStartLen (acc.drop i ++ tail) k=0 := by
    intro k h1 h2
    rw [annexBStartLen_append tail (by omega),annexBStartLen_drop]
    exact hnone (i+k) (by omega) (by omega)
  have hunit : unitBetween (acc.drop i ++ tail) 0 (j-i) =
      if i+annexBStartLen acc i < j then [(acc.take j).drop i] else [] := by
    have hslice : ((acc.drop i ++ tail).take (j-i)).drop 0=(acc.take j).drop i := by
      rw [drop_zero,take_append_of_le_length (by omega),drop_take]
    rw [unitBetween,hcode,hslice]
    by_cases hfull : i+annexBStartLen acc i<j
    · rw [if_pos hfull,if_pos (by omega)]
    · rw [if_neg hfull,if_neg (by omega)]
  rw [nalUnits_next (by rw [hcode]; exact hstart) (by omega) hcodeNext hbetween,hunit,
    drop_append_of_le_length (by omega),drop_drop,Nat.add_sub_cancel' (by omega)]

theorem units_last {i : ℕ} (hin : i+3<acc.length) (hstart : annexBStartLen acc i≠0)
    (hnext : nextStart acc acc.length (i+annexBStartLen acc i)=none) : nalUnits (acc.drop i) =
      if i+annexBStartLen acc i < acc.length then [(acc.take acc.length).drop i] else [] := by
  have hlen : (acc.drop i).length=acc.length-i := length_drop
  have hcode : annexBStartLen (acc.drop i) 0=annexBStartLen acc i := by
    rw [annexBStartLen_drop,Nat.add_zero]
  have hnone : ∀ k, annexBStartLen (acc.drop i) 0≤k → annexBStartLen (acc.drop i) k=0 := by
    intro k hk
    rw [annexBStartLen_drop]
    exact nextStart_none hnext (by omega) (i+k) (by omega)
  have hslice : ((acc.drop i).take (acc.length-i)).drop 0=(acc.take acc.length).drop i := by
    rw [drop_zero,drop_take]
  rw [nalUnits_last (by rw [hcode]; exact hstart) hnone,unitBetween,hcode,hlen,hslice]
  by_cases hfull : i+annexBStartLen acc i<acc.length
  · rw [if_pos hfull,if_pos (by omega)]
  · rw [if_neg hfull,if_neg (by omega)]

/-- While the stream goes on, the units of what is accumulated and any bytes that
follow are those emitted and those from where the loop ends. -/
theorem emitFrom_open (acc : List Byte) (fuel i : ℕ) (hi : i≤acc.length) :
    (emitFrom acc false fuel i).2.offset≤acc.length ∧
    ∀ tail, nalUnits (acc.drop i ++ tail) = (emitFrom acc false fuel i).1 ++
      nalUnits (acc.drop (emitFrom acc false fuel i).2.offset ++ tail) := by
  induction fuel generalizing i with
  | zero => exact ⟨hi,fun tail => rfl⟩
  | succ fuel ih =>
    rw [emitFrom]
    by_cases hin : i+3<acc.length
    · rw [if_pos hin]
      by_cases hzero : annexBStartLen acc i=0
      · rw [if_pos hzero]
        obtain ⟨hend,hunits⟩ := ih (i+1) (by omega)
        exact ⟨hend,fun tail => (units_pass tail hin hzero).trans (hunits tail)⟩
      · rw [if_neg hzero]
        cases hnext : nextStart acc acc.length (i+annexBStartLen acc i) with
        | none => exact ⟨hi,fun tail => rfl⟩
        | some j =>
          obtain ⟨_,hjend,_,_⟩ := nextStart_some hnext
          obtain ⟨hend,hunits⟩ := ih j (by omega)
          refine ⟨hend,fun tail => ?_⟩
          rw [units_next tail hin hzero hnext,hunits tail,← append_assoc]
          rfl
    · rw [if_neg hin]
      exact ⟨hi,fun tail => rfl⟩

theorem emitFrom_final (acc : List Byte) (fuel i : ℕ) (hfuel : acc.length ≤ i+fuel) :
    nalUnits (acc.drop i)=(emitFrom acc true fuel i).1 := by
  have hshort : acc.length ≤ i+3 → nalUnits (acc.drop i)=[] := by
    intro h
    exact nalUnits_short (by rw [length_drop]; omega)
  induction fuel generalizing i with
  | zero => exact hshort (by omega)
  | succ fuel ih =>
    rw [emitFrom]
    by_cases hin : i+3<acc.length
    · rw [if_pos hin]
      by_cases hzero : annexBStartLen acc i=0
      · have hpass := units_pass [] hin hzero
        rw [append_nil,append_nil] at hpass
        rw [if_pos hzero,hpass]
        exact ih (i+1) (by omega) fun h => nalUnits_short (by rw [length_drop]; omega)
      · rw [if_neg hzero]
        cases hnext : nextStart acc acc.length (i+annexBStartLen acc i) with
        | none =>
          rw [units_last hin hzero hnext]
          simp only [Option.isNone_none,Bool.not_true,Bool.and_false,Bool.false_eq_true,if_false,
            Option.getD_none,Nat.le_refl,decide_true,Bool.and_self,if_true]
        | some j =>
          obtain ⟨hle,hjend,_,_⟩ := nextStart_some hnext
          have hunits := units_next [] hin hzero hnext
          rw [append_nil,append_nil] at hunits
          have hgo : ¬(true && decide (acc.length≤j))=true := by
            simp only [Bool.true_and,decide_eq_true_eq]
            omega
          rw [hunits,ih j (by omega) fun h => nalUnits_short (by rw [length_drop]; omega)]
          simp only [Option.isNone_some,Bool.false_and,Bool.false_eq_true,if_false,
            Option.getD_some,if_neg hgo]
    · rw [if_neg hin]
      exact hshort (by omega)

theorem units_skip (acc tail : List Byte) (fuel i : ℕ) :
    nalUnits (acc.drop i ++ tail)=nalUnits (acc.drop (skipFrom acc fuel i) ++ tail) := by
  obtain ⟨hle,hnone⟩ := skipFrom_spec acc fuel i
  by_cases hmove : skipFrom acc fuel i=i
  · rw [hmove]
  · have hlen : (acc.drop i).length=acc.length-i := length_drop
    have hlast := (hnone (skipFrom acc fuel i-1) (by omega) (by omega)).1
    have hzero : ∀ k<skipFrom acc fuel i-i, annexBStartLen (acc.drop i ++ tail) k=0 := by
      intro k hk
      obtain ⟨hin,hcode⟩ := hnone (i+k) (by omega) (by omega)
      rw [annexBStartLen_append tail (by omega),annexBStartLen_drop]
      exact hcode
    rw [nalUnits_skip (by rw [length_append]; omega) hzero,
      drop_append_of_le_length (by omega),drop_drop,Nat.add_sub_cancel' hle]

/-- Bytes that still count: those from the unit that waits. -/
def left (f : AnnexBFramer) : List Byte := f.acc.drop f.parseFrom

/-- A framer whose waiting unit lies in its accumulator. -/
def Sound (f : AnnexBFramer) : Prop := f.parseFrom≤f.acc.length

/-- Emitting while the stream goes on keeps the units of the stream, as long as
the accumulator is within its bound. -/
theorem emitComplete_open {f : AnnexBFramer} (hmax : f.acc.length≤f.maxAcc) :
    (f.emitComplete false).2.Sound ∧ (f.emitComplete false).2.maxAcc=f.maxAcc ∧
    ∀ tail, nalUnits (f.left ++ tail) =
      (f.emitComplete false).1 ++ nalUnits ((f.emitComplete false).2.left ++ tail) := by
  have hskip := fun tail => units_skip f.acc tail f.acc.length f.parseFrom
  unfold left emitComplete
  dsimp only
  generalize hacc : f.acc.drop (skipFrom f.acc f.acc.length f.parseFrom)=acc at hskip
  have hsmall : ¬f.maxAcc<acc.length := by
    rw [← hacc,length_drop]
    omega
  have hopen := emitFrom_open acc acc.length 0 (Nat.zero_le _)
  generalize emitFrom acc false acc.length 0=answer at hopen
  obtain ⟨nals,ending⟩ := answer
  obtain ⟨hend,hunits⟩ := hopen
  cases ending with
  | waits i =>
    dsimp only
    rw [if_neg hsmall]
    exact ⟨hend,rfl,fun tail => (hskip tail).trans (hunits tail)⟩
  | done i => exact ⟨Nat.zero_le _,rfl,fun tail => (hskip tail).trans (hunits tail)⟩

theorem finish_units (f : AnnexBFramer) : f.finish.1=nalUnits f.left := by
  have hskip := units_skip f.acc [] f.acc.length f.parseFrom
  rw [append_nil,append_nil] at hskip
  unfold left finish emitComplete
  dsimp only
  generalize f.acc.drop (skipFrom f.acc f.acc.length f.parseFrom)=acc at hskip
  have hfinal := emitFrom_final acc acc.length 0 (by omega)
  rw [drop_zero] at hfinal
  rw [hskip,hfinal]
  generalize emitFrom acc true acc.length 0=answer
  obtain ⟨nals,ending⟩ := answer
  cases ending <;> rfl

theorem push_units {f : AnnexBFramer} (hf : f.Sound) {data : List Byte}
    (hmax : (f.acc ++ data).length≤f.maxAcc) :
    (f.push data).2.Sound ∧ (f.push data).2.maxAcc=f.maxAcc ∧
    ∀ tail, nalUnits (f.left ++ (data ++ tail)) =
      (f.push data).1 ++ nalUnits ((f.push data).2.left ++ tail) := by
  have hleft : left { f with acc := f.acc ++ data } = f.left ++ data :=
    drop_append_of_le_length hf
  have hemit := emitComplete_open (f := { f with acc := f.acc ++ data }) hmax
  rw [hleft] at hemit
  obtain ⟨hsound,hbound,hunits⟩ := hemit
  exact ⟨hsound,hbound,fun tail => by rw [← append_assoc]; exact hunits tail⟩

/-- Over a whole run the units handed on are those of what was left and of all
chunks. -/
theorem nalsOf_units {f : AnnexBFramer} (hf : f.Sound) {chunks : List (List Byte)}
    (hin : f.Within chunks) : f.nalsOf chunks=nalUnits (f.left ++ chunks.flatten) := by
  induction chunks generalizing f with
  | nil => rw [nalsOf,finish_units,flatten_nil,append_nil]
  | cons data chunks ih =>
    obtain ⟨hmax,hrest⟩ := hin
    obtain ⟨hsound,_,hunits⟩ := push_units hf hmax
    rw [nalsOf,flatten_cons,hunits chunks.flatten,ih hsound hrest]

/-- However a stream is cut into chunks, as long as the accumulator stays within
its bound, the framer hands on the nonempty NAL units of the stream in order, and
so does a framer that is given the whole stream at once. -/
theorem nalsOf_eq_nalUnits (maxAccumBytes : ℕ) (chunks : List (List Byte))
    (hin : (new maxAccumBytes).Within chunks) :
    (new maxAccumBytes).nalsOf chunks=nalUnits chunks.flatten ∧
    ∀ bound, (new bound).Within [chunks.flatten] →
      (new maxAccumBytes).nalsOf chunks=(new bound).nalsOf [chunks.flatten] := by
  have hcut := nalsOf_units (f := new maxAccumBytes) (Nat.le_refl 0) hin
  refine ⟨hcut,fun bound hwhole => ?_⟩
  have hone := nalsOf_units (f := new bound) (Nat.le_refl 0) hwhole
  rw [flatten_singleton] at hone
  exact hcut.trans hone.symm

/-- A stream cut inside both of its start codes. -/
theorem nalsOf_two_units :
    (new 64).nalsOf [[0#8,0#8],[0#8,1#8,0x67#8,0#8,0#8],[],[1#8,0x68#8,0xbb#8]] =
      [[0#8,0#8,0#8,1#8,0x67#8],[0#8,0#8,1#8,0x68#8,0xbb#8]] := by
  have h := nalsOf_eq_nalUnits 64 [[0#8,0#8],[0#8,1#8,0x67#8,0#8,0#8],[],[1#8,0x68#8,0xbb#8]]
    ⟨by decide,by decide,by decide,by decide,trivial⟩
  exact h.1.trans (by decide)

end AnnexBFramer

end Misterplex.AnnexB
