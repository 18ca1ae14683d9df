import Misterplex.Cavlc.HostSymbols

/-!
# The host decoder reads signs and runs, and places levels

Above six zeros left the host reads run_before without a table. Its search for
the next one accepts runs that have no codeword, and the check against the
zeros left then stops it. Placement rebuilds the scan from the lowest frequency.
-/

namespace Misterplex.Cavlc.Host

open BitString PrefixCode List

variable {br : BitReader} (n : ℕ)

theorem signs_failed (h : br.ok=false) : (signs n br).2.ok=false := by
  induction n generalizing br with
  | zero => exact h
  | succ n ih => exact ih (by rw [BitReader.u_failed h,h])

variable {d : List Emulation.Byte} {left : List Bool}

theorem signs_agrees (hat : BitReader.At d left br) :
    Agrees d (readSigns n left) (some (signs n br).1,(signs n br).2) := by
  induction n generalizing left br with
  | zero => exact ⟨rfl,hat⟩
  | succ n ih =>
    rw [readSigns,signs]
    refine (u_agrees (show 1≤32 by omega) hat).bind ?_ ?_
    · intro sign rest hread hsome hrest
      have hlt := readField_lt hread
      have hval : (br.u 1).1=sign := Option.some.inj hsome
      have hone : (if (br.u 1).1 ≠ 0 then (-1 : ℤ) else 1) = if sign = 1 then -1 else 1 := by
        by_cases h1 : sign=1
        · rw [if_pos (by omega),if_pos h1]
        · rw [if_neg (by omega),if_neg h1]
      refine (ih hrest).bind ?_ ?_
      · intro ones rest' _ hones hrest'
        have hval' : (signs n (br.u 1).2).1=ones := Option.some.inj hones
        rw [hone,hval']
        exact ⟨rfl,hrest'⟩
      · intro hfail
        cases hfail with
        | inl h => cases h
        | inr h => exact Or.inr h
    · intro hfail
      cases hfail with
      | inl h => cases h
      | inr h => exact Or.inr (signs_failed n h)

theorem longRun_found (rest : List Bool) {fuel r : ℕ}
    (hat : BitReader.At d (List.replicate n false ++ true::rest) br)
    (hfuel : n<fuel) :
    (longRun fuel r br).1=r+n ∧ BitReader.At d rest (longRun fuel r br).2 := by
  induction n generalizing fuel r br with
  | zero =>
    obtain ⟨fuel,rfl⟩ : ∃ m, fuel=m+1 := ⟨fuel-1,by omega⟩
    obtain ⟨hval,hnext⟩ := hat.u_one
    rw [longRun,if_pos hat.healthy]
    dsimp only
    rw [hval,if_neg (by decide)]
    exact ⟨rfl,hnext⟩
  | succ n ih =>
    obtain ⟨fuel,rfl⟩ : ∃ m, fuel=m+1 := ⟨fuel-1,by omega⟩
    obtain ⟨hval,hnext⟩ := hat.u_one
    have hrec := ih hnext (show n<fuel by omega) (r := r+1)
    rw [longRun,if_pos hat.healthy]
    dsimp only
    rw [hval,Bool.toNat_false,if_pos rfl,show r+(n+1)=r+1+n by omega]
    exact hrec

theorem longRun_failed (h : br.ok=false) (fuel r : ℕ) : longRun fuel r br=(r,br) := by
  cases fuel with
  | zero => rfl
  | succ fuel => rw [longRun,if_neg (by simp [h])]

theorem longRun_missing {fuel r : ℕ}
    (hat : BitReader.At d (List.replicate n false) br) (hfuel : n<fuel) :
    (longRun fuel r br).2.ok=false := by
  induction n generalizing fuel r br with
  | zero =>
    obtain ⟨fuel,rfl⟩ : ∃ m, fuel=m+1 := ⟨fuel-1,by omega⟩
    have hfail := hat.u_short (show [].length<1 by decide)
    rw [longRun,if_pos hat.healthy]
    dsimp only
    split_ifs
    · rw [longRun_failed hfail]
      exact hfail
    · exact hfail
  | succ n ih =>
    obtain ⟨fuel,rfl⟩ : ∃ m, fuel=m+1 := ⟨fuel-1,by omega⟩
    obtain ⟨hval,hnext⟩ := hat.u_one
    rw [longRun,if_pos hat.healthy]
    dsimp only
    rw [hval,Bool.toNat_false,if_pos rfl]
    exact ih hnext (by omega)

theorem symbol_longRun_zeros {n : ℕ} {left rest : List Bool} {i : ℕ}
    (hs : symbol (runBeforeCode 7) left=some (i,rest))
    (hleft : left=List.replicate n false ∨
      11≤n ∧ ∃ tail, left = List.replicate n false ++ tail) : False := by
  obtain ⟨w,hw,hne,hbits⟩ :=
    (symbol_eq_some_iff (prefixFree_runBeforeCode 7) left i rest).mp hs
  obtain ⟨hone,hlen⟩ := longRunCode_one w (mem_of_getElem? hw)
  have hpre : w <+: left := hbits ▸ prefix_append w rest
  have hzeros : w <+: replicate n false := by
    cases hleft with
    | inl h => rwa [h] at hpre
    | inr h =>
      obtain ⟨hn,tail,htail⟩ := h
      rw [htail] at hpre
      refine prefix_of_prefix_length_le hpre (prefix_append _ tail) ?_
      rw [length_replicate]
      omega
  have hmem := eq_of_mem_replicate (hzeros.subset hone)
  exact Bool.noConfusion hmem

/-- A run with the check that it does not exceed the zeros left. -/
def checkedRun (zerosLeft : ℕ) (answer : Option ℕ × BitReader) : Option ℕ × BitReader :=
  (answer.1.bind fun r => if zerosLeft < r then none else some r,answer.2)

/-- A reading of a run with the same check. -/
def readCheckedRun (zerosLeft : ℕ) (left : List Bool) : Except Stop (ℕ × List Bool) :=
  readSymbol (runBeforeCode zerosLeft) left >>= fun p =>
    if zerosLeft < p.1 then .error .invalid else .ok p

theorem checkedRun_of_symbol {zerosLeft i : ℕ} {left rest : List Bool}
    {answer : Option ℕ × BitReader} (hs : symbol (runBeforeCode zerosLeft) left=some (i,rest))
    (hsome : answer.1=some i) (hat : BitReader.At d rest answer.2) :
    Agrees d (readCheckedRun zerosLeft left) (checkedRun zerosLeft answer) := by
  have hread : readSymbol (runBeforeCode zerosLeft) left = .ok (i,rest) := by
    rw [readSymbol,hs]
  rw [readCheckedRun,hread,checkedRun,hsome]
  simp only [bind,Except.bind,Option.bind]
  by_cases hlt : zerosLeft < i
  · rw [if_pos hlt,if_pos hlt]
    exact Or.inl rfl
  · rw [if_neg hlt,if_neg hlt]
    exact ⟨rfl,hat⟩

theorem rowGood_run :
    ∀ zerosLeft<7, 0<zerosLeft →
      rowGood (runLen.getD (zerosLeft-1) []) (runBits.getD (zerosLeft-1) []) (zerosLeft+1)
        (runBeforeRows.getD (zerosLeft-1) [])=true := by
  decide

theorem runBefore_failed (h : br.ok=false) (zerosLeft : ℕ) :
    (runBefore br zerosLeft).2.ok=false := by
  unfold runBefore
  split_ifs
  · rw [matchMap_failed h]
    exact h
  · dsimp only
    rw [BitReader.u_failed h]
    split_ifs
    · exact h
    · rw [longRun_failed h]
      exact h

variable {zerosLeft : ℕ}

theorem runBefore_of_le (h7 : 7≤zerosLeft) (br : BitReader) : runBefore br zerosLeft =
      if 0 < (br.u 3).1 then (some (7-(br.u 3).1),(br.u 3).2)
      else (some (longRun (8*br.d.length+2) 7 (br.u 3).2).1,
        (longRun (8*br.d.length+2) 7 (br.u 3).2).2) := by
  rw [runBefore,if_neg (by omega)]

theorem runBefore_long_agrees (h7 : 7≤zerosLeft) (h14 : zerosLeft≤14)
    (hat : BitReader.At d left br) :
    Agrees d (readCheckedRun zerosLeft left) (checkedRun zerosLeft (runBefore br zerosLeft)) := by
  have hcode := runBeforeCode_of_le h7
  have hfree := prefixFree_runBeforeCode 7
  have hfail : (runBefore br zerosLeft).2.ok=false →
      (∀ i rest, symbol (runBeforeCode 7) left≠some (i,rest)) →
      Agrees d (readCheckedRun zerosLeft left) (checkedRun zerosLeft (runBefore br zerosLeft)) := by
    intro hbad hnone
    have hs : symbol (runBeforeCode zerosLeft) left=none := by
      rw [hcode]
      cases hs : symbol (runBeforeCode 7) left with
      | none => rfl
      | some p => exact absurd hs (hnone p.1 p.2)
    rw [readCheckedRun,readSymbol,hs]
    exact Or.inr hbad
  by_cases h3 : 3≤left.length
  · have hlen : (left.take 3).length=3 := length_take_of_le h3
    have hfield := u_agrees (show 3≤32 by omega) hat
    rw [readField,if_pos h3] at hfield
    obtain ⟨hv,hrest⟩ := hfield
    have hval : (br.u 3).1=value (left.take 3) := Option.some.inj hv
    have hlt := value_lt (left.take 3)
    rw [hlen] at hlt
    by_cases hpos : 0<value (left.take 3)
    · have hword : (runBeforeCode 7)[7-value (left.take 3)]?=some (left.take 3) := by
        rw [longRunCode _ (by omega),if_pos (by omega),
          show 7-(7-value (left.take 3))=value (left.take 3) by omega]
        have hof := ofNat_of_mod (Nat.mod_eq_of_lt (value_lt (left.take 3)))
        rw [hlen] at hof
        rw [hof]
      have hs := symbol_append hfree hword (ne_nil_of_length_pos (by omega)) (left.drop 3)
      rw [take_append_drop,← hcode] at hs
      have hrun : runBefore br zerosLeft=(some (7-value (left.take 3)),(br.u 3).2) := by
        rw [runBefore_of_le h7,hval,if_pos hpos]
      rw [hrun]
      exact checkedRun_of_symbol hs rfl hrest
    · have hzero : left.take 3=replicate 3 false := by
        refine eq_of_value_eq (by rw [hlen,length_replicate]) ?_
        rw [show value (replicate 3 false)=0 from rfl]
        omega
      have hsplit : left = replicate 3 false ++ left.drop 3 := by
        rw [← hzero,take_append_drop]
      have hdlen : (left.drop 3).length≤8*d.length := by
        have hp := hat.position
        rw [length_drop]
        omega
      have hrun : runBefore br zerosLeft =
          (some (longRun (8*br.d.length+2) 7 (br.u 3).2).1,
            (longRun (8*br.d.length+2) 7 (br.u 3).2).2) := by
        rw [runBefore_of_le h7,hval,if_neg hpos]
      cases hz : zerosBeforeOne (left.drop 3) with
      | none =>
        have hzeros := zerosBeforeOne_eq_none hz
        rw [hzeros] at hrest
        refine hfail ?_ ?_
        · rw [hrun]
          exact longRun_missing _ hrest (by rw [hat.buffer]; omega)
        · intro i rest hs
          refine symbol_longRun_zeros (n := 3+(left.drop 3).length) hs (Or.inl ?_)
          rw [replicate_add,← hzeros]
          exact hsplit
      | some p =>
        have hbits := zerosBeforeOne_eq_some hz
        have hplen : p.1<(left.drop 3).length := by
          have hl := congrArg length hbits
          rw [length_append,length_replicate,length_cons] at hl
          omega
        have hsplit' : left = (replicate (3+p.1) false ++ [true]) ++ p.2 := by
          rw [replicate_add,append_assoc,append_assoc,singleton_append,
            ← hbits]
          exact hsplit
        rw [hbits] at hrest
        obtain ⟨hcount,hnext⟩ := longRun_found p.1 p.2 hrest
          (show p.1<8*br.d.length+2 by rw [hat.buffer]; omega) (r := 7)
        rw [hcount] at hrun
        by_cases hin : p.1≤7
        · have hword : (runBeforeCode 7)[7+p.1]? =
              some (replicate (3+p.1) false ++ [true]) := by
            rw [longRunCode _ (by omega),if_neg (by omega),
              show 7+p.1-4=3+p.1 by omega]
          have hs := symbol_append hfree hword (by simp) p.2
          rw [← hsplit',← hcode] at hs
          rw [hrun]
          exact checkedRun_of_symbol hs rfl hnext
        · have hnone : symbol (runBeforeCode zerosLeft) left=none := by
            cases hs : symbol (runBeforeCode zerosLeft) left with
            | none => rfl
            | some q =>
              rw [hcode] at hs
              refine (symbol_longRun_zeros (n := 3+p.1) hs (Or.inr ⟨by omega,?_⟩)).elim
              exact ⟨[true] ++ p.2,by rw [hsplit',append_assoc]⟩
          rw [readCheckedRun,readSymbol,hnone,hrun]
          refine Or.inl ?_
          rw [checkedRun,Option.bind_some,if_pos (by omega)]
  · have hbad := hat.u_short (show left.length<3 by omega)
    refine hfail ?_ ?_
    · rw [runBefore_of_le h7]
      split_ifs
      · exact hbad
      · rw [longRun_failed hbad]
        exact hbad
    · intro i rest hs
      obtain ⟨w,hw,_,hbits⟩ := (symbol_eq_some_iff hfree left i rest).mp hs
      have hi : i<15 := by
        exact (List.getElem?_eq_some_iff.mp hw).1
      have hwlen : 3≤w.length := by
        have hexact := longRunCode i hi
        rw [hw] at hexact
        rw [Option.some.inj hexact]
        split_ifs
        · rw [length_ofNat]
        · rw [length_append,length_replicate,length_singleton]
          omega
      have hl := congrArg length hbits
      rw [length_append] at hl
      omega

theorem runBefore_agrees (hpos : 0<zerosLeft) (h14 : zerosLeft≤14)
    (hat : BitReader.At d left br) :
    Agrees d (readCheckedRun zerosLeft left) (checkedRun zerosLeft (runBefore br zerosLeft)) := by
  by_cases h7 : 7≤zerosLeft
  · exact runBefore_long_agrees h7 h14 hat
  · have hcode : runBeforeCode zerosLeft=codewords (runBeforeRows.getD (zerosLeft-1) []) := by
      rw [runBeforeCode,Nat.min_eq_left (by omega)]
    have hmatch := matchMap_agrees (rowGood_run zerosLeft (by omega) hpos) hat
    rw [← hcode] at hmatch
    have hrun : runBefore br zerosLeft =
        matchMap br (runLen.getD (zerosLeft-1) []) (runBits.getD (zerosLeft-1) [])
          (zerosLeft+1) := by
      rw [runBefore,if_pos (by omega)]
    rw [hrun]
    cases hs : symbol (runBeforeCode zerosLeft) left with
    | none =>
      rw [readSymbol,hs] at hmatch
      rw [readCheckedRun,readSymbol,hs]
      cases hmatch with
      | inl h => exact Or.inl (by rw [checkedRun,h,Option.bind_none])
      | inr h => exact Or.inr h
    | some p =>
      rw [readSymbol,hs] at hmatch
      exact checkedRun_of_symbol hs hmatch.1 hmatch.2

/-- The run loop's answer: the runs with the zeros left as the last one. -/
def runsAnswer (r : Option (List ℕ × ℕ) × BitReader) : Option (List ℕ) × BitReader :=
  (r.1.map fun p => p.1 ++ [p.2],r.2)

theorem readRuns_succ {n zerosLeft : ℕ} (hpos : 0<zerosLeft) (left : List Bool) :
    readRuns (n+2) zerosLeft left =
      readCheckedRun zerosLeft left >>= fun p =>
        readRuns (n+1) (zerosLeft-p.1) p.2 >>= fun q => pure (p.1::q.1,q.2) := by
  rw [readRuns,if_neg (by omega),readCheckedRun,bind_assoc]
  refine bind_congr fun p => ?_
  dsimp only
  by_cases hlt : zerosLeft < p.1
  · rw [if_pos hlt,if_pos hlt]
    rfl
  · rw [if_neg hlt,if_neg hlt]
    rfl

theorem runsFrom_succ {n zerosLeft : ℕ} (hpos : 0<zerosLeft) (br : BitReader) :
    runsFrom (n+1) zerosLeft br =
      match checkedRun zerosLeft (runBefore br zerosLeft) with
      | (none,br) => (none,br)
      | (some r,br) =>
        ((runsFrom n (zerosLeft-r) br).1.map fun p => (r::p.1,p.2),
          (runsFrom n (zerosLeft-r) br).2) := by
  rw [runsFrom,if_pos hpos,checkedRun]
  obtain ⟨found,br'⟩ := runBefore br zerosLeft
  cases found with
  | none => rfl
  | some r =>
    dsimp only [Option.bind]
    by_cases hlt : zerosLeft<r
    · rw [if_pos hlt,if_pos hlt]
    · rw [if_neg hlt,if_neg hlt]

theorem runsFrom_failed (h : br.ok=false) : (runsFrom n zerosLeft br).2.ok=false := by
  induction n generalizing zerosLeft br with
  | zero => exact h
  | succ n ih =>
    by_cases hpos : 0<zerosLeft
    · rw [runsFrom_succ hpos]
      have hbad : (checkedRun zerosLeft (runBefore br zerosLeft)).2.ok=false :=
        runBefore_failed h zerosLeft
      generalize checkedRun zerosLeft (runBefore br zerosLeft)=answer at hbad
      obtain ⟨found,br'⟩ := answer
      cases found with
      | none => exact hbad
      | some r => exact ih hbad
    · rw [runsFrom,if_neg hpos]
      exact ih h

/-- One more run in front. -/
theorem Agrees.cons_run {reading : Except Stop (List ℕ × List Bool)}
    {r : Option (List ℕ × ℕ) × BitReader} (h : Agrees d reading (runsAnswer r)) (z : ℕ) :
    Agrees d (reading >>= fun q => pure (z::q.1,q.2))
      (runsAnswer (r.1.map fun p => (z::p.1,p.2),r.2)) := by
  refine h.bind ?_ ?_
  · intro runs rest _ hruns hrest
    obtain ⟨p,hp,happ⟩ := Option.map_eq_some_iff.mp hruns
    refine ⟨?_,hrest⟩
    simp only [runsAnswer,hp,Option.map_some,← happ,cons_append]
  · intro hfail
    cases hfail with
    | inl h =>
      refine Or.inl ?_
      simp only [runsAnswer,Option.map_eq_none_iff] at h ⊢
      exact h
    | inr h => exact Or.inr h

theorem runsFrom_agrees (h14 : 0<n → zerosLeft≤14) (hat : BitReader.At d left br) :
    Agrees d (readRuns (n+1) zerosLeft left) (runsAnswer (runsFrom n zerosLeft br)) := by
  induction n generalizing zerosLeft left br with
  | zero => exact ⟨rfl,hat⟩
  | succ n ih =>
    by_cases hpos : 0<zerosLeft
    · have hle := h14 (Nat.succ_pos n)
      rw [readRuns_succ hpos,runsFrom_succ hpos]
      refine (runBefore_agrees hpos hle hat).bind ?_ ?_
      · intro r rest _ hsome hrest
        generalize checkedRun zerosLeft (runBefore br zerosLeft)=answer at hsome hrest
        obtain ⟨found,br'⟩ := answer
        subst hsome
        exact (ih (show 0<n → zerosLeft-r ≤ 14 from fun _ => by omega) hrest).cons_run r
      · intro hfail
        generalize checkedRun zerosLeft (runBefore br zerosLeft)=answer at hfail
        obtain ⟨found,br'⟩ := answer
        cases found with
        | none => exact Or.inl rfl
        | some r =>
          have hbad : br'.ok=false := by
            cases hfail with
            | inl h => cases h
            | inr h => exact h
          exact Or.inr (runsFrom_failed n hbad)
    · have hzero : zerosLeft=0 := by omega
      subst hzero
      rw [readRuns,if_pos rfl,runsFrom,if_neg hpos]
      exact (ih (fun _ => by omega) hat).cons_run 0

theorem set_pad16 (pre : List ℤ) (r : ℕ) (l : ℤ) (h : pre.length+r<16) :
    (pad16 pre).set (pre.length+r) l=pad16 (pre ++ List.replicate r 0 ++ [l]) := by
  have hsplit : pad16 pre = (pre ++ replicate r 0) ++
      0::replicate (16-pre.length-r-1) 0 := by
    rw [pad16,append_assoc,← replicate_succ,replicate_append_replicate,
      show r+(16-pre.length-r-1+1)=16-pre.length by omega]
  have hlen : (pre ++ replicate r (0 : ℤ)).length=pre.length+r := by
    rw [length_append,length_replicate]
  rw [hsplit,← hlen,set_append_right _ _ le_rfl,Nat.sub_self,set_cons_zero,pad16,
    length_append,hlen,length_singleton,append_assoc _ [l],
    show 16-(pre.length+r+1)=16-pre.length-r-1 by omega]
  rfl

theorem placeFrom_pad16 (ps : List (ℤ × ℕ)) (pre : List ℤ)
    (hroom : pre.length+(ps.map fun p => p.2+1).sum≤16) :
    placeFrom ps pre.length (pad16 pre) =
      (true,pad16 (pre ++ ps.flatMap fun p => List.replicate p.2 0 ++ [p.1])) := by
  induction ps generalizing pre with
  | nil => rw [placeFrom,flatMap_nil,append_nil]
  | cons p ps ih =>
    rw [map_cons,sum_cons] at hroom
    have hlen : (pre ++ replicate p.2 0 ++ [p.1]).length=pre.length+p.2+1 := by
      rw [length_append,length_append,length_replicate,length_singleton]
    have hrec := ih (pre ++ replicate p.2 0 ++ [p.1]) (by omega)
    rw [hlen] at hrec
    rw [placeFrom,if_neg (by omega),set_pad16 pre p.2 p.1 (by omega),hrec,flatMap_cons]
    simp only [append_assoc]

end Misterplex.Cavlc.Host
