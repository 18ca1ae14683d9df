import Misterplex.Cavlc.EngineLevels
import Misterplex.Cavlc.HostBlock

/-!
# The engine reads blocks

Signs and coeff_token in front of the levels, total_zeros, runs and placement
behind them make up a block. The engine ends every block, and where the bits are
a block its outputs are the ones of the host.
-/

namespace Misterplex.Cavlc.Engine

open BitString PrefixCode Host List

/-- The search finds the run that the bits spell, or none. -/
theorem runSearch_reads (i : Inputs) {pos zeros : ℕ} (hpos : pos≤512) (hz : 0<zeros) :
    match readCheckedRun zeros (window i pos) with
    | .ok (a,rest) => ∃ len, runSearch i pos zeros=some (a,len) ∧ a≤zeros ∧
        pos+len ≤ i.bitLen ∧ rest=window i (pos+len)
    | .error e => e = .invalid ∧ ∀ a len, runSearch i pos zeros=some (a,len) → zeros<a := by
  have hmax : (if zeros < 7 then 3 else 11)≤11 := by split_ifs <;> omega
  have hs := search_symbol (i := i) hpos hmax (by omega) (run_search hz)
  unfold readCheckedRun
  cases hr : readSymbol (runBeforeCode zeros) (window i pos) with
  | error e =>
    rw [hr] at hs
    refine ⟨hs.1,fun a len hsome => ?_⟩
    rw [runSearch,hs.2] at hsome
    cases hsome
  | ok p =>
    obtain ⟨a,rest⟩ := p
    rw [hr] at hs
    obtain ⟨len,hfound,hend,rfl⟩ := hs
    rw [ok_bind]
    by_cases hlt : zeros<a
    · rw [if_pos hlt]
      refine ⟨rfl,fun a' len' hsome => ?_⟩
      rw [runSearch,hfound] at hsome
      obtain ⟨rfl,_⟩ := Prod.mk.inj (Option.some.inj hsome)
      exact hlt
    · rw [if_neg hlt]
      exact ⟨len,hfound,Nat.le_of_not_lt hlt,hend,rfl⟩

/-- Registers that hold the levels and the runs so far. -/
structure RunsAt (r : Regs) (tc t1 : ℕ) (levels : List ℤ) (runs : List ℕ) : Prop where
  done : r.done=false
  /-- Total coefficients to decode. -/
  tcR : r.tcR=tc
  totalCoeff : r.totalCoeff=tc
  trailingOnes : r.trailingOnes=t1
  level : r.level.take tc=levels
  run : r.run = runs ++ List.replicate (16-runs.length) 0

/-- The engine has read more runs behind those it had and turns to placement. -/
def RunsDone (tc t1 : ℕ) (levels : List ℤ) (runs more : List ℕ) (r : Regs) : Prop :=
  r.st = .placeInit ∧ RunsAt r tc t1 levels (runs ++ more)

/-- From its run state the engine reads the runs of a number of coefficients. -/
def ReadsRuns (i : Inputs) (tc t1 : ℕ) (levels : List ℤ) (n : ℕ) : Prop :=
  ∀ (r : Regs) (runs : List ℕ), RunsAt r tc t1 levels runs → r.st = .runBit →
    r.idx=runs.length → runs.length+n=tc → r.bitPos ≤ i.bitLen →
    Yields i r (readRuns n r.zerosLeft (window i r.bitPos)) (RunsDone tc t1 levels runs)

theorem RunsAt.set_run (runs : List ℕ) (h : runs.length<16) (z : ℕ) :
    (runs ++ List.replicate (16-runs.length) 0).set (runs.length%16) z =
      (runs ++ [z]) ++ List.replicate (16-(runs ++ [z]).length) 0 := by
  obtain ⟨m,hm⟩ : ∃ m, 16-runs.length=m+1 := ⟨15-runs.length,by omega⟩
  rw [Nat.mod_eq_of_lt h,hm,replicate_succ,set_append_right _ _ le_rfl,Nat.sub_self,
    set_cons_zero,append_assoc,length_append,length_singleton,
    show 16-(runs.length+1)=m by omega]
  rfl

theorem readRuns_zero (n : ℕ) (bits : List Bool) :
    readRuns n 0 bits = .ok (List.replicate n 0,bits) := by
  induction n with
  | zero => rfl
  | succ n ih =>
    cases n with
    | zero => rfl
    | succ n =>
      rw [readRuns,if_pos rfl,ih]
      rfl

variable {i : Inputs} {r : Regs} {levels : List ℤ} {runs : List ℕ}

open Regs

theorem closeRuns_yields {tc t1 n : ℕ}
    (h : RunsAt r tc t1 levels runs) (htc : tc≤16) (hleft : runs.length+(n+1)=tc)
    (hclose : n=0 ∨ r.zerosLeft=0) (hpos : r.bitPos ≤ i.bitLen) :
    Yields i r.closeRuns (readRuns (n+1) r.zerosLeft (window i r.bitPos))
      (RunsDone tc t1 levels runs) := by
  have hlast : r.lastIdx%16=runs.length+n := by
    rw [lastIdx,h.tcR]
    omega
  have hread : readRuns (n+1) r.zerosLeft (window i r.bitPos) =
      .ok (replicate n 0 ++ [r.zerosLeft],window i r.bitPos) := by
    rcases hclose with rfl | hzero
    · rfl
    · rw [hzero,readRuns_zero,replicate_succ']
  have hset : r.run.set (runs.length+n) r.zerosLeft = (runs ++ (replicate n 0 ++
      [r.zerosLeft])) ++ replicate (16-(runs ++ (replicate n 0 ++
        [r.zerosLeft])).length) 0 := by
    have hsplit : r.run = (runs ++ replicate n 0) ++
        replicate (16-(runs ++ replicate n 0).length) 0 := by
      rw [h.run,append_assoc,replicate_append_replicate,length_append,
        length_replicate,show n+(16-(runs.length+n))=16-runs.length by omega]
    have hlen : (runs ++ replicate n 0).length=runs.length+n := by
      rw [length_append,length_replicate]
    have hstore := RunsAt.set_run (runs ++ replicate n 0) (by omega) r.zerosLeft
    rw [hlen,Nat.mod_eq_of_lt (by omega)] at hstore
    rw [hsplit,hlen,hstore,append_assoc runs]
  rw [hread]
  refine ⟨r.closeRuns,Steps.refl _,h.done,⟨rfl,?_⟩,hpos,rfl⟩
  refine { h with run := ?_ }
  rw [closeRuns,hlast]
  exact hset

/-- Behind the runs of a cycle the engine reads the others, given that it does so
from its run state. -/
theorem advanceRuns_yields {tc t1 k n : ℕ} (h : RunsAt r tc t1 levels runs) (htc : tc≤16)
    (hidx : r.idx+k=runs.length) (hleft : runs.length+(n+1)=tc)
    (hpos : r.bitPos ≤ i.bitLen) (hrest : ReadsRuns i tc t1 levels (n+1)) :
    Yields i (r.advanceRuns k) (readRuns (n+1) r.zerosLeft (window i r.bitPos))
      (RunsDone tc t1 levels runs) := by
  have hlast : r.lastIdx=runs.length+n := by
    rw [lastIdx,h.tcR]
    omega
  have hwrap : (r.idx+k)%32=runs.length := by rw [hidx,Nat.mod_eq_of_lt (by omega)]
  by_cases hclose : n=0 ∨ r.zerosLeft=0
  · rw [advanceRuns,if_pos (by omega)]
    exact closeRuns_yields h htc hleft hclose hpos
  · rw [advanceRuns,if_neg (by omega)]
    exact hrest { r with idx := (r.idx+k)%32, st := .runBit } runs
      { h with } rfl hwrap hleft hpos

theorem advanceRuns_done (r : Regs) (n : ℕ) : (r.advanceRuns n).done=r.done := by
  unfold advanceRuns closeRuns
  split_ifs <;> rfl

/-- One more run in front. -/
theorem Yields.cons_run {tc t1 a : ℕ} {reading : Except Stop (List ℕ × List Bool)}
    (h : Yields i r reading (RunsDone tc t1 levels (runs ++ [a]))) :
    Yields i r (reading >>= fun q => pure (a::q.1,q.2)) (RunsDone tc t1 levels runs) := by
  have hsame : RunsDone tc t1 levels (runs ++ [a]) =
      fun more => RunsDone tc t1 levels runs (a::more) := by
    funext more s
    simp only [RunsDone,append_assoc,singleton_append]
  rw [hsame] at h
  exact h.map (List.cons a)

theorem readCheckedRun_nil (zeros : ℕ) : readCheckedRun zeros [] = .error .invalid := by
  rw [readCheckedRun,readSymbol,symbol_nil]
  rfl

/-- The second run of a cycle: where it is given up the cycle ends without it,
where it is taken the cycle goes on behind it. -/
theorem secondRun_yields {tc t1 n zeros pos : ℕ} (hlen : i.bitLen≤512) (htc : tc≤16)
    (htcR : r.tcR=tc)
    (hidx : r.idx+1+(n+1)=tc) (hnone : secondRun i r zeros pos=none →
      Yields i r (readRuns (n+1) zeros (window i pos)) (RunsDone tc t1 levels runs))
    (hsome : ∀ b len m, n=m+1 → secondRun i r zeros pos=some (b,len) →
      pos+len ≤ i.bitLen →
      Yields i r (readRuns (m+1) (zeros-b) (window i (pos+len)))
        (RunsDone tc t1 levels (runs ++ [b]))) :
    Yields i r (readRuns (n+1) zeros (window i pos)) (RunsDone tc t1 levels runs) := by
  have hlast : r.lastIdx=r.idx+1+n := by
    rw [lastIdx,htcR]
    omega
  by_cases hgo : 0<n ∧ 0<zeros
  · obtain ⟨m,rfl⟩ : ∃ m, n=m+1 := ⟨n-1,by omega⟩
    rw [readRuns_succ hgo.2]
    by_cases hpos : pos < i.bitLen
    · have hread := runSearch_reads i (show pos≤512 by omega) hgo.2
      have hsecond : secondRun i r zeros pos =
          (runSearch i pos zeros).filter fun p => decide (p.1≤zeros) := by
        rw [secondRun,if_pos ⟨by omega,by omega,hpos⟩]
      cases hr : readCheckedRun zeros (window i pos) with
      | error e =>
        rw [hr] at hread
        have hmiss : secondRun i r zeros pos=none := by
          rw [hsecond]
          cases hs : runSearch i pos zeros with
          | none => rfl
          | some p =>
            have hlarge := hread.2 p.1 p.2 hs
            rw [Option.filter_some,if_neg (by simpa using hlarge)]
        have hstop := hnone hmiss
        rw [readRuns_succ hgo.2,hr] at hstop
        exact hstop
      | ok p =>
        obtain ⟨b,rest⟩ := p
        rw [hr] at hread
        obtain ⟨len,hfound,hle,hend,rfl⟩ := hread
        have htake : secondRun i r zeros pos=some (b,len) := by
          rw [hsecond,hfound,Option.filter_some,if_pos (by simpa using hle)]
        exact (hsome b len m rfl htake hend).cons_run
    · have hmiss : secondRun i r zeros pos=none := by
        rw [secondRun,if_neg (fun h => hpos h.2.2)]
      have hstop := hnone hmiss
      rw [readRuns_succ hgo.2] at hstop
      exact hstop
  · exact hnone (by rw [secondRun,if_neg (by omega)])

/-- The clock that looks for a run. -/
theorem step_runBit (hst : r.st = .runBit) (hdone : r.done=false) :
    step i false false r=runBit i r := by
  cases r
  cases hst
  cases hdone
  rfl

/-- A cycle with a first run. -/
theorem step_run {a lenA : ℕ} (hst : r.st = .runBit) (hdone : r.done=false)
    (hgo : ¬(r.lastIdx≤r.idx ∨ r.zerosLeft=0)) (hin : r.bitPos < i.bitLen)
    (hfound : runSearch i r.bitPos r.zerosLeft=some (a,lenA)) (hle : a≤r.zerosLeft)
    (hwrap : (r.bitPos+lenA)%1024=r.bitPos+lenA) : step i false false r =
      match secondRun i r (r.zerosLeft-a) (r.bitPos+lenA) with
      | some (b,lenB) =>
        advanceRuns { r with
          run := (r.run.set (r.idx%16) a).set ((r.idx+1)%16) b,
          zerosLeft := r.zerosLeft-a-b, bitPos := (r.bitPos+lenA+lenB)%1024 } 2
      | none =>
        advanceRuns { r with
          run := r.run.set (r.idx%16) a, zerosLeft := r.zerosLeft-a,
          bitPos := r.bitPos+lenA } 1 := by
  rw [step_runBit hst hdone,runBit,if_neg hgo,if_neg (by omega),hfound]
  dsimp only
  rewrite [if_neg (by omega),hwrap]
  rfl

variable {tc t1 : ℕ}

open Yields

/-- From its run state the engine reads the runs that are left, one or two of
them in a cycle. -/
theorem readsRuns (hlen : i.bitLen≤512)
    (htc : tc≤16) (n : ℕ) : ReadsRuns i tc t1 levels (n+1) := by
  induction n using Nat.strong_induction_on with
  | _ n ih =>
    intro r runs h hst hidx hleft hpos
    have hlast : r.lastIdx=runs.length+n := by
      rw [lastIdx,h.tcR]
      omega
    have hbusy : r.st ≠ .idle := by
      rw [hst]
      decide
    have hstep := step_runBit (i := i) hst h.done
    by_cases hclose : n=0 ∨ r.zerosLeft=0
    · refine after r.closeRuns hbusy ?_ h.done
        (closeRuns_yields h htc hleft hclose hpos)
      rw [hstep,runBit,if_pos (by omega)]
    · obtain ⟨m,rfl⟩ : ∃ m, n=m+1 := ⟨n-1,by omega⟩
      have hz : 0<r.zerosLeft := by omega
      have hgo : ¬(r.lastIdx≤r.idx ∨ r.zerosLeft=0) := by omega
      rw [readRuns_succ hz]
      by_cases hin : r.bitPos < i.bitLen
      · have hread := runSearch_reads i (show r.bitPos≤512 by omega) hz
        cases hr : readCheckedRun r.zerosLeft (window i r.bitPos) with
        | error e =>
          rw [hr] at hread
          obtain ⟨rfl,hlarge⟩ := hread
          refine failing hbusy h.done ?_
          rw [hstep,runBit,if_neg hgo,if_neg (by omega)]
          cases hs : runSearch i r.bitPos r.zerosLeft with
          | none => rfl
          | some p =>
            dsimp only
            rw [if_pos (hlarge p.1 p.2 hs)]
        | ok p =>
          obtain ⟨a,rest⟩ := p
          rw [hr] at hread
          obtain ⟨lenA,hfoundA,hleA,hendA,rfl⟩ := hread
          have hwrapA : (r.bitPos+lenA)%1024=r.bitPos+lenA := Nat.mod_eq_of_lt (by omega)
          have hidx16 : r.idx%16=runs.length%16 := by rw [hidx]
          have hsetA := RunsAt.set_run runs (by omega) a
          have hlenA : (runs ++ [a]).length=runs.length+1 := by
            rw [length_append,length_singleton]
          have hcycle := step_run hst h.done hgo hin hfoundA hleA hwrapA
          rw [ok_bind]
          dsimp only
          refine (secondRun_yields hlen htc h.tcR (by omega) ?_ ?_).cons_run
          · intro hnone
            rw [hnone] at hcycle
            refine after _ hbusy hcycle (by rw [advanceRuns_done]; exact h.done) ?_
            refine advanceRuns_yields (k := 1)
              { h with run := ?_ } htc (by dsimp only; omega)
              (by omega) hendA (ih m (by omega))
            rw [hidx16,h.run,hsetA]
          · intro b lenB k hk hsome hendB
            have hwrapB : (r.bitPos+lenA+lenB)%1024=r.bitPos+lenA+lenB :=
              Nat.mod_eq_of_lt (by omega)
            have hlenB : (runs ++ [a] ++ [b]).length=runs.length+2 := by
              rw [length_append,length_singleton,hlenA]
            have hsetB := RunsAt.set_run (runs ++ [a]) (by omega) b
            rw [hsome] at hcycle
            dsimp only at hcycle
            rw [hwrapB] at hcycle
            refine after _ hbusy hcycle (by rw [advanceRuns_done]; exact h.done) ?_
            refine advanceRuns_yields (k := 2)
              { h with run := ?_ } htc (by dsimp only; omega)
              (by omega) hendB (ih k (by omega))
            rw [hidx16,h.run,hsetA,hidx,← hlenA,hsetB]
      · rw [window_eq_nil (by omega),readCheckedRun_nil]
        refine failing hbusy h.done ?_
        rw [hstep,runBit,if_neg hgo,if_pos (by omega)]

/-- The clock that looks for the total of zeros. -/
theorem step_tzBit (hst : r.st = .tzBit) (hdone : r.done=false) :
    step i false false r=tzBit i r := by
  cases r
  cases hst
  cases hdone
  rfl

/-- A cycle that looks for the zeros. -/
theorem step_totalZeros {tc : ℕ} (hst : r.st = .tzBit) (hdone : r.done=false)
    (htc : r.tcR=tc) (hgo : ¬i.maxCoeff≤tc) (hin : r.bitPos < i.bitLen) :
    step i false false r =
      match search i r.bitPos 9 (if i.maxCoeff = 4 then 3 else 9)
        (fun len bits => totalZerosLookup (decide (i.maxCoeff=4)) tc len (bits%2^9)) with
      | none => { r with st := .fail }
      | some (zeros,len) =>
        if tc ≤ 1 ∨ zeros = 0 then closeRuns { r with
          bitPos := (r.bitPos+len)%1024, totalZeros := zeros, zerosLeft := zeros, idx := 0 }
        else { r with
          bitPos := (r.bitPos+len)%1024, totalZeros := zeros, zerosLeft := zeros, idx := 0,
          st := .runBit } := by
  have hchroma : (if decide (i.maxCoeff=4) then 3 else 9) = if i.maxCoeff = 4 then 3 else 9 :=
    if_congr decide_eq_true_iff rfl rfl
  subst htc
  rewrite [step_tzBit hst hdone,tzBit,if_neg hgo,if_neg (by omega),hchroma]
  rfl

theorem tzBit_yields (hlen : i.bitLen≤512)
    (h : LevelsAt r tc t1 levels) (hst : r.st = .tzBit) (hlevels : levels.length=tc)
    (htc : 0<tc) (hle : tc ≤ i.maxCoeff) (hmax : i.maxCoeff≤16) (hpos : r.bitPos ≤ i.bitLen) :
    Yields i r
      (readTotalZeros i.maxCoeff tc (window i r.bitPos) >>= fun z => readRuns tc z.1 z.2)
      (RunsDone tc t1 levels []) := by
  have hbusy : r.st ≠ .idle := by
    rw [hst]
    decide
  have hstep := step_tzBit (i := i) hst h.done
  have hlevel : r.level.take tc=levels := hlevels ▸ h.level
  obtain ⟨n,rfl⟩ : ∃ n, tc=n+1 := ⟨tc-1,by omega⟩
  by_cases hfull : i.maxCoeff≤n+1
  · rw [readTotalZeros,if_neg (by omega),ok_bind]
    rw [readRuns_zero]
    refine after { r with totalZeros := 0, zerosLeft := 0, idx := 0, st := .placeInit } hbusy
      ?_ h.done
      (ok h.done ⟨rfl,h.done,h.tcR,h.totalCoeff,h.trailingOnes,hlevel,?_⟩ hpos)
    · rw [hstep,tzBit,if_pos (by rw [h.tcR]; exact hfull)]
    · rw [nil_append,length_replicate,replicate_append_replicate,
        show n+1+(16-(n+1))=16 by omega]
      exact h.run
  · rw [readTotalZeros,if_pos (by omega)]
    have hgo : ¬i.maxCoeff≤r.tcR := by
      rw [h.tcR]
      exact hfull
    by_cases hin : r.bitPos < i.bitLen
    · have hmaxLen : (if i.maxCoeff = 4 then 3 else 9)≤9 := by split_ifs <;> omega
      have hread := search_symbol (i := i) (show r.bitPos≤512 by omega) hmaxLen (by omega)
        (totalZeros_search htc (Nat.lt_of_not_le hfull) hmax)
      have hcycle := step_totalZeros hst h.done h.tcR hfull hin
      cases hr : readSymbol (totalZerosCode i.maxCoeff (n+1)) (window i r.bitPos) with
      | error e =>
        rw [hr] at hread
        obtain ⟨rfl,hmiss⟩ := hread
        rw [hmiss] at hcycle
        exact failing hbusy h.done hcycle
      | ok p =>
        obtain ⟨zeros,rest⟩ := p
        rw [hr] at hread
        obtain ⟨len,hfound,hend,rfl⟩ := hread
        have hwrap : (r.bitPos+len)%1024=r.bitPos+len := Nat.mod_eq_of_lt (by omega)
        rw [hfound] at hcycle
        dsimp only at hcycle
        rw [hwrap] at hcycle
        have hruns : ∀ st, RunsAt { r with
            bitPos := r.bitPos+len, totalZeros := zeros, zerosLeft := zeros, idx := 0, st := st }
            (n+1) t1 levels [] :=
          fun _ => { h with level := hlevel }
        by_cases hclose : n+1≤1 ∨ zeros=0
        · rw [if_pos hclose] at hcycle
          exact after _ hbusy hcycle h.done
            (closeRuns_yields (hruns r.st) (by omega) (Nat.zero_add _) (by dsimp only; omega) hend)
        · rw [if_neg hclose] at hcycle
          exact after _ hbusy hcycle h.done
            (readsRuns hlen (by omega) n _ [] (hruns .runBit) rfl rfl (Nat.zero_add _) hend)
    · have hnil : readSymbol (totalZerosCode i.maxCoeff (n+1)) (window i r.bitPos) =
          .error .invalid := by
        rw [window_eq_nil (by omega),readSymbol,symbol_nil]
      rw [hnil]
      refine failing hbusy h.done ?_
      rw [hstep,tzBit,if_neg hgo,if_pos (by omega)]

theorem placeFrom_eq (r : Regs) (m next : ℕ) (coeff : List ℤ) :
    placeFrom r m next coeff=Host.placeFrom ((List.range (min m r.tcR)).reverse.map fun k =>
      (r.level.getD k 0,r.run.getD k 0)) next coeff := by
  induction m generalizing next coeff with
  | zero => rfl
  | succ m ih =>
    by_cases hin : m+1≤r.tcR
    · rw [placeFrom,if_pos hin,Nat.min_eq_left hin,range_succ,reverse_concat,
        map_cons,Host.placeFrom]
      by_cases hfit : next+r.run.getD m 0<16
      · rw [if_pos hfit,if_neg (by omega),ih,Nat.min_eq_left (by omega)]
      · rw [if_neg hfit,if_pos (by omega)]
    · rw [placeFrom,if_neg hin,ih,Nat.min_eq_right (by omega),Nat.min_eq_right (by omega)]

/-- Registers at the end of a block that was decoded. -/
structure BlockDone (b : Block) (r : Regs) : Prop where
  st : r.st = .done
  ok : r.ok=true
  totalCoeff : r.totalCoeff=b.totalCoeff
  trailingOnes : r.trailingOnes=b.trailingOnes
  coeff : r.coeff=b.coeff
  bitOffsetEnd : r.bitOffsetEnd=r.bitPos

theorem step_placeInit (hst : r.st = .placeInit) (hdone : r.done=false) :
    step i false false r=placeInit r := by
  cases r
  cases hst
  cases hdone
  rfl

theorem placeInit_yields
    (h : RunsAt r tc t1 levels runs) (hst : r.st = .placeInit) (hlevels : levels.length=tc)
    (hruns : runs.length=tc) (hroom : tc+runs.sum≤16) (hpos : r.bitPos ≤ i.bitLen) :
    Yields i r (pure (⟨t1,levels,runs⟩,window i r.bitPos)) BlockDone := by
  have hbusy : r.st ≠ .idle := by
    rw [hst]
    decide
  have hpairs : ((range (min 16 r.tcR)).reverse.map fun k =>
      (r.level.getD k 0,r.run.getD k 0)) =
      (range tc).reverse.map fun k => (levels.getD k 0,runs.getD k 0) := by
    rw [h.tcR,Nat.min_eq_right (by omega)]
    refine map_congr_left fun k hk => ?_
    have hk : k<tc := mem_range.mp (mem_reverse.mp hk)
    have hlevel : r.level.getD k 0=levels.getD k 0 := by
      rw [← h.level,getD_eq_getElem?_getD,getD_eq_getElem?_getD,
        getElem?_take_of_lt hk]
    have hrun : r.run.getD k 0=runs.getD k 0 := by
      rw [h.run,getD_eq_getElem?_getD,getD_eq_getElem?_getD,
        getElem?_append_left (by omega)]
    rw [hlevel,hrun]
  have hplace := place_block (b := ⟨t1,levels,runs⟩) (by rw [hlevels,hruns])
    (by rw [hlevels]; exact hroom)
  rw [show Block.totalCoeff ⟨t1,levels,runs⟩=tc from hlevels,← hpairs] at hplace
  have hplaced : placeFrom r 16 0 (replicate 16 0)=(true,Block.coeff ⟨t1,levels,runs⟩) := by
    rw [placeFrom_eq]
    exact hplace
  refine after { r with
    coeff := Block.coeff ⟨t1,levels,runs⟩, ok := true, bitOffsetEnd := r.bitPos, st := .done } hbusy
    ?_ h.done (ok h.done ⟨rfl,rfl,?_,h.trailingOnes,rfl,rfl⟩ hpos)
  · rw [step_placeInit hst h.done,placeInit,hplaced,if_pos rfl]
  · exact h.totalCoeff.trans hlevels.symm

theorem readSigns_eq (n : ℕ) (bits : List Bool) :
    readSigns n bits = if n ≤ bits.length then .ok ((bits.take n).map signLevel,bits.drop n)
      else .error .invalid := by
  induction n generalizing bits with
  | zero => rfl
  | succ n ih =>
    cases bits with
    | nil => rfl
    | cons b bits =>
      have hfield : readField 1 (b::bits) = .ok (b.toNat,bits) := by
        cases b <;> rfl
      have hsign : (if b.toNat = 1 then (-1 : ℤ) else 1)=signLevel b := by cases b <;> rfl
      rw [readSigns,hfield,ok_bind]
      dsimp only
      rw [ih,hsign,length_cons]
      by_cases hle : n≤bits.length
      · rw [if_pos hle,if_pos (by omega)]
        rfl
      · rw [if_neg hle,if_neg (by omega)]
        rfl

/-- The engine has read the signs and turns to the levels, or to total_zeros if
all coefficients are trailing ones. -/
structure SignsDone (tc t1 : ℕ) (ones : List ℤ) (r : Regs) : Prop
    extends LevelsAt r tc t1 ones where
  count : ones.length=t1
  next : if tc = t1 then r.st = .tzBit else r.st = .lvlPre ∧ r.idx=t1 ∧ r.firstNonT1=true ∧
    r.suffixLength=firstSuffixLength tc t1

theorem step_sign (hst : r.st = .sign) (hdone : r.done=false) :
    step i false false r=sign i r := by
  cases r
  cases hst
  cases hdone
  rfl

theorem sign_levels (sw : List Bool) {t1 : ℕ} (hsw : 3 ≤ sw.length) (hpos : 0<t1) (h3 : t1≤3) :
    storeSigns t1 sw (List.replicate 16 0) =
      (sw.take t1).map signLevel ++ List.replicate (16-t1) 0 := by
  obtain ⟨a,b,c,tail,rfl⟩ : ∃ a b c tail, sw=a::b::c::tail := by
    match sw,hsw with
    | a::b::c::tail,_ => exact ⟨a,b,c,tail,rfl⟩
  rcases (show t1=1 ∨ t1=2 ∨ t1=3 by omega) with rfl | rfl | rfl <;> rfl

theorem sign_yields (hlen : i.bitLen≤512)
    (h : LevelsAt r tc t1 []) (hclear : r.level=List.replicate 16 0) (hst : r.st = .sign)
    (ht1 : 0<t1) (h3 : t1≤3) (hpos : r.bitPos ≤ i.bitLen) :
    Yields i r (readSigns t1 (window i r.bitPos)) (SignsDone tc t1) := by
  have hbusy : r.st ≠ .idle := by
    rw [hst]
    decide
  have hwrap : (r.bitPos+r.t1R)%1024=r.bitPos+t1 := by
    rw [h.t1R]
    exact Nat.mod_eq_of_lt (by omega)
  have hstep := step_sign (i := i) hst h.done
  rw [readSigns_eq,length_window]
  by_cases hfit : r.bitPos+t1 ≤ i.bitLen
  · have hsw : (peek32 i r.bitPos).length=32 := by
      rw [peek32,length_map,length_range]
    have hlevels := sign_levels (peek32 i r.bitPos) (by omega) ht1 h3
    have htake := take_peek32 (i := i) (show r.bitPos≤512 by omega) (show t1≤32 by omega) hfit
    have hcount : ((window i r.bitPos).take t1).length=t1 :=
      length_take_of_le (by rw [length_window]; omega)
    rw [htake] at hlevels
    have hsize : (((window i r.bitPos).take t1).map signLevel).length=t1 := by
      rw [length_map,hcount]
    have hat : ∀ s : Regs, s.done=r.done → s.tcR=r.tcR → s.t1R=r.t1R →
        s.totalCoeff=r.totalCoeff → s.trailingOnes=r.trailingOnes → s.run=r.run →
        s.level=storeSigns t1 (peek32 i r.bitPos) (replicate 16 0) →
        LevelsAt s tc t1 (((window i r.bitPos).take t1).map signLevel) := by
      intro s hdone htcR ht1R htotal hones hrun hlevel
      refine ⟨hdone.trans h.done,htcR.trans h.tcR,ht1R.trans h.t1R,htotal.trans h.totalCoeff,
        hones.trans h.trailingOnes,hrun.trans h.run,?_,?_⟩
      · rw [hlevel,hlevels,length_append,hsize,length_replicate]
        omega
      · rw [hlevel,hlevels,take_left' rfl]
    have hcycle : step i false false r =
        if tc = t1 then { r with
          level := storeSigns t1 (peek32 i r.bitPos) (replicate 16 0),
          bitPos := r.bitPos+t1, idx := t1, st := .tzBit }
        else { r with
          level := storeSigns t1 (peek32 i r.bitPos) (replicate 16 0),
          bitPos := r.bitPos+t1, idx := t1, suffixLength := firstSuffixLength tc t1,
          firstNonT1 := true, levelPrefix := 0, st := .lvlPre } := by
      rw [hstep,sign,hwrap,if_neg (by omega)]
      simp only [h.tcR,h.t1R,hclear]
      rfl
    rw [if_pos (by omega),drop_window]
    by_cases hall : tc=t1
    · rw [if_pos hall] at hcycle
      refine after _ hbusy hcycle h.done (ok h.done ?_ hfit)
      exact ⟨hat _ rfl rfl rfl rfl rfl rfl rfl,hsize,by rw [if_pos hall]⟩
    · rw [if_neg hall] at hcycle
      refine after _ hbusy hcycle h.done (ok h.done ?_ hfit)
      exact ⟨hat _ rfl rfl rfl rfl rfl rfl rfl,hsize,by rw [if_neg hall]; exact ⟨rfl,rfl,rfl,rfl⟩⟩
  · rw [if_neg (by omega)]
    refine failing hbusy h.done ?_
    rw [hstep,sign,hwrap,if_pos (by omega)]

theorem coefficients_yields (hlen : i.bitLen≤512)
    (hsigns : Yields i r (readSigns t1 (window i r.bitPos)) (SignsDone tc t1)) (htc : 0<tc)
    (ht1 : t1≤tc) (hle : tc ≤ i.maxCoeff) (hmax : i.maxCoeff≤16) :
    Yields i r (readCoefficients i.maxCoeff tc t1 (window i r.bitPos)) BlockDone := by
  have hstages : readCoefficients i.maxCoeff tc t1 (window i r.bitPos) =
      readSigns t1 (window i r.bitPos) >>= fun o =>
        (readLevels (tc-t1) (firstSuffixLength tc t1) (decide (t1<3)) o.2 >>= fun p =>
          pure (o.1 ++ p.1,p.2)) >>= fun l =>
            (readTotalZeros i.maxCoeff tc l.2 >>= fun z => readRuns tc z.1 z.2) >>= fun z =>
              pure (⟨t1,l.1,z.1⟩,z.2) := by
    simp only [readCoefficients,bind_assoc,pure_bind]
  rw [hstages]
  refine hsigns.bind fun ones s _ hdone hpos hs => ?_
  have hlevels : Yields i s (readLevels (tc-t1) (firstSuffixLength tc t1) (decide (t1<3))
      (window i s.bitPos)) (LevelsDone tc t1 ones) := by
    have hnext := hs.next
    by_cases hall : tc=t1
    · rw [if_pos hall] at hnext
      rw [hall,Nat.sub_self,readLevels]
      refine ok hdone ⟨hnext,?_⟩ hpos
      rw [append_nil,← hall]
      exact hall ▸ hs.toLevelsAt
    · rw [if_neg hall] at hnext
      obtain ⟨hst,hidx,hfirst,hsl⟩ := hnext
      have hrange : SuffixRange s.firstNonT1 s.suffixLength := by
        rw [hfirst,hsl]
        refine (show firstSuffixLength tc t1≤1 from ?_)
        unfold firstSuffixLength
        split_ifs <;> omega
      have hread := readsLevels hlen (by omega) (tc-t1) s ones
        ⟨hs.toLevelsAt,hst,hidx.trans hs.count.symm,by rw [hs.count]; omega,by omega,hrange,hpos⟩
      rw [hfirst,hsl,Bool.true_and] at hread
      exact hread
  have hall : Yields i s (readLevels (tc-t1) (firstSuffixLength tc t1) (decide (t1<3))
      (window i s.bitPos) >>= fun p => pure (ones ++ p.1,p.2))
      (fun levels u => u.st = .tzBit ∧ LevelsAt u tc t1 levels) := hlevels.map (ones ++ ·)
  refine hall.bind fun levels u hread hdone hpos hu => ?_
  have hcount : levels.length=tc := by
    obtain ⟨p,hp,heq⟩ := ok_of_bind_ok hread
    obtain ⟨rfl,_⟩ := Prod.mk.inj (Except.ok.inj heq)
    rw [length_append,hs.count,length_readLevels hp]
    omega
  refine (tzBit_yields hlen hu.2 hu.1 hcount htc hle hmax hpos).bind
    fun runs v hread hdone hpos hv => ?_
  obtain ⟨z,hz,hruns⟩ := ok_of_bind_ok hread
  have hroom := readTotalZeros_le htc hle hmax hz
  obtain ⟨n,rfl⟩ : ∃ n, tc=n+1 := ⟨tc-1,by omega⟩
  obtain ⟨hlength,hsum⟩ := readRuns_shape hruns
  exact placeInit_yields hv.2 hv.1 hcount hlength (show n+1+runs.sum≤16 by omega) hpos

theorem step_tokenBit (hst : r.st = .tokenBit) (hdone : r.done=false) :
    step i false false r=tokenBit i r := by
  cases r
  cases hst
  cases hdone
  rfl

theorem tokenBit_yields {table : TokenTable} (hlen : i.bitLen≤512)
    (htable : i.coeffTokenTable=tableNumber table) (hmax : i.maxCoeff≤16)
    (hst : r.st = .tokenBit) (hdone : r.done=false) (hlevel : r.level=List.replicate 16 0)
    (hrun : r.run=List.replicate 16 0) (hcoeff : r.coeff=List.replicate 16 0) :
    Yields i r (readBlock table i.maxCoeff (window i r.bitPos)) BlockDone := by
  have hbusy : r.st ≠ .idle := by
    rw [hst]
    decide
  have hstep := step_tokenBit (i := i) hst hdone
  rw [readBlock]
  by_cases hin : r.bitPos < i.bitLen
  · have htries : tokenMax (tableNumber table)≤16 := by cases table <;> decide
    have hread := search_symbol (i := i) (show r.bitPos≤512 by omega) htries (by omega)
      (token_search table)
    cases hr : readSymbol table.code (window i r.bitPos) with
    | error e =>
      rw [hr] at hread
      obtain ⟨rfl,hmiss⟩ := hread
      refine failing hbusy hdone ?_
      rw [hstep,tokenBit,if_neg (by omega),htable,hmiss]
    | ok p =>
      obtain ⟨token,rest⟩ := p
      rw [hr] at hread
      obtain ⟨len,hfound,hend,rfl⟩ := hread
      have hwrap : (r.bitPos+len)%1024=r.bitPos+len := Nat.mod_eq_of_lt (by omega)
      have hcycle : step i false false r =
          if i.maxCoeff < token/4 ∨ token/4 < token%4 then { r with
            bitPos := r.bitPos+len, tcR := token/4, t1R := token%4, totalCoeff := token/4,
            trailingOnes := token%4, st := .fail }
          else if token/4 = 0 then { r with
            bitPos := r.bitPos+len, tcR := token/4, t1R := token%4, totalCoeff := token/4,
            trailingOnes := token%4, ok := true, bitOffsetEnd := r.bitPos+len, st := .done }
          else if token%4 ≠ 0 then { r with
            bitPos := r.bitPos+len, tcR := token/4, t1R := token%4, totalCoeff := token/4,
            trailingOnes := token%4, idx := 0, st := .sign }
          else { r with
            bitPos := r.bitPos+len, tcR := token/4, t1R := token%4, totalCoeff := token/4,
            trailingOnes := token%4, idx := 0, suffixLength := if 10 < token/4 then 1 else 0,
            firstNonT1 := true, levelPrefix := 0, st := .lvlPre } := by
        rw [hstep,tokenBit,if_neg (by omega),htable,hfound]
        dsimp only
        rw [hwrap]
      have hat : ∀ s : Regs, s.done=r.done → s.tcR=token/4 → s.t1R=token%4 →
          s.totalCoeff=token/4 → s.trailingOnes=token%4 → s.run=r.run →
          s.level=r.level → LevelsAt s (token/4) (token%4) [] := by
        intro s hsdone htcR ht1R htotal hones hsrun hslevel
        refine ⟨hsdone.trans hdone,htcR,ht1R,htotal,hones,hsrun.trans hrun,?_,rfl⟩
        rw [hslevel,hlevel,length_replicate]
      rw [ok_bind]
      dsimp only
      by_cases hbad : i.maxCoeff<token/4 ∨ token/4<token%4
      · rw [if_pos hbad] at hcycle ⊢
        exact after _ hbusy hcycle hdone (fail hdone rfl)
      · rw [if_neg hbad] at hcycle ⊢
        by_cases hzero : token/4=0
        · rw [if_pos hzero] at hcycle ⊢
          refine after _ hbusy hcycle hdone (ok hdone ⟨rfl,rfl,hzero,?_,hcoeff,rfl⟩ hend)
          exact (show token%4=0 by omega)
        · rw [if_neg hzero] at hcycle ⊢
          by_cases hones : token%4≠0
          · rw [if_pos hones] at hcycle
            refine after _ hbusy hcycle hdone
              (coefficients_yields hlen ?_ (by omega) (by omega) (by omega) hmax)
            exact sign_yields hlen (hat _ rfl rfl rfl rfl rfl rfl rfl) hlevel rfl (by omega) (by omega)
              hend
          · rw [if_neg hones] at hcycle
            refine after _ hbusy hcycle hdone
              (coefficients_yields hlen ?_ (by omega) (by omega) (by omega) hmax)
            have hnone : token%4=0 := by omega
            have hfirst : firstSuffixLength (token/4) 0 = if 10 < token/4 then 1 else 0 := by
              unfold firstSuffixLength
              split_ifs <;> omega
            rw [hnone] at hat ⊢
            refine ok hdone ⟨hat _ rfl rfl rfl rfl rfl rfl rfl,rfl,?_⟩ hend
            rw [if_neg hzero]
            exact ⟨rfl,rfl,rfl,hfirst.symm⟩
  · rw [window_eq_nil (by omega),readSymbol,symbol_nil]
    refine failing hbusy hdone ?_
    rw [hstep,tokenBit,if_pos (by omega)]

theorem step_start (h : r.st ≠ .idle) (start : Bool) :
    step i false start r=step i false false r := by
  cases r with
  | mk st =>
    cases st with
    | idle => exact absurd rfl h
    | _ => rfl

/-- Busy clock edges up to the end of a block are the ones of the clock, and the
pulse stays down on the way. -/
theorem Steps.clocks {start : ℕ → Bool} {r₀ r r' : Regs} (h : Steps i r r') (t : ℕ)
    (hr : clocks i start r₀ t=r) (hdone : r.done=false) :
    ∃ n, (∀ m≤n, (Engine.clocks i start r₀ (t+m)).done=false) ∧
      Engine.clocks i start r₀ (t+n)=r' := by
  induction h generalizing t with
  | refl r =>
    refine ⟨0,fun m hm => ?_,hr⟩
    obtain rfl : m=0 := by omega
    rw [Nat.add_zero,hr,hdone]
  | @next r r' hbusy hnext _ ih =>
    have hone : Engine.clocks i start r₀ (t+1)=step i false false r := by
      rw [Engine.clocks,hr,step_start hbusy]
    obtain ⟨n,hdown,hend⟩ := ih (t+1) hone hnext
    refine ⟨n+1,fun m hm => ?_,by rw [← hend,Nat.add_assoc,Nat.add_comm 1]⟩
    cases m with
    | zero => rw [Nat.add_zero,hr,hdone]
    | succ m =>
      have hm' := hdown m (by omega)
      rw [Nat.add_assoc,Nat.add_comm 1] at hm'
      exact hm'

/-- Outputs at the pulse: a block with the position behind it, or a failure. -/
def Shows (i : Inputs) (reading : Except Stop (Block × List Bool)) (r : Regs) : Prop :=
  match reading with
  | .ok (b,rest) => r.ok=true ∧ r.totalCoeff=b.totalCoeff ∧ r.trailingOnes=b.trailingOnes ∧
      r.coeff=b.coeff ∧ r.bitOffsetEnd ≤ i.bitLen ∧ rest=window i r.bitOffsetEnd
  | .error _ => r.ok=false

/-- Started on any bits, the engine ends its block with one pulse, at which its
outputs show what is read from the bits, unless a level prefix is too long. -/
theorem clocks_readBlock {table : TokenTable} {start : ℕ → Bool}
    (hlen : i.bitLen≤512) (htable : i.coeffTokenTable=tableNumber table)
    (hmax : i.maxCoeff≤16) (hidle : r.st = .idle) (hstart : start 0=true)
    (hshort : readBlock table i.maxCoeff (window i i.bitOffsetStart) ≠ .error .longPrefix) :
    ∃ n, (∀ m, 0 < m → m<n → (clocks i start r m).done=false) ∧
      (clocks i start r n).done=true ∧
      Shows i (readBlock table i.maxCoeff (window i i.bitOffsetStart)) (clocks i start r n) := by
  have hbegin : clocks i start r 1=begin i { r with done := false } := by
    rw [clocks,clocks,hstart]
    cases r
    cases hidle
    rfl
  have hread := tokenBit_yields (r := begin i { r with done := false }) hlen htable hmax rfl
    rfl rfl rfl rfl
  rw [show (begin i { r with done := false }).bitPos=i.bitOffsetStart from rfl] at hread
  cases hr : readBlock table i.maxCoeff (window i i.bitOffsetStart) with
  | ok p =>
    obtain ⟨b,rest⟩ := p
    rw [hr] at hread
    obtain ⟨s,hsteps,_,hs,hpos,rfl⟩ := hread
    obtain ⟨n,hdown,hend⟩ := hsteps.clocks 1 hbegin rfl
    have hlast : clocks i start r (1+n+1) = { s with busy := false, done := true, st := .idle } := by
      rw [clocks,hend]
      have hst := hs.st
      cases s
      cases hst
      rfl
    refine ⟨1+n+1,fun m hm hlt => ?_,by rw [hlast],?_⟩
    · have hm' := hdown (m-1) (by omega)
      rwa [Nat.add_sub_cancel' hm] at hm'
    · rw [hlast]
      refine ⟨hs.ok,hs.totalCoeff,hs.trailingOnes,hs.coeff,?_,?_⟩
      · exact hs.bitOffsetEnd.le.trans hpos
      · exact congrArg (window i) hs.bitOffsetEnd.symm
  | error e =>
    cases e with
    | longPrefix => exact absurd hr hshort
    | invalid =>
      rw [hr] at hread
      obtain ⟨s,hsteps,_,hst⟩ := hread
      obtain ⟨n,hdown,hend⟩ := hsteps.clocks 1 hbegin rfl
      have hlast : clocks i start r (1+n+1) =
          { s with busy := false, ok := false, bitOffsetEnd := s.bitPos, done := true, st := .idle } := by
        rw [clocks,hend]
        cases s
        cases hst
        rfl
      refine ⟨1+n+1,fun m hm hlt => ?_,by rw [hlast],by rw [hlast]; rfl⟩
      have hm' := hdown (m-1) (by omega)
      rwa [Nat.add_sub_cancel' hm] at hm'

/-- The engine shows what the host returns and ends as many bits further. -/
def SameOutputs (i : Inputs) (br : BitReader) (engine : Regs)
    (host : ResidualResult × BitReader) : Prop :=
  engine.totalCoeff=host.1.totalCoeff ∧ engine.trailingOnes=host.1.trailingOnes ∧
    engine.coeff=host.1.coeff ∧ engine.bitOffsetEnd+br.bit=i.bitOffsetStart+host.2.bit

instance (i : Inputs) (br : BitReader) (engine : Regs) (host : ResidualResult × BitReader) :
    Decidable (SameOutputs i br engine host) :=
  inferInstanceAs (Decidable (_ ∧ _ ∧ _ ∧ _))

/-- The engine and the host on the same bits, whatever they are: the engine ends
with the flag of the host, and where it is up with the same total coefficients,
trailing ones and coefficients, the same number of bits further. -/
theorem engine_agrees_host (i : Inputs) (nC : ℤ) (br : BitReader) (start : ℕ → Bool) (r : Regs)
    (hlen : i.bitLen≤512) (htable : i.coeffTokenTable=tableNumber (tokenTable nC))
    (hmax : i.maxCoeff=4 ∨ i.maxCoeff=15 ∨ i.maxCoeff=16) (hok : br.ok=true)
    (hbit : br.bit≤8*br.d.length) (hrest : br.rest=window i i.bitOffsetStart)
    (hidle : r.st = .idle) (hstart : start 0=true)
    (hshort : readBlock (tokenTable nC) i.maxCoeff br.rest ≠ .error .longPrefix) :
    ∃ n, (∀ m, 0 < m → m<n → (clocks i start r m).done=false) ∧
      let engine := clocks i start r n
      let host := residualBlock br nC i.maxCoeff
      engine.done=true ∧ engine.ok=host.1.ok ∧
        (host.1.ok=true → SameOutputs i br engine host) := by
  rw [hrest] at hshort
  obtain ⟨n,hdown,hdone,hshows⟩ := clocks_readBlock (r := r) hlen htable (by omega) hidle hstart
    hshort
  have hat := BitReader.at_rest hok hbit
  have hagree := residualBlock_agrees nC (show 0 < i.maxCoeff by omega) (by omega) hat
  have hposition := hat.position
  rw [hrest] at hagree hposition
  refine ⟨n,hdown,hdone,?_⟩
  cases hr : readBlock (tokenTable nC) i.maxCoeff (window i i.bitOffsetStart) with
  | ok p =>
    obtain ⟨b,rest⟩ := p
    rw [hr] at hagree hshows
    obtain ⟨hanswer,hend⟩ := hagree
    obtain ⟨hup,htotal,hones,hcoeff,hend',rfl⟩ := hshows
    have hin : i.bitOffsetStart ≤ i.bitLen := by
      by_contra hout
      rw [window_eq_nil (by omega),readBlock,readSymbol,symbol_nil] at hr
      cases hr
    have hresult : (residualBlock br nC i.maxCoeff).1=resultOf b := by
      dsimp only [blockAnswer] at hanswer
      split_ifs at hanswer
      exact Option.some.inj hanswer
    have hafter : BitReader.At br.d (window i (clocks i start r n).bitOffsetEnd)
        (residualBlock br nC i.maxCoeff).2 := hend
    have hposition' := hafter.position
    rw [length_window] at hposition hposition'
    refine ⟨by rw [hresult]; exact hup,fun _ => ⟨?_,?_,?_,by omega⟩⟩
    · rw [hresult]
      exact htotal
    · rw [hresult]
      exact hones
    · rw [hresult]
      exact hcoeff
  | error e =>
    rw [hr] at hagree hshows
    have hdown : (residualBlock br nC i.maxCoeff).1.ok=false := by
      cases e with
      | longPrefix => exact absurd hr hshort
      | invalid =>
        cases hflag : (residualBlock br nC i.maxCoeff).1.ok with
        | false => rfl
        | true =>
          have hhealthy := residualBlock_healthy hok hflag
          cases hagree with
          | inl hnone =>
            rw [blockAnswer,if_pos hflag] at hnone
            cases hnone
          | inr hdead => exact absurd (hdead.symm.trans hhealthy) Bool.noConfusion
    rw [hdown]
    exact ⟨hshows,fun h => Bool.noConfusion h⟩

/-- On a block with an escaped level the engine shows its coefficients. -/
theorem engine_agrees_host_escape :
    ∃ n, (clocks ⟨0,16,3,48,([225#8,96#8,0#8,16#8,7#8,215#8].getD · 0#8)⟩ (· == 0)
      Regs.zero n).coeff=[0,-20,0,1,-1,0,0,0,0,0,0,0,0,0,0,0] := by
  obtain ⟨n,_,_,_,hsame⟩ := engine_agrees_host
    ⟨0,16,3,48,([225#8,96#8,0#8,16#8,7#8,215#8].getD · 0#8)⟩ 0
    ⟨[225#8,96#8,0#8,16#8,7#8,215#8],3,true⟩ (· == 0) zero (by decide) rfl (by decide) rfl
    (by decide) (by decide) rfl rfl (by decide)
  have hcoeff := (hsame (by decide)).2.2.1
  refine ⟨n,hcoeff.trans ?_⟩
  decide

/-- Seven bits that are no code but become one with the zero that the host reads
past the end: both fail, and the host shows three coefficients and the engine
none. -/
theorem engine_differs_on_partial_token :
    let i : Inputs := ⟨0,16,1,8,fun _ => 3#8⟩
    let br : BitReader := ⟨[3#8],1,true⟩
    br.rest=window i i.bitOffsetStart ∧
      readBlock (tokenTable 0) i.maxCoeff br.rest = .error .invalid ∧
      (clocks i (· == 0) Regs.zero 1).done=false ∧ (clocks i (· == 0) Regs.zero 2).done=false ∧
      (clocks i (· == 0) Regs.zero 3).done=true ∧
      ¬SameOutputs i br (clocks i (· == 0) Regs.zero 3) (residualBlock br 0 i.maxCoeff) := by
  decide

end Misterplex.Cavlc.Engine
