import Misterplex.Npx.Flow
import Misterplex.Lib.Endless

/-!
# When the skid overruns

The beam is held as soon as the skid holds twelve groups. Up to then it may have made five
more that are still on their way, but the skid has four cells left. They overrun it just if
the FIFO stays full for five clocks from a clock on in which eleven groups are in the skid
and five on their way.
-/

namespace Misterplex.Npx

open AsyncFifo Endless

namespace Watched

variable {g : NpxParams} {w : Watched g} {t : Tick g.pxPerClk}

/-- The bridge in a run without end. -/
def during (g : NpxParams) (ts : ℕ → Tick g.pxPerClk) (n : ℕ) : Watched g :=
  stateAt step (start g) ts n

/-- Groups that the beam has made and that have not come to the skid. -/
def onWay (s : Bridge g) : ℕ :=
  s.beam.beamCe.toNat+s.pipe.s0.v.toNat+s.pipe.s1.v.toNat+s.pipe.s2.v.toNat +
    s.pipe.s3.v.toNat

/-- The skid after `k` clocks without room in the FIFO: one more group at each, and none that
the beam has made since it was held. -/
structure Crowded (k : ℕ) (s : Bridge g) : Prop where
  /-- Eleven groups and one more for each clock. -/
  level : s.sys.skid.level.toNat=11+k
  beam : s.beam.beamCe=decide (k≤1)
  s0 : s.pipe.s0.v=decide (k≤2)
  s1 : s.pipe.s1.v=decide (k≤3)
  s2 : s.pipe.s2.v=decide (k≤4)
  s3 : s.pipe.s3.v=decide (k≤5)

/-- So many clocks the FIFO has been full since eleven groups were in the skid and five on
their way. -/
inductive FullFor (ts : ℕ → Tick g.pxPerClk) : ℕ → ℕ → Prop
  /-- Eleven groups are in the skid and five on their way. -/
  | crowded {n : ℕ} (h : Crowded 0 (during g ts n).now) : FullFor ts 0 n
  | clock {k n : ℕ} (h : FullFor ts k n) (hsys : (ts n).sys.isSome=true)
      (hfull : wrFull (during g ts n).now.fifo=true) : FullFor ts (k+1) (n+1)
  | rests {k n : ℕ} (h : FullFor ts k n) (hsys : (ts n).sys=none) : FullFor ts k (n+1)

theorem beamCe_step {n : ℕ} (q : Glass) (s : Beam n) (enable : Bool) :
    (s.step q enable).beamCe=enable := by
  cases enable <;> rfl

theorem ofBeam_v {n : ℕ} (s : Beam n) : (Stage.ofBeam s).v=s.beamCe := by
  rw [Stage.ofBeam]
  cases s.beamCe <;> rfl

variable {a : Answer g.pxPerClk}

theorem stages_clock (hsys : t.sys=some a) :
    (w.step t).now.beam.beamCe=decide (w.now.sys.skid.level.toNat<12) ∧
      (w.step t).now.pipe.s0.v=w.now.beam.beamCe ∧
      (w.step t).now.pipe.s1.v=w.now.pipe.s0.v ∧
      (w.step t).now.pipe.s2.v=w.now.pipe.s1.v ∧
      (w.step t).now.pipe.s3.v=w.now.pipe.s2.v := by
  obtain ⟨_,hbeam,hpipe,_,_⟩ := sys_clocks (w := w) hsys
  rw [hbeam,hpipe,beamCe_step,Pipe.step,ofBeam_v,SysSide.inReady,SysSide.skidAf]
  refine ⟨?_,rfl,rfl,rfl,rfl⟩
  by_cases hmany : 12 ≤ w.now.sys.skid.level.toNat
  · rw [decide_eq_true hmany,decide_eq_false (by omega)]
    rfl
  · rw [decide_eq_false hmany,decide_eq_true (by omega)]
    rfl

theorem level_clock (hstocked : w.Stocked) (hsys : t.sys=some a) :
    (w.step t).now.sys.skid.level.toNat +
        (if w.now.sys.skid.level.toNat ≠ 0 ∧ wrFull w.now.fifo = false then 1 else 0) =
      w.now.sys.skid.level.toNat +
        if w.now.pipe.s3.v = true ∧ w.now.sys.skid.level.toNat ≠ 16 then 1 else 0 := by
  have hlevel := level_step (g := g) (wrFull w.now.fifo) w.now.pipe.s3.v (w.now.pipe.group a)
    hstocked.fits
  rw [← (sys_clocks (w := w) hsys).1] at hlevel
  have hfire : (w.now.sys.fifoWrFire (wrFull w.now.fifo)).toNat =
      if w.now.sys.skid.level.toNat ≠ 0 ∧ wrFull w.now.fifo = false then 1 else 0 := by
    have hempty : w.now.sys.skid.isEmpty=decide (w.now.sys.skid.level.toNat=0) := by
      rw [RingFifo.isEmpty,Bool.eq_iff_iff,beq_iff_eq,decide_eq_true_eq,
        RingFifo.level_eq_zero_iff]
    rw [SysSide.fifoWrFire,hempty]
    by_cases hzero : w.now.sys.skid.level.toNat=0
    · simp [hzero]
    · cases wrFull w.now.fifo <;> simp [hzero]
  have haccept : (w.now.sys.skidAccept w.now.pipe.s3.v).toNat =
      if w.now.pipe.s3.v = true ∧ w.now.sys.skid.level.toNat ≠ 16 then 1 else 0 := by
    rw [SysSide.skidAccept,SysSide.skidFull]
    by_cases hfull : w.now.sys.skid.level.toNat=16
    · simp [hfull]
    · cases w.now.pipe.s3.v <;> simp [hfull]
  rw [← hfire,← haccept]
  exact hlevel

theorem Crowded.clock {k : ℕ} (h : Crowded k w.now) (hstocked : w.Stocked) (hk : k≤4)
    (hsys : t.sys.isSome=true) (hfull : wrFull w.now.fifo=true) :
    Crowded (k+1) (w.step t).now := by
  obtain ⟨a,ha⟩ := Option.isSome_iff_exists.mp hsys
  obtain ⟨hbeam,hs0,hs1,hs2,hs3⟩ := stages_clock (w := w) ha
  have hlevel := level_clock hstocked ha
  have hbefore := h.level
  constructor
  case level =>
    rw [hfull,if_neg (by simp),h.s3,if_pos ⟨decide_eq_true (by omega),by omega⟩] at hlevel
    omega
  case beam =>
    rw [hbeam,h.level]
    exact decide_eq_decide.mpr (by omega)
  case s0 =>
    rw [hs0,h.beam]
    exact decide_eq_decide.mpr (by omega)
  case s1 =>
    rw [hs1,h.s0]
    exact decide_eq_decide.mpr (by omega)
  case s2 =>
    rw [hs2,h.s1]
    exact decide_eq_decide.mpr (by omega)
  case s3 =>
    rw [hs3,h.s2]
    exact decide_eq_decide.mpr (by omega)

theorem Crowded.rests {k : ℕ} (h : Crowded k w.now) (hsys : t.sys=none) :
    Crowded k (w.step t).now := by
  obtain ⟨hside,hbeam,hpipe,_,_⟩ := sys_rests (w := w) hsys
  exact ⟨hside ▸ h.level,hbeam ▸ h.beam,hpipe ▸ h.s0,hpipe ▸ h.s1,hpipe ▸ h.s2,hpipe ▸ h.s3⟩

variable {ts : ℕ → Tick g.pxPerClk}

theorem stocked_during (ts : ℕ → Tick g.pxPerClk) (haw : 1≤g.fifoAw) (n : ℕ) : (during g ts n).Stocked := by
  induction n with
  | zero => exact Stocked.start g
  | succ n ih => exact ih.step haw (ts n)

theorem FullFor.is_crowded (haw : 1≤g.fifoAw) {k n : ℕ} (h : FullFor ts k n) (hk : k≤5) :
    Crowded k (during g ts n).now := by
  induction h with
  | crowded h => exact h
  | clock _ hsys hfull ih =>
    exact (ih (by omega)).clock (stocked_during _ haw _) (by omega) hsys hfull
  | rests _ hsys ih => exact (ih hk).rests hsys

/-- The groups in the skid and on their way fit the skid, or the FIFO has been full for some
clocks. -/
def Fitting (ts : ℕ → Tick g.pxPerClk) (n : ℕ) : Prop :=
  (during g ts n).now.sys.skid.level.toNat+onWay (during g ts n).now≤16 ∨
    ∃ k, 0<k ∧ k≤5 ∧ FullFor ts k n

theorem Crowded.onWay {k : ℕ} {s : Bridge g} (h : Crowded k s) (hpos : 0<k) (hk : k≤5) :
    Watched.onWay s=6-k := by
  rw [Watched.onWay,h.beam,h.s0,h.s1,h.s2,h.s3]
  have hcases : k=1 ∨ k=2 ∨ k=3 ∨ k=4 ∨ k=5 := by omega
  rcases hcases with rfl | rfl | rfl | rfl | rfl <;> rfl

theorem total_clock (hstocked : w.Stocked) (hsys : t.sys=some a) :
    (w.step t).now.sys.skid.level.toNat+onWay (w.step t).now +
        (if w.now.sys.skid.level.toNat ≠ 0 ∧ wrFull w.now.fifo = false then 1 else 0) ≤
      w.now.sys.skid.level.toNat+onWay w.now +
        if w.now.sys.skid.level.toNat < 12 then 1 else 0 := by
  obtain ⟨hbeam,hs0,hs1,hs2,hs3⟩ := stages_clock (w := w) hsys
  have hlevel := level_clock hstocked hsys
  have haccept : (if w.now.pipe.s3.v = true ∧ w.now.sys.skid.level.toNat ≠ 16 then 1 else 0) ≤
      w.now.pipe.s3.v.toNat := by
    cases w.now.pipe.s3.v with
    | false => simp
    | true => split <;> simp
  have hmade : (decide (w.now.sys.skid.level.toNat<12)).toNat =
      if w.now.sys.skid.level.toNat < 12 then 1 else 0 := by
    by_cases hfew : w.now.sys.skid.level.toNat<12 <;> simp [hfew]
  rw [onWay,onWay,hbeam,hs0,hs1,hs2,hs3,hmade]
  omega

theorem crowded_of_onWay {s : Bridge g} (hlevel : s.sys.skid.level.toNat=11)
    (hall : 5≤onWay s) : Crowded 0 s := by
  rw [onWay] at hall
  have hbeam := Bool.toNat_le s.beam.beamCe
  have h0 := Bool.toNat_le s.pipe.s0.v
  have h1 := Bool.toNat_le s.pipe.s1.v
  have h2 := Bool.toNat_le s.pipe.s2.v
  have h3 := Bool.toNat_le s.pipe.s3.v
  have hyes : ∀ c : Bool, c.toNat=1 → c=true := fun c hc => by cases c <;> simp_all
  exact ⟨hlevel,hyes _ (by omega),hyes _ (by omega),hyes _ (by omega),hyes _ (by omega),
    hyes _ (by omega)⟩

theorem onWay_le (s : Bridge g) : onWay s≤5 := by
  have hbeam := Bool.toNat_le s.beam.beamCe
  have h0 := Bool.toNat_le s.pipe.s0.v
  have h1 := Bool.toNat_le s.pipe.s1.v
  have h2 := Bool.toNat_le s.pipe.s2.v
  have h3 := Bool.toNat_le s.pipe.s3.v
  rw [onWay]
  omega

theorem fitting_during (haw : 1≤g.fifoAw) (hdrains : ∀ n, ¬FullFor ts 5 n) (n : ℕ) :
    Fitting ts n := by
  induction n with
  | zero =>
    have hempty : (during g ts 0).now.sys.skid.level.toNat=0 :=
      (RingFifo.level_eq_zero_iff _).mpr rfl
    have hnone : onWay (during g ts 0).now=0 := rfl
    exact Or.inl (by omega)
  | succ n ih =>
    have hstocked := stocked_during ts haw n
    have hnext : during g ts (n+1)=(during g ts n).step (ts n) := rfl
    cases hsys : (ts n).sys with
    | none =>
      obtain ⟨hside,hbeam,hpipe,_,_⟩ := sys_rests (w := during g ts n) hsys
      rcases ih with hfits | ⟨k,hpos,hk,hfull⟩
      · refine Or.inl ?_
        rw [hnext,hside,onWay,hbeam,hpipe]
        exact hfits
      · exact Or.inr ⟨k,hpos,hk,.rests hfull hsys⟩
    | some a =>
      have hsome : (ts n).sys.isSome=true := by rw [hsys]; rfl
      have htotal := total_clock hstocked hsys
      rw [← hnext] at htotal
      have hmost := onWay_le (during g ts n).now
      rcases ih with hfits | ⟨k,hpos,hk,hfull⟩
      · by_cases hcrowded : (during g ts n).now.sys.skid.level.toNat=11 ∧
            5≤onWay (during g ts n).now
        · have hbegins : FullFor ts 0 n := .crowded (crowded_of_onWay hcrowded.1 hcrowded.2)
          cases hroom : wrFull (during g ts n).now.fifo with
          | true => exact Or.inr ⟨1,Nat.one_pos,by omega,.clock hbegins hsome hroom⟩
          | false =>
            rw [if_pos ⟨by omega,hroom⟩,if_pos (by omega)] at htotal
            exact Or.inl (by omega)
        · refine Or.inl ?_
          by_cases hfew : (during g ts n).now.sys.skid.level.toNat<12
          · rw [if_pos hfew] at htotal
            omega
          · rw [if_neg hfew] at htotal
            omega
      · have hless : k≠5 := fun hfive => hdrains n (hfive ▸ hfull)
        have hshape := hfull.is_crowded haw hk
        have hlevel := hshape.level
        have hway := hshape.onWay hpos hk
        cases hroom : wrFull (during g ts n).now.fifo with
        | true => exact Or.inr ⟨k+1,by omega,by omega,.clock hfull hsome hroom⟩
        | false =>
          rw [if_pos ⟨by omega,hroom⟩,if_neg (by omega)] at htotal
          exact Or.inl (by omega)

/-- As long as the FIFO is never full for five clocks no group comes to a full skid. -/
theorem no_drop (haw : 1≤g.fifoAw) (hdrains : ∀ n, ¬FullFor ts 5 n) (n : ℕ) :
    ¬Drops (during g ts n).now (ts n) := by
  rintro ⟨_,hvalid,hfull⟩
  have hlevel : (during g ts n).now.sys.skid.level.toNat=16 := of_decide_eq_true hfull
  rcases fitting_during haw hdrains n with hfits | ⟨k,hpos,hk,hstuck⟩
  · rw [onWay,hvalid,Bool.toNat_true] at hfits
    omega
  · have hcrowded := (hstuck.is_crowded haw hk).level
    exact hdrains n ((by omega : k=5) ▸ hstuck)

/-- Where the FIFO has been full for five clocks the next group comes to a full skid. -/
theorem FullFor.drops (haw : 1≤g.fifoAw) {n : ℕ} (h : FullFor ts 5 n)
    (hticks : ∀ m, ∃ k, m≤k ∧ (ts k).sys.isSome=true) :
    ∃ m, Drops (during g ts m).now (ts m) := by
  obtain ⟨m,hm,hsome,hrests⟩ := next_tick hticks n
  have hlater : FullFor ts 5 m :=
    kept_to_tick (fun k hno hfull => .rests hfull (Option.not_isSome_iff_eq_none.mp hno)) h hm hrests
  have hcrowded := hlater.is_crowded haw (le_refl 5)
  exact ⟨m,hsome,hcrowded.s3,decide_eq_true hcrowded.level⟩

end Watched

end Misterplex.Npx
