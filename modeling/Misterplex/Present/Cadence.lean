import Misterplex.Lib.Trace
import Mathlib.Data.BitVec

/-!
# The cadence of content frames

At every display tick the core decides whether the next content frame is due. It keeps the
number of the tick and the content index it showed last; the host computes both indices from
the number of the tick alone. The core multiplies in 32 bits and the host in 64.
-/

namespace Misterplex.Cadence

open Trace

/-- content_index_at: the content frame of a display tick. -/
def contentIndexAt (displayIndex : BitVec 32) (contentFps displayHz : ℤ) : BitVec 32 :=
  if contentFps ≤ 0 ∨ displayHz ≤ 0 then displayIndex
  else if displayHz ≤ contentFps then displayIndex
  else BitVec.ofNat 32 (displayIndex.toNat*contentFps.toNat/displayHz.toNat)

/-- should_advance_unique: a tick shows a new frame. -/
def shouldAdvanceUnique (displayIndex : BitVec 32) (contentFps displayHz : ℤ) : Bool :=
  if contentFps ≤ 0 ∨ displayHz≤0 ∨ displayHz ≤ contentFps then true
  else if displayIndex = 0#32 then true
  else contentIndexAt displayIndex contentFps displayHz !=
    contentIndexAt (displayIndex-1#32) contentFps displayHz

/-- unique_frames_in: the new frames among the first ticks. -/
def uniqueFramesIn (displayTicks : ℕ) (contentFps displayHz : ℤ) : ℕ :=
  match displayTicks with
  | 0 => 0
  | n+1 => uniqueFramesIn n contentFps displayHz +
      (shouldAdvanceUnique (BitVec.ofNat 32 n) contentFps displayHz).toNat

/-- The registers of the core. -/
structure Registers where
  /-- The display frame. -/
  displayIndex : BitVec 32
  /-- The content frame. -/
  contentIndex : BitVec 32
  /-- The content frame is new. -/
  advanceUnique : Bool
  deriving DecidableEq, Repr

/-- The registers after reset. -/
def reset : Registers := ⟨0#32,0#32,false⟩

/-- floor_mul, in 32 bits throughout. -/
def floorMul (n : BitVec 32) (cf dh : BitVec 8) : BitVec 32 :=
  if dh = 0#8 then n else n*cf.setWidth 32/dh.setWidth 32

/-- Every tick is due: a rate is zero, or the content is not slower than the display. -/
def Always (cf dh : BitVec 8) : Prop := cf=0#8 ∨ dh=0#8 ∨ dh≤cf

instance (cf dh : BitVec 8) : Decidable (Always cf dh) :=
  inferInstanceAs (Decidable (_ ∨ _ ∨ _))

/-- One rising edge. -/
def step (cf dh : BitVec 8) (s : Registers) (displayTick : Bool) : Registers :=
  if displayTick = false then { s with advanceUnique := false }
  else if Always cf dh then ⟨s.displayIndex+1#32,s.contentIndex+1#32,true⟩
  else
    let nextContent := floorMul s.displayIndex cf dh
    if s.displayIndex = 0#32 ∨ nextContent ≠ s.contentIndex then
      ⟨s.displayIndex+1#32,nextContent,true⟩
    else ⟨s.displayIndex+1#32,s.contentIndex,false⟩

/-- advance_unique after every cycle. -/
def pulses (cf dh : BitVec 8) (s : Registers) (ticks : List Bool) : List Bool :=
  emitted (step cf dh) (fun s tick => [(step cf dh s tick).advanceUnique]) s ticks

/-- What the host decides for every cycle, from a first tick number. -/
def hostPulses (cf dh : BitVec 8) (n : ℕ) : List Bool → List Bool
  | [] => []
  | tick::ticks =>
    (tick && shouldAdvanceUnique (BitVec.ofNat 32 n) cf.toNat dh.toNat) ::
      hostPulses cf dh (n+tick.toNat) ticks

section Exact

variable {cf dh : ℕ}

/-- The exact index grows with this tick. -/
def Grows (cf dh i : ℕ) : Prop := i=0 ∨ i*cf/dh≠(i-1)*cf/dh

instance (cf dh i : ℕ) : Decidable (Grows cf dh i) := inferInstanceAs (Decidable (_ ∨ _))

/-- The ticks below a number with which the exact index grows. -/
def grown (cf dh : ℕ) : ℕ → ℕ
  | 0 => 0
  | n+1 => grown cf dh n+if Grows cf dh n then 1 else 0

theorem index_succ (hslow : cf<dh) (i : ℕ) :
    (i+1)*cf/dh = i*cf/dh ∨ (i+1)*cf/dh=i*cf/dh+1 := by
  have hdh : 0<dh := by omega
  have hlow : i*cf/dh≤(i+1)*cf/dh := Nat.div_le_div_right (by rw [Nat.succ_mul]; omega)
  have hhigh : (i+1)*cf/dh ≤ i*cf/dh+1 := by
    rw [← Nat.add_div_right _ hdh]
    exact Nat.div_le_div_right (by rw [Nat.succ_mul]; omega)
  omega

/-- Up to a tick the index has grown as often as it says, and once for the first tick. -/
theorem grown_succ (hslow : cf<dh) (n : ℕ) : grown cf dh (n+1)=n*cf/dh+1 := by
  induction n with
  | zero => simp [grown,Grows]
  | succ n ih =>
    rw [grown,ih]
    rcases index_succ hslow n with hsame | hnext
    · simp [Grows,hsame]
    · simp [Grows,hnext]

theorem grown_period (hpos : 0<cf) (hslow : cf<dh) (k : ℕ) : grown cf dh (k*dh)=k*cf := by
  cases k with
  | zero => rw [Nat.zero_mul,Nat.zero_mul,grown]
  | succ k =>
    obtain ⟨n,hn⟩ : ∃ n, (k+1)*dh=n+1 :=
      Nat.exists_eq_succ_of_ne_zero (Nat.mul_ne_zero (Nat.succ_ne_zero k) (by omega))
    rw [hn,grown_succ hslow]
    have hprod : n*cf+cf=(k+1)*cf*dh := by
      calc n*cf+cf=(n+1)*cf := (Nat.succ_mul n cf).symm
        _ = (k+1)*dh*cf := by rw [hn]
        _ = (k+1)*cf*dh := Nat.mul_right_comm _ _ _
    obtain ⟨m,hm⟩ : ∃ m, (k+1)*cf=m+1 :=
      Nat.exists_eq_succ_of_ne_zero (Nat.mul_ne_zero (Nat.succ_ne_zero k) (by omega))
    rw [hm] at hprod ⊢
    have hdiv : n*cf/dh=m := by
      rw [Nat.div_eq_iff (by omega)]
      rw [Nat.succ_mul] at hprod
      omega
    rw [hdiv]

theorem grown_near (hpos : 0<cf) (hslow : cf<dh) (n : ℕ) :
    grown cf dh n≤(n*cf+dh-1)/dh ∧ (n*cf+dh-1)/dh≤grown cf dh n+1 := by
  have hdh : 0<dh := by omega
  cases n with
  | zero => simp [grown,Nat.div_eq_of_lt (Nat.sub_lt hdh Nat.one_pos)]
  | succ n =>
    rw [grown_succ hslow,Nat.succ_mul,← Nat.add_div_right _ hdh,← Nat.add_div_right _ hdh]
    exact ⟨Nat.div_le_div_right (by omega),Nat.div_le_div_right (by omega)⟩

/-- The index that a multiplication in 32 bits gives. -/
def wrapped (cf dh i : ℕ) : ℕ := i*cf%2^32/dh

/-- The product of a tick stays in 32 bits, or the display rate divides what is lost. -/
def Fits (cf dh i : ℕ) : Prop := i*cf<2^32 ∨ dh ∣ 2^32

theorem grows_period {k i : ℕ} (hpos : 0<cf) (hslow : cf<dh) (hk : 2^32=dh*k)
    (hzero : i%2^32=0) : Grows cf dh i := by
  obtain ⟨q,hq⟩ := Nat.dvd_of_mod_eq_zero hzero
  rcases Nat.eq_zero_or_pos i with hi | hi
  · exact Or.inl hi
  · refine Or.inr (Nat.ne_of_gt ?_)
    have hwhole : i*cf=dh*(k*q*cf) := by
      rw [hq,hk,Nat.mul_assoc,Nat.mul_assoc,Nat.mul_assoc]
    have hless : (i-1)*cf < i*cf := Nat.mul_lt_mul_of_pos_right (by omega) hpos
    rw [hwhole] at hless
    rw [hwhole,Nat.mul_div_cancel_left _ (by omega)]
    exact Nat.div_lt_of_lt_mul hless

theorem wrapped_grows {i : ℕ} (hpos : 0<cf) (hslow : cf<dh) (hsmall : dh<2^8)
    (hfit : Fits cf dh i) :
    (i%2^32=0 ∨ wrapped cf dh i≠wrapped cf dh (i-1)) ↔ Grows cf dh i := by
  rcases hfit with hless | ⟨k,hk⟩
  · have hi : i<2^32 := lt_of_le_of_lt (Nat.le_mul_of_pos_right i hpos) hless
    have hpred : (i-1)*cf<2^32 := lt_of_le_of_lt (Nat.mul_le_mul_right cf (by omega)) hless
    rw [Nat.mod_eq_of_lt hi,wrapped,wrapped,Nat.mod_eq_of_lt hless,Nat.mod_eq_of_lt hpred,Grows]
  · by_cases hzero : i%2^32=0
    · exact iff_of_true (Or.inl hzero) (grows_period hpos hslow hk hzero)
    · have hne : i≠0 := fun h => hzero (by rw [h,Nat.zero_mod])
      have htwo : 1<k := by
        by_contra hk'
        have : dh*k≤dh*1 := Nat.mul_le_mul_left dh (by omega)
        omega
      rw [wrapped,wrapped,hk,Nat.mod_mul_right_div_self,Nat.mod_mul_right_div_self,Grows,← hk,
        or_iff_right hzero,or_iff_right hne,not_iff_not]
      obtain ⟨j,rfl⟩ := Nat.exists_eq_succ_of_ne_zero hne
      rw [Nat.succ_sub_one]
      rcases index_succ hslow j with hsame | hnext
      · exact iff_of_true (by rw [hsame]) hsame
      · rw [hnext]
        refine iff_of_false (fun h => ?_) (by omega)
        have hdvd : k ∣ j*cf/dh+1-j*cf/dh := (Nat.modEq_iff_dvd' (by omega)).mp h.symm
        rw [Nat.add_sub_cancel_left,Nat.dvd_one] at hdvd
        omega

/-- Where products fit, the index of a tick number of 32 bits changes with the exact one. -/
theorem short_grows {i : ℕ} (hpos : 0<cf) (hslow : cf<dh) (hfit : Fits cf dh i) :
    (i%2^32=0 ∨ i%2^32*cf/dh≠(i%2^32-1)*cf/dh) ↔ Grows cf dh i := by
  rcases hfit with hless | ⟨k,hk⟩
  · have hi : i<2^32 := lt_of_le_of_lt (Nat.le_mul_of_pos_right i hpos) hless
    rw [Nat.mod_eq_of_lt hi,Grows]
  · by_cases hzero : i%2^32=0
    · exact iff_of_true (Or.inl hzero) (grows_period hpos hslow hk hzero)
    · have hne : i≠0 := fun h => hzero (by rw [h,Nat.zero_mod])
      have hshift : ∀ j q, (j+dh*k*q)*cf/dh=j*cf/dh+k*q*cf := by
        intro j q
        rw [Nat.add_mul,Nat.mul_assoc,Nat.mul_assoc,Nat.add_mul_div_left _ _ (by omega),
          Nat.mul_assoc]
      obtain ⟨j,q,hj,rfl⟩ : ∃ j q, j<dh*k ∧ i=j+dh*k*q :=
        ⟨i%(dh*k),i/(dh*k),Nat.mod_lt _ (by omega),(Nat.mod_add_div _ _).symm⟩
      rw [hk,Nat.add_mul_mod_self_left,Nat.mod_eq_of_lt hj] at hzero ⊢
      have hpred : j+dh*k*q-1=j-1+dh*k*q := by omega
      rw [Grows,or_iff_right hzero,or_iff_right hne,hpred,hshift,hshift]
      omega

end Exact

section Sides

variable {cf dh : BitVec 8} {n : ℕ}

theorem slow_of_not_always (h : ¬Always cf dh) : 0<cf.toNat ∧ cf.toNat<dh.toNat := by
  rw [Always,not_or,not_or,BitVec.le_def] at h
  obtain ⟨hcf,_,hless⟩ := h
  have hne : cf.toNat≠0 := fun h0 => hcf (BitVec.eq_of_toNat_eq h0)
  omega

theorem toNat_floorMul (h : ¬Always cf dh) (n : ℕ) :
    (floorMul (BitVec.ofNat 32 n) cf dh).toNat=wrapped cf.toNat dh.toNat n := by
  have hdh : dh≠0#8 := fun h0 => h (Or.inr (Or.inl h0))
  have hcf : cf.toNat%2^32=cf.toNat := Nat.mod_eq_of_lt (by omega)
  have hdh' : dh.toNat%2^32=dh.toNat := Nat.mod_eq_of_lt (by omega)
  rw [floorMul,if_neg hdh,BitVec.toNat_udiv,BitVec.toNat_mul,BitVec.toNat_setWidth,
    BitVec.toNat_setWidth,BitVec.toNat_ofNat,hcf,hdh',Nat.mod_mul_mod,wrapped]

theorem ofNat_eq_zero (n : ℕ) : BitVec.ofNat 32 n=0#32 ↔ n%2^32=0 := by
  rw [← BitVec.toNat_inj,BitVec.toNat_ofNat,BitVec.toNat_ofNat,Nat.zero_mod]

theorem shouldAdvance_iff (h : ¬Always cf dh) :
    shouldAdvanceUnique (BitVec.ofNat 32 n) cf.toNat dh.toNat=true ↔
      n%2^32=0 ∨
        n%2^32*cf.toNat/dh.toNat≠(n%2^32-1)*cf.toNat/dh.toNat := by
  obtain ⟨hpos,hslow⟩ := slow_of_not_always h
  have hindex : ∀ d : BitVec 32, (contentIndexAt d cf.toNat dh.toNat).toNat =
      d.toNat*cf.toNat/dh.toNat := by
    intro d
    have hsmall : d.toNat*cf.toNat/dh.toNat<2^32 := by
      refine Nat.div_lt_of_lt_mul ?_
      calc d.toNat*cf.toNat≤d.toNat*dh.toNat := Nat.mul_le_mul_left _ hslow.le
        _ = dh.toNat*d.toNat := Nat.mul_comm _ _
        _ < dh.toNat*2^32 := Nat.mul_lt_mul_of_pos_left d.isLt (by omega)
    rw [contentIndexAt,if_neg (by omega),if_neg (by omega),Int.toNat_natCast,Int.toNat_natCast,
      BitVec.toNat_ofNat,Nat.mod_eq_of_lt hsmall]
  rw [shouldAdvanceUnique,if_neg (by omega)]
  by_cases hzero : n%2^32=0
  · rw [if_pos ((ofNat_eq_zero n).mpr hzero)]
    exact iff_of_true rfl (Or.inl hzero)
  · have hone : (BitVec.ofNat 32 n-1#32).toNat=n%2^32-1 := by
      rw [BitVec.toNat_sub_of_le (by simp; omega),
        BitVec.toNat_ofNat]
      rfl
    rw [if_neg (mt (ofNat_eq_zero n).mp hzero),or_iff_right hzero,bne_iff_ne,ne_eq,
      ← BitVec.toNat_inj,hindex,hindex,hone,BitVec.toNat_ofNat]

/-- After some ticks the core holds their number and the index of the last one. -/
structure Registers.After (cf dh : BitVec 8) (s : Registers) (n : ℕ) : Prop where
  display : s.displayIndex=BitVec.ofNat 32 n
  content : 0<n → s.contentIndex.toNat=wrapped cf.toNat dh.toNat (n-1)

/-- A cycle without a tick keeps the count. -/
theorem Registers.After.idle {s : Registers} (hs : s.After cf dh n) :
    (step cf dh s false).After cf dh n := ⟨hs.display,hs.content⟩

theorem Registers.After.due_iff {s : Registers} (hs : s.After cf dh n) (h : ¬Always cf dh) :
    (s.displayIndex=0#32 ∨ floorMul s.displayIndex cf dh≠s.contentIndex) ↔
      n%2^32=0 ∨ wrapped cf.toNat dh.toNat n≠wrapped cf.toNat dh.toNat (n-1) := by
  rw [hs.display,ofNat_eq_zero]
  rcases Nat.eq_zero_or_pos n with rfl | hn
  · exact iff_of_true (Or.inl rfl) (Or.inl rfl)
  · rw [ne_eq,← BitVec.toNat_inj,toNat_floorMul h,hs.content hn]

/-- One display frame when the content is slower. -/
theorem step_slow (s : Registers) (h : ¬Always cf dh) :
    step cf dh s true =
      if s.displayIndex = 0#32 ∨ floorMul s.displayIndex cf dh ≠ s.contentIndex then
        ⟨s.displayIndex+1#32,floorMul s.displayIndex cf dh,true⟩
      else ⟨s.displayIndex+1#32,s.contentIndex,false⟩ := by
  rw [step,if_neg (Bool.noConfusion),if_neg h]

theorem Registers.After.advance_iff {s : Registers} (hs : s.After cf dh n) (h : ¬Always cf dh) :
    (step cf dh s true).advanceUnique=true ↔
      n%2^32=0 ∨ wrapped cf.toNat dh.toNat n≠wrapped cf.toNat dh.toNat (n-1) := by
  rw [← hs.due_iff h,step_slow s h]
  by_cases hnew : s.displayIndex=0#32 ∨ floorMul s.displayIndex cf dh≠s.contentIndex
  · rw [if_pos hnew]
    exact iff_of_true rfl hnew
  · rw [if_neg hnew]
    exact iff_of_false Bool.false_ne_true hnew

/-- A tick goes on to the next frame. -/
theorem Registers.After.tick {s : Registers} (hs : s.After cf dh n) (h : ¬Always cf dh) :
    (step cf dh s true).After cf dh (n+1) := by
  have hnext : s.displayIndex+1#32=BitVec.ofNat 32 (n+1) := by
    rw [hs.display,BitVec.ofNat_add]
  have hcontent : (floorMul s.displayIndex cf dh).toNat=wrapped cf.toNat dh.toNat n := by
    rw [hs.display,toNat_floorMul h]
  rw [step_slow s h]
  by_cases hnew : s.displayIndex=0#32 ∨ floorMul s.displayIndex cf dh≠s.contentIndex
  · rw [if_pos hnew]
    exact ⟨hnext,fun _ => hcontent⟩
  · rw [if_neg hnew]
    rw [not_or,not_not] at hnew
    exact ⟨hnext,fun _ => hnew.2 ▸ hcontent⟩

/-- The ticks from one number below another meet the bound on their products. -/
def AllFit (cf dh : BitVec 8) (n : ℕ) : Prop :=
  Always cf dh ∨ (n-1)*cf.toNat<2^32 ∨ dh.toNat ∣ 2^32

instance (cf dh : BitVec 8) (n : ℕ) : Decidable (AllFit cf dh n) :=
  inferInstanceAs (Decidable (_ ∨ _ ∨ _))

/-- Each tick below the bound fits. -/
theorem AllFit.fits {m : ℕ} (hfit : AllFit cf dh m) (h : ¬Always cf dh) (hn : n < m) :
    Fits cf.toNat dh.toNat n := by
  rcases hfit.resolve_left h with hless | hdvd
  · exact Or.inl (lt_of_le_of_lt (Nat.mul_le_mul_right _ (by omega)) hless)
  · exact Or.inr hdvd

theorem AllFit.mono {m : ℕ} (hfit : AllFit cf dh m) (hn : n ≤ m) : AllFit cf dh n := by
  rcases hfit with h | hless | hdvd
  · exact Or.inl h
  · exact Or.inr (Or.inl (lt_of_le_of_lt (Nat.mul_le_mul_right _ (by omega)) hless))
  · exact Or.inr (Or.inr hdvd)

end Sides

section Run

variable {cf dh : BitVec 8} {n : ℕ}

/-- The frames that a number of ticks shows: all of them where the content is not slower, else one
for the first tick and one whenever the exact index grows. -/
def shown (cf dh : BitVec 8) (n : ℕ) : ℕ :=
  if Always cf dh then n else if n = 0 then 0 else (n-1)*cf.toNat/dh.toNat+1

theorem shown_eq_grown (h : ¬Always cf dh) (n : ℕ) :
    shown cf dh n = grown cf.toNat dh.toNat n := by
  rw [shown,if_neg h]
  cases n with
  | zero => rw [if_pos rfl,grown]
  | succ n =>
    rw [if_neg n.succ_ne_zero,Nat.add_sub_cancel,grown_succ (slow_of_not_always h).2]

theorem shouldAdvance_always (h : Always cf dh) (d : BitVec 32) :
    shouldAdvanceUnique d cf.toNat dh.toNat=true := by
  have hfast : (cf.toNat : ℤ)≤0 ∨ (dh.toNat : ℤ)≤0 ∨ (dh.toNat : ℤ)≤cf.toNat := by
    rw [Always,BitVec.le_def,← BitVec.toNat_inj,← BitVec.toNat_inj] at h
    simp only [BitVec.toNat_ofNat,Nat.zero_mod] at h
    omega
  rw [shouldAdvanceUnique,if_pos hfast]

theorem step_always (h : Always cf dh) (s : Registers) :
    (step cf dh s true).advanceUnique=true := by
  rw [step,if_neg Bool.noConfusion,if_pos h]

/-- Where the products fit, a tick of the host shows a new frame when the exact index grows. -/
theorem host_grows (hfit : AllFit cf dh (n+1)) (h : ¬Always cf dh) :
    shouldAdvanceUnique (BitVec.ofNat 32 n) cf.toNat dh.toNat=true ↔
      Grows cf.toNat dh.toNat n := by
  obtain ⟨hpos,hslow⟩ := slow_of_not_always h
  rw [shouldAdvance_iff h,short_grows hpos hslow (hfit.fits h n.lt_succ_self)]

theorem advance_eq {s : Registers} (hs : ¬Always cf dh → s.After cf dh n)
    (hfit : AllFit cf dh (n+1)) :
    (step cf dh s true).advanceUnique =
      shouldAdvanceUnique (BitVec.ofNat 32 n) cf.toNat dh.toNat := by
  by_cases h : Always cf dh
  · rw [step_always h,shouldAdvance_always h]
  · obtain ⟨hpos,hslow⟩ := slow_of_not_always h
    rw [Bool.eq_iff_iff,host_grows hfit h,(hs h).advance_iff h,
      wrapped_grows hpos hslow dh.isLt (hfit.fits h n.lt_succ_self)]

theorem pulses_eq {s : Registers} (hs : ¬Always cf dh → s.After cf dh n) (ticks : List Bool)
    (hfit : AllFit cf dh (n+ticks.count true)) :
    pulses cf dh s ticks=hostPulses cf dh n ticks := by
  induction ticks generalizing s n with
  | nil => rfl
  | cons tick ticks ih =>
    rw [pulses,emitted_cons,← pulses,List.singleton_append,hostPulses]
    cases tick with
    | false =>
      rw [ih (fun h => (hs h).idle) hfit]
      rfl
    | true =>
      rw [List.count_cons_self,← Nat.add_assoc,Nat.add_right_comm] at hfit
      rw [ih (fun h => (hs h).tick h) hfit,
        advance_eq hs (hfit.mono (Nat.le_add_right _ _)),Bool.true_and,Bool.toNat_true]

theorem count_hostPulses (cf dh : BitVec 8) (n : ℕ) (ticks : List Bool) :
    uniqueFramesIn n cf.toNat dh.toNat+(hostPulses cf dh n ticks).count true =
      uniqueFramesIn (n+ticks.count true) cf.toNat dh.toNat := by
  induction ticks generalizing n with
  | nil => rfl
  | cons tick ticks ih =>
    have hrest := ih (n+tick.toNat)
    cases tick with
    | false => simpa [hostPulses] using hrest
    | true =>
      rw [Bool.toNat_true,uniqueFramesIn] at hrest
      rw [List.count_cons_self,← Nat.add_assoc,Nat.add_right_comm,← hrest,hostPulses,
        Bool.true_and,Bool.toNat_true]
      cases shouldAdvanceUnique (BitVec.ofNat 32 n) cf.toNat dh.toNat <;> simp
      omega

theorem uniqueFramesIn_eq (hfit : AllFit cf dh n) :
    uniqueFramesIn n cf.toNat dh.toNat=shown cf dh n := by
  by_cases h : Always cf dh
  · rw [shown,if_pos h]
    clear hfit
    induction n with
    | zero => rfl
    | succ n ih => rw [uniqueFramesIn,ih,shouldAdvance_always h,Bool.toNat_true]
  · rw [shown_eq_grown h]
    induction n with
    | zero => rfl
    | succ n ih =>
      have hgrows := host_grows hfit h
      rw [uniqueFramesIn,ih (hfit.mono n.le_succ),grown]
      by_cases hg : Grows cf.toNat dh.toNat n
      · rw [hgrows.mpr hg,if_pos hg,Bool.toNat_true]
      · rw [Bool.eq_false_iff.mpr (mt hgrows.mp hg),if_neg hg,Bool.toNat_false]

/-- What holds of a run. -/
structure Steady (cf dh : BitVec 8) (ticks : List Bool) : Prop where
  /-- The core shows a new frame in the cycles in which the host does. -/
  same : pulses cf dh reset ticks=hostPulses cf dh 0 ticks
  /-- The number of new frames. -/
  count : (pulses cf dh reset ticks).count true=shown cf dh (ticks.count true)
  host : uniqueFramesIn (ticks.count true) cf.toNat dh.toNat=shown cf dh (ticks.count true)
  /-- Slower content stays within one frame of its exact share. -/
  near : ¬Always cf dh → ∀ share,
    share=(ticks.count true*cf.toNat+dh.toNat-1)/dh.toNat →
      (pulses cf dh reset ticks).count true ≤ share ∧
        share≤(pulses cf dh reset ticks).count true+1
  /-- Whole periods of the display show whole periods of slower content. -/
  period : ¬Always cf dh → ∀ k, ticks.count true=k*dh.toNat →
    (pulses cf dh reset ticks).count true=k*cf.toNat

/-- As long as no tick number times a slower content rate leaves 32 bits, and for ever where the
display rate is a power of two, core and host show new frames in the same cycles, as often as the
closed form says. -/
theorem cadence_steady (cf dh : BitVec 8) (ticks : List Bool)
    (hfit : AllFit cf dh (ticks.count true)) : Steady cf dh ticks := by
  have hreset : ¬Always cf dh → reset.After cf dh 0 := fun _ => ⟨rfl,fun h => absurd h (lt_irrefl 0)⟩
  have hsame : pulses cf dh reset ticks=hostPulses cf dh 0 ticks :=
    pulses_eq hreset ticks (by rwa [Nat.zero_add])
  have hhost := uniqueFramesIn_eq hfit
  have hcount : (pulses cf dh reset ticks).count true=shown cf dh (ticks.count true) := by
    have hall := count_hostPulses cf dh 0 ticks
    rwa [uniqueFramesIn,Nat.zero_add,Nat.zero_add,← hsame,hhost] at hall
  refine ⟨hsame,hcount,hhost,fun h share hshare => ?_,fun h k hk => ?_⟩
  · obtain ⟨hpos,hslow⟩ := slow_of_not_always h
    rw [hcount,shown_eq_grown h,hshare]
    exact grown_near hpos hslow _
  · obtain ⟨hpos,hslow⟩ := slow_of_not_always h
    rw [hcount,shown_eq_grown h,hk,grown_period hpos hslow]

/-- Film on a display of sixty hertz, with a cycle between the ticks. -/
theorem cadence_steady_film : Steady 24#8 60#8 [true,false,true,false,true,true] :=
  cadence_steady 24#8 60#8 _ (by decide)

/-- Three ticks of film at sixty hertz show one frame, less than their share rounded up. -/
theorem not_rounded_up : ¬∀ (cf dh : BitVec 8) (ticks : List Bool),
    pulses cf dh reset ticks=hostPulses cf dh 0 ticks ∧
      (pulses cf dh reset ticks).count true =
        (ticks.count true*cf.toNat+dh.toNat-1)/dh.toNat := by
  intro h
  have hthree := (h 24#8 60#8 [true,true,true]).2
  revert hthree
  decide

/-- The frames of slower content lie on a line through all ticks. -/
theorem shown_line (h : ¬Always cf dh) (n : ℕ) :
    shown cf dh n=(n*cf.toNat+(dh.toNat-cf.toNat))/dh.toNat := by
  obtain ⟨hpos,hslow⟩ := slow_of_not_always h
  rw [shown_eq_grown h]
  cases n with
  | zero => rw [grown,Nat.zero_mul,Nat.zero_add,Nat.div_eq_of_lt (by omega)]
  | succ n =>
    rw [grown_succ hslow,← Nat.add_div_right _ (by omega),Nat.succ_mul]
    congr 1
    omega

theorem line_spread (d x y : ℕ) (hd : 0<d) :
    x/d+y/d≤(x+y)/d ∧ (x+y)/d≤x/d+(y+d-1)/d := by
  refine ⟨Nat.div_add_div_le_add_div,Nat.le_of_lt_succ (Nat.div_lt_of_lt_mul ?_)⟩
  have hx := Nat.lt_mul_div_succ x hd
  have hy := Nat.lt_mul_div_succ (y+d-1) hd
  rw [Nat.mul_succ,Nat.mul_add]
  rw [Nat.mul_succ] at hx hy
  omega

theorem count_pulses (ticks : List Bool) (hfit : AllFit cf dh (ticks.count true)) :
    (pulses cf dh reset ticks).count true=shown cf dh (ticks.count true) := by
  have hreset : ¬Always cf dh → reset.After cf dh 0 := fun _ => ⟨rfl,fun h => absurd h (lt_irrefl 0)⟩
  have hall := count_hostPulses cf dh 0 ticks
  rwa [uniqueFramesIn,Nat.zero_add,Nat.zero_add,← pulses_eq hreset ticks
    (by rwa [Nat.zero_add]),uniqueFramesIn_eq hfit] at hall

/-- New frames of slower content are spread evenly: behind any cycles, a stretch shows its exact
share in whole frames, or one more where the share is not whole. -/
theorem frames_spread (cf dh : BitVec 8) (front stretch : List Bool) (h : ¬Always cf dh)
    (hfit : AllFit cf dh ((front ++ stretch).count true)) (frames : ℕ)
    (hframes : frames=(pulses cf dh (finalState (step cf dh) reset front) stretch).count true) :
    stretch.count true*cf.toNat/dh.toNat≤frames ∧
      frames≤(stretch.count true*cf.toNat+dh.toNat-1)/dh.toNat := by
  obtain ⟨hpos,hslow⟩ := slow_of_not_always h
  have hall := count_pulses (front ++ stretch) hfit
  rw [List.count_append] at hfit hall
  have hfront := count_pulses front (hfit.mono (Nat.le_add_right _ _))
  rw [pulses,emitted_append,List.count_append,← pulses,← pulses,hfront,← hframes,
    shown_line h,shown_line h,Nat.add_mul,Nat.add_right_comm] at hall
  have hline := line_spread dh.toNat (front.count true*cf.toNat+(dh.toNat-cf.toNat))
    (stretch.count true*cf.toNat) (by omega)
  omega

/-- Two ticks of film at sixty hertz, behind the first frame. -/
theorem frames_spread_film :
    (pulses 24#8 60#8 (finalState (step 24#8 60#8) reset [true]) [true,false,true]).count true ≤
      1 :=
  (frames_spread 24#8 60#8 [true] [true,false,true] (by decide) (by decide) _ rfl).2

end Run

end Misterplex.Cadence
