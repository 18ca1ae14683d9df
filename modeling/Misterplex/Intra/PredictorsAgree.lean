import Mathlib.Algebra.Order.BigOperators.Group.Finset
import Mathlib.Algebra.Order.Ring.Abs
import Misterplex.Intra.Predictors

/-!
# The core predicts the samples of the host

Where the samples that a mode needs are there, the modules of the core give the samples of
the host's functions. For 4x4 blocks this is a statement about one evaluation, for the
clocked modules one about every run: a request is answered at its clock, or for a plane one
clock later, and what is answered are the host's samples.
-/

namespace Misterplex.Intra

open Raster Recon Trace

variable {n : Neighbours}

theorem toNat_le (s : UInt8) : s.toNat≤255 := by
  have hlt := s.toNat_lt
  omega

theorem byte_toNat (s : UInt8) : byte (s.toNat : ℤ)=s := by
  have hmod : ((s.toNat : ℤ)%2^8).toNat=s.toNat := by
    have hle := toNat_le s
    omega
  unfold byte UInt8.ofInt
  rw [hmod,UInt8.ofNat_toNat]

theorem clip8_of_le {v : ℤ} (hpos : 0≤v) (hle : v≤255) : clip8 v=v := by
  unfold clip8
  rw [if_neg (by omega),if_neg (by omega)]

theorem clip8_mean {v : ℤ} (k : ℕ) (hpos : 0≤v) (hlt : v<256*2^k) :
    clip8 (v >>> k) = v >>> k := by
  have hdiv : v >>> k = v/2^k := by
    rw [Int.shiftRight_eq_div_pow]
    norm_cast
  have hbelow : v/2^k<256 := Int.ediv_lt_of_lt_mul (by positivity) hlt
  have habove : 0≤v/2^k := Int.ediv_nonneg hpos (by positivity)
  rw [hdiv]
  exact clip8_of_le habove (by omega)

theorem rtl_clip8 (v : ℤ) : Rtl.clip8 v=byte (clip8 v) := by
  unfold Rtl.clip8 clip8
  split_ifs
  · rfl
  · rfl
  · rfl

theorem rtl_put : Rtl.put=put := by
  funext x y v
  unfold Rtl.put put
  rw [rtl_clip8]

/-- The samples that a mode of a 4x4 block needs are there. -/
def I4Needs (mode : ℕ) (n : Neighbours) : Prop :=
  (mode=0 ∨ mode=3 ∨ mode=4 ∨ mode=5 ∨ mode=6 ∨ mode=7 → n.has_above=true) ∧
  (mode=1 ∨ mode=4 ∨ mode=5 ∨ mode=6 ∨ mode=8 → n.has_left=true)

theorem usedMode_eq {mode : ℕ} (h : I4Needs mode n) : Rtl.usedMode n mode=mode := by
  obtain ⟨habove,hleft⟩ := h
  unfold Rtl.usedMode
  rw [if_neg,if_neg,if_neg]
  · intro hc
    simp only [Bool.and_eq_true,Bool.or_eq_true,Bool.not_eq_true',decide_eq_true_eq] at hc
    obtain ⟨hnone | hnone,hmode⟩ := hc
    · exact absurd (habove (by omega)) (by rw [hnone]; exact Bool.false_ne_true)
    · exact absurd (hleft (by omega)) (by rw [hnone]; exact Bool.false_ne_true)
  · intro hc
    simp only [Bool.and_eq_true,Bool.or_eq_true,Bool.not_eq_true',decide_eq_true_eq] at hc
    exact absurd (hleft (by omega)) (by rw [hc.1]; exact Bool.false_ne_true)
  · intro hc
    simp only [Bool.and_eq_true,Bool.or_eq_true,Bool.not_eq_true',decide_eq_true_eq] at hc
    exact absurd (habove (by omega)) (by rw [hc.1]; exact Bool.false_ne_true)

theorem intra4x4Puts_eq (mode : ℕ) : Rtl.intra4x4Puts n mode=predI4 n mode := by
  have hle (s : UInt8) : (s.toNat : ℤ)≤255 := by exact_mod_cast toNat_le s
  have hsample (s : UInt8) : byte (clip8 (s.toNat : ℤ))=s := by
    rw [clip8_of_le (Int.natCast_nonneg _) (hle s),byte_toNat]
  unfold Rtl.intra4x4Puts predI4
  rw [rtl_put]
  match mode with
  | 0 => simp only [hsample]
  | 1 => simp only [hsample]
  | 2 =>
    have ha0 := hle (n.above 0)
    have ha1 := hle (n.above 1)
    have ha2 := hle (n.above 2)
    have ha3 := hle (n.above 3)
    have hl0 := hle (n.left 0)
    have hl1 := hle (n.left 1)
    have hl2 := hle (n.left 2)
    have hl3 := hle (n.left 3)
    refine box_congr fun _ _ _ _ => ?_
    dsimp only
    split_ifs
    · rw [clip8_mean 3 (by omega) (by omega)]
    · rw [clip8_mean 2 (by omega) (by omega)]
    · rw [clip8_mean 2 (by omega) (by omega)]
    · rfl
  | 3 => rfl
  | 4 => rfl
  | 5 => rfl
  | 6 => rfl
  | 7 => rfl
  | 8 => rfl
  | _ + 9 => rfl

theorem fills_predI4 (mode : ℕ) : Fills 4 4 (predI4 n mode) := by
  have hblank : ∀ m : Fin 9,
      (∀ p∈places (predI4 ⟨fun _ => 0,fun _ => 0,0,false,false⟩ m), p.1<4) ∧
      ∀ x<4, ∀ y<4,
        (x,y)∈places (predI4 ⟨fun _ => 0,fun _ => 0,0,false,false⟩ m) := by
    decide
  have hsame : ∀ m : Fin 9,
      places (predI4 n m)=places (predI4 ⟨fun _ => 0,fun _ => 0,0,false,false⟩ m) := by
    intro m
    match m with
    | 0 => rfl
    | 1 => rfl
    | 2 => rfl
    | 3 => rfl
    | 4 => rfl
    | 5 => rfl
    | 6 => rfl
    | 7 => rfl
    | 8 => rfl
  by_cases hmode : mode<9
  · have hm := hblank ⟨mode,hmode⟩
    rw [← hsame] at hm
    exact fills_of_places hm.1 hm.2
  · obtain ⟨k,rfl⟩ : ∃ k, mode=k+9 := ⟨mode-9,by omega⟩
    exact fills_box 4 4 _

theorem intra4x4_pred_eq {mode : BitVec 4} (h : I4Needs mode.toNat n) {stride x y : ℕ}
    (hstride : 4 ≤ stride) (hx : x<4) (hy : y<4) (mem : ℕ → UInt8) :
    (Rtl.intra4x4_pred n mode).pred (place 4 x y) =
      write stride mem (predI4 n mode.toNat) (place stride x y) := by
  unfold Rtl.intra4x4_pred
  rw [usedMode_eq h,intra4x4Puts_eq]
  exact (fills_predI4 mode.toNat).alike _ _ _ _ (Nat.le_refl 4) hstride hx hy _ mem

theorem abs_gradient_le (k : ℕ) (hi lo : ℕ → UInt8) :
    |gradient k hi lo| ≤ ∑ i∈Finset.range k, ((i : ℤ)+1)*255 := by
  refine (Finset.abs_sum_le_sum_abs _ _).trans (Finset.sum_le_sum fun i _ => ?_)
  have hhi := toNat_le (hi i)
  have hlo := toNat_le (lo i)
  have hdiff : |((hi i).toNat : ℤ)-(lo i).toNat| ≤ 255 := abs_le.mpr ⟨by omega,by omega⟩
  rw [abs_mul,abs_of_nonneg (by omega)]
  exact mul_le_mul_of_nonneg_left hdiff (by omega)

theorem toInt_ofInt_of_lt {v : ℤ} (h : |v| < 2^15) : (BitVec.ofInt 16 v).toInt=v := by
  obtain ⟨hlow,hhigh⟩ := abs_lt.mp h
  rw [BitVec.toInt_ofInt]
  exact Int.bmod_eq_of_le (by omega) (by omega)

namespace Rtl

/-- Three registers of sixteen bits do not overflow the integer they are added up in. -/
theorem toInt_planeVal (a bx cy : BitVec 16) :
    (planeVal a bx cy).toInt = (a.toInt+bx.toInt+cy.toInt+16) >>> 5 := by
  have ha := And.intro a.le_toInt a.toInt_lt
  have hbx := And.intro bx.le_toInt bx.toInt_lt
  have hcy := And.intro cy.le_toInt cy.toInt_lt
  have htwo : (a.signExtend 32+bx.signExtend 32).toInt=a.toInt+bx.toInt := by
    rw [BitVec.toInt_add,BitVec.toInt_signExtend_of_le (by decide),
      BitVec.toInt_signExtend_of_le (by decide)]
    exact Int.bmod_eq_of_le (by omega) (by omega)
  have hthree : (a.signExtend 32+bx.signExtend 32+cy.signExtend 32).toInt =
      a.toInt+bx.toInt+cy.toInt := by
    rw [BitVec.toInt_add,htwo,BitVec.toInt_signExtend_of_le (by decide)]
    exact Int.bmod_eq_of_le (by omega) (by omega)
  have hsum : (a.signExtend 32+bx.signExtend 32+cy.signExtend 32+16).toInt =
      a.toInt+bx.toInt+cy.toInt+16 := by
    have hsixteen : (16 : BitVec 32).toInt=16 := rfl
    rw [BitVec.toInt_add,hthree,hsixteen]
    exact Int.bmod_eq_of_le (by omega) (by omega)
  rw [planeVal,BitVec.toInt_sshiftRight,hsum]

/-- A module with the requests that it has to answer and answers. -/
structure Served where
  regs : Regs
  /-- The request whose plane is pending. -/
  due : Option Request
  shown : Option Request

/-- A request for a plane with the samples that it needs. -/
def Request.isPlane (q : Request) : Bool :=
  q.mode.toNat = 3 && (q.nb.has_above && q.nb.has_left)

/-- One clock: a plane is answered at the next clock, any other request at once, and while a
plane is pending no request is taken. -/
def Served.step (g : Module) (w : Served) (q : Request) : Served where
  regs := g.step w.regs q
  due := if w.due.isNone && q.start && q.isPlane then some q else none
  shown := if w.due.isSome then w.due else if q.start && !q.isPlane then some q else none

/-- The module has answered just if a request is answered, and with the samples of the host
where those that the mode needs are there. -/
def Served.Shows (g : Module) (host : Neighbours → ℕ → Samples) (needs : ℕ → Neighbours → Prop)
    (w : Served) : Prop :=
  w.regs.valid=w.shown.isSome ∧
  ∀ q, w.shown=some q → needs q.mode.toNat q.nb → ∀ (stride : ℕ) (mem : ℕ → UInt8) (x y : ℕ),
    g.side ≤ stride → x<g.side → y<g.side →
    w.regs.pred (place g.side x y)=write stride mem (host q.nb q.mode.toNat) (place stride x y)

/-- In every run of a module that starts with nothing pending, it shows the samples of the
host behind each clock. -/
def Module.Serves (g : Module) (host : Neighbours → ℕ → Samples)
    (needs : ℕ → Neighbours → Prop) : Prop :=
  ∀ (r : Regs) (qs : List Request), r.phase=false →
    Along (Served.step g) (fun w q => (w.step g q).Shows g host needs) ⟨r,none,none⟩ qs

/-- What a module computes from the samples is what the host computes. -/
structure Module.Computes (g : Module) (host : Neighbours → ℕ → Samples)
    (needs : ℕ → Neighbours → Prop) : Prop where
  /-- Only a plane is left to the next clock. -/
  later : ∀ mode n, g.now mode n=none ↔ mode=3 ∧ n.has_above=true ∧ n.has_left=true
  /-- What is written at once are the samples of the host. -/
  now : ∀ mode n samples, mode<4 → needs mode n → g.now mode n=some samples →
    Alike g.side g.side samples (host n mode)
  /-- A plane of the host has the same offset and slopes. -/
  plane : ∀ n, host n 3 = box 0 0 g.side g.side fun x y =>
    byte (Recon.clip8 ((g.a_c n+g.b_c n*(x-g.centre)+g.c_c n*(y-g.centre)+16) >>> 5))
  /-- The offset fits into its register. -/
  offset : ∀ n, |g.a_c n| < 2^15
  /-- The products of the slopes fit into theirs. -/
  slopes : ∀ n, ∀ i<g.side, |g.b_c n*(i-g.centre)| < 2^15 ∧
    |g.c_c n*(i-g.centre)| < 2^15

/-- The registers hold what the pending plane needs. -/
structure Served.Pending (g : Module) (w : Served) : Prop where
  /-- A plane is pending just if a request is due. -/
  phase : w.regs.phase=w.due.isSome
  isPlane : ∀ q, w.due=some q → q.isPlane=true
  /-- The registers were computed from them. -/
  regs : ∀ q, w.due=some q → w.regs.a_r=BitVec.ofInt 16 (g.a_c q.nb) ∧
    w.regs.bx_r=products (g.b_c q.nb) g.centre ∧ w.regs.cy_r=products (g.c_c q.nb) g.centre

variable {g : Module} {host : Neighbours → ℕ → Samples} {needs : ℕ → Neighbours → Prop}
  {w : Served}

theorem isPlane_iff (q : Request) :
    q.isPlane=true ↔ q.mode.toNat=3 ∧ q.nb.has_above=true ∧ q.nb.has_left=true := by
  unfold Request.isPlane
  rw [Bool.and_eq_true,Bool.and_eq_true,decide_eq_true_eq]

theorem pending_of_none (hdue : w.due=none) (hphase : w.regs.phase=false) : w.Pending g where
  phase := by rw [hphase,hdue]; rfl
  isPlane := fun q hq => absurd (hdue.symm.trans hq) (Option.some_ne_none q).symm
  regs := fun q hq => absurd (hdue.symm.trans hq) (Option.some_ne_none q).symm

theorem Module.Computes.answers_plane (hg : g.Computes host needs) (h : w.Pending g)
    {due : Request} (hdue : w.due=some due) (q : Request) :
    (w.step g q).Shows g host needs ∧ (w.step g q).Pending g := by
  have hphase : w.regs.phase=true := by rw [h.phase,hdue]; rfl
  have hregs : (w.step g q).regs = { w.regs with
      pred := write g.side w.regs.pred (box 0 0 g.side g.side fun x y =>
        clip8 (planeVal w.regs.a_r (w.regs.bx_r x) (w.regs.cy_r y)).toInt)
      valid := true
      phase := false } := by
    unfold Served.step Module.step
    rw [if_pos hphase]
  have hshown : (w.step g q).shown=some due := by
    unfold Served.step
    rw [hdue]
    rfl
  have hnext : (w.step g q).due=none := by
    unfold Served.step
    rw [hdue]
    rfl
  obtain ⟨ha,hbx,hcy⟩ := h.regs due hdue
  obtain ⟨hmode,_⟩ := (isPlane_iff due).mp (h.isPlane due hdue)
  have hcells : (box 0 0 g.side g.side fun x y =>
      clip8 (planeVal w.regs.a_r (w.regs.bx_r x) (w.regs.cy_r y)).toInt) =
      host due.nb due.mode.toNat := by
    rw [hmode,hg.plane]
    refine box_congr fun x hx y hy => ?_
    unfold products at hbx hcy
    rw [rtl_clip8,toInt_planeVal,ha,hbx,hcy,toInt_ofInt_of_lt (hg.offset due.nb),
      toInt_ofInt_of_lt (hg.slopes due.nb x hx).1,toInt_ofInt_of_lt (hg.slopes due.nb y hy).2]
  refine ⟨⟨by rw [hregs,hshown]; rfl,?_⟩,pending_of_none hnext (by rw [hregs])⟩
  intro q' hq' _ stride mem x y hstride hx hy
  rw [hshown] at hq'
  rw [← Option.some.inj hq',hregs]
  rw [hcells]
  rw [hmode,hg.plane]
  exact (fills_box _ _ _).alike _ _ _ _ (Nat.le_refl _) hstride hx hy _ mem

theorem Module.Computes.answers (hg : g.Computes host needs) (h : w.Pending g)
    (hdue : w.due=none) (q : Request) :
    (w.step g q).Shows g host needs ∧ (w.step g q).Pending g := by
  have hphase : w.regs.phase=false := by rw [h.phase,hdue]; rfl
  have hnotdue : w.due.isNone=true := by rw [hdue]; rfl
  have hnosome : ¬w.due.isSome=true := by rw [hdue]; exact Bool.false_ne_true
  unfold Served.step Module.step
  rw [if_neg (by rw [hphase]; exact Bool.false_ne_true),if_neg hnosome,hnotdue,Bool.true_and]
  cases hstart : q.start with
  | false =>
    refine ⟨⟨rfl,fun q' hq' => ?_⟩,pending_of_none rfl hphase⟩
    exact absurd hq' (Option.some_ne_none q').symm
  | true =>
    cases hnow : g.now q.mode.toNat q.nb with
    | none =>
      have hplane : q.isPlane=true := (isPlane_iff q).mpr ((hg.later _ _).mp hnow)
      rw [hplane]
      refine ⟨⟨rfl,fun q' hq' => absurd hq' (Option.some_ne_none q').symm⟩,rfl,?_,?_⟩
      · intro q' hq'
        rw [← Option.some.inj hq']
        exact hplane
      · intro q' hq'
        rw [← Option.some.inj hq']
        exact ⟨rfl,rfl,rfl⟩
    | some samples =>
      have hplane : q.isPlane=false := by
        cases hp : q.isPlane with
        | false => rfl
        | true => exact absurd ((hg.later _ _).mpr ((isPlane_iff q).mp hp)) (by simp [hnow])
      rw [hplane]
      refine ⟨⟨rfl,?_⟩,pending_of_none rfl hphase⟩
      intro q' hq' hneeds stride mem x y hstride hx hy
      have hsame : q=q' := Option.some.inj hq'
      subst hsame
      exact hg.now _ _ _ q.mode.isLt hneeds hnow _ _ _ _ (Nat.le_refl _) hstride hx hy _ mem

theorem Module.Computes.serves (hg : g.Computes host needs) : g.Serves host needs := by
  intro r qs hphase
  have hstep : ∀ (w : Served) (q : Request), w.Pending g →
      (w.step g q).Shows g host needs ∧ (w.step g q).Pending g := by
    intro w q h
    cases hdue : w.due with
    | none => exact hg.answers h hdue q
    | some due => exact hg.answers_plane h hdue q
  refine Along.imp (Served.Pending g) (fun w q h _ => (hstep w q h).2)
    (fun w q h _ => (hstep w q h).1) (Q := fun _ _ => True) ?_ ?_
  · exact along_of_forall (fun _ _ => trivial) _
  · exact pending_of_none rfl hphase

theorem abs_mul_lt {slope d B C : ℤ} (hslope : |slope| ≤ B) (hd : |d| ≤ C) (hBC : B*C<2^15) :
    |slope*d| < 2^15 := by
  rw [abs_mul]
  have hle := mul_le_mul hslope hd (abs_nonneg d) ((abs_nonneg slope).trans hslope)
  omega

variable (s : ℕ → UInt8)

theorem sumFrom_sixteen : sumFrom s 0 16=tree8 s 0+tree8 s 8 := by
  unfold sumFrom tree8
  simp only [Finset.sum_range_succ,Finset.sum_range_zero,Nat.zero_add,Nat.reduceAdd]
  ring

theorem sumFrom_four (i : ℕ) : sumFrom s i 4=tree4 s i := by
  unfold sumFrom tree4
  simp only [Finset.sum_range_succ,Finset.sum_range_zero]
  ring

theorem grad16_eq (corner : UInt8) : grad16 s corner =
    gradient 8 (fun i => s (8+i)) fun i => if i ≤ 6 then s (6-i) else corner := by
  unfold grad16 gradient
  simp only [Finset.sum_range_succ,Finset.sum_range_zero]
  norm_num
  ring

/-- The samples that a mode of a 16x16 block needs are there. -/
def I16Needs (mode : ℕ) (n : Neighbours) : Prop :=
  (mode=0 ∨ mode=3 → n.has_above=true) ∧ (mode=1 ∨ mode=3 → n.has_left=true)

/-- The samples that a chroma mode needs are there. -/
def ChromaNeeds (mode : ℕ) (n : Neighbours) : Prop :=
  (mode=2 ∨ mode=3 → n.has_above=true) ∧ (mode=1 ∨ mode=3 → n.has_left=true)

theorem abs_slope16_le (corner : UInt8) :
    |(5*grad16 s corner+32) >>> 6| ≤ 718 := by
  have hgrad := abs_gradient_le 8 (fun i => s (8+i)) fun i => if i ≤ 6 then s (6-i) else corner
  have hsum : ∑ i∈Finset.range 8, ((i : ℤ)+1)*255=9180 := by decide
  rw [← grad16_eq,hsum] at hgrad
  obtain ⟨hlow,hhigh⟩ := abs_le.mp hgrad
  have hpow : ((2^6 : ℕ) : ℤ)=64 := by norm_num
  rw [Int.shiftRight_eq_div_pow,hpow]
  exact abs_le.mpr ⟨by omega,by omega⟩

theorem abs_slope8_le (corner : UInt8) :
    |(17*grad8 s corner+16) >>> 5| ≤ 1355 := by
  have hgrad := abs_gradient_le 4 (fun i => s (4+i)) fun i => if i = 3 then corner else s (2-i)
  have hsum : ∑ i∈Finset.range 4, ((i : ℤ)+1)*255=2550 := by decide
  obtain ⟨hlow,hhigh⟩ := abs_le.mp hgrad
  have hpow : ((2^5 : ℕ) : ℤ)=32 := by norm_num
  unfold grad8
  rw [Int.shiftRight_eq_div_pow,hpow]
  exact abs_le.mpr ⟨by omega,by omega⟩

theorem abs_offset_lt (s t : UInt8) : |16*((s.toNat : ℤ)+t.toNat)| < 2^15 := by
  have hs := toNat_le s
  have ht := toNat_le t
  exact abs_lt.mpr ⟨by omega,by omega⟩

theorem predI16_DC_eq (n : Neighbours) : predI16_DC n = box 0 0 16 16 fun _ _ => lumaDc n := by
  have hnonneg (s : ℕ → UInt8) : 0≤tree8 s 0+tree8 s 8 := by
    unfold tree8
    dsimp only
    omega
  have ha := hnonneg n.above
  have hl := hnonneg n.left
  have hdiv {u v : ℤ} (k : ℕ) (hsum : u=v) (hv : 0≤v) :
      byte (u.tdiv (2^k))=byte (v >>> k) := by
    rw [hsum,Int.tdiv_eq_ediv_of_nonneg hv,Int.shiftRight_eq_div_pow]
    norm_cast
  unfold predI16_DC lumaDc
  rw [sumFrom_sixteen,sumFrom_sixteen]
  refine box_congr fun _ _ _ _ => ?_
  generalize tree8 n.above 0+tree8 n.above 8=sa at *
  generalize tree8 n.left 0+tree8 n.left 8=sl at *
  cases n.has_above with
  | true =>
    cases n.has_left with
    | true => exact hdiv 5 (u := sa+sl+16) (v := sa+sl+16) rfl (by omega)
    | false => exact hdiv 4 (u := sa+0+8) (v := sa+8) (by omega) (by omega)
  | false =>
    cases n.has_left with
    | true => exact hdiv 4 (u := 0+sl+8) (v := sl+8) (by omega) (by omega)
    | false => rfl

theorem intra16x16_computes : intra16x16_pred.Computes predI16 I16Needs where
  later := by
    intro mode n
    unfold intra16x16_pred
    dsimp only
    split_ifs <;> simp_all
  now := by
    intro mode n samples hmode hneeds hnow
    unfold intra16x16_pred at hnow
    dsimp only at hnow
    match mode,hmode with
    | 0,_ =>
      rw [if_neg (by decide),if_pos (by rw [hneeds.1 (Or.inl rfl)]; rfl)] at hnow
      rw [← Option.some.inj hnow]
      exact (fills_box 16 16 _).alike
    | 1,_ =>
      rw [if_neg (by decide),if_neg (by simp),if_pos (by rw [hneeds.2 (Or.inl rfl)]; rfl)] at hnow
      rw [← Option.some.inj hnow]
      exact (fills_box 16 16 _).alike
    | 2,_ =>
      rw [← Option.some.inj hnow]
      change Alike 16 16 _ (predI16_DC n)
      rw [predI16_DC_eq]
      exact (fills_box 16 16 _).alike
    | 3,_ =>
      rw [if_pos rfl,hneeds.1 (Or.inr rfl),hneeds.2 (Or.inr rfl)] at hnow
      exact absurd hnow (Option.some_ne_none _).symm
  plane := by
    intro n
    unfold intra16x16_pred
    dsimp only
    rw [grad16_eq,grad16_eq]
    rfl
  offset := fun n => abs_offset_lt _ _
  slopes := by
    intro n i hi
    have hside : i<16 := hi
    have hdist : |(i : ℤ)-7| ≤ 8 := abs_le.mpr ⟨by omega,by omega⟩
    exact ⟨abs_mul_lt (abs_slope16_le n.above n.top_left) hdist (by norm_num),
      abs_mul_lt (abs_slope16_le n.left n.top_left) hdist (by norm_num)⟩

theorem fills_quarters (tl tr bl br : UInt8) : Fills 8 8 (quarters tl tr bl br) := by
  have hplaces : places (quarters tl tr bl br)=places (quarters 0 0 0 0) := rfl
  have hzero : (∀ p∈places (quarters 0 0 0 0), p.1<8) ∧
      ∀ x<8, ∀ y<8, (x,y)∈places (quarters 0 0 0 0) := by
    decide
  rw [← hplaces] at hzero
  exact fills_of_places hzero.1 hzero.2

theorem chromaDc_alike (n : Neighbours) : Alike 8 8 (chromaDc n) (predChroma8 n 0) := by
  have hrange (s : ℕ → UInt8) (i : ℕ) : 0≤tree4 s i ∧ tree4 s i≤1020 := by
    have h0 := toNat_le (s (i+0))
    have h1 := toNat_le (s (i+1))
    have h2 := toNat_le (s (i+2))
    have h3 := toNat_le (s (i+3))
    unfold tree4
    dsimp only
    omega
  have hone (s : ℕ → UInt8) (i : ℕ) :
      byte ((sumFrom s i 4+2) >>> 2)=clip8 ((tree4 s i+2) >>> 2) := by
    have hs := hrange s i
    rw [rtl_clip8,sumFrom_four,clip8_mean 2 (by omega) (by omega)]
  have htwo (s u : ℕ → UInt8) (i : ℕ) : byte ((sumFrom s i 4+sumFrom u i 4+4) >>> 3) =
      clip8 ((tree4 s i+tree4 u i+4) >>> 3) := by
    have hs := hrange s i
    have hu := hrange u i
    rw [rtl_clip8,sumFrom_four,sumFrom_four,clip8_mean 3 (by omega) (by omega)]
  unfold chromaDc predChroma8 fill
  simp only [hone,htwo]
  split_ifs
  · exact (fills_quarters _ _ _ _).alike
  · exact (fills_quarters _ _ _ _).alike
  · exact (fills_quarters _ _ _ _).alike
  · refine (fills_quarters 128 128 128 128).alike_const (fills_box 8 8 _) ?_ fun _ => box_value
    intro c hc
    unfold quarters at hc
    rw [List.mem_append,List.mem_append,List.mem_append] at hc
    rcases hc with ((hc | hc) | hc) | hc
    · exact box_value hc
    · exact box_value hc
    · exact box_value hc
    · exact box_value hc

theorem chroma8x8_computes : chroma8x8_pred.Computes predChroma8 ChromaNeeds where
  later := by
    intro mode n
    unfold chroma8x8_pred
    dsimp only
    split_ifs <;> simp_all
  now := by
    intro mode n samples hmode hneeds hnow
    unfold chroma8x8_pred at hnow
    dsimp only at hnow
    match mode,hmode with
    | 0,_ =>
      rw [← Option.some.inj hnow]
      exact chromaDc_alike n
    | 1,_ =>
      rw [← Option.some.inj hnow]
      exact (fills_box 8 8 _).alike
    | 2,_ =>
      rw [← Option.some.inj hnow]
      exact (fills_box 8 8 _).alike
    | 3,_ =>
      rw [if_pos rfl,hneeds.1 (Or.inr rfl),hneeds.2 (Or.inr rfl)] at hnow
      exact absurd hnow (Option.some_ne_none _).symm
  plane := fun _ => rfl
  offset := fun n => abs_offset_lt _ _
  slopes := by
    intro n i hi
    have hside : i<8 := hi
    have hdist : |(i : ℤ)-3| ≤ 4 := abs_le.mpr ⟨by omega,by omega⟩
    exact ⟨abs_mul_lt (abs_slope8_le n.above n.top_left) hdist (by norm_num),
      abs_mul_lt (abs_slope8_le n.left n.top_left) hdist (by norm_num)⟩

/-- The predictors of the core and of the host agree for every mode whose samples are there: the
4x4 module at once, and the modules for 16x16 luma and 8x8 chroma behind each clock of every
run. -/
theorem intra_predictors_agree :
    (∀ (mode : BitVec 4) (n : Neighbours), I4Needs mode.toNat n →
      ∀ (stride : ℕ) (mem : ℕ → UInt8) (x y : ℕ), 4 ≤ stride → x<4 → y<4 →
        (intra4x4_pred n mode).pred (place 4 x y) =
          write stride mem (predI4 n mode.toNat) (place stride x y)) ∧
    intra16x16_pred.Serves predI16 I16Needs ∧
    chroma8x8_pred.Serves predChroma8 ChromaNeeds :=
  ⟨fun _ _ h _ mem _ _ hstride hx hy => intra4x4_pred_eq h hstride hx hy mem,
    intra16x16_computes.serves,chroma8x8_computes.serves⟩

/-- Samples that rise along both sides. -/
def ramp : Neighbours := ⟨fun k => UInt8.ofNat (9*k),fun k => UInt8.ofNat (5*k),3,true,true⟩

/-- A diagonal prediction from them, and a plane that is asked for and then awaited. -/
theorem intra_predictors_agree_ramp :
    (intra4x4_pred ramp 3#4).pred (place 4 1 2) =
      write 16 (fun _ => 0) (predI4 ramp 3) (place 16 1 2) ∧
    Along (Served.step intra16x16_pred)
      (fun w q => (w.step intra16x16_pred q).Shows intra16x16_pred predI16 I16Needs)
      ⟨⟨false,0,fun _ => 0,fun _ => 0,false,false,fun _ => 0⟩,none,none⟩
      [⟨true,3#2,ramp⟩,⟨false,0#2,ramp⟩] :=
  ⟨intra_predictors_agree.1 3#4 ramp ⟨fun _ => rfl,fun _ => rfl⟩ 16 (fun _ => 0) 1 2 (by decide)
      (by decide) (by decide),
    intra_predictors_agree.2.1 _ _ rfl⟩

end Rtl

end Misterplex.Intra
