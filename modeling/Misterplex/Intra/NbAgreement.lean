import Misterplex.Intra.NbRun

/-!
# Agreement of the neighbours with the host

The store presents the samples the host reads, apart from three places: the
samples above to the right of the two blocks whose right neighbour comes later,
the lowest block of the left column, and the corner of a macroblock. A picture
is presented as the host reads it precisely when its samples agree by chance
in these places.
-/

namespace Misterplex.Intra

open Trace PicSize NbCtx

/-- The neighbours the store presents for a block. -/
structure Presents (d : PicSize) (sample : ℕ → ℕ → UInt8) (corner : UInt8) (mbx mby lx ly : ℕ)
    (n : Neighbours) : Prop where
  /-- There are samples above below the first row. -/
  has_above : n.has_above=decide (0 < mby*16+ly*4)
  /-- There are samples to the left behind the first column. -/
  has_left : n.has_left=decide (0 < mbx*16+lx*4)
  above : 0 < mby*16+ly*4 → ∀ t<4,
    n.above t=sample (mbx*16+lx*4+t) (mby*16+ly*4-1)
  /-- The samples above to the right: a block that comes later is cleared. -/
  right : 0 < mby*16+ly*4 → ∀ t, 4≤t → t<8 →
    n.above t =
      if lx = 1 ∧ ly%2 = 1 then 128
      else sample (mbx*16+lx*4+if d.RightReady mbx lx ly then t else 3)
        (mby*16+ly*4-1)
  /-- The samples to the left: the lowest ones of the macroblock to the left
  are missing. -/
  left : 0 < mbx*16+lx*4 → ∀ t<4,
    n.left t =
      if lx = 0 ∧ ly = 3 then 128 else sample (mbx*16+lx*4-1) (mby*16+ly*4+t)
  /-- The corner sample: that of a macroblock is the latched one. -/
  top_left : 0 < mby*16+ly*4 → 0 < mbx*16+lx*4 →
    n.top_left =
      if lx = 0 ∧ ly = 0 then corner
      else sample (mbx*16+lx*4-1) (mby*16+ly*4-1)

theorem agrees_iff {d : PicSize} {sample : ℕ → ℕ → UInt8} {corner : UInt8} {mbx mby lx ly : ℕ}
    {n h : Neighbours} (hn : Presents d sample corner mbx mby lx ly n)
    (hh : d.Reads sample mbx mby lx ly h) :
    Agrees n h ↔
      (lx=1 → ly%2=1 → sample (mbx*16+7) (mby*16+ly*4-1)=128) ∧
      (lx=0 → ly=3 → 0 < mbx → ∀ t<4,
        sample (mbx*16-1) (mby*16+12+t)=128) ∧
      (lx=0 → ly=0 → 0 < mbx → 0 < mby →
        corner=sample (mbx*16-1) (mby*16-1)) := by
  constructor
  · intro hagree
    refine ⟨?_,?_,?_⟩
    · intro hlx hly
      have hrow : 0 < mby*16+ly*4 := by omega
      have heq := hagree.above (by rw [hh.has_above]; exact decide_eq_true hrow) 4 (by decide)
      have hnot : ¬ d.RightReady mbx lx ly := by
        unfold RightReady
        omega
      rw [hn.right hrow 4 (by decide) (by decide),if_pos ⟨hlx,hly⟩,
        hh.right hrow 4 (by decide) (by decide),if_neg hnot,hlx] at heq
      exact heq.symm
    · rintro rfl rfl hx t ht
      have hcol : 0 < mbx*16+0*4 := by omega
      have heq := hagree.left (by rw [hh.has_left]; exact decide_eq_true hcol) t ht
      rw [hn.left hcol t ht,if_pos ⟨rfl,rfl⟩,hh.left hcol t ht] at heq
      exact heq.symm
    · rintro rfl rfl hx hy
      have hcol : 0 < mbx*16+0*4 := by omega
      have hrow : 0 < mby*16+0*4 := by omega
      have heq := hagree.top_left (by rw [hh.has_above]; exact decide_eq_true hrow)
        (by rw [hh.has_left]; exact decide_eq_true hcol)
      rw [hn.top_left hrow hcol,if_pos ⟨rfl,rfl⟩,hh.top_left hrow hcol] at heq
      exact heq
  · rintro ⟨hright,hleft,hcorner⟩
    constructor
    · rw [hn.has_above,hh.has_above]
    · rw [hn.has_left,hh.has_left]
    · intro ha t ht
      rw [hh.has_above] at ha
      have hrow := of_decide_eq_true ha
      by_cases hlow : t<4
      · rw [hn.above hrow t hlow,hh.above hrow t hlow]
      · rw [hn.right hrow t (by omega) ht,hh.right hrow t (by omega) ht]
        by_cases hlater : lx=1 ∧ ly%2=1
        · have hnot : ¬ d.RightReady mbx lx ly := by
            unfold RightReady
            omega
          rw [if_pos hlater,if_neg hnot,hlater.1]
          exact (hright hlater.1 hlater.2).symm
        · rw [if_neg hlater]
    · intro hl t ht
      rw [hh.has_left] at hl
      have hcol := of_decide_eq_true hl
      rw [hn.left hcol t ht,hh.left hcol t ht]
      by_cases hlow : lx=0 ∧ ly=3
      · obtain ⟨rfl,rfl⟩ := hlow
        exact (hleft rfl rfl (by omega) t ht).symm
      · rw [if_neg hlow]
    · intro ha hl
      rw [hh.has_above] at ha
      rw [hh.has_left] at hl
      have hrow := of_decide_eq_true ha
      have hcol := of_decide_eq_true hl
      rw [hn.top_left hrow hcol,hh.top_left hrow hcol]
      by_cases hzero : lx=0 ∧ ly=0
      · obtain ⟨rfl,rfl⟩ := hzero
        exact hcorner rfl rfl (by omega) (by omega)
      · rw [if_neg hzero]

variable {d : PicSize} {sample : ℕ → ℕ → UInt8} {r : Driver} {MB_WIDTH_MAX n k : ℕ} {s : NbCtx}

theorem Within.earlier (hs : Within d sample r n k s) {row col px py : ℕ} (hrow : row<16)
    (hcol : col<16) (hlt : blkOrd (col/4) (row/4)<k) (hpx : px=n%d.mbW*16+col)
    (hpy : py=n/d.mbW*16+row) : s.mb_buf row col=sample px py := by
  rw [hs.mb_buf row hrow col hcol,if_pos hlt,hpx,hpy]

theorem Within.later (hs : Within d sample r n k s) {row col : ℕ} (hrow : row<16)
    (hcol : col<16) (hle : k≤blkOrd (col/4) (row/4)) : s.mb_buf row col=128 := by
  rw [hs.mb_buf row hrow col hcol,if_neg (by omega)]

theorem Within.row_above (hs : Within d sample r n k s) {c : ℕ} (hc : c<16*d.mbW)
    (hcol : n%d.mbW*16≤c) (hrow : 0<n/d.mbW) :
    s.above_row_buf c=sample c (n/d.mbW*16-1) := by
  have hrows : rowsStored d n c=n/d.mbW := if_neg (by omega)
  have hline : 16*(n/d.mbW)-1=n/d.mbW*16-1 := by omega
  have hstored := hs.row c hc (by omega)
  rw [hrows,hline] at hstored
  exact hstored

theorem Within.presents (h : Fits d MB_WIDTH_MAX) (hn : n<d.mbW*d.mbH) (hk : k<16)
    (hs : Within d sample r n k s) :
    Presents d sample (cornerSample d sample r n) (n%d.mbW) (n/d.mbW) (blkX k) (blkY k)
      (s.outputs (blockIn d sample n k)) := by
  obtain ⟨hmx,hmy,hmw,hlt,-⟩ := h.ports hn
  obtain ⟨hbx,hby⟩ := @blockIn_place d sample n k hk
  obtain ⟨hlx,hly⟩ := blk_bounds hk
  have hord : blkOrd (blkX k) (blkY k)=k := (blkOrd_eq_iff hlx).mpr ⟨rfl,rfl⟩
  generalize hi : blockIn d sample n k=i at hbx hby
  have hx : i.mb_x=n%d.mbW := by
    rw [← hi]
    exact hmx
  have hy : i.mb_y=n/d.mbW := by
    rw [← hi]
    exact hmy
  have hw : i.mb_width=d.mbW := by
    rw [← hi]
    exact hmw
  generalize blkX k=lx at hbx hlx hord
  generalize blkY k=ly at hby hly hord
  have hha : i.has_above=decide (0<n/d.mbW*16+ly*4) := by
    unfold NbIn.has_above
    rw [hy,hby,Bool.eq_iff_iff,Bool.or_eq_true,bne_iff_ne,bne_iff_ne,decide_eq_true_eq]
    omega
  have hhl : i.has_left=decide (0<n%d.mbW*16+lx*4) := by
    unfold NbIn.has_left
    rw [hx,hbx,Bool.eq_iff_iff,Bool.or_eq_true,bne_iff_ne,bne_iff_ne,decide_eq_true_eq]
    omega
  have habove : 0<n/d.mbW*16+ly*4 → ∀ t<4,
      s.above i t=sample (n%d.mbW*16+lx*4+t) (n/d.mbW*16+ly*4-1) := by
    intro hrow t ht
    unfold NbCtx.above
    rw [hha,decide_eq_true hrow,if_pos rfl,hby,hbx,hx]
    by_cases hzero : ly=0
    · rw [hzero,if_neg (by simp),hs.row_above (by omega) (by omega) (by omega)]
      congr 1
    · have hord' : blkOrd ((lx*4+t)/4) ((ly*4-1)/4)<k := by
        rw [← hord]
        unfold blkOrd
        omega
      rw [if_pos (bne_iff_ne.mpr (by omega))]
      exact hs.earlier (by omega) (by omega) hord' (by omega) (by omega)
  have hright : 0<n/d.mbW*16+ly*4 →
      i.has_above_right =
        decide ((ly=0 ∧ (lx<3 ∨ n%d.mbW+1<d.mbW)) ∨ (ly≠0 ∧ lx<3)) := by
    unfold NbIn.has_above_right NbIn.has_above_right_top_edge NbIn.has_above_right_within
      NbIn.has_above_right_mb
    rw [hx,hy,hw,hbx,hby]
    by_cases hzero : ly=0
    · rw [hzero,Nat.zero_mul,beq_self_eq_true,if_pos rfl,Bool.eq_iff_iff,decide_eq_true_eq,
        Bool.true_and,Bool.or_eq_true,Bool.and_eq_true,bne_iff_ne,decide_eq_true_eq,decide_eq_true_eq]
      omega
    · rw [if_neg (mt beq_iff_eq.mp (by omega)),Bool.eq_iff_iff,decide_eq_true_eq,
        Bool.and_eq_true,bne_iff_ne,decide_eq_true_eq]
      omega
  constructor
  · exact hha
  · exact hhl
  · intro hrow t ht
    unfold NbCtx.outputs
    dsimp only
    rw [if_pos ht]
    exact habove hrow t ht
  · intro hrow t hlow ht
    unfold NbCtx.outputs
    dsimp only
    rw [if_neg (by omega)]
    unfold NbCtx.above_right
    rw [habove hrow 3 (by decide),hright hrow,hby,hbx,hx]
    by_cases hzero : ly=0
    · have hready : d.RightReady (n%d.mbW) lx ly ↔ lx<3 ∨ n%d.mbW+1<d.mbW := by
        unfold RightReady
        omega
      rw [if_neg (by omega : ¬ (lx=1 ∧ ly%2=1))]
      by_cases hthere : lx<3 ∨ n%d.mbW+1<d.mbW
      · have hplace : n%d.mbW*16+lx*4+4+(t-4)=n%d.mbW*16+lx*4+t := by
          omega
        rw [if_pos (decide_eq_true (by omega)),if_pos (hready.mpr hthere),hzero,
          if_neg (by simp),hplace,hs.row_above (by omega) (by omega) (by omega)]
        rfl
      · rw [if_neg (mt of_decide_eq_true (by omega)),if_neg (mt hready.mp hthere)]
    · by_cases hlater : lx=1 ∧ ly%2=1
      · have hord' : k≤blkOrd ((lx*4+4+(t-4))%16/4) ((ly*4-1)/4) := by
          rw [← hord]
          unfold blkOrd
          omega
        rw [if_pos (decide_eq_true (by omega)),if_pos (bne_iff_ne.mpr (by omega)),
          if_pos hlater]
        exact hs.later (by omega) (by omega) hord'
      · rw [if_neg hlater]
        by_cases hthere : lx<3
        · have hready : d.RightReady (n%d.mbW) lx ly := by
            unfold RightReady
            omega
          have hord' : blkOrd ((lx*4+4+(t-4))%16/4) ((ly*4-1)/4)<k := by
            rw [← hord]
            unfold blkOrd
            omega
          rw [if_pos (decide_eq_true (by omega)),if_pos (bne_iff_ne.mpr (by omega)),
            if_pos hready]
          exact hs.earlier (by omega) (by omega) hord' (by omega) (by omega)
        · have hready : ¬ d.RightReady (n%d.mbW) lx ly := by
            unfold RightReady
            omega
          rw [if_neg (mt of_decide_eq_true (by omega)),if_neg hready]
  · intro hcol t ht
    unfold NbCtx.outputs
    dsimp only
    unfold NbCtx.left
    rw [hhl,decide_eq_true hcol,if_pos rfl,hbx,hby]
    by_cases hzero : lx=0
    · have hleft := hs.left (by omega) (ly*4+t) (by omega)
      rw [hzero,if_neg (by simp),hleft]
      by_cases hlast : ly=3
      · rw [if_neg (by omega),if_pos ⟨rfl,hlast⟩]
      · rw [if_pos (by omega),if_neg (fun h => hlast h.2)]
        congr 1
        omega
    · have hord' : blkOrd ((lx*4-1)/4) ((ly*4+t)/4)<k := by
        rw [← hord]
        unfold blkOrd
        omega
      rw [if_pos (bne_iff_ne.mpr (by omega)),if_neg (fun h => hzero h.1)]
      exact hs.earlier (by omega) (by omega) hord' (by omega) (by omega)
  · intro hrow hcol
    unfold NbCtx.outputs
    unfold NbCtx.top_left
    rw [hha,hhl,decide_eq_true hrow,decide_eq_true hcol,hbx,hby,hx]
    by_cases hzero : lx=0
    · by_cases htop : ly=0
      · rw [hzero,htop]
        exact hs.corner (by omega) (by omega)
      · have hleft := hs.left (by omega) (ly*4-1) (by omega)
        have hline : n/d.mbW*16+(ly*4-1)=n/d.mbW*16+ly*4-1 := by omega
        rw [if_pos (by omega),hline] at hleft
        simpa [hzero,htop] using hleft
    · by_cases htop : ly=0
      · have hplace : n%d.mbW*16≤n%d.mbW*16+lx*4-1 := by omega
        have habove' := hs.row_above (by omega) hplace (by omega)
        simpa [hzero,htop] using habove'
      · have hord' : blkOrd ((lx*4-1)/4) ((ly*4-1)/4)<k := by
          rw [← hord]
          unfold blkOrd
          omega
        have hpx : n%d.mbW*16+lx*4-1=n%d.mbW*16+(lx*4-1) := by omega
        have hpy : n/d.mbW*16+ly*4-1=n/d.mbW*16+(ly*4-1) := by omega
        have hbuf := hs.earlier (by omega) (by omega) hord' hpx hpy
        simpa [hzero,htop] using hbuf

/-- Every block of a picture is presented as the host reads it. -/
def PictureAgrees (d : PicSize) (sample : ℕ → ℕ → UInt8) (r : Driver) (MB_WIDTH_MAX : ℕ)
    (s : NbCtx) : Prop :=
  ∀ m<16*(d.mbW*d.mbH),
    Agrees (presented d sample r MB_WIDTH_MAX s m) (d.hostNeighbours sample m)

/-- The samples of a picture agree in the places where the store presents
others than the host reads. -/
structure Harmless (d : PicSize) (sample : ℕ → ℕ → UInt8) (r : Driver) : Prop where
  /-- The last sample above the two blocks whose right neighbour comes later. -/
  right : ∀ n<d.mbW*d.mbH, sample (n%d.mbW*16+7) (n/d.mbW*16+3)=128 ∧
    sample (n%d.mbW*16+7) (n/d.mbW*16+11)=128
  /-- The lowest block of the right column of a macroblock with another behind
  it in its row. -/
  left : ∀ n<d.mbW*d.mbH, 0<n%d.mbW → ∀ t<4,
    sample (n%d.mbW*16-1) (n/d.mbW*16+12+t)=128
  /-- The corner sample, unless the macroblock starts as soon as it can. -/
  corner : ∀ n<d.mbW*d.mbH, 0<n%d.mbW → 0<n/d.mbW →
    (r.gap (n-1)).length=16 ∨
      sample (n%d.mbW*16-1) (n/d.mbW*16+15) =
        sample (n%d.mbW*16-1) (n/d.mbW*16-1)

theorem presented_agrees_iff (hd : d.Whole) (hf : Fits d MB_WIDTH_MAX)
    (hgap : ∀ n, n+1<d.mbW*d.mbH → 16≤(r.gap n).length) (hs : Idle s)
    (hn : n<d.mbW*d.mbH) (hk : k<16) :
    Agrees (presented d sample r MB_WIDTH_MAX s (16*n+k)) (d.hostNeighbours sample (16*n+k)) ↔
      (blkX k=1 → blkY k%2=1 →
        sample (n%d.mbW*16+7) (n/d.mbW*16+blkY k*4-1)=128) ∧
      (blkX k=0 → blkY k=3 → 0<n%d.mbW → ∀ t<4,
        sample (n%d.mbW*16-1) (n/d.mbW*16+12+t)=128) ∧
      (blkX k=0 → blkY k=0 → 0<n%d.mbW → 0<n/d.mbW →
        cornerSample d sample r n=sample (n%d.mbW*16-1) (n/d.mbW*16-1)) := by
  obtain ⟨-,-,-,hlt,hrow⟩ := hf.ports hn
  obtain ⟨hlx,hly⟩ := blk_bounds hk
  have hdiv : (16*n+k)/16=n := by omega
  have hmod : (16*n+k)%16=k := by omega
  have hnumber : 16*n+k=d.number (n%d.mbW) (n/d.mbW) (blkX k) (blkY k) := by
    have hmb : n/d.mbW*d.mbW+n%d.mbW=n := (mb_eq_iff hlt).mpr ⟨rfl,rfl⟩
    have hord : blkOrd (blkX k) (blkY k)=k := (blkOrd_eq_iff hlx).mpr ⟨rfl,rfl⟩
    unfold number
    rw [hmb,hord]
  have hwithin := @within_before d sample r MB_WIDTH_MAX s hf hgap hs (16*n+k) (by omega)
  rw [hdiv,hmod] at hwithin
  have hpresents := hwithin.presents hf hn hk
  have hreads := neighbours_reads sample hd ⟨hlt,hrow,hlx,hly⟩
  rw [← hnumber] at hreads
  unfold presented hostNeighbours
  rw [hdiv,hmod]
  exact agrees_iff hpresents hreads

/-- The latched corner sample is the one above to the left exactly when the
macroblock starts as soon as it can, or the two samples are the same. -/
theorem cornerSample_iff :
    cornerSample d sample r n=sample (n%d.mbW*16-1) (n/d.mbW*16-1) ↔
      (r.gap (n-1)).length=16 ∨
        sample (n%d.mbW*16-1) (n/d.mbW*16+15) =
          sample (n%d.mbW*16-1) (n/d.mbW*16-1) := by
  unfold cornerSample
  by_cases hdue : (r.gap (n-1)).length=16
  · rw [if_pos hdue]
    exact iff_of_true rfl (Or.inl hdue)
  · rw [if_neg hdue,or_iff_right hdue]

/-- A picture of one macroblock of one grey. -/
def greyPicture : PicSize := ⟨16,16⟩

/-- A driver without pauses between blocks, and with some behind macroblocks. -/
def steadyDriver (gap : ℕ) : Driver :=
  ⟨fun _ => ⟨0,fun _ => 0⟩,fun _ _ => [],fun _ => List.replicate gap ⟨0,fun _ => 0⟩⟩

/-- The store after reset, over a cleared line buffer. -/
def resetCtx : NbCtx :=
  { geom_reject := false, mb_buf := fun _ _ => 128, above_row_buf := fun _ => 0,
    above_wr_addr := 0, above_wr_data := 0, above_wr_en := false, above_wr_cnt := 0,
    above_wr_active := false, left_col := fun _ => 128, tl_corner := 128 }

theorem resetCtx_idle : Idle resetCtx := ⟨rfl,rfl,rfl⟩

/-- In a grey macroblock the fourth block is presented cleared samples above to
the right, where the host repeats the grey sample above. -/
theorem grey_picture_differs :
    ¬ PictureAgrees greyPicture (fun _ _ => 16) (steadyDriver 16) 80 resetCtx := by
  intro hagrees
  have hblock := (hagrees 3 (by decide)).above (by decide) 4 (by decide)
  exact absurd hblock (by decide)

/-- For a picture of whole macroblocks that fits the line buffer, fed with
enough clocks behind each macroblock, every block is presented the neighbours
the host reads exactly when the samples agree in the doubtful places. -/
theorem neighbours_agree_iff (hd : d.Whole) (hf : Fits d MB_WIDTH_MAX)
    (hgap : ∀ n, n+1<d.mbW*d.mbH → 16≤(r.gap n).length) (hs : Idle s) :
    PictureAgrees d sample r MB_WIDTH_MAX s ↔ Harmless d sample r := by
  constructor
  · intro hagrees
    have hblock (n k : ℕ) (hn : n<d.mbW*d.mbH) (hk : k<16) :=
      (presented_agrees_iff hd hf hgap hs hn hk).mp (hagrees (16*n+k) (by omega))
    constructor
    · intro n hn
      constructor
      · exact (hblock n 3 hn (by decide)).1 rfl rfl
      · exact (hblock n 11 hn (by decide)).1 rfl rfl
    · intro n hn hx
      exact (hblock n 10 hn (by decide)).2.1 rfl rfl hx
    · intro n hn hx hy
      exact cornerSample_iff.mp ((hblock n 0 hn (by decide)).2.2 rfl rfl hx hy)
  · intro hharmless m hm
    have hn : m/16<d.mbW*d.mbH := by omega
    have hk : m%16<16 := Nat.mod_lt m (by decide)
    have hsplit : m=16*(m/16)+m%16 := by omega
    rw [hsplit,presented_agrees_iff hd hf hgap hs hn hk]
    refine ⟨?_,?_,?_⟩
    · intro _ hly
      have hbound := (blk_bounds hk).2
      have hrows : blkY (m%16)=1 ∨ blkY (m%16)=3 := by omega
      cases hrows with
      | inl hone =>
        rw [hone]
        exact (hharmless.right (m/16) hn).1
      | inr hthree =>
        rw [hthree]
        exact (hharmless.right (m/16) hn).2
    · intro _ _ hx
      exact hharmless.left (m/16) hn hx
    · intro _ _ hx hy
      exact cornerSample_iff.mpr (hharmless.corner (m/16) hn hx hy)

/-- A slope with mid grey in the doubtful places. -/
def spottedSample (x y : ℕ) : UInt8 :=
  if x%16 = 7 ∧ y%8=3 ∨ x%16=15 ∧ 12 ≤ y%16 then 128 else UInt8.ofNat (x+3*y)

/-- A slope of two rows of two macroblocks with mid grey in the doubtful places
is presented as the host reads it. -/
theorem neighbours_agree_spotted :
    PictureAgrees ⟨32,32⟩ spottedSample (steadyDriver 20) 80 resetCtx := by
  refine (neighbours_agree_iff ⟨rfl,rfl⟩ ⟨by decide,by decide,by decide⟩
    (fun _ _ => by simp [steadyDriver]) resetCtx_idle).mpr ⟨?_,?_,?_⟩
  · intro n _
    exact ⟨if_pos (by omega),if_pos (by omega)⟩
  · intro n _ hx t ht
    exact if_pos (by omega)
  · intro n _ hx hy
    have hlow : spottedSample (n%mbW ⟨32,32⟩*16-1) (n/mbW ⟨32,32⟩*16+15)=128 :=
      if_pos (by omega)
    have habove : spottedSample (n%mbW ⟨32,32⟩*16-1) (n/mbW ⟨32,32⟩*16-1)=128 :=
      if_pos (by omega)
    exact Or.inr (hlow.trans habove.symm)

end Misterplex.Intra
