import Misterplex.Intra.DecodingOrder

/-!
# Runs of the neighbour context store over a picture

A driver feeds the blocks of a picture in decoding order, with pauses of any
length before each block and at least as many clocks behind a macroblock as
its bottom row needs. What the store holds at each point of such a run is
stated for the start of a macroblock, for the blocks within it and for the
clocks in which the bottom row is sent to the line buffer.
-/

namespace Misterplex.Intra

open Trace PicSize NbCtx List

/-- The free inputs of a clock without a block. -/
structure Pause where
  block_idx : ℕ
  recon_pixels : ℕ → UInt8

/-- The clocks a driver puts between the blocks of a picture. -/
structure Driver where
  start : ℕ → Pause
  /-- The clocks before a block of a macroblock. -/
  waits : ℕ → ℕ → List Pause
  /-- The clocks behind the last block of a macroblock. -/
  gap : ℕ → List Pause

section

variable (d : PicSize) (sample : ℕ → ℕ → UInt8) (r : Driver)

/-- A clock of the `n`-th macroblock without a block, on byte-wide ports. -/
def mbIn (n : ℕ) (start : Bool) (p : Pause) : NbIn :=
  { mb_x := n%d.mbW%256
    mb_y := n/d.mbW%256
    mb_width := d.mbW%256
    mb_start := start
    block_idx := p.block_idx
    block_valid := false
    recon_pixels := p.recon_pixels }

/-- The clock in which the `k`-th block of the `n`-th macroblock is done. -/
def blockIn (n k : ℕ) : NbIn :=
  { mb_x := n%d.mbW%256
    mb_y := n/d.mbW%256
    mb_width := d.mbW%256
    mb_start := false
    block_idx := blkY k*4+blkX k
    block_valid := true
    recon_pixels := fun j =>
      sample (n%d.mbW*16+blkX k*4+j%4) (n/d.mbW*16+blkY k*4+j/4) }

/-- The clocks spent on one block: the waits, then the block. -/
def blockClocks (n k : ℕ) : List NbIn :=
  (r.waits n k).map (mbIn d n false) ++ [blockIn d sample n k]

/-- The clocks of a macroblock. -/
def mbClocks (n : ℕ) : List NbIn :=
  mbIn d n true (r.start n) ::
    ((List.range 16).flatMap (blockClocks d sample r n) ++ (r.gap n).map (mbIn d n false))

/-- The clocks before the `m`-th block of the picture. -/
def clocksBefore (m : ℕ) : List NbIn :=
  (List.range (m/16)).flatMap (mbClocks d sample r) ++
    (mbIn d (m/16) true (r.start (m/16)) ::
      ((List.range (m%16)).flatMap (blockClocks d sample r (m/16)) ++
        (r.waits (m/16) (m%16)).map (mbIn d (m/16) false)))

/-- The neighbours presented for the `m`-th block of the picture. -/
def presented (MB_WIDTH_MAX : ℕ) (s : NbCtx) (m : ℕ) : Neighbours :=
  (finalState (step MB_WIDTH_MAX) s (clocksBefore d sample r m)).outputs
    (blockIn d sample (m/16) (m%16))

/-- The picture fits the line buffer and the ports. -/
structure Fits (MB_WIDTH_MAX : ℕ) : Prop where
  /-- A row of macroblocks fits the line buffer. -/
  width : d.mbW≤MB_WIDTH_MAX
  /-- The line buffer fits the ports. -/
  max : MB_WIDTH_MAX≤255
  /-- The rows of macroblocks fit the ports. -/
  height : d.mbH≤256

/-- Rows of macroblocks stored for a column of the line buffer. -/
def rowsStored (n c : ℕ) : ℕ := if c/16 < n%d.mbW then n/d.mbW+1 else n/d.mbW

/-- The line buffer holds the bottom rows of the macroblocks above. -/
def StoredRow (n : ℕ) (buf : ℕ → UInt8) : Prop :=
  ∀ c<16*d.mbW, 0<rowsStored d n c → buf c=sample c (16*rowsStored d n c-1)

/-- The left column as it is kept: the rows of the last block are missing. -/
def LeftColumn (n : ℕ) (col : ℕ → UInt8) : Prop :=
  ∀ row<16, col row =
    if row < 12 then sample (n%d.mbW*16-1) (n/d.mbW*16+row) else 128

/-- The corner sample as it is latched: the one above only when the start
follows the sending of the bottom row at once. -/
def cornerSample (n : ℕ) : UInt8 :=
  sample (n%d.mbW*16-1)
    (if (r.gap (n-1)).length = 16 then n/d.mbW*16-1 else n/d.mbW*16+15)

/-- The store before the clock that starts the `n`-th macroblock. -/
structure Between (n : ℕ) (s : NbCtx) : Prop where
  /-- No bottom row is being sent. -/
  active : s.above_wr_active=false
  reject : s.geom_reject=false
  /-- The line buffer, once the write that is due is made. -/
  row : StoredRow d sample n s.settled
  left : 0<n%d.mbW → LeftColumn d sample n s.left_col
  corner : 0<n%d.mbW → 0<n/d.mbW →
    s.above_row_buf ((n%d.mbW-1)*16+15)=cornerSample d sample r n

/-- The store when `k` blocks of the `n`-th macroblock are done. -/
structure Within (n k : ℕ) (s : NbCtx) : Prop where
  /-- Nothing is being sent. -/
  idle : Idle s
  /-- The samples of the blocks that are done. -/
  mb_buf : ∀ row<16, ∀ col<16, s.mb_buf row col =
    if blkOrd (col/4) (row/4) < k then sample (n%d.mbW*16+col) (n/d.mbW*16+row)
    else 128
  row : StoredRow d sample n s.above_row_buf
  left : 0<n%d.mbW → LeftColumn d sample n s.left_col
  corner : 0<n%d.mbW → 0<n/d.mbW → s.tl_corner=cornerSample d sample r n

/-- The store `j` clocks behind the last block of the `n`-th macroblock. -/
structure Sent (n j : ℕ) (s : NbCtx) : Prop where
  /-- The bottom row is sent in sixteen clocks. -/
  active : s.above_wr_active=decide (j<16)
  /-- The next sample of the bottom row. -/
  cnt : j<16 → s.above_wr_cnt=j
  /-- A write is due one clock behind. -/
  en : s.above_wr_en=decide (1≤j ∧ j≤16)
  /-- The address of the write that is due. -/
  addr : 1≤j → j≤16 → s.above_wr_addr=n%d.mbW*16+(j-1)
  /-- The sample of the write that is due. -/
  data : 1≤j → j≤16 →
    s.above_wr_data=sample (n%d.mbW*16+(j-1)) (n/d.mbW*16+15)
  reject : s.geom_reject=false
  mb_buf : ∀ row<16, ∀ col<16,
    s.mb_buf row col=sample (n%d.mbW*16+col) (n/d.mbW*16+row)
  /-- The samples written so far. -/
  fresh : ∀ c, c/16=n%d.mbW → c%16+1<j →
    s.above_row_buf c=sample c (n/d.mbW*16+15)
  /-- The rest of the line buffer. -/
  stale : ∀ c<16*d.mbW, ¬ (c/16=n%d.mbW ∧ c%16+1<j) → 0<rowsStored d n c →
    s.above_row_buf c=sample c (16*rowsStored d n c-1)
  /-- The right column, as it is kept. -/
  left : ∀ row<16, s.left_col row =
    if row < 12 then sample (n%d.mbW*16+15) (n/d.mbW*16+row) else 128

end

variable {d : PicSize} {sample : ℕ → ℕ → UInt8} {r : Driver} {MB_WIDTH_MAX n k j : ℕ} {s : NbCtx}

theorem Fits.ports (h : Fits d MB_WIDTH_MAX) (hn : n<d.mbW*d.mbH) :
    n%d.mbW%256 = n%d.mbW ∧ n/d.mbW%256=n/d.mbW ∧ d.mbW%256=d.mbW ∧
      n%d.mbW<d.mbW ∧ n/d.mbW<d.mbH := by
  obtain ⟨hwidth,hmax,hheight⟩ := h
  have hpos : 0<d.mbW := Nat.pos_of_lt_mul_right hn
  have hmod := Nat.mod_lt n hpos
  have hdiv := Nat.div_lt_of_lt_mul hn
  exact ⟨Nat.mod_eq_of_lt (by omega),Nat.mod_eq_of_lt (by omega),Nat.mod_eq_of_lt (by omega),
    hmod,hdiv⟩

theorem Fits.geom_fire (h : Fits d MB_WIDTH_MAX) (hn : n<d.mbW*d.mbH) {i : NbIn}
    (hx : i.mb_x=n%d.mbW%256) (hw : i.mb_width=d.mbW%256) :
    i.geom_fire MB_WIDTH_MAX=false := by
  obtain ⟨hmx,-,hmw,hlt,-⟩ := h.ports hn
  have hwidth := h.width
  unfold NbIn.geom_fire
  rw [hx,hw,hmx,hmw,decide_eq_false (by omega),decide_eq_false (by omega)]
  rfl

theorem step_pause (hs : Idle s) (p : Pause) : step MB_WIDTH_MAX s (mbIn d n false p)=s := by
  obtain ⟨hactive,hen,hreject⟩ := hs
  cases s
  simp only at hactive hen hreject
  simp [step,nextMbBuf,lastBlock,mbIn,hactive,hen,hreject]

theorem finalState_pauses (hs : Idle s) (ps : List Pause) :
    finalState (step MB_WIDTH_MAX) s (ps.map (mbIn d n false))=s := by
  induction ps with
  | nil => rfl
  | cons p ps ih => rw [map_cons,finalState_cons,step_pause hs,ih]

/-- The start pulse of a macroblock enters its capture. -/
theorem Between.start (h : Fits d MB_WIDTH_MAX) (hn : n<d.mbW*d.mbH)
    (hs : Between d sample r n s) (p : Pause) :
    Within d sample r n 0 (step MB_WIDTH_MAX s (mbIn d n true p)) := by
  obtain ⟨hmx,hmy,-,-,-⟩ := h.ports hn
  have hfire := h.geom_fire hn (i := mbIn d n true p) rfl rfl
  constructor
  · constructor
    · simp [step,lastBlock,mbIn,hs.active]
    · exact hs.active
    · simp [step,hs.reject,hfire]
  · intro row _ col _
    rfl
  · exact hs.row
  · exact hs.left
  · intro hx hy
    rw [← hs.corner hx hy]
    simp [step,mbIn,hmx,hmy,hx,hy]

theorem blockIn_place (hk : k<16) :
    (blockIn d sample n k).blk_x=blkX k*4 ∧ (blockIn d sample n k).blk_y=blkY k*4 := by
  obtain ⟨hx,hy⟩ := blk_bounds hk
  unfold blockIn NbIn.blk_x NbIn.blk_y
  constructor
  · dsimp only
    omega
  · dsimp only
    omega

theorem Within.mb_buf_block (hs : Within d sample r n k s) (hk : k<16) :
    ∀ row<16, ∀ col<16, (step MB_WIDTH_MAX s (blockIn d sample n k)).mb_buf row col =
      if blkOrd (col/4) (row/4) < k+1 then
        sample (n%d.mbW*16+col) (n/d.mbW*16+row)
      else 128 := by
  intro row hrow col hcol
  obtain ⟨hx,hy⟩ := @blockIn_place d sample n k hk
  have hord : blkOrd (col/4) (row/4)=k ↔ _ := blkOrd_eq_iff (by omega)
  have hnext : (step MB_WIDTH_MAX s (blockIn d sample n k)).mb_buf row col =
      if (blkY k*4≤row ∧ row<blkY k*4+4) ∧ blkX k*4≤col ∧ col < blkX k*4+4 then
        (blockIn d sample n k).recon_pixels ((row-blkY k*4)*4+(col-blkX k*4))
      else s.mb_buf row col := by
    rw [← hx,← hy]
    rfl
  rw [hnext]
  by_cases hin : (blkY k*4≤row ∧ row<blkY k*4+4) ∧
      blkX k*4≤col ∧ col<blkX k*4+4
  · have hplace : blkOrd (col/4) (row/4)=k := hord.mpr (by omega)
    have hcol' : n%d.mbW*16+blkX k*4 +
        ((row-blkY k*4)*4+(col-blkX k*4))%4=n%d.mbW*16+col := by omega
    have hrow' : n/d.mbW*16+blkY k*4 +
        ((row-blkY k*4)*4+(col-blkX k*4))/4=n/d.mbW*16+row := by omega
    rw [if_pos hin,if_pos (by omega)]
    unfold blockIn
    dsimp only
    rw [hcol',hrow']
  · rw [if_neg hin,hs.mb_buf row hrow col hcol]
    by_cases hlt : blkOrd (col/4) (row/4)<k
    · rw [if_pos hlt,if_pos (by omega)]
    · rw [if_neg hlt,if_neg (by omega)]

theorem lastBlock_blockIn (hk : k<16) :
    lastBlock (blockIn d sample n k)=decide (k=15) := by
  have hidx : blkY k*4+blkX k=15 ↔ k=15 := by
    unfold blkX blkY
    omega
  by_cases hlast : k=15
  · rw [decide_eq_true hlast]
    exact beq_iff_eq.mpr (hidx.mpr hlast)
  · rw [decide_eq_false hlast]
    exact beq_eq_false_iff_ne.mpr (mt hidx.mp hlast)

theorem Within.block (h : Fits d MB_WIDTH_MAX) (hn : n<d.mbW*d.mbH) (hk : k<15)
    (hs : Within d sample r n k s) :
    Within d sample r n (k+1) (step MB_WIDTH_MAX s (blockIn d sample n k)) := by
  have hfire := h.geom_fire hn (i := blockIn d sample n k) rfl rfl
  have hlast : lastBlock (blockIn d sample n k)=false := by
    rw [lastBlock_blockIn (by omega)]
    exact decide_eq_false (by omega)
  obtain ⟨hactive,hen,hreject⟩ := hs.idle
  constructor
  · constructor
    · simp [step,hactive,hlast]
    · exact hactive
    · simp [step,hreject,hfire]
  · exact hs.mb_buf_block (by omega)
  · have hrow : (step MB_WIDTH_MAX s (blockIn d sample n k)).above_row_buf=s.above_row_buf := by
      simp [step,hen]
    rw [hrow]
    exact hs.row
  · have hcol : (step MB_WIDTH_MAX s (blockIn d sample n k)).left_col=s.left_col := by
      simp [step,hlast]
    rw [hcol]
    exact hs.left
  · exact hs.corner

/-- The last block: its macroblock is complete, the right column is kept as it
was before it, and the bottom row is about to be sent. -/
theorem Within.last (h : Fits d MB_WIDTH_MAX) (hn : n<d.mbW*d.mbH)
    (hs : Within d sample r n 15 s) :
    Sent d sample n 0 (step MB_WIDTH_MAX s (blockIn d sample n 15)) := by
  have hfire := h.geom_fire hn (i := blockIn d sample n 15) rfl rfl
  have hlast : lastBlock (blockIn d sample n 15)=true := lastBlock_blockIn (by decide)
  obtain ⟨hactive,hen,hreject⟩ := hs.idle
  have hok : s.nb_geom_ok MB_WIDTH_MAX (blockIn d sample n 15)=true := by
    unfold nb_geom_ok
    rw [hfire,hreject]
    rfl
  have hrow : (step MB_WIDTH_MAX s (blockIn d sample n 15)).above_row_buf=s.above_row_buf := by
    simp [step,hen]
  constructor
  · simp [step,hactive,hlast,hok]
  · simp [step,hactive,hlast,hok]
  · simp [step,hactive]
  · omega
  · omega
  · simp [step,hreject,hfire]
  · intro row hrow' col hcol'
    have hlt : blkOrd (col/4) (row/4)<16 := blkOrd_lt (by omega) (by omega)
    rw [hs.mb_buf_block (by decide) row hrow' col hcol',if_pos (by omega)]
  · omega
  · intro c hc _
    rw [hrow]
    exact hs.row c hc
  · intro row hrow'
    have hcol : (step MB_WIDTH_MAX s (blockIn d sample n 15)).left_col row=s.mb_buf row 15 := by
      simp [step,hlast]
    have hord : blkOrd (15/4) (row/4)<15 ↔ row<12 := by
      unfold blkOrd
      omega
    rw [hcol,hs.mb_buf row hrow' 15 (by decide)]
    by_cases hlt : row<12
    · rw [if_pos (hord.mpr hlt),if_pos hlt]
    · rw [if_neg (mt hord.mp hlt),if_neg hlt]

theorem Sent.pause (h : Fits d MB_WIDTH_MAX) (hn : n<d.mbW*d.mbH)
    (hs : Sent d sample n j s) (p : Pause) :
    Sent d sample n (j+1) (step MB_WIDTH_MAX s (mbIn d n false p)) := by
  obtain ⟨hmx,-,-,hlt,-⟩ := h.ports hn
  have hfire := h.geom_fire hn (i := mbIn d n false p) rfl rfl
  have hlast : lastBlock (mbIn d n false p)=false := rfl
  have hwritten : (step MB_WIDTH_MAX s (mbIn d n false p)).above_row_buf =
      if 1 ≤ j ∧ j ≤ 16 then
        Function.update s.above_row_buf (n%d.mbW*16+(j-1))
          (sample (n%d.mbW*16+(j-1)) (n/d.mbW*16+15))
      else s.above_row_buf := by
    by_cases hdue : 1≤j ∧ j≤16
    · rw [if_pos hdue,← hs.data hdue.1 hdue.2,← hs.addr hdue.1 hdue.2]
      simp [step,hs.en,hdue]
    · rw [if_neg hdue]
      simp only [step,hs.en,decide_eq_false hdue,Bool.false_eq_true,if_false]
  constructor
  · by_cases hactive : j<16
    · have hnext : (j != 15)=decide (j+1<16) := by
        rw [Bool.eq_iff_iff,bne_iff_ne,decide_eq_true_eq]
        omega
      simp [step,hs.active,hactive,hs.cnt hactive,hnext]
    · simp [step,hs.active,hactive,hlast]
      omega
  · intro hnext
    have hactive : j<16 := by omega
    have hmod : (j+1)%32=j+1 := Nat.mod_eq_of_lt (by omega)
    simp [step,hs.active,hactive,hs.cnt hactive,hmod]
  · have hdue : decide (j<16)=decide (1≤j+1 ∧ j+1≤16) := by
      apply decide_eq_decide.mpr
      omega
    rw [← hdue]
    exact hs.active
  · intro _ hle
    have hactive : j<16 := by omega
    have hdepth : n%d.mbW*16+j<2^Nat.clog 2 (MB_WIDTH_MAX*16) := by
      have hwidth := h.width
      calc n%d.mbW*16+j<MB_WIDTH_MAX*16 := by omega
        _ ≤ 2^Nat.clog 2 (MB_WIDTH_MAX*16) := Nat.le_pow_clog (by decide) _
    simp [step,hs.active,hactive,hs.cnt hactive,mbIn,hmx,Nat.mod_eq_of_lt hdepth]
  · intro _ hle
    have hactive : j<16 := by omega
    have hsample := hs.mb_buf 15 (by decide) j hactive
    simp [step,hs.active,hactive,hs.cnt hactive,Nat.mod_eq_of_lt hactive,hsample]
  · simp [step,hs.reject,hfire]
  · exact hs.mb_buf
  · intro c hc hlow
    rw [hwritten]
    by_cases hat : c%16+1=j
    · have hdue : 1≤j ∧ j≤16 := by omega
      have hplace : n%d.mbW*16+(j-1)=c := by omega
      rw [if_pos hdue,hplace,Function.update_self]
    · have hold := hs.fresh c hc (by omega)
      split
      · rw [Function.update_of_ne (by omega)]
        exact hold
      · exact hold
  · intro c hc hnot hstored
    have hold := hs.stale c hc (by omega) hstored
    rw [hwritten]
    split
    · rw [Function.update_of_ne (by omega)]
      exact hold
    · exact hold
  · exact hs.left

theorem Sent.pauses (h : Fits d MB_WIDTH_MAX) (hn : n<d.mbW*d.mbH)
    (hs : Sent d sample n j s) (ps : List Pause) :
    Sent d sample n (j+ps.length)
      (finalState (step MB_WIDTH_MAX) s (ps.map (mbIn d n false))) := by
  induction ps generalizing j s with
  | nil => exact hs
  | cons p ps ih =>
    rw [map_cons,finalState_cons,length_cons,Nat.add_comm ps.length 1,← Nat.add_assoc]
    exact ih (hs.pause h hn p)

theorem next_mb (hpos : 0<d.mbW) (n : ℕ) :
    (n%d.mbW+1<d.mbW ∧ (n+1)%d.mbW=n%d.mbW+1 ∧ (n+1)/d.mbW=n/d.mbW) ∨
      (n%d.mbW+1=d.mbW ∧ (n+1)%d.mbW=0 ∧ (n+1)/d.mbW=n/d.mbW+1) := by
  have hmod := Nat.mod_lt n hpos
  have hn := Nat.div_add_mod n d.mbW
  rw [Nat.mul_comm] at hn
  by_cases hend : n%d.mbW+1<d.mbW
  · have hplace := (mb_eq_iff (y := n/d.mbW) (n := n+1) hend).mp (by omega)
    exact Or.inl ⟨hend,hplace.1.symm,hplace.2.symm⟩
  · have hmul : (n/d.mbW+1)*d.mbW=n/d.mbW*d.mbW+d.mbW := by ring
    have hplace := (mb_eq_iff (y := n/d.mbW+1) (n := n+1) hpos).mp (by omega)
    exact Or.inr ⟨by omega,hplace.1.symm,hplace.2.symm⟩

theorem rowsStored_succ {c : ℕ} (hc : c<16*d.mbW) :
    rowsStored d (n+1) c = if c/16 = n%d.mbW then n/d.mbW+1 else rowsStored d n c := by
  unfold rowsStored
  rcases next_mb (d := d) (by omega) n with ⟨hlt,hmod,hdiv⟩ | ⟨heq,hmod,hdiv⟩
  · rw [hmod,hdiv]
    by_cases hcol : c/16=n%d.mbW
    · rw [if_pos (by omega),if_pos hcol]
    · rw [if_neg hcol]
      by_cases hbefore : c/16<n%d.mbW
      · rw [if_pos (by omega),if_pos hbefore]
      · rw [if_neg (by omega),if_neg hbefore]
  · rw [hmod,hdiv,if_neg (Nat.not_lt_zero _)]
    by_cases hcol : c/16 = n%d.mbW
    · rw [if_pos hcol]
    · rw [if_neg hcol,if_pos (by omega)]

theorem Sent.settled_apply (hs : Sent d sample n j s) (hj : 16≤j) (c : ℕ) :
    s.settled c = if c/16 = n%d.mbW then sample c (n/d.mbW*16+15)
      else s.above_row_buf c := by
  have hen := hs.en
  unfold settled
  by_cases hdue : j=16
  · rw [decide_eq_true (by omega)] at hen
    rw [hen,if_pos rfl,hs.addr (by omega) (by omega),hs.data (by omega) (by omega)]
    by_cases hat : c=n%d.mbW*16+(j-1)
    · rw [← hat,Function.update_self,if_pos (by omega)]
    · rw [Function.update_of_ne hat]
      by_cases hcol : c/16=n%d.mbW
      · rw [if_pos hcol]
        exact hs.fresh c hcol (by omega)
      · rw [if_neg hcol]
  · rw [decide_eq_false (by omega)] at hen
    rw [hen,if_neg Bool.false_ne_true]
    by_cases hcol : c/16=n%d.mbW
    · rw [if_pos hcol]
      exact hs.fresh c hcol (by omega)
    · rw [if_neg hcol]

theorem Sent.between (hn : n<d.mbW*d.mbH) (hgap : 16≤(r.gap n).length)
    (hs : Sent d sample n (r.gap n).length s) : Between d sample r (n+1) s := by
  have hpos : 0<d.mbW := Nat.pos_of_lt_mul_right hn
  have hnext := next_mb hpos n
  constructor
  · rw [hs.active]
    exact decide_eq_false (by omega)
  · exact hs.reject
  · intro c hc hstored
    rw [rowsStored_succ hc] at hstored ⊢
    rw [hs.settled_apply hgap]
    by_cases hcol : c/16=n%d.mbW
    · have hline : 16*(n/d.mbW+1)-1=n/d.mbW*16+15 := by omega
      rw [if_pos hcol,if_pos hcol,hline]
    · rw [if_neg hcol] at hstored
      rw [if_neg hcol,if_neg hcol]
      exact hs.stale c hc (fun h => hcol h.1) hstored
  · intro hx
    obtain ⟨-,hcol,hrow⟩ : n%d.mbW+1<d.mbW ∧ (n+1)%d.mbW=n%d.mbW+1 ∧
        (n+1)/d.mbW=n/d.mbW := by omega
    have hplace : (n%d.mbW+1)*16-1=n%d.mbW*16+15 := by omega
    unfold LeftColumn
    rw [hcol,hrow,hplace]
    exact hs.left
  · intro hx hy
    obtain ⟨-,hcol,hrow⟩ : n%d.mbW+1<d.mbW ∧ (n+1)%d.mbW=n%d.mbW+1 ∧
        (n+1)/d.mbW=n/d.mbW := by omega
    have hplace : (n%d.mbW+1)*16-1=n%d.mbW*16+15 := by omega
    have hlast : (n%d.mbW*16+15)/16=n%d.mbW := by omega
    unfold cornerSample
    rw [hcol,hrow,hplace,Nat.add_sub_cancel,Nat.add_sub_cancel]
    by_cases hdue : (r.gap n).length=16
    · have hrows : rowsStored d n (n%d.mbW*16+15)=n/d.mbW := if_neg (by omega)
      have hline : 16*(n/d.mbW)-1=n/d.mbW*16-1 := by omega
      have hstale := hs.stale (n%d.mbW*16+15) (by omega) (by omega) (by omega)
      rw [hrows,hline] at hstale
      rw [if_pos hdue]
      exact hstale
    · rw [if_neg hdue]
      exact hs.fresh _ hlast (by omega)

theorem between_zero (hs : Idle s) : Between d sample r 0 s := by
  constructor
  · exact hs.active
  · exact hs.reject
  · intro c hc hstored
    have hrows : rowsStored d 0 c=0 := by
      unfold rowsStored
      rw [Nat.zero_mod,Nat.zero_div,if_neg (Nat.not_lt_zero _)]
    omega
  · intro hx
    rw [Nat.zero_mod] at hx
    omega
  · intro hx
    rw [Nat.zero_mod] at hx
    omega

theorem Within.blocks (h : Fits d MB_WIDTH_MAX) (hn : n<d.mbW*d.mbH) (hk : k≤15)
    (hs : Within d sample r n 0 s) :
    Within d sample r n k (finalState (step MB_WIDTH_MAX) s
      ((List.range k).flatMap (blockClocks d sample r n))) := by
  induction k with
  | zero => exact hs
  | succ k ih =>
    have hbefore := ih (by omega)
    rw [range_succ,flatMap_append,flatMap_singleton,finalState_append,
      blockClocks,finalState_append,finalState_pauses hbefore.idle]
    exact hbefore.block h hn (by omega)

theorem Between.macroblock (h : Fits d MB_WIDTH_MAX) (hn : n<d.mbW*d.mbH)
    (hgap : 16≤(r.gap n).length) (hs : Between d sample r n s) :
    Between d sample r (n+1) (finalState (step MB_WIDTH_MAX) s (mbClocks d sample r n)) := by
  have hblocks := (hs.start h hn (r.start n)).blocks h hn (le_refl 15)
  have hlast := (hblocks.last h hn).pauses h hn (r.gap n)
  rw [Nat.zero_add] at hlast
  unfold mbClocks
  rw [finalState_cons,finalState_append,range_succ,flatMap_append,
    flatMap_singleton,finalState_append,blockClocks,finalState_append,
    finalState_pauses hblocks.idle]
  exact hlast.between hn hgap

theorem between_macroblocks (h : Fits d MB_WIDTH_MAX)
    (hgap : ∀ n, n+1<d.mbW*d.mbH → 16≤(r.gap n).length) (hs : Idle s)
    (hn : n<d.mbW*d.mbH) :
    Between d sample r n (finalState (step MB_WIDTH_MAX) s
      ((List.range n).flatMap (mbClocks d sample r))) := by
  induction n with
  | zero => exact between_zero hs
  | succ n ih =>
    rw [range_succ,flatMap_append,flatMap_singleton,finalState_append]
    exact (ih (by omega)).macroblock h (by omega) (hgap n hn)

theorem within_before (h : Fits d MB_WIDTH_MAX)
    (hgap : ∀ n, n+1<d.mbW*d.mbH → 16≤(r.gap n).length) (hs : Idle s) {m : ℕ}
    (hm : m<16*(d.mbW*d.mbH)) :
    Within d sample r (m/16) (m%16)
      (finalState (step MB_WIDTH_MAX) s (clocksBefore d sample r m)) := by
  have hn : m/16<d.mbW*d.mbH := by omega
  have hbetween : Between d sample r (m/16) _ := between_macroblocks h hgap hs hn
  have hblocks := (hbetween.start h hn (r.start (m/16))).blocks h hn (k := m%16) (by omega)
  unfold clocksBefore
  rw [finalState_append,finalState_cons,finalState_append,finalState_pauses hblocks.idle]
  exact hblocks

end Misterplex.Intra
