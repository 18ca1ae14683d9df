import Misterplex.Sdram.Transfer

/-!
# The last word of a transfer

From the launch of a transfer until its frame is shown no word is put on the port
for the last pixel of a bank. Every transfer therefore loses its last pixel, and
the frame is shown with the word that stood in its place.
-/

namespace Misterplex.FrameSdram

open AsyncFifo (Synced held)
open Trace List

variable {g : Geometry} {s : System g} {m : Moment} {n : ℕ}

/-- The frame of a bank of the DDR memory. -/
def Geometry.frameOf (g : Geometry) (ddr : BitVec 29 → BitVec 64) (bank : Bool) (i : ℕ) : BitVec 16 :=
  (ddr (g.bankBase bank+BitVec.ofNat 29 (i/4))).extractLsb' (16*(i%4)) 16

/-- The writes of a frame into a bank, pixel after pixel. -/
def Geometry.rasterOf (g : Geometry) (bank : Bool) (frame : ℕ → BitVec 16) :
    List (ℕ × BitVec 16) :=
  (List.range g.pixels).map fun i => (g.wordOf bank (i/g.frameW) (i%g.frameW),frame i)

/-- The word of the last pixel in a bank. -/
def Geometry.lastWord (g : Geometry) (bank : Bool) : ℕ := g.wordOf bank (g.frameH-1) (g.frameW-1)

namespace System

/-- A quadword that comes in for a transfer is the next one of the DDR memory. -/
def Answers (ddr : BitVec 29 → BitVec 64) (s : System g) (m : Moment) : Prop :=
  ∀ p∈m.clk, p.doutReady=true → s.reader.active=true →
    p.dout=ddr (s.reader.rdAddr-BitVec.ofNat 29 s.reader.inflight)

instance (ddr : BitVec 29 → BitVec 64) (s : System g) (m : Moment) : Decidable (s.Answers ddr m) :=
  inferInstanceAs (Decidable (∀ p∈m.clk, p.doutReady=true → s.reader.active=true →
    p.dout=ddr (s.reader.rdAddr-BitVec.ofNat 29 s.reader.inflight)))

/-- The write to the memory at a moment. -/
def store (s : System g) (m : Moment) : List (ℕ × BitVec 16) :=
  if m.sdram.isSome && s.writer.sdramWr then [(s.writer.sdramAddr,s.writer.sdramDin)] else []

/-- A run writes just the frame into the displayed bank, every pixel once and in order, and
that bank then holds the frame. -/
structure Carries (s : System g) (ms : List Moment) (frame : ℕ → BitVec 16) : Prop where
  /-- No pixel is dropped, doubled or moved. -/
  writes : emitted step store s ms=g.rasterOf (finalState step s ms).video.dispBank frame
  /-- The displayed bank holds the frame. -/
  shown : (finalState step s ms).Shows frame

/-- The frame is not shown yet, and the swap that is asked for is taken. -/
def Proceeds (s : System g) (m : Moment) : Prop :=
  s.flips m=false ∧ (s.reader.swapReq=true → m.clk.isSome=true → s.acceptCmd=true)

instance (s : System g) (m : Moment) : Decidable (s.Proceeds m) :=
  inferInstanceAs (Decidable (s.flips m=false ∧
    (s.reader.swapReq=true → m.clk.isSome=true → s.acceptCmd=true)))

/-- A transfer since word number `n`. -/
inductive InTransfer (s : System g) (n : ℕ) : Prop
  /-- Its reset has not been taken. -/
  | begun {need : Bool} {w1 w2 r1 r2 : ℕ} (hsync : Synced s.cmds w1 w2 r1 r2)
      (hseen : (if need then r1 else r2)=n) (hfresh : s.Fresh n) (hbegun : s.Begun n need)
  /-- Its reset was taken first. -/
  | going {w1 w2 r1 r2 : ℕ} (hsync : Synced s.cmds w1 w2 r1 r2)
      (hfirst : (s.since n).head?=some cmdReset) (hstage : s.Stage g n)
      (hside : s.Fresh n ∨ s.Behind n)

theorem le_of_head {word : BitVec 18} (h : (s.since n).head?=some word) :
    n ≤ s.cmds.accepted.length := by
  rcases Nat.lt_or_ge s.cmds.accepted.length n with hless | hle
  · unfold since at h
    rw [drop_of_length_le (Nat.le_of_lt hless)] at h
    exact absurd h (by simp)
  · exact hle

theorem Begun.accepts (hg : g.Sized) {w1 w2 r1 r2 : ℕ} (hsync : Synced s.cmds w1 w2 r1 r2)
    (hseen : r2=n) {need : Bool} (h : s.Begun n need) : s.acceptCmd=true := by
  have halmost := not_almostFull hsync hg.deep (hseen.trans h.accepted.symm)
  unfold System.acceptCmd Video.acceptCmd
  rw [halmost,h.video.1,h.video.2]
  rfl

/-- The transfer goes on. -/
theorem InTransfer.step (hg : g.Sized) (h : s.InTransfer n) (hproceeds : s.Proceeds m) :
    (s.step m).InTransfer n := by
  cases h with
  | @begun need w1 w2 r1 r2 hsync hseen hfresh hbegun =>
    obtain ⟨htoggle,hfreshNext⟩ := hfresh.step_begun hg hsync hbegun.accepted m
    obtain ⟨w1',w2',hsyncNext⟩ := synced_step hg hsync m
    cases hclk : m.clk with
    | none =>
      have hreader : (s.step m).reader=s.reader := by simp [System.step,hclk]
      have hvideo := video_calm hbegun.video hbegun.toggles hbegun.nothing.2.1 htoggle
      rw [hclk] at hsyncNext
      refine InTransfer.begun hsyncNext hseen hfreshNext
        ⟨by rw [hreader]; exact hbegun.running,by rw [hreader]; exact hbegun.reset,
          by rw [hreader]; exact hbegun.nothing,hvideo.1,hvideo.2,?_⟩
      rw [s.step_accepted m,s.pushed_none hclk,append_nil]
      exact hbegun.accepted
    | some p =>
      have hrises : m.clk.isSome=true := by rw [hclk]; rfl
      rw [hrises,if_pos rfl,if_pos rfl] at hsyncNext
      cases need with
      | true =>
        exact InTransfer.begun hsyncNext hseen hfreshNext (hbegun.strobe_step hrises htoggle)
      | false =>
        have haccept := hbegun.accepts hg hsync hseen
        have htaken := hbegun.taken_step hg hclk haccept
        exact InTransfer.going hsyncNext (by rw [htaken.1]; rfl) (Stage.sending htaken.2)
          (Or.inl hfreshNext)
  | @going w1 w2 r1 r2 hsync hfirst hstage hside =>
    have hn := le_of_head hfirst
    obtain ⟨w1',w2',hsyncNext⟩ := synced_step hg hsync m
    have hfirstNext : ((s.step m).since n).head?=some cmdReset := by
      rw [since_step hn m,head?_append,hfirst]
      rfl
    have hstageNext : (s.step m).Stage g n := by
      cases hstage with
      | sending h => exact h.step hn m
      | asking h => exact h.step hn hproceeds.1 (hproceeds.2 h.strobes.2)
      | waiting h => exact Stage.waiting (h.step hn hproceeds.1)
    have hsideNext : (s.step m).Fresh n ∨ (s.step m).Behind n := by
      rcases hside with hfresh | hbehind
      · have hcommand : ∀ word∈(s.cmds.accepted.drop n).head?, word=cmdReset := by
          intro word hword
          have hsame : some cmdReset=some word := hfirst.symm.trans hword
          exact (Option.some.inj hsame).symm
        obtain ⟨_,hnext | ⟨hnext,_⟩⟩ := hfresh.step hg hsync hcommand m
        · exact Or.inl hnext
        · exact Or.inr hnext
      · exact Or.inr (hbehind.step hg m)
    exact InTransfer.going hsyncNext hfirstNext hstageNext hsideNext

theorem Idle.launched (hg : g.Sized) (h : s.Idle) {bank : Bool} (hlaunch : s.launches m=some bank) :
    (s.step m).InTransfer s.cmds.accepted.length := by
  obtain ⟨hactive,hbusy,hreset,hswap⟩ := h.reader
  obtain ⟨hwriting,hstate,hpop,hwr⟩ := h.writer
  obtain ⟨hdelivered,w1,w2,r1,r2,hsync⟩ := h.cmds
  cases hclk : m.clk with
  | none => rw [launches,hclk] at hlaunch; exact absurd hlaunch (by simp)
  | some p =>
    rw [launches,hclk,Option.bind_some] at hlaunch
    have hfresh : s.Fresh s.cmds.accepted.length :=
      ⟨by rw [hdelivered],hwriting,hstate,hpop,hwr⟩
    obtain ⟨htoggle,hfreshNext⟩ := hfresh.step_begun hg hsync rfl m
    obtain ⟨w1',w2',hsyncNext⟩ := synced_step hg hsync m
    have hrises : m.clk.isSome=true := by rw [hclk]; rfl
    rw [hrises,if_pos rfl] at hsyncNext
    have hfetched : AsyncFifo.fetched s.cmds=s.cmds.accepted.length := by
      have horder := hsync.order
      have hlength := congrArg length hdelivered
      unfold AsyncFifo.fetched at horder ⊢
      omega
    have hvideo := video_calm h.video h.toggles hswap htoggle
    have hreader : (s.step m).reader=s.reader.step g (s.readerPort p) := by
      simp [System.step,hclk]
    have hpushed : s.pushed m=[] := by
      unfold pushed
      rw [hclk,Option.elim_some]
      simp [Video.cmdPush,Video.pushReset,Video.pushSwap,Video.pushPixel,videoPort,fsWrEn,
        hreset,hswap,hbusy]
    refine @InTransfer.begun g (s.step m) _ true _ _ _ _ hsyncNext hfetched hfreshNext
      ⟨?_,?_,?_,hvideo.1,hvideo.2,?_⟩
    · rw [hreader]
      simp [Reader.step,hlaunch]
    · rw [hreader]
      simp [Reader.step,hlaunch,hactive]
    · rw [hreader]
      simp [Reader.step,hlaunch,hactive,Reader.endsFrame,Reader.endsBeat,Reader.strobes]
    · rw [s.step_accepted m,hpushed,append_nil]

end System

/-- A transfer under way has a pixel left. -/
theorem System.Stage.count (h : s.Stage g n) :
    pixelCount (s.since n)+1≤g.pixels := by
  have hquads : 4*g.qwords≤g.pixels := Nat.mul_div_le g.pixels 4
  cases h with
  | sending h =>
    have hcount := h.count
    have hnext := h.next
    have hleft := h.left
    have hbeat : (if s.reader.haveBeat = true then s.reader.pixI else 0)≤3 := by
      split
      · exact hnext
      · exact Nat.zero_le 3
    unfold Reader.sent at hcount
    omega
  | asking h => exact h.count.trans hquads
  | waiting h => exact h.count.trans hquads

open Raster

theorem Geometry.wordOf_inj (hg : g.Sized) {bank bank' : Bool} {x x' y y' : ℕ}
    (hx : x<g.frameW) (hy : y<g.frameH) (hx' : x'<g.frameW) (hy' : y'<g.frameH)
    (h : g.wordOf bank y x=g.wordOf bank' y' x') : x=x' ∧ y=y' := by
  have hstride := hg.stride
  have hless := place_lt (Nat.lt_of_lt_of_le hx hstride) hy
  have hless' := place_lt (Nat.lt_of_lt_of_le hx' hstride) hy'
  have hplace : place g.frameStride x y=place g.frameStride x' y' := by
    unfold wordOf storeBase at h
    unfold place at hless hless' ⊢
    cases bank with
    | false =>
      cases bank' with
      | false => omega
      | true => simp at h; omega
    | true =>
      cases bank' with
      | false => simp at h; omega
      | true => omega
  exact place_inj (Nat.lt_of_lt_of_le hx hstride) (Nat.lt_of_lt_of_le hx' hstride) hplace

theorem Geometry.Sized.last (hg : g.Sized) :
    Raster.place g.frameW (g.frameW-1) (g.frameH-1)+1=g.pixels := by
  obtain ⟨hw,hh⟩ := hg.positive
  obtain ⟨rows,hrows⟩ := Nat.exists_eq_add_of_lt hh
  rw [Nat.zero_add] at hrows
  unfold place Geometry.pixels
  rw [hrows,Nat.add_sub_cancel,Nat.mul_comm g.frameW,Nat.add_mul]
  omega

theorem System.InTransfer.sdramAddr_ne (hg : g.Sized) (h : s.InTransfer n)
    (hwr : s.writer.sdramWr=true) (bank : Bool) : s.writer.sdramAddr≠g.lastWord bank := by
  cases h with
  | begun _ _ hfresh _ =>
    rw [hfresh.sdramWr] at hwr
    exact absurd hwr (by decide)
  | going hsync _ hstage hside =>
    rcases hside with hfresh | hbehind
    · rw [hfresh.sdramWr] at hwr
      exact absurd hwr (by decide)
    · obtain ⟨hwait,haddr⟩ := hbehind.placed.port hwr
      have hreached : s.writer.reached g=s.writer.place g+1 := by
        unfold Writer.reached Writer.writing
        rw [hwait]
        rfl
      have hcount : s.writer.reached g≤pixelCount (s.cmds.delivered.drop n) := by
        rcases hbehind.count with hle | ⟨hpopping,_⟩
        · exact hle
        · have hissue := hpopping.2.1
          rw [hwait] at hissue
          exact absurd hissue (by decide)
      have hall : pixelCount (s.cmds.delivered.drop n)≤pixelCount (s.since n) := by
        unfold System.since
        rw [← hsync.inOrder,append_assoc,System.pixelCount_drop hbehind.early]
        exact Nat.le_add_right _ _
      have hfew := hstage.count
      obtain ⟨hw,hh⟩ := hg.positive
      intro hsame
      rw [haddr,hbehind.placed.addr] at hsame
      obtain ⟨hx,hy⟩ := Geometry.wordOf_inj hg hbehind.placed.column hbehind.placed.row
        (Nat.sub_lt hw Nat.one_pos) (Nat.sub_lt hh Nat.one_pos) hsame
      have hplace : s.writer.place g+1=g.pixels := by
        rw [← hg.last,← hx,← hy]
        rfl
      omega

namespace System

/-- No write of the transfer touches the last word. -/
theorem InTransfer.store_step (hg : g.Sized) (h : s.InTransfer n) (m : Moment) (bank : Bool) :
    (∀ write∈s.store m, write.1≠g.lastWord bank) ∧
      (s.step m).mem (g.lastWord bank)=s.mem (g.lastWord bank) := by
  unfold store System.step
  cases hwr : m.sdram.isSome && s.writer.sdramWr with
  | false =>
    constructor
    · intro write hwrite
      exact absurd hwrite (by simp)
    · rfl
  | true =>
    rw [Bool.and_eq_true] at hwr
    have hne := h.sdramAddr_ne hg hwr.2 bank
    constructor
    · intro write hwrite
      rw [if_pos rfl,mem_singleton] at hwrite
      rw [hwrite]
      exact hne
    · exact Function.update_of_ne hne.symm _ _

/-- Over a run of the transfer the last word stays. -/
theorem InTransfer.run (hg : g.Sized) {ms : List Moment} (h : s.InTransfer n)
    (hrun : Along System.step Proceeds s ms) (bank : Bool) :
    (finalState System.step s ms).InTransfer n ∧
      (∀ write∈emitted System.step store s ms, write.1≠g.lastWord bank) ∧
      (finalState System.step s ms).mem (g.lastWord bank)=s.mem (g.lastWord bank) := by
  induction ms generalizing s with
  | nil =>
    refine ⟨h,fun write hwrite => ?_,rfl⟩
    exact absurd hwrite not_mem_nil
  | cons m ms ih =>
    obtain ⟨hin,hwrites,hmem⟩ := ih (h.step hg hrun.1) hrun.2
    obtain ⟨hnow,hsame⟩ := h.store_step hg m bank
    refine ⟨hin,fun write hwrite => ?_,hmem.trans hsame⟩
    rw [emitted_cons,mem_append] at hwrite
    rcases hwrite with hwrite | hwrite
    · exact hnow write hwrite
    · exact hwrites write hwrite

/-- An idle store writes nothing. -/
theorem Idle.store_step (h : s.Idle) (m : Moment) : s.store m=[] ∧ (s.step m).mem=s.mem := by
  have hwr := h.writer.2.2.2
  unfold store System.step
  rw [hwr,Bool.and_false]
  exact ⟨rfl,rfl⟩

end System

theorem Geometry.Sized.lastWord_mem (hg : g.Sized) (bank : Bool) (frame : ℕ → BitVec 16) :
    ∃ write∈g.rasterOf bank frame, write.1=g.lastWord bank := by
  obtain ⟨hw,hh⟩ := hg.positive
  have hlast := hg.last
  have hcolumn : g.frameW-1<g.frameW := Nat.sub_lt hw Nat.one_pos
  refine ⟨_,mem_map_of_mem (mem_range.mpr (Nat.lt_of_succ_le (Nat.le_of_eq hlast))),?_⟩
  rw [place_div hcolumn,place_mod hcolumn]
  rfl

/-- However the clocks and the memories run, a transfer that an idle system launches never
writes the last pixel of its frame. Up to the moment at which the frame is shown, and in it,
the last word of each bank is the one that stood there at the launch, and the writes are not
those of the frame. -/
theorem last_pixel_dropped (hg : g.Sized) (hidle : s.Idle) {first last : Moment} {bank : Bool}
    (hlaunch : s.launches first=some bank) {ms : List Moment}
    (hrun : Along System.step System.Proceeds s (first::ms))
    (ddr : BitVec 29 → BitVec 64) :
    (∀ shown : Bool, (finalState System.step s (first::ms ++ [last])).mem (g.lastWord shown) =
      s.mem (g.lastWord shown)) ∧
      ¬s.Carries (first::ms ++ [last]) (g.frameOf ddr bank) := by
  have hbegun := hidle.launched hg hlaunch
  obtain ⟨hnothing,hsame⟩ := hidle.store_step first
  have hrest : ∀ shown : Bool,
      (∀ write∈emitted System.step System.store s (first::ms ++ [last]),
        write.1≠g.lastWord shown) ∧
      (finalState System.step s (first::ms ++ [last])).mem (g.lastWord shown) =
        s.mem (g.lastWord shown) := by
    intro shown
    obtain ⟨hin,hwrites,hmem⟩ := hbegun.run hg hrun.2 shown
    obtain ⟨hnow,hend⟩ := hin.store_step hg last shown
    rw [cons_append,emitted_cons,hnothing,nil_append,emitted_append,
      finalState_cons,finalState_append]
    constructor
    · intro write hwrite
      rw [mem_append,emitted_cons,emitted_nil,append_nil] at hwrite
      rcases hwrite with hwrite | hwrite
      · exact hwrites write hwrite
      · exact hnow write hwrite
    · rw [finalState_cons,finalState_nil,hend,hmem,hsame]
  constructor
  · intro shown
    exact (hrest shown).2
  · intro hcarries
    obtain ⟨write,hwrite,hlast⟩ := hg.lastWord_mem
      (finalState System.step s (first::ms ++ [last])).video.dispBank (g.frameOf ddr bank)
    rw [← hcarries.writes] at hwrite
    exact (hrest _).1 write hwrite hlast

theorem System.idle_reset (g : Geometry) (mem : ℕ → BitVec 16) : (System.reset g mem).Idle := by
  refine ⟨⟨rfl,rfl,rfl,rfl⟩,⟨rfl,rfl⟩,⟨rfl,rfl,rfl⟩,⟨rfl,?_,rfl,rfl⟩,rfl,?_⟩
  · simp [System.reset,Writer.reset]
  · exact ⟨0,0,0,0,AsyncFifo.synced_cleared ⟨rfl,rfl,rfl,rfl,rfl⟩
      ⟨rfl,rfl,rfl,rfl,rfl,rfl⟩⟩

/-- A frame of two rows of four pixels. -/
def tinyFrame : Geometry := ⟨4,2,4,1,4,2,0x30000000,0x40000⟩

/-- A DDR memory of the same four pixels everywhere. -/
def tinyDdr (_ : BitVec 29) : BitVec 64 := 0x0004000300020001

/-- An edge of both clocks, with a start, an answer of the DDR memory and a vertical sync. -/
def tinyEdge (startReq doutReady vsyncPulse : Bool) : Moment :=
  ⟨some ⟨startReq,false,false,0x0004000300020001,doutReady,fun _ => false,false,vsyncPulse,
    0⟩,some true⟩

/-- The moments after the launch until the frame is shown. -/
def tinyRun : List Moment :=
  [tinyEdge false false false,tinyEdge false false false,tinyEdge false false false,
    tinyEdge false true false,tinyEdge false true false] ++
    List.replicate 60 (tinyEdge false false false)

theorem tinyFrame_sized : tinyFrame.Sized := ⟨by decide,by decide,by decide⟩

/-- The transfer of the small frame, from a memory of zeros until it is shown. -/
theorem last_pixel_dropped_tiny :
    (finalState System.step (System.reset tinyFrame fun _ => 0)
      (tinyEdge true false false::tinyRun)).flips (tinyEdge false false true)=true ∧
    ¬(System.reset tinyFrame fun _ => 0).Carries
      (tinyEdge true false false::tinyRun ++ [tinyEdge false false true])
      (tinyFrame.frameOf tinyDdr false) :=
  ⟨by decide +kernel,(@last_pixel_dropped tinyFrame (System.reset tinyFrame fun _ => 0)
    tinyFrame_sized (System.idle_reset tinyFrame _) (tinyEdge true false false)
    (tinyEdge false false true) false (by decide) tinyRun (by decide +kernel) tinyDdr).2⟩

/-- A displayed bank that does not hold its frame. -/
theorem not_carries : ¬∀ (g : Geometry), g.Sized → ∀ s : System g, s.Idle →
    ∀ (first last : Moment) (bank : Bool), s.launches first=some bank → ∀ ms : List Moment,
    Along System.step System.Proceeds s (first::ms) →
    (finalState System.step s (first::ms)).flips last=true →
    ∀ ddr : BitVec 29 → BitVec 64, Along System.step (System.Answers ddr) s (first::ms ++ [last]) →
    s.Carries (first::ms ++ [last]) (g.frameOf ddr bank) := by
  intro h
  have hcarries := h tinyFrame tinyFrame_sized (System.reset tinyFrame fun _ => 0)
    (System.idle_reset tinyFrame _) (tinyEdge true false false) (tinyEdge false false true) false
    (by decide) tinyRun (by decide +kernel) (by decide +kernel) tinyDdr (by decide +kernel)
  have hlast := hcarries.shown 1 (by decide) 3 (by decide)
  revert hlast
  decide +kernel

end Misterplex.FrameSdram
