import Misterplex.Sdram.LastPixel
import Misterplex.Sdram.Stages

/-!
# Starts and transfers

A start that is accepted is launched at once or held. A held start is launched at
the first edge at which the reader is free, unless a later start took its place.
Only two starts at one edge, for two banks, are more than the reader can keep.

As long as the frame store takes the reset of every transfer, no word is written into
the displayed bank and every pixel is carried out under the reset of its own transfer.
A transfer that is launched while a swap is on its way loses its reset, and its pixels
go on where the last frame ended, in the bank that is displayed by then.
-/

namespace Misterplex.FrameSdram

open Trace

variable {g : Geometry} {s : System g} {m : Moment} {bank : Bool}

variable {p : ReaderPort}

open Reader

theorem Reader.launch_held {r : Reader} (hspi : r.spiEdge p=false) (hdb : r.dbNewSeq p=false) :
    r.launch p = if r.freeForDma p && !r.pollPending then r.hold else none := by
  unfold launch freshDb freshSpi heldGo
  rw [hspi,hdb]
  cases r.freeForDma p with
  | false => simp
  | true =>
    cases r.pollPending with
    | true => simp
    | false =>
      cases r.hold with
      | none => simp
      | some bank => simp

theorem Reader.newHold_none {r : Reader} (hspi : r.spiEdge p=false)
    (hdb : r.dbNewSeq p=false) : r.newHold p=none := by
  unfold newHold
  rw [hspi,hdb]
  simp

theorem Reader.spi_step {r : Reader} (hspi : r.spiEdge p=true) (hdb : r.dbNewSeq p=false) :
    r.launch p=some p.bankSel ∨ r.launch p=none ∧ r.newHold p=some p.bankSel := by
  unfold launch newHold freshDb freshSpi heldGo canLaunch
  rw [hspi,hdb]
  cases r.freeForDma p with
  | false => exact Or.inr (by simp)
  | true =>
    cases r.pollPending with
    | true => exact Or.inr (by simp)
    | false => exact Or.inl (by simp)

theorem Reader.db_step {r : Reader} (hdb : r.dbNewSeq p=true) :
    r.launch p=some (Reader.dbBank p) ∨
      r.launch p=none ∧ r.newHold p=some (Reader.dbBank p) := by
  unfold launch newHold freshDb freshSpi heldGo canLaunch
  rw [hdb]
  cases r.freeForDma p with
  | false => exact Or.inr (by simp)
  | true => exact Or.inl (by simp)

namespace System

/-- The starts that are accepted at a moment. -/
def starts (s : System g) (m : Moment) : List Bool :=
  m.clk.elim [] fun p => s.reader.accepted (s.readerPort p)

/-- The bank of the transfer that is launched at a moment. -/
def launched (s : System g) (m : Moment) : List Bool := (s.launches m).toList

/-- At an edge of clk the reader could launch a start that it holds. -/
def free (s : System g) (m : Moment) : Bool :=
  m.clk.elim false fun p => s.reader.freeForDma (s.readerPort p) && !s.reader.pollPending

/-- A start of a bank has been followed by a later one, or by a transfer of the bank, or it is
held and the reader was not free at any edge. -/
def Answered (s : System g) (bank : Bool) (ms : List Moment) : Prop :=
  emitted step starts s ms≠[] ∨ bank∈emitted step launched s ms ∨
    (finalState step s ms).reader.hold=some bank ∧ Along step (fun t m => t.free m=false) s ms

/-- Every start that is accepted along a run is launched when it is accepted, or answered in
the rest of the run. -/
def Followed (s : System g) (ms : List Moment) : Prop :=
  ∀ (before : List Moment) (m : Moment) (after : List Moment), ms = before ++ m::after →
    ∀ bank∈(finalState step s before).starts m,
      bank∈(finalState step s before).launched m ∨
        ((finalState step s before).step m).Answered bank after

/-- An edge of start_req does not come with a new number for the other bank. -/
def Apart (s : System g) (m : Moment) : Prop :=
  ∀ p∈m.clk, s.reader.spiEdge (s.readerPort p)=true →
    s.reader.dbNewSeq (s.readerPort p)=true → Reader.dbBank (s.readerPort p)=p.bankSel

instance (s : System g) (m : Moment) : Decidable (s.Apart m) :=
  inferInstanceAs (Decidable (∀ p∈m.clk, s.reader.spiEdge (s.readerPort p)=true →
    s.reader.dbNewSeq (s.readerPort p)=true → Reader.dbBank (s.readerPort p)=p.bankSel))

theorem start_step (hapart : s.Apart m) (h : bank∈s.starts m) :
    bank∈s.launched m ∨ (s.step m).reader.hold=some bank := by
  unfold starts at h
  unfold launched launches
  cases hclk : m.clk with
  | none => rw [hclk] at h; exact absurd h List.not_mem_nil
  | some p =>
    rw [hclk,Option.elim_some] at h
    have hreader : (s.step m).reader=s.reader.step g (s.readerPort p) := by simp [step,hclk]
    rw [hreader,Option.bind_some]
    have hkept : ∀ {b : Bool}, s.reader.launch (s.readerPort p)=some b ∨
        s.reader.launch (s.readerPort p)=none ∧ s.reader.newHold (s.readerPort p)=some b →
        b∈(s.reader.launch (s.readerPort p)).toList ∨
          (s.reader.step g (s.readerPort p)).hold=some b := by
      intro b hcases
      rcases hcases with hlaunch | ⟨hlaunch,hhold⟩
      · exact Or.inl (by rw [hlaunch]; simp)
      · exact Or.inr (by simp [Reader.step,hlaunch,hhold])
    unfold Reader.accepted at h
    rw [List.mem_append] at h
    cases hdb : s.reader.dbNewSeq (s.readerPort p) with
    | true =>
      have hbank : bank=dbBank (s.readerPort p) := by
        rcases h with h | h
        · cases hspi : s.reader.spiEdge (s.readerPort p) with
          | false => rw [hspi] at h; exact absurd h (by simp)
          | true =>
            rw [hspi,if_pos rfl,List.mem_singleton] at h
            exact h.trans (hapart p hclk hspi hdb).symm
        · rw [hdb,if_pos rfl,List.mem_singleton] at h
          exact h
      rw [hbank]
      exact hkept (db_step hdb)
    | false =>
      rw [hdb] at h
      cases hspi : s.reader.spiEdge (s.readerPort p) with
      | false => rw [hspi] at h; exact absurd h (by simp)
      | true =>
        rw [hspi] at h
        have hbank : bank=(s.readerPort p).bankSel := by simpa using h
        rw [hbank]
        exact hkept (spi_step hspi hdb)

/-- While no start is accepted a held start is launched if the reader is free, and held on
otherwise. -/
theorem hold_step (hhold : s.reader.hold=some bank) (hnone : s.starts m=[]) :
    bank∈s.launched m ∨ s.free m=false ∧ (s.step m).reader.hold=some bank := by
  unfold starts at hnone
  unfold launched launches free
  cases hclk : m.clk with
  | none =>
    simpa [step,hclk] using hhold
  | some p =>
    rw [hclk,Option.elim_some] at hnone
    obtain ⟨hspi,hdb⟩ := List.append_eq_nil_iff.mp hnone
    have hspi' : s.reader.spiEdge (s.readerPort p)=false := by simpa using hspi
    have hdb' : s.reader.dbNewSeq (s.readerPort p)=false := by simpa using hdb
    have hlaunch := launch_held hspi' hdb'
    rw [Option.bind_some,Option.elim_some]
    cases hfree : s.reader.freeForDma (s.readerPort p) && !s.reader.pollPending with
    | true =>
      rw [hfree,if_pos rfl,hhold] at hlaunch
      exact Or.inl (by rw [hlaunch]; simp)
    | false =>
      simp [step,hclk,Reader.step,hlaunch,newHold_none hspi' hdb',hhold]

theorem answered_of_hold (hhold : s.reader.hold=some bank) (ms : List Moment) :
    s.Answered bank ms := by
  induction ms generalizing s with
  | nil => exact Or.inr (Or.inr ⟨hhold,trivial⟩)
  | cons m ms ih =>
    unfold Answered
    rw [emitted_cons,emitted_cons,finalState_cons,List.mem_append]
    cases hstarts : s.starts m with
    | cons b bs => exact Or.inl (by simp)
    | nil =>
      rcases hold_step hhold hstarts with hnow | ⟨hfree,hnext⟩
      · exact Or.inr (Or.inl (Or.inl hnow))
      · rcases ih hnext with hlater | hlaunched | ⟨hend,halong⟩
        · exact Or.inl hlater
        · exact Or.inr (Or.inl (Or.inr hlaunched))
        · exact Or.inr (Or.inr ⟨hend,hfree,halong⟩)

theorem followed_of_apart {ms : List Moment} (hapart : Along step Apart s ms) : s.Followed ms := by
  intro before m after hms bank hbank
  rw [hms] at hapart
  have hnow : (finalState step s before).Apart m := (Along.split hapart).2.1
  rcases start_step hnow hbank with hlaunched | hhold
  · exact Or.inl hlaunched
  · exact Or.inr (answered_of_hold hhold after)

end System

open AsyncFifo (Synced held)

variable {g : Geometry}

theorem Geometry.wordOf_bank_ne (hg : g.Sized) {bank : Bool} {x x' y y' : ℕ} (hx : x<g.frameW)
    (hy : y<g.frameH) (hx' : x'<g.frameW) (hy' : y'<g.frameH) :
    g.wordOf (!bank) y x≠g.wordOf bank y' x' := by
  have hstride := hg.stride
  have hless := Raster.place_lt (Nat.lt_of_lt_of_le hx hstride) hy
  have hless' := Raster.place_lt (Nat.lt_of_lt_of_le hx' hstride) hy'
  unfold wordOf storeBase
  unfold Raster.place at hless hless'
  cases bank with
  | false => simp; omega
  | true => simp; omega

namespace Tracked

variable {t : Tracked g} {m : Moment} {f : ℕ}

/-- Nothing is written into the displayed bank, and a pixel that is carried out belongs to the
transfer whose reset was carried out last. -/
structure Good (t : Tracked g) (m : Moment) : Prop where
  /-- No write goes to a word of the displayed bank. -/
  bank : ∀ write∈t.sys.store m, ∀ y<g.frameH, ∀ x<g.frameW,
    write.1≠g.wordOf t.sys.video.dispBank y x
  /-- The reset of a transfer is carried out before its pixels. -/
  owner : ∀ ready∈m.sdram, ∀ word∈t.sys.writer.takes (t.sys.writerPort ready),
    commandOf word = .pixel → t.tags[t.left]?=some t.owner

/-- What holds while every reset is taken. -/
structure Sound (t : Tracked g) (f w1 w2 r1 r2 : ℕ) : Prop where
  sync : Synced t.sys.cmds w1 w2 r1 r2
  ordered : t.Ordered f
  /-- The state machine follows the displayed bank. -/
  lag : t.Lag f w1 w2
  seat : t.Seat f
  work : t.Work f

variable {w1 w2 r1 r2 : ℕ}

/-- What each side has seen of the words moves on. -/
theorem Lag.step (hsync : Synced t.sys.cmds w1 w2 r1 r2) (h : t.Lag f w1 w2) :
    (t.step m).Lag (t.shownAt f m) (if m.sdram.isSome then t.words.length else w1)
      (if m.sdram.isSome then w1 else w2) := by
  have horder := hsync.order
  have hmore : t.words.length≤(t.step m).words.length := by
    rw [words_step,List.length_append]
    exact Nat.le_add_right _ _
  have hseen : w1≤t.words.length := horder.2.2.2.2.1
  unfold shownAt
  cases hflips : t.sys.flips m with
  | true =>
    rw [if_pos rfl]
    constructor
    · intro hless
      split at hless
      · omega
      · omega
    · intro hless
      split at hless
      · omega
      · omega
  | false =>
    have hbank := dispBank_step hflips
    cases hsdram : m.sdram with
    | none =>
      have hwriter : (t.step m).sys.writer=t.sys.writer := by
        simp [Tracked.step,System.step,hsdram]
      constructor
      · rw [hwriter,hbank]
        exact h.first
      · rw [hwriter,hbank]
        exact h.second
    | some ready =>
      have hwriter := writer_step (t := t) hsdram
      constructor
      · intro _
        rw [hwriter,hbank]
        rfl
      · intro hless
        rw [hwriter,hbank]
        exact h.first hless

/-- One admitted moment keeps the displayed bank sound. -/
theorem Sound.step (hg : g.Sized) (h : t.Sound f w1 w2 r1 r2) (hadmits : t.sys.Admits m) :
    ∃ f' w1' w2' r1' r2', (t.step m).Sound f' w1' w2' r1' r2' := by
  have hnext := h.sync.step hg.deep (t.sys.cmdEdge_running m)
  have hclk : (t.sys.cmdEdge m).wr.isSome=m.clk.isSome := by simp [System.cmdEdge]
  have hsdram : (t.sys.cmdEdge m).rd.isSome=m.sdram.isSome := by simp [System.cmdEdge]
  rw [hclk,hsdram] at hnext
  have hseen : r2 ≤ if m.clk.isSome then r1 else r2 := by
    have horder := h.sync.order
    split
    · exact horder.1
    · exact Nat.le_refl r2
  obtain ⟨hpushes,hwork,hshows⟩ :=
    h.work.step hg h.sync hnext hseen h.ordered h.seat hadmits
  refine ⟨t.shownAt f m,_,_,_,_,hnext,?_,h.lag.step h.sync,?_,hwork⟩
  · unfold shownAt
    cases hflips : t.sys.flips m with
    | false => exact h.ordered.step hpushes
    | true => exact (h.ordered.step_nothing (hshows hflips).1).show
  · unfold shownAt
    cases hflips : t.sys.flips m with
    | false => exact h.seat.step hg h.sync h.ordered h.lag hflips
    | true =>
      obtain ⟨_,hfresh⟩ := hshows hflips
      exact Seat.unset hfresh.delivered hfresh.cmdPop hfresh.writing hfresh.sdramWr hfresh.state

theorem Sound.good (hg : g.Sized) (h : t.Sound f w1 w2 r1 r2) (m : Moment) : t.Good m := by
  constructor
  · intro write hwrite y hy x hx
    unfold System.store at hwrite
    split at hwrite
    · rename_i hcond
      rw [Bool.and_eq_true] at hcond
      rw [List.mem_singleton] at hwrite
      cases h.seat with
      | unset _ _ _ hwr _ =>
        rw [hwr] at hcond
        exact absurd hcond.2 (by decide)
      | set hplaced hbank _ =>
        obtain ⟨_,haddr⟩ := hplaced.port hcond.2
        rw [hwrite,haddr,hplaced.addr,hbank]
        exact Geometry.wordOf_bank_ne hg hplaced.column hplaced.row hx hy
    · exact absurd hwrite List.not_mem_nil
  · intro ready _ word htakes hpixel
    obtain ⟨hdecide,_,hsee⟩ := Writer.takes_some htakes
    have hheld := System.command_some hsee
    obtain ⟨hword,_,_⟩ := word_of_held h.sync hheld
    have hreset : commandOf word ≠ .reset := by rw [hpixel]; decide
    cases h.seat with
    | unset hunset _ _ _ _ =>
      rw [hunset] at hword
      exact absurd (h.ordered.first word hword) hreset
    | set _ _ htaken =>
      cases htaken with
      | next _ _ _ howner => rw [h.ordered.tag_pred hword hreset,howner]
      | popping _ hother _ _ howner hstate => exact howner
      | twice _ _ _ _ howner => rw [h.ordered.tag_pred hword hreset,howner]
      | lost _ _ _ _ howner => rw [h.ordered.tag_pred hword hreset,howner]

theorem sound_reset (g : Geometry) (mem : ℕ → BitVec 16) : (reset g mem).Sound 0 0 0 0 0 := by
  have hsync := AsyncFifo.synced_cleared (w := (reset g mem).sys.cmds) ⟨rfl,rfl,rfl,rfl,rfl⟩
    ⟨rfl,rfl,rfl,rfl,rfl,rfl⟩
  have hnone : ∀ i, (reset g mem).words[i]?=none := fun _ => List.getElem?_nil
  constructor
  · exact hsync
  · constructor
    · rfl
    · exact Nat.le_refl 0
    · intro word hword
      rw [hnone] at hword
      exact absurd hword (by simp)
    · intro i word hword
      rw [hnone] at hword
      exact absurd hword (by simp)
    · intro i word hword
      rw [hnone] at hword
      exact absurd hword (by simp)
  · exact ⟨fun hless => absurd hless (Nat.lt_irrefl 0),fun hless => absurd hless (Nat.lt_irrefl 0)⟩
  · refine Seat.unset rfl rfl rfl rfl ?_
    simp [reset,System.reset,Writer.reset]
  · refine Work.resting ⟨⟨rfl,rfl⟩,⟨rfl,rfl⟩,Nat.le_refl 2⟩ (Display.calm ⟨rfl,rfl,
      ⟨rfl,rfl,rfl⟩,?_⟩)
    intro i word _ hword
    rw [hnone] at hword
    exact absurd hword (by simp)

/-- An admitted run shows good banks throughout. -/
theorem Sound.run (hg : g.Sized) {ms : List Moment}
    (h : t.Sound f w1 w2 r1 r2) (hadmits : Along System.step System.Admits t.sys ms) :
    Along Tracked.step Good t ms := by
  induction ms generalizing t f w1 w2 r1 r2 with
  | nil => trivial
  | cons m ms ih =>
    obtain ⟨f',w1',w2',r1',r2',hnext⟩ := h.step hg hadmits.1
    exact ⟨h.good hg m,ih hnext hadmits.2⟩

end Tracked

/-- In every run from reset in which the frame store takes the reset of every transfer and no
edge of start_req comes with a new number for the other bank, nothing is written into the
displayed bank, the reset of every transfer is carried out before its pixels, and every start
is followed by a transfer of its bank unless a later start takes its place. -/
theorem displayed_bank_kept (hg : g.Sized) (mem : ℕ → BitVec 16) {ms : List Moment}
    (hrun : Along System.step (fun s m => s.Admits m ∧ s.Apart m) (System.reset g mem) ms) :
    Along Tracked.step Tracked.Good (Tracked.reset g mem) ms ∧
      (System.reset g mem).Followed ms := by
  have hadmits : Along System.step System.Admits (System.reset g mem) ms :=
    hrun.imp (fun _ => True) (fun _ _ _ _ => trivial) (fun _ _ _ h => h.1) trivial
  have hapart : Along System.step System.Apart (System.reset g mem) ms :=
    hrun.imp (fun _ => True) (fun _ _ _ _ => trivial) (fun _ _ _ h => h.2) trivial
  exact ⟨(Tracked.sound_reset g mem).run hg hadmits,System.followed_of_apart hapart⟩

/-- The transfer of the small frame after a reset, shown at the end, as a run of its own. -/
theorem displayed_bank_kept_tiny :
    Along Tracked.step Tracked.Good (Tracked.reset tinyFrame fun _ => 0)
      (tinyEdge true false false::tinyRun ++ [tinyEdge false false true]) ∧
    (System.reset tinyFrame fun _ => 0).Followed
      (tinyEdge true false false::tinyRun ++ [tinyEdge false false true]) :=
  displayed_bank_kept tinyFrame_sized _ (by decide +kernel)

/-- A start while the frame is sent, launched while its swap is on its way; the frame is shown at
the next vertical sync. -/
def raceRun : List Moment :=
  [tinyEdge true false false,tinyEdge false false false,tinyEdge false false false,
    tinyEdge false false false,tinyEdge true true false,tinyEdge false true false] ++
    List.replicate 60 (tinyEdge false true true)

/-- A pixel of the second transfer that is written into the displayed bank. -/
theorem not_displayed_bank_kept : ¬∀ g : Geometry, g.Sized → ∀ (mem : ℕ → BitVec 16)
    (ms : List Moment), Along Tracked.step Tracked.Good (Tracked.reset g mem) ms ∧
      (System.reset g mem).Followed ms := by
  intro h
  have hrun := (h tinyFrame tinyFrame_sized (fun _ => 0) (raceRun ++ [tinyEdge false true true])).1
  have hgood : (finalState Tracked.step (Tracked.reset tinyFrame fun _ => 0) raceRun).Good
      (tinyEdge false true true) := (Along.split hrun).2.1
  have hwrite : (14,(1 : BitVec 16)) ∈
      (finalState Tracked.step (Tracked.reset tinyFrame fun _ => 0) raceRun).sys.store
        (tinyEdge false true true) := by
    decide +kernel
  refine hgood.bank _ hwrite 1 (by decide) 2 (by decide) ?_
  decide +kernel

end Misterplex.FrameSdram
