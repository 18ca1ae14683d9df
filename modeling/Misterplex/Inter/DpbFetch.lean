import Misterplex.Lib.Trace
import Misterplex.Inter.Dpb

/-!
# A window fetch from start to end

The requests of a fetch are numbered through its three windows. The memory registers a request
before it answers, so the answer to request `k` comes when request `k + 1` is the pending one:
every sample of the reference picture goes to the place behind its own, the first place keeps
what it held, and the last answer comes when the fetch is over.
-/

namespace Misterplex.Inter

open Trace

/-- The sample at a place of a window. -/
def Windows.get (w : Windows) : PlaneId → ℕ → BitVec 8
  | .y => w.luma
  | .u => w.u
  | .v => w.v

namespace DpbRegs

/-- Two states show the same window sample. -/
structure SameShown (s t : DpbRegs) : Prop where
  /-- The same luma sample is announced. -/
  lumaValid : s.lumaWindowValid=t.lumaWindowValid
  lumaIdx : s.lumaWindowIdx=t.lumaWindowIdx
  luma : s.lumaWindowSample=t.lumaWindowSample
  /-- The same sample of the first chroma window is announced. -/
  uValid : s.chromaUWindowValid=t.chromaUWindowValid
  /-- The same sample of the second chroma window is announced. -/
  vValid : s.chromaVWindowValid=t.chromaVWindowValid
  chromaIdx : s.chromaWindowIdx=t.chromaWindowIdx
  chroma : s.chromaWindowSample=t.chromaWindowSample

/-- Two states fetch from the same place of the same picture. -/
structure SamePlace (s t : DpbRegs) : Prop where
  /-- The picture is at the same address. -/
  base : s.referenceBase=t.referenceBase
  /-- Luma reads at the same column. -/
  lumaX : s.lumaOriginX=t.lumaOriginX
  /-- Luma reads at the same row. -/
  lumaY : s.lumaOriginY=t.lumaOriginY
  /-- Chroma reads at the same column. -/
  chromaX : s.chromaOriginX=t.chromaOriginX
  /-- Chroma reads at the same row. -/
  chromaY : s.chromaOriginY=t.chromaOriginY
  lumaFrac : s.lumaFracX=t.lumaFracX ∧ s.lumaFracY=t.lumaFracY
  chromaFrac : s.chromaFracX=t.chromaFracX ∧ s.chromaFracY=t.chromaFracY

theorem SamePlace.refl (s : DpbRegs) : SamePlace s s :=
  ⟨rfl,rfl,rfl,rfl,rfl,⟨rfl,rfl⟩,⟨rfl,rfl⟩⟩

/-- Fetching from one place is transitive. -/
theorem SamePlace.trans {s t u : DpbRegs} (h : SamePlace s t) (k : SamePlace t u) :
    SamePlace s u :=
  ⟨h.base.trans k.base,h.lumaX.trans k.lumaX,h.lumaY.trans k.lumaY,h.chromaX.trans k.chromaX,
    h.chromaY.trans k.chromaY,⟨h.lumaFrac.1.trans k.lumaFrac.1,h.lumaFrac.2.trans k.lumaFrac.2⟩,
    ⟨h.chromaFrac.1.trans k.chromaFrac.1,h.chromaFrac.2.trans k.chromaFrac.2⟩⟩

variable {g : DpbParams} {s : DpbRegs} {i : DpbIn}

/-- A clock that asks for the next sample. -/
theorem step_issue (hreset : i.reset=false)
    (hidle : s.phase ≠ .idle) (hdrain : s.phase ≠ .drain) :
    s.step g i=issue g s (s.shown g i) := by
  unfold step
  rw [hreset,if_neg Bool.false_ne_true]
  split
  · exact absurd ‹_› hidle
  · exact absurd ‹_› hdrain
  · rfl

/-- A clock that begins a fetch. -/
theorem step_begin (hreset : i.reset=false)
    (hidle : s.phase = .idle) (hstart : i.fetchStart=true) : s.step g i =
      begin s { s.shown g i with pendingValid := false, fetchBusy := false } i.request := by
  unfold step idleOwn
  rw [hreset,if_neg Bool.false_ne_true,hidle,hstart]
  rfl

/-- A clock without a fetch. -/
theorem step_idle (hreset : i.reset=false) (hidle : s.phase = .idle)
    (hstart : i.fetchStart=false) :
    s.step g i = { s.shown g i with pendingValid := false, fetchBusy := false } := by
  unfold step idleOwn
  rw [hreset,if_neg Bool.false_ne_true,hidle,hstart]
  rfl

/-- The last answer ends the fetch. -/
theorem step_drain (hreset : i.reset=false)
    (hdrain : s.phase = .drain) (hanswer : (i.memRvalid && s.pendingValid)=true) : s.step g i =
      { s.shown g i with
        pendingValid := false, phase := .idle, fetchBusy := false, fetchDone := true } := by
  unfold step drainOwn
  rw [hreset,if_neg Bool.false_ne_true,hdrain]
  exact if_pos hanswer

theorem issue_shown (g : DpbParams) (old s : DpbRegs) : SameShown (issue g old s) s := by
  unfold issue
  split
  · cases old.phase <;> exact ⟨rfl,rfl,rfl,rfl,rfl,rfl,rfl⟩
  · exact ⟨rfl,rfl,rfl,rfl,rfl,rfl,rfl⟩

theorem issue_place (g : DpbParams) (old s : DpbRegs) : SamePlace (issue g old s) s := by
  unfold issue
  split
  · cases old.phase <;> exact ⟨rfl,rfl,rfl,rfl,rfl,⟨rfl,rfl⟩,⟨rfl,rfl⟩⟩
  · exact ⟨rfl,rfl,rfl,rfl,rfl,⟨rfl,rfl⟩,⟨rfl,rfl⟩⟩

/-- A clock without the end of a frame stays with its fetch before it looks at the phase. -/
theorem shown_place (hframe : i.frameDone=false) : SamePlace (s.shown g i) s := by
  have hpictures : SamePlace (pictures g s.quieted i) s := by
    unfold pictures
    rw [hframe]
    cases i.idrStart <;> exact ⟨rfl,rfl,rfl,rfl,rfl,⟨rfl,rfl⟩,⟨rfl,rfl⟩⟩
  have hanswer : SamePlace (s.shown g i) (pictures g s.quieted i) := by
    unfold shown answer
    split
    · cases s.pendingPlane <;> exact ⟨rfl,rfl,rfl,rfl,rfl,⟨rfl,rfl⟩,⟨rfl,rfl⟩⟩
    · exact SamePlace.refl _
  exact hanswer.trans hpictures

/-- States that show one sample have it stored alike. -/
theorem SameShown.take {s t : DpbRegs} (h : SameShown s t) (w : Windows) :
    w.take s=w.take t := by
  unfold Windows.take
  rw [h.lumaValid,h.lumaIdx,h.luma,h.uValid,h.vValid,h.chromaIdx,h.chroma]

theorem pictures_quieted (g : DpbParams) (s : DpbRegs) (i : DpbIn) :
    (pictures g s.quieted i).lumaWindowValid=false ∧
      (pictures g s.quieted i).chromaUWindowValid=false ∧
      (pictures g s.quieted i).chromaVWindowValid=false := by
  unfold pictures
  split
  · exact ⟨rfl,rfl,rfl⟩
  · split <;> exact ⟨rfl,rfl,rfl⟩

/-- Without an answer no window changes. -/
theorem take_shown_quiet (hquiet : (i.memRvalid && s.pendingValid)=false) (w : Windows) :
    w.take (s.shown g i)=w := by
  obtain ⟨hy,hu,hv⟩ := pictures_quieted g s i
  unfold shown answer Windows.take
  rw [hquiet,if_neg Bool.false_ne_true,hy,hu,hv]
  rfl

/-- An answer goes to the place of the pending request. -/
theorem take_shown_answer (hanswer : (i.memRvalid && s.pendingValid)=true)
    (hchroma : s.pendingPlane ≠ .y → s.pendingIdx<2^7) (w : Windows) (p : PlaneId) (n : ℕ) :
    (w.take (s.shown g i)).get p n =
      if p = s.pendingPlane ∧ n = s.pendingIdx then i.memRdata else w.get p n := by
  obtain ⟨hy,hu,hv⟩ := pictures_quieted g s i
  unfold shown answer
  rw [hanswer]
  cases hp : s.pendingPlane with
  | y =>
    cases p <;>
      simp [Windows.take,Windows.get,hu,hv,Function.update_apply]
  | u =>
    have hmod : s.pendingIdx%128=s.pendingIdx :=
      Nat.mod_eq_of_lt (hchroma (by rw [hp]; decide))
    cases p <;>
      simp [Windows.take,Windows.get,hy,hv,Function.update_apply,hmod]
  | v =>
    have hmod : s.pendingIdx%128=s.pendingIdx :=
      Nat.mod_eq_of_lt (hchroma (by rw [hp]; decide))
    cases p <;>
      simp [Windows.take,Windows.get,hy,hu,Function.update_apply,hmod]

end DpbRegs

/-- A picture in three planes. -/
structure Picture where
  /-- Luma and chroma planes. -/
  (y u v : Plane)

/-- One plane of the picture. -/
def Picture.plane (pic : Picture) : PlaneId → Plane
  | .y => pic.y
  | .u => pic.u
  | .v => pic.v

/-- A picture has the size of an instance, whose sizes are words of 16 bits. -/
structure Picture.Fits (pic : Picture) (g : DpbParams) : Prop where
  lumaWidth : pic.y.width=g.frameW
  lumaHeight : pic.y.height=g.frameH
  chromaWidth : pic.u.width=g.cW ∧ pic.v.width=g.cW
  chromaHeight : pic.u.height=g.cH ∧ pic.v.height=g.cH
  word : g.frameW<2^16 ∧ g.frameH<2^16

/-- The memory holds a picture at an address. -/
def Holds (g : DpbParams) (mem : BitVec 32 → BitVec 8) (base : BitVec 32) (pic : Picture) : Prop :=
  ∀ p x y, x<(pic.plane p).width → y<(pic.plane p).height →
    mem (i420Addr g base p x y)=(pic.plane p).sample x y

/-- The value that belongs at a place of a window. -/
def wanted (pic : Picture) (s : DpbRegs) (p : PlaneId) (n : ℕ) : ℤ :=
  match p with
  | .y => pic.y.extended (s.lumaOriginX+(n%21 : ℕ)-2) (s.lumaOriginY+(n/21 : ℕ)-2)
  | .u => pic.u.extended (s.chromaOriginX+(n%9 : ℕ)) (s.chromaOriginY+(n/9 : ℕ))
  | .v => pic.v.extended (s.chromaOriginX+(n%9 : ℕ)) (s.chromaOriginY+(n/9 : ℕ))

/-- The origins of a fetch leave room for its windows. -/
structure Roomy (s : DpbRegs) : Prop where
  lumaX : -16384 ≤ s.lumaOriginX ∧ s.lumaOriginX≤16384
  lumaY : -16384 ≤ s.lumaOriginY ∧ s.lumaOriginY≤16384
  chromaX : -16384 ≤ s.chromaOriginX ∧ s.chromaOriginX≤16384
  chromaY : -16384 ≤ s.chromaOriginY ∧ s.chromaOriginY≤16384

theorem signed16_of_small {v : ℤ} (hlow : -2^15≤v) (hhigh : v<2^15) : signed16 v=v := by
  unfold signed16
  rw [Int.bmod_eq_of_le] <;> omega

theorem clampCoord_eq_clip3 {v : ℤ} {limit : ℕ} (hlow : -2^15≤v) (hhigh : v<2^15)
    (hpos : 0<limit) (hword : limit<2^16) :
    clampCoord (signed16 v) (limit%2^16)=(clip3 0 (limit-1) v).toNat := by
  rw [signed16_of_small hlow hhigh,Nat.mod_eq_of_lt hword]
  unfold clampCoord clip3
  by_cases hneg : v<0
  · rw [if_pos hneg,if_pos hneg]
    rfl
  · rw [if_neg hneg,if_neg hneg]
    by_cases hout : (limit : ℤ)≤v
    · rw [if_pos hout,if_pos (by omega)]
      omega
    · rw [if_neg hout,if_neg (by omega)]

variable {g : DpbParams} {pic : Picture}

theorem Holds.at_clip {mem : BitVec 32 → BitVec 8} {base : BitVec 32} (h : Holds g mem base pic)
    (p : PlaneId) (x y : ℤ) :
    ((mem (i420Addr g base p (clip3 0 ((pic.plane p).width-1) x).toNat
      (clip3 0 ((pic.plane p).height-1) y).toNat)).toNat : ℤ)=(pic.plane p).extended x y := by
  have hclip : ∀ (size : ℕ) (v : ℤ), 0<size → (clip3 0 (size-1) v).toNat<size := by
    intro size v hpos
    unfold clip3
    split
    · omega
    · split <;> omega
  rw [h p _ _ (hclip _ x (pic.plane p).width_pos) (hclip _ y (pic.plane p).height_pos)]
  rfl

/-- The window of request `k`. -/
def beatPlane (k : ℕ) : PlaneId := if k < 441 then .y else if k < 522 then .u else .v

/-- The place of request `k` in its window. -/
def beatIdx (k : ℕ) : ℕ := if k < 441 then k else if k < 522 then k-441 else k-522

/-- The phase that makes request `k`. -/
def beatPhase (k : ℕ) : FetchPhase :=
  if k < 441 then .luma else if k < 522 then .u else if k < 603 then .v else .drain

/-- The number of the request for a place of a window. -/
def beatNumber : PlaneId → ℕ → ℕ
  | .y,n => n
  | .u,n => 441+n
  | .v,n => 522+n

theorem beatNumber_beat (k : ℕ) : beatNumber (beatPlane k) (beatIdx k)=k := by
  unfold beatPlane beatIdx
  by_cases hluma : k<441
  · rw [if_pos hluma,if_pos hluma]
    rfl
  · rw [if_neg hluma,if_neg hluma]
    by_cases hu : k<522
    · rw [if_pos hu,if_pos hu]
      exact Nat.add_sub_cancel' (Nat.le_of_not_lt hluma)
    · rw [if_neg hu,if_neg hu]
      exact Nat.add_sub_cancel' (Nat.le_of_not_lt hu)

variable {k : ℕ}

open DpbRegs

theorem issuePlane_of_beat {s : DpbRegs} (hphase : s.phase=beatPhase k) (hk : k<603) :
    s.issuePlane=beatPlane k := by
  unfold issuePlane beatPlane
  rw [hphase]
  unfold beatPhase
  by_cases hluma : k<441
  · rw [if_pos hluma,if_pos hluma]
  · rw [if_neg hluma,if_neg hluma]
    by_cases hu : k<522
    · rw [if_pos hu,if_pos hu]
    · rw [if_neg hu,if_neg hu,if_pos hk]

theorem beatPhase_busy (hk : k<603) : beatPhase k ≠ .idle ∧ beatPhase k ≠ .drain := by
  unfold beatPhase
  by_cases hluma : k<441
  · rw [if_pos hluma]
    decide
  · rw [if_neg hluma]
    by_cases hu : k<522
    · rw [if_pos hu]
      decide
    · rw [if_neg hu,if_pos hk]
      decide

theorem beatIdx_chroma (hk : k<603) (hchroma : beatPlane k ≠ .y) : beatIdx k<2^7 := by
  unfold beatPlane at hchroma
  unfold beatIdx
  by_cases hluma : k<441
  · rw [if_pos hluma] at hchroma
    exact absurd rfl hchroma
  · rw [if_neg hluma]
    split <;> omega

theorem requested_sample {mem : BitVec 32 → BitVec 8}
    {s : DpbRegs} (hfits : pic.Fits g) (hholds : Holds g mem s.referenceBase pic)
    (hroom : Roomy s) (hphase : s.phase=beatPhase k) (hidx : s.issueIdx=beatIdx k)
    (hk : k<603) :
    ((mem (i420Addr g s.referenceBase s.issuePlane (s.issueCoord g).1 (s.issueCoord g).2)).toNat
      : ℤ)=wanted pic s (beatPlane k) (beatIdx k) := by
  have hword := hfits.word
  have hlx := hroom.lumaX
  have hly := hroom.lumaY
  have hcx := hroom.chromaX
  have hcy := hroom.chromaY
  have hcw : g.cW<2^16 := lt_of_le_of_lt (Nat.div_le_self _ _) hword.1
  have hch : g.cH<2^16 := lt_of_le_of_lt (Nat.div_le_self _ _) hword.2
  rw [issuePlane_of_beat hphase hk]
  unfold issueCoord beatPlane
  rw [hphase,hidx]
  unfold beatPhase beatIdx
  by_cases hluma : k<441
  · have hwidth := hfits.lumaWidth
    have hheight := hfits.lumaHeight
    have hw := hwidth ▸ pic.y.width_pos
    have hh := hheight ▸ pic.y.height_pos
    simp only [if_pos hluma]
    rw [clampCoord_eq_clip3 (by omega) (by omega) hw hword.1,
      clampCoord_eq_clip3 (by omega) (by omega) hh hword.2,← hwidth,← hheight]
    exact hholds.at_clip .y _ _
  · simp only [if_neg hluma]
    by_cases hu : k<522
    · have hwidth := hfits.chromaWidth.1
      have hheight := hfits.chromaHeight.1
      have hw := hwidth ▸ pic.u.width_pos
      have hh := hheight ▸ pic.u.height_pos
      simp only [if_pos hu]
      rw [clampCoord_eq_clip3 (by omega) (by omega) hw hcw,
        clampCoord_eq_clip3 (by omega) (by omega) hh hch,← hwidth,← hheight]
      exact hholds.at_clip .u _ _
    · have hwidth := hfits.chromaWidth.2
      have hheight := hfits.chromaHeight.2
      have hw := hwidth ▸ pic.v.width_pos
      have hh := hheight ▸ pic.v.height_pos
      simp only [if_neg hu,if_pos hk]
      rw [clampCoord_eq_clip3 (by omega) (by omega) hw hcw,
        clampCoord_eq_clip3 (by omega) (by omega) hh hch,← hwidth,← hheight]
      exact hholds.at_clip .v _ _

/-- A clock that leaves a fetch alone: no reset, no new reference, and the memory holds the
reference picture. -/
structure Undisturbed (g : DpbParams) (pic : Picture) (base : BitVec 32) (c : DpbClock) : Prop where
  noReset : c.reset=false
  noFrame : c.frameDone=false
  holds : Holds g c.mem base pic

/-- What a fetch leaves in a place of the windows: the sample of the place before it, and in the
first place what it held. -/
def late (pic : Picture) (s : DpbRegs) (held : ℤ) : ℕ → ℤ
  | 0 => held
  | j+1 => wanted pic s (beatPlane j) (beatIdx j)

/-- The windows with the sample that is shown. -/
def FetchUnit.settled (f : FetchUnit) : Windows := f.win.take f.dpb

/-- The fetch that `start` began has made its first `k` requests. -/
structure Fetching (g : DpbParams) (pic : Picture) (start : DpbRegs) (held : ℤ) (k : ℕ)
    (f : FetchUnit) : Prop where
  /-- The fetch reads where it began. -/
  place : f.dpb.SamePlace start
  /-- The phase is that of request `k`. -/
  phase : f.dpb.phase=beatPhase k
  /-- Request `k` is the next one of its phase. -/
  idx : k<603 → f.dpb.issueIdx=beatIdx k
  /-- The first two answers are to nobody. -/
  quiet : k<2 → (f.memRvalid && f.dpb.pendingValid)=false ∧ (k=0 → f.dpb.memRd=false)
  /-- The last request is out and pending. -/
  asked : ∀ j, k=j+1 → f.dpb.memRd=true ∧ f.dpb.pendingValid=true ∧
    f.dpb.pendingPlane=beatPlane j ∧ f.dpb.pendingIdx=beatIdx j ∧
    ∀ mem, Holds g mem start.referenceBase pic →
      ((mem f.dpb.memRaddr).toNat : ℤ)=wanted pic start (beatPlane j) (beatIdx j)
  /-- The memory has the request before it. -/
  answers : ∀ j, k=j+2 → f.memRvalid=true ∧
    ∀ mem, Holds g mem start.referenceBase pic →
      ((mem f.memRaddrQ).toNat : ℤ)=wanted pic start (beatPlane j) (beatIdx j)
  /-- The answers so far are one place late. -/
  filled : ∀ j, j=0 ∨ j+1<k →
    ((f.settled.get (beatPlane j) (beatIdx j)).toNat : ℤ)=late pic start held j

theorem wanted_congr (pic : Picture) {s t : DpbRegs} (h : s.SamePlace t) (p : PlaneId) (n : ℕ) :
    wanted pic s p n=wanted pic t p n := by
  cases p with
  | y => unfold wanted; rw [h.lumaX,h.lumaY]
  | u => unfold wanted; rw [h.chromaX,h.chromaY]
  | v => unfold wanted; rw [h.chromaX,h.chromaY]

variable {f : FetchUnit} {start : DpbRegs} {c : DpbClock} {held : ℤ}

/-- The answer of a clock goes to the place behind its own. -/
theorem Fetching.answered (h : Fetching g pic start held k f)
    (hk : k≤603) (hquiet : Undisturbed g pic start.referenceBase c) {next : DpbRegs}
    (hnext : next.SameShown (f.dpb.shown g (f.input c))) {j : ℕ} (hj : j=0 ∨ j<k) :
    (((f.settled.take next).get (beatPlane j) (beatIdx j)).toNat : ℤ) =
      late pic start held j := by
  rw [hnext.take]
  by_cases hfew : k<2
  · rw [take_shown_quiet (h.quiet hfew).1]
    exact h.filled j (by omega)
  · obtain ⟨l,rfl⟩ : ∃ l, k=l+2 := ⟨k-2,by omega⟩
    obtain ⟨-,hpending,hplane,hidx,-⟩ := h.asked (l+1) rfl
    obtain ⟨hvalid,hsample⟩ := h.answers l rfl
    have hanswer : ((f.input c).memRvalid && f.dpb.pendingValid)=true := by
      rw [hpending]
      exact congrArg (· && true) hvalid
    have hchroma : f.dpb.pendingPlane ≠ .y → f.dpb.pendingIdx<2^7 := by
      rw [hplane,hidx]
      exact beatIdx_chroma (by omega)
    rw [take_shown_answer hanswer hchroma,hplane,hidx]
    by_cases hlast : j=l+1
    · rw [hlast,if_pos ⟨rfl,rfl⟩]
      exact hsample c.mem hquiet.holds
    · have hother : ¬(beatPlane j=beatPlane (l+1) ∧ beatIdx j=beatIdx (l+1)) := by
        intro hsame
        apply hlast
        rw [← beatNumber_beat j,hsame.1,hsame.2,beatNumber_beat (l+1)]
      rw [if_neg hother]
      exact h.filled j (by omega)

theorem issue_next {old s : DpbRegs} (hk : k<603)
    (hphase : old.phase=beatPhase k) (hidx : old.issueIdx=beatIdx k)
    (hkeep : s.phase=old.phase) : (DpbRegs.issue g old s).phase=beatPhase (k+1) ∧
      (k+1<603 → (DpbRegs.issue g old s).issueIdx=beatIdx (k+1)) := by
  unfold issue lastIdx
  rw [hphase,hidx]
  rw [hphase] at hkeep
  unfold beatPhase beatIdx at *
  by_cases hluma : k<441
  · simp only [if_pos hluma] at hkeep ⊢
    by_cases hlast : k=440
    · rw [if_pos hlast,hlast]
      exact ⟨rfl,fun _ => rfl⟩
    · rw [if_neg hlast,if_pos (by omega),if_pos (by omega)]
      exact ⟨hkeep,fun _ => Nat.mod_eq_of_lt (by omega)⟩
  · simp only [if_neg hluma] at hkeep ⊢
    by_cases hu : k<522
    · simp only [if_pos hu] at hkeep ⊢
      by_cases hlast : k-441=80
      · have hvalue : k=521 := by omega
        rw [if_pos hlast,hvalue]
        exact ⟨rfl,fun _ => rfl⟩
      · rw [if_neg hlast,if_neg (by omega),if_pos (by omega),if_neg (by omega),
          if_pos (by omega)]
        constructor
        · exact hkeep
        · intro _
          show (k-441+1)%2^9=k+1-441
          omega
    · simp only [if_neg hu,if_pos hk] at hkeep ⊢
      by_cases hlast : k-522=80
      · have hvalue : k=602 := by omega
        rw [if_pos hlast,hvalue]
        exact ⟨rfl,fun hless => absurd hless (by omega)⟩
      · rw [if_neg hlast,if_neg (by omega),if_neg (by omega),if_pos (by omega),
          if_neg (by omega),if_neg (by omega)]
        constructor
        · exact hkeep
        · intro _
          show (k-522+1)%2^9=k+1-522
          omega

theorem issue_asks (g : DpbParams) (old s : DpbRegs) :
    (DpbRegs.issue g old s).memRd=true ∧ (DpbRegs.issue g old s).pendingValid=true ∧
      (DpbRegs.issue g old s).pendingPlane=old.issuePlane ∧
      (DpbRegs.issue g old s).pendingIdx=old.issueIdx ∧
      (DpbRegs.issue g old s).memRaddr =
        i420Addr g old.referenceBase old.issuePlane (old.issueCoord g).1 (old.issueCoord g).2 := by
  unfold issue
  split
  · cases old.phase <;> exact ⟨rfl,rfl,rfl,rfl,rfl⟩
  · exact ⟨rfl,rfl,rfl,rfl,rfl⟩

theorem shown_keeps (g : DpbParams) (s : DpbRegs) (i : DpbIn) :
    (s.shown g i).phase=s.phase ∧ (s.shown g i).fetchDone=s.fetchDone := by
  have hpictures : (pictures g s.quieted i).phase=s.phase ∧
      (pictures g s.quieted i).fetchDone=s.fetchDone := by
    unfold pictures
    split
    · exact ⟨rfl,rfl⟩
    · split <;> exact ⟨rfl,rfl⟩
  unfold shown answer
  split
  · cases s.pendingPlane <;> exact hpictures
  · exact hpictures

theorem shown_phase (g : DpbParams) (s : DpbRegs) (i : DpbIn) : (s.shown g i).phase=s.phase :=
  (shown_keeps g s i).1

/-- One undisturbed clock asks for one more sample. -/
theorem Fetching.step (h : Fetching g pic start held k f) (hfits : pic.Fits g)
    (hroom : Roomy start) (hk : k<603) (hquiet : Undisturbed g pic start.referenceBase c) :
    Fetching g pic start held (k+1) (f.step g c) := by
  have hbusy : f.dpb.phase ≠ .idle ∧ f.dpb.phase ≠ .drain := h.phase ▸ beatPhase_busy hk
  have hstep : (f.step g c).dpb=issue g f.dpb (f.dpb.shown g (f.input c)) :=
    step_issue hquiet.noReset hbusy.1 hbusy.2
  have hrvalid : (f.step g c).memRvalid=f.dpb.memRd := rfl
  have hshown : (f.step g c).dpb.SameShown (f.dpb.shown g (f.input c)) := by
    rw [hstep]
    exact issue_shown g _ _
  have hnext := issue_next (g := g) hk h.phase (h.idx hk) (shown_phase g f.dpb (f.input c))
  have hasks := issue_asks g f.dpb (f.dpb.shown g (f.input c))
  have hplace : (f.step g c).dpb.SamePlace f.dpb := by
    rw [hstep]
    exact (issue_place g _ _).trans (shown_place hquiet.noFrame)
  have hroomy : Roomy f.dpb :=
    ⟨h.place.lumaX ▸ hroom.lumaX,h.place.lumaY ▸ hroom.lumaY,h.place.chromaX ▸ hroom.chromaX,
      h.place.chromaY ▸ hroom.chromaY⟩
  constructor
  case place => exact hplace.trans h.place
  case phase => rw [hstep]; exact hnext.1
  case idx => rw [hstep]; exact hnext.2
  case quiet =>
    intro hfew
    have hstart : k=0 := by omega
    rw [hrvalid,(h.quiet (by omega)).2 hstart]
    exact ⟨rfl,fun hnone => absurd hnone (Nat.succ_ne_zero k)⟩
  case asked =>
    intro j hj
    obtain rfl : k=j := Nat.succ_injective hj
    rw [hstep,hasks.1,hasks.2.1,hasks.2.2.1,hasks.2.2.2.1,hasks.2.2.2.2]
    refine ⟨rfl,rfl,issuePlane_of_beat h.phase hk,h.idx hk,?_⟩
    intro mem hmem
    rw [← h.place.base] at hmem
    rw [requested_sample hfits hmem hroomy h.phase (h.idx hk) hk]
    exact wanted_congr pic h.place _ _
  case answers =>
    intro j hj
    obtain ⟨hout,-,-,-,hsample⟩ := h.asked j (Nat.succ_injective hj)
    exact ⟨hout,hsample⟩
  case filled =>
    intro j hj
    exact h.answered (by omega) hquiet hshown (by omega)

/-- An undisturbed run asks for a sample in every clock. -/
theorem Fetching.run (hfits : pic.Fits g) (hroom : Roomy start) {cs : List DpbClock} :
    ∀ {k : ℕ} {f : FetchUnit}, Fetching g pic start held k f → k+cs.length≤603 →
      (∀ c∈cs, Undisturbed g pic start.referenceBase c) →
      Fetching g pic start held (k+cs.length) (finalState (FetchUnit.step g) f cs) := by
  induction cs with
  | nil => intro k f h _ _; exact h
  | cons c cs ih =>
    intro k f h hlen hquiet
    rw [List.length_cons] at hlen
    have hfirst := h.step hfits hroom (by omega) (hquiet c List.mem_cons_self)
    have hrest := ih hfirst (by omega) (fun d hd => hquiet d (List.mem_cons_of_mem c hd))
    rw [List.length_cons,finalState_cons]
    rw [show k+(cs.length+1)=k+1+cs.length by omega]
    exact hrest

/-- A fetch is over, and some windows hold the samples one place late. -/
structure Fetched (pic : Picture) (start : DpbRegs) (held : ℤ) (f : FetchUnit) (win : Windows) :
    Prop where
  /-- The fetch has ended. -/
  done : f.dpb.fetchDone=true ∧ f.dpb.phase = .idle
  /-- The fractions are those it began with. -/
  place : f.dpb.SamePlace start
  /-- Every place of every window holds the sample of the place before it. -/
  filled : ∀ j, j<603 →
    ((win.get (beatPlane j) (beatIdx j)).toNat : ℤ)=late pic start held j

theorem Fetching.drain (h : Fetching g pic start held 603 f)
    (hquiet : Undisturbed g pic start.referenceBase c) :
    Fetched pic start held (f.step g c) (f.step g c).settled := by
  obtain ⟨-,hpending,-⟩ := h.asked 602 rfl
  have hanswer : ((f.input c).memRvalid && f.dpb.pendingValid)=true := by
    rw [hpending]
    exact congrArg (· && true) (h.answers 601 rfl).1
  have hstep : (f.step g c).dpb = { f.dpb.shown g (f.input c) with
      pendingValid := false, phase := .idle, fetchBusy := false, fetchDone := true } :=
    step_drain hquiet.noReset h.phase hanswer
  have hshown : (f.step g c).dpb.SameShown (f.dpb.shown g (f.input c)) := by
    rw [hstep]
    exact ⟨rfl,rfl,rfl,rfl,rfl,rfl,rfl⟩
  have hplace : (f.step g c).dpb.SamePlace (f.dpb.shown g (f.input c)) := by
    rw [hstep]
    exact ⟨rfl,rfl,rfl,rfl,rfl,⟨rfl,rfl⟩,⟨rfl,rfl⟩⟩
  constructor
  case done => rw [hstep]; exact ⟨rfl,rfl⟩
  case place => exact (hplace.trans (shown_place hquiet.noFrame)).trans h.place
  case filled =>
    intro j hj
    exact h.answered (Nat.le_refl 603) hquiet hshown (Or.inr hj)

/-- A clock after the fetch the windows have taken the last sample. -/
theorem Fetched.settle (h : Fetched pic start held f f.settled)
    (hquiet : Undisturbed g pic start.referenceBase c) (hleft : c.fetchStart=false) :
    Fetched pic start held (f.step g c) (f.step g c).win := by
  have hstep : (f.step g c).dpb =
      { f.dpb.shown g (f.input c) with pendingValid := false, fetchBusy := false } :=
    step_idle hquiet.noReset h.done.2 hleft
  have hkeeps := shown_keeps g f.dpb (f.input c)
  have hplace : (f.step g c).dpb.SamePlace (f.dpb.shown g (f.input c)) := by
    rw [hstep]
    exact ⟨rfl,rfl,rfl,rfl,rfl,⟨rfl,rfl⟩,⟨rfl,rfl⟩⟩
  constructor
  case done => rw [hstep]; exact ⟨hkeeps.2.trans h.done.1,hkeeps.1.trans h.done.2⟩
  case place => exact (hplace.trans (shown_place hquiet.noFrame)).trans h.place
  case filled => exact h.filled

/-- A request names a partition. -/
structure FetchRequest.Names (r : FetchRequest) (p : Partition) : Prop where
  /-- The macroblock's column. -/
  mbX : r.mbX.val=p.mbX
  /-- The macroblock's row. -/
  mbY : r.mbY.val=p.mbY
  mode : r.partMode.val=p.shape.partMode.toNat
  idx : r.partIdx.val=p.idx.val

/-- The motion a request carries. -/
def FetchRequest.mv (r : FetchRequest) : Mv := ⟨r.mvX.toInt,r.mvY.toInt⟩

theorem partOff_eq (shape : Shape) (idx : Fin shape.count) :
    partXOff shape.partMode.toNat idx=(partitionOffset shape.partWidth shape.partHeight idx).1 ∧
      partYOff shape.partMode.toNat idx=(partitionOffset shape.partWidth shape.partHeight idx).2 := by
  cases shape <;> revert idx <;> decide

theorem partOff_range (mode idx : ℕ) :
    (partXOff mode idx=0 ∨ partXOff mode idx=8) ∧
      (partYOff mode idx=0 ∨ partYOff mode idx=8) := by
  unfold partXOff partYOff
  constructor <;> split <;> (try split) <;> simp

/-- Where the fetch of a partition reads. -/
structure Origins (s : DpbRegs) (p : Partition) (mv : Mv) : Prop where
  lumaX : s.lumaOriginX = p.left+mv.x >>> 2
  lumaY : s.lumaOriginY = p.top+mv.y >>> 2
  chromaX : s.chromaOriginX = p.left/2+mv.x >>> 3
  chromaY : s.chromaOriginY = p.top/2+mv.y >>> 3
  lumaFrac : s.lumaFracX=(mv.x%4).toNat ∧ s.lumaFracY=(mv.y%4).toNat
  chromaFrac : s.chromaFracX=(mv.x%8).toNat ∧ s.chromaFracY=(mv.y%8).toNat

theorem toInt_emod (v : BitVec 16) :
    v.toNat%4=(v.toInt%4).toNat ∧ v.toNat%8=(v.toInt%8).toNat := by
  have hvalue := BitVec.toInt_eq_toNat_cond v
  split at hvalue <;> constructor <;> omega

theorem toInt_shift_range (v : BitVec 16) :
    (-8192 ≤ v.toInt >>> 2 ∧ v.toInt >>> 2 < 8192) ∧
      (-4096 ≤ v.toInt >>> 3 ∧ v.toInt >>> 3 < 4096) := by
  have hlow := BitVec.le_toInt v
  have hhigh := BitVec.toInt_lt (x := v)
  rw [Int.shiftRight_eq_div_pow,Int.shiftRight_eq_div_pow]
  constructor <;> constructor <;> omega

theorem begin_origins {old s : DpbRegs} {r : FetchRequest} {p : Partition} (hready : old.refReady=true)
    (hnames : r.Names p) : Origins (DpbRegs.begin old s r) p r.mv ∧ Roomy (DpbRegs.begin old s r) := by
  have hoff := partOff_eq p.shape p.idx
  rw [← hnames.mode,← hnames.idx] at hoff
  have hoffRange := partOff_range r.partMode r.partIdx
  have hx := toInt_shift_range r.mvX
  have hy := toInt_shift_range r.mvY
  have hmbX := hnames.mbX
  have hmbY := hnames.mbY
  have hleft : p.left=16*(r.mbX : ℕ)+partXOff r.partMode r.partIdx := by
    rw [hoff.1,hmbX,hnames.idx]
    rfl
  have htop : p.top=16*(r.mbY : ℕ)+partYOff r.partMode r.partIdx := by
    rw [hoff.2,hmbY,hnames.idx]
    rfl
  have hhalf : ∀ v : ℤ, v >>> 1 = v/2 := fun v => Int.shiftRight_eq_div_pow v 1
  have hlumaX : (begin old s r).lumaOriginX = p.left+r.mvX.toInt >>> 2 := by
    unfold begin
    rw [if_pos hready,hleft]
    exact signed16_of_small (by omega) (by omega)
  have hlumaY : (begin old s r).lumaOriginY = p.top+r.mvY.toInt >>> 2 := by
    unfold begin
    rw [if_pos hready,htop]
    exact signed16_of_small (by omega) (by omega)
  have hchromaX : (begin old s r).chromaOriginX = p.left/2+r.mvX.toInt >>> 3 := by
    have hpart : p.left/2 = 8*(r.mbX : ℕ)+partXOff r.partMode r.partIdx >>> 1 := by
      rw [hleft,hhalf]
      omega
    unfold begin
    rw [if_pos hready,hpart]
    exact signed16_of_small (by omega) (by omega)
  have hchromaY : (begin old s r).chromaOriginY = p.top/2+r.mvY.toInt >>> 3 := by
    have hpart : p.top/2 = 8*(r.mbY : ℕ)+partYOff r.partMode r.partIdx >>> 1 := by
      rw [htop,hhalf]
      omega
    unfold begin
    rw [if_pos hready,hpart]
    exact signed16_of_small (by omega) (by omega)
  have hfrac : (begin old s r).lumaFracX=r.mvX.toNat%4 ∧
      (begin old s r).lumaFracY=r.mvY.toNat%4 ∧
      (begin old s r).chromaFracX=r.mvX.toNat%8 ∧
      (begin old s r).chromaFracY=r.mvY.toNat%8 := by
    unfold begin
    rw [if_pos hready]
    exact ⟨rfl,rfl,rfl,rfl⟩
  constructor
  · constructor
    case lumaX => exact hlumaX
    case lumaY => exact hlumaY
    case chromaX => exact hchromaX
    case chromaY => exact hchromaY
    case lumaFrac =>
      exact ⟨hfrac.1.trans (toInt_emod r.mvX).1,hfrac.2.1.trans (toInt_emod r.mvY).1⟩
    case chromaFrac =>
      exact ⟨hfrac.2.2.1.trans (toInt_emod r.mvX).2,hfrac.2.2.2.trans (toInt_emod r.mvY).2⟩
  · constructor
    case lumaX => constructor <;> omega
    case lumaY => constructor <;> omega
    case chromaX => constructor <;> omega
    case chromaY => constructor <;> omega

theorem fetching_begin (g : DpbParams) (pic : Picture)
    (hidle : f.dpb.phase = .idle) (hready : f.dpb.refReady=true)
    (hreset : c.reset=false) (hstart : c.fetchStart=true) {p : Partition}
    (hnames : c.request.Names p) :
    Fetching g pic (f.step g c).dpb ((f.step g c).settled.luma 0).toNat 0 (f.step g c) ∧
      Origins (f.step g c).dpb p c.request.mv ∧ Roomy (f.step g c).dpb := by
  have hstep : (f.step g c).dpb=begin f.dpb
      { f.dpb.shown g (f.input c) with pendingValid := false, fetchBusy := false } c.request :=
    step_begin hreset hidle hstart
  have hout : (f.dpb.shown g (f.input c)).memRd=false := by
    unfold shown answer pictures
    split
    · cases f.dpb.pendingPlane <;> (dsimp only; split <;> [rfl; (split <;> rfl)])
    · split <;> [rfl; (split <;> rfl)]
  have hfields : (f.step g c).dpb.phase = .luma ∧ (f.step g c).dpb.issueIdx=0 ∧
      (f.step g c).dpb.pendingValid=false ∧ (f.step g c).dpb.memRd=false := by
    rw [hstep]
    unfold begin
    rw [if_pos hready]
    exact ⟨rfl,rfl,rfl,hout⟩
  constructor
  · constructor
    case place => exact DpbRegs.SamePlace.refl _
    case phase => exact hfields.1
    case idx => intro _; exact hfields.2.1
    case quiet =>
      intro _
      rw [hfields.2.2.1,Bool.and_false]
      exact ⟨rfl,fun _ => hfields.2.2.2⟩
    case asked => intro j hj; exact absurd hj (Nat.succ_ne_zero j).symm
    case answers => intro j hj; exact absurd hj (Nat.succ_ne_zero (j+1)).symm
    case filled =>
      intro j hj
      obtain rfl : j=0 := hj.resolve_right (Nat.not_lt_zero _)
      rfl
  · rw [hstep]
    exact begin_origins hready hnames

/-- A fetch that is left alone is over after 605 clocks, and one clock later the windows hold the
samples of the picture, each one place behind its own. -/
theorem fetched_of_run {c last settle : DpbClock}
    {cs : List DpbClock} (hfits : pic.Fits g) (hidle : f.dpb.phase = .idle)
    (hready : f.dpb.refReady=true) (hreset : c.reset=false) (hstart : c.fetchStart=true)
    {p : Partition} (hnames : c.request.Names p) (hlen : cs.length=603)
    (hquiet : ∀ d ∈ cs ++ [last,settle], Undisturbed g pic (f.step g c).dpb.referenceBase d)
    (hleft : settle.fetchStart=false) :
    Fetched pic (f.step g c).dpb ((f.step g c).settled.luma 0).toNat
      (finalState (FetchUnit.step g) f (c::cs ++ [last,settle]))
      (finalState (FetchUnit.step g) f (c::cs ++ [last,settle])).win := by
  obtain ⟨hbegin,_,hroom⟩ := fetching_begin g pic hidle hready hreset hstart hnames
  have hrun := hbegin.run hfits hroom (by omega)
    (fun d hd => hquiet d (List.mem_append_left _ hd))
  rw [hlen,Nat.zero_add] at hrun
  rw [finalState_append,finalState_cons]
  exact (hrun.drain (hquiet last (by simp))).settle (hquiet settle (by simp)) hleft

end Misterplex.Inter
