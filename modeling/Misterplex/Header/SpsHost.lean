import Misterplex.Header.HostReader

/-!
# The host sequence parameter set

The sequence parameter set as the host parses it, with the chroma and scaling
syntax of the High profiles, the order count types and the cropping. The
grammar is written once; the host runs it with its bit reader and then checks
the picture size.
-/

namespace Misterplex.Header

open BitString BitGrammar Cavlc Emulation

section Syntax

variable {m : Type → Type} [Monad m] [HeaderReader m]

/-- What the parser keeps of the syntax. -/
structure SpsSyntax where
  /-- Profile, level and chroma format. -/
  (profileIdc levelIdc chroma : ℕ)
  /-- The colour planes are coded apart. -/
  separateColourPlane : Bool
  /-- Coded logarithm of the largest frame number, less four. -/
  log2MaxFrameNumMinus4 : ℕ
  /-- Order count type. -/
  poc : ℕ
  /-- The size in macroblocks. -/
  (wMbs hMap frameMbsOnly : ℕ)
  /-- Crop units at the edges. -/
  (l r t b : ℕ)
  deriving DecidableEq, Repr

/-- The profiles with chroma and scaling syntax. -/
def highProfiles : List ℕ := [100,110,122,244,44,83,86,118,128,138,139,134,135]

/-- The next entry of a scaling list, from a delta unless the list has ended. -/
def nextScale (last next : ℤ) : m ℤ :=
  if next ≠ 0 then do
    let delta ← se
    pure ((last+delta+256).tmod 256)
  else pure next

/-- The deltas of one scaling list. -/
def skipScalingList : ℕ → ℤ → ℤ → m Unit
  | 0,_,_ => pure ()
  | size+1,last,next => whileOk do
      let next' ← nextScale last next
      skipScalingList size (if next' = 0 then last else next') next'

/-- The scaling lists from a given one on. -/
def skipScalingLists : ℕ → ℕ → m Unit
  | 0,_ => pure ()
  | n+1,i => whileOk do
      let present ← u 1
      onlyIf (present≠0) (skipScalingList (if i < 6 then 16 else 64) 8 8)
      skipScalingLists n (i+1)

/-- The flag of separate colour planes, which only the last chroma format has. -/
def readSeparatePlane (chroma : ℕ) : m Bool :=
  if chroma = 3 then do
    let flag ← u 1
    pure (decide (flag≠0))
  else pure false

/-- The syntax behind a valid chroma format up to the scaling lists. -/
def readScaling (chroma : ℕ) : m Bool := do
  let plane ← readSeparatePlane chroma
  skip ue
  skip ue
  skip (u 1)
  let present ← u 1
  onlyIf (present≠0) (skipScalingLists (if chroma ≠ 3 then 8 else 12) 0)
  pure plane

/-- The chroma format and whether colour planes are separate. -/
def readChroma (profile : ℕ) : m (ℕ × Bool) :=
  if profile ∈ highProfiles then do
    let chroma ← ue
    if 3 < chroma then do
      fail
      pure (chroma,false)
    else do
      let plane ← readScaling chroma
      pure (chroma,plane)
  else pure (1,false)

/-- The signed codes of a cycle. -/
def skipCycle : ℕ → m Unit
  | 0 => pure ()
  | n+1 => whileOk do
      skip se
      skipCycle n

/-- The syntax of an order count type. -/
def skipPoc (poc : ℕ) : m Unit :=
  if poc = 0 then skip ue
  else if poc = 1 then do
    skip (u 1)
    skip se
    skip se
    let n ← ue
    skipCycle n
  else pure ()

/-- The four cropping offsets. -/
def readCrop (crop : ℕ) : m (ℕ × ℕ × ℕ × ℕ) :=
  if crop ≠ 0 then do
    let l ← ue
    let r ← ue
    let t ← ue
    let b ← ue
    pure (l,r,t,b)
  else pure (0,0,0,0)

/-- The syntax from the reference frames to the end. -/
def readPicture (sps : SpsSyntax) : m SpsSyntax := do
  skip ue
  skip (u 1)
  let w ← ue
  let h ← ue
  let frameMbsOnly ← u 1
  onlyIf (frameMbsOnly=0) (skip (u 1))
  skip (u 1)
  let crop ← u 1
  let (l,r,t,b) ← readCrop crop
  pure { sps with wMbs := w+1, hMap := h+1, frameMbsOnly, l, r, t, b }

/-- The syntax of a sequence parameter set. -/
def readSps : m SpsSyntax := do
  let profileIdc ← u 8
  skip (u 8)
  let levelIdc ← u 8
  skip ue
  let (chroma,separateColourPlane) ← readChroma profileIdc
  let log2MaxFrameNumMinus4 ← ue
  let poc ← ue
  skipPoc poc
  readPicture
    { profileIdc, levelIdc, chroma, separateColourPlane, log2MaxFrameNumMinus4, poc,
      wMbs := 0, hMap := 0, frameMbsOnly := 0, l := 0, r := 0, t := 0, b := 0 }

end Syntax

namespace SpsSyntax

variable (s : SpsSyntax)

/-- Chroma format as far as the colour planes are coded together. -/
def chromaArrayType : ℕ := if s.separateColourPlane then 0 else s.chroma

/-- Luma samples of a horizontal cropping unit. -/
def cropUnitX : ℕ :=
  if s.chromaArrayType = 1 then 2 else if s.chromaArrayType = 2 then 2 else 1

/-- Luma samples of a vertical cropping unit. -/
def cropUnitY : ℕ :=
  if s.chromaArrayType = 1 then 2*(2-s.frameMbsOnly) else 2-s.frameMbsOnly

/-- Coded width. -/
def codedW : ℕ := s.wMbs*16

/-- Coded height. -/
def codedH : ℕ := s.hMap*16*(if s.frameMbsOnly ≠ 0 then 1 else 2)

/-- Luma samples cropped from a row. -/
def cropXPixels : ℕ := (s.l+s.r)*s.cropUnitX

/-- Luma samples cropped from a column. -/
def cropYPixels : ℕ := (s.t+s.b)*s.cropUnitY

/-- The picture size passes the checks of the parser. -/
def SizeOk : Prop :=
  s.codedW≠0 ∧ s.codedH≠0 ∧ s.cropXPixels<s.codedW ∧ s.cropYPixels<s.codedH ∧
    s.codedW≤4096 ∧ s.codedH≤2160

instance (s : SpsSyntax) : Decidable s.SizeOk := by
  rw [SizeOk]
  infer_instance

end SpsSyntax

/-- What the host reports of a sequence parameter set. -/
structure SpsInfo where
  valid : Bool := false
  /-- Profile and level. -/
  (profileIdc levelIdc : ℕ := 0)
  /-- Samples of a crop unit. -/
  (cropUnitX cropUnitY : ℕ := 1)
  /-- Sizes before and after cropping. -/
  (codedWidth codedHeight displayWidth displayHeight : ℕ := 0)
  /-- Crop as coded. -/
  (cropLeftUnits cropRightUnits cropTopUnits cropBottomUnits : ℕ := 0)
  /-- Crop in samples. -/
  (cropLeftPixels cropRightPixels cropTopPixels cropBottomPixels : ℕ := 0)
  /-- Size of the display. -/
  (width height : ℕ := 0)
  deriving DecidableEq, Repr

/-- Report a syntax that was read without error and has a valid size. -/
def spsInfoOf (s : SpsSyntax) : SpsInfo :=
  { valid := true
    profileIdc := s.profileIdc
    levelIdc := s.levelIdc
    cropUnitX := s.cropUnitX
    cropUnitY := s.cropUnitY
    codedWidth := s.codedW
    codedHeight := s.codedH
    displayWidth := s.codedW-s.cropXPixels
    displayHeight := s.codedH-s.cropYPixels
    cropLeftUnits := s.l
    cropRightUnits := s.r
    cropTopUnits := s.t
    cropBottomUnits := s.b
    cropLeftPixels := s.l*s.cropUnitX
    cropRightPixels := s.r*s.cropUnitX
    cropTopPixels := s.t*s.cropUnitY
    cropBottomPixels := s.b*s.cropUnitY
    width := s.codedW-s.cropXPixels
    height := s.codedH-s.cropYPixels }

variable (payload : List Byte)

/-- The host reader at the start of a payload without its emulation prevention. -/
def startReader : BitReader := ⟨removeEpb payload,0,true⟩

/-- Parse a sequence parameter set. -/
def parseSpsRbsp : SpsInfo :=
  if payload.length < 4 then {}
  else
    let r := (readSps : StateM BitReader SpsSyntax) (startReader payload)
    if r.2.ok ∧ r.1.SizeOk then spsInfoOf r.1
    else { profileIdc := r.1.profileIdc, levelIdc := r.1.levelIdc }

section Reading

variable {d : List Byte}

theorem reads_skipScalingList (size : ℕ) (last next : ℤ) :
    Reads (hostReader d) (skipScalingList size last next) (skipScalingList size last next) := by
  induction size generalizing last next with
  | zero => exact Reads.pure ()
  | succ size ih =>
    refine reads_whileOk (Reads.bind (Reads.ite ?_ (Reads.pure next)) fun next' => ih _ next')
    exact reads_se.bind fun delta => Reads.pure _

theorem reads_skipScalingLists (n i : ℕ) :
    Reads (hostReader d) (skipScalingLists n i) (skipScalingLists n i) := by
  induction n generalizing i with
  | zero => exact Reads.pure ()
  | succ n ih =>
    refine reads_whileOk ((reads_u (by omega)).bind fun present => ?_)
    exact (reads_onlyIf (reads_skipScalingList _ 8 8)).bind fun _ => ih (i+1)

theorem reads_readScaling (chroma : ℕ) :
    Reads (hostReader d) (readScaling chroma) (readScaling chroma) := by
  refine Reads.bind (Reads.ite ?_ (Reads.pure false)) fun plane => ?_
  · exact (reads_u (by omega)).bind fun flag => Reads.pure _
  · refine (reads_skip reads_ue).bind fun _ => (reads_skip reads_ue).bind fun _ => ?_
    refine (reads_skip (reads_u (by omega))).bind fun _ => (reads_u (by omega)).bind fun present => ?_
    exact (reads_onlyIf (reads_skipScalingLists _ 0)).bind fun _ => Reads.pure plane

theorem reads_readChroma (profile : ℕ) :
    Reads (hostReader d) (readChroma profile) (readChroma profile) := by
  refine Reads.ite (reads_ue.bind fun chroma => Reads.ite ?_ ?_) (Reads.pure (1,false))
  · exact reads_fail.bind fun _ => Reads.pure _
  · exact (reads_readScaling chroma).bind fun plane => Reads.pure _

theorem reads_skipCycle (n : ℕ) : Reads (hostReader d) (skipCycle n) (skipCycle n) := by
  induction n with
  | zero => exact Reads.pure ()
  | succ n ih => exact reads_whileOk ((reads_skip reads_se).bind fun _ => ih)

theorem reads_skipPoc (poc : ℕ) : Reads (hostReader d) (skipPoc poc) (skipPoc poc) := by
  refine Reads.ite (reads_skip reads_ue) (Reads.ite ?_ (Reads.pure ()))
  refine (reads_skip (reads_u (by omega))).bind fun _ => (reads_skip reads_se).bind fun _ => ?_
  exact (reads_skip reads_se).bind fun _ => reads_ue.bind fun n => reads_skipCycle n

theorem reads_readCrop (crop : ℕ) : Reads (hostReader d) (readCrop crop) (readCrop crop) := by
  refine Reads.ite ?_ (Reads.pure (0,0,0,0))
  refine reads_ue.bind fun l => reads_ue.bind fun r => ?_
  exact reads_ue.bind fun t => reads_ue.bind fun b => Reads.pure _

theorem reads_readPicture (sps : SpsSyntax) :
    Reads (hostReader d) (readPicture sps) (readPicture sps) := by
  refine (reads_skip reads_ue).bind fun _ => (reads_skip (reads_u (by omega))).bind fun _ => ?_
  refine reads_ue.bind fun w => reads_ue.bind fun h => (reads_u (by omega)).bind fun frames => ?_
  refine (reads_onlyIf (reads_skip (reads_u (by omega)))).bind fun _ => ?_
  refine (reads_skip (reads_u (by omega))).bind fun _ => (reads_u (by omega)).bind fun crop => ?_
  exact (reads_readCrop crop).bind fun offsets => Reads.pure _

/-- The host reads a sequence parameter set. -/
theorem reads_readSps : Reads (hostReader d) readSps readSps := by
  refine (reads_u (by omega)).bind fun profile => (reads_skip (reads_u (by omega))).bind fun _ => ?_
  refine (reads_u (by omega)).bind fun level => (reads_skip reads_ue).bind fun _ => ?_
  refine (reads_readChroma profile).bind fun chroma => ?_
  refine reads_ue.bind fun log2 => reads_ue.bind fun poc => ?_
  exact (reads_skipPoc poc).bind fun _ => reads_readPicture _

end Reading

variable {bits rest : List Bool}

open Grammar

theorem chroma_le_of_readChroma {profile : ℕ} {c : ℕ × Bool}
    (h : (readChroma profile : Grammar (ℕ × Bool)) bits=some (c,rest)) : c.1≤3 := by
  rw [readChroma] at h
  split at h
  · obtain ⟨chroma,mid,-,h⟩ := bind_eq_some.mp h
    split at h
    · obtain ⟨_,_,hfail,-⟩ := bind_eq_some.mp h
      cases (show (none : Option (Unit × List Bool))=some _ from hfail)
    · obtain ⟨plane,_,-,h⟩ := bind_eq_some.mp h
      obtain ⟨rfl,-⟩ := pure_eq_some.mp h
      omega
  · obtain ⟨rfl,-⟩ := pure_eq_some.mp h
    decide

theorem keeps_of_readPicture {sps s : SpsSyntax}
    (h : (readPicture sps : Grammar SpsSyntax) bits=some (s,rest)) :
    s.profileIdc=sps.profileIdc ∧ s.chroma=sps.chroma ∧
      s.separateColourPlane=sps.separateColourPlane ∧ s.poc=sps.poc := by
  simp only [readPicture,bind_eq_some,pure_eq_some] at h
  obtain ⟨_,_,-,_,_,-,_,_,-,_,_,-,_,_,-,_,_,-,_,_,-,_,_,-,_,_,-,rfl,-⟩ := h
  exact ⟨rfl,rfl,rfl,rfl⟩

theorem chroma_le_of_readSps {s : SpsSyntax}
    (h : (readSps : Grammar SpsSyntax) bits=some (s,rest)) : s.chroma≤3 := by
  simp only [readSps,bind_eq_some] at h
  obtain ⟨_,_,-,_,_,-,_,_,-,_,_,-,_,_,hchroma,_,_,-,_,_,-,_,_,-,hpic⟩ := h
  rw [(keeps_of_readPicture hpic).2.1]
  exact chroma_le_of_readChroma hchroma

/-- The bits of a payload without its emulation prevention. -/
def payloadBits : List Bool := bitsOf (removeEpb payload)

theorem at_startReader :
    (hostReader (removeEpb payload)).At (payloadBits payload) (startReader payload) :=
  at_start (removeEpb payload)

/-- The sets that the host accepts. -/
def SpsAccepted (s : SpsSyntax) : Prop :=
  4≤payload.length ∧ (∃ rest, (readSps : Grammar SpsSyntax) (payloadBits payload)=some (s,rest)) ∧
    s.SizeOk

theorem SpsAccepted.parse {payload : List Byte} {s : SpsSyntax} (h : SpsAccepted payload s) :
    parseSpsRbsp payload=spsInfoOf s := by
  obtain ⟨hlen,⟨rest,hread⟩,hsize⟩ := h
  obtain ⟨hval,hat⟩ := reads_readSps.found (at_startReader payload) hread
  have hok : ((readSps : StateM BitReader SpsSyntax) (startReader payload)).2.ok=true :=
    BitReader.At.healthy hat
  rw [parseSpsRbsp,if_neg (by omega)]
  dsimp only
  rw [hval,if_pos ⟨hok,hsize⟩]

theorem exists_accepted {payload : List Byte} (h : (parseSpsRbsp payload).valid=true) :
    ∃ s, SpsAccepted payload s := by
  rw [parseSpsRbsp] at h
  by_cases hlen : payload.length<4
  · rw [if_pos hlen] at h
    cases h
  · rw [if_neg hlen] at h
    dsimp only at h
    split at h
    · rename_i hcond
      obtain ⟨rest,hread,_⟩ := reads_readSps.of_not_failed (at_startReader payload) (by
        show ¬((readSps : StateM BitReader SpsSyntax) (startReader payload)).2.ok=false
        rw [hcond.1]
        exact Bool.noConfusion)
      exact ⟨_,Nat.le_of_not_lt hlen,⟨rest,hread⟩,hcond.2⟩
    · cases h

end Misterplex.Header
