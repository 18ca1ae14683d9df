import Misterplex.Header.SpsDelivery

/-!
# The two parsers of sequence parameter sets

The hardware never takes back a set it has shown, crops fields like frames and
has no limit on the picture size, so what it shows is what the host says only of
sets that do not touch these differences.
-/

namespace Misterplex.Header

open BitString BitGrammar Cavlc Emulation ParserText

/-- The bytes of a payload that are captured. -/
def captured (payload : List Byte) : List Byte := (removeEpb payload).take maxB

theorem payloadBits_split (payload : List Byte) :
    payloadBits payload =
      bitsOf (captured payload) ++ bitsOf ((removeEpb payload).drop maxB) := by
  rw [payloadBits,captured,← bitsOf_append,List.take_append_drop]

/-- The size passes the comparison of ST_FINISH. -/
def SpsRegs.Fits (r : SpsRegs) : Prop :=
  r.cropFlag≠0 → r.cropX<r.codedWidth ∧ r.cropY<r.codedHeight

theorem shows_finish {r : SpsRegs} (h : ¬r.Fits) : Shows r r.finish := by
  have hflag : r.cropFlag≠0 := fun hzero => h fun hne => absurd hzero hne
  have hsize : ¬(r.cropX<r.codedWidth ∧ r.cropY<r.codedHeight) := fun hlt => h fun _ => hlt
  rw [SpsRegs.finish,if_pos hflag,if_neg hsize]
  exact ⟨rfl,rfl,rfl⟩

theorem finish_eq {r : SpsRegs} (h : r.Fits) :
    r.finish.valid=true ∧
      r.finish.width=(if r.cropFlag ≠ 0 then r.codedWidth-r.cropX else r.codedWidth) ∧
      r.finish.height=(if r.cropFlag ≠ 0 then r.codedHeight-r.cropY else r.codedHeight) := by
  rw [SpsRegs.finish]
  by_cases hflag : r.cropFlag≠0
  · rw [if_pos hflag,if_pos (h hflag),if_pos hflag,if_pos hflag]
    exact ⟨rfl,rfl,rfl⟩
  · rw [if_neg hflag,if_neg hflag,if_neg hflag]
    exact ⟨rfl,rfl,rfl⟩

/-- What the parser shows after a payload. -/
inductive Outcome (p : SpsParser) (payload : List Byte) (q : SpsParser) : Prop
  /-- The capture was too short, or its syntax is not there. -/
  | kept (hshows : Shows p.regs q.regs)
    (hnone : 4≤(captured payload).length → ∃ r, walkSps r (bitsOf (captured payload))=none)
  | read (r₀ r : SpsRegs) (rest : List Bool) (hbefore : Shows p.regs r₀)
    (hlen : 4≤(captured payload).length)
    (hwalk : walkSps r₀ (bitsOf (captured payload))=some (r,rest))
    (hshows : Shows r.finish q.regs)

variable {payload : List Byte}

open SpsParser CapPort

theorem outcome_of_delivers {p q : SpsParser}
    (hst : p.walk.st = .own .idle) (h : Delivers p payload q) : Outcome p payload q := by
  obtain ⟨is,n,hbrings,hidle,rfl⟩ := h
  obtain ⟨hst₁,hshows₁,hmem₁⟩ := step_idle (i := begin) hst rfl
  obtain ⟨hst₂,hshows₂,hmem₂⟩ := run_capture hbrings hst₁ (by exact Nat.zero_le _)
  have hquiet : (SpsParser.step · quiet)=spsText.step := funext step_quiet
  rw [hquiet] at hidle ⊢
  generalize Trace.finalState SpsParser.step (p.step begin) is=m at *
  have hbefore : Shows p.regs m.regs := hshows₂.trans hshows₁
  have hcaptured : m.walk.mem=captured payload := hmem₂
  by_cases hlen : 4≤(captured payload).length
  · have hstart : m.step close=start m := by
      have hwalk : m.walkStep close=start m := by
        rw [walkStep,if_pos ⟨hst₂,rfl,by rw [hcaptured]; exact hlen⟩]
      rw [SpsParser.step,hwalk]
      rfl
    rw [hstart] at hidle ⊢
    obtain ⟨k,hend⟩ := leads_walkSps m
    have hsame := shows_of_idle hend.1 hidle
    rw [hcaptured] at hend
    cases hwalk : walkSps m.regs (bitsOf (captured payload)) with
    | none =>
      rw [hwalk] at hend
      exact .kept (hsame.trans (hend.2.trans hbefore)) fun _ => ⟨m.regs,hwalk⟩
    | some found =>
      rw [hwalk] at hend
      have hregs : (spsText.step^[k] (start m)).regs=found.1.finish := hend.2
      rw [hregs] at hsame
      exact .read m.regs found.1 found.2 hbefore hlen hwalk hsame
  · have hshort : m.step close=spsOwn .idle m := by
      have hwalk : m.walkStep close=spsOwn .idle m := by
        rw [walkStep,if_neg (by rw [hcaptured]; exact fun h => hlen h.2.2)]
        exact step_own hst₂ rfl
      rw [SpsParser.step,hwalk]
      rfl
    rw [hshort] at hidle ⊢
    have hkept := (quiet_idle (p := spsOwn .idle m) hst₂ n).2
    have hmiddle : Shows m.regs (spsOwn .idle m).regs := ⟨rfl,rfl,rfl⟩
    exact .kept (hkept.trans (hmiddle.trans hbefore)) fun h => absurd h hlen

/-- The syntax of a set is in the payload. -/
def Complete (payload : List Byte) (s : SpsSyntax) : Prop :=
  ∃ rest, (readSps : Grammar SpsSyntax) (payloadBits payload)=some (s,rest)

/-- The hardware takes the payload for a set: after reset it shows it. -/
def HardwareAccepts (payload : List Byte) : Prop :=
  ∃ q, Delivers SpsParser.reset payload q ∧ q.regs.valid=true

/-- What the two parsers have to agree on after a payload. -/
structure Agrees (payload : List Byte) (q : SpsParser) : Prop where
  /-- A set that both accept has the same size. -/
  size : (parseSpsRbsp payload).valid=true → HardwareAccepts payload →
    q.regs.width=(parseSpsRbsp payload).displayWidth ∧
      q.regs.height=(parseSpsRbsp payload).displayHeight
  /-- A set that the host refuses is not shown. -/
  refused : (parseSpsRbsp payload).valid=false → q.regs.valid=false

/-- The picture is not cropped, or its cropping is below its size in the 16 bits of the hardware. -/
def SpsSyntax.HardwareFits (s : SpsSyntax) : Prop :=
  (s.l+s.r+s.t+s.b=0) ∨
    ((s.l+s.r)*2%65536<s.codedW%65536 ∧ (s.t+s.b)*2%65536<s.codedH%65536)

/-- A payload that does not touch the differences of the parsers, with what is shown before it. -/
structure Untouched (shown : Bool) (payload : List Byte) : Prop where
  /-- Its profile is plain, or one that the hardware refuses. -/
  head : PlainHead (payloadBits payload)
  /-- Pictures of two fields have no rows cropped. -/
  fields : ∀ s, SpsAccepted payload s → s.profileIdc ∉ refusedProfiles → s.poc≠1 →
    s.frameMbsOnly=0 → s.t+s.b=0
  first : (∀ s, ¬SpsAccepted payload s) → shown=false
  /-- A size that the host refuses does not pass in the hardware. -/
  limit : ∀ s, Complete payload s → s.profileIdc ∉ refusedProfiles → s.poc≠1 → ¬s.SizeOk →
    ¬s.HardwareFits

variable {r₀ r : SpsRegs} {s : SpsSyntax}

theorem Holds.cropX (h : Holds r₀ r s) (hflag : r.cropFlag≠0) :
    r.cropX=(s.l+s.r)*2%65536 := by
  rw [SpsRegs.cropX,h.crop.left hflag,h.crop.right hflag]
  dsimp only
  omega

theorem Holds.cropY (h : Holds r₀ r s) (hflag : r.cropFlag≠0) :
    r.cropY=(s.t+s.b)*2%65536 := by
  rw [SpsRegs.cropY,h.crop.top hflag,h.crop.bottom hflag]
  dsimp only
  omega

open SpsSyntax

theorem Holds.codedWidth (h : Holds r₀ r s) : r.codedWidth=s.codedW%65536 := by
  rw [SpsRegs.codedWidth,h.width,codedW]
  omega

theorem Holds.codedHeight (h : Holds r₀ r s) : r.codedHeight=s.codedH%65536 := by
  rw [SpsRegs.codedHeight,h.height,h.frames,codedH]
  split
  · omega
  · omega

theorem Holds.hardwareFits (h : Holds r₀ r s) (hfits : r.Fits) : s.HardwareFits := by
  by_cases hflag : r.cropFlag=0
  · have hnone := h.crop.none hflag
    simp only [Prod.mk.injEq] at hnone
    left
    omega
  · right
    have hlt := hfits hflag
    rw [h.cropX hflag,h.cropY hflag,h.codedWidth,h.codedHeight] at hlt
    exact hlt

/-- A set of a valid size whose fields have no rows cropped is shown with the host's size. -/
theorem Holds.finish (h : Holds r₀ r s) (hwalk : Walkable s) (hsize : s.SizeOk)
    (hfields : s.frameMbsOnly=0 → s.t+s.b=0) :
    r.finish.valid=true ∧ r.finish.width=s.codedW-s.cropXPixels ∧
      r.finish.height=s.codedH-s.cropYPixels := by
  obtain ⟨-,-,hx,hy,hw,hh⟩ := hsize
  have hplanes : s.chromaArrayType=1 := by
    rw [chromaArrayType,hwalk.planes,if_neg Bool.false_ne_true,hwalk.chroma]
  have hcropX : s.cropXPixels=(s.l+s.r)*2 := by
    rw [cropXPixels,cropUnitX,if_pos hplanes]
  have hcropY : s.cropYPixels=(s.t+s.b)*2 := by
    rw [cropYPixels,cropUnitY,if_pos hplanes]
    by_cases hframe : s.frameMbsOnly=0
    · rw [hfields hframe,Nat.zero_mul,Nat.zero_mul]
    · have hone : s.frameMbsOnly=1 := by
        have hbit := h.bit
        omega
      rw [hone]
  rw [hcropY] at hy ⊢
  have hwidth : r.codedWidth=s.codedW := h.codedWidth.trans (Nat.mod_eq_of_lt (by omega))
  have hheight : r.codedHeight=s.codedH := h.codedHeight.trans (Nat.mod_eq_of_lt (by omega))
  by_cases hflag : r.cropFlag=0
  · have hnone := h.crop.none hflag
    simp only [Prod.mk.injEq] at hnone
    obtain ⟨hvalid,hfw,hfh⟩ := finish_eq (r := r) fun hne => absurd hflag hne
    rw [if_neg (not_not.mpr hflag)] at hfw hfh
    exact ⟨hvalid,by omega,by omega⟩
  · have hcx : r.cropX=(s.l+s.r)*2 := (h.cropX hflag).trans (Nat.mod_eq_of_lt (by omega))
    have hcy : r.cropY=(s.t+s.b)*2 := (h.cropY hflag).trans (Nat.mod_eq_of_lt (by omega))
    obtain ⟨hvalid,hfw,hfh⟩ := finish_eq (r := r) fun _ => ⟨by omega,by omega⟩
    rw [if_pos hflag] at hfw hfh
    exact ⟨hvalid,by omega,by omega⟩

theorem complete_of_walk {rest : List Bool} (hplain : PlainHead (payloadBits payload))
    (h : walkSps r₀ (bitsOf (captured payload))=some (r,rest)) :
    ∃ s, Complete payload s ∧ Walkable s ∧ Holds r₀ r s := by
  have hsplit := payloadBits_split payload
  rw [hsplit] at hplain
  obtain ⟨s,hs,hwalkable,hholds⟩ := holds_of_walkSps _ hplain h
  exact ⟨s,⟨_,hsplit ▸ hs⟩,hwalkable,hholds⟩

theorem Complete.unique {s s' : SpsSyntax} (h : Complete payload s)
    (h' : Complete payload s') : s=s' := by
  obtain ⟨rest,hs⟩ := h
  obtain ⟨rest',hs'⟩ := h'
  rw [hs,Option.some.injEq,Prod.mk.injEq] at hs'
  exact hs'.1

/-- A payload that the hardware takes for a set is walked over from any registers. -/
theorem walk_of_accepts (h : HardwareAccepts payload) (r₀ : SpsRegs) :
    4≤(captured payload).length ∧ ∃ r rest, walkSps r₀ (bitsOf (captured payload))=some (r,rest) := by
  obtain ⟨q,hq,hvalid⟩ := h
  cases outcome_of_delivers rfl hq with
  | kept hshows _ =>
    rw [hshows.1] at hvalid
    cases hvalid
  | read r₁ r rest _ hlen hwalk _ =>
    obtain ⟨r',hr',-⟩ := alike_walkSps r₁ r₀ _ _ [] _ hwalk
    rw [List.append_nil] at hr'
    exact ⟨hlen,r',_,hr'⟩

theorem idle_of_run {payloads : List (List Byte)} {p : SpsParser}
    (h : Trace.Run Delivers SpsParser.reset payloads p) : p.walk.st = .own .idle :=
  h.invariant (P := fun p => p.walk.st = .own .idle) (fun _ _ _ _ hstep => by
    obtain ⟨_,_,-,hidle,-⟩ := hstep
    exact hidle) rfl

/-- In any sequence of payloads, the two parsers agree on a payload that does not touch their
differences. -/
theorem spsParsers_agree {payloads : List (List Byte)} {payload : List Byte} {p q : SpsParser}
    (hrun : Trace.Run Delivers SpsParser.reset payloads p) (hnext : Delivers p payload q)
    (huntouched : Untouched p.regs.valid payload) : Agrees payload q := by
  have hout := outcome_of_delivers (idle_of_run hrun) hnext
  constructor
  · intro hhost haccepts
    obtain ⟨s,hs⟩ := exists_accepted hhost
    rw [hs.parse]
    obtain ⟨hlen,hany⟩ := walk_of_accepts haccepts p.regs
    cases hout with
    | kept _ hnone =>
      obtain ⟨r₁,hr₁⟩ := hnone hlen
      obtain ⟨r,rest,hr⟩ := (walk_of_accepts haccepts r₁).2
      rw [hr₁] at hr
      cases hr
    | read r₀ r rest _ _ hwalk hshows =>
      obtain ⟨s',hs',hwalkable,hholds⟩ := complete_of_walk huntouched.head hwalk
      obtain rfl := Complete.unique hs' hs.2.1
      have hfields := huntouched.fields s' hs hwalkable.profile hwalkable.poc
      obtain ⟨-,hwidth,hheight⟩ := hholds.finish hwalkable hs.2.2 hfields
      exact ⟨hshows.2.1.trans hwidth,hshows.2.2.trans hheight⟩
  · intro hhost
    have hnot : ∀ s, ¬SpsAccepted payload s := by
      intro s hs
      rw [hs.parse] at hhost
      cases hhost
    have hbefore := huntouched.first hnot
    cases hout with
    | kept hshows _ => exact hshows.1.trans hbefore
    | read r₀ r rest hshown hlen hwalk hshows =>
      obtain ⟨s,hs,hwalkable,hholds⟩ := complete_of_walk huntouched.head hwalk
      have hlong : 4≤payload.length := by
        have hcaptured : (captured payload).length≤(removeEpb payload).length := by
          rw [captured,List.length_take]
          exact Nat.min_le_right _ _
        have hremoved := length_removeEpb_le payload
        omega
      have hsize : ¬s.SizeOk := fun hok => hnot s ⟨hlong,hs,hok⟩
      have hlimit := huntouched.limit s hs hwalkable.profile hwalkable.poc hsize
      have hkept := shows_finish fun hfits => hlimit (hholds.hardwareFits hfits)
      rw [hshows.1,hkept.1,hholds.shows.1,hshown.1,hbefore]

/-- A payload that comes byte after byte, with a number of clocks behind it. -/
def feed (p : SpsParser) (payload : List Byte) (n : ℕ) : SpsParser :=
  (SpsParser.step · CapPort.quiet)^[n]
    ((Trace.finalState SpsParser.step (p.step CapPort.begin)
      ((removeEpb payload).map fun b => ⟨false,true,b,false⟩)).step CapPort.close)

theorem delivers_feed {p : SpsParser} {n : ℕ}
    (h : (feed p payload n).walk.st = .own .idle) : Delivers p payload (feed p payload n) :=
  ⟨_,n,brings_bytes (removeEpb payload),h,rfl⟩

/-- Frames of 320 by 240 samples. -/
def smallSet : List Byte := [0x42,0x00,0x1E,0xDA,0x05,0x07,0xE4]

/-- Frames of 636 by 472 samples, cropped from 640 by 480. -/
def croppedSet : List Byte := [0x42,0x00,0x1E,0xDA,0x02,0x80,0xF7,0x79,0x50]

/-- Fields of frames of 1920 by 1080 samples, cropped from 1920 by 1088. -/
def interlacedSet : List Byte := [0x4D,0x00,0x28,0xDA,0x01,0xE0,0x11,0x1F,0x68]

theorem untouched_croppedSet (shown : Bool) : Untouched shown croppedSet := by
  have hvalid : (parseSpsRbsp croppedSet).valid=true := by decide +kernel
  have hhead : (readHead (payloadBits croppedSet)).map Prod.fst=some (66,2) := by decide
  have hframes : ((readSps : Grammar SpsSyntax) (payloadBits croppedSet)).map
      (fun p => p.1.frameMbsOnly)=some 1 := by decide
  obtain ⟨s₀,haccepted⟩ := exists_accepted hvalid
  constructor
  · intro profile poc rest hread
    rw [hread,Option.map_some,Option.some.injEq,Prod.mk.injEq] at hhead
    rw [hhead.1,hhead.2]
    exact Or.inr ⟨by decide,Or.inl (by decide)⟩
  · intro s hs _ _ hzero
    obtain ⟨-,⟨rest,hread⟩,-⟩ := hs
    rw [hread,Option.map_some,Option.some.injEq,hzero] at hframes
    cases hframes
  · intro hnone
    exact absurd haccepted (hnone s₀)
  · intro s hs _ _ hsize
    rw [hs.unique haccepted.2.1] at hsize
    exact absurd haccepted.2.2 hsize

/-- The two parsers agree on a cropped set behind another one. -/
theorem spsParsers_agree_cropped :
    Agrees croppedSet (feed (feed SpsParser.reset smallSet 100) croppedSet 120) := by
  have hfirst : (feed reset smallSet 100).walk.st = .own .idle := by decide +kernel
  have hnext : (feed (feed reset smallSet 100) croppedSet 120).walk.st = .own .idle := by
    decide +kernel
  exact spsParsers_agree (.cons (delivers_feed hfirst) (.nil _)) (delivers_feed hnext)
    (untouched_croppedSet _)

/-- The hardware shows four rows too many of a picture of two fields. -/
theorem not_spsParsers_agree :
    ¬∀ (payloads : List (List Byte)) (payload : List Byte) (p q : SpsParser),
      Trace.Run Delivers SpsParser.reset payloads p → Delivers p payload q → Agrees payload q := by
  intro h
  have hidle : (feed reset interlacedSet 120).walk.st = .own .idle := by decide +kernel
  have hshown : (feed reset interlacedSet 120).regs.valid=true := by decide +kernel
  have hheight : (feed reset interlacedSet 120).regs.height=1084 := by decide +kernel
  have hvalid : (parseSpsRbsp interlacedSet).valid=true := by decide +kernel
  have hdisplay : (parseSpsRbsp interlacedSet).displayHeight=1080 := by decide +kernel
  have hdelivers := delivers_feed hidle
  have hsize := (h [] interlacedSet _ _ (.nil _) hdelivers).size hvalid ⟨_,hdelivers,hshown⟩
  rw [hheight,hdisplay] at hsize
  exact absurd hsize.2 (by decide)

end Misterplex.Header
