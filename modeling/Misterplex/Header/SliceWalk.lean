import Misterplex.Header.SliceParser

/-!
# The slice header that is walked

The syntax of a slice header as the hardware walks over it, with the registers
that hold what was read. A walk ends before the first macroblock, behind the
code of its type, or stops at adaptive marking of references.
-/

namespace Misterplex.Header

open BitString BitGrammar Cavlc Emulation ParserText

/-- The registers and the code behind the header, or nothing when the walk stops before it. -/
abbrev HeaderEnd := SliceRegs × Option ℕ

variable (r : SliceRegs)

/-- Before ST_MBT. -/
def beforeMbt (v : ℕ) : Grammar HeaderEnd := pure (r,some v)

/-- Behind ST_BETA. -/
def afterBeta (v : ℕ) : Grammar HeaderEnd :=
  walkUe >>= beforeMbt (r.withOut { r.out with
    betaDiv2 := low5 (seOf v), beta := filterOffsetOfDiv2 (seOf v) })

/-- Behind ST_ALPHA. -/
def afterAlpha (v : ℕ) : Grammar HeaderEnd :=
  walkUe >>= afterBeta (r.withOut { r.out with
    alphaDiv2 := low5 (seOf v), alpha := filterOffsetOfDiv2 (seOf v) })

/-- Behind ST_DIDC. -/
def afterDidc (v : ℕ) : Grammar HeaderEnd :=
  if v ≠ 1 then walkUe >>= afterAlpha (r.withOut { r.out with disableDeblockingFilterIdc := v%4 })
  else walkUe >>= beforeMbt (r.withOut { r.out with disableDeblockingFilterIdc := v%4 })

/-- Behind ST_QPD. -/
def afterQpd (v : ℕ) : Grammar HeaderEnd :=
  if r.lat.db then walkUe >>= afterDidc (r.withOut (r.out.setQp r.lat.initQp (seOf v)))
  else walkUe >>= beforeMbt (r.withOut (r.out.setQp r.lat.initQp (seOf v)))

/-- Before ST_QPD. -/
def beforeQpd : Grammar HeaderEnd := walkUe >>= afterQpd r

/-- Behind ST_NIDR_REFMARK. -/
def afterNidrRefmark (v : ℕ) : Grammar HeaderEnd :=
  if v%2 = 1 then pure (r,none) else beforeQpd r

/-- Before the marking of references. -/
def beforeMarking : Grammar HeaderEnd :=
  if r.lat.nalRef then Grammar.field 1 >>= afterNidrRefmark r else beforeQpd r

/-- Behind ST_REFIDX_L0. -/
def afterRefidxL0 (_ : ℕ) : Grammar HeaderEnd := beforeMarking r

/-- Behind ST_REFIDX_FLAG. -/
def afterRefidxFlag (v : ℕ) : Grammar HeaderEnd :=
  if v%2 = 1 then walkUe >>= afterRefidxL0 r else beforeMarking r

/-- Behind ST_REFMARK. -/
def afterRefmark (_ : ℕ) : Grammar HeaderEnd := beforeQpd r

/-- Behind ST_IDR. -/
def afterIdr (v : ℕ) : Grammar HeaderEnd :=
  Grammar.field 2 >>= afterRefmark (r.withOut { r.out with idrPicId := v })

/-- Behind ST_FN, with the registers that hold the frame number. -/
def behindFn : Grammar HeaderEnd :=
  if r.lat.idr then walkUe >>= afterIdr r
  else if isPSliceType r.out.sliceType then Grammar.field 1 >>= afterRefidxFlag r
  else beforeMarking r

/-- Behind ST_FN. -/
def afterFn (v : ℕ) : Grammar HeaderEnd :=
  behindFn (r.withOut { r.out with frameNum := v })

/-- Behind ST_PPS. -/
def afterPps (v : ℕ) : Grammar HeaderEnd :=
  Grammar.field r.lat.log2 >>= afterFn (r.withOut { r.out with ppsId := v%256 })

/-- Behind ST_TYPE. -/
def afterType (v : ℕ) : Grammar HeaderEnd :=
  walkUe >>= afterPps (r.withOut { r.out with
    sliceType := v%256, isISlice := isISliceType (v%256) })

/-- Behind ST_FIRST. -/
def afterFirst (v : ℕ) : Grammar HeaderEnd :=
  walkUe >>= afterType (r.withOut { r.out with firstMb := v })

/-- The syntax of a slice header. -/
def walkSlice : Grammar HeaderEnd := walkUe >>= afterFirst r

/-- What the registers keep in the header. -/
structure InHeader (r : SliceRegs) : Prop where
  pulse : r.place.pulse=false
  valid : r.valid=false
  /-- The frame number has a bit. -/
  low : 1≤r.lat.log2
  /-- The frame number has at most sixteen bits. -/
  high : r.lat.log2≤16

/-- Where the parser stands at the end of a header. -/
def SliceEnd (result : Option (HeaderEnd × List Bool)) (q : SliceParser) : Prop :=
  InHeader q.regs ∧
    match result with
    | some ((r,some v),bits) =>
      q.walk.st = .own .mbt ∧ q.regs=r ∧ q.walk.ueVal=v ∧ q.walk.At q.walk.mem bits
    | some ((r,none),_) => q.walk.st = .own .done ∧ q.regs=r
    | none => q.walk.st = .own .fail

theorem sliceTick_eq {r : SliceRegs} (h : r.place.pulse=false) : sliceTick r=r := by
  obtain ⟨valid,busy,lat,out,mb,res,⟨pulse,ok,tc,t1,dc,qp,coeff⟩,work⟩ := r
  obtain rfl : pulse=false := h
  rfl

/-- The way from the end of a capture to the end of the header. -/
def sliceCourse : Course sliceText HeaderEnd where
  Keeps := InHeader
  End := SliceEnd
  tick := fun h => sliceTick_eq h.pulse
  fails := fun hst hkeeps => Leads.here ⟨hkeeps,hst⟩

variable {p : SliceParser} {d : List Byte} {bits : List Bool}

theorem InHeader.withOut {r : SliceRegs} (h : InHeader r) (out : SliceOut) :
    InHeader (r.withOut out) := ⟨h.pulse,h.valid,h.low,h.high⟩

/-- A clock in the header. -/
theorem step_header {s : SliceSt} (hst : p.walk.st = .own s) (hpart : s.part = .header)
    (hkeeps : InHeader p.regs) : sliceText.step p=headerOwn s p := by
  rw [step_own hst (sliceTick_eq hkeeps.pulse)]
  show sliceOwn s p=headerOwn s p
  rw [sliceOwn,hpart]

open Leads

theorem follows_mbt : FollowsUe sliceCourse .mbt beforeMbt := by
  intro p d bits hst hkeeps hat
  have hmem : p.walk.At p.walk.mem bits := by
    rw [hat.buffer]
    exact hat
  exact here ⟨hkeeps,hst,rfl,rfl,hmem⟩

theorem follows_beta : FollowsUe sliceCourse .beta afterBeta := by
  intro p d bits hst hkeeps hat
  exact next_eq (step_header hst rfl hkeeps)
    (FollowsUe.start follows_mbt rfl (hkeeps.withOut _) hat)

theorem follows_alpha : FollowsUe sliceCourse .alpha afterAlpha := by
  intro p d bits hst hkeeps hat
  exact next_eq (step_header hst rfl hkeeps)
    (FollowsUe.start follows_beta rfl (hkeeps.withOut _) hat)

theorem follows_didc : FollowsUe sliceCourse .didc afterDidc := by
  intro p d bits hst hkeeps hat
  refine next_eq (step_header hst rfl hkeeps) ?_
  rw [afterDidc,headerOwn]
  by_cases hone : p.walk.ueVal≠1
  · rw [if_pos hone,if_pos hone]
    exact FollowsUe.start follows_alpha rfl (hkeeps.withOut _) hat
  · rw [if_neg hone,if_neg hone]
    exact FollowsUe.start follows_mbt rfl (hkeeps.withOut _) hat

theorem follows_qpd : FollowsUe sliceCourse .qpd afterQpd := by
  intro p d bits hst hkeeps hat
  refine next_eq (step_header hst rfl hkeeps) ?_
  rw [afterQpd,headerOwn]
  by_cases hdb : p.regs.lat.db=true
  · rw [if_pos hdb,if_pos hdb]
    exact FollowsUe.start follows_didc rfl (hkeeps.withOut _) hat
  · rw [if_neg hdb,if_neg hdb]
    exact FollowsUe.start follows_mbt rfl (hkeeps.withOut _) hat

theorem leads_toQpd (hkeeps : InHeader p.regs) (hat : p.walk.At d bits) :
    Leads sliceText.step p.toQpd (SliceEnd (beforeQpd p.regs bits)) :=
  FollowsUe.start follows_qpd rfl hkeeps hat

theorem follows_nidrRefmark : FollowsField sliceCourse 1 .nidrRefmark afterNidrRefmark := by
  intro p d bits hst hkeeps _ hat
  refine next_eq (step_header hst rfl hkeeps) ?_
  rw [afterNidrRefmark,headerOwn]
  by_cases hadaptive : p.walk.acc%2=1
  · rw [if_pos hadaptive,if_pos hadaptive]
    exact here ⟨hkeeps,rfl,rfl⟩
  · rw [if_neg hadaptive,if_neg hadaptive]
    exact leads_toQpd hkeeps hat

theorem leads_toMarking (hkeeps : InHeader p.regs) (hat : p.walk.At d bits) :
    Leads sliceText.step p.toMarking (SliceEnd (beforeMarking p.regs bits)) := by
  rw [SliceParser.toMarking,beforeMarking]
  by_cases href : p.regs.lat.nalRef=true
  · rw [if_pos href,if_pos href]
    exact FollowsField.start follows_nidrRefmark (by omega) (by omega) rfl hkeeps hat
  · rw [if_neg href,if_neg href]
    exact leads_toQpd hkeeps hat

theorem follows_refidxL0 : FollowsUe sliceCourse .refidxL0 afterRefidxL0 := by
  intro p d bits hst hkeeps hat
  exact next_eq (step_header hst rfl hkeeps) (leads_toMarking hkeeps hat)

theorem follows_refidxFlag : FollowsField sliceCourse 1 .refidxFlag afterRefidxFlag := by
  intro p d bits hst hkeeps _ hat
  refine next_eq (step_header hst rfl hkeeps) ?_
  rw [afterRefidxFlag,headerOwn]
  by_cases hflag : p.walk.acc%2=1
  · rw [if_pos hflag,if_pos hflag]
    exact FollowsUe.start follows_refidxL0 rfl hkeeps hat
  · rw [if_neg hflag,if_neg hflag]
    exact leads_toMarking hkeeps hat

theorem follows_refmark : FollowsField sliceCourse 2 .refmark afterRefmark := by
  intro p d bits hst hkeeps _ hat
  exact next_eq (step_header hst rfl hkeeps) (leads_toQpd hkeeps hat)

theorem follows_idr : FollowsUe sliceCourse .idr afterIdr := by
  intro p d bits hst hkeeps hat
  exact next_eq (step_header hst rfl hkeeps)
    (FollowsField.start follows_refmark (by omega) (by omega) rfl (hkeeps.withOut _) hat)

theorem leads_behindFn (hkeeps : InHeader p.regs) (hat : p.walk.At d bits) :
    Leads sliceText.step
      (if p.regs.lat.idr then { p with walk := p.walk.startUe .idr }
        else if isPSliceType p.regs.out.sliceType then
          { p with walk := p.walk.startBits 1 .refidxFlag }
        else p.toMarking)
      (SliceEnd (behindFn p.regs bits)) := by
  rw [behindFn]
  by_cases hidr : p.regs.lat.idr=true
  · rw [if_pos hidr,if_pos hidr]
    exact FollowsUe.start follows_idr rfl hkeeps hat
  · rw [if_neg hidr,if_neg hidr]
    by_cases hp : isPSliceType p.regs.out.sliceType=true
    · rw [if_pos hp,if_pos hp]
      exact FollowsField.start follows_refidxFlag (by omega) (by omega) rfl hkeeps hat
    · rw [if_neg hp,if_neg hp]
      exact leads_toMarking hkeeps hat

theorem follows_fn (n : ℕ) : FollowsField sliceCourse n .fn afterFn := by
  intro p d bits hst hkeeps _ hat
  exact next_eq (step_header hst rfl hkeeps)
    (leads_behindFn
      (p := ⟨p.walk,p.regs.withOut { p.regs.out with frameNum := p.walk.acc }⟩)
      (hkeeps.withOut _) hat)

theorem follows_pps : FollowsUe sliceCourse .pps afterPps := by
  intro p d bits hst hkeeps hat
  exact next_eq (step_header hst rfl hkeeps)
    (FollowsField.start (follows_fn p.regs.lat.log2) hkeeps.low hkeeps.high rfl
      (hkeeps.withOut _) hat)

theorem follows_type : FollowsUe sliceCourse .type afterType := by
  intro p d bits hst hkeeps hat
  exact next_eq (step_header hst rfl hkeeps)
    (FollowsUe.start follows_pps rfl (hkeeps.withOut _) hat)

theorem follows_first : FollowsUe sliceCourse .first afterFirst := by
  intro p d bits hst hkeeps hat
  exact next_eq (step_header hst rfl hkeeps)
    (FollowsUe.start follows_type rfl (hkeeps.withOut _) hat)

/-- From its start the parser comes to the end of the header of what was captured. -/
theorem leads_walkSlice {p : SliceParser} {i : SlicePort} (hkeeps : InHeader (p.start i).regs) :
    Leads sliceText.step (p.start i)
      (SliceEnd (walkSlice (p.start i).regs (bitsOf p.walk.mem))) := by
  have hat : Walk.At p.walk.mem (bitsOf p.walk.mem) { p.walk with bbyte := 0, bpos := 7 } :=
    ⟨rfl,le_refl 7,by dsimp only; rw [length_bitsOf]; omega,rfl⟩
  exact FollowsUe.start follows_first (p := ⟨{ p.walk with bbyte := 0, bpos := 7 },p.regs⟩) rfl
    hkeeps hat

end Misterplex.Header
