import Misterplex.Stream.HeaderPath

/-!
# Every header once

Along every run in which the parsers keep up with the pulses at their ports, what
they have shown and are about to show is what the units make of them one after
another. How the bytes are spaced does not occur in it.
-/

namespace Misterplex.Stream

open Emulation Trace Header
open NaluScanner (ScanRegs CapTarget clearPulses)
open UnitCapture (nextRegs)

variable (bitFeed : Bool) {w : HeaderWorld} {i : PathInput}

/-- What holds throughout a run: where the bytes are, what the pulses at the ports are, and what
each parser comes to. -/
structure Parsing (w : HeaderWorld) : Prop where
  shallow : Shallow w.parts.path
  /-- At most one byte makes the pulses. -/
  one : w.taken.length≤1
  ports : w.parts.scan=w.taken.foldl nextRegs (clearPulses (scanOf w.heard).regs)
  /-- What has been shown, and where the bytes are. -/
  order : ParsedInOrder w
  /-- The parser of sequence parameter sets. -/
  sps : spsSet.Follows w.parts.sps (parsed (unitsOf w.heard)).sps
    ((scanOf w.heard).captures.held .sps)
  /-- The parser of picture parameter sets. -/
  pps : ppsSet.Follows w.parts.pps (parsed (unitsOf w.heard)).pps
    ((scanOf w.heard).captures.held .pps)
  slice : SliceFollows w.parts.slice (parsed (unitsOf w.heard)).slice
    ((scanOf w.heard).captures.held .slice)

theorem restarts_of_kept {s : StreamPath} (h : Kept s i) : restarts i=false := by
  have hflush := h.2
  unfold bfWrFlush at hflush
  rw [Bool.or_eq_false_iff] at hflush
  rw [restarts,h.1,hflush.2]
  rfl

theorem hear_silent {c : Captures} {r : ScanRegs} (h : ∀ t, Silent (portOf r t)) : c.hear r=c := by
  have hheld : (c.hear r).held=c.held := funext fun t => heldAfter_silent (h t) _
  have hunits : (c.hear r).units=c.units := by
    rw [Captures.hear,ending_of_not (h .sps).finish,ending_of_not (h .pps).finish,
      ending_of_not (h .slice).finish]
    exact List.append_nil _
  exact congrArg₂ Captures.mk hheld hunits

/-- The pulses at the ports are those of the scan, and hearing them goes on with it. -/
theorem Parsing.pulses (h : Parsing w) :
    Pulses (scanOf w.heard).captures.held w.parts.scan ∧
      (scanOf (w.heard ++ w.taken)).captures=(scanOf w.heard).captures.hear w.parts.scan ∧
      clearPulses w.parts.scan=clearPulses (scanOf (w.heard ++ w.taken)).regs := by
  have hports := h.ports
  have hone := h.one
  cases htaken : w.taken with
  | nil =>
    rw [htaken,List.foldl_nil] at hports
    have hsilent : ∀ t, Silent (portOf w.parts.scan t) := by
      rw [hports]
      exact silent_clearPulses _
    rw [hear_silent hsilent,List.append_nil,hports]
    exact ⟨Pulses.silent (hports ▸ hsilent),rfl,rfl⟩
  | cons b rest =>
    rw [htaken,List.length_cons] at hone
    have hnil : rest=[] := List.eq_nil_of_length_eq_zero (by omega)
    subst hnil
    rw [htaken,List.foldl_cons,List.foldl_nil] at hports
    have hregs : w.parts.scan=nextRegs (scanOf w.heard).regs b := hports
    rw [scanOf_concat,hregs]
    exact ⟨((sound_scanOf w.heard).next b).2,rfl,rfl⟩

theorem Parsing.ports_next (h : Parsing w) (hgoes : restarts i=false) :
    (w.parts.step bitFeed i).scan =
      (readByte w.parts.path).foldl nextRegs
        (clearPulses (scanOf (w.heard ++ w.taken)).regs) := by
  have hscan : (w.parts.step bitFeed i).scan=afterRead w.parts.path := regs_next bitFeed hgoes
  obtain ⟨-,-,hquiet⟩ := h.pulses
  rw [hscan,← hquiet,afterRead,readByte]
  cases w.parts.path.scan.dataValid with
  | true => rfl
  | false => rfl

theorem Parsing.carried_next (h : Parsing w) (hkept : Kept w.parts.path i) :
    w.heard ++ w.taken ++ readByte w.parts.path ++ readByte (Stream.step bitFeed w.parts.path i) ++
        (Stream.step bitFeed w.parts.path i).fifo.ring.contents =
      w.written ++ wireByte w.parts.path := by
  have hmoves := fifo_moves bitFeed h.shallow hkept
  have hcarried := h.order.carried
  rw [readByte_step bitFeed hkept,List.append_assoc,hmoves,← List.append_assoc,hcarried]

/-- One clock keeps the parsers in step with the units. -/
theorem Parsing.step (h : Parsing w) (hkept : Kept w.parts.path i) (hkeeps : KeepsUp w.parts) :
    Parsing (w.step bitFeed i) := by
  have hgoes := restarts_of_kept hkept
  obtain ⟨hpulses,hcaptures,-⟩ := h.pulses
  have hon : ¬restarts i=true := by
    rw [hgoes]
    exact Bool.false_ne_true
  have hunits : unitsOf (w.heard ++ w.taken) =
      ((scanOf w.heard).captures.hear w.parts.scan).units := by rw [unitsOf,hcaptures]
  have hsps := SetParser.Follows.hears (S := spsSet) (t := .sps) (r := w.parts.scan) Parsers.sps
    (by decide)
    (fun P u hu => by rw [Parsers.parse,hu]; rfl)
    (fun P u hu => by
      rw [Parsers.parse]
      cases hcase : u.target with
      | sps => exact absurd hcase hu
      | _ => rfl)
    hpulses hkeeps.spsClear hkeeps.spsEnd h.sps h.order.sps
  have hpps := SetParser.Follows.hears (S := ppsSet) (t := .pps) (r := w.parts.scan) Parsers.pps
    (by decide)
    (fun P u hu => by rw [Parsers.parse,hu]; rfl)
    (fun P u hu => by
      rw [Parsers.parse]
      cases hcase : u.target with
      | pps => exact absurd hcase hu
      | _ => rfl)
    hpulses hkeeps.ppsClear hkeeps.ppsEnd h.pps h.order.pps
  have hsettled : ∀ {σ ρ : Type} [DecidableEq σ] [DecidableEq ρ] {S : SetParser σ ρ}
      {p want : Parser σ ρ} {held : Option (List Byte)}, S.Follows p want held →
      (S.settle p).regs=want.regs := by
    intro σ ρ _ _ S p want held hfollows
    rw [hfollows.settles]
    cases held <;> rfl
  have hspsRegs : (settleSps w.parts.sps).regs=(parsed (unitsOf w.heard)).sps.regs :=
    hsettled h.sps
  have hppsRegs : (settlePps w.parts.pps).regs=(parsed (unitsOf w.heard)).pps.regs :=
    hsettled h.pps
  have hslice := h.slice.hears (i := w.parts.sliceWires w.parts.sps.regs w.parts.pps.regs.out) rfl
    hpulses hkeeps.sliceClear hkeeps.sliceEnd
    (fun cap => by rw [hspsRegs,hppsRegs]; rfl) h.order.slice
  have hnext : w.step bitFeed i =
      { parts := w.parts.step bitFeed i
        written := w.written ++ wireByte w.parts.path
        heard := w.heard ++ w.taken
        taken := readByte w.parts.path
        spsShown := w.spsShown ++ cameToRest spsText w.parts.sps (w.parts.step bitFeed i).sps
        ppsShown := w.ppsShown ++ cameToRest ppsText w.parts.pps (w.parts.step bitFeed i).pps
        sliceShown :=
          w.sliceShown ++ cameToRest sliceText w.parts.slice (w.parts.step bitFeed i).slice } :=
    if_neg hon
  have hspsStep : (w.parts.step bitFeed i).sps=spsSet.clock w.parts.sps (capWires w.parts.scan.sps) :=
    if_neg hon
  have hppsStep : (w.parts.step bitFeed i).pps=ppsSet.clock w.parts.pps (capWires w.parts.scan.pps) :=
    if_neg hon
  have hsliceStep : (w.parts.step bitFeed i).slice =
      w.parts.slice.step (w.parts.sliceWires w.parts.sps.regs w.parts.pps.regs.out) := if_neg hon
  rw [hnext]
  constructor
  case shallow => exact h.shallow.step bitFeed i
  case one =>
    unfold readByte
    split
    · exact Nat.le_refl 1
    · exact Nat.zero_le 1
  case ports => exact h.ports_next bitFeed hgoes
  case order =>
    constructor
    case carried => exact h.carried_next bitFeed hkept
    case sps =>
      rw [hspsStep,hunits]
      exact hsps.2
    case pps =>
      rw [hppsStep,hunits]
      exact hpps.2
    case slice =>
      rw [hsliceStep,hunits]
      exact hslice.2
  case sps =>
    rw [hspsStep,hunits,hcaptures]
    exact hsps.1
  case pps =>
    dsimp only
    rw [hppsStep,hunits,hcaptures]
    exact hpps.1
  case slice =>
    rw [hsliceStep,hunits,hcaptures]
    exact hslice.1

theorem parsing_restart (w : HeaderWorld) (h : restarts i=true) : Parsing (w.step bitFeed i) := by
  have hnext : w.step bitFeed i=⟨w.parts.step bitFeed i,[],[],[],[],[],[]⟩ := if_pos h
  have hclear : (i.reset || bfWrFlush w.parts.path i)=true := by
    unfold restarts at h
    unfold bfWrFlush
    cases hreset : i.reset with
    | true => rfl
    | false =>
      rw [hreset,Bool.false_or] at h
      simp [h]
  have hzero : (Stream.step bitFeed w.parts.path i).fifo.ring.level.toNat=0 :=
    BitstreamFifo.level_clear hclear
  have hscan : (Stream.step bitFeed w.parts.path i).scan=NaluScanner.cleared := if_pos h
  have hsps : (w.parts.step bitFeed i).sps=SpsParser.reset := if_pos h
  have hpps : (w.parts.step bitFeed i).pps=PpsParser.reset := if_pos h
  have hslice : (w.parts.step bitFeed i).slice=SliceParser.reset := if_pos h
  have hspsStill : Still spsText.step SpsParser.reset := rfl
  have hppsStill : Still ppsText.step PpsParser.reset := rfl
  have hsliceStill : Still sliceText.step SliceParser.reset := rfl
  rw [hnext]
  constructor
  case shallow =>
    constructor
    · show (Stream.step bitFeed w.parts.path i).fifo.ring.level.toNat≤2
      omega
    · intro htwo
      exact absurd (hzero.symm.trans htwo) (by decide)
  case one => exact Nat.zero_le 1
  case ports => exact congrArg NaluScanner.ScannerState.regs hscan
  case order =>
    constructor
    case carried =>
      have hread : readByte (Stream.step bitFeed w.parts.path i)=[] := by
        unfold readByte
        rw [hscan]
        rfl
      show [] ++ [] ++ readByte (Stream.step bitFeed w.parts.path i) ++
        (Stream.step bitFeed w.parts.path i).fifo.ring.contents = []
      rw [hread,contents_cleared bitFeed hclear]
      rfl
    case sps =>
      rw [hsps,Ordered.running,if_pos hspsStill]
      rfl
    case pps =>
      rw [hpps,Ordered.running,if_pos hppsStill]
      rfl
    case slice =>
      dsimp only
      rw [hslice,Ordered.running,if_pos hsliceStill]
      rfl
  case sps =>
    rw [hsps]
    exact ⟨spsOrdered.settling.settle_of_still hspsStill,fun hheld => absurd rfl hheld⟩
  case pps =>
    rw [hpps]
    exact ⟨ppsOrdered.settling.settle_of_still hppsStill,fun hheld => absurd rfl hheld⟩
  case slice =>
    rw [hslice]
    exact sliceOrdered.settling.settle_of_still hsliceStill

/-- A run without a reset or a flush, in which the parsers keep up with the stream. -/
def InPace (bitFeed : Bool) (w : HeaderWorld) (is : List PathInput) : Prop :=
  Along (HeaderWorld.step bitFeed) (fun w i => Kept w.parts.path i ∧ KeepsUp w.parts) w is

/-- In every run in which the parsers keep up every unit is parsed in order, and in two such runs
over the same bytes the same is parsed. -/
theorem headers_parsed_in_order (bitFeed : Bool) (w : HeaderWorld) (start : PathInput)
    (is : List PathInput) (hstart : restarts start=true)
    (hpace : InPace bitFeed (w.step bitFeed start) is) :
    Throughout (HeaderWorld.step bitFeed) ParsedInOrder (w.step bitFeed start) is ∧
      ∀ (w' : HeaderWorld) (start' : PathInput) (js : List PathInput), restarts start'=true →
        InPace bitFeed (w'.step bitFeed start') js →
        AtRest (finalState (HeaderWorld.step bitFeed) (w.step bitFeed start) is) →
        AtRest (finalState (HeaderWorld.step bitFeed) (w'.step bitFeed start') js) →
        (finalState (HeaderWorld.step bitFeed) (w.step bitFeed start) is).written =
          (finalState (HeaderWorld.step bitFeed) (w'.step bitFeed start') js).written →
        SameShown (finalState (HeaderWorld.step bitFeed) (w.step bitFeed start) is)
          (finalState (HeaderWorld.step bitFeed) (w'.step bitFeed start') js) := by
  have hall : ∀ (w : HeaderWorld) (start : PathInput) (is : List PathInput),
      restarts start=true → InPace bitFeed (w.step bitFeed start) is →
      Throughout (HeaderWorld.step bitFeed) ParsedInOrder (w.step bitFeed start) is := by
    intro w start is hstart hpace
    have hparsing := Along.throughout
      (fun _ _ hp hstep => hp.step bitFeed hstep.1 hstep.2) hpace (parsing_restart bitFeed w hstart)
    exact hparsing.mono fun _ hp => hp.order
  refine ⟨hall w start is hstart hpace,?_⟩
  intro w' start' js hstart' hpace' hrest hrest' hbytes
  exact sameShown (hall w start is hstart hpace).last (hall w' start' js hstart' hpace').last hrest
    hrest' hbytes

/-- Every pulse finds the parsers that it concerns at rest. -/
def FindsRest (s : HeaderPath) : Prop :=
  (s.scan.sps.clear=true → Still spsText.step s.sps) ∧
  (s.scan.sps.finish=true → Still spsText.step s.sps ∧ 4 ≤ s.sps.walk.mem.length) ∧
  (s.scan.pps.clear=true → Still ppsText.step s.pps) ∧
  (s.scan.pps.finish=true → Still ppsText.step s.pps ∧ 2 ≤ s.pps.walk.mem.length) ∧
  (s.scan.sl.clear=true → Still sliceText.step s.slice) ∧
  (s.scan.sl.finish=true → Still spsText.step s.sps ∧ Still ppsText.step s.pps ∧
    2 ≤ s.slice.walk.mem.length ∧ s.sps.regs.valid=true ∧ s.pps.regs.out.valid=true ∧
    s.sps.regs.pocType≠1)

set_option synthInstance.maxSize 512 in
instance (s : HeaderPath) : Decidable (FindsRest s) := by
  unfold FindsRest
  infer_instance

theorem FindsRest.keepsUp {s : HeaderPath} (h : FindsRest s) : KeepsUp s := by
  obtain ⟨hspsClear,hspsEnd,hppsClear,hppsEnd,hsliceClear,hsliceEnd⟩ := h
  constructor
  case spsClear => exact fun hclear => spsOrdered.readsNoMore (hspsClear hclear)
  case spsEnd => exact hspsEnd
  case ppsClear => exact fun hclear => ppsOrdered.readsNoMore (hppsClear hclear)
  case ppsEnd => exact hppsEnd
  case sliceClear => exact hsliceClear
  case sliceEnd =>
    intro hfinish
    obtain ⟨hsps,hpps,hbytes,hvalid,hvalid',hpoc⟩ := hsliceEnd hfinish
    have hs : settleSps s.sps=s.sps := spsOrdered.settling.settle_of_still hsps
    have hp : settlePps s.pps=s.pps := ppsOrdered.settling.settle_of_still hpps
    rw [hs,hp]
    exact ⟨hbytes,hvalid,hvalid',hpoc,rfl⟩

/-- All registers zero. -/
def HeaderWorld.zero : HeaderWorld :=
  ⟨⟨StreamPath.zero,SpsParser.reset,PpsParser.reset,SliceParser.reset⟩,[],[],[],[],[],[]⟩

/-- A cycle of a download, with a byte or without. -/
def downloadInput (b : Option Byte) : PathInput where
  reset := false
  ioctlDownload := b.isSome
  ioctlWr := b.isSome
  ioctlDout := b.getD 0#8
  enable := true
  flush := false
  ddrStreamEnable := false
  bitFeedInReady := true
  ddrBusy := false
  ddrDout := 0#64
  ddrDoutReady := false

/-- Two parameter sets and two short slices, with a pause behind each start code. -/
def twoSlices (pause : ℕ) : List PathInput :=
  (([0x00,0x00,0x01,0x67,0x42,0x00,0x1E,0xDA,0x79,0x00,0x00,0x01].map some ++
    List.replicate pause none ++ [0x68,0xCE,0x38,0x80,0x00,0x00,0x01].map some ++
    List.replicate pause none ++ [0x65,0x88,0x84,0xC0,0x80,0x00,0x00,0x01].map some ++
    List.replicate pause none ++ [0x65,0x88,0x84,0xC0,0x80,0x00,0x00,0x01].map some ++
    List.replicate (pause+40) none : List (Option Byte))).map downloadInput

/-- With pauses of 80 cycles everything is parsed in order. -/
theorem headers_parsed_in_order_paused :
    Throughout (HeaderWorld.step false) ParsedInOrder
      (HeaderWorld.zero.step false PathInput.resetting) (twoSlices 80) := by
  have hrest : Along (HeaderWorld.step false)
      (fun w i => Kept w.parts.path i ∧ FindsRest w.parts)
      (HeaderWorld.zero.step false PathInput.resetting) (twoSlices 80) := by decide +kernel
  exact (headers_parsed_in_order false HeaderWorld.zero PathInput.resetting (twoSlices 80) rfl
    (hrest.imp (fun _ => True) (fun _ _ _ _ => trivial) (fun _ _ _ hstep =>
      ⟨hstep.1,hstep.2.keepsUp⟩) trivial)).1

/-- At a byte per cycle neither of the two slices is parsed. -/
theorem not_headers_parsed_in_order :
    ¬∀ (bitFeed : Bool) (w : HeaderWorld) (start : PathInput) (is : List PathInput),
      restarts start=true →
      Along (HeaderWorld.step bitFeed) (fun w i => Kept w.parts.path i) (w.step bitFeed start) is →
      Throughout (HeaderWorld.step bitFeed) ParsedInOrder (w.step bitFeed start) is := by
  intro h
  have hkept : Along (HeaderWorld.step false) (fun w i => Kept w.parts.path i)
      (HeaderWorld.zero.step false PathInput.resetting) (twoSlices 0) := by decide
  have horder := (h false HeaderWorld.zero PathInput.resetting (twoSlices 0) rfl hkept).last
  have hlen := congrArg List.length horder.slice
  have hshown : (finalState (HeaderWorld.step false)
      (HeaderWorld.zero.step false PathInput.resetting) (twoSlices 0)).sliceShown.length=0 := by
    decide +kernel
  have hstill : Still sliceText.step (finalState (HeaderWorld.step false)
      (HeaderWorld.zero.step false PathInput.resetting) (twoSlices 0)).parts.slice := by
    decide +kernel
  have hunits : ((unitsOf (finalState (HeaderWorld.step false)
      (HeaderWorld.zero.step false PathInput.resetting) (twoSlices 0)).heard).filter fun u =>
        u.target = .slice).length=2 := by decide +kernel
  rw [List.length_append,hshown,Ordered.running,if_pos hstill,sliceParses,length_shownFor,
    hunits] at hlen
  cases hlen

end Misterplex.Stream
