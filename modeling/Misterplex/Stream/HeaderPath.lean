import Misterplex.Stream.Delivery
import Misterplex.Header.UnitWalks

/-!
# Flushes in the middle of a unit

The records of the ring pulse a flush that clears the FIFO of the path but not the
scanner behind it. If bytes are dropped while the scanner is inside a unit, the next
start code ends the capture of what is left of it as if it were whole. Every capture is
that of a whole unit of the stream if such flushes find the scanner between two units.

The scanner hands a byte per clock to the header parsers, and each of them needs a
clock or more per bit. There is one buffer for each kind of unit and nothing holds
the scanner back. Whether every unit is parsed once from its own bytes, and a slice
with the values of the sets before it, is a matter of the clocks between the units.
-/

namespace Misterplex.Stream

open Emulation Trace
open NaluScanner (ScanRegs)
open UnitCapture (CaptureLog FromUnit Scanned BetweenUnits nextRegs)

variable (bitFeed : Bool) {s : StreamPath} {i : PathInput}

/-- The byte that the FIFO hands out at the next edge. -/
def popped (s : StreamPath) : List Byte := if popsByte s then [s.fifo.ring.head] else []

/-- The bytes that a flush of the FIFO drops. -/
def lost (s : StreamPath) : List Byte :=
  s.fifo.ring.contents.drop (popped s).length ++ wireByte s

/-- The registers of the scanner after the bytes that have left the FIFO. -/
def settled (s : StreamPath) : ScanRegs := (readByte s ++ popped s).foldl nextRegs s.scan.regs

/-- The scanner starts afresh. -/
def restarts (i : PathInput) : Bool := i.reset || i.flush

/-- The path with the bytes written since the scanner started afresh and what the parsers
have collected since. -/
structure CaptureWorld where
  path : StreamPath
  /-- Bytes that have stood at the write port of the FIFO. -/
  written : List Byte
  log : CaptureLog

/-- One rising clock edge. -/
def CaptureWorld.step (bitFeed : Bool) (w : CaptureWorld) (i : PathInput) : CaptureWorld where
  path := Stream.step bitFeed w.path i
  written := if restarts i then [] else w.written ++ wireByte w.path
  log :=
    if restarts i then CaptureLog.empty
    else w.log.after (NaluScanner.events (Stream.step bitFeed w.path i).scan.regs)

/-- Every capture that has ended is what one whole unit of the stream yields. -/
def WholeUnits (w : CaptureWorld) : Prop := ∀ c∈w.log.closed, FromUnit w.written c

/-- If the FIFO is cleared under the scanner, no byte is dropped or the scanner comes to
stand between two units. -/
def FlushesBetween (w : CaptureWorld) (i : PathInput) : Prop :=
  restarts i=false → bfWrFlush w.path i=true →
    lost w.path=[] ∨ BetweenUnits (settled w.path)

instance (w : CaptureWorld) (i : PathInput) : Decidable (FlushesBetween w i) :=
  inferInstanceAs (Decidable (_ → _ → _))

/-- The bytes written are those scanned, those that have left the FIFO, those dropped and
those in the FIFO, and none is dropped unless the scanner comes to stand between units. -/
structure Carried (w : CaptureWorld) : Prop where
  shallow : Shallow w.path
  accounts : ∃ before since gap : List Byte,
    w.written = before ++ since ++ readByte w.path ++ gap ++ w.path.fifo.ring.contents ∧
    Scanned since w.path.scan.regs w.log ∧
    (gap=[] ∨ BetweenUnits ((readByte w.path).foldl nextRegs w.path.scan.regs))
  /-- Captures so far. -/
  whole : WholeUnits w

/-- The registers of the scanner after an edge. -/
def afterRead (s : StreamPath) : ScanRegs :=
  if s.scan.dataValid then nextRegs s.scan.regs s.fifo.rdData
  else NaluScanner.clearPulses s.scan.regs

theorem regs_next (h : restarts i=false) : (step bitFeed s i).scan.regs=afterRead s := by
  unfold step NaluScanner.step scanInput
  unfold restarts at h
  rw [h]
  rfl

theorem readByte_next (h : restarts i=false) : readByte (step bitFeed s i)=popped s := by
  have hvalid : (step bitFeed s i).scan.dataValid=popsByte s := by
    unfold step NaluScanner.step scanInput
    unfold restarts at h
    rw [h]
    rfl
  unfold readByte popped
  rw [hvalid]
  rfl

theorem contents_popped : s.fifo.ring.contents =
    popped s ++ s.fifo.ring.contents.drop (popped s).length := by
  unfold popped
  cases hpops : popsByte s with
  | false => rfl
  | true =>
    have hne : s.fifo.ring.level.toNat≠0 := fun hzero => by
      unfold popsByte at hpops
      rw [(BitstreamFifo.rdEmpty_iff _).mpr hzero] at hpops
      simp at hpops
    rw [if_pos rfl,RingFifo.contents_eq_head_cons s.fifo.ring hne]
    rfl

theorem contents_cleared (h : (i.reset || bfWrFlush s i)=true) :
    (step bitFeed s i).fifo.ring.contents=[] := by
  have hzero : (step bitFeed s i).fifo.ring.level.toNat=0 := BitstreamFifo.level_clear h
  rw [← List.length_eq_zero_iff,RingFifo.length_contents,hzero]

theorem scanned_next {w : CaptureWorld} (before : List Byte) {since : List Byte}
    (h : Scanned since w.path.scan.regs w.log) :
    ∃ before' since' : List Byte,
      before ++ since ++ readByte w.path = before' ++ since' ∧
      Scanned since' (afterRead w.path) (w.log.after (NaluScanner.events (afterRead w.path))) ∧
      ∀ c∈(w.log.after (NaluScanner.events (afterRead w.path))).closed,
        c∈w.log.closed ∨ FromUnit (before ++ since ++ readByte w.path) c := by
  unfold readByte afterRead
  cases w.path.scan.dataValid with
  | false =>
    exact ⟨before,since,List.append_nil _,h.clearPulses,fun c hc => Or.inl hc⟩
  | true =>
    exact h.advances

theorem betweenUnits_afterRead (s : StreamPath) :
    BetweenUnits (afterRead s) ↔ BetweenUnits ((readByte s).foldl nextRegs s.scan.regs) := by
  unfold afterRead readByte
  cases s.scan.dataValid with
  | false => exact Iff.rfl
  | true => exact Iff.rfl

theorem betweenUnits_settled (s : StreamPath) :
    BetweenUnits ((popped s).foldl nextRegs (afterRead s)) ↔ BetweenUnits (settled s) := by
  unfold settled afterRead readByte popped
  cases s.scan.dataValid with
  | false =>
    cases popsByte s with
    | false => exact Iff.rfl
    | true => exact Iff.rfl
  | true =>
    exact Iff.rfl

/-- Where the scanner starts afresh nothing has been written and nothing captured. -/
theorem carried_restart (w : CaptureWorld) (h : restarts i=true)
    (hshallow : Shallow (w.step bitFeed i).path) : Carried (w.step bitFeed i) := by
  have hwritten : (w.step bitFeed i).written=[] := if_pos h
  have hlog : (w.step bitFeed i).log=CaptureLog.empty := if_pos h
  have hscan : (w.step bitFeed i).path.scan=NaluScanner.cleared := if_pos h
  have hclear : (i.reset || bfWrFlush w.path i)=true := by
    unfold restarts at h
    unfold bfWrFlush
    cases hreset : i.reset with
    | true => rfl
    | false =>
      rw [hreset,Bool.false_or] at h
      simp [h]
  have hcontents : (w.step bitFeed i).path.fifo.ring.contents=[] := contents_cleared bitFeed hclear
  have hread : readByte (w.step bitFeed i).path=[] := by
    unfold readByte
    rw [hscan]
    rfl
  refine ⟨hshallow,⟨[],[],[],?_,?_,Or.inl rfl⟩,?_⟩
  · rw [hwritten,hread,hcontents]
    rfl
  · rw [hscan]
    exact BetweenUnits.scanned ⟨Or.inl rfl,rfl,rfl⟩ _
  · unfold WholeUnits
    rw [hlog]
    exact fun c hc => absurd hc List.not_mem_nil

/-- After an edge the bytes written are those scanned and those that left the FIFO. -/
theorem Carried.step {w : CaptureWorld} (h : Carried w) (hflush : FlushesBetween w i) :
    Carried (w.step bitFeed i) := by
  have hshallow : Shallow (w.step bitFeed i).path := h.shallow.step bitFeed i
  cases hrestart : restarts i with
  | true => exact carried_restart bitFeed w hrestart hshallow
  | false =>
    have hnorestart : ¬restarts i=true := by simp [hrestart]
    have hwritten : (w.step bitFeed i).written = w.written ++ wireByte w.path := if_neg hnorestart
    have hregs : (w.step bitFeed i).path.scan.regs=afterRead w.path := regs_next bitFeed hrestart
    have hlog : (w.step bitFeed i).log=w.log.after (NaluScanner.events (afterRead w.path)) := by
      rw [← hregs]
      exact if_neg hnorestart
    obtain ⟨before,since,gap,hall,hscan,hgap⟩ := h.accounts
    obtain ⟨before',since',hmove,hscanned,hclosed⟩ := scanned_next before hscan
    have hwhole : WholeUnits (w.step bitFeed i) := by
      unfold WholeUnits
      rw [hlog,hwritten]
      intro c hc
      rcases hclosed c hc with hold | hnew
      · exact (h.whole c hold).append _
      · rw [hall,List.append_assoc,List.append_assoc]
        exact hnew.append _
    have hplace : ∃ front mid : List Byte,
        w.written = front ++ mid ++ w.path.fifo.ring.contents ∧
        Scanned mid (afterRead w.path) (w.log.after (NaluScanner.events (afterRead w.path))) := by
      rcases hgap with hnone | hbetween
      · refine ⟨before',since',?_,hscanned⟩
        rw [hall,hnone,List.append_nil,hmove]
      · refine ⟨before' ++ since' ++ gap,[],?_,
          BetweenUnits.scanned ((betweenUnits_afterRead _).mpr hbetween) _⟩
        rw [hall,hmove,List.append_nil]
    obtain ⟨front,mid,hfront,hmid⟩ := hplace
    have hread : readByte (w.step bitFeed i).path=popped w.path := readByte_next bitFeed hrestart
    have hregs' : Scanned mid (w.step bitFeed i).path.scan.regs (w.step bitFeed i).log := by
      rw [hregs,hlog]
      exact hmid
    cases hclear : bfWrFlush w.path i with
    | false =>
      have hreset : i.reset=false := (Bool.or_eq_false_iff.mp hrestart).1
      have hmoves := fifo_moves bitFeed h.shallow ⟨hreset,hclear⟩
      rw [← readByte_step bitFeed ⟨hreset,hclear⟩] at hmoves
      refine ⟨hshallow,⟨front,mid,[],?_,hregs',Or.inl rfl⟩,hwhole⟩
      rw [hwritten,hfront,List.append_nil,List.append_assoc,← hmoves,← List.append_assoc]
      rfl
    | true =>
      have hcontents : (w.step bitFeed i).path.fifo.ring.contents=[] :=
        contents_cleared bitFeed (by rw [hclear,Bool.or_true])
      have hsplit : w.path.fifo.ring.contents ++ wireByte w.path = popped w.path ++ lost w.path := by
        unfold lost
        rw [← List.append_assoc,← contents_popped]
      refine ⟨hshallow,⟨front,mid,lost w.path,?_,hregs',?_⟩,hwhole⟩
      · rw [hwritten,hfront,hcontents,hread,List.append_nil,List.append_assoc,hsplit,
          ← List.append_assoc]
      · refine (hflush hrestart hclear).imp id fun hbetween => ?_
        rw [hregs,hread]
        exact (betweenUnits_settled _).mpr hbetween

/-- From a reset on, every capture that ends is that of one whole unit of the stream, in
every state of every run in which the flushes that clear the FIFO under the scanner drop
nothing or find it between two units. -/
theorem wholeUnits_run (bitFeed : Bool) (w : CaptureWorld) (start : PathInput) (ls : List PathInput)
    (hstart : start.reset=true)
    (hflush : Along (CaptureWorld.step bitFeed) FlushesBetween (w.step bitFeed start) ls) :
    Throughout (CaptureWorld.step bitFeed) WholeUnits (w.step bitFeed start) ls := by
  have hrestart : restarts start=true := by simp [restarts,hstart]
  have hfirst : Carried (w.step bitFeed start) :=
    carried_restart bitFeed w hrestart (shallow_reset bitFeed hstart)
  have hall : Throughout (CaptureWorld.step bitFeed) Carried (w.step bitFeed start) ls :=
    Along.throughout (fun _ _ hcarried hbetween => hcarried.step bitFeed hbetween) hflush hfirst
  exact hall.mono fun _ hcarried => hcarried.whole

/-- All registers zero. -/
def CaptureWorld.zero : CaptureWorld := ⟨StreamPath.zero,[],CaptureLog.empty⟩

/-- A parameter set of six bytes and the start of the next unit. -/
def setBytes : List Byte :=
  [0#8,0#8,1#8,103#8,102#8,30#8,17#8,34#8,51#8,68#8,0#8,0#8,1#8,104#8]

/-- A download of a parameter set that starts some cycles after the reset, beside a short
session whose BEGIN record is parsed in cycle 160. -/
def setDownload (k : ℕ) : List PathInput :=
  feedRun (Ring.encodeAll Ring.shortStream)
    (List.replicate k none ++ setBytes.map some ++ List.replicate 12 none)
    (step false StreamPath.zero PathInput.resetting)

/-- A parameter set that has passed before the flush is captured whole. -/
theorem wholeUnits_before_flush :
    Throughout (CaptureWorld.step false) WholeUnits
      (CaptureWorld.zero.step false PathInput.resetting) (setDownload 140) :=
  wholeUnits_run false CaptureWorld.zero PathInput.resetting (setDownload 140) rfl
    (by decide +kernel)

/-- The BEGIN record drops two bytes of a parameter set of a download, and the capture of
the other four ends as if it were whole. -/
theorem not_wholeUnits_flush : ¬ ∀ (w : CaptureWorld) (start : PathInput) (ls : List PathInput),
    start.reset=true →
    Throughout (CaptureWorld.step false) WholeUnits (w.step false start) ls := by
  intro h
  have hall := (h CaptureWorld.zero PathInput.resetting (setDownload 150) rfl).last
  have hclosed : (finalState (CaptureWorld.step false)
      (CaptureWorld.zero.step false PathInput.resetting) (setDownload 150)).log.closed =
      [(.sps,[102#8,30#8,17#8,34#8,0#8,0#8])] := by decide +kernel
  have hwritten : (finalState (CaptureWorld.step false)
      (CaptureWorld.zero.step false PathInput.resetting) (setDownload 150)).written=setBytes := by
    decide +kernel
  have hunit := hall (.sps,[102#8,30#8,17#8,34#8,0#8,0#8])
    (by rw [hclosed]; exact List.mem_singleton_self _)
  have hbounded := hunit.bounded
  rw [hwritten] at hbounded
  have hnowhere : ∀ n ≤ setBytes.length, ∀ m ≤ setBytes.length,
      [102#8,30#8,17#8,34#8,0#8,0#8]≠removeEpb ((setBytes.drop n).take m) := by
    decide
  obtain ⟨n,hn,m,hm,heq⟩ := hbounded
  exact hnowhere n hn m hm heq

open Header
open NaluScanner (ScanRegs CapTarget clearPulses)
open UnitCapture (nextRegs)

/-- The path with the header parsers. -/
structure HeaderPath where
  /-- The path to the scanner. -/
  path : StreamPath
  /-- The parser of sequence parameter sets. -/
  sps : SpsParser
  /-- The parser of picture parameter sets. -/
  pps : PpsParser
  /-- The parser of slices. -/
  slice : SliceParser

namespace HeaderPath

/-- The ports of the scanner. -/
def scan (s : HeaderPath) : ScanRegs := s.path.scan.regs

/-- The input wires of the slice parser, with given outputs of the two others. -/
def sliceWires (s : HeaderPath) (sps : SpsRegs) (pps : PpsOut) : SlicePort :=
  slicePort (capWires s.scan.sl) s.scan.slIsIdr s.scan.slNalRefIdcNonzero sps pps

/-- One rising clock edge. -/
def step (bitFeed : Bool) (s : HeaderPath) (i : PathInput) : HeaderPath where
  path := Stream.step bitFeed s.path i
  sps := if restarts i then SpsParser.reset else s.sps.step (capWires s.scan.sps)
  pps := if restarts i then PpsParser.reset else s.pps.step (capWires s.scan.pps)
  slice :=
    if restarts i then SliceParser.reset
    else s.slice.step (s.sliceWires s.sps.regs s.pps.regs.out)

end HeaderPath

/-- The path with what has come in and what its parsers have shown when they came to rest. -/
structure HeaderWorld where
  parts : HeaderPath
  /-- Bytes that have stood at the write port of the FIFO. -/
  written : List Byte
  /-- Bytes whose pulses the parsers have had. -/
  heard : List Byte
  /-- The byte whose pulses are at the ports. -/
  taken : List Byte
  /-- What the sequence parameter sets have shown. -/
  spsShown : List SpsRegs
  /-- What the picture parameter sets have shown. -/
  ppsShown : List PpsRegs
  sliceShown : List SliceRegs

namespace HeaderWorld

/-- One rising clock edge. -/
def step (bitFeed : Bool) (w : HeaderWorld) (i : PathInput) : HeaderWorld :=
  let next := w.parts.step bitFeed i
  if restarts i then ⟨next,[],[],[],[],[],[]⟩
  else
    { parts := next
      written := w.written ++ wireByte w.parts.path
      heard := w.heard ++ w.taken
      taken := readByte w.parts.path
      spsShown := w.spsShown ++ cameToRest spsText w.parts.sps next.sps
      ppsShown := w.ppsShown ++ cameToRest ppsText w.parts.pps next.pps
      sliceShown := w.sliceShown ++ cameToRest sliceText w.parts.slice next.slice }

end HeaderWorld

/-- Every captured unit has been parsed once from its own bytes or is being parsed, a slice with
the values of the sets before it, and every byte that came in is on its way to the parsers. -/
structure ParsedInOrder (w : HeaderWorld) : Prop where
  carried : w.heard ++ w.taken ++ readByte w.parts.path ++ w.parts.path.fifo.ring.contents = w.written
  /-- The sequence parameter sets. -/
  sps : w.spsShown ++ spsOrdered.running w.parts.sps = spsParses (unitsOf w.heard)
  /-- The picture parameter sets. -/
  pps : w.ppsShown ++ ppsOrdered.running w.parts.pps = ppsParses (unitsOf w.heard)
  slice : w.sliceShown ++ sliceOrdered.running w.parts.slice = sliceParses (unitsOf w.heard)

/-- The parsers keep up with the pulses at their ports. -/
structure KeepsUp (s : HeaderPath) : Prop where
  /-- The buffer is not cleared before the last bit of the set in it is read. -/
  spsClear : s.scan.sps.clear=true → ReadsNoMore spsText s.sps
  /-- A set ends at a parser at rest, with the bytes that it needs. -/
  spsEnd : s.scan.sps.finish=true → Still spsText.step s.sps ∧ 4 ≤ s.sps.walk.mem.length
  /-- The buffer is not cleared before the last bit of the set in it is read. -/
  ppsClear : s.scan.pps.clear=true → ReadsNoMore ppsText s.pps
  /-- A set ends at a parser at rest, with the bytes that it needs. -/
  ppsEnd : s.scan.pps.finish=true → Still ppsText.step s.pps ∧ 2 ≤ s.pps.walk.mem.length
  /-- No slice begins before the walk of the last one has come to rest. -/
  sliceClear : s.scan.sl.clear=true → Still sliceText.step s.slice
  /-- A slice ends with the bytes that it needs and the values that the sets before it come to. -/
  sliceEnd : s.scan.sl.finish=true →
    SliceReady s.slice (s.sliceWires s.sps.regs s.pps.regs.out)
      (s.sliceWires (settleSps s.sps).regs (settlePps s.pps).regs.out)

/-- All that came in has been heard, and the parsers are at rest. -/
structure AtRest (w : HeaderWorld) : Prop where
  drained : w.heard=w.written
  /-- The parser of sequence parameter sets. -/
  sps : Still spsText.step w.parts.sps
  /-- The parser of picture parameter sets. -/
  pps : Still ppsText.step w.parts.pps
  slice : Still sliceText.step w.parts.slice

/-- Behind the same bytes the same has been shown. -/
structure SameShown (w w' : HeaderWorld) : Prop where
  /-- Of the sequence parameter sets. -/
  sps : w.spsShown=w'.spsShown
  /-- Of the picture parameter sets. -/
  pps : w.ppsShown=w'.ppsShown
  slice : w.sliceShown=w'.sliceShown

theorem sameShown {w w' : HeaderWorld} (h : ParsedInOrder w) (h' : ParsedInOrder w')
    (hrest : AtRest w) (hrest' : AtRest w') (hbytes : w.written=w'.written) :
    SameShown w w' := by
  have hheard : w.heard=w'.heard := hrest.drained.trans (hbytes.trans hrest'.drained.symm)
  have hs := h.sps
  have hs' := h'.sps
  have hp := h.pps
  have hp' := h'.pps
  have hl := h.slice
  have hl' := h'.slice
  rw [Ordered.running,if_pos hrest.sps,List.append_nil,hheard] at hs
  rw [Ordered.running,if_pos hrest'.sps,List.append_nil] at hs'
  rw [Ordered.running,if_pos hrest.pps,List.append_nil,hheard] at hp
  rw [Ordered.running,if_pos hrest'.pps,List.append_nil] at hp'
  rw [Ordered.running,if_pos hrest.slice,List.append_nil,hheard] at hl
  rw [Ordered.running,if_pos hrest'.slice,List.append_nil] at hl'
  exact ⟨hs.trans hs'.symm,hp.trans hp'.symm,hl.trans hl'.symm⟩

end Misterplex.Stream
