import Misterplex.Lib.History
import Misterplex.Ring.Progress
import Misterplex.Stream.Path

/-!
# Delivery of two sources through one port

The ring reader is held off in a cycle in which a byte of the download stands at the
write port, but its own byte stands there a cycle later. Every byte of both sources
reaches the scanner exactly once and in order if and only if the reader never takes a
payload byte at the edge at which a byte of the download is taken.
-/

namespace Misterplex.Stream

open Emulation Trace List
open Misterplex.Ring (Reader Cycle Steady takes)

variable (bitFeed : Bool) {s : StreamPath} {i : PathInput}

/-- The reader takes a payload byte. -/
def takesPayload (s : StreamPath) (i : PathInput) : Bool :=
  !i.reset && i.ddrStreamEnable && takes bitFeed s.reader (readerCycle s i) &&
    s.reader.parser.mode == .payload

/-- Both sources put a byte at the write port at the same edge. -/
def Collides (s : StreamPath) (i : PathInput) : Prop :=
  ingests i=true ∧ takesPayload bitFeed s i=true

instance (s : StreamPath) (i : PathInput) : Decidable (Collides bitFeed s i) := instDecidableAnd

/-- Everything that was in flight and everything that the two sources put at the write
port, each in its order, is what the scanner has taken and what is in flight. The
scanner counts what it takes, and four edges later it has taken everything. -/
def Delivered (s : StreamPath) (ls : List PathInput) : Prop :=
  (∃ merged : List Byte,
    Interleaves (emitted (step bitFeed) (fun s i => ingestByte (step bitFeed s i)) s ls)
      (emitted (step bitFeed) (fun s i => ringByte (step bitFeed s i)) s ls) merged ∧
    emitted (step bitFeed) (fun s _ => readByte s) s ls ++ inFlight (finalState (step bitFeed) s ls) =
      inFlight s ++ merged) ∧
  (finalState (step bitFeed) s ls).scan.regs.bytesSeen =
    s.scan.regs.bytesSeen +
      BitVec.ofNat 32 (emitted (step bitFeed) (fun s _ => readByte s) s ls).length ∧
  ∀ before after : List PathInput, ls = before ++ after → 4≤after.length →
    (inFlight s).length +
        (emitted (step bitFeed) (fun s i => ingestByte (step bitFeed s i)) s before).length +
        (emitted (step bitFeed) (fun s i => ringByte (step bitFeed s i)) s before).length ≤
      (emitted (step bitFeed) (fun s _ => readByte s) s ls).length

open Ring.ReaderState

theorem outValid_step {r : Reader} {c : Cycle} (hsteady : Steady c) :
    (Ring.step bitFeed r c).out.outValid=(takes bitFeed r c && r.parser.mode == .payload) := by
  have hother : r.state ≠ .consume → (Ring.step bitFeed r c).out.outValid=false →
      (Ring.step bitFeed r c).out.outValid=(takes bitFeed r c && r.parser.mode == .payload) := by
    intro hne hquiet
    rw [Ring.takes_eq_false hne,hquiet]
    rfl
  cases hstate : r.state with
  | reset =>
    exact hother (by rw [hstate]; exact noConfusion)
      (Ring.step_reset bitFeed hsteady hstate).1.quiet
  | idle =>
    exact hother (by rw [hstate]; exact noConfusion)
      (Ring.step_idle bitFeed hsteady hstate).1.quiet
  | poll =>
    refine hother (by rw [hstate]; exact noConfusion) ?_
    by_cases hanswer : c.doutReady=true ∧ Ring.ctrlMagicOk c.dout=true
    · by_cases hepoch : Ring.ctrlReset c.dout=r.counts.resetSeen
      · exact (Ring.step_poll_same bitFeed hsteady hstate hanswer.1 hanswer.2 hepoch).1.quiet
      · obtain ⟨_,_,_,_,_,hnone,_⟩ :=
          Ring.step_poll_epoch bitFeed hsteady hstate hanswer.1 hanswer.2 hepoch
        exact hnone
    · exact (Ring.step_poll_nothing bitFeed hsteady hstate hanswer).1.quiet
  | readWait =>
    refine hother (by rw [hstate]; exact noConfusion) ?_
    cases hready : c.doutReady with
    | false => exact (Ring.step_readWait_nothing bitFeed hsteady hstate hready).1.quiet
    | true => exact (Ring.step_readWait bitFeed hsteady hstate hready).1.quiet
  | consume =>
    cases hgo : Ring.consumes bitFeed r c with
    | false =>
      have htakes : takes bitFeed r c=false := decide_eq_false fun ht =>
        absurd (hgo.symm.trans ht.2) Bool.false_ne_true
      rw [htakes,(Ring.step_consume_stall bitFeed hsteady hstate hgo).1.quiet]
      rfl
    | true =>
      have htakes : takes bitFeed r c=true := decide_eq_true ⟨hstate,hgo⟩
      obtain ⟨_,_,_,hout⟩ := Ring.step_consume_parse bitFeed hsteady hstate hgo
      obtain ⟨hheld,_⟩ := Ring.preamble_held (r := r) hsteady.flush
      have hquiet : (Ring.advance r (Ring.preamble r c)).out.outValid=false := hheld.quiet
      rw [htakes,hout,Bool.true_and]
      unfold Ring.parseByte
      cases hmode : r.parser.mode with
      | payload => rfl
      | drop => exact hquiet
      | header =>
        unfold Ring.headerByte
        split_ifs
        · obtain ⟨_,_,_,_,_,hvalid,_⟩ := Ring.record_keeps r
            (Ring.setHdr r.parser.hdr r.parser.hdrIdx (Ring.beatByte r.beat.beatQ r.beat.byteIdx))
            { Ring.advance r (Ring.preamble r c) with
              parser := { (Ring.advance r (Ring.preamble r c)).parser with
                hdr := Ring.setHdr r.parser.hdr r.parser.hdrIdx
                  (Ring.beatByte r.beat.beatQ r.beat.byteIdx), hdrIdx := 0#5 } }
          exact hvalid.trans hquiet
        · exact hquiet

theorem outValid_disabled {r : Reader} {c : Cycle} (hreset : c.reset=false)
    (henable : c.enable=false) : (Ring.step bitFeed r c).out.outValid=false := by
  obtain ⟨out,bus,hpulses,hvalid,_⟩ := Ring.pulses_held r c
  unfold Ring.step
  rw [hreset,henable,if_neg Bool.false_ne_true,Bool.not_false,if_pos rfl,hpulses]
  exact hvalid

/-- A byte of the ring stands at the write port after an edge at which one is taken. -/
theorem outValid_next (hkept : Kept s i) :
    (step bitFeed s i).reader.out.outValid=takesPayload bitFeed s i := by
  have hflush := hkept.2
  unfold bfWrFlush at hflush
  rw [Bool.or_eq_false_iff] at hflush
  unfold takesPayload
  rw [hkept.1,Bool.not_false,Bool.true_and]
  cases henable : i.ddrStreamEnable with
  | false => exact outValid_disabled bitFeed hkept.1 henable
  | true =>
    have hsteady : Steady (readerCycle s i) := ⟨hkept.1,henable,hflush.2⟩
    exact outValid_step bitFeed hsteady

theorem wireByte_interleaves (hkept : Kept s i) (hclear : ¬Collides bitFeed s i) :
    Interleaves (ingestByte (step bitFeed s i)) (ringByte (step bitFeed s i))
      (wireByte (step bitFeed s i)) := by
  have hvalid := outValid_next bitFeed hkept
  have hwrite : (step bitFeed s i).ingest.wrEn=ingests i := rfl
  unfold ingestByte ringByte wireByte bfWrEn bfWrData
  rw [hvalid,hwrite]
  cases hin : ingests i with
  | false =>
    exact Interleaves.only_right _
  | true =>
    cases hring : takesPayload bitFeed s i with
    | false =>
      exact Interleaves.only_left _
    | true => exact absurd ⟨hin,hring⟩ hclear

theorem wireByte_length (hkept : Kept s i) :
    (wireByte (step bitFeed s i)).length+(if Collides bitFeed s i then 1 else 0) =
      (ingestByte (step bitFeed s i)).length+(ringByte (step bitFeed s i)).length := by
  have hvalid := outValid_next bitFeed hkept
  have hwrite : (step bitFeed s i).ingest.wrEn=ingests i := rfl
  unfold ingestByte ringByte wireByte bfWrEn
  rw [hvalid,hwrite]
  by_cases hboth : Collides bitFeed s i
  · rw [if_pos hboth,hboth.1,hboth.2]
    rfl
  · rw [if_neg hboth]
    cases hin : ingests i with
    | false =>
      rw [Bool.false_or,if_neg Bool.false_ne_true,length_nil,Nat.zero_add,Nat.add_zero]
      split_ifs
      · rfl
      · rfl
    | true =>
      cases hring : takesPayload bitFeed s i with
      | false => rfl
      | true => exact absurd ⟨hin,hring⟩ hboth

variable {ls : List PathInput}

/-- What was in flight and what was put at the write port is what the scanner has taken
and what is in flight. -/
theorem inFlight_run (hs : Shallow s) (hkept : Along (step bitFeed) Kept s ls) :
    emitted (step bitFeed) (fun s _ => readByte s) s ls ++ inFlight (finalState (step bitFeed) s ls) =
      inFlight s ++ emitted (step bitFeed) (fun s i => wireByte (step bitFeed s i)) s ls := by
  induction ls generalizing s with
  | nil => rw [emitted_nil,emitted_nil,finalState_nil,nil_append,append_nil]
  | cons i ls ih =>
    rw [emitted_cons,emitted_cons,finalState_cons,append_assoc,
      ih (hs.step bitFeed i) hkept.2,← append_assoc,inFlight_step bitFeed hs hkept.1,
      append_assoc]

theorem wire_interleaves (hkept : Along (step bitFeed) Kept s ls)
    (hclear : Along (step bitFeed) (fun s i => ¬Collides bitFeed s i) s ls) :
    Interleaves (emitted (step bitFeed) (fun s i => ingestByte (step bitFeed s i)) s ls)
      (emitted (step bitFeed) (fun s i => ringByte (step bitFeed s i)) s ls)
      (emitted (step bitFeed) (fun s i => wireByte (step bitFeed s i)) s ls) := by
  induction ls generalizing s with
  | nil => exact Interleaves.nil
  | cons i ls ih =>
    exact (wireByte_interleaves bitFeed hkept.1 hclear.1).append (ih hkept.2 hclear.2)

theorem wire_length_le (hkept : Along (step bitFeed) Kept s ls) :
    (emitted (step bitFeed) (fun s i => wireByte (step bitFeed s i)) s ls).length ≤
      (emitted (step bitFeed) (fun s i => ingestByte (step bitFeed s i)) s ls).length +
        (emitted (step bitFeed) (fun s i => ringByte (step bitFeed s i)) s ls).length := by
  induction ls generalizing s with
  | nil => exact Nat.le_refl 0
  | cons i ls ih =>
    have hone := wireByte_length bitFeed hkept.1
    have hrest := ih hkept.2
    rw [emitted_cons,emitted_cons,emitted_cons,length_append,length_append,
      length_append]
    omega

theorem clear_of_length (hkept : Along (step bitFeed) Kept s ls)
    (hlength : (emitted (step bitFeed) (fun s i => wireByte (step bitFeed s i)) s ls).length =
      (emitted (step bitFeed) (fun s i => ingestByte (step bitFeed s i)) s ls).length +
        (emitted (step bitFeed) (fun s i => ringByte (step bitFeed s i)) s ls).length) :
    Along (step bitFeed) (fun s i => ¬Collides bitFeed s i) s ls := by
  induction ls generalizing s with
  | nil => trivial
  | cons i ls ih =>
    have hone := wireByte_length bitFeed hkept.1
    have hle := wire_length_le bitFeed hkept.2
    rw [emitted_cons,emitted_cons,emitted_cons,length_append,length_append,
      length_append] at hlength
    have hnone : ¬Collides bitFeed s i := fun hboth => by
      rw [if_pos hboth] at hone
      omega
    exact ⟨hnone,ih hkept.2 (by omega)⟩

theorem bytesSeen_step (hkept : Kept s i) :
    (step bitFeed s i).scan.regs.bytesSeen =
      s.scan.regs.bytesSeen+BitVec.ofNat 32 (readByte s).length := by
  have hflush := hkept.2
  unfold bfWrFlush at hflush
  rw [Bool.or_eq_false_iff] at hflush
  unfold step NaluScanner.step scanInput readByte
  rw [hkept.1,hflush.2,Bool.or_false,if_neg Bool.false_ne_true]
  cases s.scan.dataValid with
  | true => exact NaluScanner.bytesSeen_consumeByte _ _
  | false => exact (BitVec.add_zero _).symm

theorem bytesSeen_run (hkept : Along (step bitFeed) Kept s ls) :
    (finalState (step bitFeed) s ls).scan.regs.bytesSeen =
      s.scan.regs.bytesSeen +
        BitVec.ofNat 32 (emitted (step bitFeed) (fun s _ => readByte s) s ls).length := by
  induction ls generalizing s with
  | nil => exact (BitVec.add_zero _).symm
  | cons i ls ih =>
    rw [finalState_cons,emitted_cons,ih hkept.2,bytesSeen_step bitFeed hkept.1,
      length_append,BitVec.ofNat_add,BitVec.add_assoc]

open BitstreamFifo

/-- The FIFO's level after one clock. -/
theorem level_step (hs : Shallow s) (hkept : Kept s i) :
    ((step bitFeed s i).fifo.ring.level.toNat+(readByte (step bitFeed s i)).length =
      s.fifo.ring.level.toNat+(wireByte s).length) ∧
    ((step bitFeed s i).scan.rdEn=true ↔ s.fifo.ring.level.toNat≠0) ∧
    ((readByte (step bitFeed s i)).length =
      if s.scan.rdEn = true ∧ s.fifo.ring.level.toNat ≠ 0 then 1 else 0) := by
  have hmoves := congrArg length (fifo_moves bitFeed hs hkept)
  have hread := readByte_step bitFeed hkept
  have hflush := hkept.2
  unfold bfWrFlush at hflush
  rw [Bool.or_eq_false_iff] at hflush
  have hrd : (step bitFeed s i).scan.rdEn = !rdEmpty s.fifo.ring := by
    unfold step NaluScanner.step scanInput
    rw [hkept.1,hflush.2]
    rfl
  have hempty := rdEmpty_iff s.fifo.ring
  rw [← hread,length_append,length_append,RingFifo.length_contents,
    RingFifo.length_contents] at hmoves
  refine ⟨by omega,?_,?_⟩
  · rw [hrd,Bool.not_eq_true',← Bool.not_eq_true,hempty]
  · rw [hread]
    unfold popsByte
    by_cases hpop : s.scan.rdEn=true ∧ s.fifo.ring.level.toNat≠0
    · have hsome : rdEmpty s.fifo.ring=false :=
        Bool.not_eq_true _ ▸ fun he => hpop.2 (hempty.mp he)
      rw [if_pos hpop,hpop.1,hsome]
      rfl
    · rw [if_neg hpop,if_neg]
      · rfl
      · intro hboth
        obtain ⟨hen,hsome⟩ := Bool.and_eq_true_iff.mp hboth
        refine hpop ⟨hen,fun hzero => ?_⟩
        rw [hempty.mpr hzero] at hsome
        exact Bool.false_ne_true hsome

theorem taken_after (hs : Shallow s) (hkept : Along (step bitFeed) Kept s ls)
    (hlong : 4≤ls.length) :
    (inFlight s).length≤(emitted (step bitFeed) (fun s _ => readByte s) s ls).length := by
  match ls,hlong with
  | a::b::c::d::rest,_ =>
    obtain ⟨ha,hb,hc,hd,_⟩ := hkept
    obtain ⟨hfirst,hen1,hread1⟩ := level_step bitFeed hs ha
    obtain ⟨hsecond,hen2,hread2⟩ := level_step bitFeed (hs.step bitFeed a) hb
    obtain ⟨hthird,hen3,hread3⟩ := level_step bitFeed ((hs.step bitFeed a).step bitFeed b) hc
    have hlevel := hs.level
    have hpopped := hs.popped
    have hwire : (wireByte s).length≤1 := by
      unfold wireByte
      split_ifs
      · exact Nat.le_refl 1
      · exact Nat.zero_le 1
    unfold inFlight
    simp only [emitted_cons,length_append,RingFifo.length_contents]
    have hone : 0<s.fifo.ring.level.toNat → s.scan.rdEn=true →
        (readByte (step bitFeed s a)).length=1 := fun hsome hen => by
      rw [hread1,if_pos ⟨hen,by omega⟩]
    have htwo : 0<s.fifo.ring.level.toNat → 0<(step bitFeed s a).fifo.ring.level.toNat →
        (readByte (step bitFeed (step bitFeed s a) b)).length=1 := fun hsome hnext => by
      rw [hread2,if_pos ⟨hen1.mpr (by omega),by omega⟩]
    have hthree : 0<(step bitFeed s a).fifo.ring.level.toNat →
        0<(step bitFeed (step bitFeed s a) b).fifo.ring.level.toNat →
        (readByte (step bitFeed (step bitFeed (step bitFeed s a) b) c)).length=1 :=
      fun hsome hnext => by rw [hread3,if_pos ⟨hen2.mpr (by omega),by omega⟩]
    clear hread1 hread2 hread3
    cases hrd : s.scan.rdEn with
    | true =>
      have hgo := fun hsome => hone hsome hrd
      omega
    | false =>
      have hless : s.fifo.ring.level.toNat≠2 := fun h2 =>
        absurd (hrd.symm.trans (hpopped h2)) Bool.false_ne_true
      omega

theorem shallow_reset (h : i.reset=true) : Shallow (step bitFeed s i) := by
  have hclear : clr (fifoInput s i)=true := by
    unfold clr fifoInput
    rw [h]
    rfl
  have hzero : (step bitFeed s i).fifo.ring.level.toNat=0 := level_clear hclear
  exact ⟨by omega,fun htwo => by omega⟩

/-- The FIFO stays shallow over a run. -/
theorem shallow_run (h : Shallow s) (ls : List PathInput) :
    Shallow (finalState (step bitFeed) s ls) := by
  induction ls generalizing s with
  | nil => exact h
  | cons i ls ih => exact ih (h.step bitFeed i)

theorem delivered_of_clear (hs : Shallow s) (hkept : Along (step bitFeed) Kept s ls)
    (hclear : Along (step bitFeed) (fun s i => ¬Collides bitFeed s i) s ls) :
    Delivered bitFeed s ls := by
  refine ⟨⟨_,wire_interleaves bitFeed hkept hclear,inFlight_run bitFeed hs hkept⟩,
    bytesSeen_run bitFeed hkept,fun before after hsplit hlong => ?_⟩
  subst hsplit
  have hparts := hkept.split
  have htaken := taken_after bitFeed (shallow_run bitFeed hs before) hparts.2 hlong
  have hrun := congrArg length (inFlight_run bitFeed hs hparts.1)
  have hwire := (wire_interleaves bitFeed hparts.1 hclear.split.1).length
  rw [length_append,length_append,hwire] at hrun
  rw [emitted_append,length_append]
  omega

theorem clear_of_delivered (hs : Shallow s)
    (hkept : Along (step bitFeed) Kept s ls) (h : Delivered bitFeed s ls) :
    Along (step bitFeed) (fun s i => ¬Collides bitFeed s i) s ls := by
  obtain ⟨⟨merged,hmerged,hall⟩,_⟩ := h
  rw [inFlight_run bitFeed hs hkept] at hall
  have hsame := append_cancel_left hall
  refine clear_of_length bitFeed hkept ?_
  rw [hsame]
  exact hmerged.length

/-- In every run without flush and reset from a reachable state, every byte that the two
sources put at the write port reaches the scanner exactly once and in order if and only
if the reader never takes a payload byte at the edge at which a byte of the download is
taken. -/
theorem delivered_iff (bitFeed : Bool) (s : StreamPath) (start : PathInput) (before ls : List PathInput)
    (hstart : start.reset=true)
    (hkept : Along (step bitFeed) Kept (finalState (step bitFeed) s (start::before)) ls) :
    Delivered bitFeed (finalState (step bitFeed) s (start::before)) ls ↔
      Along (step bitFeed) (fun s i => ¬Collides bitFeed s i)
        (finalState (step bitFeed) s (start::before)) ls := by
  have hs : Shallow (finalState (step bitFeed) s (start::before)) :=
    shallow_run bitFeed (shallow_reset bitFeed hstart) before
  exact ⟨clear_of_delivered bitFeed hs hkept,delivered_of_clear bitFeed hs hkept⟩

/-- All registers zero. -/
def StreamPath.zero : StreamPath where
  ingest := ⟨false,0#8,false,false,0#32,false⟩
  reader := Reader.zero
  fifo := ⟨⟨fun _ => 0#8,0,0⟩,false,0#8,0#16⟩
  scan := NaluScanner.cleared

/-- The cycle of a reset. -/
def PathInput.resetting : PathInput :=
  ⟨true,false,false,0#8,false,false,false,true,false,0#64,false⟩

/-- A cycle that answers the reader at once, with a byte of a download if there is one. -/
def feedInput (stream : List Byte) (download : Option Byte) (s : StreamPath) : PathInput where
  reset := false
  ioctlDownload := download.isSome
  ioctlWr := download.isSome
  ioctlDout := download.getD 0#8
  enable := true
  flush := false
  ddrStreamEnable := true
  bitFeedInReady := true
  ddrBusy := false
  ddrDout := (Ring.promptCycle stream s.reader).cycle.dout
  ddrDoutReady := true

/-- Cycles that answer the reader at once, with the bytes of a download. -/
def feedRun (stream : List Byte) : List (Option Byte) → StreamPath → List PathInput
  | [],_ => []
  | download::rest,s => feedInput stream download s ::
      feedRun stream rest (step false s (feedInput stream download s))

/-- The path after the BEGIN record of a short session. -/
def afterBegin : List PathInput :=
  feedRun (Ring.encodeAll Ring.shortStream) (List.replicate 300 none)
    (step false StreamPath.zero PathInput.resetting)

/-- The rest of the session, with a byte of a download in some cycle. -/
def besideDownload (k : ℕ) : List PathInput :=
  feedRun (Ring.encodeAll Ring.shortStream)
    (List.replicate k none ++ [some 85#8] ++ List.replicate 12 none)
    (finalState (step false) StreamPath.zero (PathInput.resetting::afterBegin))

open PathInput StreamPath

/-- A byte of a download some cycles before the payload is delivered with it. -/
theorem delivered_before_payload :
    Delivered false (finalState (step false) StreamPath.zero (PathInput.resetting::afterBegin))
      (besideDownload 100) :=
  (delivered_iff false zero resetting afterBegin (besideDownload 100) rfl
    (by decide +kernel)).2 (by decide +kernel)

/-- A byte of a download at the edge at which a payload byte is taken replaces it. -/
theorem not_delivered_collision : ¬ ∀ (s : StreamPath) (start : PathInput) (before ls : List PathInput),
    start.reset=true →
    Along (step false) Kept (finalState (step false) s (start::before)) ls →
    Delivered false (finalState (step false) s (start::before)) ls := by
  intro h
  obtain ⟨⟨merged,hmerged,hall⟩,_⟩ := h zero resetting afterBegin
    (besideDownload 105) rfl (by decide +kernel)
  have hlength := congrArg length hall
  rw [length_append,length_append,hmerged.length] at hlength
  have hcounts :
      (emitted (step false) (fun s _ => readByte s)
        (finalState (step false) zero (resetting::afterBegin))
        (besideDownload 105)).length +
      (inFlight (finalState (step false)
        (finalState (step false) zero (resetting::afterBegin))
        (besideDownload 105))).length+1 =
      (inFlight (finalState (step false) zero
        (resetting::afterBegin))).length +
      ((emitted (step false) (fun s i => ingestByte (step false s i))
        (finalState (step false) zero (resetting::afterBegin))
        (besideDownload 105)).length +
      (emitted (step false) (fun s i => ringByte (step false s i))
        (finalState (step false) zero (resetting::afterBegin))
        (besideDownload 105)).length) := by decide +kernel
  omega

end Misterplex.Stream
