import Misterplex.Ring.Reader

/-!
# What a clock edge of the reader does

An edge with neither reset nor flush, state by state: what is assigned and what is
held. Proofs about runs of the reader use these statements and never unfold an edge.
-/

namespace Misterplex.Ring

open Emulation

variable (bitFeed : Bool) {r n : Reader} {i : Cycle}

/-- An edge of an enabled reader without reset and flush. -/
structure Steady (i : Cycle) : Prop where
  /-- No reset. -/
  reset : i.reset=false
  /-- The reader is enabled. -/
  enable : i.enable=true
  /-- No flush. -/
  flush : i.flush=false

instance (i : Cycle) : Decidable (Steady i) :=
  decidable_of_iff (i.reset=false ∧ i.enable=true ∧ i.flush=false)
    ⟨fun h => ⟨h.1,h.2.1,h.2.2⟩,fun h => ⟨h.1,h.2,h.3⟩⟩

/-- Parser, session, beat and counters are held and no byte is presented. -/
structure Held (n r : Reader) : Prop where
  counts : n.counts=r.counts
  parser : n.parser=r.parser
  session : n.session=r.session
  beatQ : n.beat.beatQ=r.beat.beatQ
  beatLeft : n.beat.beatLeft=r.beat.beatLeft
  fatal : n.telem.fatalSticky=r.telem.fatalSticky
  /-- The overrun flag is raised when more was published than the ring holds. -/
  overrun : n.telem.overrunSticky =
    (r.telem.overrunSticky || decide (BitVec.ofNat 32 ringBytes<avail r.counts))
  quiet : n.out.outValid=false
  quietLast : n.out.outLast=false

/-- The clock edge without reset, disable and flush. -/
theorem step_steady (h : Steady i) : step bitFeed r i=arm bitFeed r i (preamble r i) := by
  unfold step
  rw [h.reset,h.enable]
  rfl

theorem checks_telem (old n : Reader) : ∃ t : Telemetry,
    overrunCheck old (underrunCheck old n) = { n with telem := t } ∧
    t.fatalSticky=n.telem.fatalSticky ∧
    t.overrunSticky =
      if BitVec.ofNat 32 ringBytes < avail old.counts ∧ old.telem.overrunSticky = false then true
      else n.telem.overrunSticky := by
  obtain ⟨t,hunder,hfatal,hsticky⟩ : ∃ t : Telemetry, underrunCheck old n = { n with telem := t } ∧
      t.fatalSticky=n.telem.fatalSticky ∧ t.overrunSticky=n.telem.overrunSticky := by
    unfold underrunCheck
    split_ifs
    · exact ⟨_,rfl,rfl,rfl⟩
    · exact ⟨_,rfl,rfl,rfl⟩
    · exact ⟨n.telem,rfl,rfl,rfl⟩
  rw [hunder]
  unfold overrunCheck
  split_ifs
  · exact ⟨_,rfl,hfatal,rfl⟩
  · exact ⟨t,rfl,hfatal,hsticky⟩

theorem pulses_held (r : Reader) (i : Cycle) :
    ∃ out : Outputs, ∃ bus : Bus, pulses r i = { r with out := out, bus := bus } ∧
    out.outValid=false ∧ out.outLast=false ∧ bus.addr=r.bus.addr := by
  unfold pulses
  split_ifs
  · exact ⟨_,_,rfl,rfl,rfl,rfl⟩
  · exact ⟨_,_,rfl,rfl,rfl,rfl⟩

/-- The preamble holds everything, the state and the index into the beat included. -/
theorem preamble_held (h : i.flush=false) :
    Held (preamble r i) r ∧ (preamble r i).state=r.state ∧
    (preamble r i).beat.byteIdx=r.beat.byteIdx ∧ (preamble r i).bus.addr=r.bus.addr := by
  obtain ⟨out,bus,hpulses,hvalid,hlast,haddr⟩ := pulses_held r i
  unfold preamble
  rw [hpulses,h]
  dsimp only [Bool.false_eq_true,if_false]
  obtain ⟨t,hchecks,hfatal,hover⟩ :=
    checks_telem r { r with out := out, bus := bus, pollDiv := r.pollDiv+1 }
  have hsticky : t.overrunSticky =
      (r.telem.overrunSticky || decide (BitVec.ofNat 32 ringBytes<avail r.counts)) := by
    rw [hover]
    by_cases hlarge : BitVec.ofNat 32 ringBytes<avail r.counts
    · cases r.telem.overrunSticky <;> simp [hlarge]
    · simp [hlarge]
  rw [if_neg Bool.false_ne_true,hchecks]
  exact ⟨⟨rfl,rfl,rfl,rfl,rfl,hfatal,hsticky,hvalid,hlast⟩,rfl,rfl,haddr⟩

/-- A steady edge leaves the reset state. -/
theorem step_reset (h : Steady i) (hstate : r.state = .reset) :
    Held (step bitFeed r i) r ∧ (step bitFeed r i).state = .idle := by
  obtain ⟨hheld,_⟩ := preamble_held (r := r) h.flush
  rw [step_steady bitFeed h]
  unfold arm
  rw [hstate]
  exact ⟨{ hheld with },rfl⟩

/-- A steady edge in the idle state polls, reads or stays. -/
theorem step_idle (h : Steady i) (hstate : r.state = .idle) :
    Held (step bitFeed r i) r ∧
    ((step bitFeed r i).state = .idle ∨
    ((step bitFeed r i).state = .poll ∧ (step bitFeed r i).bus.addr=ctrlW) ∨
    ((step bitFeed r i).state = .readWait ∧ wantRead r i=true ∧
      (step bitFeed r i).beat.byteIdx=readByteIndex r.counts ∧
      (step bitFeed r i).bus.addr=dataW+readQwordOffset r.counts)) := by
  obtain ⟨hheld,hpre,_⟩ := preamble_held (r := r) h.flush
  rw [step_steady bitFeed h]
  unfold arm
  rw [hstate]
  unfold idleArm
  dsimp only
  split_ifs with hpublish hpoll hread
  · exact ⟨{ hheld with },Or.inl (hpre.trans hstate)⟩
  · exact ⟨{ hheld with },Or.inr (Or.inl ⟨rfl,rfl⟩)⟩
  · exact ⟨{ hheld with },
      Or.inr (Or.inr ⟨rfl,(Bool.and_eq_true_iff.mp hread).1,rfl,rfl⟩)⟩
  · exact ⟨hheld,Or.inl (hpre.trans hstate)⟩

/-- A poll without an answer, or with one of another magic. -/
theorem step_poll_nothing (h : Steady i) (hstate : r.state = .poll)
    (hnone : ¬(i.doutReady=true ∧ ctrlMagicOk i.dout=true)) :
    Held (step bitFeed r i) r ∧
    (step bitFeed r i).state = if i.doutReady then .idle else .poll := by
  obtain ⟨hheld,hpre,_⟩ := preamble_held (r := r) h.flush
  rw [step_steady bitFeed h]
  unfold arm
  rw [hstate]
  unfold pollArm
  by_cases hready : i.doutReady=true
  · rw [if_pos hready,if_neg fun hmagic => hnone ⟨hready,hmagic⟩,if_pos hready]
    exact ⟨{ hheld with },rfl⟩
  · rw [if_neg hready,if_neg hready]
    exact ⟨hheld,hpre.trans hstate⟩

/-- The counters after a poll in the same epoch. -/
def polledCounts (c : Counts) (dout : BitVec 64) : Counts :=
  { c with haveCtrl := true, writeCount := ctrlWriteCount dout, hostWriteCount := ctrlWriteCount dout }

/-- A poll that brings the published count. -/
theorem step_poll_same (h : Steady i) (hstate : r.state = .poll) (hready : i.doutReady=true)
    (hmagic : ctrlMagicOk i.dout=true) (hsame : ctrlReset i.dout=r.counts.resetSeen) :
    Held { step bitFeed r i with counts := r.counts } r ∧ (step bitFeed r i).state = .idle ∧
    (step bitFeed r i).counts=polledCounts r.counts i.dout := by
  obtain ⟨hheld,hpre,_⟩ := preamble_held (r := r) h.flush
  rw [step_steady bitFeed h]
  unfold arm
  rw [hstate]
  unfold pollArm
  rw [if_pos hready,if_pos hmagic]
  rw [if_neg (not_not_intro hsame)]
  refine ⟨{ hheld with counts := rfl },rfl,?_⟩
  exact congrArg (polledCounts · i.dout) hheld.counts

/-- A poll is answered with a new epoch: the reader starts over at the producer count. -/
theorem step_poll_epoch (h : Steady i) (hstate : r.state = .poll) (hready : i.doutReady=true)
    (hmagic : ctrlMagicOk i.dout=true) (hnew : ctrlReset i.dout≠r.counts.resetSeen) :
    (step bitFeed r i).state = .idle ∧
    (step bitFeed r i).counts =
      { polledCounts r.counts i.dout with
        resetSeen := ctrlReset i.dout, readCount := ctrlWriteCount i.dout,
        fpgaReadCount := ctrlWriteCount i.dout } ∧
    (step bitFeed r i).beat.beatLeft=0#4 ∧ (step bitFeed r i).telem.overrunSticky=false ∧
    (step bitFeed r i).telem.fatalSticky=false ∧ (step bitFeed r i).out.outValid=false ∧
    (step bitFeed r i).parser=r.parser.restart ∧
    (step bitFeed r i).session=r.session.cleared := by
  obtain ⟨hheld,hpre,_⟩ := preamble_held (r := r) h.flush
  rw [step_steady bitFeed h]
  unfold arm
  rw [hstate]
  unfold pollArm
  rw [if_pos hready,if_pos hmagic]
  rw [if_pos hnew]
  refine ⟨rfl,?_,rfl,rfl,rfl,hheld.quiet,?_,?_⟩
  · rfl
  · exact congrArg Parser.restart hheld.parser
  · exact congrArg Session.cleared hheld.session

/-- A read without an answer waits. -/
theorem step_readWait_nothing (h : Steady i) (hstate : r.state = .readWait)
    (hnone : i.doutReady=false) :
    Held (step bitFeed r i) r ∧ (step bitFeed r i).state = .readWait ∧
    (step bitFeed r i).beat.byteIdx=r.beat.byteIdx ∧
    (step bitFeed r i).bus.addr=r.bus.addr := by
  obtain ⟨hheld,hpre,hidx,haddr⟩ := preamble_held (r := r) h.flush
  rw [step_steady bitFeed h]
  unfold arm
  rw [hstate]
  unfold readWaitArm
  rw [hnone,if_neg Bool.false_ne_true]
  exact ⟨hheld,hpre.trans hstate,hidx,haddr⟩

/-- A read that is answered has bytes at hand. -/
theorem step_readWait (h : Steady i) (hstate : r.state = .readWait) (hready : i.doutReady=true) :
    Held { step bitFeed r i with beat := r.beat } r ∧ (step bitFeed r i).state = .consume ∧
    (step bitFeed r i).beat=⟨i.dout,r.beat.byteIdx,consumeCount r.counts⟩ := by
  obtain ⟨hheld,hpre,hidx,haddr⟩ := preamble_held (r := r) h.flush
  rw [step_steady bitFeed h]
  unfold arm
  rw [hstate]
  unfold readWaitArm
  rw [if_pos hready]
  refine ⟨{ hheld with beatQ := rfl, beatLeft := rfl },rfl,?_⟩
  dsimp only
  rw [hidx]

/-- A byte that cannot be taken stays. -/
theorem step_consume_stall (h : Steady i) (hstate : r.state = .consume)
    (hstall : consumes bitFeed r i=false) :
    Held (step bitFeed r i) r ∧
    (step bitFeed r i).state=(if r.beat.beatLeft = 0#4 then .idle else .consume) ∧
    (step bitFeed r i).beat.byteIdx=r.beat.byteIdx := by
  obtain ⟨hheld,hpre,hidx,haddr⟩ := preamble_held (r := r) h.flush
  rw [step_steady bitFeed h]
  unfold arm
  rw [hstate]
  unfold consumeArm
  rw [hstall,if_neg Bool.false_ne_true]
  split_ifs
  · exact ⟨{ hheld with },rfl,hidx⟩
  · exact ⟨hheld,hpre.trans hstate,hidx⟩

theorem record_keeps (old : Reader) (hdr : BitVec 5 → Byte) (n : Reader) :
    (record old hdr n).beat=n.beat ∧ (record old hdr n).counts=n.counts ∧
    (record old hdr n).state=n.state ∧ (record old hdr n).bus=n.bus ∧
    (record old hdr n).telem.overrunSticky=n.telem.overrunSticky ∧
    (record old hdr n).out.outValid=n.out.outValid ∧
    (record old hdr n).out.outLast=n.out.outLast := by
  unfold record enterPayload markDesync flushOut
  split_ifs <;> exact ⟨rfl,rfl,rfl,rfl,rfl,rfl,rfl⟩

theorem parseByte_keeps (old : Reader) (rx : Byte) (n : Reader) :
    (parseByte bitFeed old rx n).beat=n.beat ∧ (parseByte bitFeed old rx n).counts=n.counts ∧
    (parseByte bitFeed old rx n).state=n.state ∧ (parseByte bitFeed old rx n).bus=n.bus ∧
    (parseByte bitFeed old rx n).telem.overrunSticky=n.telem.overrunSticky := by
  unfold parseByte
  cases old.parser.mode with
  | payload => exact ⟨rfl,rfl,rfl,rfl,rfl⟩
  | drop => exact ⟨rfl,rfl,rfl,rfl,rfl⟩
  | header =>
    unfold headerByte
    split_ifs
    · obtain ⟨hbeat,hcounts,hstate,hbus,hover,_⟩ := record_keeps old
        (setHdr old.parser.hdr old.parser.hdrIdx rx)
        { n with parser := { n.parser with hdr := setHdr old.parser.hdr old.parser.hdrIdx rx,
                                           hdrIdx := 0#5 } }
      exact ⟨hbeat,hcounts,hstate,hbus,hover⟩
    · exact ⟨rfl,rfl,rfl,rfl,rfl⟩

/-- A byte is taken. -/
theorem step_consume (h : Steady i) (hstate : r.state = .consume)
    (hgo : consumes bitFeed r i=true) :
    (step bitFeed r i).state=(if r.beat.beatLeft = 1#4 then .idle else .consume) ∧
    (step bitFeed r i).beat=⟨r.beat.beatQ,r.beat.byteIdx+1,r.beat.beatLeft-1⟩ ∧
    (step bitFeed r i).counts =
      { r.counts with readCount := r.counts.readCount+1,
                      fpgaReadCount := r.counts.readCount+1 } ∧
    (step bitFeed r i).telem.overrunSticky =
      (r.telem.overrunSticky || decide (BitVec.ofNat 32 ringBytes<avail r.counts)) := by
  obtain ⟨hheld,hpre,hidx,haddr⟩ := preamble_held (r := r) h.flush
  rw [step_steady bitFeed h]
  unfold arm
  rw [hstate]
  dsimp only
  unfold consumeArm
  rw [if_pos hgo]
  unfold consumeByte
  obtain ⟨hbeat,hcounts,hstate',_,hover⟩ := parseByte_keeps bitFeed r
    (beatByte r.beat.beatQ r.beat.byteIdx) (advance r (preamble r i))
  have hbeat' : (advance r (preamble r i)).beat =
      ⟨r.beat.beatQ,r.beat.byteIdx+1,r.beat.beatLeft-1⟩ :=
    congrArg (fun q => (⟨q,r.beat.byteIdx+1,r.beat.beatLeft-1⟩ : Beat)) hheld.beatQ
  have hcounts' : (advance r (preamble r i)).counts =
      { r.counts with readCount := r.counts.readCount+1,
                      fpgaReadCount := r.counts.readCount+1 } :=
    congrArg (fun c => ({ c with readCount := r.counts.readCount+1,
                                 fpgaReadCount := r.counts.readCount+1 } : Counts)) hheld.counts
  split_ifs
  · exact ⟨rfl,hbeat.trans hbeat',hcounts.trans hcounts',hover.trans hheld.overrun⟩
  · exact ⟨hstate'.trans (hpre.trans hstate),hbeat.trans hbeat',hcounts.trans hcounts',
      hover.trans hheld.overrun⟩

/-- The byte that is taken goes to the record parser. -/
theorem step_consume_parse (h : Steady i) (hstate : r.state = .consume)
    (hgo : consumes bitFeed r i=true) :
    let parsed := parseByte bitFeed r (beatByte r.beat.beatQ r.beat.byteIdx)
      (advance r (preamble r i))
    (step bitFeed r i).parser=parsed.parser ∧ (step bitFeed r i).session=parsed.session ∧
    (step bitFeed r i).telem.fatalSticky=parsed.telem.fatalSticky ∧
    (step bitFeed r i).out=parsed.out := by
  rw [step_steady bitFeed h]
  unfold arm
  rw [hstate]
  unfold consumeArm
  unfold consumeByte
  split_ifs
  · exact ⟨rfl,rfl,rfl,rfl⟩
  · exact ⟨rfl,rfl,rfl,rfl⟩

end Misterplex.Ring
