import Misterplex.Ring.ReaderStep

/-!
# The flush edge

The assignments of a flush come before the case on the state, which assigns to some of
the same registers and wins. For every state of the registers, when a flush edge leaves
the reader flushed.
-/

namespace Misterplex.Ring

open Emulation

/-- An edge of an enabled reader with flush. -/
structure Flushing (i : Cycle) : Prop where
  reset : i.reset=false
  enable : i.enable=true
  flush : i.flush=true

instance (i : Cycle) : Decidable (Flushing i) :=
  decidable_of_iff (i.reset=false ∧ i.enable=true ∧ i.flush=true)
    ⟨fun h => ⟨h.1,h.2.1,h.2.2⟩,fun h => ⟨h.1,h.2,h.3⟩⟩

/-- Everything that was announced counts as consumed, the parser is at the start of a
header with no beat pending, no session is active and no byte is presented. -/
structure FullyFlushed (r n : Reader) : Prop where
  /-- Everything published is skipped. -/
  read : n.counts.readCount=r.counts.writeCount
  /-- The parser waits for a header. -/
  mode : n.parser.mode = .header
  /-- It is at the header's first byte. -/
  idx : n.parser.hdrIdx=0#5
  /-- No byte is at hand. -/
  beat : n.beat.beatLeft=0#4
  /-- No session is open. -/
  session : n.session.active=false
  /-- No byte is shown. -/
  quiet : n.out.outValid=false

instance (r n : Reader) : Decidable (FullyFlushed r n) :=
  decidable_of_iff (n.counts.readCount=r.counts.writeCount ∧ n.parser.mode = .header ∧
      n.parser.hdrIdx=0#5 ∧ n.beat.beatLeft=0#4 ∧ n.session.active=false ∧
      n.out.outValid=false)
    ⟨fun h => ⟨h.1,h.2.1,h.2.2.1,h.2.2.2.1,h.2.2.2.2.1,h.2.2.2.2.2⟩,
      fun h => ⟨h.1,h.2,h.3,h.4,h.5,h.6⟩⟩

/-- The record of a complete header neither begins a session nor has a payload that is
taken. -/
def startsNothing (old : Reader) (hdr : BitVec 5 → Byte) : Prop :=
  hdr32 hdr 0≠magicRec ∨ hdr32 hdr 24≠0#32 ∨
  ((hdr 4=eventBegin → old.session.active=true ∨ hdr32 hdr 20≠0#32) ∧
    (hdr 4=eventNal → hdr32 hdr 20=0#32))

instance (old : Reader) (hdr : BitVec 5 → Byte) : Decidable (startsNothing old hdr) := by
  unfold startsNothing
  infer_instance

/-- The byte that is consumed is the last one of its beat and of all that was announced,
it is not presented, and if it is one of a header it completes a record that starts
nothing. -/
def LastByte (r : Reader) : Prop :=
  r.beat.beatLeft=1#4 ∧ r.counts.readCount+1=r.counts.writeCount ∧
  r.parser.mode ≠ .payload ∧
  (r.parser.mode = .header → r.parser.hdrIdx=31#5 ∧
    startsNothing r (setHdr r.parser.hdr r.parser.hdrIdx (beatByte r.beat.beatQ r.beat.byteIdx)))

instance (r : Reader) : Decidable (LastByte r) := by
  unfold LastByte
  infer_instance

variable (bitFeed : Bool)

/-- No arm of the case takes from the flush what it assigns: a poll is not answered with
a new epoch and another count, a read is not answered with something to consume, and no
byte is consumed that is not the last one. -/
def Unopposed (r : Reader) (i : Cycle) : Prop :=
  (r.state = .poll → i.doutReady=true → ctrlMagicOk i.dout=true →
    ctrlReset i.dout≠r.counts.resetSeen → ctrlWriteCount i.dout=r.counts.writeCount) ∧
  (r.state = .readWait → i.doutReady=true → consumeCount r.counts=0#4) ∧
  (r.state = .consume → consumes bitFeed r i=true → LastByte r)

instance (bitFeed : Bool) (r : Reader) (i : Cycle) : Decidable (Unopposed bitFeed r i) := by
  unfold Unopposed
  infer_instance

variable {r n : Reader} {i : Cycle}

/-- What a flush assigns. -/
structure Cleared (n r : Reader) : Prop where
  state : n.state = .idle
  counts : n.counts = { r.counts with readCount := r.counts.writeCount,
                                      fpgaReadCount := r.counts.writeCount }
  parser : n.parser=r.parser.restart
  session : n.session=r.session.cleared
  beat : n.beat = { r.beat with beatLeft := 0#4 }
  quiet : n.out.outValid=false
  rd : n.bus.rd=false
  /-- Address of the last request. -/
  addr : n.bus.addr=r.bus.addr

theorem preamble_cleared (h : i.flush=true) : Cleared (preamble r i) r := by
  have hpulses : (pulses r i).counts=r.counts ∧ (pulses r i).parser=r.parser ∧
      (pulses r i).session=r.session ∧ (pulses r i).beat=r.beat ∧
      (pulses r i).bus.rd=false ∧ (pulses r i).bus.addr=r.bus.addr :=
    ⟨rfl,rfl,rfl,rfl,rfl,rfl⟩
  have hvalid : (pulses r i).out.outValid=false := by
    obtain ⟨out,bus,hp,hv,_⟩ := pulses_held r i
    rw [hp]
    exact hv
  unfold preamble
  dsimp only
  rw [h,if_pos rfl]
  obtain ⟨t,hchecks,_⟩ := checks_telem r (flushBranch r { pulses r i with pollDiv := r.pollDiv+1 })
  rw [hchecks]
  unfold flushBranch resetParser
  refine ⟨rfl,?_,?_,?_,?_,hvalid,hpulses.2.2.2.2.1,hpulses.2.2.2.2.2⟩
  · rw [hpulses.1]
  · rw [hpulses.2.1]
  · rw [hpulses.2.2.1]
  · rw [hpulses.2.2.2.1]

/-- The clock edge under flush. -/
theorem step_flushing (h : Flushing i) : step bitFeed r i=arm bitFeed r i (preamble r i) := by
  unfold step
  rw [h.reset,h.enable]
  rfl

theorem Cleared.fullyFlushed (h : Cleared n r) : FullyFlushed r n where
  read := by rw [h.counts]
  mode := by rw [h.parser]; rfl
  idx := by rw [h.parser]; rfl
  beat := by rw [h.beat]
  session := by rw [h.session]; rfl
  quiet := h.quiet

theorem flushed_idle (hn : Cleared n r) : FullyFlushed r (idleArm r i n) := by
  have h := hn.fullyFlushed
  unfold idleArm
  dsimp only
  split_ifs
  · exact { h with }
  · exact { h with }
  · exact { h with }
  · exact h

theorem flushed_poll (hn : Cleared n r) :
    FullyFlushed r (pollArm r i n) ↔
      (i.doutReady=true → ctrlMagicOk i.dout=true → ctrlReset i.dout≠r.counts.resetSeen →
        ctrlWriteCount i.dout=r.counts.writeCount) := by
  have h := hn.fullyFlushed
  unfold pollArm
  split_ifs with hready hmagic hnew
  · constructor
    · exact fun hf _ _ _ => hf.read
    · exact fun hcount => ⟨hcount hready hmagic hnew,rfl,rfl,rfl,rfl,h.quiet⟩
  · exact ⟨fun _ _ _ hn => absurd hn hnew,fun _ => { h with }⟩
  · exact ⟨fun _ _ hm => absurd hm hmagic,fun _ => { h with }⟩
  · exact ⟨fun _ hr => absurd hr hready,fun _ => h⟩

theorem flushed_readWait (hn : Cleared n r) :
    FullyFlushed r (readWaitArm r i n) ↔ (i.doutReady=true → consumeCount r.counts=0#4) := by
  have h := hn.fullyFlushed
  unfold readWaitArm
  split_ifs with hready
  · exact ⟨fun hf _ => hf.beat,
      fun hcount => { h with beat := hcount hready }⟩
  · exact ⟨fun _ hr => absurd hr hready,fun _ => h⟩

theorem enterPayload_flushed {hdr : BitVec 5 → Byte} {mode : Mode} (hmode : n.parser.mode = .header)
    (hother : mode ≠ .header) :
    ((enterPayload hdr mode n).parser.mode = .header ↔ hdr32 hdr 20=0#32) ∧
    (enterPayload hdr mode n).session=n.session ∧
    (enterPayload hdr mode n).parser.hdrIdx=n.parser.hdrIdx := by
  unfold enterPayload
  split_ifs with hlength
  · exact ⟨⟨fun hm => absurd hm hother,fun hzero => absurd hzero hlength⟩,rfl,rfl⟩
  · exact ⟨⟨fun _ => not_not.mp hlength,fun _ => hmode⟩,rfl,rfl⟩

theorem record_flushed {old : Reader} {hdr : BitVec 5 → Byte} (hmode : n.parser.mode = .header)
    (hactive : n.session.active=false) :
    ((record old hdr n).parser.mode = .header ∧ (record old hdr n).session.active=false ↔
      startsNothing old hdr) ∧
    (record old hdr n).parser.hdrIdx=n.parser.hdrIdx := by
  unfold startsNothing record
  by_cases hbad : hdr32 hdr 0≠magicRec ∨ hdr32 hdr 24≠0#32
  · rw [if_pos hbad,← or_assoc]
    exact ⟨⟨fun _ => Or.inl hbad,fun _ => ⟨hmode,rfl⟩⟩,rfl⟩
  rw [if_neg hbad,← or_assoc,or_iff_right hbad]
  by_cases hbegin : hdr 4=eventBegin
  · have hother : hdr 4≠eventNal := by
      rw [hbegin]
      decide
    rw [if_pos hbegin]
    split_ifs with hrefused
    · exact ⟨⟨fun _ => ⟨fun _ => hrefused,fun hnal => absurd hnal hother⟩,fun _ => ⟨hmode,hactive⟩⟩,rfl⟩
    · exact ⟨⟨fun hf => absurd hf.2 (Bool.noConfusion : true≠false),
        fun hs => absurd (hs.1 hbegin) hrefused⟩,rfl⟩
  rw [if_neg hbegin]
  by_cases hnal : hdr 4=eventNal
  · rw [if_pos hnal]
    have hiff : ∀ m : Reader, m.parser=n.parser → m.session.active=false → ∀ mode : Mode,
        mode ≠ .header →
        ((enterPayload hdr mode m).parser.mode = .header ∧
            (enterPayload hdr mode m).session.active=false ↔
          (hdr 4=eventBegin → old.session.active=true ∨ hdr32 hdr 20≠0#32) ∧
            (hdr 4=eventNal → hdr32 hdr 20=0#32)) ∧
        (enterPayload hdr mode m).parser.hdrIdx=n.parser.hdrIdx := by
      intro m hparser hquiet mode hother
      obtain ⟨henter,hsession,hidx⟩ := @enterPayload_flushed m hdr mode (hparser ▸ hmode) hother
      rw [henter,hsession,hidx,hparser]
      exact ⟨⟨fun hf => ⟨fun hb => absurd hb hbegin,fun _ => hf.1⟩,fun hs => ⟨hs.2 hnal,hquiet⟩⟩,rfl⟩
    split_ifs
    · exact hiff (markDesync old (hdr32 hdr 16) n) rfl hactive .drop Mode.noConfusion
    · exact hiff { n with session := { n.session with
        consumerSeq := hdr32 hdr 16, expectedSeq := hdr32 hdr 16+1 } } rfl hactive .payload
        Mode.noConfusion
  rw [if_neg hnal]
  have hquiet : ∀ m : Reader, m.parser=n.parser → m.session.active=false →
      (m.parser.mode = .header ∧ m.session.active=false ↔
        (hdr 4=eventBegin → old.session.active=true ∨ hdr32 hdr 20≠0#32) ∧
          (hdr 4=eventNal → hdr32 hdr 20=0#32)) ∧
      m.parser.hdrIdx=n.parser.hdrIdx := fun m hparser hm =>
    ⟨⟨fun _ => ⟨fun hb => absurd hb hbegin,fun hn => absurd hn hnal⟩,
      fun _ => ⟨hparser ▸ hmode,hm⟩⟩,congrArg Parser.hdrIdx hparser⟩
  split_ifs
  all_goals first
    | exact hquiet _ rfl hactive
    | exact hquiet _ rfl rfl

/-- A byte leaves a flushed parser flushed if it is not presented and, in a header,
completes a record that starts nothing. -/
theorem parseByte_flushed (old : Reader) (rx : Byte)
    (hparser : n.parser=old.parser.restart) (hactive : n.session.active=false)
    (hquiet : n.out.outValid=false) : ((parseByte bitFeed old rx n).parser.mode = .header ∧
        (parseByte bitFeed old rx n).parser.hdrIdx=0#5 ∧
        (parseByte bitFeed old rx n).session.active=false ∧
        (parseByte bitFeed old rx n).out.outValid=false) ↔
      (old.parser.mode ≠ .payload ∧ (old.parser.mode = .header → old.parser.hdrIdx=31#5 ∧
        startsNothing old (setHdr old.parser.hdr old.parser.hdrIdx rx))) := by
  have hmode : n.parser.mode = .header := by
    rw [hparser]
    rfl
  have hidx : n.parser.hdrIdx=0#5 := by
    rw [hparser]
    rfl
  unfold parseByte
  cases hold : old.parser.mode with
  | payload =>
    exact ⟨fun hf => absurd hf.2.2.2 (Bool.noConfusion : true≠false),fun hs => absurd rfl hs.1⟩
  | drop =>
    refine ⟨fun _ => ⟨Mode.noConfusion,fun hm => Mode.noConfusion hm⟩,fun _ => ?_⟩
    refine ⟨?_,?_,hactive,hquiet⟩
    · exact (ite_eq_left_iff.mpr fun _ => hmode)
    · exact (ite_eq_left_iff.mpr fun _ => hidx)
  | header =>
    unfold headerByte
    by_cases hfull : old.parser.hdrIdx=31#5
    · rw [if_pos hfull]
      obtain ⟨hiff,hnext⟩ := @record_flushed { n with parser := { n.parser with
          hdr := setHdr old.parser.hdr old.parser.hdrIdx rx, hdrIdx := 0#5 } } old
        (setHdr old.parser.hdr old.parser.hdrIdx rx) hmode hactive
      obtain ⟨_,_,_,_,_,hvalid,_⟩ := record_keeps old
        (setHdr old.parser.hdr old.parser.hdrIdx rx) { n with parser := { n.parser with
          hdr := setHdr old.parser.hdr old.parser.hdrIdx rx, hdrIdx := 0#5 } }
      constructor
      · exact fun hf => ⟨Mode.noConfusion,fun _ => ⟨hfull,hiff.mp ⟨hf.1,hf.2.2.1⟩⟩⟩
      · intro hs
        have hboth := hiff.mpr (hs.2 rfl).2
        exact ⟨hboth.1,hnext,hboth.2,hvalid.trans hquiet⟩
    · rw [if_neg hfull]
      refine ⟨fun hf => ?_,fun hs => absurd (hs.2 rfl).1 hfull⟩
      have hzero := hf.2.1
      have hinc : (1 : BitVec 5).toNat=1 := rfl
      have hmax : old.parser.hdrIdx.toNat≠31 := fun hm => hfull (BitVec.eq_of_toNat_eq hm)
      rw [← BitVec.toNat_inj,BitVec.toNat_add,hinc,BitVec.toNat_ofNat] at hzero
      omega

theorem flushed_consume {bitFeed : Bool} (hn : Cleared n r) :
    FullyFlushed r (consumeArm bitFeed r i n) ↔ (consumes bitFeed r i=true → LastByte r) := by
  have h := hn.fullyFlushed
  unfold consumeArm
  by_cases hgo : consumes bitFeed r i=true
  · rw [if_pos hgo]
    have hparse := parseByte_flushed (n := advance r n) bitFeed r
      (beatByte r.beat.beatQ r.beat.byteIdx) hn.parser h.session h.quiet
    obtain ⟨hbeat,hcounts,_⟩ := parseByte_keeps bitFeed r (beatByte r.beat.beatQ r.beat.byteIdx)
      (advance r n)
    have hleft : r.beat.beatLeft-1=0#4 ↔ r.beat.beatLeft=1#4 := by
      have hdec : (1 : BitVec 4).toNat=1 := rfl
      rw [← BitVec.toNat_inj,← BitVec.toNat_inj,BitVec.toNat_sub,hdec,BitVec.toNat_ofNat,
        BitVec.toNat_ofNat]
      omega
    have hsame : FullyFlushed r (consumeByte bitFeed r n) ↔ FullyFlushed r
        (parseByte bitFeed r (beatByte r.beat.beatQ r.beat.byteIdx) (advance r n)) := by
      unfold consumeByte
      split_ifs
      · exact ⟨fun hf => { hf with },
          fun hf => { hf with }⟩
      · exact Iff.rfl
    rw [hsame]
    constructor
    · intro hf _
      have hread := hf.read
      have hzero := hf.beat
      rw [hcounts] at hread
      rw [hbeat] at hzero
      exact ⟨hleft.mp hzero,hread,hparse.mp ⟨hf.mode,hf.idx,hf.session,hf.quiet⟩⟩
    · intro hlast
      obtain ⟨hone,hread,hrest⟩ := hlast hgo
      obtain ⟨hmode,hidx,hactive,hquiet⟩ := hparse.mpr hrest
      refine ⟨?_,hmode,hidx,?_,hactive,hquiet⟩
      · rw [hcounts]
        exact hread
      · rw [hbeat]
        exact hleft.mpr hone
  · split_ifs
    · exact ⟨fun _ hc => absurd hc hgo,fun _ => { h with }⟩
    · exact ⟨fun _ hc => absurd hc hgo,fun _ => h⟩

/-- A flush edge leaves the reader fully flushed if and only if no arm takes from it what
it assigns. -/
theorem fullyFlushed_iff (r : Reader) {i : Cycle} (h : Flushing i) :
    FullyFlushed r (step bitFeed r i) ↔ Unopposed bitFeed r i := by
  have hn : Cleared (preamble r i) r := preamble_cleared h.flush
  rw [step_flushing bitFeed h]
  unfold arm Unopposed
  cases hstate : r.state with
  | reset =>
    have hf := hn.fullyFlushed
    exact ⟨fun _ => ⟨fun hs => ReaderState.noConfusion hs,fun hs => ReaderState.noConfusion hs,
        fun hs => ReaderState.noConfusion hs⟩,
      fun _ => { hf with }⟩
  | idle =>
    exact ⟨fun _ => ⟨fun hs => ReaderState.noConfusion hs,fun hs => ReaderState.noConfusion hs,
        fun hs => ReaderState.noConfusion hs⟩,fun _ => flushed_idle hn⟩
  | poll =>
    exact ⟨fun hf => ⟨fun _ => (flushed_poll hn).mp hf,fun hs => ReaderState.noConfusion hs,
        fun hs => ReaderState.noConfusion hs⟩,fun hs => (flushed_poll hn).mpr (hs.1 rfl)⟩
  | readWait =>
    exact ⟨fun hf => ⟨fun hs => ReaderState.noConfusion hs,fun _ => (flushed_readWait hn).mp hf,
        fun hs => ReaderState.noConfusion hs⟩,fun hs => (flushed_readWait hn).mpr (hs.2.1 rfl)⟩
  | consume =>
    exact ⟨fun hf => ⟨fun hs => ReaderState.noConfusion hs,fun hs => ReaderState.noConfusion hs,
        fun _ => (flushed_consume hn).mp hf⟩,fun hs => (flushed_consume hn).mpr (hs.2.2 rfl)⟩

end Misterplex.Ring
