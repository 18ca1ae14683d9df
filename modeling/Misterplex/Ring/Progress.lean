import Misterplex.Ring.RecordStream

/-!
# Progress

When the bus is free, answers come at once and the sink takes every byte, a rank of
the registers decreases at every edge until the stream is consumed.
-/

namespace Misterplex.Ring

open Emulation Trace BitVec

/-- The bus is free, answers come at once, the sink takes every byte and a poll is
answered with more than is consumed while the stream goes on. -/
def Prompt (total : ℕ) (r : Reader) (l : RingCycle) : Prop :=
  l.cycle.busy=false ∧ l.cycle.outFull=false ∧ l.cycle.bitFeedInReady=true ∧
  l.cycle.doutReady=true ∧
  (r.state = .poll → polls r l.cycle=true ∧
    (r.counts.readCount.toNat<total → r.counts.readCount.toNat<l.total))

instance (total : ℕ) (r : Reader) (l : RingCycle) : Decidable (Prompt total r l) := by
  unfold Prompt
  infer_instance

/-- Words of a publication that are left. -/
def wordsLeft (t : Telemetry) : ℕ := if t.publishPending then 9-min t.publishStep.toNat 8 else 0

variable (starved : Bool)

/-- The edges that publications take. A reader that starves can ask for one more. -/
def publishRank (t : Telemetry) : ℕ :=
  (if starved && !t.emptySeen then 2000 else 0)+200*wordsLeft t

/-- The bus is in use. -/
def occupied (b : Bus) : ℕ := if b.rd || b.we then 1 else 0

/-- The edges that the states of a starving reader take: it waits for the next poll. -/
def starvedRank (r : Reader) : ℕ :=
  match r.state with
  | .reset => 4000
  | .idle => 70*occupied r.bus+(64-r.pollDiv.toNat)%64+1
  | _ => 0

/-- The edges that the states of a reader take that has something to read. -/
def fedRank (r : Reader) : ℕ :=
  match r.state with
  | .reset => 4000
  | .idle => 40*occupied r.bus+if r.pollDiv = 0#6 then 10 else 5
  | .poll => if r.pollDiv = 63#6 then 30 else 7
  | .readWait => 3
  | .consume => 2

/-- The edges to the next byte. -/
def byteRank (r : Reader) : ℕ :=
  if avail r.counts = 0#32 then 8192+(publishRank true r.telem+starvedRank r)
  else publishRank false r.telem+fedRank r

/-- The edges to the end of the stream. -/
def streamRank (total : ℕ) (r : Reader) : ℕ :=
  16384*(total-r.counts.readCount.toNat)+byteRank r

theorem wordsLeft_le (t : Telemetry) : wordsLeft t≤9 := by
  unfold wordsLeft
  split_ifs
  · omega
  · omega

theorem occupied_le (b : Bus) : occupied b≤1 := by
  unfold occupied
  split_ifs
  · exact Nat.le_refl 1
  · exact Nat.zero_le 1

theorem publishRank_le (t : Telemetry) : publishRank starved t≤3800 := by
  have hwords := wordsLeft_le t
  unfold publishRank
  split_ifs
  · omega
  · omega

theorem publishRank_seen {t : Telemetry} (h : t.emptySeen=true) :
    publishRank starved t=200*wordsLeft t := by
  unfold publishRank
  rw [h,Bool.not_true,Bool.and_false,if_neg Bool.false_ne_true,Nat.zero_add]

theorem publishRank_unseen {t : Telemetry} (h : t.emptySeen=false) :
    publishRank true t=2000+200*wordsLeft t := by
  unfold publishRank
  rw [h]
  rfl

theorem fedRank_le (r : Reader) : fedRank r≤4000 := by
  have hbus := occupied_le r.bus
  unfold fedRank
  cases r.state with
  | reset => exact Nat.le_refl _
  | idle => dsimp only; split_ifs <;> omega
  | poll => dsimp only; split_ifs <;> omega
  | readWait => dsimp only; omega
  | consume => dsimp only; omega

theorem starvedRank_le (r : Reader) : starvedRank r≤4000 := by
  have hbus := occupied_le r.bus
  unfold starvedRank
  cases r.state with
  | reset => exact Nat.le_refl _
  | idle => dsimp only; omega
  | poll => exact Nat.zero_le _
  | readWait => exact Nat.zero_le _
  | consume => exact Nat.zero_le _

theorem byteRank_lt (r : Reader) : byteRank r<16384 := by
  have hfed := fedRank_le r
  have hstarved := starvedRank_le r
  have htrue := publishRank_le true r.telem
  have hfalse := publishRank_le false r.telem
  unfold byteRank
  split_ifs
  · omega
  · omega

variable (bitFeed : Bool) {r n : Reader} {i : Cycle}

theorem preamble_bus (h : i.flush=false) :
    (preamble r i).pollDiv=r.pollDiv+1 ∧ occupied (preamble r i).bus=0 := by
  unfold preamble
  dsimp only
  rw [h,if_neg Bool.false_ne_true]
  obtain ⟨t,hchecks,_⟩ := checks_telem r { pulses r i with pollDiv := r.pollDiv+1 }
  rw [hchecks]
  exact ⟨rfl,rfl⟩

/-- The preamble asks for no publication unless the reader starves, and then for one. -/
theorem preamble_telem (h : i.flush=false)
    (hquiet : (r.telem.overrunSticky || decide (BitVec.ofNat 32 ringBytes<avail r.counts))=false) :
    (preamble r i).telem.publishStep=r.telem.publishStep ∧
    publishRank (decide (avail r.counts=0#32)) (preamble r i).telem ≤
      publishRank (decide (avail r.counts=0#32)) r.telem ∧
    (avail r.counts=0#32 → r.telem.emptySeen=true → (preamble r i).telem.emptySeen=true) := by
  have hsmall : ¬(BitVec.ofNat 32 ringBytes<avail r.counts ∧ r.telem.overrunSticky=false) := by
    intro hc
    rw [Bool.or_eq_false_iff] at hquiet
    exact of_decide_eq_false hquiet.2 hc.1
  obtain ⟨out,bus,hpulses,_⟩ := pulses_held r i
  unfold preamble
  rw [hpulses,h]
  dsimp only [Bool.false_eq_true,if_false]
  rw [if_neg Bool.false_ne_true]
  unfold overrunCheck
  unfold underrunCheck
  split_ifs with hunder hsome
  · have hempty : r.telem.emptySeen=false ∧ avail r.counts=0#32 := by
      simp only [Bool.and_eq_true,Bool.not_eq_true',beq_iff_eq] at hunder
      exact ⟨hunder.1.2,hunder.1.1.1.2⟩
    refine ⟨rfl,?_,fun _ _ => rfl⟩
    rw [decide_eq_true hempty.2,publishRank_unseen hempty.1]
    refine Nat.le_trans (Nat.le_of_eq (publishRank_seen true rfl)) ?_
    refine Nat.le_trans (Nat.mul_le_mul_left 200 (wordsLeft_le _)) ?_
    omega
  · refine ⟨rfl,?_,fun hzero => absurd hzero hsome⟩
    rw [decide_eq_false hsome]
    exact Nat.le_refl _
  · exact ⟨rfl,Nat.le_refl _,fun _ he => he⟩

theorem publish_rank (hpending : r.telem.publishPending=true)
    (hseen : starved=true → r.telem.emptySeen=true → n.telem.emptySeen=true) :
    publishRank starved (publish r n).telem+200≤publishRank starved r.telem := by
  have hwords : wordsLeft (publish r n).telem+1≤wordsLeft r.telem := by
    have hdue : wordsLeft r.telem=9-min r.telem.publishStep.toNat 8 := if_pos hpending
    by_cases hlast : 8≤r.telem.publishStep.toNat
    · have hdone : (publish r n).telem.publishPending=false := if_pos hlast
      have hzero : wordsLeft (publish r n).telem=0 := by
        unfold wordsLeft
        rw [hdone]
        rfl
      omega
    · have hstep : (publish r n).telem.publishStep=r.telem.publishStep+1 := if_neg hlast
      have hinc : (1 : BitVec 4).toNat=1 := rfl
      have hless : wordsLeft (publish r n).telem≤9-min (publish r n).telem.publishStep.toNat 8 := by
        unfold wordsLeft
        split_ifs
        · exact Nat.le_refl _
        · exact Nat.zero_le _
      rw [hstep,toNat_add,hinc] at hless
      omega
  have hcredit : (if starved && !(publish r n).telem.emptySeen then 2000 else 0) ≤
      (if starved && !r.telem.emptySeen then 2000 else 0 : ℕ) := by
    have hsame : (publish r n).telem.emptySeen=n.telem.emptySeen := rfl
    rw [hsame]
    cases starved with
    | false => exact Nat.le_refl _
    | true =>
      cases hold : r.telem.emptySeen with
      | false => simp; split_ifs <;> omega
      | true => rw [hseen rfl hold]
  unfold publishRank
  omega

/-- What an idle reader does when the memory is not busy. -/
inductive IdleEdge (r : Reader) (i : Cycle) (m : Reader) : Prop
  | publish : r.telem.publishPending=true → m.state = .idle →
      m.telem=(Ring.publish r (preamble r i)).telem → IdleEdge r i m
  | wait : occupied r.bus=1 → m.state = .idle → occupied m.bus=0 →
      m.telem=(preamble r i).telem → IdleEdge r i m
  | poll : r.pollDiv=0#6 → m.state = .poll → m.telem=(preamble r i).telem → IdleEdge r i m
  | read : wantRead r i=true → m.state = .readWait → m.telem=(preamble r i).telem →
      IdleEdge r i m
  | rest : r.pollDiv≠0#6 → wantRead r i=false → m.state = .idle → occupied m.bus=0 →
      m.telem=(preamble r i).telem → IdleEdge r i m

theorem step_idle_free (h : Steady i) (hstate : r.state = .idle) (hbusy : i.busy=false) :
    (step bitFeed r i).pollDiv=r.pollDiv+1 ∧ IdleEdge r i (step bitFeed r i) := by
  obtain ⟨_,hpre,_⟩ := preamble_held (r := r) h.flush
  obtain ⟨hdiv,hfree⟩ := preamble_bus (r := r) h.flush
  have hpre' := hpre.trans hstate
  rw [step_steady bitFeed h]
  unfold arm
  rw [hstate]
  unfold idleArm
  dsimp only
  rw [hbusy,Bool.not_false,Bool.true_and]
  by_cases hocc : (!r.bus.rd && !r.bus.we)=true
  · rw [hocc,Bool.and_true,Bool.and_true,Bool.and_true]
    split_ifs with hpublish hpoll hread
    · exact ⟨hdiv,IdleEdge.publish hpublish hpre' rfl⟩
    · have hzero : r.pollDiv=0#6 := beq_iff_eq.mp (Bool.and_eq_true_iff.mp hpoll).2
      exact ⟨hdiv,IdleEdge.poll hzero rfl rfl⟩
    · exact ⟨hdiv,IdleEdge.read hread rfl rfl⟩
    · have hsome : r.pollDiv≠0#6 := by
        intro hzero
        unfold wantPoll at hpoll
        rw [hzero,h.enable] at hpoll
        exact hpoll rfl
      exact ⟨hdiv,IdleEdge.rest hsome (Bool.not_eq_true _ ▸ hread) hpre' hfree rfl⟩
  · have hused : occupied r.bus=1 := by
      unfold occupied
      cases hrd : r.bus.rd with
      | true => rfl
      | false =>
        cases hwe : r.bus.we with
        | true => rfl
        | false => exact absurd (by rw [hrd,hwe]; rfl) hocc
    have hnot : (!r.bus.rd && !r.bus.we)=false := Bool.not_eq_true _ ▸ hocc
    rw [hnot,Bool.and_false,Bool.and_false,Bool.and_false,
      if_neg Bool.false_ne_true,if_neg Bool.false_ne_true,if_neg Bool.false_ne_true]
    exact ⟨hdiv,IdleEdge.wait hused hpre' hfree rfl⟩

variable {s₀ : SessionState} {cs : List Record} {l : RingCycle}

open ReaderState

theorem Consistent.idle_rank (h : Consistent s₀ cs r) (htrue : Truthful (encodeAll cs) r l)
    (hbusy : l.cycle.busy=false) (hstate : r.state = .idle) :
    byteRank (ringStep bitFeed r l)<byteRank r := by
  obtain ⟨hheld,_⟩ := step_idle bitFeed htrue.1 hstate
  obtain ⟨hdiv,hedge⟩ := step_idle_free bitFeed htrue.1 hstate hbusy
  obtain ⟨_,hrank,hseen⟩ := preamble_telem htrue.1.flush h.quiet
  have hdivs : (step bitFeed r l.cycle).pollDiv.toNat=(r.pollDiv.toNat+1)%64 := by
    have hinc : (1 : BitVec 6).toNat=1 := rfl
    rw [hdiv,toNat_add,hinc]
  have hocc := occupied_le (step bitFeed r l.cycle).bus
  unfold ringStep byteRank
  rw [hheld.counts]
  by_cases hzero : Ring.avail r.counts=0#32
  · rw [if_pos hzero,if_pos hzero]
    rw [decide_eq_true hzero] at hrank
    have hidle : starvedRank r=70*occupied r.bus+(64-r.pollDiv.toNat)%64+1 := by
      unfold starvedRank
      rw [hstate]
    have hstays : (step bitFeed r l.cycle).state = .idle → starvedRank (step bitFeed r l.cycle) =
        70*occupied (step bitFeed r l.cycle).bus +
          (64-(step bitFeed r l.cycle).pollDiv.toNat)%64+1 := by
      intro hs
      unfold starvedRank
      rw [hs]
    cases hedge with
    | publish hpending hs htelem =>
      have hless := publish_rank (n := preamble r l.cycle) true hpending (fun _ => hseen hzero)
      rw [htelem]
      rw [hstays hs]
      omega
    | wait hused hs hfree htelem =>
      rw [htelem,hidle,hstays hs,hfree,hused]
      omega
    | poll hdue hs htelem =>
      have hnext : starvedRank (step bitFeed r l.cycle)=0 := by
        unfold starvedRank
        rw [hs]
      rw [htelem,hidle,hnext]
      omega
    | read hwant hs htelem =>
      unfold wantRead ringHasData at hwant
      rw [hzero] at hwant
      simp at hwant
    | rest hlater hwant hs hfree htelem =>
      have hpos : r.pollDiv.toNat≠0 := fun hz => hlater (eq_of_toNat_eq hz)
      rw [htelem,hidle,hstays hs,hfree,hdivs]
      omega
  · rw [if_neg hzero,if_neg hzero]
    rw [decide_eq_false hzero] at hrank
    have hidle : fedRank r = 40*occupied r.bus+if r.pollDiv = 0#6 then 10 else 5 := by
      unfold fedRank
      rw [hstate]
    have hidle5 : 40*occupied r.bus+5≤fedRank r := by
      rw [hidle]
      split_ifs
      · omega
      · omega
    have hstays : (step bitFeed r l.cycle).state = .idle → fedRank (step bitFeed r l.cycle) ≤
        40*occupied (step bitFeed r l.cycle).bus+10 := by
      intro hs
      unfold fedRank
      rw [hs]
      dsimp only
      split_ifs
      · omega
      · omega
    cases hedge with
    | publish hpending hs htelem =>
      have hless := publish_rank (n := preamble r l.cycle) false hpending
        (fun hs => absurd hs Bool.false_ne_true)
      have hafter := hstays hs
      rw [htelem]
      omega
    | wait hused hs hfree htelem =>
      have hafter := hstays hs
      rw [htelem]
      omega
    | poll hdue hs htelem =>
      have hnext : fedRank (step bitFeed r l.cycle)=7 := by
        have hone : (step bitFeed r l.cycle).pollDiv≠63#6 := by
          rw [hdiv,hdue]
          decide
        unfold fedRank
        rw [hs]
        exact if_neg hone
      rw [htelem,hidle,hnext,if_pos hdue]
      omega
    | read hwant hs htelem =>
      have hnext : fedRank (step bitFeed r l.cycle)=3 := by
        unfold fedRank
        rw [hs]
      rw [htelem,hnext]
      omega
    | rest hlater hwant hs hfree htelem =>
      have hsome : (Ring.avail r.counts).toNat≠0 := fun hz => hzero (eq_of_toNat_eq hz)
      rw [h.avail] at hsome
      have hleft : r.beat.beatLeft=0#4 := h.empty.mp (by rw [hstate]; exact noConfusion)
      have hdata : wantRead r l.cycle=true := by
        unfold wantRead ringHasData
        rw [htrue.1.enable,h.announced (by omega),h.overrun,h.fatal,hleft]
        simp [hzero]
      exact absurd (hwant.symm.trans hdata) Bool.false_ne_true

/-- The clocks that wait for the bus. -/
theorem step_waiting (h : Steady i) (hready : i.doutReady=true) :
    (r.state = .reset → (step bitFeed r i).pollDiv=r.pollDiv+1 ∧
      occupied (step bitFeed r i).bus=0) ∧
    (r.state = .poll → ctrlMagicOk i.dout=true → ctrlReset i.dout=r.counts.resetSeen →
      (step bitFeed r i).telem=(preamble r i).telem ∧
      (step bitFeed r i).pollDiv=r.pollDiv+1 ∧ occupied (step bitFeed r i).bus=0) ∧
    (r.state = .readWait → (step bitFeed r i).telem=(preamble r i).telem) := by
  obtain ⟨hdiv,hfree⟩ := preamble_bus (r := r) h.flush
  rw [step_steady bitFeed h]
  unfold arm
  refine ⟨fun hstate => ?_,fun hstate hmagic hsame => ?_,fun hstate => ?_⟩
  · rw [hstate]
    exact ⟨hdiv,hfree⟩
  · rw [hstate]
    unfold pollArm
    rw [if_pos hready,if_pos hmagic]
    rw [if_neg (not_not_intro hsame)]
    exact ⟨rfl,hdiv,hfree⟩
  · rw [hstate]
    unfold readWaitArm
    rw [if_pos hready]

theorem reset_rank (htrue : Truthful (encodeAll cs) r l)
    (hready : l.cycle.doutReady=true) (hstate : r.state = .reset) :
    byteRank (ringStep bitFeed r l)<byteRank r := by
  obtain ⟨hheld,hnew⟩ := step_reset bitFeed htrue.1 hstate
  obtain ⟨hdiv,hfree⟩ := (step_waiting bitFeed htrue.1 hready).1 hstate
  have hbefore : fedRank r=4000 ∧ starvedRank r=4000 := by
    unfold fedRank starvedRank
    rw [hstate]
    exact ⟨rfl,rfl⟩
  have hfed : fedRank (step bitFeed r l.cycle)≤10 := by
    unfold fedRank
    rw [hnew]
    dsimp only
    split_ifs
    · omega
    · omega
  have hstarved : starvedRank (step bitFeed r l.cycle)≤64 := by
    unfold starvedRank
    rw [hnew]
    dsimp only
    omega
  have htrue' := publishRank_le true (step bitFeed r l.cycle).telem
  have hfalse := publishRank_le false (step bitFeed r l.cycle).telem
  unfold ringStep byteRank
  rw [hheld.counts]
  split_ifs
  · omega
  · omega

theorem Consistent.poll_rank (h : Consistent s₀ cs r) (htrue : Truthful (encodeAll cs) r l)
    (hlen : (encodeAll cs).length<2^31) (hpolls : polls r l.cycle=true)
    (hmore : r.counts.readCount.toNat<l.total) :
    byteRank (ringStep bitFeed r l)<byteRank r := by
  obtain ⟨hstate,hready,hmagic⟩ := of_decide_eq_true hpolls
  obtain ⟨hword,hge,hle,hring⟩ := htrue.2.1 hpolls
  have hsame : ctrlReset l.cycle.dout=r.counts.resetSeen := by
    rw [hword]
    exact ctrlReset_ctrlWord _ _
  have hwrite : (ctrlWriteCount l.cycle.dout).toNat=l.total := by
    rw [hword,ctrlWriteCount_ctrlWord,Nat.mod_eq_of_lt (by omega)]
  obtain ⟨htelem,hdiv,hfree⟩ :=
    (step_waiting bitFeed htrue.1 hready).2.1 hstate hmagic hsame
  obtain ⟨_,hidle,hcounts⟩ := step_poll_same bitFeed htrue.1 hstate hready hmagic hsame
  have hpolled : Quiet s₀ cs r (ringStep bitFeed r l) := h.poll htrue hlen hpolls
  have hnext := hpolled.consistent
  have hfed : Ring.avail (step bitFeed r l.cycle).counts≠0#32 := by
    intro hzero
    have havail := hnext.avail
    unfold ringStep at havail
    rw [hzero,hcounts] at havail
    unfold polledCounts at havail
    dsimp only at havail
    rw [hwrite,toNat_ofNat] at havail
    omega
  have hafter : fedRank (step bitFeed r l.cycle) = if r.pollDiv = 63#6 then 10 else 5 := by
    have hwrap : r.pollDiv+1=0#6 ↔ r.pollDiv=63#6 := by
      have hinc : (1 : BitVec 6).toNat=1 := rfl
      rw [← toNat_inj,← toNat_inj,toNat_add,hinc,toNat_ofNat,
        toNat_ofNat]
      omega
    unfold fedRank
    rw [hidle]
    rw [hfree,hdiv]
    by_cases hlast : r.pollDiv=63#6
    · rw [if_pos (hwrap.mpr hlast),if_pos hlast]
    · rw [if_neg (fun hz => hlast (hwrap.mp hz)),if_neg hlast]
  have hbefore : fedRank r = if r.pollDiv = 63#6 then 30 else 7 := by
    unfold fedRank
    rw [hstate]
  obtain ⟨_,hrank,_⟩ := preamble_telem htrue.1.flush h.quiet
  have hbound := publishRank_le false (preamble r l.cycle).telem
  unfold ringStep byteRank
  rw [if_neg hfed,htelem,hafter,hbefore]
  by_cases hzero : Ring.avail r.counts=0#32
  · split_ifs
    · omega
    · omega
  · rw [decide_eq_false hzero] at hrank
    split_ifs
    · omega
    · omega

theorem Consistent.read_rank (h : Consistent s₀ cs r) (htrue : Truthful (encodeAll cs) r l)
    (hready : l.cycle.doutReady=true) (hstate : r.state = .readWait) :
    byteRank (ringStep bitFeed r l)<byteRank r := by
  have htelem := (step_waiting bitFeed htrue.1 hready).2.2 hstate
  obtain ⟨hheld,hnew,_⟩ := step_readWait bitFeed htrue.1 hstate hready
  have hcounts : (step bitFeed r l.cycle).counts=r.counts := hheld.counts
  obtain ⟨_,hrank,_⟩ := preamble_telem htrue.1.flush h.quiet
  have hfed : Ring.avail r.counts≠0#32 := by
    intro hzero
    have hsome := (h.asked hstate).2.2
    have havail := h.avail
    rw [hzero,toNat_ofNat] at havail
    omega
  have hranks : fedRank r=3 ∧ fedRank (step bitFeed r l.cycle)=2 := by
    unfold fedRank
    rw [hstate,hnew]
    exact ⟨rfl,rfl⟩
  rw [decide_eq_false hfed] at hrank
  unfold ringStep byteRank
  rw [hcounts,if_neg hfed,if_neg hfed,htelem,hranks.1,hranks.2]
  omega

theorem Consistent.rank (h : Consistent s₀ cs r) (htrue : Truthful (encodeAll cs) r l)
    (hprompt : Prompt (encodeAll cs).length r l) (hlen : (encodeAll cs).length<2^31)
    (hmore : r.counts.readCount.toNat<(encodeAll cs).length) :
    streamRank (encodeAll cs).length (ringStep bitFeed r l)<streamRank (encodeAll cs).length r := by
  obtain ⟨hbusy,hfull,hready,hanswer,hpoll⟩ := hprompt
  have hkept : takes bitFeed r l.cycle=false →
      (ringStep bitFeed r l).counts.readCount=r.counts.readCount := fun htakes =>
    (h.other htrue hlen htakes).read
  have hdown : takes bitFeed r l.cycle=false →
      byteRank (ringStep bitFeed r l)<byteRank r →
      streamRank (encodeAll cs).length (ringStep bitFeed r l)<streamRank (encodeAll cs).length r := by
    intro htakes hless
    unfold streamRank
    rw [hkept htakes]
    omega
  cases hstate : r.state with
  | reset =>
    exact hdown (takes_eq_false (by rw [hstate]; exact noConfusion))
      (reset_rank bitFeed htrue hanswer hstate)
  | idle =>
    exact hdown (takes_eq_false (by rw [hstate]; exact noConfusion))
      (h.idle_rank bitFeed htrue hbusy hstate)
  | poll =>
    obtain ⟨hpolls,hprogress⟩ := hpoll hstate
    exact hdown (takes_eq_false (by rw [hstate]; exact noConfusion))
      (h.poll_rank bitFeed htrue hlen hpolls (hprogress hmore))
  | readWait =>
    exact hdown (takes_eq_false (by rw [hstate]; exact noConfusion))
      (h.read_rank bitFeed htrue hanswer hstate)
  | consume =>
    have hleft : r.beat.beatLeft≠0#4 := fun hzero => h.empty.mpr hzero hstate
    have hgo : consumes bitFeed r l.cycle=true := by
      unfold consumes canConsume payloadSinkOk
      rw [hfull,hready]
      simp [hleft]
    obtain ⟨_,_,hcounts,_⟩ := step_consume bitFeed htrue.1 hstate hgo
    have hread : (ringStep bitFeed r l).counts.readCount.toNat=r.counts.readCount.toNat+1 := by
      have hinc : (1 : BitVec 32).toNat=1 := rfl
      unfold ringStep
      rw [hcounts]
      rw [toNat_add,hinc]
      omega
    have hbound := byteRank_lt (ringStep bitFeed r l)
    unfold streamRank
    omega

theorem Consistent.emitted (hform : ∀ c∈cs, c.WellFormed) (hbegin : NoBeginInSession s₀ cs)
    (hlen : (encodeAll cs).length<2^31) {ls : List RingCycle}
    (hrun : Along (ringStep bitFeed) (Truthful (encodeAll cs)) r ls) (h : Consistent s₀ cs r) :
    deliveredUpTo s₀ cs (finalState (ringStep bitFeed) r ls).counts.readCount.toNat =
      deliveredUpTo s₀ cs r.counts.readCount.toNat ++
        Trace.emitted (ringStep bitFeed) (fun r l => presented (ringStep bitFeed r l)) r ls := by
  induction ls generalizing r with
  | nil => rw [finalState_nil,emitted_nil,List.append_nil]
  | cons l ls ih =>
    have hnext : Consistent s₀ cs (ringStep bitFeed r l) := (h.next hrun.1 hform hbegin hlen).1
    have hpresents : deliveredUpTo s₀ cs (ringStep bitFeed r l).counts.readCount.toNat =
        deliveredUpTo s₀ cs r.counts.readCount.toNat ++ presented (ringStep bitFeed r l) :=
      (h.next hrun.1 hform hbegin hlen).2
    rw [finalState_cons,emitted_cons,ih hrun.2 hnext,hpresents,List.append_assoc]

theorem Consistent.forward (h : Consistent s₀ cs r) (htrue : Truthful (encodeAll cs) r l)
    (hlen : (encodeAll cs).length<2^31) :
    r.counts.readCount.toNat≤(ringStep bitFeed r l).counts.readCount.toNat := by
  by_cases htakes : takes bitFeed r l.cycle=true
  · obtain ⟨hstate,hgo⟩ := of_decide_eq_true htakes
    obtain ⟨_,_,hcounts,_⟩ := step_consume bitFeed htrue.1 hstate hgo
    have hbehind := h.behind
    have htotal := h.total
    have hinc : (1 : BitVec 32).toNat=1 := rfl
    unfold ringStep
    rw [hcounts]
    rw [toNat_add,hinc]
    omega
  · have hquiet : Quiet s₀ cs r (ringStep bitFeed r l) :=
      h.other htrue hlen (Bool.not_eq_true _ ▸ htakes)
    rw [hquiet.read]

theorem Consistent.consumed (hform : ∀ c∈cs, c.WellFormed) (hbegin : NoBeginInSession s₀ cs)
    (hlen : (encodeAll cs).length<2^31) {ls : List RingCycle}
    (hrun : Along (ringStep bitFeed) (Truthful (encodeAll cs)) r ls)
    (hprompt : Along (ringStep bitFeed) (Prompt (encodeAll cs).length) r ls)
    (hlong : 16384*((encodeAll cs).length+1)≤ls.length) (h : Consistent s₀ cs r) :
    (finalState (ringStep bitFeed) r ls).counts.readCount.toNat=(encodeAll cs).length := by
  have hnext : ∀ r l, Consistent s₀ cs r →
      Truthful (encodeAll cs) r l ∧ Prompt (encodeAll cs).length r l →
      Consistent s₀ cs (ringStep bitFeed r l) := fun r l hr hl =>
    (hr.next hl.1 hform hbegin hlen).1
  have hbounded : ∀ r, Consistent s₀ cs r → r.counts.readCount.toNat≤(encodeAll cs).length :=
    fun r hr => Nat.le_trans hr.behind hr.total
  refine Along.reaches (Consistent s₀ cs)
    (fun r => r.counts.readCount.toNat=(encodeAll cs).length) (streamRank (encodeAll cs).length)
    hnext ?_ ?_ (hrun.and hprompt) h (Or.inr ?_)
  · intro r l hr hl hdone
    have hforward := hr.forward bitFeed hl.1 hlen
    have hbound := hbounded _ (hnext r l hr hl)
    exact Nat.le_antisymm hbound (hdone ▸ hforward)
  · intro r l hr hl hmore
    have hbound := hbounded r hr
    exact Or.inr (hr.rank bitFeed hl.1 hl.2 hlen (by omega))
  · have hbyte := byteRank_lt r
    unfold streamRank
    omega

/-- In every run from the start of a stream of records, with any pieces, polls and
stalls, the reader has presented what the session rules deliver of the bytes it has
consumed, the last flag stands with presented bytes only and the consumer has not passed
the producer. After enough prompt cycles everything the rules deliver is presented. -/
theorem presented_eq_delivered (bitFeed : Bool) (r : Reader) (cs : List Record) (ls : List RingCycle)
    (hfresh : Fresh r) (hform : ∀ c∈cs, c.WellFormed)
    (hbegin : NoBeginInSession r.session.toState cs) (hlen : (encodeAll cs).length<2^31)
    (hrun : Along (ringStep bitFeed) (Truthful (encodeAll cs)) r ls) :
    Trace.emitted (ringStep bitFeed) (fun r l => presented (ringStep bitFeed r l)) r ls =
      deliveredUpTo r.session.toState cs
        (finalState (ringStep bitFeed) r ls).counts.readCount.toNat ∧
    Throughout (ringStep bitFeed) (fun r => (r.out.outLast=true → r.out.outValid=true) ∧
      r.counts.readCount.toNat≤r.counts.writeCount.toNat) r ls ∧
    ∀ before after : List RingCycle, ls = before ++ after →
      Along (ringStep bitFeed) (Prompt (encodeAll cs).length)
        (finalState (ringStep bitFeed) r before) after →
      16384*((encodeAll cs).length+1)≤after.length →
      Trace.emitted (ringStep bitFeed) (fun r l => presented (ringStep bitFeed r l)) r ls =
        deliveredAll r.session.toState cs := by
  have hstart := hfresh.consistent cs
  have hall : Throughout (ringStep bitFeed) (Consistent r.session.toState cs) r ls :=
    hrun.throughout (fun r l hr hl => (hr.next hl hform hbegin hlen).1) hstart
  have hemitted := Consistent.emitted bitFeed hform hbegin hlen hrun hstart
  rw [hfresh.read,toNat_ofNat,Nat.zero_mod,deliveredUpTo_zero,List.nil_append] at hemitted
  refine ⟨hemitted.symm,hall.mono fun r hr => ⟨hr.last,hr.behind⟩,?_⟩
  intro before after hsplit hprompt hlong
  subst hsplit
  have hparts := hrun.split
  have hmiddle : Consistent r.session.toState cs (finalState (ringStep bitFeed) r before) :=
    (hparts.1.throughout (fun r l hr hl => (hr.next hl hform hbegin hlen).1) hstart).last
  have hend := hmiddle.consumed bitFeed hform hbegin hlen hparts.2 hprompt hlong
  rw [← hemitted,finalState_append,hend,deliveredUpTo_all]

/-- The memory that holds a short stream from the start of the ring on. -/
def ringImage (stream : List Byte) (addr : BitVec 29) : BitVec 64 :=
  let byte := fun k => stream.getD (8*(addr-dataW).toNat+k) 0#8
  byte 7 ++ byte 6 ++ byte 5 ++ byte 4 ++ byte 3 ++ byte 2 ++ byte 1 ++ byte 0

/-- The cycle that answers a reader at once. -/
def promptCycle (stream : List Byte) (r : Reader) : RingCycle where
  cycle := Cycle.answer (if r.state = .poll then ctrlWord r.counts.resetSeen stream.length
    else ringImage stream r.bus.addr)
  total := stream.length
  memory := ringImage stream

/-- So many cycles that answer the reader at once. -/
def promptRun (bitFeed : Bool) (stream : List Byte) : ℕ → Reader → List RingCycle
  | 0,_ => []
  | n+1,r => promptCycle stream r ::
      promptRun bitFeed stream n (ringStep bitFeed r (promptCycle stream r))

/-- A session with a NAL record of two bytes and one with a wrong number. -/
def shortStream : List Record :=
  [{ event := .begin, session := 7#64 },
   { event := .nal, session := 7#64, seq := 5#32, payload := [1#8] },
   { event := .nal, session := 7#64, payload := [170#8,187#8] }]

/-- From the reset the two bytes are presented, with the last flag at the second. -/
theorem presented_shortStream :
    Trace.emitted (ringStep false) (fun r l => presented (ringStep false r l))
      (resetBranch Reader.zero) (promptRun false (encodeAll shortStream) 600 (resetBranch Reader.zero)) =
    [(170#8,false),(187#8,true)] := by
  have hrun := (presented_eq_delivered false (resetBranch Reader.zero) shortStream
    (promptRun false (encodeAll shortStream) 600 (resetBranch Reader.zero)) (fresh_reset _)
    (by decide) (by decide) (by decide) (by decide +kernel)).1
  rw [hrun]
  decide +kernel

end Misterplex.Ring
