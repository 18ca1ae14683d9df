import Misterplex.Nal.Dispatch

/-!
# The dispatcher over the copying ring

Dispatcher and ring keep a session, an activity flag and a sequence number each.
They agree after every answer, through retries, replays, seeks and drains, so that
the ring never sees a wrong sequence number and no byte gets lost in a session.
-/

namespace Misterplex.Dispatch

open Emulation AnnexB Transport History List
open CopyRing (RingLaw Conserved consumedBytes acceptedNals ringAfter consume)

section Preserving

variable {σ : Type*} {producer : Producer σ} {cfg : DispatchConfig σ}
  {P : NalDispatcher → σ → Prop}

/-- A property of the dispatcher's session and the producer that survives pushes and
sleep. -/
structure Preserved (producer : Producer σ) (cfg : DispatchConfig σ)
    (P : NalDispatcher → σ → Prop) : Prop where
  /-- It speaks of the session only. -/
  congr : ∀ {d e : NalDispatcher} {p : σ}, P d p → e.active=d.active →
    e.sessionId=d.sessionId → e.seq=d.seq → P e p
  /-- A push keeps it. -/
  push : ∀ {d : NalDispatcher} {p : σ} (annexb : List Byte) (type : Byte), P d p →
    P (if (producer.pushNal ⟨d.sessionId,d.seq,type,annexb⟩ p).1 = .ok then
        { d with seq := d.seq+1 } else d)
      (producer.pushNal ⟨d.sessionId,d.seq,type,annexb⟩ p).2
  /-- A wait between tries keeps it. -/
  sleep : ∀ {d : NalDispatcher} {p : σ} {hook : ℤ → σ → σ} {ms : ℤ}, cfg.sleepMs=some hook →
    P d p → P d (hook ms p)

variable {s : System σ}

theorem Preserved.attemptPush (h : Preserved producer cfg P) (annexb : List Byte) (type : Byte)
    (attempts : ℕ) (hs : P s.dispatcher s.producer) :
    P (attemptPush producer cfg annexb type attempts s).2.dispatcher
      (attemptPush producer cfg annexb type attempts s).2.producer := by
  induction attempts generalizing s with
  | zero => exact h.congr hs rfl rfl rfl
  | succ attempts ih =>
    rw [Dispatch.attemptPush]
    have hpush := h.push annexb type hs
    generalize producer.pushNal ⟨s.dispatcher.sessionId,s.dispatcher.seq,type,annexb⟩
      s.producer=answer at *
    obtain ⟨r,p⟩ := answer
    cases r with
    | ok => exact h.congr hpush rfl rfl rfl
    | full =>
      refine ih ?_
      by_cases hlast : attempts=0
      · rw [if_pos hlast]
        exact h.congr hpush rfl rfl rfl
      · rw [if_neg hlast]
        unfold Dispatch.sleep
        cases hhook : cfg.sleepMs with
        | none => exact h.congr hpush rfl rfl rfl
        | some hook =>
          split_ifs
          · exact h.congr (h.sleep hhook hpush) rfl rfl rfl
          · exact h.congr hpush rfl rfl rfl
    | _ => exact h.congr hpush rfl rfl rfl

theorem Preserved.pushHanded (h : Preserved producer cfg P) (annexb : List Byte) (type : Byte)
    (hs : P s.dispatcher s.producer) :
    P (pushHanded producer cfg annexb type s).2.dispatcher
      (pushHanded producer cfg annexb type s).2.producer := by
  have hpush := h.attemptPush annexb type (cfg.maxFullRetries+1).toNat hs
  unfold Dispatch.pushHanded pushWithBackpressure
  generalize Dispatch.attemptPush producer cfg annexb type (cfg.maxFullRetries+1).toNat s =
    answer at *
  obtain ⟨r,s'⟩ := answer
  cases r with
  | ok =>
    split_ifs
    · exact h.congr hpush rfl rfl rfl
    · exact h.congr hpush rfl rfl rfl
    · exact hpush
  | _ => exact hpush

theorem Preserved.replayParameter (h : Preserved producer cfg P) (kind : ParameterKind)
    (count : DispatchStats → DispatchStats) (hs : P s.dispatcher s.producer) :
    P (replayParameter producer cfg kind count s).2.dispatcher
      (replayParameter producer cfg kind count s).2.producer := by
  unfold Dispatch.replayParameter pushWithBackpressure
  dsimp only
  split_ifs
  · exact hs
  · exact hs
  · have hpush := h.attemptPush (s.dispatcher.parameter kind).nal kind.nalType
      (cfg.maxFullRetries+1).toNat hs
    generalize Dispatch.attemptPush producer cfg (s.dispatcher.parameter kind).nal kind.nalType
      (cfg.maxFullRetries+1).toNat s=answer at *
    obtain ⟨r,s'⟩ := answer
    cases r with
    | ok => cases kind <;> exact h.congr hpush rfl rfl rfl
    | _ => exact hpush

theorem cache_session (d : NalDispatcher) (type : Byte) (annexb : List Byte) :
    (d.cache type annexb).active=d.active ∧ (d.cache type annexb).sessionId=d.sessionId ∧
    (d.cache type annexb).seq=d.seq := by
  unfold NalDispatcher.cache
  split_ifs <;> exact ⟨rfl,rfl,rfl⟩

theorem Preserved.handleNal (h : Preserved producer cfg P) (annexb : List Byte)
    (hs : P s.dispatcher s.producer) : P (handleNal producer cfg annexb s).2.dispatcher
      (handleNal producer cfg annexb s).2.producer := by
  unfold Dispatch.handleNal
  by_cases hrefused : (!s.dispatcher.active || annexb.isEmpty)=true
  · rw [if_pos hrefused]
    exact hs
  · dsimp only
    have hseen : P ((s.dispatcher.count fun n => { n with nalSeen := n.nalSeen+1 }).cache
        (annexBNalType annexb) annexb) s.producer := by
      obtain ⟨hactive,hsession,hseq⟩ := cache_session
        (s.dispatcher.count fun n => { n with nalSeen := n.nalSeen+1 }) (annexBNalType annexb) annexb
      exact h.congr hs hactive hsession hseq
    generalize (s.dispatcher.count fun n => { n with nalSeen := n.nalSeen+1 }).cache
      (annexBNalType annexb) annexb=d at hseen ⊢
    split_ifs with htype hpaused hslice
    · exact hs
    · exact h.congr hseen rfl rfl rfl
    · have hsps := h.replayParameter .sps (fun n => { n with spsReplayed := n.spsReplayed+1 })
        (s := { s with dispatcher := d }) hseen
      unfold replayParametersIfNeeded
      generalize Dispatch.replayParameter producer cfg .sps
        (fun n => { n with spsReplayed := n.spsReplayed+1 }) { s with dispatcher := d } = answer at *
      obtain ⟨r,s'⟩ := answer
      cases r with
      | ok =>
        have hpps := h.replayParameter .pps (fun n => { n with ppsReplayed := n.ppsReplayed+1 }) hsps
        dsimp only at hpps ⊢
        generalize Dispatch.replayParameter producer cfg .pps
          (fun n => { n with ppsReplayed := n.ppsReplayed+1 }) s'=answer at *
        obtain ⟨r,s''⟩ := answer
        cases r with
        | ok => exact h.pushHanded annexb (annexBNalType annexb) hpps
        | _ => exact hpps
      | _ => exact hsps
    · exact h.pushHanded annexb (annexBNalType annexb) (s := { s with dispatcher := d }) hseen

end Preserving

/-- Dispatcher and ring agree on the session, and the law holds so far. -/
structure InStep (capacity : ℕ) (d : NalDispatcher) (r : Recorded CopyRing) : Prop where
  /-- Both have a session or neither. -/
  active : d.active=r.state.active
  /-- It is the same session. -/
  session : d.active=true → d.sessionId=r.state.sessionId
  /-- They expect the same unit next. -/
  seq : d.active=true → d.seq=r.state.producerSeq
  /-- The ring has its capacity. -/
  sized : r.state.capacity=capacity
  /-- The record is up to date. -/
  current : ringAfter r.history=r.state.ring
  /-- What the ring holds fits. -/
  within : r.state.ring.length≤capacity
  /-- In a session no byte is lost. -/
  conserved : r.state.active=true → Conserved r.history
  /-- Outside, the ring is empty. -/
  cleared : r.state.active=false →
    r.state.ring=[] ∧ consumedBytes r.history <+: (acceptedNals r.history).flatten
  /-- The ring's law has held at every event. -/
  law : Always (RingLaw capacity) r.history

section Steps

variable {capacity : ℕ} {d e : NalDispatcher} {r : Recorded CopyRing}

/-- A call that leaves the ring alone stays in step. -/
theorem InStep.idle (h : InStep capacity d r) {event : Event} {c : CopyRing}
    (hring : c.ring=r.state.ring) (hactive : c.active=r.state.active)
    (hsession : c.sessionId=r.state.sessionId) (hseq : c.producerSeq=r.state.producerSeq)
    (hcapacity : c.capacity=r.state.capacity)
    (hconsumed : consumedBytes (⟨event,c⟩::r.history)=consumedBytes r.history)
    (haccepted : acceptedNals (⟨event,c⟩::r.history)=acceptedNals r.history)
    (hstep : ∀ nal, event ≠ .pushed nal .desync) : InStep capacity d (r.note event c) := by
  have hconserved : c.active=true → Conserved (⟨event,c⟩::r.history) := by
    intro hin
    have hold := h.conserved (hactive ▸ hin)
    unfold Conserved at hold ⊢
    rw [hconsumed,haccepted,← hold,h.current]
    exact congrArg _ hring
  have hcleared : c.active=false →
      c.ring=[] ∧ consumedBytes (⟨event,c⟩::r.history) <+:
        (acceptedNals (⟨event,c⟩::r.history)).flatten := by
    intro hout
    rw [hring,hconsumed,haccepted]
    exact h.cleared (hactive ▸ hout)
  have hwithin : c.ring.length≤capacity := hring ▸ h.within
  exact ⟨h.active.trans hactive.symm,fun hin => (h.session hin).trans hsession.symm,
    fun hin => (h.seq hin).trans hseq.symm,hcapacity.trans h.sized,rfl,hwithin,hconserved,
    hcleared,⟨hstep,hwithin,fun _ _ _ _ => hring.trans h.current.symm,hconserved,hcleared⟩,
    h.law⟩

theorem InStep.fresh (h : InStep capacity d r) {event : Event} {c : CopyRing}
    (hring : c.ring=[]) (hactive : e.active=c.active) (hsession : e.sessionId=c.sessionId)
    (hseq : e.seq=c.producerSeq) (hcapacity : c.capacity=r.state.capacity)
    (hconsumed : consumedBytes (⟨event,c⟩::r.history)=[])
    (haccepted : acceptedNals (⟨event,c⟩::r.history)=[])
    (hstep : ∀ nal answer, event ≠ .pushed nal answer) : InStep capacity e (r.note event c) := by
  have hconserved : c.active=true → Conserved (⟨event,c⟩::r.history) := by
    intro _
    unfold Conserved
    rw [hconsumed,haccepted]
    exact hring
  have hcleared : c.active=false →
      c.ring=[] ∧ consumedBytes (⟨event,c⟩::r.history) <+:
        (acceptedNals (⟨event,c⟩::r.history)).flatten := by
    intro _
    rw [hconsumed]
    exact ⟨hring, nil_prefix⟩
  have hwithin : c.ring.length≤capacity := by rw [hring]; exact Nat.zero_le _
  exact ⟨hactive,fun _ => hsession,fun _ => hseq,hcapacity.trans h.sized,rfl,hwithin,
    hconserved,hcleared,⟨fun nal => hstep nal _,hwithin,
      fun nal answer heq _ => absurd heq (hstep nal answer),hconserved,hcleared⟩,h.law⟩

theorem InStep.accept (h : InStep capacity d r) {annexb : List Byte} {type : Byte} {c : CopyRing}
    (hin : r.state.active=true) (hring : c.ring = r.state.ring ++ annexb)
    (hactive : c.active=r.state.active) (hsession : c.sessionId=r.state.sessionId)
    (hseq : c.producerSeq=r.state.producerSeq+1) (hcapacity : c.capacity=r.state.capacity)
    (hfits : c.ring.length≤capacity) :
    InStep capacity { d with seq := d.seq+1 }
      (r.note (.pushed ⟨d.sessionId,d.seq,type,annexb⟩ .ok) c) := by
  have hconserved : c.active=true →
      Conserved (⟨.pushed ⟨d.sessionId,d.seq,type,annexb⟩ .ok,c⟩::r.history) := by
    intro _
    have hold := h.conserved hin
    unfold Conserved at hold ⊢
    rw [h.current] at hold
    change consumedBytes r.history ++ c.ring = (acceptedNals r.history ++ [annexb]).flatten
    rw [hring,flatten_append,← hold,append_assoc,flatten_cons,flatten_nil,
      append_nil]
  have hcleared : c.active=false → c.ring=[] ∧ consumedBytes
      (⟨.pushed ⟨d.sessionId,d.seq,type,annexb⟩ .ok,c⟩::r.history) <+:
        (acceptedNals (⟨.pushed ⟨d.sessionId,d.seq,type,annexb⟩ .ok,c⟩::r.history)).flatten :=
    fun hout => absurd (hout.symm.trans (hactive.trans hin)) Bool.false_ne_true
  exact ⟨h.active.trans hactive.symm,fun hact => (h.session hact).trans hsession.symm,
    fun hact => (congrArg (· + 1) (h.seq hact)).trans hseq.symm,hcapacity.trans h.sized,rfl,
    hfits,hconserved,hcleared,⟨fun nal heq => Event.noConfusion heq fun _ hr => PushResult.noConfusion hr,hfits,
      fun nal answer heq hne => Event.noConfusion heq fun _ hr => absurd hr.symm hne,hconserved,
      hcleared⟩,h.law⟩

theorem InStep.push (h : InStep capacity d r) (annexb : List Byte) (type : Byte) :
    InStep capacity
      (if (CopyRing.producer.recorded.pushNal ⟨d.sessionId,d.seq,type,annexb⟩ r).1 = .ok then
        { d with seq := d.seq+1 } else d)
      (CopyRing.producer.recorded.pushNal ⟨d.sessionId,d.seq,type,annexb⟩ r).2 := by
  have hanswer : ∀ {answer : PushResult} {c : CopyRing},
      CopyRing.pushNal ⟨d.sessionId,d.seq,type,annexb⟩ r.state=(answer,c) → _ :=
    fun h => CopyRing.producer.recorded_pushNal h
  by_cases hfatal : r.state.active=false ∨ d.sessionId≠r.state.sessionId ∨ annexb = []
  · rw [hanswer (if_pos hfatal),if_neg PushResult.noConfusion]
    exact h.idle rfl rfl rfl rfl rfl rfl rfl fun nal heq => by cases heq
  · have hin : r.state.active=true := by
      by_contra hout
      exact hfatal (Or.inl (Bool.not_eq_true _ ▸ hout))
    have hseq : ¬d.seq≠r.state.producerSeq := not_not_intro (h.seq (h.active.trans hin))
    by_cases hfull : r.state.capacity < r.state.ring.length+annexb.length
    · rw [hanswer ((if_neg hfatal).trans ((if_neg hseq).trans (if_pos hfull))),
        if_neg PushResult.noConfusion]
      exact h.idle rfl rfl rfl rfl rfl rfl rfl fun nal heq => by cases heq
    · rw [hanswer ((if_neg hfatal).trans ((if_neg hseq).trans (if_neg hfull))),if_pos rfl]
      refine h.accept hin rfl rfl rfl rfl rfl ?_
      rw [length_append,← h.sized]
      exact Nat.le_of_not_lt hfull

theorem InStep.consume (h : InStep capacity d r) (n : ℕ) :
    InStep capacity d (CopyRing.consume n r) := by
  have hconserved : r.state.active=true →
      Conserved (CopyRing.consume n r).history := by
    intro hin
    have hold := h.conserved hin
    unfold Conserved at hold ⊢
    rw [h.current] at hold
    change consumedBytes r.history ++ r.state.ring.take (min n r.state.ring.length) ++
      r.state.ring.drop (min n r.state.ring.length) = (acceptedNals r.history).flatten
    rw [append_assoc,take_append_drop,hold]
  have hcleared : r.state.active=false →
      (CopyRing.consume n r).state.ring=[] ∧ consumedBytes (CopyRing.consume n r).history <+:
        (acceptedNals (CopyRing.consume n r).history).flatten := by
    intro hout
    obtain ⟨hempty, hprefix⟩ := h.cleared hout
    change r.state.ring.drop _ = [] ∧ consumedBytes r.history ++ r.state.ring.take _ <+:
      (acceptedNals r.history).flatten
    rw [hempty,drop_nil,take_nil,append_nil]
    exact ⟨rfl, hprefix⟩
  have hwithin : (CopyRing.consume n r).state.ring.length≤capacity := by
    change (r.state.ring.drop _).length≤capacity
    rw [length_drop]
    exact Nat.le_trans (Nat.sub_le _ _) h.within
  exact ⟨h.active,h.session,h.seq,h.sized,rfl,hwithin,hconserved,hcleared,
    ⟨fun nal => Event.noConfusion,hwithin,fun nal answer => Event.noConfusion,hconserved,
      hcleared⟩,h.law⟩

theorem InStep.drain (h : InStep capacity d r) (ns : List ℕ) :
    InStep capacity d (ns.foldl (fun r n => CopyRing.consume n r) r) := by
  induction ns generalizing r with
  | nil => exact h
  | cons n ns ih => exact ih (h.consume n)

end Steps

/-- A configuration where the consumer takes bytes out while the dispatcher sleeps, by
any schedule. -/
def draining (maxFullRetries fullRetrySleepMs : ℤ)
    (schedule : ℤ → Recorded CopyRing → List ℕ) : DispatchConfig (Recorded CopyRing) where
  maxFullRetries := maxFullRetries
  fullRetrySleepMs := fullRetrySleepMs
  sleepMs := some fun ms r => (schedule ms r).foldl (fun r n => consume n r) r

/-- What may happen: a call of the dispatcher, or the consumer takes bytes out. -/
inductive Action where
  | call (c : Call)
  | consume (n : ℕ)
  deriving DecidableEq, Repr

/-- One action. -/
def act (cfg : DispatchConfig (Recorded CopyRing)) (s : System (Recorded CopyRing)) :
    Action → System (Recorded CopyRing)
  | .call c => call CopyRing.producer cfg c s
  | .consume n => { s with producer := consume n s.producer }

/-- The history of a run of a new dispatcher over a new ring. -/
def ringHistory (cfg : DispatchConfig (Recorded CopyRing)) (capacity : ℕ)
    (actions : List Action) : List (Moment CopyRing) :=
  (actions.foldl (act cfg) ⟨{},Recorded.fresh { capacity := capacity }⟩).producer.history

section Runs

variable {capacity : ℕ} {s : System (Recorded CopyRing)} (maxFullRetries fullRetrySleepMs : ℤ)
  (schedule : ℤ → Recorded CopyRing → List ℕ)

theorem inStep_preserved : Preserved CopyRing.producer.recorded
    (draining maxFullRetries fullRetrySleepMs schedule) (InStep capacity) where
  congr h hactive hsession hseq :=
    ⟨hactive.trans h.active,fun hin => hsession.trans (h.session (hactive ▸ hin)),
      fun hin => hseq.trans (h.seq (hactive ▸ hin)),h.sized,h.current,h.within,h.conserved,
      h.cleared,h.law⟩
  push annexb type h := h.push annexb type
  sleep hhook h := by
    cases hhook
    exact h.drain _

theorem InStep.beginSession (id : SessionId) (h : InStep capacity s.dispatcher s.producer) :
    InStep capacity (beginSession CopyRing.producer.recorded id s).2.dispatcher
      (beginSession CopyRing.producer.recorded id s).2.producer := by
  unfold Dispatch.beginSession
  dsimp only [Producer.recorded,CopyRing.producer,CopyRing.beginSession]
  by_cases hactive : s.producer.state.active = true
  · rw [if_pos hactive]
    exact h.idle rfl rfl rfl rfl rfl rfl rfl fun nal heq => by cases heq
  · rw [if_neg hactive]
    exact h.fresh rfl rfl rfl rfl rfl rfl rfl fun nal answer heq => by cases heq

theorem InStep.agrees (h : InStep capacity s.dispatcher s.producer)
    (hin : s.dispatcher.active=true) (change : CopyRing → CopyRing) :
    CopyRing.control change s.dispatcher.sessionId s.producer.state =
      (.ok,change s.producer.state) := by
  refine if_neg fun hrefused => ?_
  rcases hrefused with hout | hother
  · exact absurd (hout.symm.trans (h.active.symm.trans hin)) Bool.false_ne_true
  · exact hother (h.session hin)

theorem InStep.ended {d : NalDispatcher} {r : Recorded CopyRing} (h : InStep capacity d r)
    (hin : r.state.active=true) (id : SessionId) :
    InStep capacity { d with active := false }
      (r.note (.ended id .ok) { r.state with ring := [], active := false, paused := false }) := by
  have hprefix : consumedBytes r.history <+: (acceptedNals r.history).flatten :=
    ⟨_,h.conserved hin⟩
  exact ⟨rfl,fun hact => absurd hact Bool.false_ne_true,
    fun hact => absurd hact Bool.false_ne_true,h.sized,rfl,Nat.zero_le _,
    fun hact => absurd hact Bool.false_ne_true,fun _ => ⟨rfl, hprefix⟩,
    ⟨fun nal => Event.noConfusion,Nat.zero_le _,fun nal answer => Event.noConfusion,
      fun hact => absurd hact Bool.false_ne_true,fun _ => ⟨rfl, hprefix⟩⟩,h.law⟩

theorem InStep.endSession (h : InStep capacity s.dispatcher s.producer) :
    InStep capacity (endSession CopyRing.producer.recorded s).2.dispatcher
      (endSession CopyRing.producer.recorded s).2.producer := by
  unfold Dispatch.endSession controlSession
  by_cases hin : s.dispatcher.active=true
  · rw [if_pos hin]
    dsimp only [Producer.recorded,CopyRing.producer,CopyRing.endSession]
    rw [h.agrees hin]
    exact h.ended (h.active.symm.trans hin) _
  · rw [if_neg hin]
    exact h

theorem InStep.pauseSession (h : InStep capacity s.dispatcher s.producer) :
    InStep capacity (pauseSession CopyRing.producer.recorded s).2.dispatcher
      (pauseSession CopyRing.producer.recorded s).2.producer := by
  unfold Dispatch.pauseSession controlSession
  by_cases hin : s.dispatcher.active=true
  · rw [if_pos hin]
    dsimp only [Producer.recorded,CopyRing.producer,CopyRing.pauseSession]
    rw [h.agrees hin]
    have hidle : InStep capacity s.dispatcher (s.producer.note (.paused s.dispatcher.sessionId .ok)
        { s.producer.state with paused := true }) :=
      h.idle rfl rfl rfl rfl rfl rfl rfl fun nal => Event.noConfusion
    exact { hidle with }
  · rw [if_neg hin]
    exact h

theorem InStep.resumeSession (h : InStep capacity s.dispatcher s.producer) :
    InStep capacity (resumeSession CopyRing.producer.recorded s).2.dispatcher
      (resumeSession CopyRing.producer.recorded s).2.producer := by
  unfold Dispatch.resumeSession controlSession
  by_cases hin : s.dispatcher.active=true
  · rw [if_pos hin]
    dsimp only [Producer.recorded,CopyRing.producer,CopyRing.resumeSession]
    rw [h.agrees hin]
    have hidle : InStep capacity s.dispatcher (s.producer.note (.resumed s.dispatcher.sessionId .ok)
        { s.producer.state with paused := false }) :=
      h.idle rfl rfl rfl rfl rfl rfl rfl fun nal => Event.noConfusion
    exact { hidle with }
  · rw [if_neg hin]
    exact h

theorem InStep.flushForSeek (id : SessionId) (h : InStep capacity s.dispatcher s.producer) :
    InStep capacity (flushForSeek CopyRing.producer.recorded id s).2.dispatcher
      (flushForSeek CopyRing.producer.recorded id s).2.producer := by
  unfold Dispatch.flushForSeek
  by_cases hin : s.dispatcher.active=true
  · rw [if_pos hin]
    have hflushed : InStep capacity s.dispatcher (s.producer.note
        (.flushed s.dispatcher.sessionId .ok)
        { s.producer.state with ring := [], consumerSeq := s.producer.state.producerSeq }) :=
      h.fresh rfl h.active (h.session hin) (h.seq hin) rfl rfl rfl fun nal answer => Event.noConfusion
    have hflush : CopyRing.producer.recorded.flushSession s.dispatcher.sessionId s.producer =
        (.ok,s.producer.note (.flushed s.dispatcher.sessionId .ok)
          { s.producer.state with ring := [], consumerSeq := s.producer.state.producerSeq }) := by
      dsimp only [Producer.recorded,CopyRing.producer,CopyRing.flushSession]
      rw [h.agrees hin]
    rw [hflush]
    generalize s.producer.note (.flushed s.dispatcher.sessionId .ok)
      { s.producer.state with ring := [], consumerSeq := s.producer.state.producerSeq } = p at *
    have hend : CopyRing.producer.recorded.endSession s.dispatcher.sessionId p =
        (.ok,p.note (.ended s.dispatcher.sessionId .ok)
          { p.state with ring := [], active := false, paused := false }) := by
      dsimp only [Producer.recorded,CopyRing.producer,CopyRing.endSession]
      rw [hflushed.agrees (s := ⟨s.dispatcher,p⟩) hin]
    dsimp only
    rw [hend]
    exact InStep.beginSession id (s := ⟨_,_⟩)
      (hflushed.ended (hflushed.active.symm.trans hin) s.dispatcher.sessionId)
  · rw [if_neg hin]
    exact h.beginSession id

theorem InStep.act (h : InStep capacity s.dispatcher s.producer) (action : Action) :
    InStep capacity
      (act (draining maxFullRetries fullRetrySleepMs schedule) s action).dispatcher
      (act (draining maxFullRetries fullRetrySleepMs schedule) s action).producer := by
  cases action with
  | consume n => exact h.consume n
  | call c =>
    cases c with
    | begin id => exact h.beginSession id
    | handleNal annexb =>
      have hhand : InStep capacity s.dispatcher (hand annexb s).producer :=
        h.idle rfl rfl rfl rfl rfl rfl rfl fun nal => Event.noConfusion
      exact (inStep_preserved maxFullRetries fullRetrySleepMs schedule).handleNal annexb hhand
    | pause => exact h.pauseSession
    | resume => exact h.resumeSession
    | flushForSeek id => exact h.flushForSeek id
    | «end» => exact h.endSession

theorem inStep_start (capacity : ℕ) :
    InStep capacity {} (Recorded.fresh { capacity := capacity }) :=
  ⟨rfl,fun hin => absurd hin Bool.false_ne_true,fun hin => absurd hin Bool.false_ne_true,rfl,
    rfl,Nat.zero_le _,fun hin => absurd hin Bool.false_ne_true,fun _ => ⟨rfl, nil_prefix⟩,
    trivial⟩

/-- The law of the ring holds at every moment of every run, whatever the capacity, the
retries and the drains. -/
theorem ringHistory_law (capacity : ℕ) (actions : List Action) :
    Always (RingLaw capacity)
      (ringHistory (draining maxFullRetries fullRetrySleepMs schedule) capacity actions) := by
  have hrun : ∀ s : System (Recorded CopyRing), InStep capacity s.dispatcher s.producer →
      InStep capacity
        (actions.foldl (Dispatch.act (draining maxFullRetries fullRetrySleepMs schedule)) s).dispatcher
        (actions.foldl (Dispatch.act (draining maxFullRetries fullRetrySleepMs schedule)) s).producer := by
    induction actions with
    | nil => exact fun s h => h
    | cons action actions ih =>
      exact fun s h => ih _ (h.act maxFullRetries fullRetrySleepMs schedule action)
  exact (hrun ⟨{},Recorded.fresh { capacity := capacity }⟩ (inStep_start capacity)).law

end Runs

/-- The end of a session drops the bytes that are left, so that those consumed and
those in the ring are not all that were accepted. -/
theorem not_conserved_ended :
    ¬ Always (fun m past => Conserved (m::past))
      (ringHistory (draining 0 0 fun _ _ => []) 16
        [.call (.begin 1),.call (.handleNal [0#8,0#8,1#8,0x67#8,1#8]),.call .end]) := by
  have hlost : ¬ Conserved (ringHistory (draining 0 0 fun _ _ => []) 16
      [.call (.begin 1),.call (.handleNal [0#8,0#8,1#8,0x67#8,1#8]),.call .end]) := by decide
  exact fun h => hlost h.1

end Misterplex.Dispatch
