import Misterplex.Nal.Dispatch

/-!
# Parameter sets in force at the producer

A slice that the producer accepts should meet the parameter sets that the
dispatcher was last handed. The dispatcher keeps a handed parameter set but leaves
its delivered mark as it is, so that one whose push fails is not pushed again
before the next slice; that is the only way in which a slice can meet an older
one. The account of a history says which parameter sets were handed and accepted.
-/

namespace Misterplex.Dispatch

open Emulation AnnexB Transport History List

variable {σ : Type*}

/-- What an event means for parameter sets. -/
inductive Effect where
  | handed (annexb : List Byte)
  | accepted (nal : NalView)
  /-- The session began or was resumed. -/
  | renewed
  | quiet
  deriving DecidableEq, Repr

/-- What an event does to the delivered units. -/
def effect : Event → Effect
  | .handed annexb => .handed annexb
  | .pushed nal .ok => .accepted nal
  | .begun _ .ok => .renewed
  | .resumed _ .ok => .renewed
  | _ => .quiet

/-- The parameter set of a kind that the producer accepted last in the session,
since the last successful resume. -/
def inForce (kind : ParameterKind) : List (Moment σ) → Option (List Byte)
  | [] => none
  | m::past =>
    match effect m.event with
    | .accepted nal => if nal.nalType = kind.nalType then some nal.annexb else inForce kind past
    | .renewed => none
    | _ => inForce kind past

/-- The parameter set of a kind that the dispatcher was handed last. -/
def lastHanded (kind : ParameterKind) : List (Moment σ) → Option (List Byte)
  | [] => none
  | m::past =>
    match effect m.event with
    | .handed annexb =>
      if annexBNalType annexb = kind.nalType then some annexb else lastHanded kind past
    | _ => lastHanded kind past

/-- One of a kind was accepted, then another one was handed, and since then none of
the kind was accepted and the session neither began nor was resumed. -/
def superseded (kind : ParameterKind) : List (Moment σ) → Bool
  | [] => false
  | m::past =>
    match effect m.event with
    | .handed annexb =>
      if annexBNalType annexb = kind.nalType then
        (inForce kind past).isSome && inForce kind past != some annexb
      else superseded kind past
    | .accepted nal => nal.nalType != kind.nalType && superseded kind past
    | .renewed => false
    | .quiet => superseded kind past

/-- The past of the last unit that was handed. -/
def beforeHanding : List (Moment σ) → List (Moment σ)
  | [] => []
  | m::past =>
    match effect m.event with
    | .handed _ => past
    | _ => beforeHanding past

/-- The producer accepts a slice. -/
def acceptsSlice (event : Event) : Bool :=
  match effect event with
  | .accepted nal => isSlice nal.nalType
  | _ => false

/-- Of both kinds the parameter set in force is the one that was handed last. -/
def ParametersCurrent (past : List (Moment σ)) : Prop :=
  ∀ kind, ∃ annexb, inForce kind past=some annexb ∧ lastHanded kind past=some annexb

/-- Every slice that the producer accepts meets the parameter sets handed last. -/
def SlicesMeetParameters (history : List (Moment σ)) : Prop :=
  Always (fun m past => acceptsSlice m.event → ParametersCurrent past) history

/-- No slice that the producer accepts was handed while a parameter set was
superseded. -/
def NoSliceAfterLoss (history : List (Moment σ)) : Prop :=
  Always (fun m past => acceptsSlice m.event →
    ∀ kind, superseded kind (beforeHanding past)=false) history

/-- At every accepted slice, the parameter sets are current just if none was
superseded when the slice was handed. -/
def Settled (history : List (Moment σ)) : Prop :=
  Always (fun m past => acceptsSlice m.event →
    (ParametersCurrent past ↔ ∀ kind, superseded kind (beforeHanding past)=false)) history

/-- Being superseded shows in the account of what is in force. -/
def Accounted (past : List (Moment σ)) : Prop :=
  ∀ kind, superseded kind past=true ↔
    ∃ old, inForce kind past=some old ∧ lastHanded kind past≠some old

/-- The dispatcher's parameter sets agree with the account of the history. -/
structure Good (d : NalDispatcher) (past : List (Moment σ)) : Prop where
  /-- A set is marked as delivered when one is in force. -/
  marked : ∀ kind, (d.parameter kind).delivered=(inForce kind past).isSome
  /-- Nothing is marked before it is there. -/
  present : ∀ kind, (d.parameter kind).delivered=true → (d.parameter kind).nal≠[]
  /-- In a session, what is kept was handed last. -/
  kept : ∀ kind, d.active=true → (d.parameter kind).nal≠[] →
    lastHanded kind past=some (d.parameter kind).nal
  /-- The history is accounted for. -/
  accounted : Accounted past
  /-- All accepted slices so far are as they should be. -/
  settled : Settled past

section Account

variable {m : Moment σ} {past : List (Moment σ)} {kind : ParameterKind}

theorem inForce_quiet (h : effect m.event = .quiet) :
    inForce kind (m::past)=inForce kind past := by
  simp only [inForce,h]

theorem lastHanded_quiet (h : effect m.event = .quiet) :
    lastHanded kind (m::past)=lastHanded kind past := by
  simp only [lastHanded,h]

theorem superseded_quiet (h : effect m.event = .quiet) :
    superseded kind (m::past)=superseded kind past := by
  simp only [superseded,h]

theorem beforeHanding_quiet (h : effect m.event = .quiet) :
    beforeHanding (m::past)=beforeHanding past := by
  simp only [beforeHanding,h]

variable {nal : NalView}

theorem inForce_accepted (h : effect m.event = .accepted nal) : inForce kind (m::past) =
      if nal.nalType = kind.nalType then some nal.annexb else inForce kind past := by
  simp only [inForce,h]

theorem lastHanded_accepted (h : effect m.event = .accepted nal) :
    lastHanded kind (m::past)=lastHanded kind past := by
  simp only [lastHanded,h]

theorem superseded_accepted (h : effect m.event = .accepted nal) :
    superseded kind (m::past)=(nal.nalType != kind.nalType && superseded kind past) := by
  simp only [superseded,h]

theorem beforeHanding_accepted (h : effect m.event = .accepted nal) :
    beforeHanding (m::past)=beforeHanding past := by
  simp only [beforeHanding,h]

variable {annexb : List Byte}

theorem inForce_handed (h : effect m.event = .handed annexb) :
    inForce kind (m::past)=inForce kind past := by
  simp only [inForce,h]

theorem lastHanded_handed (h : effect m.event = .handed annexb) : lastHanded kind (m::past) =
      if annexBNalType annexb = kind.nalType then some annexb else lastHanded kind past := by
  simp only [lastHanded,h]

theorem superseded_handed (h : effect m.event = .handed annexb) : superseded kind (m::past) =
      if annexBNalType annexb = kind.nalType then
        (inForce kind past).isSome && inForce kind past != some annexb
      else superseded kind past := by
  simp only [superseded,h]

theorem beforeHanding_handed (h : effect m.event = .handed annexb) :
    beforeHanding (m::past)=past := by
  simp only [beforeHanding,h]

theorem inForce_renewed (h : effect m.event = .renewed) : inForce kind (m::past)=none := by
  simp only [inForce,h]

theorem lastHanded_renewed (h : effect m.event = .renewed) :
    lastHanded kind (m::past)=lastHanded kind past := by
  simp only [lastHanded,h]

theorem superseded_renewed (h : effect m.event = .renewed) :
    superseded kind (m::past)=false := by
  simp only [superseded,h]

theorem acceptsSlice_accepted (h : effect m.event = .accepted nal) :
    acceptsSlice m.event=isSlice nal.nalType := by
  simp only [acceptsSlice,h]

/-- An event that is no accepted slice leaves the history settled. -/
theorem Settled.cons (h : Settled past) (hm : acceptsSlice m.event=false) : Settled (m::past) :=
  ⟨fun hslice => absurd (hm.symm.trans hslice) Bool.false_ne_true,h⟩

/-- A quiet event keeps the account. -/
theorem Accounted.quiet (h : Accounted past) (hm : effect m.event = .quiet) :
    Accounted (m::past) := by
  intro kind
  rw [superseded_quiet hm,inForce_quiet hm,lastHanded_quiet hm]
  exact h kind

theorem Accounted.handed (h : Accounted past)
    (hm : effect m.event = .handed annexb) : Accounted (m::past) := by
  intro kind
  rw [superseded_handed hm,inForce_handed hm,lastHanded_handed hm]
  by_cases hkind : annexBNalType annexb=kind.nalType
  · rw [if_pos hkind,if_pos hkind]
    cases inForce kind past with
    | none => simp
    | some old =>
      constructor
      · intro hne
        exact ⟨old,rfl,fun heq => bne_iff_ne.mp hne heq.symm⟩
      · rintro ⟨_,heq,hne⟩
        cases heq
        exact bne_iff_ne.mpr fun heq => hne heq.symm
  · rw [if_neg hkind,if_neg hkind]
    exact h kind

theorem Accounted.renewed (hm : effect m.event = .renewed) : Accounted (m::past) := by
  intro kind
  rw [superseded_renewed hm,inForce_renewed hm]
  simp

/-- An accepted set is in force, and is the last one handed. -/
theorem Accounted.accepted (h : Accounted past) (hm : effect m.event = .accepted nal)
    (hlast : ∀ kind : ParameterKind, nal.nalType=kind.nalType →
      lastHanded kind past=some nal.annexb) : Accounted (m::past) := by
  intro kind
  rw [superseded_accepted hm,inForce_accepted hm,lastHanded_accepted hm]
  by_cases hkind : nal.nalType=kind.nalType
  · rw [if_pos hkind,hlast kind hkind]
    simp [hkind]
  · rw [if_neg hkind,bne_iff_ne.mpr hkind,Bool.true_and]
    exact h kind

end Account

section Keeping

variable {d e : NalDispatcher} {m : Moment σ} {past : List (Moment σ)}

/-- Only the session and the sets count. -/
theorem Good.congr (h : Good d past) (hactive : e.active=true → d.active=true)
    (hset : ∀ kind, e.parameter kind=d.parameter kind) : Good e past where
  marked kind := by rw [hset kind]; exact h.marked kind
  present kind := by rw [hset kind]; exact h.present kind
  kept kind hin := by rw [hset kind]; exact h.kept kind (hactive hin)
  accounted := h.accounted
  settled := h.settled

/-- A quiet event keeps the agreement. -/
theorem Good.quiet (h : Good d past) (hm : effect m.event = .quiet) : Good d (m::past) where
  marked kind := by rw [inForce_quiet hm]; exact h.marked kind
  present := h.present
  kept kind := by rw [lastHanded_quiet hm]; exact h.kept kind
  accounted := h.accounted.quiet hm
  settled := h.settled.cons (by simp only [acceptsSlice,hm])

theorem Good.quiets {waits : List (Moment σ)} (h : Good d past)
    (hwaits : ∀ m∈waits, effect m.event = .quiet) : Good d (waits ++ past) := by
  induction waits with
  | nil => exact h
  | cons m waits ih =>
    have hrest := ih fun n hn => hwaits n (mem_cons_of_mem m hn)
    exact hrest.quiet (hwaits m mem_cons_self)

theorem Good.renew (h : Good d past) (hm : effect m.event = .renewed)
    (hmark : ∀ kind, (e.parameter kind).delivered=false)
    (hkept : ∀ kind, e.active=true → (e.parameter kind).nal≠[] →
      d.active=true ∧ (e.parameter kind).nal=(d.parameter kind).nal) :
    Good e (m::past) where
  marked kind := by rw [inForce_renewed hm,hmark kind]; rfl
  present kind hset := absurd ((hmark kind).symm.trans hset) Bool.false_ne_true
  kept kind hin hne := by
    obtain ⟨hactive,heq⟩ := hkept kind hin hne
    rw [lastHanded_renewed hm,heq]
    exact h.kept kind hactive (heq ▸ hne)
  accounted := Accounted.renewed hm
  settled := h.settled.cons (by simp only [acceptsSlice,hm])

/-- A unit that is handed outside a session, or carries no parameter set, changes
nothing. -/
theorem Good.handedOther {annexb : List Byte} (h : Good d past)
    (hm : effect m.event = .handed annexb)
    (hother : d.active=true → ∀ kind : ParameterKind, annexBNalType annexb≠kind.nalType) :
    Good d (m::past) where
  marked kind := by rw [inForce_handed hm]; exact h.marked kind
  present := h.present
  kept kind hin := by
    rw [lastHanded_handed hm,if_neg (hother hin kind)]
    exact h.kept kind hin
  accounted := h.accounted.handed hm
  settled := h.settled.cons (by simp only [acceptsSlice,hm])

theorem parameter_cache (d : NalDispatcher) (type : Byte) (annexb : List Byte)
    (kind : ParameterKind) : (d.cache type annexb).parameter kind =
      if type = kind.nalType then { d.parameter kind with nal := annexb } else d.parameter kind := by
  unfold NalDispatcher.cache
  by_cases hseven : type=7#8
  · subst hseven
    cases kind <;> rfl
  · rw [if_neg hseven]
    by_cases height : type=8#8
    · subst height
      cases kind <;> rfl
    · rw [if_neg height]
      cases kind with
      | sps => exact (if_neg hseven).symm
      | pps => exact (if_neg height).symm

theorem active_cache (d : NalDispatcher) (type : Byte) (annexb : List Byte) :
    (d.cache type annexb).active=d.active := by
  unfold NalDispatcher.cache
  split_ifs <;> rfl

theorem Good.handedKept {annexb : List Byte} (h : Good d past) (hne : annexb≠[])
    (hm : effect m.event = .handed annexb) :
    Good (d.cache (annexBNalType annexb) annexb) (m::past) where
  marked kind := by
    rw [inForce_handed hm,parameter_cache,← h.marked kind]
    split_ifs <;> rfl
  present kind := by
    rw [parameter_cache]
    split_ifs with hkind
    · exact fun _ => hne
    · exact h.present kind
  kept kind hin := by
    rw [active_cache] at hin
    rw [parameter_cache,lastHanded_handed hm]
    split_ifs with hkind
    · exact fun _ => rfl
    · exact h.kept kind hin
  accounted := h.accounted.handed hm
  settled := h.settled.cons (by simp only [acceptsSlice,hm])

/-- An accepted unit that is no slice, with its mark set if it is the parameter set
handed last. -/
theorem Good.accept {nal : NalView} (h : Good d past) (hm : effect m.event = .accepted nal)
    (hslice : isSlice nal.nalType=false)
    (hlast : ∀ kind : ParameterKind, nal.nalType=kind.nalType →
      lastHanded kind past=some nal.annexb ∧ (d.parameter kind).nal≠[])
    (hactive : e.active=true → d.active=true)
    (hset : ∀ kind, e.parameter kind =
      if nal.nalType = kind.nalType then { d.parameter kind with delivered := true }
      else d.parameter kind) : Good e (m::past) where
  marked kind := by
    rw [inForce_accepted hm,hset kind]
    split_ifs with hkind
    · rfl
    · exact h.marked kind
  present kind := by
    rw [hset kind]
    split_ifs with hkind
    · exact fun _ => (hlast kind hkind).2
    · exact h.present kind
  kept kind hin := by
    rw [hset kind,lastHanded_accepted hm]
    split_ifs with hkind
    · exact h.kept kind (hactive hin)
    · exact h.kept kind (hactive hin)
  accounted := h.accounted.accepted hm fun kind hkind => (hlast kind hkind).1
  settled := h.settled.cons (by rw [acceptsSlice_accepted hm,hslice])

theorem Good.acceptSlice {nal : NalView} (h : Good d past) (hm : effect m.event = .accepted nal)
    (hslice : isSlice nal.nalType=true)
    (hmeets : ParametersCurrent past ↔ ∀ kind, superseded kind (beforeHanding past)=false) :
    Good d (m::past) := by
  have hkind : ∀ kind : ParameterKind, nal.nalType≠kind.nalType := by
    intro kind heq
    rw [heq] at hslice
    cases kind <;> exact absurd hslice (by decide)
  refine ⟨fun kind => ?_,h.present,fun kind => ?_,?_,fun _ => hmeets,h.settled⟩
  · rw [inForce_accepted hm,if_neg (hkind kind)]
    exact h.marked kind
  · rw [lastHanded_accepted hm]
    exact h.kept kind
  · exact h.accounted.accepted hm fun kind heq => absurd heq (hkind kind)

end Keeping

section Pushing

variable (producer : Producer σ) (cfg : DispatchConfig σ)

/-- How a push ends: after answers that change nothing the unit is accepted, or it is
given up. -/
inductive Outcome (annexb : List Byte) (type : Byte) (past : List (Moment σ)) :
    PushResult → List (Moment σ) → Prop
  | accepted {waits : List (Moment σ)} {m : Moment σ} {nal : NalView} :
      (∀ w∈waits, effect w.event = .quiet) → effect m.event = .accepted nal →
      nal.nalType=type → nal.annexb=annexb →
      Outcome annexb type past .ok (m::(waits ++ past))
  /-- The unit was given up. -/
  | refused {waits : List (Moment σ)} {r : PushResult} :
      (∀ w∈waits, effect w.event = .quiet) → r ≠ .ok →
      Outcome annexb type past r (waits ++ past)

variable {annexb : List Byte}

theorem Outcome.wait {type : Byte} {past : List (Moment σ)} {m : Moment σ}
    {r : PushResult} {history : List (Moment σ)} (hm : effect m.event = .quiet)
    (h : Outcome annexb type (m::past) r history) : Outcome annexb type past r history := by
  have hwaits : ∀ {waits : List (Moment σ)}, (∀ w∈waits, effect w.event = .quiet) →
      ∀ w ∈ waits ++ [m], effect w.event = .quiet := by
    intro waits hquiet w hw
    rcases mem_append.mp hw with hw | hw
    · exact hquiet w hw
    · rw [mem_singleton.mp hw]
      exact hm
  cases h with
  | accepted hquiet hacc htype hbytes =>
    rw [append_cons]
    exact Outcome.accepted (hwaits hquiet) hacc htype hbytes
  | refused hquiet hr =>
    rw [append_cons]
    exact Outcome.refused (hwaits hquiet) hr

/-- A dispatcher with the same session and the same parameter sets. -/
structure SameSets (e d : NalDispatcher) : Prop where
  /-- Both are active or neither. -/
  active : e.active=d.active
  /-- Both have the same parameter sets. -/
  parameter : ∀ kind, e.parameter kind=d.parameter kind

theorem SameSets.of_eq {d e : NalDispatcher} (hactive : e.active=d.active) (hsps : e.sps=d.sps)
    (hpps : e.pps=d.pps) : SameSets e d :=
  ⟨hactive,fun kind => by cases kind with | sps => exact hsps | pps => exact hpps⟩

/-- Having the same sets is transitive. -/
theorem SameSets.trans {d e f : NalDispatcher} (h : SameSets f e) (k : SameSets e d) :
    SameSets f d := ⟨h.active.trans k.active,fun kind => (h.parameter kind).trans (k.parameter kind)⟩

theorem sleep_recorded (s : System (Recorded σ)) :
    (sleep cfg.recorded s).dispatcher=s.dispatcher ∧
    (sleep cfg.recorded s).producer.history=s.producer.history := by
  unfold sleep DispatchConfig.recorded
  cases cfg.sleepMs with
  | none => exact ⟨rfl,rfl⟩
  | some hook =>
    split_ifs <;> exact ⟨rfl,rfl⟩

open PushResult

theorem attemptPush_outcome (annexb : List Byte) (type : Byte) (attempts : ℕ)
    (s : System (Recorded σ)) :
    Outcome annexb type s.producer.history
      (attemptPush producer.recorded cfg.recorded annexb type attempts s).1
      (attemptPush producer.recorded cfg.recorded annexb type attempts s).2.producer.history ∧
    SameSets (attemptPush producer.recorded cfg.recorded annexb type attempts s).2.dispatcher
      s.dispatcher := by
  have hnone : ∀ w∈([] : List (Moment σ)), effect w.event = .quiet :=
    fun w hw => absurd hw not_mem_nil
  induction attempts generalizing s with
  | zero =>
    exact ⟨Outcome.refused hnone noConfusion,SameSets.of_eq rfl rfl rfl⟩
  | succ attempts ih =>
    rw [attemptPush]
    dsimp only [Producer.recorded]
    generalize producer.pushNal ⟨s.dispatcher.sessionId,s.dispatcher.seq,type,annexb⟩
      s.producer.state=answer
    obtain ⟨r,p⟩ := answer
    cases r with
    | ok =>
      exact ⟨Outcome.accepted hnone rfl rfl rfl,SameSets.of_eq rfl rfl rfl⟩
    | full =>
      dsimp only
      by_cases hlast : attempts=0
      · rw [if_pos hlast]
        obtain ⟨hout,hsets⟩ := ih ⟨s.dispatcher.count fun n =>
          { n with fullRetries := n.fullRetries+1 },s.producer.note _ p⟩
        exact ⟨hout.wait rfl,hsets.trans (SameSets.of_eq rfl rfl rfl)⟩
      · rw [if_neg hlast]
        obtain ⟨hout,hsets⟩ := ih (sleep cfg.recorded ⟨s.dispatcher.count fun n =>
          { n with fullRetries := n.fullRetries+1 },s.producer.note _ p⟩)
        obtain ⟨hd,hh⟩ := sleep_recorded cfg ⟨s.dispatcher.count fun n =>
          { n with fullRetries := n.fullRetries+1 },s.producer.note (.pushed _ .full) p⟩
        rw [hh] at hout
        rw [hd] at hsets
        exact ⟨hout.wait rfl,hsets.trans (SameSets.of_eq rfl rfl rfl)⟩
    | desync =>
      exact ⟨(Outcome.refused hnone noConfusion).wait rfl,SameSets.of_eq rfl rfl rfl⟩
    | fatal =>
      exact ⟨(Outcome.refused hnone noConfusion).wait rfl,SameSets.of_eq rfl rfl rfl⟩

theorem pushWithBackpressure_outcome (annexb : List Byte) (type : Byte)
    (s : System (Recorded σ)) :
    Outcome annexb type s.producer.history
      (pushWithBackpressure producer.recorded cfg.recorded annexb type s).1
      (pushWithBackpressure producer.recorded cfg.recorded annexb type s).2.producer.history ∧
    SameSets (pushWithBackpressure producer.recorded cfg.recorded annexb type s).2.dispatcher
      s.dispatcher :=
  attemptPush_outcome producer cfg annexb type _ s

theorem account_quiets {waits past : List (Moment σ)} (hwaits : ∀ w∈waits, effect w.event = .quiet)
    (kind : ParameterKind) :
    inForce kind (waits ++ past)=inForce kind past ∧
    lastHanded kind (waits ++ past)=lastHanded kind past ∧
    beforeHanding (waits ++ past)=beforeHanding past := by
  induction waits with
  | nil => exact ⟨rfl,rfl,rfl⟩
  | cons w waits ih =>
    have hw := hwaits w mem_cons_self
    obtain ⟨hforce,hlast,hbefore⟩ := ih fun v hv => hwaits v (mem_cons_of_mem w hv)
    rw [cons_append,inForce_quiet hw,lastHanded_quiet hw,beforeHanding_quiet hw]
    exact ⟨hforce,hlast,hbefore⟩

theorem deliver_sets (d : NalDispatcher) (kind other : ParameterKind) :
    (d.deliver kind).active=d.active ∧ (d.deliver kind).parameter other =
      if kind.nalType = other.nalType then { d.parameter other with delivered := true }
      else d.parameter other := by
  cases kind <;> cases other <;> exact ⟨rfl,rfl⟩

theorem mark_sets (d : NalDispatcher) (type : Byte) (kind : ParameterKind) :
    (if type = 7#8 then d.deliver .sps else if type = 8#8 then d.deliver .pps else d).active =
      d.active ∧
    (if type = 7#8 then d.deliver .sps else if type = 8#8 then d.deliver .pps else d).parameter kind =
      if type = kind.nalType then { d.parameter kind with delivered := true }
      else d.parameter kind := by
  by_cases hseven : type=7#8
  · subst hseven
    exact deliver_sets d .sps kind
  · rw [if_neg hseven]
    by_cases height : type=8#8
    · subst height
      exact deliver_sets d .pps kind
    · rw [if_neg height]
      cases kind with
      | sps => exact ⟨rfl,(if_neg hseven).symm⟩
      | pps => exact ⟨rfl,(if_neg height).symm⟩

variable {s : System (Recorded σ)}

theorem pushHanded_good {type : Byte}
    (h : Good s.dispatcher s.producer.history) (hslice : isSlice type=false)
    (hlast : ∀ kind : ParameterKind, type=kind.nalType →
      lastHanded kind s.producer.history=some annexb ∧
      (s.dispatcher.parameter kind).nal≠[]) :
    Good (pushHanded producer.recorded cfg.recorded annexb type s).2.dispatcher
      (pushHanded producer.recorded cfg.recorded annexb type s).2.producer.history := by
  obtain ⟨hout,hsets⟩ := pushWithBackpressure_outcome producer cfg annexb type s
  unfold pushHanded
  generalize pushWithBackpressure producer.recorded cfg.recorded annexb type s=answer at *
  obtain ⟨r,s'⟩ := answer
  generalize hhistory : s'.producer.history=history at hout
  cases hout with
  | accepted hquiet hacc htype hbytes =>
    rw [hhistory]
    refine (h.quiets hquiet).accept hacc (htype ▸ hslice) ?_ (fun hin => ?_) fun kind => ?_
    · intro kind hkind
      obtain ⟨hforce,hne⟩ := hlast kind (htype ▸ hkind)
      rw [(account_quiets hquiet kind).2.1,hbytes]
      exact ⟨hforce,hne⟩
    · rw [(mark_sets s'.dispatcher type .sps).1,hsets.active] at hin
      exact hin
    · rw [(mark_sets s'.dispatcher type kind).2,htype,hsets.parameter kind]
  | refused hquiet hr =>
    have hgood := (h.quiets hquiet).congr (fun hin => hsets.active ▸ hin) hsets.parameter
    cases r with
    | ok => exact absurd rfl hr
    | full => rw [← hhistory] at hgood; exact hgood
    | desync => rw [← hhistory] at hgood; exact hgood
    | fatal => rw [← hhistory] at hgood; exact hgood

/-- What a successful replay of a kind leaves of an earlier history: the kind is in
force, by what was in force or else handed last, and the rest is as it was. -/
structure Replayed (kind : ParameterKind) (past history : List (Moment σ)) : Prop where
  /-- The other kind is untouched. -/
  other : ∀ k, k≠kind → inForce k history=inForce k past
  /-- The last set handed is in force unless one was. -/
  filled : inForce kind history=(inForce kind past).or (lastHanded kind past)
  /-- Some set is in force. -/
  some : (inForce kind history).isSome
  /-- No set was handed. -/
  handed : ∀ k, lastHanded k history=lastHanded k past
  /-- Nothing was handed before. -/
  before : beforeHanding history=beforeHanding past

theorem replayParameter_good (kind : ParameterKind) (count : DispatchStats → DispatchStats)
    (h : Good s.dispatcher s.producer.history)
    (hactive : s.dispatcher.active=true) :
    Good (replayParameter producer.recorded cfg.recorded kind count s).2.dispatcher
      (replayParameter producer.recorded cfg.recorded kind count s).2.producer.history ∧
    (replayParameter producer.recorded cfg.recorded kind count s).2.dispatcher.active=true ∧
    ((replayParameter producer.recorded cfg.recorded kind count s).1 = .ok →
      Replayed kind s.producer.history
        (replayParameter producer.recorded cfg.recorded kind count s).2.producer.history) := by
  unfold replayParameter
  by_cases hmark : (s.dispatcher.parameter kind).delivered=true
  · rw [if_pos hmark]
    have hsome := (h.marked kind).symm.trans hmark
    refine ⟨h,hactive,fun _ => ⟨fun k _ => rfl,?_,hsome,fun k => rfl,rfl⟩⟩
    obtain ⟨old,hold⟩ := Option.isSome_iff_exists.mp hsome
    rw [hold,Option.some_or]
  · rw [if_neg hmark]
    by_cases hempty : (s.dispatcher.parameter kind).nal=[]
    · rw [if_pos hempty]
      exact ⟨h,hactive,fun hok => noConfusion hok⟩
    · rw [if_neg hempty]
      have hkept := h.kept kind hactive hempty
      obtain ⟨hout,hsets⟩ := pushWithBackpressure_outcome producer cfg
        (s.dispatcher.parameter kind).nal kind.nalType s
      generalize pushWithBackpressure producer.recorded cfg.recorded
        (s.dispatcher.parameter kind).nal kind.nalType s=answer at *
      obtain ⟨r,s'⟩ := answer
      generalize hhistory : s'.producer.history=history at hout
      cases hout with
      | @accepted waits m nal hquiet hacc htype hbytes =>
        rw [hhistory]
        have hdeliver := deliver_sets s'.dispatcher kind
        have hnone : inForce kind s.producer.history=none := by
          rw [← Option.not_isSome_iff_eq_none,← h.marked kind]
          exact hmark
        have hforce : ∀ k, inForce k (m::(waits ++ s.producer.history)) =
            if kind.nalType = k.nalType then some (s.dispatcher.parameter kind).nal
            else inForce k s.producer.history := by
          intro k
          rw [inForce_accepted hacc,(account_quiets hquiet k).1,htype,hbytes]
        refine ⟨(h.quiets hquiet).accept hacc ?_ ?_ ?_ fun k => ?_,?_,fun _ => ?_⟩
        · rw [htype]
          cases kind <;> rfl
        · intro k hk
          rw [htype] at hk
          have heq : k=kind := by cases k <;> cases kind <;> first | rfl | exact absurd hk (by decide)
          subst heq
          rw [(account_quiets hquiet k).2.1,hbytes]
          exact ⟨hkept,hempty⟩
        · intro _
          exact hactive
        · rw [htype,← hsets.parameter k]
          exact (hdeliver k).2
        · exact (hdeliver kind).1.trans (hsets.active.trans hactive)
        · refine ⟨fun k hk => ?_,?_,?_,fun k => ?_,?_⟩
          · rw [hforce,if_neg]
            cases k <;> cases kind <;> first | exact absurd rfl hk | decide
          · rw [hforce,if_pos rfl,hnone,Option.none_or,hkept]
          · rw [hforce,if_pos rfl]
            rfl
          · rw [lastHanded_accepted hacc,(account_quiets hquiet k).2.1]
          · rw [beforeHanding_accepted hacc,(account_quiets hquiet kind).2.2]
      | refused hquiet hr =>
        have hgood := (h.quiets hquiet).congr (fun hin => hsets.active ▸ hin) hsets.parameter
        rw [← hhistory] at hgood
        have hin := hsets.active.trans hactive
        cases r with
        | ok => exact absurd rfl hr
        | full => exact ⟨hgood,hin,fun hok => noConfusion hok⟩
        | desync => exact ⟨hgood,hin,fun hok => noConfusion hok⟩
        | fatal => exact ⟨hgood,hin,fun hok => noConfusion hok⟩

/-- After both replays a slice meets the parameter sets handed last just if none was
superseded. -/
theorem replayed_meets {past middle history : List (Moment σ)} (haccount : Accounted past)
    (hsps : Replayed .sps past middle) (hpps : Replayed .pps middle history) :
    ParametersCurrent history ↔ ∀ kind, superseded kind past=false := by
  have hhanded : ∀ kind, lastHanded kind history=lastHanded kind past := fun kind =>
    (hpps.handed kind).trans (hsps.handed kind)
  have hfilled : ∀ kind, inForce kind history=(inForce kind past).or (lastHanded kind past) ∧
      (inForce kind history).isSome := by
    intro kind
    cases kind with
    | sps =>
      rw [hpps.other .sps (by decide)]
      exact ⟨hsps.filled,hsps.some⟩
    | pps =>
      refine ⟨?_,hpps.some⟩
      rw [hpps.filled,hsps.other .pps (by decide),hsps.handed]
  have hkind : ∀ kind, (∃ annexb, inForce kind history=some annexb ∧
      lastHanded kind history=some annexb) ↔ superseded kind past=false := by
    intro kind
    obtain ⟨hforce,hsome⟩ := hfilled kind
    rw [hforce] at hsome ⊢
    rw [hhanded kind,← Bool.not_eq_true,haccount kind]
    cases hold : inForce kind past with
    | none =>
      rw [hold,Option.none_or] at hsome
      obtain ⟨annexb,hannexb⟩ := Option.isSome_iff_exists.mp hsome
      exact ⟨fun _ ⟨_,hnone,_⟩ => absurd hnone.symm (Option.some_ne_none _),
        fun _ => ⟨annexb,hannexb,hannexb⟩⟩
    | some old =>
      constructor
      · rintro ⟨annexb,heq,hlast⟩ ⟨other,hother,hne⟩
        exact hne (hlast.trans (heq.symm.trans hother))
      · intro hall
        by_contra hnone
        exact hall ⟨old,rfl,fun hlast => hnone ⟨old,rfl,hlast⟩⟩
  exact forall_congr' hkind

theorem pushSlice_good {type : Byte}
    (h : Good s.dispatcher s.producer.history) (hslice : isSlice type=true)
    (hmeets : ParametersCurrent s.producer.history ↔
      ∀ kind, superseded kind (beforeHanding s.producer.history)=false) :
    Good (pushHanded producer.recorded cfg.recorded annexb type s).2.dispatcher
      (pushHanded producer.recorded cfg.recorded annexb type s).2.producer.history := by
  obtain ⟨hout,hsets⟩ := pushWithBackpressure_outcome producer cfg annexb type s
  have hgood : Good s.dispatcher (pushWithBackpressure producer.recorded cfg.recorded annexb
      type s).2.producer.history := by
    generalize (pushWithBackpressure producer.recorded cfg.recorded annexb type s).1=r at hout
    generalize (pushWithBackpressure producer.recorded cfg.recorded annexb type s).2.producer.history =
      history at hout
    cases hout with
    | accepted hquiet hacc htype hbytes =>
      refine (h.quiets hquiet).acceptSlice hacc (htype ▸ hslice) ?_
      have hcurrent : ParametersCurrent _ ↔ ParametersCurrent s.producer.history :=
        forall_congr' fun kind => by
          rw [(account_quiets hquiet kind).1,(account_quiets hquiet kind).2.1]
      rw [hcurrent,(account_quiets hquiet .sps).2.2]
      exact hmeets
    | refused hquiet hr => exact h.quiets hquiet
  have hseven : type≠7#8 := fun heq => absurd (heq ▸ hslice) (by decide)
  have height : type≠8#8 := fun heq => absurd (heq ▸ hslice) (by decide)
  have hgood' := hgood.congr (fun hin => hsets.active ▸ hin) hsets.parameter
  unfold pushHanded
  generalize pushWithBackpressure producer.recorded cfg.recorded annexb type s=answer at *
  obtain ⟨r,s'⟩ := answer
  cases r with
  | ok =>
    dsimp only
    rw [if_neg hseven,if_neg height]
    exact hgood'
  | _ => exact hgood'

/-- Replaying both kinds keeps the account, and a slice may follow if it succeeds. -/
theorem replayParameters_good
    (h : Good s.dispatcher s.producer.history) (hactive : s.dispatcher.active=true) :
    Good (replayParametersIfNeeded producer.recorded cfg.recorded s).2.dispatcher
      (replayParametersIfNeeded producer.recorded cfg.recorded s).2.producer.history ∧
    ((replayParametersIfNeeded producer.recorded cfg.recorded s).1 = .ok →
      ∃ middle, Replayed .sps s.producer.history middle ∧ Replayed .pps middle
        (replayParametersIfNeeded producer.recorded cfg.recorded s).2.producer.history) := by
  unfold replayParametersIfNeeded
  obtain ⟨hgood,hin,hreplayed⟩ := replayParameter_good producer cfg .sps
    (fun n => { n with spsReplayed := n.spsReplayed+1 }) h hactive
  generalize replayParameter producer.recorded cfg.recorded .sps
    (fun n => { n with spsReplayed := n.spsReplayed+1 }) s=answer at *
  obtain ⟨r,s'⟩ := answer
  cases r with
  | ok =>
    obtain ⟨hgood',_,hreplayed'⟩ := replayParameter_good producer cfg .pps
      (fun n => { n with ppsReplayed := n.ppsReplayed+1 }) hgood hin
    exact ⟨hgood',fun hok => ⟨s'.producer.history,hreplayed rfl,hreplayed' hok⟩⟩
  | full => exact ⟨hgood,fun hok => noConfusion hok⟩
  | desync => exact ⟨hgood,fun hok => noConfusion hok⟩
  | fatal => exact ⟨hgood,fun hok => noConfusion hok⟩

theorem annexBNalType_nil : annexBNalType []=0#8 := rfl

theorem handleNal_good {t : System (Recorded σ)} {m : Moment σ}
    {past : List (Moment σ)} (h : Good t.dispatcher past)
    (hhistory : t.producer.history=m::past) (hm : effect m.event = .handed annexb) :
    Good (handleNal producer.recorded cfg.recorded annexb t).2.dispatcher
      (handleNal producer.recorded cfg.recorded annexb t).2.producer.history := by
  unfold handleNal
  have hother : (t.dispatcher.active=true → annexBNalType annexb=0#8) →
      Good t.dispatcher t.producer.history := by
    intro htype
    rw [hhistory]
    refine h.handedOther hm fun hin kind => ?_
    rw [htype hin]
    cases kind <;> decide
  by_cases hrefused : (!t.dispatcher.active || annexb.isEmpty) = true
  · rw [if_pos hrefused]
    refine hother fun hin => ?_
    rw [hin,Bool.not_true,Bool.false_or,List.isEmpty_iff] at hrefused
    rw [hrefused]
    exact annexBNalType_nil
  · rw [if_neg hrefused]
    rw [Bool.or_eq_true,not_or,Bool.not_eq_true,Bool.not_eq_false',List.isEmpty_iff] at hrefused
    obtain ⟨hactive,hne⟩ := hrefused
    by_cases htype : annexBNalType annexb = 0#8
    · rw [if_pos htype]
      exact hother fun _ => htype
    · rw [if_neg htype]
      have hseen : Good (t.dispatcher.count fun n => { n with nalSeen := n.nalSeen+1 }) past :=
        h.congr (fun hin => hin) fun kind => by cases kind <;> rfl
      have hkept := hseen.handedKept hne hm
      rw [← hhistory] at hkept
      have hcache := parameter_cache (t.dispatcher.count fun n => { n with nalSeen := n.nalSeen+1 })
        (annexBNalType annexb) annexb
      have hin : ((t.dispatcher.count fun n => { n with nalSeen := n.nalSeen+1 }).cache
        (annexBNalType annexb) annexb).active=true := (active_cache _ _ _).trans hactive
      generalize (t.dispatcher.count fun n => { n with nalSeen := n.nalSeen+1 }).cache
        (annexBNalType annexb) annexb=d at hkept hcache hin ⊢
      by_cases hpaused : d.paused = true
      · rw [if_pos hpaused]
        exact hkept.congr (fun hin => hin) fun kind => by cases kind <;> rfl
      · rw [if_neg hpaused]
        by_cases hslice : isSlice (annexBNalType annexb)=true
        · rw [if_pos hslice]
          obtain ⟨hgood,hreplayed⟩ := replayParameters_good producer cfg
            (s := { t with dispatcher := d }) hkept hin
          generalize replayParametersIfNeeded producer.recorded cfg.recorded
            { t with dispatcher := d } = answer at hgood hreplayed ⊢
          obtain ⟨r,s'⟩ := answer
          cases r with
          | ok =>
            obtain ⟨middle,hsps,hpps⟩ := hreplayed rfl
            refine pushSlice_good producer cfg hgood hslice ?_
            have hbefore : beforeHanding s'.producer.history=past := by
              rw [hpps.before,hsps.before,hhistory,beforeHanding_handed hm]
            rw [replayed_meets hkept.accounted hsps hpps,hbefore]
            refine forall_congr' fun kind => ?_
            have hkind : annexBNalType annexb≠kind.nalType := by
              intro heq
              rw [heq] at hslice
              cases kind <;> exact absurd hslice (by decide)
            rw [hhistory,superseded_handed hm,if_neg hkind]
          | _ => exact hgood
        · rw [if_neg hslice]
          refine pushHanded_good producer cfg hkept (Bool.not_eq_true _ ▸ hslice) fun kind hkind => ?_
          constructor
          · rw [hhistory,lastHanded_handed hm,if_pos hkind]
          · rw [hcache,if_pos hkind]
            exact hne

end Pushing

section Runs

variable (producer : Producer σ) (cfg : DispatchConfig σ)

variable {s : System (Recorded σ)}

theorem beginSession_good (id : SessionId) (h : Good s.dispatcher s.producer.history) :
    Good (beginSession producer.recorded id s).2.dispatcher
      (beginSession producer.recorded id s).2.producer.history := by
  unfold beginSession
  dsimp only [Producer.recorded]
  generalize producer.beginSession id s.producer.state=answer
  obtain ⟨r,p⟩ := answer
  cases r with
  | ok =>
    exact h.renew rfl (fun kind => by cases kind <;> rfl)
      fun kind _ hne => absurd (by cases kind <;> rfl) hne
  | _ => exact h.quiet rfl

/-- A call that controls the session keeps the account if the answers of the producer
do. -/
theorem controlSession_good {ask : SessionId → Recorded σ → ControlResult × Recorded σ}
    {change : NalDispatcher → NalDispatcher} (h : Good s.dispatcher s.producer.history)
    (hrefused : ∀ id, (ask id s.producer).1 ≠ .ok →
      Good s.dispatcher (ask id s.producer).2.history)
    (hok : ∀ id, s.dispatcher.active=true → (ask id s.producer).1 = .ok →
      Good (change s.dispatcher) (ask id s.producer).2.history) :
    Good (controlSession ask change s).2.dispatcher
      (controlSession ask change s).2.producer.history := by
  unfold controlSession
  by_cases hactive : s.dispatcher.active=true
  · rw [if_pos hactive]
    have hrefused := hrefused s.dispatcher.sessionId
    have hok := hok s.dispatcher.sessionId hactive
    generalize ask s.dispatcher.sessionId s.producer=answer at *
    obtain ⟨r,p⟩ := answer
    cases r with
    | ok => exact hok rfl
    | _ => exact hrefused ControlResult.noConfusion
  · rw [if_neg hactive]
    exact h

theorem endSession_good (h : Good s.dispatcher s.producer.history) :
    Good (endSession producer.recorded s).2.dispatcher
      (endSession producer.recorded s).2.producer.history := by
  refine controlSession_good h (fun id _ => h.quiet rfl) fun id _ _ => ?_
  exact Good.congr (h.quiet rfl) (fun hin => absurd hin Bool.false_ne_true) fun kind => by
    cases kind <;> rfl

theorem pauseSession_good (h : Good s.dispatcher s.producer.history) :
    Good (pauseSession producer.recorded s).2.dispatcher
      (pauseSession producer.recorded s).2.producer.history := by
  refine controlSession_good h (fun id _ => h.quiet rfl) fun id _ _ => ?_
  exact Good.congr (h.quiet rfl) (fun hin => hin) fun kind => by cases kind <;> rfl

theorem resumeSession_good (h : Good s.dispatcher s.producer.history) :
    Good (resumeSession producer.recorded s).2.dispatcher
      (resumeSession producer.recorded s).2.producer.history := by
  refine controlSession_good h (fun id hne => h.quiet ?_) fun id hactive hok => h.renew ?_
    (fun kind => by cases kind <;> rfl) fun kind _ _ => ⟨hactive,by cases kind <;> rfl⟩
  · dsimp only [Producer.recorded] at hne ⊢
    generalize (producer.resumeSession id s.producer.state).1=r at *
    cases r with
    | ok => exact absurd rfl hne
    | _ => rfl
  · dsimp only [Producer.recorded] at hok ⊢
    rw [hok]
    rfl

theorem flushForSeek_good (id : SessionId) (h : Good s.dispatcher s.producer.history) :
    Good (flushForSeek producer.recorded id s).2.dispatcher
      (flushForSeek producer.recorded id s).2.producer.history := by
  unfold flushForSeek
  by_cases hactive : s.dispatcher.active=true
  · rw [if_pos hactive]
    have hflush : Good s.dispatcher
        (producer.recorded.flushSession s.dispatcher.sessionId s.producer).2.history := h.quiet rfl
    generalize producer.recorded.flushSession s.dispatcher.sessionId s.producer=answer at *
    obtain ⟨r,p⟩ := answer
    cases r with
    | ok =>
      dsimp only at hflush ⊢
      have hend : Good s.dispatcher
          (producer.recorded.endSession s.dispatcher.sessionId p).2.history := hflush.quiet rfl
      generalize producer.recorded.endSession s.dispatcher.sessionId p=answer at *
      obtain ⟨r,q⟩ := answer
      cases r with
      | ok =>
        have hended : Good { s.dispatcher with active := false } q.history :=
          hend.congr (fun hin => absurd hin Bool.false_ne_true) fun kind => by cases kind <;> rfl
        exact beginSession_good producer id (s := ⟨_,q⟩) hended
      | _ => exact hend
    | _ => exact hflush
  · rw [if_neg hactive]
    exact beginSession_good producer id h

theorem call_good (c : Call) (h : Good s.dispatcher s.producer.history) :
    Good (call producer cfg.recorded c s).dispatcher
      (call producer cfg.recorded c s).producer.history := by
  cases c with
  | begin id => exact beginSession_good producer id h
  | handleNal annexb => exact handleNal_good producer cfg (t := hand annexb s) h rfl rfl
  | pause => exact pauseSession_good producer h
  | resume => exact resumeSession_good producer h
  | flushForSeek id => exact flushForSeek_good producer id h
  | «end» => exact endSession_good producer h

theorem calls_good (cs : List Call) (h : Good s.dispatcher s.producer.history) :
    Good (calls producer cfg.recorded s cs).dispatcher
      (calls producer cfg.recorded s cs).producer.history := by
  induction cs generalizing s with
  | nil => exact h
  | cons c cs ih => exact ih (call_good producer cfg c h)

theorem good_start : Good ({} : NalDispatcher) ([] : List (Moment σ)) where
  marked kind := by cases kind <;> rfl
  present kind hset := by cases kind <;> exact absurd hset Bool.false_ne_true
  kept kind hin := absurd hin Bool.false_ne_true
  accounted kind := ⟨fun h => absurd h Bool.false_ne_true,fun ⟨_,h,_⟩ => absurd h.symm (Option.some_ne_none _)⟩
  settled := trivial

/-- The history of a run of a new dispatcher over any producer. -/
def runHistory (start : σ) (cs : List Call) : List (Moment σ) :=
  (calls producer cfg.recorded ⟨{},Recorded.fresh start⟩ cs).producer.history

/-- In every run the slices that the producer accepts meet the parameter sets handed
last if and only if none of them was handed while a parameter set was superseded. -/
theorem slicesMeetParameters_iff (start : σ) (cs : List Call) :
    SlicesMeetParameters (runHistory producer cfg start cs) ↔
      NoSliceAfterLoss (runHistory producer cfg start cs) := by
  have hgood := calls_good producer cfg cs (s := ⟨{},Recorded.fresh start⟩) good_start
  exact Always.congr (Always.mono (fun _ _ h => imp_congr_right h) hgood.settled)

end Runs

/-- A producer that answers pushes from a list and agrees to everything else. -/
def scripted : Producer (List PushResult) where
  beginSession _ answers := (.ok,answers)
  pushNal _ answers := (answers.headD .ok,answers.tail)
  flushSession _ answers := (.ok,answers)
  endSession _ answers := (.ok,answers)
  pauseSession _ answers := (.ok,answers)
  resumeSession _ answers := (.ok,answers)

/-- A configuration without retries. -/
def noRetries : DispatchConfig (List PushResult) where
  maxFullRetries := 0
  sleepMs := none

/-- A second parameter set is answered with `full`, and the slice after it is accepted
with the first one in force. -/
theorem not_slicesMeetParameters_full :
    ¬ SlicesMeetParameters (runHistory scripted noRetries [.ok,.ok,.full,.ok]
      [.begin 1,.handleNal [0#8,0#8,1#8,0x67#8,1#8],.handleNal [0#8,0#8,1#8,0x68#8,2#8],
        .handleNal [0#8,0#8,1#8,0x67#8,3#8],.handleNal [0#8,0#8,1#8,0x65#8,4#8]]) := by
  intro h
  obtain ⟨annexb,hforce,hlast⟩ := h.1 (by decide) .sps
  exact absurd (hforce.trans hlast.symm) (by decide)

end Misterplex.Dispatch
