import Misterplex.Plex.TimelineReporter
import Misterplex.Lib.Trace
import Mathlib.Data.List.Sort

/-!
# Reports on their way to the server

Any number of threads report; each decides in one critical section and enters
the queue in a later one. The worker takes a report from the queue in one
critical section and hands it over afterwards. While the reports of one session
enter the queue in order and no end of a session is evicted, every session is
reported in order, up to its end, and its end exactly once.
-/

namespace Misterplex.Plex

open Misterplex.Trace List

/-- An accepted report with the number of its session and its place among all reports. -/
structure Accepted where
  /-- The session it reports on. -/
  session : ℕ
  /-- Its place among the accepted reports. -/
  order : ℕ
  /-- The report. -/
  pending : Pending
  deriving DecidableEq

/-- The report ends its session. -/
def Accepted.stopped (t : Accepted) : Bool := t.pending.state == "stopped"

/-- The report ends the session of a number. -/
def Accepted.ends (k : ℕ) (t : Accepted) : Bool := t.session == k && t.stopped

/-- The reporter, its threads, its queue and its worker. -/
structure Dispatch where
  /-- What the mutex guards besides the queue. -/
  reporter : Reporter
  /-- The sessions begun. -/
  sessions : ℕ
  /-- The sessions that ended. -/
  ended : ℕ → Bool
  /-- Every report accepted. -/
  accepted : List Accepted
  /-- Accepted reports that have not yet entered the queue. -/
  inflight : List Accepted
  /-- The reports in line. -/
  queue : List Accepted
  /-- The report that the worker has taken. -/
  hand : Option Accepted
  /-- The reports handed over, in order. -/
  sent : List Accepted

/-- Before the first session. -/
def Dispatch.start : Dispatch :=
  ⟨Reporter.idle,0,fun _ => false,[],[],[],none,[]⟩

/-- One critical section of some thread, or the worker's call of the sink. -/
inductive Turn
  | beginSession (session : PmsTimelineSession) (timeMs durationMs : ℤ)
  | reportState (state : String) (timeMs durationMs : ℤ) (now : ℕ)
  | endSession (timeMs durationMs : ℤ)
  | updateToken (token : String)
  /-- An accepted report enters the queue. -/
  | enqueue (order : ℕ)
  /-- The worker takes a report. -/
  | take
  /-- The worker hands its report over. -/
  | send

variable (w : Dispatch)

/-- The outcome of a decision: an accepted report is on its way to the queue. -/
def Dispatch.accept (r : Option Pending × Reporter) : Dispatch :=
  match r.1 with
  | none => { w with reporter := r.2 }
  | some p =>
    { w with
      reporter := r.2, accepted := w.accepted ++ [⟨w.sessions,w.accepted.length,p⟩],
      inflight := w.inflight ++ [⟨w.sessions,w.accepted.length,p⟩] }

/-- A live session is ended. -/
def Dispatch.close : Dispatch :=
  if w.reporter.active then { w with ended := Function.update w.ended w.sessions true } else w

/-- One turn of the poster or of a caller. -/
def Dispatch.step : Turn → Dispatch
  | .beginSession session timeMs durationMs =>
    { w with sessions := w.sessions+1 }.accept (beginSession session timeMs durationMs)
  | .reportState state timeMs durationMs now =>
    (if state = "ended" then w.close else w).accept
      (w.reporter.reportState state timeMs durationMs now)
  | .endSession timeMs durationMs => w.close.accept (w.reporter.endSession timeMs durationMs)
  | .updateToken token => { w with reporter := w.reporter.updateToken token }
  | .enqueue order =>
    match w.inflight.find? fun t => t.order == order with
    | none => w
    | some t =>
      { w with
        inflight := w.inflight.erase t, queue := enqueue Accepted.stopped w.queue t }
  | .take =>
    match w.hand,w.queue with
    | none,t::rest => { w with hand := some t, queue := rest }
    | _,_ => w
  | .send =>
    match w.hand with
    | none => w
    | some t => { w with hand := none, sent := w.sent ++ [t] }

/-- The reports handed over or in line for it. -/
def Dispatch.line : List Accepted := w.sent ++ w.hand.toList ++ w.queue

/-- A report enters the queue in order: no later report of its session is in line, and the
queue is not full of ends of sessions. -/
def Dispatch.Enters (t : Accepted) : Prop :=
  (∀ y∈w.line, y.session=t.session → y.order<t.order) ∧
    ¬(kMaxQueue≤w.queue.length ∧ ∀ y∈w.queue, y.stopped=true)

/-- The turns that keep the reports in order. The end of a session is reported by ending it. -/
def Dispatch.Fits : Turn → Prop
  | .reportState state _ _ _ => state = "stopped" → w.reporter.active=false
  | .enqueue order =>
    match w.inflight.find? fun t => t.order == order with
    | none => True
    | some t => w.Enters t
  | _ => True

instance (w : Dispatch) (t : Accepted) : Decidable (w.Enters t) :=
  inferInstanceAs (Decidable (_ ∧ _))

instance (w : Dispatch) (a : Turn) : Decidable (w.Fits a) :=
  match a with
  | .reportState state _ _ _ =>
    inferInstanceAs (Decidable (state = "stopped" → w.reporter.active=false))
  | .enqueue order =>
    match h : w.inflight.find? fun t => t.order == order with
    | none => isTrue (by simp only [Dispatch.Fits,h])
    | some t => decidable_of_iff (w.Enters t) (by simp only [Dispatch.Fits,h])
  | .beginSession _ _ _ => isTrue trivial
  | .endSession _ _ => isTrue trivial
  | .updateToken _ => isTrue trivial
  | .take => isTrue trivial
  | .send => isTrue trivial

/-- The session can be reported. -/
def Reportable (session : PmsTimelineSession) : Prop :=
  session.token ≠ "" ∧ session.ratingKey ≠ "" ∧ normalizePlexBase session.baseUrl ≠ ""

/-- A request is built exactly for a session that can be reported and a known state. -/
theorem build_isSome_iff (session : PmsTimelineSession) (state : String) (timeMs durationMs : ℤ) :
    (buildPmsTimelineHttpRequest session state timeMs durationMs).isSome=true ↔
      Reportable session ∧ validState state=true := by
  unfold buildPmsTimelineHttpRequest Reportable
  by_cases hknown : session.token = "" ∨ session.ratingKey = "" ∨ validState state=false
  · rw [if_pos hknown]
    refine iff_of_false (by simp) ?_
    rintro ⟨⟨htoken,hrating,_⟩,hvalid⟩
    rcases hknown with h | h | h
    · exact htoken h
    · exact hrating h
    · rw [h] at hvalid
      exact absurd hvalid (by decide)
  · rw [if_neg hknown]
    push Not at hknown
    have hvalid : validState state=true := by simpa using hknown.2.2
    by_cases hbase : normalizePlexBase session.baseUrl = ""
    · rw [if_pos hbase]
      exact iff_of_false (by simp) (fun h => h.1.2.2 hbase)
    · rw [if_neg hbase]
      exact iff_of_true rfl ⟨⟨hknown.1,hknown.2.1,hbase⟩,hvalid⟩

/-- The beginning of a session is reported as buffering, and leaves a session that can be
reported, or none. -/
theorem beginSession_spec (session : PmsTimelineSession) (timeMs durationMs : ℤ) :
    (∃ p, beginSession session timeMs durationMs =
        (some p,⟨true,session,"buffering",none⟩) ∧ p.state = "buffering" ∧
          Reportable session) ∨
      beginSession session timeMs durationMs=(none,⟨false,session,"",none⟩) := by
  unfold beginSession
  cases hbuild : buildPmsTimelineHttpRequest session "buffering" timeMs durationMs with
  | none => exact Or.inr rfl
  | some req =>
    refine Or.inl ⟨⟨req,"buffering"⟩,rfl,rfl,?_⟩
    exact ((build_isSome_iff session "buffering" timeMs durationMs).mp (hbuild ▸ rfl)).1

/-- Ending an open session reports it as stopped. -/
theorem Reporter.endSession_spec {r : Reporter} (hactive : r.active=true)
    (hreport : Reportable r.session) (timeMs durationMs : ℤ) :
    ∃ p, r.endSession timeMs durationMs =
      (some p,{ r with lastSentState := "stopped", active := false }) ∧ p.state = "stopped" := by
  have hbuild := (build_isSome_iff r.session "stopped" timeMs durationMs).mpr ⟨hreport,rfl⟩
  obtain ⟨req,hreq⟩ := Option.isSome_iff_exists.mp hbuild
  refine ⟨⟨req,"stopped"⟩,?_,rfl⟩
  unfold endSession
  rw [if_neg (by rw [hactive]; decide),hreq]

/-- A report is made with its state, or nothing changes. -/
theorem Reporter.reportRunning_spec (r : Reporter) (state : String) (timeMs durationMs : ℤ)
    (now : ℕ) :
    (∃ p r', r.reportRunning state timeMs durationMs now=(some p,r') ∧ p.state=state ∧
        r.active=true ∧ r'.active=true ∧ r'.session=r.session) ∨
      r.reportRunning state timeMs durationMs now=(none,r) := by
  unfold reportRunning
  by_cases hskip : r.active=false ∨ r.shouldSendLocked state now=false
  · rw [if_pos hskip]
    exact Or.inr rfl
  · rw [if_neg hskip]
    have hactive : r.active=true := by
      rw [not_or,Bool.not_eq_false] at hskip
      exact hskip.1
    cases buildPmsTimelineHttpRequest r.session state timeMs durationMs with
    | none => exact Or.inr rfl
    | some req => exact Or.inl ⟨_,_,rfl,rfl,hactive,hactive,rfl⟩

/-- One entry for a true flag. -/
def flag (b : Bool) : ℕ := if b then 1 else 0

/-- The reports under way: every one was accepted, those of one session are in line in order,
an end is the last report of its session, and there is one for every ended session. -/
structure Tracked (w : Dispatch) : Prop where
  increasing : w.accepted.Pairwise fun x y => x.order<y.order
  /-- The numbers so far, and the sessions so far. -/
  below : ∀ t∈w.accepted, t.order<w.accepted.length ∧ t.session≤w.sessions
  /-- Every report under way was accepted. -/
  members : ∀ t ∈ w.line ++ w.inflight, t∈w.accepted
  inLine : w.line.Pairwise fun x y => x.session=y.session → x.order<y.order
  /-- No report follows the end of its session. -/
  last : ∀ x∈w.accepted, x.stopped=true → ∀ y∈w.accepted, y.session=x.session →
    y.order≤x.order
  future : ∀ k, w.sessions<k → w.ended k=false
  once : ∀ k, (w.line ++ w.inflight).countP (Accepted.ends k)=flag (w.ended k)

/-- A live session can be reported and has not been ended. -/
def Dispatch.Open : Prop :=
  w.reporter.active=true → Reportable w.reporter.session ∧ w.ended w.sessions=false ∧
    ∀ x∈w.accepted, x.session=w.sessions → x.stopped=false

theorem Tracked.add {w : Dispatch} (h : Tracked w)
    (hopen : ∀ x∈w.accepted, x.session=w.sessions → x.stopped=false) (p : Pending)
    (r : Reporter) {ended : ℕ → Bool} (hfuture : ∀ k, w.sessions<k → ended k=false)
    (hended : ∀ k, flag (w.ended k) +
      flag (Accepted.ends k ⟨w.sessions,w.accepted.length,p⟩)=flag (ended k)) :
    Tracked ({ w with ended := ended }.accept (some p,r)) where
  increasing := by
    refine pairwise_append.mpr ⟨h.increasing,pairwise_singleton _ _,?_⟩
    intro x hx y hy
    rw [mem_singleton.mp hy]
    exact (h.below x hx).1
  below := by
    intro t ht
    show t.order<(w.accepted ++ [_]).length ∧ _
    rw [length_append,length_singleton]
    rcases mem_append.mp ht with hold | hnew
    · have hbelow := h.below t hold
      exact ⟨by omega,hbelow.2⟩
    · rw [mem_singleton.mp hnew]
      exact ⟨Nat.lt_succ_self _,le_rfl⟩
  members := by
    intro t ht
    have hsplit : t ∈ w.line ++ w.inflight ++ [⟨w.sessions,w.accepted.length,p⟩] := by
      rw [append_assoc]
      exact ht
    rcases mem_append.mp hsplit with hold | hnew
    · exact mem_append_left _ (h.members t hold)
    · exact mem_append_right _ hnew
  inLine := h.inLine
  last := by
    intro x hx hstop y hy hsame
    rcases mem_append.mp hx with hxold | hxnew
    · rcases mem_append.mp hy with hyold | hynew
      · exact h.last x hxold hstop y hyold hsame
      · rw [mem_singleton.mp hynew] at hsame
        have hno := hopen x hxold hsame.symm
        rw [hno] at hstop
        exact absurd hstop (by decide)
    · rw [mem_singleton.mp hxnew]
      rcases mem_append.mp hy with hyold | hynew
      · exact (h.below y hyold).1.le
      · rw [mem_singleton.mp hynew]
  future := hfuture
  once := by
    intro k
    have hsplit : ({ w with ended := ended }.accept (some p,r)).line ++
        ({ w with ended := ended }.accept (some p,r)).inflight =
          w.line ++ w.inflight ++ [⟨w.sessions,w.accepted.length,p⟩] := by
      rw [append_assoc]
      rfl
    rw [hsplit,countP_append,h.once k,countP_singleton]
    exact hended k

/-- Only the reports and the lines count. -/
theorem Tracked.congr {w w' : Dispatch} (h : Tracked w) (haccepted : w'.accepted=w.accepted)
    (hsessions : w.sessions≤w'.sessions) (hended : w'.ended=w.ended) (hline : w'.line=w.line)
    (hinflight : w'.inflight=w.inflight) : Tracked w' where
  increasing := haccepted ▸ h.increasing
  below := by
    rw [haccepted]
    exact fun t ht => ⟨(h.below t ht).1,le_trans (h.below t ht).2 hsessions⟩
  members := by
    rw [hline,hinflight,haccepted]
    exact h.members
  inLine := hline ▸ h.inLine
  last := haccepted ▸ h.last
  future := fun k hk => hended ▸ h.future k (lt_of_le_of_lt hsessions hk)
  once := by
    rw [hline,hinflight,hended]
    exact h.once

open Accepted

theorem flag_running {t : Accepted} (h : t.stopped=false) (k : ℕ) : flag (t.ends k)=0 := by
  unfold ends
  rw [h,Bool.and_false]
  rfl

theorem Tracked.beginSession {w : Dispatch} (h : Tracked w) (session : PmsTimelineSession)
    (timeMs durationMs : ℤ) :
    Tracked (w.step (.beginSession session timeMs durationMs)) ∧
      (w.step (.beginSession session timeMs durationMs)).Open := by
  have hbase : Tracked { w with sessions := w.sessions+1 } :=
    h.congr rfl (Nat.le_succ _) rfl rfl rfl
  have hnone : ∀ x∈w.accepted, x.session=w.sessions+1 → x.stopped=false := by
    intro x hx hsame
    have := (h.below x hx).2
    omega
  have hfree : w.ended (w.sessions+1)=false := h.future _ (Nat.lt_succ_self _)
  show Tracked ({ w with sessions := w.sessions+1 }.accept _) ∧
    ({ w with sessions := w.sessions+1 }.accept _).Open
  rcases beginSession_spec session timeMs durationMs with ⟨p,hbegin,hstate,hreport⟩ | hbegin
  · have hrun : stopped ⟨w.sessions+1,w.accepted.length,p⟩=false := by
      unfold stopped
      rw [hstate]
      decide
    rw [hbegin]
    constructor
    · refine hbase.add hnone p _ hbase.future ?_
      intro k
      rw [flag_running hrun,Nat.add_zero]
    · intro _
      refine ⟨hreport,hfree,?_⟩
      intro x hx hsame
      rcases mem_append.mp hx with hold | hnew
      · exact hnone x hold hsame
      · rw [mem_singleton.mp hnew]
        exact hrun
  · rw [hbegin]
    exact ⟨hbase.congr rfl le_rfl rfl rfl rfl,fun hactive => absurd hactive Bool.false_ne_true⟩

open Dispatch

theorem Tracked.endSession {w : Dispatch} (h : Tracked w) (hopen : w.Open) (timeMs durationMs : ℤ) :
    Tracked (w.close.accept (w.reporter.endSession timeMs durationMs)) ∧
      (w.close.accept (w.reporter.endSession timeMs durationMs)).Open := by
  by_cases hactive : w.reporter.active=true
  · have hlive := hopen hactive
    obtain ⟨p,hend,hstate⟩ := Reporter.endSession_spec hactive hlive.1 timeMs durationMs
    have hclose : w.close = { w with ended := Function.update w.ended w.sessions true } := by
      unfold close
      rw [if_pos hactive]
    rw [hend,hclose]
    constructor
    · refine h.add hlive.2.2 p _ ?_ ?_
      · intro k hk
        rw [Function.update_of_ne (Nat.ne_of_gt hk)]
        exact h.future k hk
      · intro k
        have hstop : stopped ⟨w.sessions,w.accepted.length,p⟩=true := by
          unfold stopped
          rw [hstate]
          decide
        unfold ends
        rw [hstop,Bool.and_true]
        by_cases hk : k=w.sessions
        · rw [hk,Function.update_self,hlive.2.1,beq_self_eq_true]
          rfl
        · have hne : (w.sessions == k)=false := by
            rw [beq_eq_false_iff_ne]
            exact fun heq => hk heq.symm
          rw [Function.update_of_ne hk,hne]
          rfl
    · exact fun hnext => absurd hnext Bool.false_ne_true
  · have hclose : w.close=w := if_neg hactive
    have hend : w.reporter.endSession timeMs durationMs=(none,w.reporter) :=
      if_pos (Bool.not_eq_true _ ▸ hactive)
    rw [hend,hclose]
    exact ⟨h,hopen⟩

theorem Tracked.reportRunning {w : Dispatch} (h : Tracked w) (hopen : w.Open) {state : String}
    (hstate : state = "stopped" → w.reporter.active=false) (timeMs durationMs : ℤ) (now : ℕ) :
    Tracked (w.accept (w.reporter.reportRunning state timeMs durationMs now)) ∧
      (w.accept (w.reporter.reportRunning state timeMs durationMs now)).Open := by
  rcases w.reporter.reportRunning_spec state timeMs durationMs now with
    ⟨p,r',hreport,hp,hactive,hactive',hsession⟩ | hreport
  · have hlive := hopen hactive
    have hrun : stopped ⟨w.sessions,w.accepted.length,p⟩=false := by
      unfold stopped
      rw [hp,beq_eq_false_iff_ne]
      intro hname
      rw [hstate hname] at hactive
      exact absurd hactive (by decide)
    rw [hreport]
    constructor
    · refine h.add hlive.2.2 p r' h.future ?_
      intro k
      rw [flag_running hrun,Nat.add_zero]
    · intro _
      refine ⟨?_,hlive.2.1,?_⟩
      · show Reportable r'.session
        rw [hsession]
        exact hlive.1
      · intro x hx hsame
        rcases mem_append.mp hx with hold | hnew
        · exact hlive.2.2 x hold hsame
        · rw [mem_singleton.mp hnew]
          exact hrun
  · rw [hreport]
    exact ⟨h,hopen⟩

theorem evict_sublist {α : Type*} (stopped : α → Bool) (queue : List α) :
    (evict stopped queue).Sublist queue := by
  unfold evict
  split_ifs
  · exact eraseP_sublist
  · exact tail_sublist _
  · exact List.Sublist.refl _

theorem evict_countP {α : Type*} {stopped p : α → Bool} (hp : ∀ a, p a=true → stopped a=true)
    {queue : List α} (h : ¬(kMaxQueue≤queue.length ∧ ∀ y∈queue, stopped y=true)) :
    (evict stopped queue).countP p=queue.countP p := by
  unfold evict
  by_cases hfull : kMaxQueue≤queue.length
  · have hany : (queue.any fun a => !stopped a)=true := by
      by_contra hall
      apply h
      constructor
      · exact hfull
      · intro y hy
        by_contra hrun
        apply hall
        rw [any_eq_true]
        rw [Bool.not_eq_true] at hrun
        exact ⟨y,hy,congrArg Bool.not hrun⟩
    rw [if_pos hfull,if_pos hany]
    obtain ⟨y,hy,hrun⟩ := any_eq_true.mp hany
    obtain ⟨a,l₁,l₂,_,ha,hqueue,herase⟩ :=
      exists_of_eraseP (p := fun a => !stopped a) hy hrun
    have hkeep : ¬p a=true := by
      intro hpa
      rw [hp a hpa] at ha
      exact absurd ha (by decide)
    rw [herase,hqueue,countP_append,countP_append,countP_cons_of_neg hkeep]
  · rw [if_neg hfull]

theorem Tracked.enqueue {w : Dispatch} (h : Tracked w) {t : Accepted} (ht : t∈w.inflight)
    (henter : w.Enters t) :
    Tracked { w with
      inflight := w.inflight.erase t, queue := enqueue Accepted.stopped w.queue t } := by
  have hmember : t∈w.accepted := h.members t (mem_append_right _ ht)
  have hevict := evict_sublist stopped w.queue
  have hline : (w.sent ++ w.hand.toList ++ evict stopped w.queue).Sublist w.line :=
    (List.Sublist.refl _).append hevict
  have hnext : (w.sent ++ w.hand.toList ++ Plex.enqueue stopped w.queue t) =
      (w.sent ++ w.hand.toList ++ evict stopped w.queue) ++ [t] := by
    unfold Plex.enqueue
    rw [append_assoc (w.sent ++ w.hand.toList)]
  exact
    { increasing := h.increasing
      below := h.below
      members := by
        intro x hx
        rcases mem_append.mp hx with hx | hx
        · have hx' : x ∈ w.sent ++ w.hand.toList ++ evict stopped w.queue ++ [t] :=
            hnext ▸ hx
          rcases mem_append.mp hx' with hold | hnew
          · exact h.members x (mem_append_left _ (hline.subset hold))
          · rw [mem_singleton.mp hnew]
            exact hmember
        · exact h.members x (mem_append_right _ (mem_of_mem_erase hx))
      inLine := by
        show (w.sent ++ w.hand.toList ++ Plex.enqueue stopped w.queue t).Pairwise _
        rw [hnext,pairwise_append]
        refine ⟨h.inLine.sublist hline,pairwise_singleton _ _,?_⟩
        intro x hx y hy hsame
        rw [mem_singleton.mp hy] at hsame ⊢
        exact henter.1 x (hline.subset hx) hsame
      last := h.last
      future := h.future
      once := by
        intro k
        have hends : ∀ a, ends k a=true → a.stopped=true :=
          fun a ha => (Bool.and_eq_true_iff.mp ha).2
        have hcount := h.once k
        have hperm := (perm_cons_erase ht).countP_eq (ends k)
        show (w.sent ++ w.hand.toList ++ Plex.enqueue stopped w.queue t ++
          w.inflight.erase t).countP _ = flag (w.ended k)
        unfold line at hcount
        rw [countP_append,countP_append] at hcount
        rw [hnext,countP_append,countP_append,countP_append,
          evict_countP hends henter.2,← hcount,hperm,countP_cons,countP_cons,
          countP_nil]
        omega }

/-- One turn keeps the order of the reports. -/
theorem Tracked.step {w : Dispatch} (h : Tracked w) (hopen : w.Open) {a : Turn} (hfit : w.Fits a) :
    Tracked (w.step a) ∧ (w.step a).Open := by
  cases a with
  | beginSession session timeMs durationMs => exact h.beginSession session timeMs durationMs
  | reportState state timeMs durationMs now =>
    by_cases hended : state = "ended"
    · have hnext : w.step (.reportState state timeMs durationMs now) =
          w.close.accept (w.reporter.endSession timeMs durationMs) := by
        simp only [Dispatch.step,Reporter.reportState,if_pos hended]
      rw [hnext]
      exact h.endSession hopen timeMs durationMs
    · have hnext : w.step (.reportState state timeMs durationMs now) =
          w.accept (w.reporter.reportRunning state timeMs durationMs now) := by
        simp only [Dispatch.step,Reporter.reportState,if_neg hended]
      rw [hnext]
      exact h.reportRunning hopen hfit timeMs durationMs now
  | endSession timeMs durationMs => exact h.endSession hopen timeMs durationMs
  | updateToken token =>
    constructor
    · exact h.congr rfl le_rfl rfl rfl rfl
    · show ({ w with reporter := w.reporter.updateToken token } : Dispatch).Open
      unfold Reporter.updateToken
      by_cases hskip : token = "" ∨ w.reporter.active=false
      · rw [if_pos hskip]
        exact hopen
      · rw [if_neg hskip]
        intro hactive
        have hlive := hopen hactive
        exact ⟨⟨fun hempty => hskip (Or.inl hempty),hlive.1.2⟩,hlive.2⟩
  | enqueue order =>
    cases hfind : w.inflight.find? fun t => t.order == order with
    | none =>
      simp only [Dispatch.step,hfind]
      exact ⟨h,hopen⟩
    | some t =>
      simp only [Dispatch.Fits,hfind] at hfit
      simp only [Dispatch.step,hfind]
      exact ⟨h.enqueue (List.mem_of_find?_eq_some hfind) hfit,hopen⟩
  | take =>
    cases hhand : w.hand with
    | some t =>
      simp only [Dispatch.step,hhand]
      exact ⟨h,hopen⟩
    | none =>
      cases hqueue : w.queue with
      | nil =>
        simp only [Dispatch.step,hhand,hqueue]
        exact ⟨h,hopen⟩
      | cons t rest =>
        simp only [Dispatch.step,hhand,hqueue]
        refine ⟨h.congr rfl le_rfl rfl ?_ rfl,hopen⟩
        simp [line,hhand,hqueue]
  | send =>
    cases hhand : w.hand with
    | none =>
      simp only [Dispatch.step,hhand]
      exact ⟨h,hopen⟩
    | some t =>
      simp only [Dispatch.step,hhand]
      refine ⟨h.congr rfl le_rfl rfl ?_ rfl,hopen⟩
      simp [line,hhand]

/-- A number of rounds of the worker. -/
def rounds : ℕ → List Turn
  | 0 => []
  | n+1 => .take :: .send::rounds n

theorem worker_drains {n : ℕ} (hn : w.hand.toList.length+w.queue.length≤n) :
    (finalState Dispatch.step w (rounds n)).sent=w.line := by
  induction n generalizing w with
  | zero =>
    have hqueue : w.queue=[] := eq_nil_of_length_eq_zero (by omega)
    have hhand : w.hand.toList=[] := eq_nil_of_length_eq_zero (by omega)
    show w.sent = w.sent ++ w.hand.toList ++ w.queue
    rw [hqueue,hhand,append_nil,append_nil]
  | succ n ih =>
    cases hhand : w.hand with
    | some t =>
      have hnext : (w.step .take).step .send = { w with hand := none, sent := w.sent ++ [t] } := by
        simp only [Dispatch.step,hhand]
      rw [rounds,finalState_cons,finalState_cons,hnext,ih]
      · simp [line,hhand]
      · rw [hhand,Option.toList_some,length_singleton] at hn
        show 0+w.queue.length≤n
        omega
    | none =>
      cases hqueue : w.queue with
      | nil =>
        have hnext : (w.step .take).step .send=w := by
          simp only [Dispatch.step,hhand,hqueue]
        rw [rounds,finalState_cons,finalState_cons,hnext]
        refine ih w ?_
        rw [hhand,hqueue]
        exact Nat.zero_le n
      | cons t rest =>
        have hnext : (w.step .take).step .send =
            { w with queue := rest, hand := none, sent := w.sent ++ [t] } := by
          simp only [Dispatch.step,hhand,hqueue]
        rw [rounds,finalState_cons,finalState_cons,hnext,ih]
        · simp [line,hhand,hqueue]
        · rw [hhand,hqueue,Option.toList_none,length_nil,length_cons] at hn
          show 0+rest.length≤n
          omega

/-- For each session the reports handed over are accepted ones in their order, nothing of it
follows its end, and the end of a session that was ended is under way or handed over exactly
once; once the callers have left the queue to the worker, it is handed over. -/
structure Dispatch.Lawful (w : Dispatch) : Prop where
  /-- The reports of a session are handed over in the order they were accepted. -/
  inOrder : ∀ k, (w.sent.filter fun t => t.session == k).Sublist
    (w.accepted.filter fun t => t.session == k)
  /-- Nothing of a session follows its end. -/
  endsLast : ∀ before t after, w.sent = before ++ t::after → t.stopped=true →
    ∀ y∈after, y.session≠t.session
  /-- The end of an ended session is handed over at most once, and not lost. -/
  endsOnce : ∀ k, w.ended k=true →
    w.sent.countP (Accepted.ends k)≤1 ∧
      (w.line ++ w.inflight).countP (Accepted.ends k)=1
  /-- Without callers before the queue, the worker hands it over. -/
  endsSent : w.inflight=[] → ∀ k, w.ended k=true →
    ∃ n, ∀ m, n ≤ m →
      (finalState Dispatch.step w (rounds m)).sent.countP (Accepted.ends k)=1

theorem Dispatch.sent_sublist : w.sent.Sublist w.line := by
  unfold line
  rw [append_assoc]
  exact sublist_append_left _ _

theorem Tracked.lawful {w : Dispatch} (h : Tracked w) : w.Lawful where
  inOrder := by
    intro k
    have hmembers : ∀ t∈w.sent, t∈w.accepted :=
      fun t ht => h.members t (mem_append_left _ (w.sent_sublist.subset ht))
    have hsent : (w.sent.filter fun t => t.session == k).Pairwise
        fun x y => x.order<y.order := by
      have hpair := (h.inLine.sublist w.sent_sublist).sublist
        (filter_sublist (p := fun t => t.session == k))
      refine hpair.imp_of_mem ?_
      intro x y hx hy hlt
      have hxk := beq_iff_eq.mp (mem_filter.mp hx).2
      have hyk := beq_iff_eq.mp (mem_filter.mp hy).2
      exact hlt (hxk.trans hyk.symm)
    have haccepted : (w.accepted.filter fun t => t.session == k).Pairwise
        fun x y => x.order<y.order := h.increasing.sublist filter_sublist
    have hnodup : (w.sent.filter fun t => t.session == k).Nodup := by
      refine hsent.imp ?_
      rintro x y hlt rfl
      exact absurd hlt (lt_irrefl _)
    have hsub : (w.sent.filter fun t => t.session == k).Subperm
        (w.accepted.filter fun t => t.session == k) := by
      refine subperm_of_subset hnodup ?_
      intro t ht
      have hparts := mem_filter.mp ht
      exact mem_filter.mpr ⟨hmembers t hparts.1,hparts.2⟩
    exact sublist_of_subperm_of_pairwise hsub hsent haccepted
  endsLast := by
    intro before t after hsent hstop y hy hsame
    have hpair := h.inLine.sublist w.sent_sublist
    rw [hsent,pairwise_append,pairwise_cons] at hpair
    have hlater := hpair.2.1.1 y hy hsame.symm
    have hmember : ∀ x∈w.sent, x∈w.accepted :=
      fun x hx => h.members x (mem_append_left _ (w.sent_sublist.subset hx))
    have ht := hmember t (hsent ▸ mem_append_right _ mem_cons_self)
    have hy' := hmember y (hsent ▸ mem_append_right _ (mem_cons_of_mem t hy))
    have hbefore := h.last t ht hstop y hy' hsame
    omega
  endsOnce := by
    intro k hk
    have hcount := h.once k
    rw [hk] at hcount
    have hone : (w.line ++ w.inflight).countP (ends k)=1 := hcount
    constructor
    · rw [← hone]
      exact (w.sent_sublist.trans (sublist_append_left _ _)).countP_le
    · exact hone
  endsSent := by
    intro hidle k hk
    have hcount := h.once k
    rw [hk,hidle,append_nil] at hcount
    refine ⟨w.hand.toList.length+w.queue.length,?_⟩
    intro m hm
    rw [worker_drains w hm]
    exact hcount

/-- Before the first report nothing is queued. -/
theorem Tracked.start : Tracked Dispatch.start where
  increasing := List.Pairwise.nil
  below := fun _ ht => absurd ht not_mem_nil
  members := fun _ ht => absurd ht not_mem_nil
  inLine := List.Pairwise.nil
  last := fun _ hx => absurd hx not_mem_nil
  future := fun _ _ => rfl
  once := fun _ => rfl

/-- A session with a server, a token and a title. -/
def exampleSession : PmsTimelineSession :=
  { PmsTimelineSession.blank with baseUrl := "10.0.0.2", token := "t", ratingKey := "7" }

/-- A report of playing is decided before the session ends and enters the queue after its end
was handed over. -/
def overtaken : List Turn :=
  [.beginSession exampleSession 0 60000,.enqueue 0,.take,.send,
    .reportState "playing" 1000 60000 5000,.endSession 2000 60000,.enqueue 2,.take,.send,
    .enqueue 1,.take,.send]

/-- Five sessions begin and end while the worker is slow. -/
def crowded : List Turn :=
  (List.range 5).flatMap fun i =>
    [.beginSession exampleSession 0 60000,.enqueue (2*i),.endSession 2000 60000,
      .enqueue (2*i+1)]

/-- In every run whose reports enter the queue in order, without evicting the end of a session
and without reporting an end while the session goes on, the reports are handed over as they
should be in every state. -/
theorem reports_handed_over {as : List Turn}
    (h : Along Dispatch.step Dispatch.Fits Dispatch.start as) :
    Throughout Dispatch.step Dispatch.Lawful Dispatch.start as := by
  have hstart : Tracked start ∧ start.Open :=
    ⟨Tracked.start,fun hactive => absurd hactive Bool.false_ne_true⟩
  have hall := h.throughout (P := fun w => Tracked w ∧ w.Open)
    (fun _ _ hw hfit => hw.1.step hw.2 hfit) hstart
  exact hall.mono fun _ hw => hw.1.lawful

/-- A session that is played and ended, with its reports in order. -/
theorem reports_handed_over_plain :
    Throughout Dispatch.step Dispatch.Lawful Dispatch.start
      [.beginSession exampleSession 0 60000,.enqueue 0,.endSession 2000 60000,.enqueue 1,
        .take,.send,.take,.send] :=
  reports_handed_over (by decide +kernel)

/-- An overtaken report is handed over after the end of its session, and the end of a session
is lost when the queue is full of ends. -/
theorem report_after_end :
    ¬Throughout Dispatch.step Dispatch.Lawful Dispatch.start overtaken ∧
      ¬Throughout Dispatch.step Dispatch.Lawful Dispatch.start crowded := by
  constructor
  · intro h
    have hafter := h.last.endsLast
      ((finalState Dispatch.step start overtaken).sent.take 1)
      ((finalState Dispatch.step start overtaken).sent.get ⟨1,by decide +kernel⟩)
      ((finalState Dispatch.step start overtaken).sent.drop 2)
      (by decide +kernel) (by decide +kernel)
    exact absurd hafter (by decide +kernel)
  · intro h
    have honce := (h.last.endsOnce 1 (by decide +kernel)).2
    exact absurd honce (by decide +kernel)

end Misterplex.Plex
