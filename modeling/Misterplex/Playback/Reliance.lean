import Misterplex.Playback.Daemon
import Misterplex.Companion.Stopped

/-!
# The last command decides what plays

A stop silences everything that was started before it until the next cast, and
nothing that was started before a cast supersedes it. A step is timely when a
thread that goes on after a newer command has not copied what that command ended.

While a stop is handled and after it no session is live, and once the stop has stopped
the player nothing can start it before the next cast. A thread in the handoff has the
newest generation and was started after the last command. What a step of one thread may
do to the shared state keeps all of this for the others.
-/

namespace Misterplex.Playback

open Misterplex.Companion Misterplex.Trace

/-- The thread is to start the player. -/
def Pc.callsPlay : Pc → Bool
  | .inside (.starting _) _ _ _ => true
  | .seekPlay _ _ _ _ => true
  | _ => false

/-- The thread holds an address that it copied from the player. -/
def Pc.holdsUrl : Pc → Bool
  | .seekCopied _ _ _ _ => true
  | .seekReport _ _ _ _ => true
  | .seekPlay _ _ _ _ => true
  | _ => false

/-- The play request that the thread is about to check. -/
def Pc.checks : Pc → Option (PlayRequest × ℕ)
  | .entered req gen => some (req,gen)
  | .resolving req gen => some (req,gen)
  | .resolved req gen _ => some (req,gen)
  | .inside .checkBind req gen _ => some (req,gen)
  | .inside .binding req gen _ => some (req,gen)
  | .inside (.checkSeed _) req gen _ => some (req,gen)
  | .inside (.checkPlay _) req gen _ => some (req,gen)
  | .inside (.committing _) req gen _ => some (req,gen)
  | _ => none

/-- The last command that was handled is a stop. -/
def Ledger.Stopped (ledger : Ledger) : Prop := ledger.castNo<ledger.stopNo

instance (ledger : Ledger) : Decidable ledger.Stopped := inferInstanceAs (Decidable (_ < _))

/-- What plays is the session of no later event. -/
def Ledger.PlaysBefore (ledger : Ledger) (born : ℕ) : Prop := ∀ b∈ledger.sounding, b≤born

instance (ledger : Ledger) (born : ℕ) : Decidable (ledger.PlaysBefore born) :=
  match h : ledger.sounding with
  | none => isTrue (fun b hb => absurd (h ▸ hb) (by simp))
  | some b =>
    decidable_of_iff (b≤born) (by simp [Ledger.PlaysBefore,h])

/-- The last command decides what plays. -/
structure World.Obeys (w : World) : Prop where
  /-- Nothing that was started before a stop plays after it, until the next cast. -/
  stopped : ∀ t∈w.threads, t.pc.callsPlay=true → w.shared.ledger.Stopped →
    w.shared.ledger.stopNo≤t.born
  /-- Nothing that was started before a cast plays over the session of the cast. -/
  kept : ∀ t∈w.threads, t.pc.callsPlay=true → w.shared.ledger.PlaysBefore t.born
  /-- The play request of the last cast fails no check on account of a generation that was
  taken, or a title that was staged, by something started before the cast. -/
  served : ∀ t∈w.threads, t.task = .cast → t.born=w.shared.ledger.castNo →
    ∀ req gen, t.pc.checks=some (req,gen) →
      (gen≠w.shared.playGen → w.shared.ledger.castNo≤w.shared.ledger.taker) ∧
        (w.shared.companion.acceptsPlayRequest req=false →
          w.shared.ledger.castNo≤w.shared.ledger.stager)

/-- The thread goes on in time: a queue step stages its item before the next command, a play
request takes its generation before the next cast, no address is copied from the session of a
later event or held while one starts, and no pause or resume of the remote control is reported
after a stop for which the hold for the resume dialog was dropped. -/
def Thread.Timely (w : World) (t : Thread) : Prop :=
  match t.pc with
  | .queueStage _ _ => t.born=w.shared.ledger.received
  | .begin req => req.dispatchGeneration=0 → w.shared.ledger.castNo≤t.born
  | .seekUrl _ => w.shared.player.currentUrl ≠ "" → w.shared.ledger.PlaysBefore t.born
  | .remoteReport _ => w.shared.ledger.Stopped → w.shared.companion.prePlayHold=true
  | .inside (.starting _) _ _ _ => ∀ u∈w.threads, u.pc.holdsUrl=true → t.born≤u.born
  | _ => True

instance (w : World) (t : Thread) : Decidable (t.Timely w) := by
  unfold Thread.Timely
  split <;> infer_instance

/-- The step is timely: threads go on in time, and none holds an address copied from the player
when a stop stops it. -/
def World.Timely (w : World) : Action → Prop
  | .thread i _ => ∀ t∈w.threads[i]?, t.Timely w
  | .http _ =>
    w.shared.http = .stopCallback → w.shared.playHandoffMu=none →
      ∀ u∈w.threads, u.pc.holdsUrl=false
  | _ => True

instance (w : World) (a : Action) : Decidable (w.Timely a) := by
  unfold World.Timely
  split <;> infer_instance

/-- The generation that a request was given when it was queued. -/
def given (req : PlayRequest) : Option ℕ :=
  if req.dispatchGeneration = 0 then none else some req.dispatchGeneration

/-- The generation that a thread carries. -/
def Pc.gen : Pc → Option ℕ
  | .queueStage n _ => given n
  | .queuePlant n _ => given n
  | .castPlant req => given req
  | .begin req => given req
  | .entered _ gen => some gen
  | .resolving _ gen => some gen
  | .resolved _ gen _ => some gen
  | .inside _ _ gen _ => some gen
  | _ => none

/-- The thread holds the mutex of the handoff. -/
def Pc.within : Pc → Bool
  | .inside _ _ _ _ => true
  | _ => false

/-- The thread is a queue step that has not yet staged its item. -/
def Pc.queueing : Pc → Bool
  | .queueCopy _ => true
  | .queueFetch _ _ _ => true
  | .queueStage _ _ => true
  | _ => false

/-- The part of the thread of the requests that handles casts and stops. -/
def Http.command : Http → Http
  | .queued pr => .queued pr
  | .planted pr => .planted pr
  | .stopCallback => .stopCallback
  | .stopSession => .stopSession
  | _ => .idle

/-- A handler is to act on a live session. -/
def Http.active : Http → Bool
  | .reporting _ _ _ active => active
  | .pauseCallback _ => true
  | .pauseReport _ => true
  | .seeking _ _ active _ => active
  | .seekCallback _ => true
  | .skippingNext active => active
  | .skippingPrevious _ _ active => active
  | .plantingStart _ _ => true
  | _ => false

/-- The cast that is being handled. -/
def Http.cast : Http → Option PlayRequest
  | .queued pr => some pr
  | .planted pr => some pr
  | _ => none

/-- A stop is being handled. -/
def Http.stopping (h : Http) : Prop := h = .stopCallback ∨ h = .stopSession

/-- A stop is being handled or was the last command. -/
def Shared.Idled (s : Shared) : Prop := s.http.stopping ∨ s.ledger.Stopped

/-- A stop has stopped the player, and no cast has come since. -/
def Shared.Silenced (s : Shared) : Prop := s.http = .stopSession ∨ s.ledger.Stopped

/-- The player has no session. -/
structure Player.Silent (p : Player) : Prop where
  /-- No URL to restart from. -/
  currentUrl : p.currentUrl = ""
  /-- Nothing plays. -/
  playing : p.playing=false
  /-- No media is open. -/
  media : p.media = .none

/-- The event of the end of the title that the media thread is to report. -/
def Media.born : Media → Option ℕ
  | .ended born _ _ => some born
  | .advancing born _ _ => some born
  | _ => Option.none

theorem Player.play_media_born (p : Player) (url headers : String) (d : ℤ) (present : Bool) :
    (p.play url headers d present).2.media.born=none := by
  cases present <;> rfl

/-- The player gets no session, and the end of its title none but a recent event. -/
structure Player.Kept (handled : ℕ) (p p' : Player) : Prop where
  /-- Without a session it stays so. -/
  silent : p.Silent → p'.Silent
  /-- The end of the title came between handled commands. -/
  media : ∀ b∈p'.media.born, b∈p.media.born ∨ b≤handled

theorem Player.Kept.refl (handled : ℕ) (p : Player) : Player.Kept handled p p :=
  ⟨id,fun _ hb => Or.inl hb⟩

/-- What holds of the shared state between two steps. -/
structure Shared.Sound (s : Shared) : Prop where
  /-- A received command that was not handled is the stop that is being handled. -/
  counted : s.http.stopping ∧ s.ledger.received=s.ledger.handled+1 ∨
    ¬s.http.stopping ∧ s.ledger.received=s.ledger.handled
  /-- The last cast is not newer than the last command handled. -/
  cast_le : s.ledger.castNo ≤ s.ledger.handled
  /-- Nor is the last stop. -/
  stop_le : s.ledger.stopNo ≤ s.ledger.handled
  /-- The last command handled was one of them. -/
  newest : s.ledger.handled ≤ s.ledger.castNo ∨ s.ledger.handled ≤ s.ledger.stopNo
  /-- The newest generation was taken by no event before the last cast. -/
  taker : s.ledger.castNo ≤ s.ledger.taker
  /-- The pending title was staged by no event before the last cast, once that is staged. -/
  stager : s.ledger.castNo ≤ s.ledger.stager ∨ ∃ pr, s.http = .queued pr
  /-- The session of the player was started by an event between handled commands. -/
  sounding : s.ledger.PlaysBefore s.ledger.handled
  /-- No session is live during and after a stop. -/
  idled : s.Idled → s.companion.wantPlay=false
  /-- The hold for the resume dialog lasts while a stop is handled. -/
  held : s.http.stopping → s.companion.prePlayHold=true
  /-- A stop is served of a bound cast. -/
  named : s.http = .routed .stop → s.companion.castBound=true
  /-- After a stop no handler acts on a live session. -/
  inactive : s.ledger.Stopped → s.http.active=false
  /-- A cast that is being handled is the last command and has the generation it was given. -/
  announced : ∀ pr, s.http.cast=some pr →
    s.ledger.castNo=s.ledger.handled ∧
      ∀ g, given pr=some g →
        g ≤ s.playGen ∧ (g=s.playGen → s.ledger.castNo=s.ledger.taker)
  /-- The player has no session once a stop has stopped it. -/
  silenced : s.Silenced → s.player.Silent
  /-- The end of the title of the player came between handled commands. -/
  media : ∀ b∈s.player.media.born, b ≤ s.ledger.handled

/-- What holds of a thread between two steps. -/
structure Thread.Sound (s : Shared) (i : ℕ) (t : Thread) : Prop where
  /-- Its event came between handled commands. -/
  born_le : t.born ≤ s.ledger.handled
  /-- Its generation is an older one or the newest, which its event then took. -/
  generation : ∀ g, t.pc.gen=some g →
    g ≤ s.playGen ∧ (g=s.playGen → t.born=s.ledger.taker)
  /-- In the handoff it has the newest generation, its event came after the last command, and
  no stop has stopped the player. -/
  handoff : t.pc.within=true →
    s.playHandoffMu=some i ∧ t.pc.gen=some s.playGen ∧ t.born=s.ledger.handled ∧
      ¬s.Silenced
  /-- The address it copied is not that of a session of a later event. -/
  address : t.pc.holdsUrl=true → ¬s.Silenced ∧ s.ledger.PlaysBefore t.born
  /-- A queue step was started before the stop that was the last command. -/
  queueing : t.pc.queueing=true → s.ledger.Stopped → t.born<s.ledger.stopNo
  /-- A cast is no later than the last one, which has a thread only once it is staged. -/
  cast : t.task = .cast →
    t.born ≤ s.ledger.castNo ∧ ∀ pr, s.http = .queued pr → t.born<s.ledger.castNo

/-- What a step other than a command may do to the shared state, with the threads that hold
addresses and the thread that may leave the handoff. -/
structure Shared.Keeps (s : Shared) (threads : List Thread) (who : Option ℕ) (s' : Shared) :
    Prop where
  numbers : s'.ledger.received=s.ledger.received ∧ s'.ledger.handled=s.ledger.handled ∧
    s'.ledger.castNo=s.ledger.castNo ∧ s'.ledger.stopNo=s.ledger.stopNo
  command : s'.http.command=s.http.command
  /-- No handler starts to act on a live session after a stop. -/
  active : s.ledger.Stopped → s.http.active=false → s'.http.active=false
  named : (s.http = .routed .stop → s.companion.castBound=true) →
    s'.http = .routed .stop → s'.companion.castBound=true
  idle : s.Idled → s.companion.wantPlay=false → s'.companion.wantPlay=false
  /-- The hold for the resume dialog lasts. -/
  hold : s.http.stopping → s'.companion.prePlayHold=s.companion.prePlayHold
  silent : s.Silenced → s.player.Silent → s'.player.Silent
  /-- The end of the title of the player came between handled commands. -/
  media : ∀ b∈s'.player.media.born, b∈s.player.media.born ∨ b ≤ s.ledger.handled
  /-- A generation is taken only outside the handoff. -/
  generation : s'.playGen=s.playGen ∧ s'.ledger.taker=s.ledger.taker ∨
    s'.playGen=s.playGen+1 ∧ s.playHandoffMu=none ∧
      s.ledger.castNo ≤ s'.ledger.taker
  /-- The pending title is staged by no event before the last cast. -/
  stager : s'.ledger.stager=s.ledger.stager ∨ s.ledger.castNo ≤ s'.ledger.stager
  /-- The handoff is left by the thread in it alone. -/
  handoff : ∀ j, s.playHandoffMu=some j → some j≠who → s'.playHandoffMu=some j
  /-- A session is started by an event between commands, and while no thread holds an address
  of an earlier event. -/
  sounding : ∀ b∈s'.ledger.sounding, b∈s.ledger.sounding ∨
    b ≤ s.ledger.handled ∧ ∀ u∈threads, u.pc.holdsUrl=true → b≤u.born

variable {s s' : Shared} {threads : List Thread} {who : Option ℕ} {i : ℕ} {t : Thread}

open Http

theorem Http.command_stopCallback {h : Http} : h.command = .stopCallback ↔ h = .stopCallback := by
  cases h <;> simp [command]

theorem Http.command_stopSession {h : Http} : h.command = .stopSession ↔ h = .stopSession := by
  cases h <;> simp [command]

theorem Http.command_queued {h : Http} {pr : PlayRequest} :
    h.command = .queued pr ↔ h = .queued pr := by
  cases h <;> simp [command]

theorem Http.command_cast (h : Http) : h.command.cast=h.cast := by
  cases h <;> rfl

namespace Shared.Keeps

theorem stopping_iff (h : s.Keeps threads who s') : s'.http.stopping ↔ s.http.stopping := by
  unfold stopping
  rw [← command_stopCallback,← command_stopSession,h.command,
    command_stopCallback,command_stopSession]

theorem stopped_iff (h : s.Keeps threads who s') : s'.ledger.Stopped ↔ s.ledger.Stopped := by
  unfold Ledger.Stopped
  rw [h.numbers.2.2.1,h.numbers.2.2.2]

theorem idled_iff (h : s.Keeps threads who s') : s'.Idled ↔ s.Idled := by
  unfold Shared.Idled
  rw [h.stopping_iff,h.stopped_iff]

theorem silenced_iff (h : s.Keeps threads who s') : s'.Silenced ↔ s.Silenced := by
  unfold Shared.Silenced
  rw [← command_stopSession,h.command,command_stopSession,h.stopped_iff]

theorem queued_iff (h : s.Keeps threads who s') (pr : PlayRequest) :
    s'.http = .queued pr ↔ s.http = .queued pr := by
  rw [← command_queued,h.command,command_queued]

/-- A generation that was the newest or older stays so, and the newest keeps its taker. -/
theorem older (h : s.Keeps threads who s') {g taker : ℕ}
    (hg : g ≤ s.playGen ∧ (g=s.playGen → taker=s.ledger.taker)) :
    g ≤ s'.playGen ∧ (g=s'.playGen → taker=s'.ledger.taker) := by
  rcases h.generation with ⟨hgen,htaker⟩ | ⟨hgen,_,_⟩
  · rw [hgen,htaker]
    exact hg
  · rw [hgen]
    constructor
    · exact Nat.le_succ_of_le hg.1
    · omega

theorem playsBefore (h : s.Keeps threads who s') (ht : t∈threads)
    (hurl : t.pc.holdsUrl=true) (hbefore : s.ledger.PlaysBefore t.born) :
    s'.ledger.PlaysBefore t.born := by
  intro b hb
  rcases h.sounding b hb with hold | ⟨_,hnew⟩
  · exact hbefore b hold
  · exact hnew t ht hurl

/-- What is kept is enough for soundness. -/
theorem sound (h : s.Keeps threads who s') (hs : s.Sound) : s'.Sound := by
  obtain ⟨hreceived,hhandled,hcast,hstop⟩ := h.numbers
  constructor
  · rw [h.stopping_iff,hreceived,hhandled]
    exact hs.counted
  · rw [hcast,hhandled]
    exact hs.cast_le
  · rw [hstop,hhandled]
    exact hs.stop_le
  · rw [hcast,hstop,hhandled]
    exact hs.newest
  · rw [hcast]
    rcases h.generation with ⟨_,htaker⟩ | ⟨_,_,htaker⟩
    · rw [htaker]
      exact hs.taker
    · exact htaker
  · rw [hcast]
    rcases hs.stager with hstager | ⟨pr,hqueued⟩
    · left
      rcases h.stager with hsame | hnew
      · rw [hsame]
        exact hstager
      · exact hnew
    · exact Or.inr ⟨pr,(h.queued_iff pr).mpr hqueued⟩
  · intro b hb
    rw [hhandled]
    rcases h.sounding b hb with hold | ⟨hnew,_⟩
    · exact hs.sounding b hold
    · exact hnew
  · intro hidled
    have hidle := h.idled_iff.mp hidled
    exact h.idle hidle (hs.idled hidle)
  · intro hstopping
    have hbefore := h.stopping_iff.mp hstopping
    rw [h.hold hbefore]
    exact hs.held hbefore
  · exact h.named hs.named
  · intro hstopped
    have hbefore := h.stopped_iff.mp hstopped
    exact h.active hbefore (hs.inactive hbefore)
  · intro pr hpr
    rw [← command_cast,h.command,command_cast] at hpr
    obtain ⟨hnewest,hgiven⟩ := hs.announced pr hpr
    rw [hcast,hhandled]
    exact ⟨hnewest,fun g hg => h.older (hgiven g hg)⟩
  · intro hsilenced
    have hbefore := h.silenced_iff.mp hsilenced
    exact h.silent hbefore (hs.silenced hbefore)
  · intro b hb
    rw [hhandled]
    rcases h.media b hb with hold | hnew
    · exact hs.media b hold
    · exact hnew

theorem others (h : s.Keeps threads who s') (ht : t∈threads) (hwho : some i≠who)
    (hthread : t.Sound s i) : t.Sound s' i := by
  obtain ⟨_,hhandled,hcast,hstop⟩ := h.numbers
  constructor
  · rw [hhandled]
    exact hthread.born_le
  · exact fun g hg => h.older (hthread.generation g hg)
  · intro hwithin
    obtain ⟨hmu,hgen,hborn,hloud⟩ := hthread.handoff hwithin
    have hsame : s'.playGen=s.playGen := by
      rcases h.generation with ⟨hsame,_⟩ | ⟨_,hnone,_⟩
      · exact hsame
      · rw [hmu] at hnone
        exact absurd hnone (by simp)
    rw [hsame,hhandled,h.silenced_iff]
    exact ⟨h.handoff i hmu hwho,hgen,hborn,hloud⟩
  · intro hurl
    obtain ⟨hloud,hbefore⟩ := hthread.address hurl
    rw [h.silenced_iff]
    exact ⟨hloud,h.playsBefore ht hurl hbefore⟩
  · intro hqueueing hstopped
    rw [hstop]
    exact hthread.queueing hqueueing (h.stopped_iff.mp hstopped)
  · intro htask
    rw [hcast]
    exact ⟨(hthread.cast htask).1,
      fun pr hqueued => (hthread.cast htask).2 pr ((h.queued_iff pr).mp hqueued)⟩

end Shared.Keeps

/-- One place asks for no more than another. -/
structure Pc.Below (pc' pc : Pc) : Prop where
  /-- It carries the same generation or none. -/
  gen : pc'.gen=none ∨ pc'.gen=pc.gen
  /-- It is in the handoff only where the other is. -/
  within : pc'.within=true → pc.within=true
  /-- It holds an address only where the other does. -/
  holdsUrl : pc'.holdsUrl=true → pc.holdsUrl=true
  /-- It is a queue step without item only where the other is. -/
  queueing : pc'.queueing=true → pc.queueing=true

/-- A thread that goes on to a place that asks for no more keeps what holds of it, as long as
it stays in the handoff. -/
theorem Shared.Keeps.self (h : s.Keeps threads (some i) s') (ht : t∈threads)
    (hthread : t.Sound s i) {pc : Pc} (hbelow : pc.Below t.pc)
    (hmu : pc.within=true → s'.playHandoffMu=s.playHandoffMu) :
    Thread.Sound s' i { t with pc := pc } := by
  obtain ⟨_,hhandled,hcast,hstop⟩ := h.numbers
  constructor
  · rw [hhandled]
    exact hthread.born_le
  · intro g hg
    rcases hbelow.gen with hnone | hsame
    · rw [hnone] at hg
      exact absurd hg (by simp)
    · rw [hsame] at hg
      exact h.older (hthread.generation g hg)
  · intro hwithin
    obtain ⟨hheld,hgen,hborn,hloud⟩ := hthread.handoff (hbelow.within hwithin)
    have hsame : s'.playGen=s.playGen := by
      rcases h.generation with ⟨hsame,_⟩ | ⟨_,hnone,_⟩
      · exact hsame
      · rw [hheld] at hnone
        exact absurd hnone (by simp)
    have hcarry : pc.gen=some s.playGen := by
      rcases hbelow.gen with hnone | hpc
      · cases pc with
        | inside c req gen res => exact absurd hnone (by simp [Pc.gen])
        | _ => exact absurd hwithin (by simp [Pc.within])
      · rw [hpc,hgen]
    rw [hsame,hhandled,h.silenced_iff,hmu hwithin]
    exact ⟨hheld,hcarry,hborn,hloud⟩
  · intro hurl
    obtain ⟨hloud,hbefore⟩ := hthread.address (hbelow.holdsUrl hurl)
    have hkeep : s'.ledger.PlaysBefore t.born :=
      h.playsBefore ht (hbelow.holdsUrl hurl) hbefore
    rw [h.silenced_iff]
    exact ⟨hloud,hkeep⟩
  · intro hqueueing hstopped
    rw [hstop]
    exact hthread.queueing (hbelow.queueing hqueueing) (h.stopped_iff.mp hstopped)
  · intro htask
    rw [hcast]
    exact ⟨(hthread.cast htask).1,
      fun pr hqueued => (hthread.cast htask).2 pr ((h.queued_iff pr).mp hqueued)⟩

/-- A thread that carries nothing is sound when its event came between handled commands. -/
theorem Thread.Sound.fresh (hborn : t.born ≤ s.ledger.handled) (hgen : t.pc.gen=none)
    (hwithin : t.pc.within=false) (hurl : t.pc.holdsUrl=false)
    (hqueueing : t.pc.queueing=true → s.ledger.Stopped → t.born<s.ledger.stopNo)
    (htask : t.task ≠ .cast) (i : ℕ) : t.Sound s i := by
  constructor
  · exact hborn
  · intro g hg
    rw [hgen] at hg
    exact absurd hg (by simp)
  · intro hin
    rw [hwithin] at hin
    exact absurd hin (by simp)
  · intro hholds
    rw [hurl] at hholds
    exact absurd hholds (by simp)
  · exact hqueueing
  · exact fun h => absurd h htask

theorem Thread.Sound.seek {born : ℕ} (hborn : born ≤ s.ledger.handled) (ms : ℤ) (g i : ℕ) :
    Thread.Sound s i ⟨born,.seek,.seekWait ms g⟩ :=
  fresh hborn rfl rfl rfl (fun hqueueing => absurd hqueueing (by simp [Pc.queueing])) (by simp) i

end Misterplex.Playback
