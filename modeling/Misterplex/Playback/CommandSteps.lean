import Misterplex.Playback.ThreadSteps

/-!
# What the commands and the other steps keep

A cast takes the newest generation before its title is staged and before its
thread is started. A stop drops the session of the companion, then takes a
generation and stops the player, and then drops the title of the session. The
other requests, the media thread, the remote control and the OSD keep what the
threads rely on.
-/

namespace Misterplex.Playback

open Misterplex.Companion Misterplex.Trace

variable {s s' : Shared} {threads : List Thread} {w : World} {i : ℕ} {t : Thread}

/-- A step of the thread of the requests that handles neither a cast nor a stop. -/
structure Shared.Handles (s s' : Shared) : Prop where
  /-- The ledger is kept. -/
  ledger : s'.ledger=s.ledger
  /-- The newest generation is the same. -/
  playGen : s'.playGen=s.playGen
  /-- The mutex of the handoff is held as before. -/
  handoff : s'.playHandoffMu=s.playHandoffMu
  /-- The player keeps what was handled. -/
  player : Player.Kept s.ledger.handled s.player s'.player
  /-- No command was being served. -/
  before : s.http.command = .idle
  /-- No command is being served. -/
  after : s'.http.command = .idle
  /-- After a stop no handler acts on a live session. -/
  active : s.ledger.Stopped → s'.http.active=false
  /-- No stop arrives that does not name the player. -/
  named : s'.http = .routed .stop → s'.companion.castBound=true
  /-- No session becomes live after a stop. -/
  idle : s.ledger.Stopped → s'.companion.wantPlay=false

open Http

theorem Shared.Handles.keeps (h : s.Handles s') (threads : List Thread) (who : Option ℕ) :
    s.Keeps threads who s' := by
  have hquiet : ¬s.http.stopping := by
    unfold stopping
    rw [← command_stopCallback,← command_stopSession,h.before]
    simp
  have hstopped : s.Idled → s.ledger.Stopped := fun hidled => hidled.resolve_left hquiet
  constructor
  · rw [h.ledger]
    exact ⟨rfl,rfl,rfl,rfl⟩
  · rw [h.after,h.before]
  · exact fun hstop _ => h.active hstop
  · exact fun _ => h.named
  · exact fun hidled _ => h.idle (hstopped hidled)
  · exact fun hstopping => absurd hstopping hquiet
  · exact fun _ => h.player.silent
  · exact h.player.media
  · exact Or.inl ⟨h.playGen,by rw [h.ledger]⟩
  · exact Or.inl (by rw [h.ledger])
  · intro j hj _
    rw [h.handoff,hj]
  · rw [h.ledger]
    exact fun b hb => Or.inl hb

/-- A step from outside that keeps what the threads rely on, and starts only sound threads. -/
structure Intervention (w : World) (out : Shared × List Thread) : Prop where
  shared : out.1.Sound
  threads : ∀ j u, w.threads[j]?=some u → Thread.Sound w.shared j u → Thread.Sound out.1 j u
  started : ∀ u∈out.2, ∀ j, u.Sound out.1 j

theorem Shared.Keeps.intervention (h : w.shared.Keeps w.threads none s') (hs : w.shared.Sound)
    {new : List Thread} (hnew : ∀ u∈new, ∀ j, u.Sound s' j) : Intervention w (s',new) :=
  ⟨h.sound hs,fun _ _ hu hsound => h.others (List.mem_of_getElem? hu) (by simp) hsound,hnew⟩

theorem Shared.Keeps.alone (h : w.shared.Keeps w.threads none s') (hs : w.shared.Sound) :
    Intervention w (s',[]) :=
  h.intervention hs (fun _ hu => absurd hu List.not_mem_nil)

theorem Thread.Sound.started {born : ℕ} {task : Task} {pc : Pc} (hborn : born ≤ s.ledger.handled)
    (hgen : pc.gen=none) (hwithin : pc.within=false) (hurl : pc.holdsUrl=false)
    (hqueueing : pc.queueing=true → ¬s.ledger.Stopped) (htask : task ≠ .cast) (i : ℕ) :
    Thread.Sound s i ⟨born,task,pc⟩ :=
  fresh hborn hgen hwithin hurl (fun hq hstopped => absurd hstopped (hqueueing hq)) htask i

namespace Shared.Sound

theorem running (hs : s.Sound) (hactive : s.http.active=true) : ¬s.ledger.Stopped := by
  intro hstopped
  rw [hs.inactive hstopped] at hactive
  exact absurd hactive (by decide)

theorem loud (hs : s.Sound) (hmedia : s.player.media ≠ .none) : ¬s.Silenced :=
  fun hsilenced => hmedia (hs.silenced hsilenced).media

theorem serve_handles (hs : s.Sound) {r : Request} (hr : s.http = .routed r)
    (hcast : ∀ pr, r ≠ .playMedia pr) (hstop : r ≠ .stop) : s.Handles (s.serve r) := by
  have hbefore : s.http.command = .idle := by rw [hr]; rfl
  have hidle : s.ledger.Stopped → s.companion.wantPlay=false := fun h => hs.idled (Or.inr h)
  cases r with
  | other =>
    exact ⟨rfl,rfl,rfl,.refl _ _,hbefore,rfl,fun _ => rfl,
      fun h => absurd h (by simp [Shared.serve]),hidle⟩
  | unsubscribe noSubscribers =>
    exact ⟨rfl,rfl,rfl,.refl _ _,hbefore,rfl,fun _ => rfl,
      fun h => absurd h (by simp [Shared.serve]),hidle⟩
  | poll =>
    exact ⟨rfl,rfl,rfl,.refl _ _,hbefore,rfl,fun _ => rfl,
      fun h => absurd h (by simp [Shared.serve]),hidle⟩
  | mirror pr =>
    refine ⟨rfl,rfl,rfl,.refl _ _,hbefore,rfl,fun _ => rfl,
      fun h => absurd h (by simp [Shared.serve]),fun h => ?_⟩
    show (s.companion.mirror pr).wantPlay=false
    unfold State.mirror
    split
    · exact hidle h
    · rfl
  | playMedia pr => exact absurd rfl (hcast pr)
  | pause =>
    exact ⟨rfl,rfl,rfl,.refl _ _,hbefore,rfl,hidle,
      fun h => absurd h (by simp [Shared.serve]),hidle⟩
  | resume =>
    exact ⟨rfl,rfl,rfl,.refl _ _,hbefore,rfl,hidle,
      fun h => absurd h (by simp [Shared.serve]),hidle⟩
  | stop => exact absurd rfl hstop
  | seek present ms =>
    exact ⟨rfl,rfl,rfl,.refl _ _,hbefore,rfl,hidle,
      fun h => absurd h (by simp [Shared.serve]),hidle⟩
  | step back offset =>
    have hsame : s.ledger.Stopped → s.companion.stepBy back offset=s.companion := by
      intro h
      unfold State.stepBy
      rw [if_neg]
      intro hmove
      rw [hidle h] at hmove
      exact absurd hmove.1 (by decide)
    refine ⟨rfl,rfl,rfl,.refl _ _,hbefore,?_,fun h => ?_,fun h => ?_,fun h => ?_⟩
    · dsimp only [Shared.serve]
      split <;> rfl
    · dsimp only [Shared.serve]
      rw [if_neg]
      · rfl
      · intro hmove
        rw [hidle h] at hmove
        exact absurd hmove.1 (by decide)
    · dsimp only [Shared.serve] at h
      split at h <;> exact absurd h (by simp)
    · show (s.companion.stepBy back offset).wantPlay=false
      rw [hsame h]
      exact hidle h
  | skipNext =>
    exact ⟨rfl,rfl,rfl,.refl _ _,hbefore,rfl,hidle,
      fun h => absurd h (by simp [Shared.serve]),hidle⟩
  | skipPrevious =>
    exact ⟨rfl,rfl,rfl,.refl _ _,hbefore,rfl,hidle,
      fun h => absurd h (by simp [Shared.serve]),hidle⟩

theorem received_eq (hs : s.Sound) (hquiet : ¬s.http.stopping) :
    s.ledger.received=s.ledger.handled := by
  rcases hs.counted with ⟨hstopping,_⟩ | ⟨_,heq⟩
  · exact absurd hstopping hquiet
  · exact heq

theorem received_succ (hs : s.Sound) (hstopping : s.http.stopping) :
    s.ledger.received=s.ledger.handled+1 := by
  rcases hs.counted with ⟨_,heq⟩ | ⟨hquiet,_⟩
  · exact heq
  · exact absurd hstopping hquiet

theorem casting (hs : s.Sound) {pr : PlayRequest} (hpr : s.http.cast=some pr) :
    ¬s.ledger.Stopped := by
  intro hstopped
  have hnewest := (hs.announced pr hpr).1
  have hle := hs.stop_le
  unfold Ledger.Stopped at hstopped
  omega

end Shared.Sound

theorem World.Sound.cast (h : World.Sound w) {pr : PlayRequest}
    (hhttp : w.shared.http = .routed (.playMedia pr)) (hfree : w.shared.playHandoffMu=none) :
    Intervention w (w.shared.serve (.playMedia pr),[]) := by
  have hs := h.shared
  have hquiet : ¬w.shared.http.stopping := by
    rw [hhttp]
    simp [stopping]
  have hreceived := hs.received_eq hquiet
  have hstop := hs.stop_le
  have hserve : w.shared.serve (.playMedia pr) =
      { w.shared with
        playGen := w.shared.playGen+1,
        http :=
          .queued { pr with
            key := orElse pr.key "(no-key)", dispatchGeneration := w.shared.playGen+1 },
        ledger :=
          { w.shared.ledger with
            received := w.shared.ledger.received+1, handled := w.shared.ledger.received+1,
            castNo := w.shared.ledger.received+1, taker := w.shared.ledger.received+1 } } := by
    rw [Shared.serve,if_neg (fun hne => hne hfree)]
  rw [hserve]
  have hrun : ¬w.shared.ledger.received+1<w.shared.ledger.stopNo := by omega
  constructor
  · constructor
    · exact Or.inr ⟨by simp [stopping],rfl⟩
    · exact le_rfl
    · show w.shared.ledger.stopNo≤w.shared.ledger.received+1
      omega
    · exact Or.inl le_rfl
    · exact le_rfl
    · exact Or.inr ⟨_,rfl⟩
    · intro b hb
      have hle := hs.sounding b hb
      show b ≤ w.shared.ledger.received+1
      omega
    · rintro (hstopping | hstopped)
      · exact absurd hstopping (by simp [stopping])
      · exact absurd hstopped hrun
    · exact fun hstopping => absurd hstopping (by simp [stopping])
    · exact fun hnamed => absurd hnamed (by simp)
    · exact fun hstopped => absurd hstopped hrun
    · intro pr' hpr'
      constructor
      · rfl
      · intro g hg
        rw [← Option.some.inj hpr'] at hg
        have heq : w.shared.playGen+1=g := Option.some.inj hg
        exact ⟨heq.ge,fun _ => rfl⟩
    · rintro (hsession | hstopped)
      · exact absurd hsession (by simp)
      · exact absurd hstopped hrun
    · intro b hb
      have hle := hs.media b hb
      show b≤w.shared.ledger.received+1
      omega
  · intro j u hu hsound
    have hborn := hsound.born_le
    constructor
    · show u.born≤w.shared.ledger.received+1
      omega
    · intro g hg
      have hle := (hsound.generation g hg).1
      exact ⟨Nat.le_succ_of_le hle,fun heq => absurd heq (Nat.ne_of_lt (Nat.lt_succ_of_le hle))⟩
    · intro hwithin
      have hheld := (hsound.handoff hwithin).1
      rw [hfree] at hheld
      exact absurd hheld (by simp)
    · intro hurl
      refine ⟨?_,(hsound.address hurl).2⟩
      rintro (hsession | hstopped)
      · exact absurd hsession (by simp)
      · exact hrun hstopped
    · exact fun _ hstopped => absurd hstopped hrun
    · intro _
      constructor
      · show u.born ≤ w.shared.ledger.received+1
        omega
      · intro _ _
        show u.born < w.shared.ledger.received+1
        omega
  · exact fun u hu => absurd hu List.not_mem_nil

theorem World.Sound.plant (h : World.Sound w) {pr : PlayRequest}
    (hhttp : w.shared.http = .queued pr) (x : Input) :
    Intervention w (w.shared.handle x) := by
  have hs := h.shared
  have hpr : w.shared.http.cast=some pr := by rw [hhttp]; rfl
  have hrun := hs.casting hpr
  have hquiet : ¬w.shared.http.stopping := by
    rw [hhttp]
    simp [stopping]
  rw [Shared.handle,hhttp]
  constructor
  · constructor
    · exact Or.inr ⟨by simp [stopping],hs.received_eq hquiet⟩
    · exact hs.cast_le
    · exact hs.stop_le
    · exact hs.newest
    · exact hs.taker
    · exact Or.inl le_rfl
    · exact hs.sounding
    · rintro (hstopping | hstopped)
      · exact absurd hstopping (by simp [stopping])
      · exact absurd hstopped hrun
    · exact fun hstopping => absurd hstopping (by simp [stopping])
    · exact fun hnamed => absurd hnamed (by simp)
    · exact fun hstopped => absurd hstopped hrun
    · intro pr' hpr'
      rw [← Option.some.inj hpr']
      exact hs.announced pr hpr
    · rintro (hsession | hstopped)
      · exact absurd hsession (by simp)
      · exact absurd hstopped hrun
    · exact hs.media
  · intro j u hu hsound
    have hstill : ∀ s' : Shared, s'.http = .planted { pr with containerKey := pr.queueContainer } →
        s'.ledger.castNo=w.shared.ledger.castNo → s'.ledger.stopNo=w.shared.ledger.stopNo →
        ¬s'.Silenced := by
      intro s' hplanted hcast hstop
      rintro (hsession | hstopped)
      · rw [hplanted] at hsession
        exact absurd hsession (by simp)
      · unfold Ledger.Stopped at hstopped
        rw [hcast,hstop] at hstopped
        exact hrun hstopped
    constructor
    · exact hsound.born_le
    · exact hsound.generation
    · intro hwithin
      obtain ⟨hheld,hgen,hborn,_⟩ := hsound.handoff hwithin
      exact ⟨hheld,hgen,hborn,hstill _ rfl rfl rfl⟩
    · exact fun hurl => ⟨hstill _ rfl rfl rfl,(hsound.address hurl).2⟩
    · exact hsound.queueing
    · exact fun htask => ⟨(hsound.cast htask).1,fun _ hqueued => absurd hqueued (by simp)⟩
  · exact fun u hu => absurd hu List.not_mem_nil

theorem World.Sound.dispatch (h : World.Sound w) {pr : PlayRequest}
    (hhttp : w.shared.http = .planted pr) (x : Input) :
    Intervention w (w.shared.handle x) := by
  have hs := h.shared
  have hpr : w.shared.http.cast=some pr := by rw [hhttp]; rfl
  have hrun := hs.casting hpr
  have hquiet : ¬w.shared.http.stopping := by
    rw [hhttp]
    simp [stopping]
  have hstager : w.shared.ledger.castNo≤w.shared.ledger.stager := by
    rcases hs.stager with hle | ⟨pr',hqueued⟩
    · exact hle
    · rw [hhttp] at hqueued
      exact absurd hqueued (by simp)
  have hstill : ¬Shared.Silenced { w.shared with http := .idle } := by
    rintro (hsession | hstopped)
    · exact absurd hsession (by simp)
    · exact hrun hstopped
  rw [Shared.handle,hhttp]
  constructor
  · constructor
    · exact Or.inr ⟨by simp [stopping],hs.received_eq hquiet⟩
    · exact hs.cast_le
    · exact hs.stop_le
    · exact hs.newest
    · exact hs.taker
    · exact Or.inl hstager
    · exact hs.sounding
    · rintro (hstopping | hstopped)
      · exact absurd hstopping (by simp [stopping])
      · exact absurd hstopped hrun
    · exact fun hstopping => absurd hstopping (by simp [stopping])
    · exact fun hnamed => absurd hnamed (by simp)
    · exact fun _ => rfl
    · exact fun pr' hpr' => absurd hpr' (by simp [Http.cast])
    · exact fun hsilenced => absurd hsilenced hstill
    · exact hs.media
  · intro j u hu hsound
    constructor
    · exact hsound.born_le
    · exact hsound.generation
    · intro hwithin
      obtain ⟨hheld,hgen,hborn,_⟩ := hsound.handoff hwithin
      exact ⟨hheld,hgen,hborn,hstill⟩
    · exact fun hurl => ⟨hstill,(hsound.address hurl).2⟩
    · exact hsound.queueing
    · exact fun htask => ⟨(hsound.cast htask).1,fun _ hqueued => absurd hqueued (by simp)⟩
  · intro u hu j
    rw [List.mem_singleton.mp hu]
    constructor
    · exact hs.cast_le
    · exact (hs.announced pr hpr).2
    · exact fun hwithin => absurd hwithin (by simp [Pc.within])
    · exact fun hurl => absurd hurl (by simp [Pc.holdsUrl])
    · exact fun hqueueing => absurd hqueueing (by simp [Pc.queueing])
    · exact fun _ => ⟨le_rfl,fun _ hqueued => absurd hqueued (by simp)⟩

theorem World.Sound.clear (h : World.Sound w) (hhttp : w.shared.http = .routed .stop) :
    Intervention w (w.shared.serve .stop,[]) := by
  have hs := h.shared
  have hquiet : ¬w.shared.http.stopping := by
    rw [hhttp]
    simp [stopping]
  have hsilenced : (w.shared.serve .stop).Silenced → w.shared.Silenced := by
    rintro (hsession | hstopped)
    · exact absurd hsession (by simp [Shared.serve])
    · exact Or.inr hstopped
  constructor
  · constructor
    · left
      constructor
      · exact Or.inl rfl
      · show w.shared.ledger.received+1 = w.shared.ledger.handled+1
        rw [hs.received_eq hquiet]
    · exact hs.cast_le
    · exact hs.stop_le
    · exact hs.newest
    · exact hs.taker
    · rcases hs.stager with hle | ⟨pr,hqueued⟩
      · exact Or.inl hle
      · rw [hhttp] at hqueued
        exact absurd hqueued (by simp)
    · exact hs.sounding
    · exact fun _ => rfl
    · intro _
      show (w.shared.companion.castBound || w.shared.companion.prePlayHold) = true
      rw [hs.named hhttp,Bool.true_or]
    · exact fun hnamed => absurd hnamed (by simp [Shared.serve])
    · exact fun _ => rfl
    · exact fun pr hpr => absurd hpr (by simp [Shared.serve,Http.cast])
    · exact fun hafter => hs.silenced (hsilenced hafter)
    · exact hs.media
  · intro j u hu hsound
    constructor
    · exact hsound.born_le
    · exact hsound.generation
    · intro hwithin
      obtain ⟨hheld,hgen,hborn,hloud⟩ := hsound.handoff hwithin
      exact ⟨hheld,hgen,hborn,fun hafter => hloud (hsilenced hafter)⟩
    · intro hurl
      obtain ⟨hloud,hbefore⟩ := hsound.address hurl
      exact ⟨fun hafter => hloud (hsilenced hafter),hbefore⟩
    · exact hsound.queueing
    · exact fun htask =>
        ⟨(hsound.cast htask).1,fun _ hqueued => absurd hqueued (by simp [Shared.serve])⟩
  · exact fun u hu => absurd hu List.not_mem_nil

/-- The callback of a stop takes a generation and stops the player, outside the handoff and
while no thread holds an address. -/
theorem World.Sound.silence (h : World.Sound w) (hhttp : w.shared.http = .stopCallback)
    (hfree : w.shared.playHandoffMu=none)
    (haddress : ∀ u∈w.threads, u.pc.holdsUrl=false) (positionMs : ℤ) :
    Intervention w
      ({ (w.shared.takeGeneration w.shared.ledger.received).stopPlayer positionMs with
        http := .stopSession },[]) := by
  have hs := h.shared
  have hstopping : w.shared.http.stopping := Or.inl hhttp
  have hidle : w.shared.companion.wantPlay=false := hs.idled (Or.inl hstopping)
  constructor
  · constructor
    · exact Or.inl ⟨Or.inr rfl,hs.received_succ hstopping⟩
    · exact hs.cast_le
    · exact hs.stop_le
    · exact hs.newest
    · have hle := hs.cast_le
      have heq := hs.received_succ hstopping
      show w.shared.ledger.castNo ≤ w.shared.ledger.received
      omega
    · rcases hs.stager with hle | ⟨pr,hqueued⟩
      · exact Or.inl hle
      · rw [hhttp] at hqueued
        exact absurd hqueued (by simp)
    · exact fun b hb => absurd hb (by simp [Shared.stopPlayer])
    · exact fun _ =>
        (State.setState_idle_iff hidle _ _ _).mpr (fun hrunning => absurd hrunning (by decide))
    · intro _
      exact (State.setState_prePlayHold _ _ _ _).trans (hs.held hstopping)
    · exact fun hnamed => absurd hnamed (by simp)
    · exact fun _ => rfl
    · exact fun pr hpr => absurd hpr (by simp [Http.cast])
    · exact fun _ => ⟨rfl,rfl,rfl⟩
    · exact fun b hb => absurd hb (by simp [Shared.stopPlayer,Player.stop,Media.born])
  · intro j u hu hsound
    constructor
    · exact hsound.born_le
    · intro g hg
      have hle := (hsound.generation g hg).1
      exact ⟨Nat.le_succ_of_le hle,fun heq => absurd heq (Nat.ne_of_lt (Nat.lt_succ_of_le hle))⟩
    · intro hwithin
      have hheld := (hsound.handoff hwithin).1
      rw [hfree] at hheld
      exact absurd hheld (by simp)
    · intro hurl
      rw [haddress u (List.mem_of_getElem? hu)] at hurl
      exact absurd hurl (by decide)
    · exact hsound.queueing
    · exact fun htask => ⟨(hsound.cast htask).1,fun _ hqueued => absurd hqueued (by simp)⟩
  · exact fun u hu => absurd hu List.not_mem_nil

theorem World.Sound.conclude (h : World.Sound w) (hhttp : w.shared.http = .stopSession)
    (x : Input) : Intervention w (w.shared.handle x) := by
  have hs := h.shared
  have hstopping : w.shared.http.stopping := Or.inr hhttp
  have hsilenced : w.shared.Silenced := Or.inl hhttp
  have heq := hs.received_succ hstopping
  rw [Shared.handle,hhttp]
  constructor
  · constructor
    · exact Or.inr ⟨by simp [stopping],rfl⟩
    · have hle := hs.cast_le
      show w.shared.ledger.castNo≤w.shared.ledger.received
      omega
    · exact le_rfl
    · exact Or.inr le_rfl
    · exact hs.taker
    · rcases hs.stager with hle | ⟨pr,hqueued⟩
      · exact Or.inl hle
      · rw [hhttp] at hqueued
        exact absurd hqueued (by simp)
    · intro b hb
      have hle := hs.sounding b hb
      show b ≤ w.shared.ledger.received
      omega
    · exact fun _ => hs.idled (Or.inl hstopping)
    · exact fun hagain => absurd hagain (by simp [stopping])
    · exact fun hnamed => absurd hnamed (by simp)
    · exact fun _ => rfl
    · exact fun pr hpr => absurd hpr (by simp [Http.cast])
    · exact fun _ => hs.silenced hsilenced
    · intro b hb
      have hle := hs.media b hb
      show b≤w.shared.ledger.received
      omega
  · intro j u hu hsound
    have hborn := hsound.born_le
    constructor
    · show u.born ≤ w.shared.ledger.received
      omega
    · exact hsound.generation
    · exact fun hwithin => absurd hsilenced (hsound.handoff hwithin).2.2.2
    · exact fun hurl => absurd hsilenced (hsound.address hurl).1
    · intro _ _
      show u.born < w.shared.ledger.received
      omega
    · exact fun htask => ⟨(hsound.cast htask).1,fun _ hqueued => absurd hqueued (by simp)⟩
  · exact fun u hu => absurd hu List.not_mem_nil

theorem Shared.Spares.handles (h : s.Spares s') (hs : s.Sound) {http : Http}
    (hbefore : s.http.command = .idle) (hafter : http.command = .idle)
    (hactive : s.ledger.Stopped → http.active=false) (hnamed : http ≠ .routed .stop) :
    s.Handles { s' with http := http } :=
  ⟨h.ledger,h.playGen,h.handoff,h.player,hbefore,hafter,hactive,
    fun heq => absurd heq hnamed,
    fun hstopped => (h.idle (Or.inr hstopped) (hs.idled (Or.inr hstopped))).1⟩

theorem Shared.Spares.of_live (hlive : ¬s.Idled) {c : State}
    (hbound : c.castBound=s.companion.castBound) : s.Spares { s with companion := c } :=
  ⟨rfl,rfl,rfl,rfl,.refl _ _,hbound,fun hidled => absurd hidled hlive⟩

/-- A seek starts a sound thread. -/
theorem Shared.seekAsync_sound {born : ℕ} (hborn : born ≤ s.ledger.handled) (ms : ℤ) :
    ∀ u∈(s.seekAsync born ms).2, ∀ j, Thread.Sound (s.seekAsync born ms).1 j u := by
  intro u hu j
  have hlater : born≤(s.seekAsync born ms).1.ledger.handled := hborn
  rw [List.mem_singleton.mp hu]
  exact Thread.Sound.seek hlater ms _ j

/-- A queue step starts a sound thread. -/
theorem Shared.queueStep_sound (hlive : ¬s.ledger.Stopped) {task : Task} (htask : task ≠ .cast)
    (delta : ℤ) : ∀ u∈(s.queueStep task delta).2, ∀ j,
      Thread.Sound (s.queueStep task delta).1 j u := by
  unfold Shared.queueStep
  split
  · exact fun u hu => absurd hu List.not_mem_nil
  · intro u hu j
    rw [List.mem_singleton.mp hu]
    have hstarted : Thread.Sound s j ⟨s.ledger.handled,task,.queueCopy delta⟩ :=
      Thread.Sound.started le_rfl rfl rfl rfl (fun _ => hlive) htask j
    exact { hstarted with }

theorem Shared.Handles.queueStep (h : s.Handles s') (task : Task) (delta : ℤ) :
    s.Handles (s'.queueStep task delta).1 := by
  unfold Shared.queueStep
  split
  · exact h
  · exact { h with }

theorem Shared.Handles.seekAsync (h : s.Handles s') (born : ℕ) (ms : ℤ) :
    s.Handles (s'.seekAsync born ms).1 :=
  { h with }

theorem World.Sound.handle (h : World.Sound w) (x : Input)
    (htimely : w.shared.http = .stopCallback → w.shared.playHandoffMu=none →
      ∀ u∈w.threads, u.pc.holdsUrl=false) : Intervention w (w.shared.handle x) := by
  have hs := h.shared
  have hrefl := Shared.Spares.refl w.shared
  have hnothing : Intervention w (w.shared,[]) := (hrefl.keeps hs _ _).alone hs
  cases hhttp : w.shared.http with
  | idle =>
    rw [Shared.handle,hhttp]
    exact hnothing
  | routed r =>
    rw [Shared.handle,hhttp]
    by_cases hstop : r = .stop
    · rw [hstop] at hhttp ⊢
      exact h.clear hhttp
    · by_cases hcast : ∃ pr, r = .playMedia pr
      · obtain ⟨pr,hpr⟩ := hcast
        rw [hpr] at hhttp ⊢
        by_cases hfree : w.shared.playHandoffMu=none
        · exact h.cast hhttp hfree
        · have hwait : w.shared.serve (.playMedia pr)=w.shared := if_pos hfree
          dsimp only
          rw [hwait]
          exact hnothing
      · have hother : ∀ pr, r ≠ .playMedia pr := fun pr heq => hcast ⟨pr,heq⟩
        exact ((hs.serve_handles hhttp hother hstop).keeps _ _).alone hs
  | queued pr => exact h.plant hhttp x
  | planted pr => exact h.dispatch hhttp x
  | stopCallback =>
    rw [Shared.handle,hhttp]
    dsimp only
    split
    · rename_i hready
      exact h.silence hhttp hready.1 (htimely hhttp hready.1) _
    · exact hnothing
  | stopSession => exact h.conclude hhttp x
  | reporting pause t d active =>
    have hbefore : w.shared.http.command = .idle := by rw [hhttp]; rfl
    rw [Shared.handle,hhttp]
    dsimp only
    split
    · rename_i hactive
      have hrun : ¬w.shared.ledger.Stopped := hs.running (by rw [hhttp]; exact hactive)
      have hreport : w.shared.Spares
          (w.shared.report (if pause then "paused" else "playing") t d) :=
        hs.report_spares (fun hstopped => absurd hstopped hrun) _ _
      exact ((hreport.handles hs hbefore rfl (fun hstopped => absurd hstopped hrun)
        (by simp)).keeps _ _).alone hs
    · exact ((hrefl.handles hs hbefore rfl (fun _ => rfl) (by simp)).keeps _ _).alone hs
  | pauseCallback pause =>
    have hbefore : w.shared.http.command = .idle := by rw [hhttp]; rfl
    have hrun : ¬w.shared.ledger.Stopped := hs.running (by rw [hhttp]; rfl)
    have hplayer : Player.Kept w.shared.ledger.handled w.shared.player
        { w.shared.player with paused := pause } :=
      ⟨fun hsil => ⟨hsil.currentUrl,hsil.playing,hsil.media⟩,fun b hb => Or.inl hb⟩
    have hpause : w.shared.Spares
        { w.shared with player := { w.shared.player with paused := pause } } :=
      Shared.Spares.of_eq rfl rfl rfl rfl hplayer rfl
    rw [Shared.handle,hhttp]
    exact ((hpause.handles hs hbefore rfl (fun hstopped => absurd hstopped hrun)
      (by simp)).keeps _ _).alone hs
  | pauseReport pause =>
    have hbefore : w.shared.http.command = .idle := by rw [hhttp]; rfl
    have hrun : ¬w.shared.ledger.Stopped := hs.running (by rw [hhttp]; rfl)
    have hreport : w.shared.Spares
        (w.shared.report (if pause then "paused" else "playing") x.positionMs
          w.shared.player.durationMs) :=
      hs.report_spares (fun hstopped => absurd hstopped hrun) _ _
    rw [Shared.handle,hhttp]
    exact ((hreport.handles hs hbefore rfl (fun _ => rfl) (by simp)).keeps _ _).alone hs
  | seeking ms d active moved =>
    have hbefore : w.shared.http.command = .idle := by rw [hhttp]; rfl
    rw [Shared.handle,hhttp]
    dsimp only
    split
    · rename_i hmoved
      have hrun : ¬w.shared.ledger.Stopped :=
        hs.running (by rw [hhttp]; exact (Bool.and_eq_true_iff.mp hmoved).1)
      have hlive : ¬w.shared.Idled := by
        rintro (hstopping | hstopped)
        · rw [hhttp] at hstopping
          exact absurd hstopping (by simp [stopping])
        · exact hrun hstopped
      have hplant : w.shared.Spares
          { w.shared with companion := w.shared.companion.plant ms d } :=
        Shared.Spares.of_live hlive rfl
      exact ((hplant.handles hs hbefore rfl (fun hstopped => absurd hstopped hrun)
        (by simp)).keeps _ _).alone hs
    · exact ((hrefl.handles hs hbefore rfl (fun _ => rfl) (by simp)).keeps _ _).alone hs
  | seekCallback ms =>
    have hbefore : w.shared.http.command = .idle := by rw [hhttp]; rfl
    rw [Shared.handle,hhttp]
    have hidle : w.shared.Handles { w.shared with http := .idle } :=
      hrefl.handles hs hbefore rfl (fun _ => rfl) (by simp)
    exact ((hidle.seekAsync _ _).keeps _ _).intervention hs
      (Shared.seekAsync_sound (s := { w.shared with http := .idle }) le_rfl ms)
  | skippingNext active =>
    have hbefore : w.shared.http.command = .idle := by rw [hhttp]; rfl
    have hidle : w.shared.Handles { w.shared with http := .idle } :=
      hrefl.handles hs hbefore rfl (fun _ => rfl) (by simp)
    rw [Shared.handle,hhttp]
    dsimp only
    split
    · rename_i hactive
      have hrun : ¬w.shared.ledger.Stopped := hs.running (by rw [hhttp]; exact hactive)
      exact ((hidle.queueStep .skipNext 1).keeps _ _).intervention hs
        (Shared.queueStep_sound (s := { w.shared with http := .idle }) hrun (by simp) 1)
    · exact (hidle.keeps _ _).alone hs
  | skippingPrevious t d active =>
    have hbefore : w.shared.http.command = .idle := by rw [hhttp]; rfl
    rw [Shared.handle,hhttp]
    dsimp only
    split
    · rename_i hactive
      have hrun : ¬w.shared.ledger.Stopped := hs.running (by rw [hhttp]; exact hactive)
      have hplanting : w.shared.Handles { w.shared with http := .plantingStart t d } :=
        hrefl.handles hs hbefore rfl (fun hstopped => absurd hstopped hrun) (by simp)
      unfold Shared.skipPrevious
      split
      · exact ((hplanting.seekAsync _ _).keeps _ _).intervention hs
          (Shared.seekAsync_sound (s := { w.shared with http := .plantingStart t d }) le_rfl 0)
      · exact ((hplanting.queueStep _ _).keeps _ _).intervention hs
          (Shared.queueStep_sound (s := { w.shared with http := .plantingStart t d }) hrun
            (by simp) (-1))
    · exact ((hrefl.handles hs hbefore rfl (fun _ => rfl) (by simp)).keeps _ _).alone hs
  | plantingStart t d =>
    have hbefore : w.shared.http.command = .idle := by rw [hhttp]; rfl
    have hrun : ¬w.shared.ledger.Stopped := hs.running (by rw [hhttp]; rfl)
    have hlive : ¬w.shared.Idled := by
      rintro (hstopping | hstopped)
      · rw [hhttp] at hstopping
        exact absurd hstopping (by simp [stopping])
      · exact hrun hstopped
    have hplant : w.shared.Spares
        { w.shared with
          companion := if t ≠ 0 then w.shared.companion.plant 0 d else w.shared.companion } := by
      apply Shared.Spares.of_live hlive
      split <;> rfl
    rw [Shared.handle,hhttp]
    exact ((hplant.handles hs hbefore rfl (fun _ => rfl) (by simp)).keeps _ _).alone hs

end Misterplex.Playback
