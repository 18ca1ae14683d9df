import Misterplex.Playback.CommandSteps

/-!
# Timely runs obey the last command

In a run of timely steps the daemon stays sound, and so nothing that was started
before a stop plays after it and nothing that was started before a cast supersedes
it. Three runs with a late step show how each of the two is broken.
-/

namespace Misterplex.Playback

open Misterplex.Companion Misterplex.Trace

variable {w : World} {s : Shared}

open Shared.Spares

theorem World.Sound.endTitle (h : World.Sound w) : Intervention w w.shared.endTitle := by
  have hs := h.shared
  have hsame : ∀ {media : Media}, w.shared.player.media ≠ .none →
      (∀ b∈media.born, b∈w.shared.player.media.born) →
      Player.Kept w.shared.ledger.handled w.shared.player
        { w.shared.player with media := media } :=
    fun hmedia hborn => ⟨fun hsil => absurd hsil.media hmedia,fun b hb => Or.inl (hborn b hb)⟩
  unfold Shared.endTitle
  cases hmedia : w.shared.player.media with
  | ended born t d =>
    have hplaying : w.shared.player.media ≠ .none := by
      rw [hmedia]
      simp
    dsimp only
    split
    · have hspares : w.shared.Spares
          { w.shared with player := { w.shared.player with media := .ending t d } } :=
        of_eq rfl rfl rfl rfl
          (hsame hplaying (fun b hb => absurd hb (by simp [Media.born]))) rfl
      exact (hspares.keeps hs _ _).alone hs
    · have hspares : w.shared.Spares
          { w.shared with
            autoNextInFlight := true,
            player := { w.shared.player with media := .advancing born t d } } :=
        of_eq rfl rfl rfl rfl (hsame hplaying (fun b hb => by rw [hmedia]; exact hb))
          rfl
      exact (hspares.keeps hs _ _).alone hs
  | ending t d =>
    have hreport := hs.stopped_spares t d
    have hspares : w.shared.Spares
        { w.shared.report "stopped" t d with player := { w.shared.player with media := .none } } :=
      { hreport with
          player := ⟨fun hsil => ⟨hsil.currentUrl,hsil.playing,rfl⟩, fun b hb => absurd hb (by simp [Media.born])⟩ }
    exact (hspares.keeps hs _ _).alone hs
  | advancing born t d =>
    have hloud : ¬w.shared.Silenced := hs.loud (by rw [hmedia]; simp)
    have hreport := hs.loud_spares hloud "buffering" t d
    have hspares : w.shared.Spares
        { w.shared.report "buffering" t d with
          player := { w.shared.player with media := .none } } :=
      { hreport with
          player := ⟨fun hsil => ⟨hsil.currentUrl,hsil.playing,rfl⟩, fun b hb => absurd hb (by simp [Media.born])⟩ }
    have hborn : born≤w.shared.ledger.handled := hs.media born (by rw [hmedia]; rfl)
    apply (hspares.keeps hs _ _).intervention hs
    intro u hu j
    rw [List.mem_singleton.mp hu]
    have hrun : ¬w.shared.ledger.Stopped := fun hstopped => hloud (Or.inr hstopped)
    apply Thread.Sound.started
    · exact hborn
    · split <;> rfl
    · split <;> rfl
    · split <;> rfl
    · exact fun _ => hrun
    · simp
  | none => exact ((refl _).keeps hs _ _).alone hs
  | running => exact ((refl _).keeps hs _ _).alone hs

theorem World.Sound.remote (h : World.Sound w) (command : PlaybackCommand) (positionMs : ℤ) :
    Intervention w (w.shared.remote command positionMs) := by
  have hs := h.shared
  have hnothing : Intervention w (w.shared,[]) :=
    ((refl _).keeps hs _ _).alone hs
  have hbusy : w.shared.Spares { w.shared with remoteBusy := true } :=
    of_eq rfl rfl rfl rfl (.refl _ _) rfl
  have hstart : ∀ pc : Pc, pc.gen=none → pc.within=false → pc.holdsUrl=false →
      pc.queueing=false →
      Intervention w ({ w.shared with remoteBusy := true },
        [⟨w.shared.ledger.handled,.remote,pc⟩]) := by
    intro pc hgen hwithin hurl hqueueing
    apply (hbusy.keeps hs _ _).intervention hs
    intro u hu j
    rw [List.mem_singleton.mp hu]
    refine Thread.Sound.started le_rfl hgen hwithin hurl ?_ (by simp) j
    rw [hqueueing]
    exact fun hq => absurd hq (by decide)
  unfold Shared.remote
  split
  · exact hnothing
  · split
    · exact hnothing
    · exact hstart _ rfl rfl rfl rfl
    · exact hstart _ rfl rfl rfl rfl
    · exact hstart _ rfl rfl rfl rfl
    · exact hstart _ rfl rfl rfl rfl

theorem World.Sound.drive (h : World.Sound w) {a : Action} (htimely : World.Timely w a) :
    Intervention w (w.shared.drive a) := by
  have hs := h.shared
  have hrefl := refl w.shared
  have hnothing : Intervention w (w.shared,[]) := (hrefl.keeps hs _ _).alone hs
  cases a with
  | thread i x => exact hnothing
  | http x => exact h.handle x htimely
  | arrive r player token =>
    unfold Shared.drive
    cases hhttp : w.shared.http with
    | idle =>
      have hbefore : w.shared.http.command = .idle := by rw [hhttp]; rfl
      refine (Shared.Handles.keeps ?_ _ _).alone hs
      refine ⟨rfl,rfl,rfl,.refl _ _,hbefore,rfl,fun _ => rfl,?_,?_⟩
      · intro hnamed
        have hstop : r = .stop := Http.routed.inj hnamed
        rw [hstop]
        show (if player || true then w.shared.companion.touch
          else w.shared.companion).castBound=true
        rw [Bool.or_true]
        rfl
      · intro hstopped
        have hidle := hs.idled (Or.inr hstopped)
        split
        · exact hidle
        · exact hidle
    | _ => exact hnothing
  | progress name t d =>
    unfold Shared.drive
    dsimp only
    split
    · rename_i hrunning
      have hloud : ¬w.shared.Silenced := hs.loud (by rw [hrunning]; simp)
      exact ((hs.loud_spares hloud name t d).keeps hs _ _).alone hs
    · exact hnothing
  | shortRead t d =>
    unfold Shared.drive
    dsimp only
    split
    · have hreport := hs.stopped_spares t d
      refine (keeps ?_ hs _ _).alone hs
      exact { hreport with
          player := ⟨fun hsil => ⟨hsil.currentUrl,rfl,rfl⟩,fun b hb => absurd hb (by simp [Media.born])⟩ }
    · exact hnothing
  | ended t d =>
    unfold Shared.drive
    dsimp only
    split
    · rename_i hrunning
      have hplayer : Player.Kept w.shared.ledger.handled w.shared.player
          { w.shared.player with
            playing := false, media := .ended w.shared.ledger.handled t d } := by
        constructor
        · intro hsil
          have hnone := hsil.media
          rw [hrunning] at hnone
          exact absurd hnone (by simp)
        · intro b hb
          have heq : w.shared.ledger.handled=b := Option.some.inj hb
          exact Or.inr heq.ge
      refine (keeps ?_ hs _ _).alone hs
      exact of_eq rfl rfl rfl rfl hplayer rfl
    · exact hnothing
  | endTitle => exact h.endTitle
  | remote command positionMs => exact h.remote command positionMs
  | contentRes =>
    unfold Shared.drive Shared.contentRes
    dsimp only
    split
    · have hbusy : w.shared.Spares { w.shared with osdBusy := true } :=
        of_eq rfl rfl rfl rfl (.refl _ _) rfl
      apply (hbusy.keeps hs _ _).intervention hs
      intro u hu j
      rw [List.mem_singleton.mp hu]
      exact Thread.Sound.started le_rfl rfl rfl rfl (fun hq => absurd hq (by simp [Pc.queueing]))
        (by simp) j
    · exact hnothing

/-- Every timely action keeps the daemon sound. -/
theorem World.Sound.step (h : World.Sound w) {a : Action} (htimely : World.Timely w a) :
    World.Sound (World.step w a) := by
  have houtside : World.Sound (w.intervene (w.shared.drive a)) :=
    Pool.Holds.intervene h (h.drive htimely).shared (h.drive htimely).threads
      (h.drive htimely).started
  cases a with
  | thread i x =>
    apply World.Sound.proceed h
    intro t ht
    exact Ready.advance ⟨ht,h.shared,h.threads i t ht⟩ (htimely t ht) x
  | _ => exact houtside

theorem World.Sound.initial (autoNext : Bool) (confToken : String)
    (skipForwardMs skipBackMs : ℤ) :
    World.Sound (World.initial autoNext confToken skipForwardMs skipBackMs) := by
  constructor
  · constructor
    · exact Or.inr ⟨by simp [World.initial,Http.stopping],rfl⟩
    · exact le_rfl
    · exact le_rfl
    · exact Or.inl le_rfl
    · exact le_rfl
    · exact Or.inl le_rfl
    · exact fun b hb => absurd hb (by simp [World.initial])
    · exact fun _ => rfl
    · exact fun hstopping => absurd hstopping (by simp [World.initial,Http.stopping])
    · exact fun hnamed => absurd hnamed (by simp [World.initial])
    · exact fun _ => rfl
    · exact fun pr hpr => absurd hpr (by simp [World.initial,Http.cast])
    · exact fun _ => ⟨rfl,rfl,rfl⟩
    · exact fun b hb => absurd hb (by simp [World.initial,Player.initial,Media.born])
  · intro i t ht
    exact absurd ht (by simp [World.initial])

theorem Pc.callsPlay_holds {pc : Pc} (h : pc.callsPlay=true) :
    pc.holdsUrl=true ∨ pc.within=true := by
  cases pc with
  | seekPlay ms url headers dur => exact Or.inl rfl
  | inside c req gen res => exact Or.inr rfl
  | _ => exact absurd h (by simp [Pc.callsPlay])

theorem World.Sound.obeys (h : World.Sound w) : World.Obeys w := by
  have hs := h.shared
  constructor
  · intro t ht hplay hstopped
    obtain ⟨i,hsound⟩ := Pool.Holds.of_mem h ht
    have hsilenced : w.shared.Silenced := Or.inr hstopped
    rcases Pc.callsPlay_holds hplay with hurl | hwithin
    · exact absurd hsilenced (hsound.address hurl).1
    · exact absurd hsilenced (hsound.handoff hwithin).2.2.2
  · intro t ht hplay
    obtain ⟨i,hsound⟩ := Pool.Holds.of_mem h ht
    rcases Pc.callsPlay_holds hplay with hurl | hwithin
    · exact (hsound.address hurl).2
    · rw [(hsound.handoff hwithin).2.2.1]
      exact hs.sounding
  · intro t ht htask hborn req gen _
    obtain ⟨i,hsound⟩ := Pool.Holds.of_mem h ht
    constructor
    · exact fun _ => hs.taker
    · intro _
      rcases hs.stager with hle | ⟨pr,hqueued⟩
      · exact hle
      · have hbefore := (hsound.cast htask).2 pr hqueued
        omega

/-- In every run of timely steps the last command decides what plays: nothing that was started
before a stop plays after it, until the next cast, and nothing that was started before a cast
supersedes it. -/
theorem last_command_decides (autoNext : Bool) (confToken : String)
    (skipForwardMs skipBackMs : ℤ) (is : List Action)
    (h : Along World.step World.Timely
      (World.initial autoNext confToken skipForwardMs skipBackMs) is) :
    Throughout World.step World.Obeys
      (World.initial autoNext confToken skipForwardMs skipBackMs) is :=
  Throughout.mono (fun _ hsound => World.Sound.obeys hsound)
    (h.throughout (fun _ _ hsound htimely => World.Sound.step hsound htimely)
      (World.Sound.initial autoNext confToken skipForwardMs skipBackMs))

/-- Everything works, and the media server resolves a title. -/
def working : Input :=
  { ok := true,
    result :=
      { ok := true, playable := "http://pms:32400/part", httpHeaders := "", durationMs := 100000,
        viewOffsetMs := 0, ratingKey := "1" },
    base := "http://pms:32400", queue := PlayQueue.failed, positionMs := 0 }

/-- The media server knows a play queue of two titles. -/
def withQueue : Input :=
  { working with
    queue :=
      { ok := true, playQueueId := "7", playQueueVersion := "1",
        containerKey := "/playQueues/7",
        items := [⟨"/library/metadata/1","1","11"⟩,⟨"/library/metadata/2","2","12"⟩],
        currentIndex := 0 } }

/-- A request for a title of a play queue. -/
def titled (key : String) : PlayRequest :=
  { PlayRequest.blank with key := key, playQueueId := "7", playQueueItemId := "11" }

/-- A cast is received, staged and dispatched. -/
def castOf (key : String) : List Action :=
  [.arrive (.playMedia (titled key)) true "",.http working,.http working,.http working]

/-- A title is cast and played. -/
def played (key : String) : List Action := castOf key ++ List.replicate 17 (.thread 0 working)

/-- A stop is received and handled. -/
def stopped : List Action :=
  [.arrive .stop true "",.http working,.http working,.http working]

/-- A seek is received and started. -/
def sought : List Action :=
  [.arrive (.seek true 50000) true "",.http working,.http working,.http working]

/-- A stop while a skip to the next title looks up the play queue, up to the start of the
player. -/
def lateQueueStep : List Action :=
  played "/library/metadata/1" ++
    [.arrive .skipNext true "",.http working,.http working,.thread 1 working] ++ stopped ++
    [.thread 1 withQueue] ++ List.replicate 17 (.thread 1 working)

/-- A stop while a seek holds the address of the player. -/
def lateSeekUrl : List Action :=
  played "/media/film" ++ sought ++ List.replicate 3 (.thread 1 working) ++ stopped ++
    List.replicate 2 (.thread 1 working)

/-- A cast while a seek has copied the title of the session. -/
def lateGeneration : List Action :=
  played "/library/metadata/1" ++ sought ++ List.replicate 2 (.thread 1 working) ++
    castOf "/library/metadata/2" ++ List.replicate 2 (.thread 2 working) ++ [.thread 1 working]

/-- A title that is played, sought in and stopped in time. -/
def timelyRun : List Action :=
  played "/library/metadata/1" ++ sought ++ List.replicate 17 (.thread 1 working) ++ stopped

/-- A title that is played, sought in and stopped in time obeys the last command. -/
theorem last_command_decides_stopped :
    Throughout World.step World.Obeys (World.initial true "" 0 0) timelyRun :=
  last_command_decides true "" 0 0 timelyRun (by decide)

/-- A queue step whose look-up outlasts a stop plays after it, a seek that copied the address
of the player before a stop plays it after that, and a seek that copied the title of the session
before a cast takes a newer generation than the cast has. -/
theorem late_steps_disobey :
    ¬Throughout World.step World.Obeys (World.initial true "" 0 0) lateQueueStep ∧
      ¬Throughout World.step World.Obeys (World.initial true "" 0 0) lateSeekUrl ∧
      ¬Throughout World.step World.Obeys (World.initial true "" 0 0) lateGeneration := by
  have hqueue : ∃ t∈(finalState World.step (World.initial true "" 0 0) lateQueueStep).threads,
      t.pc.callsPlay=true ∧
        (finalState World.step (World.initial true "" 0 0) lateQueueStep).shared.ledger.Stopped ∧
        ¬(finalState World.step (World.initial true "" 0 0) lateQueueStep).shared.ledger.stopNo ≤
          t.born := by
    decide
  have hurl : ∃ t∈(finalState World.step (World.initial true "" 0 0) lateSeekUrl).threads,
      t.pc.callsPlay=true ∧
        (finalState World.step (World.initial true "" 0 0) lateSeekUrl).shared.ledger.Stopped ∧
        ¬(finalState World.step (World.initial true "" 0 0) lateSeekUrl).shared.ledger.stopNo ≤
          t.born := by
    decide
  have hgeneration : ∃ t ∈
      (finalState World.step (World.initial true "" 0 0) lateGeneration).threads,
      t.task = .cast ∧
        t.born=(finalState World.step (World.initial true "" 0 0)
          lateGeneration).shared.ledger.castNo ∧
        (t.pc.checks.map Prod.snd)=some 2 ∧
        (finalState World.step (World.initial true "" 0 0) lateGeneration).shared.playGen=3 ∧
        (finalState World.step (World.initial true "" 0 0)
          lateGeneration).shared.ledger.taker <
          (finalState World.step (World.initial true "" 0 0)
            lateGeneration).shared.ledger.castNo := by
    decide
  constructor
  · intro h
    obtain ⟨t,ht,hplay,hstopped,hlate⟩ := hqueue
    exact hlate (h.last.stopped t ht hplay hstopped)
  · constructor
    · intro h
      obtain ⟨t,ht,hplay,hstopped,hlate⟩ := hurl
      exact hlate (h.last.stopped t ht hplay hstopped)
    · intro h
      obtain ⟨t,ht,htask,hborn,hchecks,hgen,hlate⟩ := hgeneration
      obtain ⟨⟨req,gen⟩,hpair,hsnd⟩ := Option.map_eq_some_iff.mp hchecks
      have hserved := (h.last.served t ht htask hborn req gen hpair).1
      have hne : gen≠(finalState World.step (World.initial true "" 0 0)
          lateGeneration).shared.playGen := by
        omega
      exact absurd (hserved hne) (Nat.not_le_of_lt hlate)

end Misterplex.Playback
