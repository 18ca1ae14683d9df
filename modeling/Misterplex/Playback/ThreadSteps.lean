import Misterplex.Playback.Reliance

/-!
# What a step of a thread keeps

Every critical section of a thread keeps what the other threads rely on, when it
is timely. The generation of a play request, the mutex of the handoff, the pending
title and the session of the player each change at one place only.
-/

namespace Misterplex.Companion

theorem State.setState_castBound (s : State) (name : String) (timeMs durationMs : ℤ) :
    (s.setState name timeMs durationMs).castBound=s.castBound := by
  unfold setState reportUnderHold
  split_ifs <;> rfl

theorem State.setState_prePlayHold (s : State) (name : String) (timeMs durationMs : ℤ) :
    (s.setState name timeMs durationMs).prePlayHold=s.prePlayHold := by
  unfold setState reportUnderHold
  split_ifs <;> rfl

theorem State.bindMedia_castBound (s : State) (req : PlayRequest) (durationMs : ℤ) :
    (s.bindMedia req durationMs).2.castBound=s.castBound := by
  unfold bindMedia
  split_ifs <;> rfl

theorem State.bindMedia_idle {s : State} (h : s.wantPlay=false) (req : PlayRequest)
    (durationMs : ℤ) : s.bindMedia req durationMs=(false,s) := by
  unfold bindMedia acceptsPlayRequest
  rw [h]
  rfl

theorem State.acceptsPlayRequest_live {s : State} {req : PlayRequest}
    (h : s.acceptsPlayRequest req=true) : s.wantPlay=true :=
  (Bool.and_eq_true_iff.mp h).1

end Misterplex.Companion

namespace Misterplex.Playback

open Misterplex.Companion Misterplex.Trace

variable {s s' : Shared} {threads : List Thread} {who : Option ℕ} {w : World} {i : ℕ} {t : Thread}

/-- A step that leaves the commands, the generation and the mutex of the handoff alone. -/
structure Shared.Spares (s s' : Shared) : Prop where
  /-- The thread of the requests stays where it is. -/
  http : s'.http=s.http
  ledger : s'.ledger=s.ledger
  /-- The newest generation is the same. -/
  playGen : s'.playGen=s.playGen
  /-- The mutex of the handoff is held as before. -/
  handoff : s'.playHandoffMu=s.playHandoffMu
  player : Player.Kept s.ledger.handled s.player s'.player
  /-- The controllers have the companion as their target as before. -/
  castBound : s'.companion.castBound=s.companion.castBound
  /-- No session becomes live during or after a stop. -/
  idle : s.Idled → s.companion.wantPlay=false →
    s'.companion.wantPlay=false ∧ s'.companion.prePlayHold=s.companion.prePlayHold

theorem Shared.Spares.keeps (h : s.Spares s') (hs : s.Sound) (threads : List Thread)
    (who : Option ℕ) : s.Keeps threads who s' := by
  constructor
  · rw [h.ledger]
    exact ⟨rfl,rfl,rfl,rfl⟩
  · rw [h.http]
  · rw [h.http]
    exact fun _ hactive => hactive
  · rw [h.http,h.castBound]
    exact id
  · exact fun hidled hidle => (h.idle hidled hidle).1
  · intro hstopping
    have hidled : s.Idled := Or.inl hstopping
    exact (h.idle hidled (hs.idled hidled)).2
  · exact fun _ => h.player.silent
  · exact h.player.media
  · exact Or.inl ⟨h.playGen,by rw [h.ledger]⟩
  · exact Or.inl (by rw [h.ledger])
  · intro j hj _
    rw [h.handoff,hj]
  · rw [h.ledger]
    exact fun b hb => Or.inl hb

theorem Shared.Spares.of_eq (hhttp : s'.http=s.http) (hledger : s'.ledger=s.ledger)
    (hgen : s'.playGen=s.playGen) (hmu : s'.playHandoffMu=s.playHandoffMu)
    (hplayer : Player.Kept s.ledger.handled s.player s'.player)
    (hcompanion : s'.companion=s.companion) : s.Spares s' := by
  constructor
  · exact hhttp
  · exact hledger
  · exact hgen
  · exact hmu
  · exact hplayer
  · rw [hcompanion]
  · rw [hcompanion]
    exact fun _ hidle => ⟨hidle,rfl⟩

theorem Shared.Spares.refl (s : Shared) : s.Spares s := of_eq rfl rfl rfl rfl (.refl _ _) rfl

theorem Shared.Sound.report_spares (hs : s.Sound) {name : String}
    (hfits : s.ledger.Stopped → s.companion.lateFits name) (timeMs durationMs : ℤ) :
    s.Spares (s.report name timeMs durationMs) := by
  constructor
  · rfl
  · rfl
  · rfl
  · rfl
  · exact .refl _ _
  · exact State.setState_castBound _ _ _ _
  · intro hidled hidle
    constructor
    · apply (State.setState_idle_iff hidle name timeMs durationMs).mpr
      rcases hidled with hstopping | hstopped
      · exact fun _ => hs.held hstopping
      · exact hfits hstopped
    · exact State.setState_prePlayHold _ _ _ _

theorem Shared.Sound.stopped_spares (hs : s.Sound) (timeMs durationMs : ℤ) :
    s.Spares (s.report "stopped" timeMs durationMs) :=
  hs.report_spares (fun _ hrun => absurd hrun (by decide)) timeMs durationMs

theorem Shared.Sound.loud_spares (hs : s.Sound) (hloud : ¬s.Silenced) (name : String)
    (timeMs durationMs : ℤ) : s.Spares (s.report name timeMs durationMs) :=
  hs.report_spares (fun hstopped => absurd (Or.inr hstopped) hloud) timeMs durationMs

theorem Shared.Keeps.task_finish (h : s.Keeps threads who s') (task : Task) :
    s.Keeps threads who (task.finish s') := by
  cases task <;>
    exact { h with }

/-- What a step of a thread leaves keeps what the others rely on, and what holds of the thread
and of those that it started. -/
structure Guarantee (w : World) (i : ℕ) (out : Outcome Shared Thread) : Prop where
  keeps : w.shared.Keeps w.threads (some i) out.shared
  self : out.self.Sound out.shared i
  started : ∀ u∈out.started, ∀ j, u.Sound out.shared j

/-- Between two steps the shared state and the threads are sound. -/
def World.Sound (w : World) : Prop := w.Holds Shared.Sound Thread.Sound

theorem World.Sound.proceed (h : World.Sound w) {out : Shared → Thread → Outcome Shared Thread}
    (hout : ∀ t, w.threads[i]?=some t → Guarantee w i (out w.shared t)) :
    World.Sound (w.proceed i out) := by
  apply Pool.Holds.proceed h
  · exact fun t ht => (hout t ht).keeps.sound h.shared
  · exact fun t ht => (hout t ht).self
  · intro t ht j u hj hu
    exact (hout t ht).keeps.others (List.mem_of_getElem? hu) (fun heq => hj (Option.some.inj heq))
      (h.threads j u hu)
  · exact fun t ht => (hout t ht).started

/-- What is known of a thread that is about to take a step. -/
structure Ready (w : World) (i : ℕ) (t : Thread) : Prop where
  thread : w.threads[i]?=some t
  shared : w.shared.Sound
  sound : t.Sound w.shared i

namespace Ready

open Shared.Spares

theorem wait (h : Ready w i t) : Guarantee w i (t.wait w.shared) := by
  constructor
  · exact (refl _).keeps h.shared _ _
  · exact h.sound
  · exact fun u hu => absurd hu List.not_mem_nil

theorem goTo (h : Ready w i t) {pc : Pc} (hbelow : pc.Below t.pc)
    (hkeeps : w.shared.Keeps w.threads (some i) s')
    (hmu : pc.within=true → s'.playHandoffMu=w.shared.playHandoffMu) :
    Guarantee w i (t.goTo pc s') := by
  constructor
  · exact hkeeps
  · exact hkeeps.self (List.mem_of_getElem? h.thread) h.sound hbelow hmu
  · exact fun u hu => absurd hu List.not_mem_nil

theorem goOn (h : Ready w i t) {pc : Pc} (hbelow : pc.Below t.pc) (hspares : w.shared.Spares s') :
    Guarantee w i (t.goTo pc s') :=
  h.goTo hbelow (hspares.keeps h.shared _ _) (fun _ => hspares.handoff)

theorem done_below (pc : Pc) : Pc.done.Below pc :=
  ⟨Or.inl rfl,fun h => absurd h (by decide),fun h => absurd h (by decide),
    fun h => absurd h (by decide)⟩

/-- A thread that ends keeps what the others rely on. -/
theorem finish (h : Ready w i t) (hkeeps : w.shared.Keeps w.threads (some i) s') :
    Guarantee w i (t.finish s') :=
  h.goTo (done_below _) (hkeeps.task_finish _) (fun hin => absurd hin (by decide))

theorem finishOn (h : Ready w i t) (hspares : w.shared.Spares s') : Guarantee w i (t.finish s') :=
  h.finish (hspares.keeps h.shared _ _)

theorem leave (h : Ready w i t) (hmu : w.shared.playHandoffMu=some i)
    (hkeeps : w.shared.Keeps w.threads (some i) s') : Guarantee w i (t.leave s') := by
  apply h.finish
  have hothers : ∀ j, w.shared.playHandoffMu=some j → some j≠some i → none=some j := by
    intro j hj hne
    rw [hmu] at hj
    exact absurd hj.symm hne
  exact { hkeeps with handoff := hothers }

theorem leaveOn (h : Ready w i t) (hmu : w.shared.playHandoffMu=some i)
    (hspares : w.shared.Spares s') : Guarantee w i (t.leave s') :=
  h.leave hmu (hspares.keeps h.shared _ _)

theorem stopPlayer (h : Ready w i t) (positionMs : ℤ) (who : Option ℕ) :
    w.shared.Keeps w.threads who (w.shared.stopPlayer positionMs) := by
  have hspares : w.shared.Spares (w.shared.report "stopped" positionMs w.shared.player.durationMs) :=
    h.shared.stopped_spares _ _
  have hkeeps := hspares.keeps h.shared w.threads who
  exact { hkeeps with
      silent := fun _ _ => ⟨rfl,rfl,rfl⟩
      media := fun b hb => absurd hb (by simp [Shared.stopPlayer,Player.stop,Media.born])
      sounding := fun b hb => absurd hb (by simp [Shared.stopPlayer]) }

variable {req : PlayRequest}

theorem inside_below {c c' : Commit} {gen : ℕ} {res : Resolved}
    (hpc : t.pc = .inside c req gen res) : (Pc.inside c' req gen res).Below t.pc := by
  rw [hpc]
  exact ⟨Or.inr rfl,id,id,id⟩

/-- Every critical section of the commitment of a request keeps what the threads rely on. -/
theorem commit (h : Ready w i t) {c : Commit} {gen : ℕ} {res : Resolved}
    (hpc : t.pc = .inside c req gen res) (htimely : t.Timely w) (x : Input) :
    Guarantee w i (t.commit c req gen res x w.shared) := by
  obtain ⟨hmu,_,hborn,hloud⟩ := h.sound.handoff (by rw [hpc]; rfl)
  have hbelow : ∀ c', (Pc.inside c' req gen res).Below t.pc := fun c' => inside_below hpc
  have hrefl := refl w.shared
  have hcheck : ∀ c', Guarantee w i
      (if w.shared.current gen then t.goTo (.inside c' req gen res) w.shared
        else t.leave w.shared) := by
    intro c'
    split
    · exact h.goOn (hbelow c') hrefl
    · exact h.leaveOn hmu hrefl
  cases c with
  | stopping =>
    unfold Thread.commit
    dsimp only
    split
    · exact h.goTo (hbelow _) (h.stopPlayer _ _) (fun _ => rfl)
    · exact h.wait
  | suspending =>
    unfold Thread.commit
    dsimp only
    split
    · exact h.wait
    · exact h.goOn (hbelow _) (of_eq rfl rfl rfl rfl (.refl _ _) rfl)
  | aspect => exact h.goOn (hbelow _) hrefl
  | checkBind => exact hcheck _
  | binding =>
    unfold Thread.commit
    dsimp only
    split
    · refine h.goOn (hbelow _) ⟨rfl,rfl,rfl,rfl,.refl _ _,State.bindMedia_castBound _ _ _,?_⟩
      intro _ hidle
      rw [State.bindMedia_idle hidle]
      exact ⟨hidle,rfl⟩
    · exact h.leaveOn hmu hrefl
  | reading => exact h.goOn (hbelow _) hrefl
  | checkSeed startAt => exact hcheck _
  | seeding startAt =>
    exact h.goOn (hbelow _) ⟨rfl,rfl,rfl,rfl,.refl _ _,rfl,fun _ hidle => ⟨hidle,rfl⟩⟩
  | buffering startAt => exact h.goOn (hbelow _) (h.shared.loud_spares hloud _ _ _)
  | checkPlay startAt => exact hcheck _
  | committing startAt =>
    unfold Thread.commit
    dsimp only
    split
    · exact h.goOn (hbelow _) (of_eq rfl rfl rfl rfl (.refl _ _) rfl)
    · exact h.leaveOn hmu hrefl
  | starting startAt =>
    unfold Thread.commit
    dsimp only
    split
    · exact h.wait
    · cases hok : x.ok with
      | true =>
        apply h.leave hmu
        have hkeeps := hrefl.keeps h.shared w.threads (some i)
        rw [Thread.Timely,hpc] at htimely
        refine { hkeeps with
            silent := fun hsilenced => absurd hsilenced hloud
            media := fun b hb => absurd hb (by simp [Media.born])
            sounding := ?_ }
        intro b hb
        have heq : t.born=b := Option.some.inj hb
        rw [← heq]
        exact Or.inr ⟨h.sound.born_le,htimely⟩
      | false =>
        have hplayer : Player.Kept w.shared.ledger.handled w.shared.player
            { w.shared.player with playing := false, media := .none } :=
          ⟨fun hsil => ⟨hsil.currentUrl,rfl,rfl⟩,fun b hb => absurd hb (by simp [Media.born])⟩
        exact h.goOn (hbelow _) (of_eq rfl rfl rfl rfl hplayer rfl)
  | closing timeMs => exact h.goOn (hbelow _) (h.shared.stopped_spares _ _)
  | closingSession => exact h.leaveOn hmu (of_eq rfl rfl rfl rfl (.refl _ _) rfl)

theorem below_of_gen {pc pc' : Pc} (hgen : pc'.gen=none ∨ pc'.gen=pc.gen)
    (hwithin : pc'.within=false) (hurl : pc'.holdsUrl=false) (hqueueing : pc'.queueing=false) :
    pc'.Below pc :=
  ⟨hgen,fun h => absurd (hwithin ▸ h) (by decide),fun h => absurd (hurl ▸ h) (by decide),
    fun h => absurd (hqueueing ▸ h) (by decide)⟩

theorem queueing_below {pc pc' : Pc} (hgen : pc'.gen=none) (hwithin : pc'.within=false)
    (hurl : pc'.holdsUrl=false) (hfrom : pc.queueing=true) : pc'.Below pc :=
  ⟨Or.inl hgen,fun h => absurd (hwithin ▸ h) (by decide),fun h => absurd (hurl ▸ h) (by decide),
    fun _ => hfrom⟩

theorem holding_below {pc pc' : Pc} (hgen : pc'.gen=none) (hwithin : pc'.within=false)
    (hqueueing : pc'.queueing=false) (hfrom : pc.holdsUrl=true) : pc'.Below pc :=
  ⟨Or.inl hgen,fun h => absurd (hwithin ▸ h) (by decide),fun _ => hfrom,
    fun h => absurd (hqueueing ▸ h) (by decide)⟩

theorem queueFailed (h : Ready w i t) : Guarantee w i (t.queueFailed w.shared) := by
  have hrefl := refl w.shared
  unfold Thread.queueFailed
  split
  · exact h.goOn (below_of_gen (Or.inl rfl) rfl rfl rfl) (of_eq rfl rfl rfl rfl (.refl _ _) rfl)
  · split
    · have hspares : w.shared.Spares
          { (w.shared.seekAsync t.born 0).1 with autoNextInFlight := false } :=
        of_eq rfl rfl rfl rfl (.refl _ _) rfl
      have hdone := h.goOn (done_below _) hspares
      constructor
      · exact hdone.keeps
      · exact hdone.self
      · intro u hu j
        rw [List.mem_singleton.mp hu]
        exact Thread.Sound.seek hdone.self.born_le _ _ _
    · exact h.finishOn hrefl
  · exact h.finishOn hrefl

/-- The generation that a play request takes is the newest, and it is a thread's own. -/
theorem take (h : Ready w i t) (hpc : t.pc = .begin req)
    (hnone : req.dispatchGeneration=0) (hfree : w.shared.playHandoffMu=none)
    (htimely : t.Timely w) :
    Guarantee w i (t.goTo (.entered req (w.shared.playGen+1)) (w.shared.takeGeneration t.born)) := by
  rw [Thread.Timely,hpc] at htimely
  have hkeeps := (refl w.shared).keeps h.shared w.threads (some i)
  have htake : w.shared.Keeps w.threads (some i) (w.shared.takeGeneration t.born) :=
    { hkeeps with generation := Or.inr ⟨rfl,hfree,htimely hnone⟩ }
  have hdone := h.goTo (done_below t.pc) htake (fun hin => absurd hin (by decide))
  constructor
  · exact htake
  · constructor
    · exact hdone.self.born_le
    · intro g hg
      have heq : w.shared.playGen+1=g := Option.some.inj hg
      rw [← heq]
      exact ⟨le_rfl,fun _ => rfl⟩
    · exact fun hin => absurd hin (by simp [Thread.goTo,Pc.within])
    · exact fun hurl => absurd hurl (by simp [Thread.goTo,Pc.holdsUrl])
    · exact fun hqueueing => absurd hqueueing (by simp [Thread.goTo,Pc.queueing])
    · exact hdone.self.cast
  · exact fun u hu => absurd hu List.not_mem_nil

/-- A play request that enters the handoff has the newest generation of the last command. -/
theorem enterHandoff (h : Ready w i t) {gen : ℕ} {res res' : Resolved}
    (hpc : t.pc = .resolved req gen res) (hfree : w.shared.playHandoffMu=none)
    (hgen : gen=w.shared.playGen) (haccepts : w.shared.companion.acceptsPlayRequest req=true) :
    Guarantee w i
      (t.goTo (.inside .stopping req gen res') { w.shared with playHandoffMu := some i }) := by
  have hlive : ¬w.shared.Idled := by
    intro hidled
    have hidle := h.shared.idled hidled
    rw [State.acceptsPlayRequest_live haccepts] at hidle
    exact absurd hidle (by decide)
  have hborn : t.born=w.shared.ledger.handled := by
    have htaker : t.born=w.shared.ledger.taker :=
      (h.sound.generation gen (by rw [hpc]; rfl)).2 hgen
    have hle := h.sound.born_le
    have hcast := h.shared.taker
    have hnew := h.shared.newest
    have hrun : ¬w.shared.ledger.castNo<w.shared.ledger.stopNo := fun hlt => hlive (Or.inr hlt)
    omega
  have hloud : ¬w.shared.Silenced := by
    rintro (hsession | hstopped)
    · exact hlive (Or.inl (Or.inr hsession))
    · exact hlive (Or.inr hstopped)
  have hkeeps := (refl w.shared).keeps h.shared w.threads (some i)
  have htake : w.shared.Keeps w.threads (some i) { w.shared with playHandoffMu := some i } := by
    refine { hkeeps with handoff := ?_ }
    intro j hj _
    rw [hfree] at hj
    exact absurd hj (by simp)
  have hdone := h.goTo (done_below t.pc) htake (fun hin => absurd hin (by decide))
  constructor
  · exact htake
  · constructor
    · exact hdone.self.born_le
    · intro g hg
      have heq : gen=g := Option.some.inj hg
      rw [← heq]
      exact h.sound.generation gen (by rw [hpc]; rfl)
    · exact fun _ => ⟨rfl,congrArg some hgen,hborn,hloud⟩
    · exact fun hurl => absurd hurl (by simp [Thread.goTo,Pc.holdsUrl])
    · exact fun hqueueing => absurd hqueueing (by simp [Thread.goTo,Pc.queueing])
    · exact hdone.self.cast
  · exact fun u hu => absurd hu List.not_mem_nil

theorem stage (h : Ready w i t) {n : PlayRequest} {token : String}
    (hpc : t.pc = .queueStage n token) (htimely : t.Timely w) :
    Guarantee w i
      (t.goTo (.queuePlant n token)
        { w.shared with
          companion := w.shared.companion.stagePlay n,
          ledger := { w.shared.ledger with stager := t.born } }) := by
  rw [Thread.Timely,hpc] at htimely
  have hle := h.sound.born_le
  have hcast := h.shared.cast_le
  have hlive : ¬w.shared.Idled := by
    rintro (hstopping | hstopped)
    · rcases h.shared.counted with ⟨_,hreceived⟩ | ⟨hnot,_⟩
      · omega
      · exact hnot hstopping
    · have hbefore := h.sound.queueing (by rw [hpc]; rfl) hstopped
      have hstop := h.shared.stop_le
      rcases h.shared.counted with ⟨_,hreceived⟩ | ⟨_,hreceived⟩ <;> omega
  have hnewest : w.shared.ledger.castNo≤t.born := by
    rcases h.shared.counted with ⟨_,hreceived⟩ | ⟨_,hreceived⟩ <;> omega
  have hkeeps := (refl w.shared).keeps h.shared w.threads (some i)
  apply h.goTo
  · rw [hpc]
    exact below_of_gen (Or.inr rfl) rfl rfl rfl
  · exact { hkeeps with
      named := fun _ _ => rfl
      idle := fun hidled => absurd hidled hlive
      hold := fun hstopping => absurd (Or.inl hstopping) hlive
      stager := Or.inr hnewest }
  · exact fun _ => rfl

/-- An address is copied only in time, and there is one only while no stop has stopped the
player. -/
theorem copyUrl (h : Ready w i t) {ms : ℤ} (hpc : t.pc = .seekUrl ms)
    (hurl : w.shared.player.currentUrl ≠ "") (htimely : t.Timely w) (ms' dur : ℤ)
    (url headers : String) :
    Guarantee w i (t.goTo (.seekCopied ms' url headers dur) w.shared) := by
  rw [Thread.Timely,hpc] at htimely
  have hloud : ¬w.shared.Silenced := fun hsilenced => hurl (h.shared.silenced hsilenced).currentUrl
  constructor
  · exact (refl _).keeps h.shared _ _
  · constructor
    · exact h.sound.born_le
    · exact fun g hg => absurd hg (by simp [Thread.goTo,Pc.gen])
    · exact fun hin => absurd hin (by simp [Thread.goTo,Pc.within])
    · exact fun _ => ⟨hloud,htimely hurl⟩
    · exact fun hqueueing => absurd hqueueing (by simp [Thread.goTo,Pc.queueing])
    · exact h.sound.cast
  · exact fun u hu => absurd hu List.not_mem_nil

/-- A step of a thread keeps what the others rely on. -/
theorem advance (h : Ready w i t) (htimely : t.Timely w) (x : Input) :
    Guarantee w i (t.advance i x w.shared) := by
  have hrefl := refl w.shared
  unfold Thread.advance
  cases hpc : t.pc with
  | queueCopy delta =>
    dsimp only
    split
    · exact h.goOn (queueing_below rfl rfl rfl (by rw [hpc]; rfl)) hrefl
    · exact h.goOn (below_of_gen (Or.inl rfl) rfl rfl rfl) hrefl
  | queueFetch delta cur token =>
    dsimp only
    split
    · exact h.goOn (below_of_gen (Or.inl rfl) rfl rfl rfl) hrefl
    · exact h.goOn (queueing_below rfl rfl rfl (by rw [hpc]; rfl)) hrefl
  | queueStage n token => exact h.stage hpc htimely
  | queuePlant n token =>
    refine h.goOn ?_ (of_eq rfl rfl rfl rfl (.refl _ _) rfl)
    rw [hpc]
    exact below_of_gen (Or.inr rfl) rfl rfl rfl
  | queueFailed => exact h.queueFailed
  | endReport time d => exact h.goOn (done_below _) (h.shared.stopped_spares _ _)
  | castPlant req =>
    refine h.goOn ?_ (of_eq rfl rfl rfl rfl (.refl _ _) rfl)
    rw [hpc]
    exact below_of_gen (Or.inr rfl) rfl rfl rfl
  | seekWait ms g =>
    dsimp only
    split
    · exact h.wait
    · split
      · exact h.goOn (done_below _) hrefl
      · exact h.goOn (below_of_gen (Or.inl rfl) rfl rfl rfl)
          (of_eq rfl rfl rfl rfl (.refl _ _) rfl)
  | seekCopy ms =>
    dsimp only
    split
    · exact h.goOn (below_of_gen (Or.inl rfl) rfl rfl rfl) hrefl
    · exact h.goOn (below_of_gen (Or.inl rfl) rfl rfl rfl) hrefl
  | restartCopy =>
    dsimp only
    split
    · exact h.goOn (done_below _) (of_eq rfl rfl rfl rfl (.refl _ _) rfl)
    · exact h.goOn (below_of_gen (Or.inl rfl) rfl rfl rfl)
        (of_eq rfl rfl rfl rfl (.refl _ _) rfl)
  | seekUrl ms =>
    dsimp only
    split
    · exact h.finishOn hrefl
    · rename_i hurl
      exact h.copyUrl hpc hurl htimely _ _ _ _
  | seekCopied ms url headers dur =>
    dsimp only
    have hholds : t.pc.holdsUrl=true := by rw [hpc]; rfl
    split
    · exact h.finishOn hrefl
    · exact h.goOn (holding_below rfl rfl rfl hholds) hrefl
  | seekReport ms url headers dur =>
    have hholds : t.pc.holdsUrl=true := by rw [hpc]; rfl
    exact h.goOn (holding_below rfl rfl rfl hholds)
      (h.shared.loud_spares (h.sound.address hholds).1 _ _ _)
  | seekPlay ms url headers dur =>
    dsimp only
    have hholds : t.pc.holdsUrl=true := by rw [hpc]; rfl
    split
    · exact h.wait
    · apply h.finish
      have hkeeps := hrefl.keeps h.shared w.threads (some i)
      exact { hkeeps with
          silent := fun hsilenced => absurd hsilenced (h.sound.address hholds).1
          media := fun b hb => absurd (Player.play_media_born _ _ _ _ _ ▸ hb) (by simp) }
  | remotePause pause =>
    exact h.goOn (below_of_gen (Or.inl rfl) rfl rfl rfl)
      (of_eq rfl rfl rfl rfl
        ⟨fun hsil => ⟨hsil.currentUrl,hsil.playing,hsil.media⟩,fun b hb => Or.inl hb⟩
        rfl)
  | remoteReport pause =>
    rw [Thread.Timely,hpc] at htimely
    exact h.finishOn (h.shared.report_spares (fun hstopped _ => htimely hstopped) _ _)
  | remoteStop =>
    dsimp only
    split
    · exact h.finish (h.stopPlayer _ _)
    · exact h.wait
  | begin req =>
    dsimp only
    by_cases hgiven : req.dispatchGeneration≠0
    · rw [if_pos hgiven]
      refine h.goOn ?_ hrefl
      rw [hpc]
      exact below_of_gen (Or.inr (if_neg hgiven).symm) rfl rfl rfl
    · rw [if_neg hgiven]
      have hnone : req.dispatchGeneration=0 := Decidable.not_not.mp hgiven
      split
      · exact h.wait
      · rename_i hfree
        exact h.take hpc hnone (Decidable.not_not.mp hfree) htimely
  | entered req gen =>
    dsimp only
    split
    · refine h.goOn ?_ hrefl
      rw [hpc]
      exact below_of_gen (Or.inr rfl) rfl rfl rfl
    · exact h.finishOn hrefl
  | resolving req gen =>
    dsimp only
    split
    · refine h.goOn ?_ hrefl
      rw [hpc]
      exact below_of_gen (Or.inr rfl) rfl rfl rfl
    · exact h.finishOn hrefl
  | resolved req gen res =>
    dsimp only
    split
    · exact h.wait
    · rename_i hfree
      split
      · rename_i hcheck
        exact h.enterHandoff hpc (Decidable.not_not.mp hfree) hcheck.1 hcheck.2
      · exact h.finishOn hrefl
  | inside c req gen res => exact h.commit hpc htimely x
  | done => exact h.wait

end Ready

end Misterplex.Playback
