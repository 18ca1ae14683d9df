import Misterplex.Companion.State
import Misterplex.Lib.Trace
import Mathlib.Data.Fintype.Card

/-!
# The command numbers that controllers get back

Every controller of a population sends decimal command numbers. Where no two
controllers can be taken for one another, each is answered with the largest
number it has sent, and so is every post that no newer command has overtaken.
Two controllers that can be mistaken always have a run that mixes them up.
-/

namespace Misterplex.Companion

open Misterplex.Trace List

/-- The controllers of a run: at most sixteen, each on a host and perhaps with a name. -/
structure Population where
  /-- The number of controllers. -/
  size : ℕ
  /-- As many as the companion keeps. -/
  atMost : size≤kMaxControllers
  /-- Names, empty where a controller gives none. -/
  id : Fin size → String
  /-- The host that a controller posts from. -/
  host : Fin size → String
  /-- Every host is known. -/
  hostKnown : ∀ c, host c ≠ ""

/-- A decimal command number. -/
structure CommandId where
  /-- The command number as it is spelled. -/
  text : String
  /-- There are only digits, and at least one. -/
  decimal : decimalCommandId text=true

theorem CommandId.text_ne_empty (number : CommandId) : number.text ≠ "" :=
  bne_iff_ne.mp (Bool.and_eq_true_iff.mp number.decimal).1

/-- The value of a command number. -/
def commandValue (commandId : String) : ℕ := Decimal.value commandId.toList

/-- A subscriber in a round of posts, with the controller that registered it and the largest
number that controller had sent when the round began. -/
structure Pushed (n : ℕ) where
  /-- The subscriber that is posted to. -/
  subscriber : TimelineSubscriber
  /-- The controller behind it, if there is one. -/
  owner : Option (Fin n)
  /-- The largest number it had sent. -/
  sent : ℕ

/-- The registry, the round of posts under way, and what the controllers sent and were shown. -/
structure Desk (n : ℕ) where
  /-- The subscribers and the commands. -/
  registry : Registry
  /-- The posts of the round that has not been made. -/
  round : List (Pushed n)
  /-- The controller that last registered a subscriber of a name. -/
  owner : String → Option (Fin n)
  /-- The largest number each controller has sent. -/
  largest : Fin n → ℕ
  /-- The number each controller was last shown. -/
  shown : Fin n → ℕ

/-- Before the first request. -/
def Desk.start (n : ℕ) : Desk n := ⟨Registry.empty,[],fun _ => none,fun _ => 0,fun _ => 0⟩

/-- What happens at the desk. -/
inductive Event (n : ℕ)
  | command (c : Fin n) (number : CommandId)
  | subscribe (c : Fin n) (protocol : String) (port : ℕ) (number : CommandId)
  | unsubscribe (c : Fin n) (number : CommandId)
  | beginRound
  | post (ok : Bool)

namespace Population

variable (P : Population)

/-- The number a request is answered with. -/
def reply (d : Desk P.size) (c : Fin P.size) (number : CommandId) : String :=
  (d.registry.timelineCommandFor (P.id c) (P.host c) number.text).1

/-- A request is answered. -/
def answer (d : Desk P.size) (c : Fin P.size) (number : CommandId) : Desk P.size :=
  { d with
    registry := (d.registry.timelineCommandFor (P.id c) (P.host c) number.text).2,
    largest := Function.update d.largest c (max (d.largest c) (commandValue number.text)),
    shown := Function.update d.shown c (commandValue (P.reply d c number)) }

/-- A subscription with a valid callback is entered. -/
def register (d : Desk P.size) (c : Fin P.size) (protocol : String) (port : ℕ)
    (commandId : String) : Desk P.size :=
  if protocol = "http" ∧ 0<port ∧ port < 65536 then
    { d with
      registry := d.registry.subscribeTimeline (P.id c) (P.host c) protocol port commandId,
      owner := Function.update d.owner (subscriberId (P.id c) (P.host c) port) (some c) }
  else d

/-- The number of an entry that has an owner is shown to it. -/
def shownTo (shown : Fin P.size → ℕ) (owner : Option (Fin P.size)) (value : ℕ) : Fin P.size → ℕ :=
  match owner with
  | some c => Function.update shown c value
  | none => shown

/-- One event. Rounds of posts follow one another. -/
def step (d : Desk P.size) : Event P.size → Desk P.size
  | .command c number => P.answer d c number
  | .subscribe c protocol port number =>
    P.register (P.answer d c number) c protocol port (P.reply d c number)
  | .unsubscribe c number =>
    { P.answer d c number with
      registry :=
        ((P.answer d c number).registry.unsubscribeTimeline (P.id c) (P.host c)).2 }
  | .beginRound =>
    match d.round with
    | [] =>
      { d with
        round := d.registry.subscribers.map fun s =>
          ⟨s,d.owner s.id,(d.owner s.id).elim 0 d.largest⟩ }
    | _ => d
  | .post ok =>
    match d.round with
    | [] => d
    | p::rest =>
      { d with
        registry := d.registry.settlePost p.subscriber ok, round := rest,
        shown := P.shownTo d.shown p.owner (commandValue p.subscriber.commandId) }

/-- A number shown to a controller is the largest it has sent, and no less than the one it was
shown before. -/
def RightNumber (d : Desk P.size) (c : Fin P.size) (largest shown : ℕ) : Prop :=
  shown=largest ∧ d.shown c ≤ shown

/-- What the event shows to a controller is right. -/
def Right (d : Desk P.size) : Event P.size → Prop
  | .command c number =>
    P.RightNumber d c (max (d.largest c) (commandValue number.text))
      (commandValue (P.reply d c number))
  | .subscribe c _ _ number =>
    P.RightNumber d c (max (d.largest c) (commandValue number.text))
      (commandValue (P.reply d c number))
  | .unsubscribe c number =>
    P.RightNumber d c (max (d.largest c) (commandValue number.text))
      (commandValue (P.reply d c number))
  | .beginRound => True
  | .post _ =>
    match d.round with
    | [] => True
    | p::_ =>
      ∀ c, p.owner=some c →
        P.RightNumber d c (d.largest c) (commandValue p.subscriber.commandId)

/-- No post is made to a controller that has sent a larger number since the round began. -/
def Fresh (d : Desk P.size) : Event P.size → Prop
  | .post _ =>
    match d.round with
    | [] => True
    | p::_ => ∀ c, p.owner=some c → d.largest c≤p.sent
  | _ => True

/-- No controller can be taken for another: one without a name is alone on its host and no
other controller is named like an address of it, and names are different. -/
def Separate : Prop :=
  ∀ c d, c≠d →
    (P.id c = "" → P.host c≠P.host d ∧
      ∀ port, 0<port → port<65536 → P.id d≠endpoint (P.host c) port) ∧
    (P.id c ≠ "" → P.id c≠P.id d)

variable {P}

open ControllerCommand

theorem Separate.answers_iff (h : P.Separate) (c d : Fin P.size) (text : String) :
    ControllerCommand.answers (P.id c) (P.host c) ⟨P.id d,P.host d,text⟩=true ↔ d=c := by
  unfold answers
  constructor
  · intro hfound
    by_contra hne
    have hapart := h c d (fun heq => hne heq.symm)
    by_cases hid : P.id c = ""
    · rw [if_neg (not_not_intro hid),Bool.and_eq_true,beq_iff_eq,beq_iff_eq] at hfound
      exact (hapart.1 hid).1 hfound.2.symm
    · rw [if_pos hid,beq_iff_eq] at hfound
      exact hapart.2 hid hfound.symm
  · rintro rfl
    by_cases hid : P.id d = ""
    · rw [if_neg (not_not_intro hid),Bool.and_eq_true,beq_iff_eq,beq_iff_eq]
      exact ⟨hid,rfl⟩
    · rw [if_pos hid,beq_iff_eq]

/-- The entries of the controllers, each with the largest number it has sent. -/
structure Kept (P : Population) (d : Desk P.size) (cs : List (Fin P.size))
    (text : Fin P.size → String) : Prop where
  /-- The commands kept are those of the controllers. -/
  commands : d.registry.controllerCommands = cs.map fun c => ⟨P.id c,P.host c,text c⟩
  /-- No controller has two. -/
  nodup : cs.Nodup
  /-- The entry holds the largest number sent. -/
  numbers : ∀ c∈cs, decimalCommandId (text c)=true ∧ commandValue (text c)=d.largest c
  /-- The other controllers have sent nothing. -/
  silent : ∀ c, c ∉ cs → d.largest c=0

variable {d : Desk P.size} {text : Fin P.size → String} {cs : List (Fin P.size)} {c : Fin P.size}

theorem Kept.find_mem (h : Kept P d cs text) (hsep : P.Separate) (hc : c∈cs) :
    d.registry.controllerCommands.find? (ControllerCommand.answers (P.id c) (P.host c)) =
      some ⟨P.id c,P.host c,text c⟩ := by
  rw [h.commands,find?_map]
  have hpred : (answers (P.id c) (P.host c) ∘
      fun c => (⟨P.id c,P.host c,text c⟩ : ControllerCommand)) = fun e => e == c := by
    funext e
    rw [Function.comp_apply,Bool.eq_iff_iff,hsep.answers_iff,beq_iff_eq]
  rw [hpred]
  have hfind : cs.find? (fun e => e == c)=some c := by
    cases hf : cs.find? fun e => e == c with
    | none => exact absurd (find?_eq_none.mp hf c hc) (by simp)
    | some e =>
      have hsame := find?_some hf
      simp only [beq_iff_eq] at hsame
      rw [hsame]
  rw [hfind]
  rfl

theorem Kept.find_not_mem (h : Kept P d cs text) (hsep : P.Separate) (hc : c ∉ cs) :
    d.registry.controllerCommands.find? (ControllerCommand.answers (P.id c) (P.host c)) =
      none := by
  rw [h.commands,find?_eq_none]
  intro e he hanswers
  obtain ⟨c',hc',rfl⟩ := mem_map.mp he
  rw [(hsep.answers_iff c c' (text c')).mp hanswers] at hc'
  exact hc hc'

/-- The number that counts is the larger of the one kept and the one that arrives. -/
theorem newer_value {text : String} (htext : decimalCommandId text=true) (number : CommandId) :
    decimalCommandId (if commandIsNewerOrEqual number.text text then number.text else text)=true ∧
      commandValue (if commandIsNewerOrEqual number.text text then number.text else text) =
        max (commandValue text) (commandValue number.text) := by
  have horder := commandIsNewerOrEqual_iff number.decimal htext
  by_cases hnew : commandIsNewerOrEqual number.text text=true
  · rw [if_pos hnew]
    exact ⟨number.decimal,(max_eq_right (horder.mp hnew)).symm⟩
  · rw [if_neg hnew]
    have hless := mt horder.mpr hnew
    exact ⟨htext,(max_eq_left (le_of_not_ge hless)).symm⟩

theorem Kept.effective
    (h : Kept P d cs text) (hsep : P.Separate) (c : Fin P.size) (number : CommandId) :
    decimalCommandId (d.registry.effective (P.id c) (P.host c) number.text)=true ∧
      commandValue (d.registry.effective (P.id c) (P.host c) number.text) =
        max (d.largest c) (commandValue number.text) := by
  unfold Registry.effective
  by_cases hc : c∈cs
  · rw [h.find_mem hsep hc]
    have hkept := h.numbers c hc
    rw [← hkept.2]
    exact newer_value hkept.1 number
  · rw [h.find_not_mem hsep hc,h.silent c hc]
    exact ⟨number.decimal,(max_eq_right (Nat.zero_le _)).symm⟩

open Registry

theorem Kept.commands_mem (h : Kept P d cs text) (hsep : P.Separate)
    (hc : c∈cs) (number : CommandId) :
    (d.registry.updateTimelineCommand (P.id c) (P.host c) number.text).controllerCommands =
      cs.map fun e => ⟨P.id e,P.host e,Function.update text c
        (d.registry.effective (P.id c) (P.host c) number.text) e⟩ := by
  unfold updateTimelineCommand
  rw [if_neg number.text_ne_empty,h.find_mem hsep hc]
  have halone : d.registry.controllerCommands.Pairwise fun a b =>
      answers (P.id c) (P.host c) a=true →
        answers (P.id c) (P.host c) b=false := by
    rw [h.commands,pairwise_map]
    refine h.nodup.imp ?_
    intro a b hab hyes
    rw [(hsep.answers_iff c a (text a)).mp hyes] at hab
    rw [← Bool.not_eq_true,hsep.answers_iff]
    exact fun heq => hab heq.symm
  rw [updateFirst_eq_map _ halone,h.commands,map_map]
  refine map_congr_left ?_
  intro e _
  rw [Function.comp_apply]
  by_cases he : e=c
  · rw [if_pos ((hsep.answers_iff c e (text e)).mpr he),he,Function.update_self]
  · rw [if_neg (fun hyes => he ((hsep.answers_iff c e (text e)).mp hyes)),
      Function.update_of_ne he]

/-- The entries after a controller without one sends a number: there is room for it. -/
theorem Kept.commands_not_mem (h : Kept P d cs text) (hsep : P.Separate)
    (hc : c ∉ cs) (number : CommandId) :
    (d.registry.updateTimelineCommand (P.id c) (P.host c) number.text).controllerCommands =
      (cs ++ [c]).map fun e => ⟨P.id e,P.host e,Function.update text c
        (d.registry.effective (P.id c) (P.host c) number.text) e⟩ := by
  have heff : d.registry.effective (P.id c) (P.host c) number.text=number.text := by
    unfold Registry.effective
    rw [h.find_not_mem hsep hc]
  have hroom : ¬kMaxControllers≤d.registry.controllerCommands.length := by
    have hcard := (nodup_cons.mpr ⟨hc,h.nodup⟩).length_le_card
    rw [Fintype.card_fin,length_cons] at hcard
    have hmost := P.atMost
    rw [h.commands,length_map]
    omega
  unfold updateTimelineCommand
  rw [if_neg number.text_ne_empty,h.find_not_mem hsep hc]
  show makeRoom _ d.registry.controllerCommands ++ _ = _
  rw [makeRoom,if_neg hroom,heff,h.commands,map_append]
  congr 1
  · refine map_congr_left ?_
    intro e he
    have hne : e≠c := fun heq => hc (heq ▸ he)
    rw [Function.update_of_ne hne]
  · rw [map_singleton,Function.update_self]

/-- A request leaves the entries with the largest numbers sent, and is answered with that of
its controller. -/
theorem Kept.answer
    (h : Kept P d cs text) (hsep : P.Separate) (c : Fin P.size) (number : CommandId) :
    (∃ cs', Kept P (P.answer d c number) cs' (Function.update text c
      (d.registry.effective (P.id c) (P.host c) number.text))) ∧
      P.reply d c number=d.registry.effective (P.id c) (P.host c) number.text := by
  have heff := h.effective hsep c number
  have hnumbers : ∀ e, (e∈cs ∨ e=c) →
      decimalCommandId (Function.update text c
        (d.registry.effective (P.id c) (P.host c) number.text) e)=true ∧
      commandValue (Function.update text c
        (d.registry.effective (P.id c) (P.host c) number.text) e) =
          (P.answer d c number).largest e := by
    intro e he
    show _ ∧ _ = Function.update d.largest c _ e
    by_cases heq : e=c
    · rw [heq,Function.update_self,Function.update_self]
      exact heff
    · rw [Function.update_of_ne heq,Function.update_of_ne heq]
      exact h.numbers e (he.resolve_right heq)
  have hsilent : ∀ e, e ∉ cs → e≠c → (P.answer d c number).largest e=0 := by
    intro e he hne
    show Function.update d.largest c _ e=0
    rw [Function.update_of_ne hne]
    exact h.silent e he
  have hreply : ∀ cs', Kept P (P.answer d c number) cs' (Function.update text c
      (d.registry.effective (P.id c) (P.host c) number.text)) → c∈cs' →
      P.reply d c number=d.registry.effective (P.id c) (P.host c) number.text := by
    intro cs' hkept hmem
    have hfind := hkept.find_mem hsep hmem
    have hnext : (d.registry.updateTimelineCommand (P.id c) (P.host c) number.text
        ).controllerCommands.find? (answers (P.id c) (P.host c)) =
        some ⟨P.id c,P.host c,Function.update text c
          (d.registry.effective (P.id c) (P.host c) number.text) c⟩ := hfind
    unfold reply timelineCommandFor
    simp only [hnext,Function.update_self]
  by_cases hc : c∈cs
  · have hkept : Kept P (P.answer d c number) cs (Function.update text c
        (d.registry.effective (P.id c) (P.host c) number.text)) :=
      { commands := h.commands_mem hsep hc number
        nodup := h.nodup
        numbers := fun e he => hnumbers e (Or.inl he)
        silent := fun e he => hsilent e he (fun heq => he (heq ▸ hc)) }
    exact ⟨⟨cs,hkept⟩,hreply cs hkept hc⟩
  · have hkept : Kept P (P.answer d c number) (cs ++ [c]) (Function.update text c
        (d.registry.effective (P.id c) (P.host c) number.text)) :=
      { commands := h.commands_not_mem hsep hc number
        nodup := by
          rw [nodup_append]
          refine ⟨h.nodup,nodup_singleton c,?_⟩
          intro a ha b hb
          rw [mem_singleton.mp hb]
          exact fun heq => hc (heq ▸ ha)
        numbers := by
          intro e he
          refine hnumbers e ?_
          rcases mem_append.mp he with hold | hnew
          · exact Or.inl hold
          · exact Or.inr (mem_singleton.mp hnew)
        silent := by
          intro e he
          refine hsilent e (fun hold => he (mem_append_left _ hold)) ?_
          exact fun heq => he (mem_append_right _ (mem_singleton.mpr heq)) }
    exact ⟨⟨cs ++ [c],hkept⟩,hreply _ hkept (mem_append_right _ mem_cons_self)⟩

/-- The entry of a subscriber: it stands under the name and host of the controller that
registered it, with the largest number that controller has sent. -/
structure Owned (P : Population) (d : Desk P.size) (s : TimelineSubscriber) (c : Fin P.size) :
    Prop where
  /-- The subscriber is this controller's. -/
  owner : d.owner s.id=some c
  /-- It is posted to at the controller's host. -/
  host : s.host=P.host c
  /-- Its port is one. -/
  port : 0<s.port ∧ s.port<65536
  /-- Its id is made of the controller's. -/
  name : s.id=subscriberId (P.id c) (P.host c) s.port
  /-- It carries the controller's largest number. -/
  number : commandValue s.commandId=d.largest c

open TimelineSubscriber

theorem Separate.concerns_iff (h : P.Separate) {s : TimelineSubscriber}
    {o : Fin P.size} (hs : Owned P d s o) (c : Fin P.size) :
    s.concerns (P.id c) (P.host c)=true ↔ o=c := by
  have hname := hs.name
  unfold concerns
  by_cases hid : P.id c = ""
  · rw [if_neg (not_not_intro hid),beq_iff_eq,hs.host]
    constructor
    · intro hhost
      by_contra hne
      exact ((h c o (fun heq => hne heq.symm)).1 hid).1 hhost.symm
    · rintro rfl
      rfl
  · rw [if_pos hid,beq_iff_eq,hname]
    unfold subscriberId
    constructor
    · intro hsame
      by_contra hne
      by_cases hoid : P.id o = ""
      · rw [if_pos hoid] at hsame
        exact ((h o c hne).1 hoid).2 s.port hs.port.1 hs.port.2 hsame.symm
      · rw [if_neg hoid] at hsame
        exact (h o c hne).2 hoid hsame
    · rintro rfl
      rw [if_neg hid]

/-- What is kept at the desk: the entries of the controllers and of the subscribers hold the
largest numbers sent, a round of posts those of its beginning, and no controller was shown
more than it sent. -/
structure Invariant (P : Population) (d : Desk P.size) : Prop where
  /-- The commands are those of some controllers. -/
  kept : ∃ cs text, Kept P d cs text
  /-- No two subscribers share an id. -/
  names : (d.registry.subscribers.map TimelineSubscriber.id).Nodup
  /-- Every subscriber has its controller. -/
  owned : ∀ s∈d.registry.subscribers, ∃ c, Owned P d s c
  /-- Every post of the round has its controller. -/
  posts : ∀ p∈d.round, ∃ c, p.owner=some c ∧
    commandValue p.subscriber.commandId=p.sent ∧ p.sent≤d.largest c
  /-- No controller was shown a number it has not sent. -/
  shown : ∀ c, d.shown c≤d.largest c

/-- An empty desk keeps the numbers. -/
theorem Invariant.start : Invariant P (Desk.start P.size) where
  kept := ⟨[],fun _ => "",rfl,nodup_nil,fun _ hc => absurd hc not_mem_nil,
    fun _ _ => rfl⟩
  names := nodup_nil
  owned := fun _ hs => absurd hs not_mem_nil
  posts := fun _ hp => absurd hp not_mem_nil
  shown := fun _ => le_rfl

theorem largest_le_answer (d : Desk P.size) (c : Fin P.size) (number : CommandId)
    (e : Fin P.size) : d.largest e≤(P.answer d c number).largest e := by
  show _ ≤ Function.update d.largest c _ e
  by_cases he : e = c
  · rw [he,Function.update_self]
    exact le_max_left _ _
  · rw [Function.update_of_ne he]

theorem answer_subscribers (d : Desk P.size) (c : Fin P.size) (number : CommandId) :
    (P.answer d c number).registry.subscribers = d.registry.subscribers.map fun s =>
      if s.concerns (P.id c) (P.host c) then
        { s with commandId := d.registry.effective (P.id c) (P.host c) number.text }
      else s := by
  show (d.registry.updateTimelineCommand _ _ _).subscribers=_
  unfold updateTimelineCommand
  rw [if_neg number.text_ne_empty]

theorem Invariant.reply_value (h : Invariant P d) (hsep : P.Separate)
    (c : Fin P.size) (number : CommandId) :
    commandValue (P.reply d c number)=max (d.largest c) (commandValue number.text) := by
  obtain ⟨cs,text,hkept⟩ := h.kept
  rw [(hkept.answer hsep c number).2]
  exact (hkept.effective hsep c number).2

/-- An answer to a controller keeps the numbers. -/
theorem Invariant.answer (h : Invariant P d) (hsep : P.Separate)
    (c : Fin P.size) (number : CommandId) : Invariant P (P.answer d c number) := by
  obtain ⟨cs,text,hkept⟩ := h.kept
  obtain ⟨cs',hkept'⟩ := (hkept.answer hsep c number).1
  have heff := (hkept.effective hsep c number).2
  exact
    { kept := ⟨cs',_,hkept'⟩
      names := by
        rw [answer_subscribers,map_map]
        have hsame : (TimelineSubscriber.id ∘ fun s : TimelineSubscriber =>
            if s.concerns (P.id c) (P.host c) then
              { s with commandId := d.registry.effective (P.id c) (P.host c) number.text }
            else s)=TimelineSubscriber.id := by
          funext s
          rw [Function.comp_apply]
          split_ifs <;> rfl
        rw [hsame]
        exact h.names
      owned := by
        rw [answer_subscribers]
        intro s' hs'
        obtain ⟨s,hs,rfl⟩ := mem_map.mp hs'
        obtain ⟨o,ho⟩ := h.owned s hs
        by_cases hoc : o=c
        · rw [if_pos ((hsep.concerns_iff ho c).mpr hoc)]
          refine ⟨o,ho.owner,ho.host,ho.port,ho.name,?_⟩
          show commandValue _ = Function.update d.largest c _ o
          rw [hoc,Function.update_self]
          exact heff
        · rw [if_neg (fun hyes => hoc ((hsep.concerns_iff ho c).mp hyes))]
          refine ⟨o,ho.owner,ho.host,ho.port,ho.name,?_⟩
          show commandValue _ = Function.update d.largest c _ o
          rw [Function.update_of_ne hoc]
          exact ho.number
      posts := by
        intro p hp
        obtain ⟨o,howner,hsent,hle⟩ := h.posts p hp
        exact ⟨o,howner,hsent,le_trans hle (largest_le_answer d c number o)⟩
      shown := by
        intro e
        show Function.update d.shown c _ e≤Function.update d.largest c _ e
        by_cases he : e=c
        · rw [he,Function.update_self,Function.update_self]
          exact (h.reply_value hsep c number).le
        · rw [Function.update_of_ne he,Function.update_of_ne he]
          exact h.shown e }

theorem subscribers_subscribeTimeline {r : Registry}
    (h : (r.subscribers.map TimelineSubscriber.id).Nodup) (id host protocol : String) (port : ℕ)
    (commandId : String) :
    ((r.subscribeTimeline id host protocol port commandId).subscribers.map
        TimelineSubscriber.id).Nodup ∧
      ∀ s∈(r.subscribeTimeline id host protocol port commandId).subscribers,
        s=⟨subscriberId id host port,host,protocol,orElse commandId "0",port,0⟩ ∨
          s∈r.subscribers ∧ s.id≠subscriberId id host port := by
  unfold subscribeTimeline
  by_cases hfound :
      (r.subscribers.find? fun current => current.id == subscriberId id host port).isSome=true
  · simp only [if_pos hfound]
    have halone : r.subscribers.Pairwise fun a b =>
        (a.id == subscriberId id host port)=true →
          (b.id == subscriberId id host port)=false := by
      refine (pairwise_map.mp h).imp ?_
      intro a b hab hyes
      rw [beq_iff_eq] at hyes
      rw [beq_eq_false_iff_ne,← hyes]
      exact fun heq => hab heq.symm
    rw [updateFirst_eq_map _ halone]
    constructor
    · rw [map_map]
      have hsame : (TimelineSubscriber.id ∘ fun s : TimelineSubscriber =>
          if (s.id == subscriberId id host port) = true then
            ⟨subscriberId id host port,host,protocol,orElse commandId "0",port,0⟩
          else s)=TimelineSubscriber.id := by
        funext s
        rw [Function.comp_apply]
        split_ifs with hs
        · exact (beq_iff_eq.mp hs).symm
        · rfl
      rw [hsame]
      exact h
    · intro s' hs'
      obtain ⟨s,hs,rfl⟩ := mem_map.mp hs'
      by_cases hyes : (s.id == subscriberId id host port)=true
      · rw [if_pos hyes]
        exact Or.inl rfl
      · rw [if_neg hyes]
        exact Or.inr ⟨hs,fun heq => hyes (beq_iff_eq.mpr heq)⟩
  · simp only [if_neg hfound]
    have hnew : ∀ s∈r.subscribers, s.id≠subscriberId id host port := by
      rw [Bool.not_eq_true,Option.isSome_eq_false_iff,Option.isNone_iff_eq_none,
        find?_eq_none] at hfound
      exact fun s hs heq => hfound s hs (beq_iff_eq.mpr heq)
    have hroom : (makeRoom kMaxSubscribers r.subscribers).Sublist r.subscribers := by
      unfold makeRoom
      split_ifs
      · exact tail_sublist _
      · exact List.Sublist.refl _
    constructor
    · rw [map_append,nodup_append]
      refine ⟨(hroom.map _).nodup h,nodup_singleton _,?_⟩
      intro a ha b hb
      obtain ⟨s,hs,rfl⟩ := mem_map.mp ha
      rw [map_singleton,mem_singleton] at hb
      rw [hb]
      exact hnew s (hroom.subset hs)
    · intro s hs
      rcases mem_append.mp hs with hold | hlast
      · exact Or.inr ⟨hroom.subset hold,hnew s (hroom.subset hold)⟩
      · exact Or.inl (mem_singleton.mp hlast)

theorem orElse_value {commandId fallback : String} (hvalue : commandValue fallback=0) :
    commandValue (orElse commandId fallback)=commandValue commandId := by
  unfold orElse
  split_ifs with hempty
  · rw [hvalue,hempty]
    rfl
  · rfl

/-- A registration with the largest number of its controller keeps the desk in order. -/
theorem Invariant.register (h : Invariant P d) (c : Fin P.size)
    (protocol : String) (port : ℕ) {commandId : String}
    (hvalue : commandValue commandId=d.largest c) :
    Invariant P (P.register d c protocol port commandId) := by
  unfold Population.register
  by_cases hvalid : protocol = "http" ∧ 0<port ∧ port<65536
  · rw [if_pos hvalid]
    have hsubs := subscribers_subscribeTimeline h.names (P.id c) (P.host c) protocol port commandId
    exact
      { kept := h.kept.imp fun _ hcs => hcs.imp fun _ hk =>
          { hk with }
        names := hsubs.1
        owned := by
          intro s hs
          rcases hsubs.2 s hs with rfl | ⟨hold,hother⟩
          · refine ⟨c,Function.update_self _ _ _,rfl,hvalid.2,rfl,?_⟩
            exact (orElse_value rfl).trans hvalue
          · obtain ⟨o,ho⟩ := h.owned s hold
            refine ⟨o,{ ho with owner := ?_ }⟩
            exact (Function.update_of_ne hother _ _).trans ho.owner
        posts := h.posts
        shown := h.shown }
  · rw [if_neg hvalid]
    exact h

/-- The desk stays in order when subscribers only leave or lose count of their failures. -/
theorem Invariant.subscribers (h : Invariant P d) {subscribers : List TimelineSubscriber}
    (hnames : (subscribers.map TimelineSubscriber.id).Sublist
      (d.registry.subscribers.map TimelineSubscriber.id))
    (hold : ∀ s∈subscribers, ∃ s₀∈d.registry.subscribers,
      s = { s₀ with failures := s.failures }) :
    Invariant P { d with registry := { d.registry with subscribers := subscribers } } where
  kept := h.kept.imp fun _ hcs => hcs.imp fun _ hk =>
    { hk with }
  names := hnames.nodup h.names
  owned := by
    intro s hs
    obtain ⟨s₀,hs₀,heq⟩ := hold s hs
    obtain ⟨o,ho⟩ := h.owned s₀ hs₀
    rw [heq]
    exact ⟨o,{ ho with }⟩
  posts := h.posts
  shown := h.shown

theorem Invariant.settlePost (h : Invariant P d) (subscriber : TimelineSubscriber) (ok : Bool) :
    Invariant P { d with registry := d.registry.settlePost subscriber ok } := by
  have halone : d.registry.subscribers.Pairwise fun a b =>
      subscriber.same a=true → subscriber.same b=false := by
    refine (pairwise_map.mp h.names).imp ?_
    intro a b hab hyes
    have hid := fun s (hs : subscriber.same s=true) =>
      beq_iff_eq.mp (Bool.and_eq_true_iff.mp (Bool.and_eq_true_iff.mp hs).1).1
    rw [← Bool.not_eq_true]
    exact fun hb => hab ((hid a hyes).trans (hid b hb).symm)
  have hcount : ∀ f : TimelineSubscriber → ℕ, Invariant P { d with
      registry := { d.registry with
        subscribers := updateFirst subscriber.same (fun s => { s with failures := f s })
          d.registry.subscribers } } := by
    intro f
    rw [updateFirst_eq_map _ halone]
    refine h.subscribers ?_ ?_
    · rw [map_map]
      have hsame : (TimelineSubscriber.id ∘ fun s : TimelineSubscriber =>
          if subscriber.same s = true then { s with failures := f s } else s) =
            TimelineSubscriber.id := by
        funext s
        rw [Function.comp_apply]
        split_ifs <;> rfl
      rw [hsame]
    · intro s hs
      obtain ⟨s₀,hs₀,rfl⟩ := mem_map.mp hs
      refine ⟨s₀,hs₀,?_⟩
      split_ifs <;> rfl
  unfold Registry.settlePost
  cases d.registry.subscribers.find? subscriber.same with
  | none => exact h
  | some current =>
    by_cases hok : ok = true
    · simp only [if_pos hok]
      exact hcount fun _ => 0
    · simp only [if_neg hok]
      by_cases hthird : 3 ≤ current.failures+1
      · simp only [if_pos hthird]
        refine h.subscribers (List.Sublist.map _ eraseP_sublist) ?_
        exact fun s hs => ⟨s,mem_of_mem_eraseP hs,rfl⟩
      · simp only [if_neg hthird]
        exact hcount fun s => s.failures+1

/-- Every event keeps the invariant. -/
theorem Invariant.step (h : Invariant P d) (hsep : P.Separate)
    (e : Event P.size) : Invariant P (P.step d e) := by
  cases e with
  | command c number => exact h.answer hsep c number
  | subscribe c protocol port number =>
    refine (h.answer hsep c number).register c protocol port ?_
    rw [h.reply_value hsep c number]
    show _ = Function.update d.largest c _ c
    rw [Function.update_self]
  | unsubscribe c number =>
    have hnext := h.answer hsep c number
    refine hnext.subscribers (List.Sublist.map _ filter_sublist) ?_
    exact fun s hs => ⟨s,(mem_filter.mp hs).1,rfl⟩
  | beginRound =>
    cases hround : d.round with
    | nil =>
      simp only [Population.step,hround]
      refine { kept := h.kept.imp fun _ hcs => hcs.imp fun _ hk =>
                { hk with }
               names := h.names
               owned := fun s hs => (h.owned s hs).imp fun _ ho =>
                { ho with }
               posts := ?_
               shown := h.shown }
      intro p hp
      obtain ⟨s,hs,rfl⟩ := mem_map.mp hp
      obtain ⟨o,ho⟩ := h.owned s hs
      refine ⟨o,ho.owner,?_,?_⟩
      · rw [ho.owner]
        exact ho.number
      · rw [ho.owner]
        exact le_rfl
    | cons p rest =>
      simp only [Population.step,hround]
      exact h
  | post ok =>
    cases hround : d.round with
    | nil =>
      simp only [Population.step,hround]
      exact h
    | cons p rest =>
      simp only [Population.step,hround]
      have hnext := h.settlePost p.subscriber ok
      obtain ⟨o,howner,hsent,hle⟩ := h.posts p (hround ▸ mem_cons_self)
      exact
        { kept := hnext.kept.imp fun _ hcs => hcs.imp fun _ hk =>
            { hk with }
          names := hnext.names
          owned := fun s hs => (hnext.owned s hs).imp fun _ ho =>
            { ho with }
          posts := fun q hq => h.posts q (hround ▸ mem_cons_of_mem p hq)
          shown := by
            intro c
            show P.shownTo d.shown p.owner _ c≤d.largest c
            rw [howner,shownTo,hsent]
            by_cases hc : c=o
            · rw [hc,Function.update_self]
              exact hle
            · rw [Function.update_of_ne hc]
              exact h.shown c }

theorem Invariant.right_iff_fresh (h : Invariant P d) (hsep : P.Separate)
    (e : Event P.size) : P.Right d e ↔ P.Fresh d e := by
  have hreply : ∀ c number, P.RightNumber d c (max (d.largest c) (commandValue number.text))
      (commandValue (P.reply d c number)) := by
    intro c number
    constructor
    · exact h.reply_value hsep c number
    · rw [h.reply_value hsep c number]
      exact le_trans (h.shown c) (le_max_left _ _)
  cases e with
  | command c number => exact iff_of_true (hreply c number) trivial
  | subscribe c protocol port number => exact iff_of_true (hreply c number) trivial
  | unsubscribe c number => exact iff_of_true (hreply c number) trivial
  | beginRound => exact Iff.rfl
  | post ok =>
    cases hround : d.round with
    | nil =>
      simp only [Right,Fresh,hround]
    | cons p rest =>
      simp only [Right,Fresh,hround]
      obtain ⟨o,howner,hsent,hle⟩ := h.posts p (hround ▸ mem_cons_self)
      constructor
      · intro hright c hc
        rw [← hsent]
        exact (hright c hc).1.ge
      · intro hfresh c hc
        have hco : o=c := Option.some.inj (howner.symm.trans hc)
        have hlast : d.largest c=p.sent := le_antisymm (hfresh c hc) (hco ▸ hle)
        constructor
        · rw [hsent,hlast]
        · rw [hsent,← hlast]
          exact h.shown c

/-- Where the controllers are separate, what a run shows is right exactly when its posts are
fresh. -/
theorem Separate.right_iff_fresh (hsep : P.Separate) (es : List (Event P.size)) :
    Along P.step P.Right (Desk.start P.size) es ↔ Along P.step P.Fresh (Desk.start P.size) es := by
  constructor
  · intro h
    exact h.imp (Invariant P) (fun d e hd _ => hd.step hsep e)
      (fun d e hd hright => (hd.right_iff_fresh hsep e).mp hright) Invariant.start
  · intro h
    exact h.imp (Invariant P) (fun d e hd _ => hd.step hsep e)
      (fun d e hd hfresh => (hd.right_iff_fresh hsep e).mpr hfresh) Invariant.start

/-- The command numbers of the examples. -/
def one : CommandId := ⟨"1",by decide⟩

/-- A larger number. -/
def five : CommandId := ⟨"5",by decide⟩

open Desk

theorem shared_entry {c d : Fin P.size} (hne : c≠d)
    (hentry : ControllerCommand.answers (P.id d) (P.host d) ⟨P.id c,P.host c,"5"⟩=true) :
    Along P.step P.Fresh (Desk.start P.size) [.command c five,.command d one] ∧
      ¬Along P.step P.Right (Desk.start P.size) [.command c five,.command d one] := by
  constructor
  · exact ⟨trivial,trivial,trivial⟩
  · intro h
    have hfirst : (P.step (start P.size) (.command c five)).registry =
        ⟨[],[⟨P.id c,P.host c,"5"⟩]⟩ := rfl
    have hsecond := h.2.1.1
    have hlargest : (P.step (start P.size) (.command c five)).largest d=0 :=
      Function.update_of_ne (fun heq => hne heq.symm) _ _
    have hreply : P.reply (P.step (start P.size) (.command c five)) d one = "5" := by
      have hnewer : commandIsNewerOrEqual "1" "5" = false := by decide
      have htext : one.text = "1" := rfl
      unfold reply timelineCommandFor updateTimelineCommand Registry.effective
      rw [hfirst]
      simp [htext,hentry,updateFirst,hnewer]
    rw [hlargest,hreply] at hsecond
    exact absurd hsecond (by decide)

/-- A subscription to a port, then a command of another controller, then a round of posts. -/
def overheard (c d : Fin P.size) (port : ℕ) : List (Event P.size) :=
  [.subscribe d "http" port one,.command c five,.beginRound,.post true]

/-- A subscriber that a command of another controller concerns is posted the other's number. -/
theorem shared_subscriber {c d : Fin P.size} (hne : c≠d) {port : ℕ}
    (hport : 0<port ∧ port<65536)
    (hother : ControllerCommand.answers (P.id c) (P.host c) ⟨P.id d,P.host d,"1"⟩=false)
    (hshared : TimelineSubscriber.concerns (P.id c) (P.host c)
      ⟨subscriberId (P.id d) (P.host d) port,P.host d,"http","1",port,0⟩=true) :
    Along P.step P.Fresh (Desk.start P.size) (overheard c d port) ∧
      ¬Along P.step P.Right (Desk.start P.size) (overheard c d port) := by
  simp only [overheard,Along]
  have hone : one.text = "1" := rfl
  have hfive : five.text = "5" := rfl
  have hdc : d≠c := fun heq => hne heq.symm
  have hself : answers (P.id d) (P.host d) ⟨P.id d,P.host d,"1"⟩=true := by
    unfold answers
    by_cases hid : P.id d = "" <;> simp [hid]
  have hreply : P.reply (start P.size) d one = "1" := by
    simp [reply,timelineCommandFor,updateTimelineCommand,start,
      empty,makeRoom,kMaxControllers,hone,hself]
  have hfirst : (P.step (start P.size) (.subscribe d "http" port one)).registry =
      ⟨[⟨subscriberId (P.id d) (P.host d) port,P.host d,"http","1",port,0⟩],
        [⟨P.id d,P.host d,"1"⟩]⟩ := by
    have hstart : (start P.size).registry=⟨[],[]⟩ := rfl
    simp [Population.step,Population.register,Population.answer,hport,hreply,hstart,
      subscribeTimeline,timelineCommandFor,updateTimelineCommand,
      makeRoom,kMaxControllers,kMaxSubscribers,orElse,hone]
  have howner : (P.step (start P.size) (.subscribe d "http" port one)).owner
      (subscriberId (P.id d) (P.host d) port)=some d := by
    simp [Population.step,Population.register,hport]
  have hlargest : (P.step (start P.size) (.subscribe d "http" port one)).largest d=1 := by
    have hvalue : commandValue one.text=1 := by decide
    simp [Population.step,Population.register,Population.answer,hport,start,hvalue]
  have hround : (P.step (start P.size) (.subscribe d "http" port one)).round=[] := by
    simp [Population.step,Population.register,Population.answer,hport,start]
  generalize P.step (start P.size) (.subscribe d "http" port one)=d₁ at *
  have hsubs : (P.step d₁ (.command c five)).registry.subscribers =
      [⟨subscriberId (P.id d) (P.host d) port,P.host d,"http","5",port,0⟩] := by
    show (P.answer d₁ c five).registry.subscribers=_
    have heff : d₁.registry.effective (P.id c) (P.host c) "5" = "5" := by
      simp [Registry.effective,hfirst,hother]
    rw [answer_subscribers,hfive,heff,hfirst]
    simp [hshared]
  have hround' : (P.step d₁ (.command c five)).round=[] := hround
  have howner' : (P.step d₁ (.command c five)).owner
      (subscriberId (P.id d) (P.host d) port)=some d := howner
  have hlargest' : (P.step d₁ (.command c five)).largest d=1 := by
    show Function.update d₁.largest c _ d=1
    rw [Function.update_of_ne hdc]
    exact hlargest
  generalize P.step d₁ (.command c five)=d₂ at *
  have hposts : (P.step d₂ .beginRound).round =
      [⟨⟨subscriberId (P.id d) (P.host d) port,P.host d,"http","5",port,0⟩,some d,1⟩] := by
    simp [Population.step,hround',hsubs,howner',hlargest']
  have hlast : (P.step d₂ .beginRound).largest d=1 := by
    simp [Population.step,hround',hlargest']
  constructor
  · refine ⟨trivial,trivial,trivial,?_,trivial⟩
    simp only [Fresh,hposts]
    intro e he
    rw [← Option.some.inj he,hlast]
  · intro h
    have hpost := h.2.2.2.1
    simp only [Right,hposts] at hpost
    have hsame := (hpost d rfl).1
    rw [hlast] at hsame
    exact absurd hsame (by decide)

/-- Where all runs with fresh posts show the right numbers, the controllers are separate. -/
theorem separate_of_right (h : ∀ es, Along P.step P.Fresh (Desk.start P.size) es →
    Along P.step P.Right (Desk.start P.size) es) : P.Separate := by
  have hentry : ∀ c d, c≠d →
      answers (P.id d) (P.host d) ⟨P.id c,P.host c,"5"⟩=true → False :=
    fun _ _ hne hfound => (shared_entry hne hfound).2 (h _ (shared_entry hne hfound).1)
  have hsub : ∀ c d, c≠d → ∀ port, 0<port ∧ port<65536 →
      answers (P.id c) (P.host c) ⟨P.id d,P.host d,"1"⟩=false →
      concerns (P.id c) (P.host c)
        ⟨subscriberId (P.id d) (P.host d) port,P.host d,"http","1",port,0⟩=true → False :=
    fun _ _ hne port hport hother hshared =>
      (shared_subscriber hne hport hother hshared).2
        (h _ (shared_subscriber hne hport hother hshared).1)
  intro c d hne
  constructor
  · intro hid
    constructor
    · intro hhost
      by_cases hdid : P.id d = ""
      · refine hentry c d hne ?_
        simp [answers,hid,hdid,hhost]
      · refine hsub c d hne 1 (by decide) ?_ ?_
        · simp [answers,hid,hdid]
        · simp [concerns,hid,hhost]
    · intro port hpos hlt haddress
      have hdid : P.id d ≠ "" := by
        rw [haddress]
        intro hempty
        have hlength := congrArg String.length hempty
        simp [endpoint,String.length_append] at hlength
      have hname : subscriberId (P.id c) (P.host c) port=P.id d := by
        rw [subscriberId,if_pos hid,haddress]
      refine hsub d c (fun heq => hne heq.symm) port ⟨hpos,hlt⟩ ?_ ?_
      · simp [answers,hdid,hid,Ne.symm hdid]
      · simp [concerns,hdid,hname]
  · intro hid hsame
    refine hentry c d hne ?_
    simp [answers,hsame ▸ hid,hsame]

end Population

/-- The numbers that controllers get back are the largest they have sent, for every run whose
posts are fresh and for no other, exactly when no controller can be taken for another. -/
theorem command_numbers_iff (P : Population) :
    P.Separate ↔ ∀ es, Along P.step P.Right (Desk.start P.size) es ↔
      Along P.step P.Fresh (Desk.start P.size) es := by
  constructor
  · exact fun hsep es => hsep.right_iff_fresh es
  · exact fun h => Population.separate_of_right fun es => (h es).mpr

/-- A phone and a television without names behind one address. -/
def oneHost : Population where
  size := 2
  atMost := by decide
  id := fun _ => ""
  host := fun _ => "10.0.0.7"
  hostKnown := fun _ => by decide

/-- The controller of the first slot. -/
def phone : Fin oneHost.size := ⟨0,by decide⟩

/-- The controller of the second slot. -/
def television : Fin oneHost.size := ⟨1,by decide⟩

/-- The television is answered with the number of the phone, and a post that a newer command
has overtaken shows an older number. -/
theorem command_numbers_mixed :
    ¬Along oneHost.step oneHost.Right (Desk.start oneHost.size)
        [.command phone Population.five,.command television Population.one] ∧
      ¬Along oneHost.step oneHost.Right (Desk.start oneHost.size)
        [.subscribe phone "http" 32433 Population.one,.beginRound,
          .command phone Population.five,.post true] := by
  constructor
  · intro h
    exact absurd h.2.1.1 (by decide)
  · intro h
    exact absurd (h.2.2.2.1 phone rfl).1 (by decide)

end Misterplex.Companion
