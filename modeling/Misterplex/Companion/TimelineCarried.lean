import Misterplex.Companion.TimelineText

/-!
# The fields of a timeline that a document carries

The fields that are written into a timeline depend on the state of the companion: a
session with a title names its media, its server and its play queue. The document is
read back as it is meant exactly if all fields that are written are such that a
document can carry them.
-/

namespace Misterplex.Companion

open List

open Plex (intText)

instance (text : List Char) : Decidable (Carried text) := inferInstanceAs (Decidable (_ ∧ _))

theorem carried_orElse {value default : String} (h : Carried default.toList) :
    Carried (orElse value default).toList ↔ (value ≠ "" → Carried value.toList) := by
  rw [orElse]
  split
  case isTrue hempty => exact iff_of_true h fun hne => absurd hempty hne
  case isFalse hne => exact ⟨fun hcarried _ => hcarried,fun hcarried => hcarried hne⟩

theorem carried_of_nonempty {value : String} :
    (value ≠ "" → Carried value.toList) ↔ Carried value.toList := by
  constructor
  · intro h
    by_cases hempty : value = ""
    · rw [hempty]
      decide
    · exact h hempty
  · exact fun h _ => h

open Xml

theorem carried_between {front rest : List Char} (text : List Char)
    (hfront : ∀ c∈front, Xml.isAscii c=true ∧ Xml.isBlank c=false)
    (hrest : ∀ c∈rest, Xml.isAscii c=true ∧ Xml.isBlank c=false) :
    Carried (front ++ text ++ rest) ↔ Carried text := by
  have hlegal : legal (front ++ text ++ rest)=legal text := by
    rw [append_assoc,legal_append fun c hc => (hfront c hc).1]
    cases rest with
    | nil => rw [append_nil]
    | cons c rest =>
      rw [legal_append_cons (hrest c mem_cons_self).1,
        legal_ascii fun d hd => (hrest d (mem_cons_of_mem c hd)).1,Bool.and_true]
  rw [Carried,Carried,hlegal]
  refine and_congr_right fun _ => ⟨fun h c hc => ?_,fun h c hc hblank => ?_⟩
  · exact h c (mem_append_left _ (mem_append_right _ hc))
  · rcases mem_append.mp hc with hc | hc
    · rcases mem_append.mp hc with hc | hc
      · exact absurd hblank (Bool.not_eq_true _ ▸ (hfront c hc).2)
      · exact h c hc hblank
    · exact absurd hblank (Bool.not_eq_true _ ▸ (hrest c hc).2)

/-- What a companion must hold so that the media can be written. -/
structure State.MediaCarried (s : State) : Prop where
  server : Carried s.server.machineId.toList
  /-- how the server is reached, if it is known -/
  endpoint : s.server.host ≠ "" →
    Carried s.server.proto.toList ∧ Carried s.server.host.toList ∧ Carried s.server.port.toList
  key : Carried s.pending.key.toList
  /-- the container without its query, if it is a play queue and no queue is named -/
  container : s.pending.playQueueId = "" → mentions s.pending.containerKey "/playQueues/" = true →
    Carried (upTo ['?'] s.pending.containerKey.toList)
  ratingKey : Carried s.pending.ratingKey.toList
  playQueueId : Carried s.pending.playQueueId.toList
  playQueueVersion : s.pending.playQueueId ≠ "" → Carried s.pending.playQueueVersion.toList
  playQueueItemId : Carried s.pending.playQueueItemId.toList

/-- What a companion must hold so that a document can carry its timeline: the name of the state
has no signs of markup, and the fields that are written are carried. -/
structure State.AllCarried (s : State) (machineId commandId : String) : Prop where
  /-- The player's machine id. -/
  machineId : Carried machineId.toList
  /-- The command number. -/
  commandId : Carried commandId.toList
  /-- The state, which stands without quotes. -/
  state : Carried s.state.toList ∧ Unmarked s.state.toList
  /-- What is known of the title. -/
  media : s.wantPlay=true → s.pending.key ≠ "" → s.MediaCarried

variable (s : State)

/-- The name that is written is the one that is held, or takes its place when that is no news. -/
theorem State.timelineXml_state (machineId commandId : String) :
    (s.timelineXml machineId commandId).state=s.state ∨
      (s.timelineXml machineId commandId).state = "buffering" ∧
        (s.state = "stopped" ∨ s.state = "" ∨ s.state = "buffering") := by
  have hshown : s.videoState=s.state ∨ s.videoState = "buffering" ∧
      (s.state = "stopped" ∨ s.state = "" ∨ s.state = "buffering") := by
    rw [State.videoState]
    split_ifs with hwant hidle
    · exact Or.inr ⟨rfl,hwant.2.imp_right Or.inl⟩
    · refine Or.inr ⟨rfl,?_⟩
      have hname := (Bool.and_eq_true_iff.mp hidle).2
      simp only [Bool.or_eq_true,beq_iff_eq] at hname
      exact or_assoc.mp hname
    · exact Or.inl rfl
  show (if s.mediaActive ∧ s.videoState = "stopped" then "buffering" else s.videoState)=s.state ∨
    (if s.mediaActive ∧ s.videoState = "stopped" then "buffering" else s.videoState) = "buffering" ∧
      (s.state = "stopped" ∨ s.state = "" ∨ s.state = "buffering")
  split_ifs with hactive
  · rcases hshown with h | ⟨h,-⟩
    · exact Or.inr ⟨rfl,Or.inl (h.symm.trans hactive.2)⟩
    · exact absurd (h.symm.trans hactive.2) (by decide)
  · exact hshown

theorem State.carried_state (machineId commandId : String) :
    (Carried (s.timelineXml machineId commandId).state.toList ∧
      Unmarked (s.timelineXml machineId commandId).state.toList) ↔
      (Carried s.state.toList ∧ Unmarked s.state.toList) := by
  have hfixed : ∀ name∈["buffering","stopped",""],
      Carried name.toList ∧ Unmarked name.toList := by
    decide
  rcases s.timelineXml_state machineId commandId with h | ⟨h,hheld⟩
  · rw [h]
  · refine iff_of_true ?_ ?_
    · rw [h]
      exact hfixed _ (by decide)
    · rcases hheld with hname | hname | hname
      all_goals
        rw [hname]
        exact hfixed _ (by decide)

theorem State.located (machineId commandId : String) :
    (s.timelineXml machineId commandId).Located := by
  show (if s.mediaActive then "fullScreenVideo" else "navigation") = "fullScreenVideo" ∨
    (if s.mediaActive then "fullScreenVideo" else "navigation") = "navigation"
  split
  case isTrue => exact Or.inl rfl
  case isFalse => exact Or.inr rfl

theorem State.media_eq (machineId commandId : String) : (s.timelineXml machineId commandId).media =
      if s.wantPlay = true ∧ s.pending.key ≠ "" then some (s.reportedMedia machineId)
      else none := by
  refine if_congr ?_ rfl rfl
  refine and_congr_left fun hkey => ?_
  rw [State.mediaActive,bne_iff_ne.mpr hkey,Bool.or_true,Bool.and_true]

/-- Attributes that may be left out are carried if they are carried where they are written. -/
theorem carried_optional {p : Prop} [Decidable p] {attributes : List Xml.Attribute} :
    (∀ a ∈ if p then attributes else [], Carried a.value) ↔
      (p → ∀ a∈attributes, Carried a.value) := by
  split
  case isTrue hp => exact ⟨fun h _ => h,fun h => h hp⟩
  case isFalse hp => exact iff_of_true (forall_mem_nil _) fun h => absurd h hp

theorem carried_one {a : Xml.Attribute} :
    (∀ b∈[a], Carried b.value) ↔ Carried a.value :=
  forall_mem_singleton

theorem State.carried_container : (s.container ≠ "" → Carried s.container.toList) ↔
      (s.pending.playQueueId ≠ "" → Carried s.pending.playQueueId.toList) ∧
      (s.pending.playQueueId = "" → mentions s.pending.containerKey "/playQueues/" = true →
        Carried (upTo ['?'] s.pending.containerKey.toList)) := by
  have hfront : ∀ c ∈ "/playQueues/".toList, isAscii c=true ∧ isBlank c=false := by
    decide
  have hrest : ∀ c ∈ "?own=1".toList, isAscii c=true ∧ isBlank c=false := by
    decide
  have hnone : ∀ c∈([] : List Char), isAscii c=true ∧ isBlank c=false :=
    fun c hc => absurd hc not_mem_nil
  rw [carried_of_nonempty,State.container]
  by_cases hid : s.pending.playQueueId = ""
  · rw [if_neg (not_not.mpr hid)]
    by_cases hqueue : mentions s.pending.containerKey "/playQueues/" = true
    · rw [if_pos hqueue]
      have hpath : Carried (if mentions (String.ofList (upTo ['?'] s.pending.containerKey.toList))
          "own=" = true then String.ofList (upTo ['?'] s.pending.containerKey.toList)
          else String.ofList (upTo ['?'] s.pending.containerKey.toList) ++ "?own=1").toList ↔
          Carried (upTo ['?'] s.pending.containerKey.toList) := by
        split
        · rw [String.toList_ofList]
        · rw [String.toList_append,String.toList_ofList]
          exact carried_between _ hnone hrest
      rw [hpath]
      exact ⟨fun h => ⟨fun hne => absurd hid hne,fun _ _ => h⟩,fun h => h.2 hid hqueue⟩
    · rw [if_neg hqueue]
      exact iff_of_true (by decide) ⟨fun hne => absurd hid hne,fun _ hq => absurd hq hqueue⟩
  · rw [if_pos hid,String.toList_append,String.toList_append,carried_between _ hfront hrest]
    exact ⟨fun h => ⟨fun _ => h,fun hnil => absurd hnil hid⟩,fun h => h.1 hid⟩

theorem State.carried_media {s : State} {machineId : String} (h : Carried machineId.toList) :
    (∀ a∈(s.reportedMedia machineId).attributes, Carried a.value) ↔ s.MediaCarried := by
  have hprovider : Carried "com.plexapp.plugins.library".toList := by decide
  have hone : Carried "1".toList := by decide
  have hserver : (∀ a∈[quoted "machineIdentifier" (s.reportedMedia machineId).machineIdentifier],
      Carried a.value) ↔ Carried s.server.machineId.toList :=
    carried_one.trans ((carried_orElse h).trans carried_of_nonempty)
  have hendpoint : (∀ a∈(s.reportedMedia machineId).endpointAttributes, Carried a.value) ↔
      (s.server.host ≠ "" → Carried s.server.proto.toList ∧ Carried s.server.host.toList ∧
        Carried s.server.port.toList) := by
    rw [TimelineMedia.endpointAttributes]
    by_cases hhost : s.server.host = ""
    · have hnone : (s.reportedMedia machineId).endpoint=none := if_pos hhost
      rw [hnone]
      exact iff_of_true (forall_mem_nil _) fun hne => absurd hhost hne
    · have hsome : (s.reportedMedia machineId).endpoint =
          some (s.server.proto,s.server.host,s.server.port) := if_neg hhost
      rw [hsome]
      rw [forall_mem_cons,forall_mem_cons,carried_one]
      exact ⟨fun hall _ => hall,fun hall => hall hhost⟩
  have htitle : (∀ a∈[bare "providerIdentifier" "com.plexapp.plugins.library".toList,
      quoted "key" (s.reportedMedia machineId).pending.key], Carried a.value) ↔
      Carried s.pending.key.toList := by
    rw [forall_mem_cons,carried_one]
    exact and_iff_right hprovider
  have hversion : s.pending.playQueueId ≠ "" →
      (Carried (s.reportedMedia machineId).pending.playQueueVersion.toList ↔
        Carried s.pending.playQueueVersion.toList) := by
    intro hid
    have hshown : (s.reportedMedia machineId).pending.playQueueVersion =
        orElse s.pending.playQueueVersion "1" := if_neg hid
    rw [hshown]
    exact (carried_orElse hone).trans carried_of_nonempty
  have hqueue : (∀ a ∈ if (s.reportedMedia machineId).pending.playQueueId ≠ "" then
      [quoted "playQueueID" (s.reportedMedia machineId).pending.playQueueId,
        quoted "playQueueVersion" (s.reportedMedia machineId).pending.playQueueVersion]
      else [], Carried a.value) ↔ (s.pending.playQueueId ≠ "" →
        Carried s.pending.playQueueId.toList ∧ Carried s.pending.playQueueVersion.toList) := by
    rw [carried_optional]
    refine forall_congr' fun hid => ?_
    rw [forall_mem_cons,carried_one]
    exact and_congr Iff.rfl (hversion hid)
  have hcontainer : (∀ a ∈ if (s.reportedMedia machineId).containerKey ≠ "" then
      [quoted "containerKey" (s.reportedMedia machineId).containerKey] else [],
      Carried a.value) ↔ (s.container ≠ "" → Carried s.container.toList) := by
    rw [carried_optional]
    exact forall_congr' fun _ => carried_one
  have hrating : (∀ a ∈ if (s.reportedMedia machineId).pending.ratingKey ≠ "" then
      [quoted "ratingKey" (s.reportedMedia machineId).pending.ratingKey] else [],
      Carried a.value) ↔ Carried s.pending.ratingKey.toList := by
    rw [carried_optional]
    exact (forall_congr' fun _ => carried_one).trans carried_of_nonempty
  have hitem : (∀ a ∈ if (s.reportedMedia machineId).pending.playQueueItemId ≠ "" then
      [quoted "playQueueItemID" (s.reportedMedia machineId).pending.playQueueItemId] else [],
      Carried a.value) ↔ Carried s.pending.playQueueItemId.toList := by
    rw [carried_optional]
    exact (forall_congr' fun _ => carried_one).trans carried_of_nonempty
  rw [TimelineMedia.attributes,forall_mem_append,forall_mem_append,
    forall_mem_append,forall_mem_append,forall_mem_append,
    forall_mem_append,hserver,hendpoint,htitle,hcontainer,hrating,hqueue,hitem,
    s.carried_container]
  constructor
  · rintro ⟨⟨⟨⟨⟨⟨hs,he⟩,hk⟩,hid,hc⟩,hr⟩,hq⟩,hi⟩
    exact ⟨hs,he,hk,hc,hr,carried_of_nonempty.mp hid,fun hne => (hq hne).2,hi⟩
  · intro hm
    exact ⟨⟨⟨⟨⟨⟨hm.server,hm.endpoint⟩,hm.key⟩,fun _ => hm.playQueueId,hm.container⟩,
      hm.ratingKey⟩,fun hne => ⟨hm.playQueueId,hm.playQueueVersion hne⟩⟩,hm.playQueueItemId⟩

theorem carried_intText (n : ℤ) : Carried (intText n) := by
  refine ⟨legal_ascii fun c hc => ?_,(unmarked_intText n).2.2.2⟩
  have hdigits : ∀ d∈Nat.toDigits 10 n.natAbs, isAscii d=true := by
    intro d hd
    have hdigit := Nat.isDigit_of_mem_toDigits (by decide) (by decide) hd
    refine isAscii_of_isNameChar ?_
    rw [isNameChar,hdigit,Bool.or_true]
    rfl
  rw [intText] at hc
  split at hc
  case isTrue =>
    rcases mem_cons.mp hc with rfl | hc
    · decide
    · exact hdigits c hc
  case isFalse => exact hdigits c hc

open TimelineView

theorem carried_clock (v : TimelineView) :
    (∀ a∈v.clockAttributes, Carried a.value) ↔ Carried v.state.toList := by
  have htype : Carried "video".toList := by decide
  have hfront : ∀ c ∈ "0-".toList, isAscii c=true ∧ isBlank c=false := by
    decide
  have hnone : ∀ c∈([] : List Char), isAscii c=true ∧ isBlank c=false :=
    fun c hc => absurd hc not_mem_nil
  have hrange : Carried ("0-".toList ++ intText v.duration) := by
    have hbetween := (carried_between (intText v.duration) hfront hnone).mpr (carried_intText _)
    rwa [append_nil] at hbetween
  rw [clockAttributes,forall_mem_append,carried_optional,carried_one]
  simp only [forall_mem_cons]
  constructor
  · rintro ⟨⟨-,hstate,-⟩,-⟩
    exact hstate
  · intro hstate
    exact ⟨⟨htype,hstate,carried_intText _,carried_intText _,forall_mem_nil _⟩,
      fun _ => hrange⟩

theorem carried_player {v : TimelineView} (h : v.Located) :
    ∀ a∈v.playerAttributes, Carried a.value := by
  have hfixed : ∀ text∈["100","0","fullScreenVideo","navigation",videoCtrl],
      Carried text.toList := by
    decide
  have hlocation : Carried v.location.toList := by
    rcases h with h | h
    · rw [h]
      exact hfixed _ (by decide)
    · rw [h]
      exact hfixed _ (by decide)
  rw [playerAttributes]
  simp only [forall_mem_cons]
  exact ⟨hfixed "100" (by decide),hfixed "0" (by decide),hfixed videoCtrl (by decide),hlocation,
    hfixed "0" (by decide),hfixed "0" (by decide),forall_mem_nil _⟩

theorem State.carried_head (machineId commandId : String) :
    (∀ a∈(s.timelineXml machineId commandId).containerAttributes machineId, Carried a.value) ↔
      Carried machineId.toList ∧ Carried commandId.toList := by
  have hone : Carried "1".toList := by decide
  have hzero : Carried "0".toList := by decide
  rw [containerAttributes]
  simp only [forall_mem_cons]
  constructor
  · rintro ⟨hmachine,-,hcommand,-⟩
    exact ⟨hmachine,carried_of_nonempty.mp ((carried_orElse hzero).mp hcommand)⟩
  · rintro ⟨hmachine,hcommand⟩
    exact ⟨hmachine,hone,(carried_orElse hzero).mpr (carried_of_nonempty.mpr hcommand),
      forall_mem_nil _⟩

/-- The attributes of a timeline are carried, and the state has no signs of markup, exactly if
this is so of the fields that are written. -/
theorem State.carried_iff (machineId commandId : String) :
    ((∀ a∈(s.timelineXml machineId commandId).containerAttributes machineId, Carried a.value) ∧
      (∀ a∈(s.timelineXml machineId commandId).timelineAttributes machineId,
        Carried a.value) ∧ Unmarked (s.timelineXml machineId commandId).state.toList) ↔
      s.AllCarried machineId commandId := by
  rw [s.carried_head,timelineAttributes,forall_mem_append,
    forall_mem_append,carried_clock]
  have hplayer := carried_player (s.located machineId commandId)
  have hstate := s.carried_state machineId commandId
  have hmedia : Carried machineId.toList →
      ((∀ a∈(s.timelineXml machineId commandId).mediaAttributes machineId, Carried a.value) ↔
        (s.wantPlay=true → s.pending.key ≠ "" → s.MediaCarried)) := by
    intro hmachine
    rw [mediaAttributes,s.media_eq]
    by_cases htitle : s.wantPlay=true ∧ s.pending.key ≠ ""
    · rw [if_pos htitle]
      exact (s.carried_media hmachine).trans
        ⟨fun hm _ _ => hm,fun hm => hm htitle.1 htitle.2⟩
    · rw [if_neg htitle]
      exact iff_of_true (carried_one.mpr hmachine) fun hwant hkey => absurd ⟨hwant,hkey⟩ htitle
  constructor
  · rintro ⟨⟨hmachine,hcommand⟩,⟨⟨hclock,-⟩,hm⟩,hunmarked⟩
    exact ⟨hmachine,hcommand,hstate.mp ⟨hclock,hunmarked⟩,(hmedia hmachine).mp hm⟩
  · intro h
    obtain ⟨hclock,hunmarked⟩ := hstate.mpr h.state
    exact ⟨⟨h.machineId,h.commandId⟩,⟨⟨hclock,hplayer⟩,(hmedia h.machineId).mpr h.media⟩,
      hunmarked⟩

/-- The document of a timeline is read as one container with one timeline and every field in its
attribute exactly if all fields that are written can be carried. -/
theorem timelineXml_read_iff (s : State) (machineId commandId : String) :
    Xml.read ((s.timelineXml machineId commandId).document machineId) =
        some ((s.timelineXml machineId commandId).meant machineId) ↔
      s.AllCarried machineId commandId := by
  have hloc := s.located machineId commandId
  rw [← s.carried_iff]
  exact ⟨carried_of_read hloc,fun h => read_of_carried hloc h.1 h.2.1 h.2.2⟩

/-- A session whose title has a line end in its key. -/
def lineEndKey : State :=
  { State.initial with
    state := "playing"
    wantPlay := true
    pending := { Pending.none with key := "/library\n1" } }

/-- A line end in a key is read back as a space. -/
theorem not_timelineXml_read :
    ¬∀ (s : State) (machineId commandId : String),
      Xml.read ((s.timelineXml machineId commandId).document machineId) =
        some ((s.timelineXml machineId commandId).meant machineId) := by
  intro h
  have hkey := h lineEndKey "m" "1"
  revert hkey
  decide +kernel

end Misterplex.Companion
