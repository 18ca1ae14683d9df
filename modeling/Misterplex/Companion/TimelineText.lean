import Misterplex.Companion.Timeline
import Misterplex.Lib.Xml
import Misterplex.Plex.Universal

/-!
# The spelling of a timeline

A timeline is written as a document of one container with one timeline, attribute
by attribute. Names and keys come from requests and are escaped; the name of the
playback state is written as it is. A reader of the document gets every field back
as long as the fields hold text that a document can carry in an attribute.
-/

namespace Misterplex.Companion

open Plex (intText)

/-- One character of a value, escaped. -/
def xmlEscChar (c : Char) : List Char :=
  if c = '&' then "&amp;".toList
  else if c = '<' then "&lt;".toList
  else if c = '>' then "&gt;".toList
  else if c = '"' then "&quot;".toList
  else [c]

/-- A value, escaped. -/
def xmlEsc (s : String) : List Char := s.toList.flatMap xmlEscChar

/-- An attribute with an escaped value. -/
def quoted (name value : String) : Xml.Attribute := ⟨name.toList,xmlEsc value,value.toList⟩

/-- An attribute with a value that is written as it is. -/
def bare (name : String) (text : List Char) : Xml.Attribute := ⟨name.toList,text,text⟩

/-- What controllers may do. -/
def videoCtrl : String :=
  "playPause,stop,volume,audioStream,subtitleStream,seekTo,skipPrevious,skipNext," ++
    "stepBack,stepForward"

variable (v : TimelineView)

/-- The attributes of the container up to the location. -/
def TimelineView.containerAttributes (machineId : String) : List Xml.Attribute :=
  [quoted "machineIdentifier" machineId,bare "size" "1".toList,quoted "commandID" v.commandId]

/-- The attributes that say what plays and where. -/
def TimelineView.clockAttributes : List Xml.Attribute :=
  [bare "type" "video".toList,bare "state" v.state.toList,bare "time" (intText v.time),
    bare "duration" (intText v.duration)] ++
  if 0 < v.duration then [bare "seekRange" ("0-".toList ++ intText v.duration)] else []

/-- The attributes that describe the player. -/
def TimelineView.playerAttributes : List Xml.Attribute :=
  [bare "volume" "100".toList,bare "mute" "0".toList,bare "controllable" videoCtrl.toList,
    bare "location" v.location.toList,bare "mediaIndex" "0".toList,bare "partIndex" "0".toList]

/-- The attributes of the way to the server, when it is known. -/
def TimelineMedia.endpointAttributes (m : TimelineMedia) : List Xml.Attribute :=
  match m.endpoint with
  | some (protocol,address,port) =>
    [quoted "protocol" protocol,quoted "address" address,quoted "port" port]
  | none => []

/-- The attributes that name the title and its server. -/
def TimelineMedia.attributes (m : TimelineMedia) : List Xml.Attribute :=
  [quoted "machineIdentifier" m.machineIdentifier] ++ m.endpointAttributes ++
  [bare "providerIdentifier" "com.plexapp.plugins.library".toList,
    quoted "key" m.pending.key] ++
  (if m.containerKey ≠ "" then [quoted "containerKey" m.containerKey] else []) ++
  (if m.pending.ratingKey ≠ "" then [quoted "ratingKey" m.pending.ratingKey] else []) ++
  (if m.pending.playQueueId ≠ "" then
    [quoted "playQueueID" m.pending.playQueueId,
      quoted "playQueueVersion" m.pending.playQueueVersion]
    else []) ++
  (if m.pending.playQueueItemId ≠ "" then [quoted "playQueueItemID" m.pending.playQueueItemId]
    else [])

/-- The attributes of the media, or the player alone. -/
def TimelineView.mediaAttributes (machineId : String) : List Xml.Attribute :=
  match v.media with
  | some m => m.attributes
  | none => [quoted "machineIdentifier" machineId]

/-- All attributes of the video timeline. -/
def TimelineView.timelineAttributes (machineId : String) : List Xml.Attribute :=
  v.clockAttributes ++ v.playerAttributes ++ v.mediaAttributes machineId

/-- The whole timeline document. -/
def TimelineView.document (machineId : String) : List Char :=
  Xml.declaration ++
  ("<MediaContainer ".toList ++
  (((v.containerAttributes machineId).flatMap fun a => a.spelled ++ [' ']) ++
  ((bare "location" v.location.toList).spelled ++
  (">".toList ++
  ("<Timeline ".toList ++
  (((v.timelineAttributes machineId).flatMap fun a => a.spelled ++ [' ']) ++
  "/></MediaContainer>".toList))))))

/-- What the document of a timeline is meant to say. -/
def TimelineView.meant (machineId : String) : List Xml.Event :=
  .start "MediaContainer".toList ::
    ((v.containerAttributes machineId).map Xml.Attribute.event ++
    ((bare "location" v.location.toList).event ::
    (.start "Timeline".toList ::
    ((v.timelineAttributes machineId).map Xml.Attribute.event ++
    [.stop "Timeline".toList,.stop "MediaContainer".toList]))))

/-- A text that an attribute of a document carries: legal, without line ends and tabs. -/
def Carried (text : List Char) : Prop :=
  Xml.legal text=true ∧ ∀ c∈text, Xml.isBlank c=true → c = ' '

theorem xmlEscChar_cases (c : Char) :
    (c = '&' ∨ c = '<' ∨ c = '>' ∨ c = '"') ∨
      (c ≠ '&' ∧ c ≠ '<' ∧ c ≠ '>' ∧ c ≠ '"' ∧ xmlEscChar c=[c]) := by
  by_cases hamp : c = '&'
  · exact Or.inl (Or.inl hamp)
  · by_cases hless : c = '<'
    · exact Or.inl (Or.inr (Or.inl hless))
    · by_cases hmore : c = '>'
      · exact Or.inl (Or.inr (Or.inr (Or.inl hmore)))
      · by_cases hquote : c = '"'
        · exact Or.inl (Or.inr (Or.inr (Or.inr hquote)))
        · refine Or.inr ⟨hamp,hless,hmore,hquote,?_⟩
          rw [xmlEscChar,if_neg hamp,if_neg hless,if_neg hmore,if_neg hquote]

theorem unescape_xmlEsc {text : List Char} (h : ∀ c∈text, Xml.isBlank c=true → c = ' ') :
    Xml.unescape (text.flatMap xmlEscChar)=some text := by
  induction text with
  | nil => rfl
  | cons c text ih =>
    have hrest := ih fun d hd => h d (List.mem_cons_of_mem c hd)
    have hflat := h c List.mem_cons_self
    rw [List.flatMap_cons]
    rcases xmlEscChar_cases c with (rfl | rfl | rfl | rfl) | ⟨hamp,-,-,-,hself⟩
    · exact congrArg (Option.map ('&' :: ·)) hrest
    · exact congrArg (Option.map ('<' :: ·)) hrest
    · exact congrArg (Option.map ('>' :: ·)) hrest
    · exact congrArg (Option.map ('"' :: ·)) hrest
    · have hret : c ≠ '\r' := by
        rintro rfl
        have hspace := hflat rfl
        revert hspace
        decide
      have hkept : (if Xml.isBlank c then ' ' else c)=c := by
        split
        case isTrue hblank => exact (hflat hblank).symm
        case isFalse => rfl
      rw [hself,List.singleton_append,Xml.unescape_cons hamp hret,hrest,hkept]
      rfl

theorem not_mem_xmlEsc (text : List Char) :
    '"' ∉ text.flatMap xmlEscChar ∧ '<' ∉ text.flatMap xmlEscChar := by
  have hchar : ∀ c : Char, '"' ∉ xmlEscChar c ∧ '<' ∉ xmlEscChar c := by
    intro c
    rcases xmlEscChar_cases c with (rfl | rfl | rfl | rfl) | ⟨-,hless,-,hquote,hself⟩
    · decide
    · decide
    · decide
    · decide
    · rw [hself]
      exact ⟨fun hmem => hquote (List.mem_singleton.mp hmem).symm,
        fun hmem => hless (List.mem_singleton.mp hmem).symm⟩
  constructor
  · intro hmem
    obtain ⟨c,-,hc⟩ := List.mem_flatMap.mp hmem
    exact (hchar c).1 hc
  · intro hmem
    obtain ⟨c,-,hc⟩ := List.mem_flatMap.mp hmem
    exact (hchar c).2 hc

theorem legal_xmlEsc (text : List Char) :
    Xml.legal (text.flatMap xmlEscChar)=Xml.legal text := by
  have hrun : ∀ d : Xml.Decoder, d.Proper →
      d.run (text.flatMap xmlEscChar)=d.run text := by
    induction text with
    | nil => exact fun d _ => rfl
    | cons c text ih =>
      intro d hd
      have hmarked : ∀ e∈['&','<','>','"'],
          (∀ b∈xmlEscChar e, Xml.isAscii b=true) ∧ Xml.isAscii e=true ∧
          (xmlEscChar e).head?=some '&' := by
        decide
      have hsame : d.run (xmlEscChar c)=d.run [c] := by
        rcases xmlEscChar_cases c with hc | ⟨-,-,-,-,hself⟩
        · obtain ⟨hall,hone,hfirst⟩ := hmarked c (by simpa using hc)
          obtain ⟨tail,htail⟩ := List.head?_eq_some_iff.mp hfirst
          rw [htail] at hall ⊢
          have hself : ∀ b∈[c], Xml.isAscii b=true := fun b hb =>
            (List.mem_singleton.mp hb).symm ▸ hone
          rw [Xml.run_ascii hd hall,Xml.run_ascii hd hself]
        · rw [hself]
      have hcons : c::text = [c] ++ text := rfl
      rw [List.flatMap_cons,Xml.run_append,hsame,hcons,Xml.run_append]
      cases hnext : d.run [c] with
      | none => rfl
      | some d' => exact ih d' (Xml.Proper.run hd hnext)
  rw [Xml.legal,Xml.legal,hrun _ fun _ => rfl]

theorem isName_of_alpha {name : List Char} (hne : name≠[])
    (h : ∀ c∈name, Xml.isNameStart c=true) : Xml.IsName name := by
  cases name with
  | nil => exact absurd rfl hne
  | cons c rest =>
    refine ⟨c,rest,rfl,h c List.mem_cons_self,fun d hd => ?_⟩
    rw [Xml.isNameChar,h d (List.mem_cons_of_mem c hd)]
    rfl

theorem reads_quoted {name value : String} (hname : Xml.IsName name.toList)
    (h : Carried value.toList) : (quoted name value).Reads :=
  ⟨hname,(not_mem_xmlEsc _).1,(not_mem_xmlEsc _).2,unescape_xmlEsc h.2⟩

/-- A bare attribute is read back. -/
theorem reads_bare {name : String} {text : List Char} (hname : Xml.IsName name.toList)
    (hquote : '"' ∉ text) (hbracket : '<' ∉ text) (hamp : '&' ∉ text)
    (h : ∀ c∈text, Xml.isBlank c=true → c = ' ') : (bare name text).Reads :=
  ⟨hname,hquote,hbracket,Xml.unescape_plain hamp h⟩

/-- A text without signs of markup, line ends and tabs. -/
def Unmarked (text : List Char) : Prop :=
  '"' ∉ text ∧ '<' ∉ text ∧ '&' ∉ text ∧ ∀ c∈text, Xml.isBlank c=true → c = ' '

instance (text : List Char) : Decidable (Unmarked text) :=
  inferInstanceAs (Decidable (_ ∧ _ ∧ _ ∧ _))

/-- An attribute is read back if its value is carried. -/
def ReadsCarried (a : Xml.Attribute) : Prop :=
  Xml.IsName a.name ∧ Xml.legal a.raw=Xml.legal a.value ∧ (Carried a.value → a.Reads)

theorem readsCarried_quoted {name : String} (value : String) (hne : name.toList≠[])
    (hname : ∀ c∈name.toList, Xml.isNameStart c=true) : ReadsCarried (quoted name value) :=
  ⟨isName_of_alpha hne hname,legal_xmlEsc _,reads_quoted (isName_of_alpha hne hname)⟩

theorem readsCarried_bare {name : String} {text : List Char} (hne : name.toList≠[])
    (hname : ∀ c∈name.toList, Xml.isNameStart c=true) (h : Unmarked text) :
    ReadsCarried (bare name text) :=
  ⟨isName_of_alpha hne hname,rfl,fun _ =>
    reads_bare (isName_of_alpha hne hname) h.1 h.2.1 h.2.2.1 h.2.2.2⟩

theorem unmarked_intText (n : ℤ) : Unmarked (intText n) := by
  have hplain := Plex.intText_plain n
  have hother : ∀ c : Char, Plex.isUnreserved c=false → c ∉ intText n := fun c hc hmem => by
    rw [hplain c hmem] at hc
    cases hc
  refine ⟨hother '"' (by decide),hother '<' (by decide),hother '&' (by decide),
    fun c hc hblank => ?_⟩
  simp only [Xml.isBlank,Bool.or_eq_true,beq_iff_eq] at hblank
  rcases hblank with ((rfl | rfl) | rfl) | rfl
  · rfl
  · exact absurd hc (hother '\t' (by decide))
  · exact absurd hc (hother '\n' (by decide))
  · exact absurd hc (hother '\r' (by decide))

theorem Unmarked.append {front rest : List Char} (h : Unmarked front) (h' : Unmarked rest) :
    Unmarked (front ++ rest) := by
  refine ⟨List.not_mem_append h.1 h'.1,List.not_mem_append h.2.1 h'.2.1,
    List.not_mem_append h.2.2.1 h'.2.2.1,fun c hc => ?_⟩
  rcases List.mem_append.mp hc with hc | hc
  · exact h.2.2.2 c hc
  · exact h'.2.2.2 c hc

/-- Where the player is: one of two names. -/
def TimelineView.Located : Prop :=
  v.location = "fullScreenVideo" ∨ v.location = "navigation"

theorem TimelineView.Located.unmarked {v : TimelineView} (h : v.Located) :
    Unmarked v.location.toList := by
  rcases h with h | h
  · rw [h]
    decide
  · rw [h]
    decide

/-- Every attribute of a list is read back if its value is carried. -/
def AllReadCarried (attributes : List Xml.Attribute) : Prop := ∀ a∈attributes, ReadsCarried a

theorem AllReadCarried.append {front rest : List Xml.Attribute} (h : AllReadCarried front)
    (h' : AllReadCarried rest) : AllReadCarried (front ++ rest) :=
  List.forall_mem_append.mpr ⟨h,h'⟩

/-- Attributes are read one by one. -/
theorem AllReadCarried.cons {a : Xml.Attribute} {rest : List Xml.Attribute} (h : ReadsCarried a)
    (h' : AllReadCarried rest) : AllReadCarried (a::rest) :=
  List.forall_mem_cons.mpr ⟨h,h'⟩

theorem AllReadCarried.nil : AllReadCarried [] := List.forall_mem_nil _

theorem AllReadCarried.optional {p : Prop} [Decidable p] {attributes : List Xml.Attribute}
    (h : AllReadCarried attributes) : AllReadCarried (if p then attributes else []) := by
  split
  case isTrue => exact h
  case isFalse => exact nil

theorem readsCarried_container (machineId : String) :
    AllReadCarried (v.containerAttributes machineId) := by
  have hsize : Unmarked "1".toList := by decide
  exact .cons (readsCarried_quoted _ (by decide) (by decide))
    (.cons (readsCarried_bare (by decide) (by decide) hsize)
      (.cons (readsCarried_quoted _ (by decide) (by decide)) .nil))

theorem readsCarried_clock {v : TimelineView} (h : Unmarked v.state.toList) :
    AllReadCarried v.clockAttributes := by
  have htype : Unmarked "video".toList := by decide
  have hrange : Unmarked "0-".toList := by decide
  refine AllReadCarried.append ?_ (AllReadCarried.optional ?_)
  · exact .cons (readsCarried_bare (by decide) (by decide) htype)
      (.cons (readsCarried_bare (by decide) (by decide) h)
        (.cons (readsCarried_bare (by decide) (by decide) (unmarked_intText _))
          (.cons (readsCarried_bare (by decide) (by decide) (unmarked_intText _)) .nil)))
  · exact .cons (readsCarried_bare (by decide) (by decide) (hrange.append (unmarked_intText _)))
      .nil

theorem readsCarried_player {v : TimelineView} (h : v.Located) :
    AllReadCarried v.playerAttributes := by
  have hvolume : Unmarked "100".toList := by decide
  have hzero : Unmarked "0".toList := by decide
  have hcontrols : Unmarked videoCtrl.toList := by decide
  exact .cons (readsCarried_bare (by decide) (by decide) hvolume)
    (.cons (readsCarried_bare (by decide) (by decide) hzero)
      (.cons (readsCarried_bare (by decide) (by decide) hcontrols)
        (.cons (readsCarried_bare (by decide) (by decide) h.unmarked)
          (.cons (readsCarried_bare (by decide) (by decide) hzero)
            (.cons (readsCarried_bare (by decide) (by decide) hzero) .nil)))))

theorem readsCarried_media (machineId : String) : AllReadCarried (v.mediaAttributes machineId) := by
  have hprovider : Unmarked "com.plexapp.plugins.library".toList := by decide
  rw [TimelineView.mediaAttributes]
  split
  case h_2 => exact .cons (readsCarried_quoted _ (by decide) (by decide)) .nil
  case h_1 m _ =>
    have hserver : AllReadCarried m.endpointAttributes := by
      rw [TimelineMedia.endpointAttributes]
      split
      · exact .cons (readsCarried_quoted _ (by decide) (by decide))
          (.cons (readsCarried_quoted _ (by decide) (by decide))
            (.cons (readsCarried_quoted _ (by decide) (by decide)) .nil))
      · exact .nil
    have hmachine : AllReadCarried [quoted "machineIdentifier" m.machineIdentifier] :=
      .cons (readsCarried_quoted _ (by decide) (by decide)) .nil
    have hkey : AllReadCarried [bare "providerIdentifier" "com.plexapp.plugins.library".toList,
        quoted "key" m.pending.key] :=
      .cons (readsCarried_bare (by decide) (by decide) hprovider)
        (.cons (readsCarried_quoted _ (by decide) (by decide)) .nil)
    have hqueue : AllReadCarried [quoted "playQueueID" m.pending.playQueueId,
        quoted "playQueueVersion" m.pending.playQueueVersion] :=
      .cons (readsCarried_quoted _ (by decide) (by decide))
        (.cons (readsCarried_quoted _ (by decide) (by decide)) .nil)
    rw [TimelineMedia.attributes]
    exact (((((hmachine.append hserver).append hkey).append
      (.optional (.cons (readsCarried_quoted _ (by decide) (by decide)) .nil))).append
      (.optional (.cons (readsCarried_quoted _ (by decide) (by decide)) .nil))).append
      (.optional hqueue)).append
      (.optional (.cons (readsCarried_quoted _ (by decide) (by decide)) .nil))

theorem readsCarried_timeline {v : TimelineView} (hstate : Unmarked v.state.toList)
    (hloc : v.Located) (machineId : String) :
    AllReadCarried (v.timelineAttributes machineId) :=
  ((readsCarried_clock hstate).append (readsCarried_player hloc)).append
    (readsCarried_media v machineId)

/-- All names of attributes that a timeline may have, in order. -/
def timelineNames : List (List Char) :=
  ["type","state","time","duration","seekRange","volume","mute","controllable","location",
    "mediaIndex","partIndex","machineIdentifier","protocol","address","port",
    "providerIdentifier","key","containerKey","ratingKey","playQueueID","playQueueVersion",
    "playQueueItemID"].map String.toList

theorem names_optional {p : Prop} [Decidable p] (attributes : List Xml.Attribute) :
    ((if p then attributes else []).map Xml.Attribute.name).Sublist
      (attributes.map Xml.Attribute.name) := by
  split
  case isTrue => exact List.Sublist.refl _
  case isFalse => exact List.nil_sublist _

theorem names_sublist (machineId : String) :
    ((v.timelineAttributes machineId).map Xml.Attribute.name).Sublist timelineNames := by
  have hclock : (v.clockAttributes.map Xml.Attribute.name).Sublist
      (["type","state","time","duration","seekRange"].map String.toList) := by
    rw [TimelineView.clockAttributes,List.map_append]
    exact (List.Sublist.refl _).append (names_optional _)
  have hmedia : ((v.mediaAttributes machineId).map Xml.Attribute.name).Sublist
      (["machineIdentifier","protocol","address","port","providerIdentifier","key",
        "containerKey","ratingKey","playQueueID","playQueueVersion",
        "playQueueItemID"].map String.toList) := by
    rw [TimelineView.mediaAttributes]
    split
    case h_2 => exact List.singleton_sublist.mpr List.mem_cons_self
    case h_1 m _ =>
      have hserver : (m.endpointAttributes.map Xml.Attribute.name).Sublist
          (["protocol","address","port"].map String.toList) := by
        rw [TimelineMedia.endpointAttributes]
        split
        · exact List.Sublist.refl _
        · exact List.nil_sublist _
      rw [TimelineMedia.attributes]
      simp only [List.map_append]
      exact ((((((List.Sublist.refl _).append hserver).append (List.Sublist.refl _)).append
        (names_optional _)).append (names_optional _)).append (names_optional _)).append
        (names_optional _)
  rw [TimelineView.timelineAttributes,List.map_append,List.map_append]
  exact (hclock.append (List.Sublist.refl _)).append hmedia

theorem names_nodup (machineId : String) :
    ((v.timelineAttributes machineId).map Xml.Attribute.name).Nodup := by
  have hdistinct : timelineNames.Nodup := by decide
  exact hdistinct.sublist (names_sublist v machineId)

theorem names_ascii (machineId : String) :
    ∀ a∈v.timelineAttributes machineId, ∀ c∈a.name, Xml.isAscii c=true := by
  have hall : ∀ n∈timelineNames, ∀ c∈n, Xml.isAscii c=true := by decide
  intro a ha
  exact hall a.name ((names_sublist v machineId).subset (List.mem_map_of_mem ha))

/-- The document up to the attributes of the timeline. -/
def TimelineView.opening (machineId : String) : List Char :=
  "<MediaContainer ".toList ++
  (((v.containerAttributes machineId).flatMap fun a => a.spelled ++ [' ']) ++
  ((bare "location" v.location.toList).spelled ++ (">".toList ++ "<Timeline ".toList)))

/-- The document of an idle companion begins so. -/
example : (State.initial.timelineXml "m" "7").opening "m" =
    "<MediaContainer machineIdentifier=\"m\" size=\"1\" commandID=\"7\" ".toList ++
      "location=\"navigation\"><Timeline ".toList := by
  decide

/-- What is read up to the attributes of the timeline. -/
def TimelineView.opened (machineId : String) : List Xml.Event :=
  .start "MediaContainer".toList ::
    ((v.containerAttributes machineId).map Xml.Attribute.event ++
    [(bare "location" v.location.toList).event,.start "Timeline".toList])

/-- The timeline is open. -/
def TimelineView.inTimeline (machineId : String) : Xml.Reader :=
  ⟨.ready,["Timeline".toList,"MediaContainer".toList],[],v.opened machineId⟩

theorem append_opening (a b c d e f g h : List Char) :
    a ++ (b ++ (c ++ (d ++ (e ++ (f ++ (g ++ h)))))) =
      a ++ ((b ++ (c ++ (d ++ (e ++ f)))) ++ (g ++ h)) := by
  simp only [List.append_assoc]

theorem document_eq (machineId : String) :
    v.document machineId = Xml.declaration ++ (v.opening machineId ++
      (((v.timelineAttributes machineId).flatMap fun a => a.spelled ++ [' ']) ++
      "/></MediaContainer>".toList)) :=
  append_opening _ _ _ _ _ _ _ _

theorem run_container : Xml.Reader.initial.run "<MediaContainer ".toList =
    some ⟨.ready,["MediaContainer".toList],[],[.start "MediaContainer".toList]⟩ := by
  decide

/-- The end of the start of the container and the start of the timeline are read. -/
theorem run_timeline (names : List (List Char)) (events : List Xml.Event) :
    Xml.Reader.run ⟨.behind,["MediaContainer".toList],names,events⟩
        (">".toList ++ "<Timeline ".toList) =
      some ⟨.ready,["Timeline".toList,"MediaContainer".toList],[],
        events ++ [.start "Timeline".toList]⟩ := by
  have hname : Xml.IsName "Timeline".toList := isName_of_alpha (by decide) (by decide)
  have hopen : Xml.Reader.step ⟨.behind,["MediaContainer".toList],names,events⟩ '>' =
      some ⟨.content,["MediaContainer".toList],names,events⟩ := rfl
  have hstart := Xml.run_start ⟨.content,["MediaContainer".toList],names,events⟩ rfl
    (Or.inl (List.cons_ne_nil _ _)) hname
  have htext : ">".toList ++ "<Timeline ".toList = '>' :: ('<' :: "Timeline".toList ++ [' ']) := by
    decide
  rw [htext,Xml.read_cons_of hopen]
  exact hstart

theorem run_end (names : List (List Char)) (events : List Xml.Event) :
    Xml.Reader.run ⟨.ready,["Timeline".toList,"MediaContainer".toList],names,events⟩
        "/></MediaContainer>".toList =
      some ⟨.content,[],names,
        events ++ [.stop "Timeline".toList,.stop "MediaContainer".toList]⟩ := by
  have htext : "/></MediaContainer>".toList =
      ['/','>'] ++ ('<' :: '/' :: "MediaContainer".toList ++ ['>']) := by
    decide
  have hempty := @Xml.run_slash _
    ⟨.ready,["Timeline".toList,"MediaContainer".toList],names,events⟩ rfl _ rfl
  have hstop := @Xml.run_stop _ ⟨.content,["MediaContainer".toList],names,
    events ++ [.stop "Timeline".toList]⟩ rfl _ rfl (by decide)
  rw [htext,Xml.read_append_of hempty]
  refine hstop.trans ?_
  rw [List.append_assoc]
  rfl

theorem container_names (machineId : String) :
    (v.containerAttributes machineId).map Xml.Attribute.name =
      ["machineIdentifier","size","commandID"].map String.toList := rfl

variable {machineId : String}

/-- Reading the opening leaves the reader inside the timeline. -/
theorem run_opening {v : TimelineView} (hloc : v.Located)
    (hreads : ∀ a∈v.containerAttributes machineId, a.Reads) :
    Xml.Reader.initial.run (v.opening machineId)=some (v.inTimeline machineId) := by
  have hnames : ((v.containerAttributes machineId).map Xml.Attribute.name).Nodup := by
    rw [container_names]
    decide
  have hattributes := Xml.run_attributes
    ⟨.ready,["MediaContainer".toList],[],[.start "MediaContainer".toList]⟩ rfl hreads hnames
    fun _ _ => List.not_mem_nil
  have hlocation : (bare "location" v.location.toList).Reads :=
    reads_bare (isName_of_alpha (by decide) (by decide)) hloc.unmarked.1 hloc.unmarked.2.1
      hloc.unmarked.2.2.1 hloc.unmarked.2.2.2
  have hnew : "location".toList ∉
      ((v.containerAttributes machineId).map Xml.Attribute.name).reverse ++ [] := by
    rw [container_names]
    decide
  have hlast := Xml.run_attribute ⟨.ready,["MediaContainer".toList],
    ((v.containerAttributes machineId).map Xml.Attribute.name).reverse ++ [],
    [.start "MediaContainer".toList] ++
      (v.containerAttributes machineId).map Xml.Attribute.event⟩ rfl hlocation hnew
  have hrest := run_timeline ("location".toList ::
      (((v.containerAttributes machineId).map Xml.Attribute.name).reverse ++ []))
    ([.start "MediaContainer".toList] ++
      (v.containerAttributes machineId).map Xml.Attribute.event ++
      [(bare "location" v.location.toList).event])
  have hevents : [.start "MediaContainer".toList] ++
      (v.containerAttributes machineId).map Xml.Attribute.event ++
      [(bare "location" v.location.toList).event] ++ [.start "Timeline".toList] =
      v.opened machineId := by
    simp only [List.append_assoc]
    rfl
  rw [hevents] at hrest
  refine (Xml.read_append_of run_container _).trans ?_
  refine (Xml.read_append_of hattributes _).trans ?_
  refine (Xml.read_append_of hlast _).trans ?_
  exact hrest

theorem legal_document {v : TimelineView} (hloc : v.Located) (machineId : String) :
    Xml.legal (v.document machineId) =
      (((v.containerAttributes machineId).all fun a => Xml.legal a.raw) &&
        (v.timelineAttributes machineId).all fun a => Xml.legal a.raw) := by
  have hdeclaration : ∀ c∈Xml.declaration, Xml.isAscii c=true := by decide
  have hfirst : ∀ c ∈ "<MediaContainer ".toList, Xml.isAscii c=true := by decide
  have hclose : ∀ c ∈ ">".toList, Xml.isAscii c=true := by decide
  have hsecond : ∀ c ∈ "<Timeline ".toList, Xml.isAscii c=true := by decide
  have hend : ∀ c ∈ "/></MediaContainer>".toList, Xml.isAscii c=true := by decide
  have hname : ∀ c∈(bare "location" v.location.toList).name, Xml.isAscii c=true := by
    show ∀ c ∈ "location".toList, Xml.isAscii c=true
    decide
  have hnames : ∀ a∈v.containerAttributes machineId, ∀ c∈a.name, Xml.isAscii c=true :=
    fun a ha => (readsCarried_container v machineId a ha).1.ascii
  have hlocation : Xml.legal (bare "location" v.location.toList).raw=true := by
    show Xml.legal v.location.toList=true
    rcases hloc with h | h
    · rw [h]
      decide
    · rw [h]
      decide
  refine (Xml.legal_append hdeclaration _).trans ?_
  refine (Xml.legal_append hfirst _).trans ?_
  refine (Xml.legal_attributes hnames _).trans ?_
  refine congrArg (((v.containerAttributes machineId).all fun a => Xml.legal a.raw) && ·) ?_
  refine (Xml.legal_spelled hname _).trans ?_
  rw [hlocation,Bool.true_and]
  refine (Xml.legal_append hclose _).trans ?_
  refine (Xml.legal_append hsecond _).trans ?_
  refine (Xml.legal_attributes (names_ascii v machineId) _).trans ?_
  rw [Xml.legal_ascii hend,Bool.and_true]

theorem meant_eq (machineId : String) : v.meant machineId = v.opened machineId ++
      ((v.timelineAttributes machineId).map Xml.Attribute.event ++
      [.stop "Timeline".toList,.stop "MediaContainer".toList]) := by
  rw [TimelineView.meant,TimelineView.opened]
  simp only [List.cons_append,List.append_assoc,List.nil_append]

/-- A document with carried values, and a state without signs of markup, is read as it is meant. -/
theorem read_of_carried {v : TimelineView} (hloc : v.Located)
    (hcontainer : ∀ a∈v.containerAttributes machineId, Carried a.value)
    (htimeline : ∀ a∈v.timelineAttributes machineId, Carried a.value)
    (hstate : Unmarked v.state.toList) :
    Xml.read (v.document machineId)=some (v.meant machineId) := by
  have hread := readsCarried_container v machineId
  have hread' := readsCarried_timeline hstate hloc machineId
  have hlegal : Xml.legal (v.document machineId)=true := by
    rw [legal_document hloc,Bool.and_eq_true,List.all_eq_true,List.all_eq_true]
    constructor
    · intro a ha
      rw [(hread a ha).2.1]
      exact (hcontainer a ha).1
    · intro a ha
      rw [(hread' a ha).2.1]
      exact (htimeline a ha).1
  have hopening := run_opening hloc fun a ha => (hread a ha).2.2 (hcontainer a ha)
  have hattributes := Xml.run_attributes (v.inTimeline machineId) rfl
    (fun a ha => (hread' a ha).2.2 (htimeline a ha)) (names_nodup v machineId)
    fun _ _ => List.not_mem_nil
  have hend := run_end (((v.timelineAttributes machineId).map Xml.Attribute.name).reverse ++ [])
    (v.opened machineId ++ (v.timelineAttributes machineId).map Xml.Attribute.event)
  rw [document_eq] at hlegal ⊢
  refine Xml.read_declared.mpr ⟨hlegal,List.cons_ne_nil _ _,
    ((v.timelineAttributes machineId).map Xml.Attribute.name).reverse ++ [],?_⟩
  refine (Xml.read_append_of hopening _).trans ?_
  refine (Xml.read_append_of hattributes _).trans ?_
  rw [meant_eq,← List.append_assoc]
  exact hend

theorem flat_of_read {v : TimelineView} {text names}
    (h : Xml.Reader.initial.run text=some ⟨.content,[],names,v.meant machineId⟩) :
    ∀ a ∈ v.containerAttributes machineId ++ v.timelineAttributes machineId,
      ∀ c∈a.value, Xml.isBlank c=true → c = ' ' := by
  obtain ⟨more,hmore,hflat⟩ := Xml.Grows.run h
  have hall : more=v.meant machineId := hmore.symm
  intro a ha
  refine hflat a.name a.value ?_
  rw [hall,meant_eq,TimelineView.opened]
  have hevent : a.event∈(v.containerAttributes machineId).map Xml.Attribute.event ∨
      a.event∈(v.timelineAttributes machineId).map Xml.Attribute.event :=
    (List.mem_append.mp ha).imp List.mem_map_of_mem List.mem_map_of_mem
  rcases hevent with hin | hin
  · exact List.mem_append_left _ (List.mem_cons_of_mem _ (List.mem_append_left _ hin))
  · exact List.mem_append_right _ (List.mem_append_left _ hin)

theorem timelineAttributes_eq (machineId : String) : ∃ rest, v.timelineAttributes machineId =
      bare "type" "video".toList::bare "state" v.state.toList::rest :=
  ⟨_,rfl⟩

theorem spelled_append (name : String) (text rest : List Char) :
    (bare name text).spelled ++ [' '] ++ rest =
      (name.toList ++ ['=','"']) ++ (text ++ '"' :: (' ' :: rest)) := by
  rw [bare,Xml.Attribute.spelled]
  simp only [List.append_assoc,List.cons_append,List.nil_append]

theorem run_type (machineId : String) (rest : List Char) :
    (v.inTimeline machineId).run ((bare "type" "video".toList).spelled ++ [' '] ++ rest) =
      Xml.Reader.run ⟨.ready,["Timeline".toList,"MediaContainer".toList],["type".toList],
        v.opened machineId ++ [(bare "type" "video".toList).event]⟩ rest := by
  have hvideo : Unmarked "video".toList := by decide
  have hreads : (bare "type" "video".toList).Reads :=
    reads_bare (isName_of_alpha (by decide) (by decide)) hvideo.1 hvideo.2.1 hvideo.2.2.1
      hvideo.2.2.2
  have htype := Xml.run_attribute (v.inTimeline machineId) rfl hreads List.not_mem_nil
  have hblank : (v.inTimeline machineId).run ((bare "type" "video".toList).spelled ++ [' ']) =
      some ⟨.ready,["Timeline".toList,"MediaContainer".toList],["type".toList],
        v.opened machineId ++ [(bare "type" "video".toList).event]⟩ :=
    (Xml.read_append_of htype _).trans rfl
  exact Xml.read_append_of hblank rest

theorem unmarked_of_run {v : TimelineView} {rest : List Xml.Attribute}
    {ending : List Char} {s : Xml.Reader} (hattributes : v.timelineAttributes machineId =
      bare "type" "video".toList::bare "state" v.state.toList::rest)
    (h : (v.inTimeline machineId).run
      (((v.timelineAttributes machineId).flatMap fun a => a.spelled ++ [' ']) ++ ending)=some s)
    (hread : s.events=v.meant machineId) :
    '"' ∉ v.state.toList ∧ '<' ∉ v.state.toList ∧ '&' ∉ v.state.toList := by
  have htext : ((v.timelineAttributes machineId).flatMap fun a => a.spelled ++ [' ']) ++ ending =
      (bare "type" "video".toList).spelled ++ [' '] ++
        (("state".toList ++ ['=','"']) ++ (v.state.toList ++ '"' :: (' ' ::
          ((rest.flatMap fun a => a.spelled ++ [' ']) ++ ending)))) := by
    rw [← spelled_append,hattributes,List.flatMap_cons,List.flatMap_cons]
    simp only [List.append_assoc]
  rw [htext,run_type] at h
  have hname : Xml.IsName "state".toList := isName_of_alpha (by decide) (by decide)
  have hnew : "state".toList ∉ ["type".toList] := by decide
  have hopening := Xml.run_opening
    ⟨.ready,["Timeline".toList,"MediaContainer".toList],["type".toList],
      v.opened machineId ++ [(bare "type" "video".toList).event]⟩ rfl hname hnew
  have hvalue := (Xml.read_append_of hopening _).symm.trans h
  refine Xml.value_exact hvalue ?_
  refine ⟨rest.map Xml.Attribute.event ++
    [.stop "Timeline".toList,.stop "MediaContainer".toList],?_⟩
  rw [hread,meant_eq,hattributes]
  simp only [List.map_cons,List.append_assoc,List.cons_append,List.nil_append]
  rfl

/-- A document that is read as it is meant has carried values, and a state without signs of
markup. -/
theorem carried_of_read {v : TimelineView} (hloc : v.Located)
    (h : Xml.read (v.document machineId)=some (v.meant machineId)) :
    (∀ a∈v.containerAttributes machineId, Carried a.value) ∧
      (∀ a∈v.timelineAttributes machineId, Carried a.value) ∧ Unmarked v.state.toList := by
  rw [document_eq] at h
  obtain ⟨hlegal,-,names,hrun⟩ := Xml.read_declared.mp h
  rw [← document_eq,legal_document hloc,Bool.and_eq_true,List.all_eq_true,
    List.all_eq_true] at hlegal
  have hflat := flat_of_read hrun
  have hread := readsCarried_container v machineId
  have hcontainer : ∀ a∈v.containerAttributes machineId, Carried a.value := fun a ha =>
    ⟨(hread a ha).2.1 ▸ hlegal.1 a ha,hflat a (List.mem_append_left _ ha)⟩
  have hopening := run_opening hloc fun a ha => (hread a ha).2.2 (hcontainer a ha)
  rw [Xml.read_append_of hopening] at hrun
  obtain ⟨rest,hrest⟩ := timelineAttributes_eq v machineId
  have hmem : bare "state" v.state.toList∈v.timelineAttributes machineId := by
    rw [hrest]
    exact List.mem_cons_of_mem _ List.mem_cons_self
  have hstate : Unmarked v.state.toList := by
    obtain ⟨hquote,hbracket,hamp⟩ := unmarked_of_run hrest hrun rfl
    exact ⟨hquote,hbracket,hamp,hflat _ (List.mem_append_right _ hmem)⟩
  have hread' := readsCarried_timeline hstate hloc machineId
  refine ⟨hcontainer,fun a ha => ⟨?_,hflat a (List.mem_append_right _ ha)⟩,hstate⟩
  rw [← (hread' a ha).2.1]
  exact hlegal.2 a ha

end Misterplex.Companion
