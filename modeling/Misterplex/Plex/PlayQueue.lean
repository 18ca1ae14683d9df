import Misterplex.Companion.Routing
import Misterplex.Lib.TextSearch
import Misterplex.Plex.Address

/-!
# The current item of a play queue

A play queue is fetched from the server and its items are read off the answer.
The current item is looked for by the requested item of the queue or by the key
that is being played. The tests are loose: identifiers are also looked for inside
of other ones.
-/

namespace Misterplex.Plex

open Misterplex.Companion (ratingKeyFromKey pctDecode atoll)
open Search List

/-- Query values are decoded as those of controllers are. -/
def urlDecode (s : List Char) : List Char := pctDecode s

/-- An item of a queue. -/
structure QueueItem where
  /-- The key of the title. -/
  key : List Char
  /-- Its rating key. -/
  ratingKey : List Char
  /-- Its id in the queue. -/
  playQueueItemId : List Char
  /-- Its title. -/
  title : List Char
  /-- Its duration. -/
  durationMs : ℤ

/-- A play queue that was asked for. -/
structure PlayQueue where
  /-- The answer was a queue with items. -/
  ok : Bool := false
  /-- What was found or what went wrong. -/
  detail : List Char := []
  /-- The id of the queue. -/
  playQueueId : List Char := []
  /-- Its version. -/
  playQueueVersion : List Char := []
  /-- The key it was fetched by. -/
  containerKey : List Char := []
  /-- The items in order. -/
  items : List QueueItem := []
  /-- The current item's index. -/
  currentIndex : ℕ := 0

/-- The text behind a pattern up to the next quotation mark, if both are there. -/
def quotedBehind (pat text : List Char) : Option (List Char) :=
  match find pat text 0 with
  | none => none
  | some p =>
    let p := p+pat.length
    match find ['"'] text p with
    | none => none
    | some e => some ((text.drop p).take (e-p))

/-- An attribute in a piece of the answer. -/
def attrIn (slice : List Char) (name : String) : List Char :=
  (quotedBehind (name.toList ++ ['=','"']) slice).getD []

/-- The item that is described in a piece of the answer. -/
def queueItem (slice : List Char) : QueueItem :=
  let itemId := attrIn slice "playQueueItemID"
  let duration := attrIn slice "duration"
  { key := attrIn slice "key"
    ratingKey := attrIn slice "ratingKey"
    playQueueItemId := if itemId.isEmpty then attrIn slice "playQueueItemId" else itemId
    title := attrIn slice "title"
    durationMs := if duration.isEmpty then 0 else atoll duration }

/-- The piece of the answer that describes the item at a position. -/
def itemSlice (xml : List Char) (pos tagEnd : ℕ) : List Char :=
  let end2 := find "</Video>".toList xml pos
  let sliceEnd := match find "/>".toList xml pos with
    | none => tagEnd
    | some endSlash => if endSlash < tagEnd+8 then endSlash else tagEnd
  let sliceEnd := match end2 with
    | none => sliceEnd
    | some end2 => max sliceEnd end2
  (xml.drop pos).take (min 4000 (sliceEnd-pos+8))

/-- The items that are described from a position on. -/
def videoItems (xml : List Char) (pos : ℕ) : List QueueItem :=
  match _hpos : find "<Video".toList xml pos with
  | none => []
  | some p =>
    match _hend : find ['>'] xml p with
    | none => []
    | some tagEnd =>
      let item := queueItem (itemSlice xml p tagEnd)
      let later := videoItems xml (tagEnd+1)
      if item.key.isEmpty then later else item::later
termination_by xml.length-pos
decreasing_by
  have hstart := find_bounds _hpos
  have hstop := find_bounds _hend
  have hlen : ['>'].length=1 := rfl
  omega

/-- The item of a queue that was asked for by its identifier, as the loop tests it. -/
def passesId (playQueueItemId : List Char) (item : QueueItem) : Bool :=
  item.playQueueItemId == playQueueItemId || item.ratingKey == playQueueItemId ||
    (find playQueueItemId item.key 0).isSome

/-- The item of a queue that is being played, as the loop tests it. -/
def passesKey (currentKey : List Char) (item : QueueItem) : Bool :=
  item.key == currentKey ||
    (!item.ratingKey.isEmpty && (find item.ratingKey currentKey 0).isSome)

/-- The index of the current item, by id or by key, else the first. -/
def currentIndexOf (items : List QueueItem) (currentKey playQueueItemId : List Char) : ℕ :=
  if !playQueueItemId.isEmpty then (items.findIdx? (passesId playQueueItemId)).getD 0
  else if !currentKey.isEmpty then (items.findIdx? (passesKey currentKey)).getD 0
  else 0

/-- The identifier of a queue in a reference to it, and the query that came with it. -/
def queueIdOf (queueIdOrContainerKey : List Char) : List Char × List Char :=
  let raw := urlDecode queueIdOrContainerKey
  let extraQuery := (raw.dropWhile (· != '?')).drop 1
  let raw := raw.takeWhile (· != '?')
  let id := (raw.reverse.takeWhile (· != '/')).reverse
  ((id.reverse.dropWhile (!·.isDigit)).reverse,extraQuery)

/-- The address a queue is fetched from. -/
def queueUrl (base id extraQuery token : List Char) : List Char :=
  base ++ "/playQueues/".toList ++ id ++ ['?'] ++
    (if !extraQuery.isEmpty then extraQuery ++ ['&'] else "own=1&".toList) ++
    if !token.isEmpty then
      "X-Plex-Token=".toList ++ (urlEncodeQuery (String.ofList token)).toList
    else []

/-- The queue that an answer describes. -/
def readPlayQueue (id xml currentKey playQueueItemId : List Char) : PlayQueue :=
  let q : PlayQueue :=
    { containerKey := "/playQueues/".toList ++ id
      playQueueId := (quotedBehind "playQueueID=\"".toList xml).getD id
      playQueueVersion := (quotedBehind "playQueueVersion=\"".toList xml).getD []
      items := videoItems xml 0 }
  if q.items.isEmpty then { q with detail := "play queue had no Video items".toList }
  else
    let index := currentIndexOf q.items currentKey playQueueItemId
    { q with
      currentIndex := index
      ok := true
      detail := "queue size=".toList ++ Nat.toDigits 10 q.items.length ++ " index=".toList ++
        Nat.toDigits 10 index }

/-- A queue, fetched through the given transfer. -/
def fetchPlayQueue (httpGet : List Char → ℕ → List Char)
    (queueIdOrContainerKey plexBase token currentKey playQueueItemId : List Char) : PlayQueue :=
  let (id,extraQuery) := queueIdOf queueIdOrContainerKey
  if id.isEmpty || !(id.headD ' ').isDigit then
    { detail := "empty/invalid play queue id from '".toList ++ queueIdOrContainerKey ++ ['\''] }
  else
    let base := (normalizePlexBase (String.ofList plexBase)).toList
    if base.isEmpty then { detail := "no PMS base for play queue".toList }
    else
      let xml := httpGet (queueUrl base id extraQuery token) 20
      if xml.isEmpty || (find "MediaContainer".toList xml 0).isNone then
        { detail := "play queue fetch failed id=".toList ++ id ++ " bytes=".toList ++
            Nat.toDigits 10 xml.length }
      else readPlayQueue id xml currentKey playQueueItemId

/-- The item that is asked for: by the identifier of the item if there is one, else by the
key that is being played or the rating key in it. -/
def isWanted (currentKey playQueueItemId : List Char) (item : QueueItem) : Bool :=
  if !playQueueItemId.isEmpty then item.playQueueItemId == playQueueItemId
  else item.key == currentKey ||
    (!item.ratingKey.isEmpty && item.ratingKey == ratingKeyFromKey currentKey)

/-- The test of the loop that is run. -/
def passes (currentKey playQueueItemId : List Char) (item : QueueItem) : Bool :=
  if !playQueueItemId.isEmpty then passesId playQueueItemId item else passesKey currentKey item

/-- The items of the answer, where there is one. -/
def listedItems (httpGet : List Char → ℕ → List Char)
    (queueIdOrContainerKey plexBase token : List Char) : List QueueItem :=
  let (id,extraQuery) := queueIdOf queueIdOrContainerKey
  let base := (normalizePlexBase (String.ofList plexBase)).toList
  if id.isEmpty || !(id.headD ' ').isDigit || base.isEmpty then []
  else
    let xml := httpGet (queueUrl base id extraQuery token) 20
    if xml.isEmpty || (find "MediaContainer".toList xml 0).isNone then [] else videoItems xml 0

/-- A queue that holds the wanted item points at it. -/
def PointsAtWanted (q : PlayQueue) (currentKey playQueueItemId : List Char) : Prop :=
  (∃ item∈q.items, isWanted currentKey playQueueItemId item=true) →
    q.currentIndex=q.items.findIdx (isWanted currentKey playQueueItemId)

/-- No item in front of the wanted one passes the test of the loop. -/
def NoneInFront (items : List QueueItem) (currentKey playQueueItemId : List Char) : Prop :=
  (∃ item∈items, isWanted currentKey playQueueItemId item=true) →
    ∀ item∈items.takeWhile (!isWanted currentKey playQueueItemId ·),
      passes currentKey playQueueItemId item=false

theorem videoItems_key (xml : List Char) (pos : ℕ) :
    ∀ item∈videoItems xml pos, item.key≠[] := by
  induction hsize : xml.length-pos using Nat.strong_induction_on generalizing pos with
  | _ n ih =>
    intro item hitem
    rw [videoItems] at hitem
    split at hitem
    case h_1 => exact absurd hitem not_mem_nil
    case h_2 p hpos =>
      split at hitem
      case h_1 => exact absurd hitem not_mem_nil
      case h_2 tagEnd hend =>
        have hstart := find_bounds hpos
        have hstop := find_bounds hend
        have hlen : ['>'].length=1 := rfl
        have hlater := ih (xml.length-(tagEnd+1)) (by omega) (tagEnd+1) rfl
        dsimp only at hitem
        split at hitem
        case isTrue => exact hlater item hitem
        case isFalse hkey =>
          rcases mem_cons.mp hitem with rfl | hitem
          · exact fun hnil => hkey (List.isEmpty_iff.mpr hnil)
          · exact hlater item hitem

theorem ratingKeyFromKey_infix (key : List Char) : ratingKeyFromKey key <:+: key := by
  rw [ratingKeyFromKey]
  split
  case h_1 => exact nil_infix
  case h_2 rest hrest =>
    have hfront : rest.takeWhile Char.isDigit <+: rest := List.takeWhile_prefix _
    exact hfront.isInfix.trans (Companion.behind_suffix hrest).isInfix

theorem passes_of_isWanted {currentKey playQueueItemId : List Char} {item : QueueItem}
    (h : isWanted currentKey playQueueItemId item=true) :
    passes currentKey playQueueItemId item=true := by
  rw [isWanted] at h
  rw [passes]
  split
  case isTrue hid =>
    rw [if_pos hid] at h
    rw [passesId,h]
    rfl
  case isFalse hid =>
    rw [if_neg hid] at h
    rw [passesKey,Bool.or_eq_true]
    rcases Bool.or_eq_true_iff.mp h with h | h
    · exact Or.inl h
    · obtain ⟨hne,hsame⟩ := Bool.and_eq_true_iff.mp h
      refine Or.inr (Bool.and_eq_true_iff.mpr ⟨hne,?_⟩)
      have hsome : item.ratingKey≠[] := by
        rintro hnil
        rw [hnil] at hne
        cases hne
      rw [find_isSome hsome,eq_of_beq hsame]
      exact ratingKeyFromKey_infix currentKey

/-- A looser search finds the same item where nothing looser stands in front of it. -/
theorem findIdx_looser {α : Type} {p q : α → Bool} (h : ∀ a, p a=true → q a=true)
    {items : List α} (hsome : ∃ a∈items, p a=true) :
    (items.findIdx? q).getD 0=items.findIdx p ↔ ∀ a∈items.takeWhile (!p ·), q a=false := by
  induction items with
  | nil =>
    obtain ⟨a,ha,_⟩ := hsome
    exact absurd ha not_mem_nil
  | cons a items ih =>
    cases hp : p a with
    | true =>
      have hnone : (a::items).takeWhile (!p ·)=[] :=
        takeWhile_cons_of_neg (by rw [hp]; exact Bool.false_ne_true)
      rw [findIdx?_cons,if_pos (h a hp),findIdx_cons,hp,hnone]
      exact ⟨fun _ b hb => absurd hb not_mem_nil,fun _ => rfl⟩
    | false =>
      have hlater : ∃ b∈items, p b=true := by
        obtain ⟨b,hb,hpb⟩ := hsome
        rcases mem_cons.mp hb with rfl | hb
        · rw [hp] at hpb
          cases hpb
        · exact ⟨b,hb,hpb⟩
      have hfront : (a::items).takeWhile (!p ·)=a::items.takeWhile (!p ·) :=
        takeWhile_cons_of_pos (by rw [hp]; rfl)
      rw [hfront,forall_mem_cons,findIdx?_cons,findIdx_cons,hp]
      cases hq : q a with
      | true =>
        constructor
        · exact fun hzero => absurd hzero (Nat.succ_ne_zero _).symm
        · exact fun hboth => absurd hboth.1.symm Bool.false_ne_true
      | false =>
        obtain ⟨b,hb,hpb⟩ := hlater
        have hfound := findIdx?_eq_some_of_exists ⟨b,hb,h b hpb⟩
        rw [if_neg Bool.false_ne_true,← ih ⟨b,hb,hpb⟩,hfound]
        rw [Option.map_some,Option.getD_some,Option.getD_some,cond_false,
          Nat.add_right_cancel_iff]
        exact ⟨fun hsame => ⟨rfl,hsame⟩,And.right⟩

/-- The index that the loop finds is that of the wanted item where nothing in front of it
passes the test. -/
theorem currentIndexOf_iff {items : List QueueItem} (hkeys : ∀ item∈items, item.key≠[])
    {currentKey playQueueItemId : List Char}
    (hsome : ∃ item∈items, isWanted currentKey playQueueItemId item=true) :
    currentIndexOf items currentKey playQueueItemId =
        items.findIdx (isWanted currentKey playQueueItemId) ↔
      ∀ item∈items.takeWhile (!isWanted currentKey playQueueItemId ·),
        passes currentKey playQueueItemId item=false := by
  have hlooser : (items.findIdx? (passes currentKey playQueueItemId)).getD 0 =
      items.findIdx (isWanted currentKey playQueueItemId) ↔
      ∀ item∈items.takeWhile (!isWanted currentKey playQueueItemId ·),
        passes currentKey playQueueItemId item=false :=
    findIdx_looser (fun _ => passes_of_isWanted) hsome
  rw [← hlooser,currentIndexOf]
  split
  case isTrue hid =>
    have hpasses : passes currentKey playQueueItemId=passesId playQueueItemId := by
      funext item
      rw [passes,if_pos hid]
    rw [hpasses]
  case isFalse hid =>
    split
    case isTrue =>
      have hpasses : passes currentKey playQueueItemId=passesKey currentKey := by
        funext item
        rw [passes,if_neg hid]
      rw [hpasses]
    case isFalse hkey =>
      obtain ⟨item,hitem,hwanted⟩ := hsome
      have hnil : currentKey=[] := by
        cases currentKey with
        | nil => rfl
        | cons c rest => exact absurd rfl hkey
      rw [isWanted,if_neg hid,hnil] at hwanted
      rcases Bool.or_eq_true_iff.mp hwanted with hsame | hrating
      · exact absurd (eq_of_beq hsame) (hkeys item hitem)
      · obtain ⟨hne,hsame⟩ := Bool.and_eq_true_iff.mp hrating
        have hempty : ratingKeyFromKey []=[] := rfl
        rw [eq_of_beq hsame,hempty] at hne
        cases hne

theorem pointsAtWanted_nil {q : PlayQueue} (h : q.items=[])
    (currentKey playQueueItemId : List Char) :
    PointsAtWanted q currentKey playQueueItemId ↔ NoneInFront [] currentKey playQueueItemId := by
  constructor
  · rintro _ ⟨item,hitem,_⟩
    exact absurd hitem not_mem_nil
  · rintro _ ⟨item,hitem,_⟩
    rw [h] at hitem
    exact absurd hitem not_mem_nil

/-- The queue of an answer points at the wanted item exactly when nothing in front of that
passes the test of the loop. -/
theorem readPlayQueue_points (id xml currentKey playQueueItemId : List Char) :
    PointsAtWanted (readPlayQueue id xml currentKey playQueueItemId) currentKey playQueueItemId ↔
      NoneInFront (videoItems xml 0) currentKey playQueueItemId := by
  rw [readPlayQueue]
  dsimp only
  split
  case isTrue hempty =>
    rw [List.isEmpty_iff] at hempty
    rw [hempty]
    exact pointsAtWanted_nil rfl currentKey playQueueItemId
  case isFalse =>
    constructor
    · intro hpoints hsome
      exact (currentIndexOf_iff (videoItems_key xml 0) hsome).mp (hpoints hsome)
    · intro hnone hsome
      exact (currentIndexOf_iff (videoItems_key xml 0) hsome).mpr (hnone hsome)

/-- A fetched queue points at the wanted item exactly when nothing in front of that passes
the test of the loop. -/
theorem fetchPlayQueue_points (httpGet : List Char → ℕ → List Char)
    (queueIdOrContainerKey plexBase token currentKey playQueueItemId : List Char) :
    PointsAtWanted (fetchPlayQueue httpGet queueIdOrContainerKey plexBase token currentKey
        playQueueItemId) currentKey playQueueItemId ↔
      NoneInFront (listedItems httpGet queueIdOrContainerKey plexBase token) currentKey
        playQueueItemId := by
  rw [fetchPlayQueue,listedItems]
  dsimp only
  cases hid : ((queueIdOf queueIdOrContainerKey).1.isEmpty ||
      !((queueIdOf queueIdOrContainerKey).1.headD ' ').isDigit) with
  | true =>
    exact pointsAtWanted_nil rfl currentKey playQueueItemId
  | false =>
    rw [if_neg Bool.false_ne_true,Bool.false_or]
    split
    case isTrue => exact pointsAtWanted_nil rfl currentKey playQueueItemId
    case isFalse =>
      split
      case isTrue => exact pointsAtWanted_nil rfl currentKey playQueueItemId
      case isFalse => exact readPlayQueue_points _ _ currentKey playQueueItemId

/-- The answer of a server with two titles of which one's rating key starts the other's. -/
def twoTitles : List Char :=
  "<MediaContainer playQueueID=\"7\">".toList ++
    "<Video key=\"/library/metadata/123\" ratingKey=\"123\"/>".toList ++
    "<Video key=\"/library/metadata/1234\" ratingKey=\"1234\"/></MediaContainer>".toList

/-- The title that is being played is not the one its queue points at. -/
theorem not_fetchPlayQueue_points :
    ¬∀ (httpGet : List Char → ℕ → List Char)
      (queueIdOrContainerKey plexBase token currentKey playQueueItemId : List Char),
      PointsAtWanted (fetchPlayQueue httpGet queueIdOrContainerKey plexBase token currentKey
        playQueueItemId) currentKey playQueueItemId := by
  intro hall
  have hpoints := hall (fun _ _ => twoTitles) "7".toList "http://h".toList []
    "/library/metadata/1234".toList []
  have hwanted : ∃ item∈(fetchPlayQueue (fun _ _ => twoTitles) "7".toList "http://h".toList []
      "/library/metadata/1234".toList []).items,
      isWanted "/library/metadata/1234".toList [] item=true := by decide +kernel
  have hother : (fetchPlayQueue (fun _ _ => twoTitles) "7".toList "http://h".toList []
      "/library/metadata/1234".toList []).currentIndex ≠
      (fetchPlayQueue (fun _ _ => twoTitles) "7".toList "http://h".toList []
      "/library/metadata/1234".toList []).items.findIdx
        (isWanted "/library/metadata/1234".toList []) := by decide +kernel
  exact hother (hpoints hwanted)

end Misterplex.Plex
