import Misterplex.Lib.UrlText
import Misterplex.Plex.PlayQueue

/-!
# Addresses of universal transcodes

The address that starts a universal transcode carries the title, the session and
the limits of the ladder as parameters. Before the transcode is started the
server is asked to decide about it, with the parameters that are read back from
the address.

Encoded values hold no sign of the query and decode to what they were, so the query
splits into exactly the parameters it was made of.
-/

namespace Misterplex.Plex

open Misterplex.Companion List

/-- The limits that the server transcodes to. -/
structure WeakLadder where
  /-- The largest picture. -/
  videoResolution : List Char := "320x240".toList
  /-- Bits that a second may have, in thousands. -/
  maxVideoBitrateKbps : ℤ := 1000
  /-- The quality asked for. -/
  videoQuality : ℤ := 40
  /-- The video codec. -/
  videoCodec : List Char := "h264".toList
  /-- The audio codec. -/
  audioCodec : List Char := "aac".toList
  /-- The profile. -/
  h264Profile : List Char := "baseline".toList
  /-- The level. -/
  h264Level : ℤ := 30
  /-- Subtitles are drawn into the pictures. -/
  burnSubtitles : Bool := false
  /-- Which subtitles, if that is known. -/
  subtitleStreamId : ℤ := -1

/-- A whole number in digits. -/
def intText (n : ℤ) : List Char :=
  if n < 0 then '-' :: Nat.toDigits 10 n.natAbs else Nat.toDigits 10 n.natAbs

/-- The offset of a universal transcode in seconds, rounded. -/
def universalOffsetSeconds (offsetMs : ℤ) : ℤ :=
  if offsetMs ≤ 0 then 0 else (offsetMs+500)/1000

/-- A value as it is written into a query. -/
def encoded (value : List Char) : List Char := (urlEncodeQuery (String.ofList value)).toList

/-- The address that starts a universal transcode. -/
def buildUniversalTranscodeUrl (base metadataKey token session : List Char) (offsetMs : ℤ)
    (weak : WeakLadder) : List Char :=
  let q := base ++ "/video/:/transcode/universal/start.mp4".toList ++ "?hasMDE=1".toList ++
    "&path=".toList ++ encoded metadataKey ++ "&mediaIndex=0&partIndex=0".toList ++
    "&protocol=http&fastSeek=0".toList ++ "&directPlay=0&directStream=0".toList ++
    "&subtitleSize=100&audioBoost=100&location=lan&copyts=1".toList ++
    "&session=".toList ++ encoded session ++
    "&videoQuality=".toList ++ intText weak.videoQuality ++
    "&videoResolution=".toList ++ encoded weak.videoResolution ++
    "&maxVideoBitrate=".toList ++ intText weak.maxVideoBitrateKbps ++
    "&videoCodec=".toList ++ encoded weak.videoCodec ++
    "&audioCodec=".toList ++ encoded weak.audioCodec ++
    "&videoProfile=".toList ++ encoded weak.h264Profile ++
    "&videoLevel=".toList ++ intText weak.h264Level
  let q := if weak.burnSubtitles then
      let q := q ++ "&subtitles=burn".toList
      if weak.subtitleStreamId ≥ 0 then
        q ++ "&subtitleStreamID=".toList ++ intText weak.subtitleStreamId
      else q
    else q
  let offSec := universalOffsetSeconds offsetMs
  let q := if offSec > 0 then q ++ "&offset=".toList ++ intText offSec else q
  if !token.isEmpty then q ++ "&X-Plex-Token=".toList ++ encoded token else q

/-- A parameter as it is read back from an address. -/
def qparam (startUrl : List Char) (name : String) : List Char :=
  match behind (name.toList ++ ['=']) startUrl with
  | none => []
  | some rest => rest.takeWhile (· != '&')

/-- Every character is a byte. -/
def IsBytes (text : List Char) : Prop := ∀ c∈text, c.toNat<256

/-- A character that is written as it is. -/
def isUnreserved (c : Char) : Bool := c.isAlphanum || c == '-' || c == '_' || c == '.' || c == '~'

theorem encoded_eq (value : List Char) : encoded value=value.flatMap encodeByte := by
  rw [encoded,urlEncodeQuery,String.toList_ofList,String.toList_ofList]

theorem hexDigit_hexDigit :
    ∀ n<16, Companion.hexDigit (hexDigit n)=some n ∧ (hexDigit n).isAlphanum=true := by
  decide

theorem encodeByte_plain {c d : Char} (hc : c.toNat<256) (hd : d∈encodeByte c) :
    isUnreserved d=true ∨ d = '%' := by
  rw [encodeByte] at hd
  split at hd
  case isTrue hplain =>
    rw [mem_singleton.mp hd]
    exact Or.inl hplain
  case isFalse =>
    have hhigh := (hexDigit_hexDigit (c.toNat/16) (by omega)).2
    have hlow := (hexDigit_hexDigit (c.toNat%16) (by omega)).2
    rcases mem_cons.mp hd with rfl | hd
    · exact Or.inr rfl
    · rcases mem_cons.mp hd with rfl | hd
      · exact Or.inl (by rw [isUnreserved,hhigh]; rfl)
      · rw [mem_singleton.mp hd]
        exact Or.inl (by rw [isUnreserved,hlow]; rfl)

variable {value : List Char}

theorem not_mem_encoded (hvalue : IsBytes value) {d : Char}
    (hplain : isUnreserved d=false) (hescape : d ≠ '%') : d ∉ encoded value := by
  intro hmem
  rw [encoded_eq] at hmem
  obtain ⟨c,hc,hd⟩ := mem_flatMap.mp hmem
  rcases encodeByte_plain (hvalue c hc) hd with h | h
  · rw [h] at hplain
    cases hplain
  · exact hescape h

theorem pctDecodeFrom_encodeByte {c : Char} (hc : c.toNat<256) (rest : List Char) :
    pctDecodeFrom 0 (encodeByte c ++ rest)=c::pctDecodeFrom 0 rest := by
  rw [encodeByte]
  split
  case isTrue hplain =>
    have hescape : c ≠ '%' := by
      rintro rfl
      revert hplain
      decide
    have hplus : c ≠ '+' := by
      rintro rfl
      revert hplain
      decide
    rw [singleton_append,pctDecodeFrom,if_neg hescape,if_neg hplus]
  case isFalse =>
    have hhigh := (hexDigit_hexDigit (c.toNat/16) (by omega)).1
    have hlow := (hexDigit_hexDigit (c.toNat%16) (by omega)).1
    have hdigits : escaped (hexDigit (c.toNat/16)::hexDigit (c.toNat%16)::rest) =
        some (Char.ofNat (16*(c.toNat/16)+c.toNat%16)) := by
      rw [escaped,hhigh,hlow]
      rfl
    have hvalue : Char.ofNat (16*(c.toNat/16)+c.toNat%16)=c := by
      rw [Nat.div_add_mod,Char.ofNat_toNat]
    have htext : ['%',hexDigit (c.toNat/16),hexDigit (c.toNat%16)] ++ rest =
        '%' :: hexDigit (c.toNat/16)::hexDigit (c.toNat%16)::rest := rfl
    rw [htext,pctDecodeFrom,if_pos rfl,hdigits,hvalue]
    rfl

theorem urlDecode_encoded (hvalue : IsBytes value) : urlDecode (encoded value)=value := by
  rw [encoded_eq,urlDecode,pctDecode]
  induction value with
  | nil => rfl
  | cons c value ih =>
    rw [flatMap_cons,pctDecodeFrom_encodeByte (hvalue c mem_cons_self),
      ih fun d hd => hvalue d (mem_cons_of_mem c hd)]

theorem encoded_plain (h : ∀ c∈value, isUnreserved c=true) : encoded value=value := by
  rw [encoded_eq]
  induction value with
  | nil => rfl
  | cons c value ih =>
    have hc : encodeByte c=[c] := if_pos (h c mem_cons_self)
    rw [flatMap_cons,hc,ih fun d hd => h d (mem_cons_of_mem c hd)]
    rfl

theorem intText_plain (n : ℤ) : ∀ c∈intText n, isUnreserved c=true := by
  have hdigits : ∀ c∈Nat.toDigits 10 n.natAbs, isUnreserved c=true := by
    intro c hc
    have hdigit := Nat.isDigit_of_mem_toDigits (by decide) (by decide) hc
    rw [isUnreserved,Char.isAlphanum,hdigit,Bool.or_true]
    rfl
  intro c hc
  rw [intText] at hc
  split at hc
  case isTrue =>
    rcases mem_cons.mp hc with rfl | hc
    · rfl
    · exact hdigits c hc
  case isFalse => exact hdigits c hc

theorem alphanum_bytes {c : Char} (h : c.isAlphanum=true) : c.toNat<256 := by
  have hcases : (65≤c.toNat ∧ c.toNat≤90) ∨ (97≤c.toNat ∧ c.toNat≤122) ∨
      (48≤c.toNat ∧ c.toNat≤57) := by
    delta Char.isAlphanum Char.isAlpha Char.isUpper Char.isLower at h
    simpa [Char.isDigit,UInt32.le_iff_toNat_le,or_assoc] using h
  omega

theorem IsBytes.of_plain (h : ∀ c∈value, isUnreserved c=true) : IsBytes value := by
  intro c hc
  have hplain := h c hc
  simp only [isUnreserved,Bool.or_eq_true,beq_iff_eq] at hplain
  rcases hplain with (((hplain | rfl) | rfl) | rfl) | rfl
  · exact alphanum_bytes hplain
  all_goals decide

/-- A parameter by its name and its value. -/
abbrev Param := List Char × List Char

/-- A parameter as it is written. -/
def Param.written (p : Param) : List Char := p.1 ++ '=' :: encoded p.2

/-- The parameters behind the first one that are always there. -/
def fixedParams (metadataKey session : List Char) (weak : WeakLadder) : List Param :=
  [("path".toList,metadataKey),("mediaIndex".toList,"0".toList),
    ("partIndex".toList,"0".toList),("protocol".toList,"http".toList),
    ("fastSeek".toList,"0".toList),("directPlay".toList,"0".toList),
    ("directStream".toList,"0".toList),("subtitleSize".toList,"100".toList),
    ("audioBoost".toList,"100".toList),("location".toList,"lan".toList),
    ("copyts".toList,"1".toList),("session".toList,session),
    ("videoQuality".toList,intText weak.videoQuality),
    ("videoResolution".toList,weak.videoResolution),
    ("maxVideoBitrate".toList,intText weak.maxVideoBitrateKbps),
    ("videoCodec".toList,weak.videoCodec),("audioCodec".toList,weak.audioCodec),
    ("videoProfile".toList,weak.h264Profile),("videoLevel".toList,intText weak.h264Level)]

/-- The parameters for subtitles. -/
def subtitleParams (weak : WeakLadder) : List Param :=
  if weak.burnSubtitles = true then
    ("subtitles".toList,"burn".toList) ::
      if weak.subtitleStreamId ≥ 0 then
        [("subtitleStreamID".toList,intText weak.subtitleStreamId)]
      else []
  else []

/-- The parameter for the offset. -/
def offsetParams (offsetMs : ℤ) : List Param :=
  if universalOffsetSeconds offsetMs > 0 then
    [("offset".toList,intText (universalOffsetSeconds offsetMs))]
  else []

/-- The parameter for the token. -/
def tokenParams (token : List Char) : List Param :=
  if (!token.isEmpty) = true then [("X-Plex-Token".toList,token)] else []

/-- The parameters that the address of a universal transcode is made of. -/
def universalParams (metadataKey token session : List Char) (offsetMs : ℤ) (weak : WeakLadder) :
    List Param :=
  ("hasMDE".toList,"1".toList)::(fixedParams metadataKey session weak ++ subtitleParams weak ++
    offsetParams offsetMs ++ tokenParams token)

/-- Parameters behind the first one. -/
def amps (ps : List Param) : List Char := ps.flatMap fun p => '&' :: p.written

theorem amps_nil : amps []=[] := rfl

theorem amps_cons (p : Param) (ps : List Param) : amps (p::ps) = '&' :: p.written ++ amps ps :=
  flatMap_cons

theorem amps_append (ps qs : List Param) : amps (ps ++ qs) = amps ps ++ amps qs :=
  flatMap_append

theorem intercalate_written (p : Param) (ps : List Param) :
    ['&'].intercalate ((p::ps).map Param.written) = p.written ++ amps ps := by
  induction ps generalizing p with
  | nil => rw [map_singleton,intercalate_singleton,amps_nil,append_nil]
  | cons q ps ih =>
    have hrest := ih q
    rw [map_cons] at hrest
    rw [map_cons,map_cons,intercalate_cons_cons,hrest,amps_cons,
      append_assoc,singleton_append,cons_append]

theorem encoded_int (n : ℤ) : encoded (intText n)=intText n := encoded_plain (intText_plain n)

open Param

theorem fixed_params (base metadataKey session : List Char) (weak : WeakLadder) :
    base ++ "/video/:/transcode/universal/start.mp4".toList ++ "?hasMDE=1".toList ++
      "&path=".toList ++ encoded metadataKey ++ "&mediaIndex=0&partIndex=0".toList ++
      "&protocol=http&fastSeek=0".toList ++ "&directPlay=0&directStream=0".toList ++
      "&subtitleSize=100&audioBoost=100&location=lan&copyts=1".toList ++
      "&session=".toList ++ encoded session ++
      "&videoQuality=".toList ++ intText weak.videoQuality ++
      "&videoResolution=".toList ++ encoded weak.videoResolution ++
      "&maxVideoBitrate=".toList ++ intText weak.maxVideoBitrateKbps ++
      "&videoCodec=".toList ++ encoded weak.videoCodec ++
      "&audioCodec=".toList ++ encoded weak.audioCodec ++
      "&videoProfile=".toList ++ encoded weak.h264Profile ++
      "&videoLevel=".toList ++ intText weak.h264Level =
    base ++ "/video/:/transcode/universal/start.mp4".toList ++ '?' ::
      (Param.written ("hasMDE".toList,"1".toList) ++
        amps (fixedParams metadataKey session weak)) := by
  have hone : encoded "1".toList = "1".toList := encoded_plain (by decide)
  have hzero : encoded "0".toList = "0".toList := encoded_plain (by decide)
  have hhundred : encoded "100".toList = "100".toList := encoded_plain (by decide)
  have hhttp : encoded "http".toList = "http".toList := encoded_plain (by decide)
  have hlan : encoded "lan".toList = "lan".toList := encoded_plain (by decide)
  have hfirst : "?hasMDE=1".toList = '?' :: ("hasMDE".toList ++ '=' :: "1".toList) := rfl
  have hindex : "&mediaIndex=0&partIndex=0".toList =
      '&' :: ("mediaIndex".toList ++
        '=' :: ("0".toList ++ '&' :: ("partIndex".toList ++ '=' :: "0".toList))) := rfl
  have hprotocol : "&protocol=http&fastSeek=0".toList =
      '&' :: ("protocol".toList ++
        '=' :: ("http".toList ++ '&' :: ("fastSeek".toList ++ '=' :: "0".toList))) := rfl
  have hdirect : "&directPlay=0&directStream=0".toList =
      '&' :: ("directPlay".toList ++
        '=' :: ("0".toList ++ '&' :: ("directStream".toList ++ '=' :: "0".toList))) := rfl
  have hfixed : "&subtitleSize=100&audioBoost=100&location=lan&copyts=1".toList =
      '&' :: ("subtitleSize".toList ++ '=' :: ("100".toList ++
        '&' :: ("audioBoost".toList ++ '=' :: ("100".toList ++
          '&' :: ("location".toList ++ '=' :: ("lan".toList ++
            '&' :: ("copyts".toList ++ '=' :: "1".toList))))))) := rfl
  have hpath : "&path=".toList = '&' :: ("path".toList ++ ['=']) := rfl
  have hsession : "&session=".toList = '&' :: ("session".toList ++ ['=']) := rfl
  have hvideoQuality : "&videoQuality=".toList = '&' :: ("videoQuality".toList ++ ['=']) := rfl
  have hvideoResolution : "&videoResolution=".toList = '&' :: ("videoResolution".toList ++ ['=']) := rfl
  have hmaxVideoBitrate : "&maxVideoBitrate=".toList = '&' :: ("maxVideoBitrate".toList ++ ['=']) := rfl
  have hvideoCodec : "&videoCodec=".toList = '&' :: ("videoCodec".toList ++ ['=']) := rfl
  have haudioCodec : "&audioCodec=".toList = '&' :: ("audioCodec".toList ++ ['=']) := rfl
  have hvideoProfile : "&videoProfile=".toList = '&' :: ("videoProfile".toList ++ ['=']) := rfl
  have hvideoLevel : "&videoLevel=".toList = '&' :: ("videoLevel".toList ++ ['=']) := rfl
  rw [fixedParams]
  simp only [amps_cons,amps_nil,written,hone,hzero,hhundred,hhttp,hlan,encoded_int,
    hfirst,hindex,hprotocol,hdirect,hfixed,hpath,hsession,hvideoQuality,hvideoResolution,
    hmaxVideoBitrate,hvideoCodec,haudioCodec,hvideoProfile,hvideoLevel,
    append_assoc,cons_append,nil_append,append_nil]

theorem buildUniversalTranscodeUrl_eq (base metadataKey token session : List Char) (offsetMs : ℤ)
    (weak : WeakLadder) :
    buildUniversalTranscodeUrl base metadataKey token session offsetMs weak =
      base ++ "/video/:/transcode/universal/start.mp4".toList ++ '?' ::
        ['&'].intercalate
          ((universalParams metadataKey token session offsetMs weak).map Param.written) := by
  have hburn : encoded "burn".toList = "burn".toList := encoded_plain (by decide)
  have hsubtitles (q : List Char) :
      (if weak.burnSubtitles = true then
        if weak.subtitleStreamId ≥ 0 then
          q ++ "&subtitles=burn".toList ++ "&subtitleStreamID=".toList ++
            intText weak.subtitleStreamId
        else q ++ "&subtitles=burn".toList
      else q) = q ++ amps (subtitleParams weak) := by
    rw [subtitleParams]
    split
    · split
      · rw [amps_cons,amps_cons,written,written,hburn,encoded_int,amps_nil,
          append_nil]
        simp only [append_assoc]
        rfl
      · rfl
    · exact (append_nil q).symm
  have hoffset (q : List Char) :
      (if universalOffsetSeconds offsetMs > 0 then
        q ++ "&offset=".toList ++ intText (universalOffsetSeconds offsetMs) else q) =
      q ++ amps (offsetParams offsetMs) := by
    rw [offsetParams]
    split
    · rw [amps_cons,written,encoded_int,amps_nil,append_nil,append_assoc]
      rfl
    · exact (append_nil q).symm
  have htoken (q : List Char) :
      (if (!token.isEmpty) = true then q ++ "&X-Plex-Token=".toList ++ encoded token else q) =
      q ++ amps (tokenParams token) := by
    rw [tokenParams]
    split
    · rw [amps_cons,written,amps_nil,append_nil,append_assoc]
      rfl
    · exact (append_nil q).symm
  rw [buildUniversalTranscodeUrl]
  rw [hsubtitles,hoffset,htoken,fixed_params,universalParams,intercalate_written,
    amps_append,amps_append,amps_append]
  simp only [append_assoc,cons_append]

/-- The names of the parameters behind the first one that are always there. -/
def fixedNames : List (List Char) :=
  ["path".toList,"mediaIndex".toList,"partIndex".toList,"protocol".toList,"fastSeek".toList,
    "directPlay".toList,"directStream".toList,"subtitleSize".toList,"audioBoost".toList,
    "location".toList,"copyts".toList,"session".toList,"videoQuality".toList,
    "videoResolution".toList,"maxVideoBitrate".toList,"videoCodec".toList,"audioCodec".toList,
    "videoProfile".toList,"videoLevel".toList]

/-- The names of all parameters. -/
def allNames : List (List Char) :=
  "hasMDE".toList::(fixedNames ++ ["subtitles".toList,"subtitleStreamID".toList] ++
    ["offset".toList] ++ ["X-Plex-Token".toList])

theorem names_sublist (metadataKey token session : List Char) (offsetMs : ℤ) (weak : WeakLadder) :
    ((universalParams metadataKey token session offsetMs weak).map Prod.fst).Sublist allNames := by
  have hsubtitles : ((subtitleParams weak).map Prod.fst).Sublist
      ["subtitles".toList,"subtitleStreamID".toList] := by
    rw [subtitleParams]
    split
    · split
      · exact List.Sublist.refl _
      · exact sublist_append_left ["subtitles".toList] ["subtitleStreamID".toList]
    · exact nil_sublist _
  have hoffset : ((offsetParams offsetMs).map Prod.fst).Sublist ["offset".toList] := by
    rw [offsetParams]
    split
    · exact List.Sublist.refl _
    · exact nil_sublist _
  have htoken : ((tokenParams token).map Prod.fst).Sublist ["X-Plex-Token".toList] := by
    rw [tokenParams]
    split
    · exact List.Sublist.refl _
    · exact nil_sublist _
  have hfixed : ((fixedParams metadataKey session weak).map Prod.fst).Sublist fixedNames :=
    List.Sublist.refl fixedNames
  rw [universalParams,map_cons,map_append,map_append,map_append]
  exact (((hfixed.append hsubtitles).append hoffset).append htoken).cons_cons "hasMDE".toList

theorem allNames_clean : allNames.Nodup ∧ ∀ name∈allNames, '&' ∉ name ∧ '=' ∉ name := by decide

/-- The texts of a ladder are bytes. -/
def WeakLadder.IsBytes (weak : WeakLadder) : Prop :=
  Plex.IsBytes weak.videoResolution ∧ Plex.IsBytes weak.videoCodec ∧ Plex.IsBytes weak.audioCodec ∧
    Plex.IsBytes weak.h264Profile

theorem universalParams_bytes {metadataKey token session : List Char} (offsetMs : ℤ)
    {weak : WeakLadder} (hkey : IsBytes metadataKey) (htoken : IsBytes token)
    (hsession : IsBytes session) (hweak : weak.IsBytes) :
    ∀ p∈universalParams metadataKey token session offsetMs weak, IsBytes p.2 := by
  have hint : ∀ n, IsBytes (intText n) := fun n => IsBytes.of_plain (intText_plain n)
  have hplain : ∀ value∈["0".toList,"1".toList,"100".toList,"http".toList,"lan".toList,
      "burn".toList], IsBytes value := by
    intro value hvalue c hc
    revert c
    revert value
    decide
  have hfixed : ∀ p∈fixedParams metadataKey session weak, IsBytes p.2 := by
    have hzero := hplain "0".toList (by decide)
    have hhundred := hplain "100".toList (by decide)
    rw [fixedParams]
    simp only [forall_mem_cons]
    exact ⟨hkey,hzero,hzero,hplain "http".toList (by decide),hzero,hzero,hzero,hhundred,
      hhundred,hplain "lan".toList (by decide),hplain "1".toList (by decide),hsession,hint _,
      hweak.1,hint _,hweak.2.1,hweak.2.2.1,hweak.2.2.2,hint _,nofun⟩
  have hsubtitles : ∀ p∈subtitleParams weak, IsBytes p.2 := by
    rw [subtitleParams]
    split
    · split
      · simp only [forall_mem_cons]
        exact ⟨hplain "burn".toList (by decide),hint _,nofun⟩
      · simp only [forall_mem_cons]
        exact ⟨hplain "burn".toList (by decide),nofun⟩
    · exact nofun
  have hoffset : ∀ p∈offsetParams offsetMs, IsBytes p.2 := by
    rw [offsetParams]
    split
    · simp only [forall_mem_cons]
      exact ⟨hint _,nofun⟩
    · exact nofun
  have htokens : ∀ p∈tokenParams token, IsBytes p.2 := by
    rw [tokenParams]
    split
    · simp only [forall_mem_cons]
      exact ⟨htoken,nofun⟩
    · exact nofun
  intro p hp
  rw [universalParams,mem_cons,mem_append,mem_append,mem_append] at hp
  rcases hp with rfl | ((hp | hp) | hp) | hp
  · exact hplain "1".toList (by decide)
  · exact hfixed p hp
  · exact hsubtitles p hp
  · exact hoffset p hp
  · exact htokens p hp

/-- A parameter split at the first sign. -/
def splitParam (piece : List Char) : Param :=
  (piece.takeWhile (· != '='),(piece.dropWhile (· != '=')).drop 1)

/-- The parameters of an address, decoded. -/
def readParams (decode : List Char → List Char) (url : List Char) : List Param :=
  (((url.dropWhile (· != '?')).drop 1).splitOn '&').map fun piece =>
    ((splitParam piece).1,decode (splitParam piece).2)

theorem splitParam_written {p : Param} (h : '=' ∉ p.1) :
    splitParam p.written=(p.1,encoded p.2) := by
  have hcut := Url.cut_append h (Or.inr (rfl : ('=' :: encoded p.2).head?=some '='))
  rw [splitParam,written,hcut.1,hcut.2]
  rfl

theorem readParams_url {base : List Char} (hbase : '?' ∉ base) {ps : List Param} (hne : ps≠[])
    (hnames : ∀ p∈ps, '&' ∉ p.1 ∧ '=' ∉ p.1) (hbytes : ∀ p∈ps, IsBytes p.2) :
    readParams urlDecode (base ++ "/video/:/transcode/universal/start.mp4".toList ++ '?' ::
      ['&'].intercalate (ps.map Param.written))=ps := by
  have hfront : '?' ∉ base ++ "/video/:/transcode/universal/start.mp4".toList := by
    rw [mem_append]
    rintro (h | h)
    · exact hbase h
    · revert h
      decide
  have hpieces : ∀ piece∈ps.map written, '&' ∉ piece := by
    intro piece hpiece
    obtain ⟨p,hp,rfl⟩ := mem_map.mp hpiece
    rw [written,mem_append,mem_cons]
    rintro (h | h | h)
    · exact (hnames p hp).1 h
    · cases h
    · exact not_mem_encoded (hbytes p hp) rfl (by decide) h
  have hquery := (Url.cut_append hfront (Or.inr (rfl :
    ('?' :: ['&'].intercalate (ps.map written)).head?=some '?'))).2
  have hsplit : (['&'].intercalate (ps.map written)).splitOn '&' = ps.map written :=
    splitOn_intercalate '&' hpieces (mt map_eq_nil_iff.mp hne)
  rw [readParams,hquery,drop_succ_cons,drop_zero,hsplit,map_map]
  have hsame : ∀ p∈ps, ((splitParam p.written).1,urlDecode (splitParam p.written).2)=p := by
    intro p hp
    rw [splitParam_written (hnames p hp).2,urlDecode_encoded (hbytes p hp)]
  exact (map_congr_left hsame).trans (map_id ps)

end Misterplex.Plex
