import Misterplex.Playback.OffsetParams

/-!
# A seek is applied once

Seeks keep everything in a universal address but its offset, the last one
counts, and the players get a start position of their own only where the address
carries none. This holds in every run of seeks unless the mark of the address
stands in its offset alone, or the key of an offset stands outside the offset
parameters.
-/

namespace Misterplex.UniversalOffset

open Search List

section params

variable {value other : List Char} {params : List (List Char)}

theorem setParam_offset {p : List Char} (h : isOffset p=true) :
    setParam value (p::params)=value::params := by
  rw [setParam,replaceParam,if_pos h,Option.getD_some]

theorem setParam_other {p : List Char} (h : isOffset p=false) :
    setParam value (p::params)=p::setParam value params := by
  have hnot : ¬isOffset p=true := by
    rw [h]
    exact Bool.false_ne_true
  rw [setParam,setParam,replaceParam,if_neg hnot]
  cases replaceParam value params with
  | none => rfl
  | some later => rfl

theorem others_setParam (h : isOffset value=true) :
    (setParam value params).filter (!isOffset ·)=params.filter (!isOffset ·) := by
  induction params with
  | nil =>
    have hvalue : ¬(!isOffset value)=true := by
      rw [h]
      exact Bool.false_ne_true
    rw [setParam,replaceParam,Option.getD_none,nil_append,
      filter_cons_of_neg (p := (!isOffset ·)) hvalue]
  | cons p params ih =>
    cases hp : isOffset p with
    | true =>
      rw [setParam_offset hp,filter_cons,filter_cons,h,hp]
      rfl
    | false => rw [setParam_other hp,filter_cons,filter_cons,ih]

theorem offsets_setParam (h : isOffset value=true)
    (hone : (params.filter isOffset).length≤1) :
    (setParam value params).filter isOffset=[value] := by
  induction params with
  | nil =>
    rw [setParam,replaceParam,Option.getD_none,nil_append,filter_cons_of_pos h]
    rfl
  | cons p params ih =>
    cases hp : isOffset p with
    | true =>
      rw [filter_cons_of_pos hp,length_cons] at hone
      have hnone : params.filter isOffset=[] := eq_nil_of_length_eq_zero (by omega)
      rw [setParam_offset hp,filter_cons_of_pos h,hnone]
    | false =>
      have hnot : ¬isOffset p=true := by
        rw [hp]
        exact Bool.false_ne_true
      rw [filter_cons_of_neg hnot] at hone
      rw [setParam_other hp,filter_cons_of_neg hnot,ih hone]

theorem setParam_setParam (h : isOffset other=true) :
    setParam value (setParam other params)=setParam value params := by
  induction params with
  | nil =>
    have hnew : setParam other []=[other] := rfl
    rw [hnew,setParam_offset h]
    rfl
  | cons p params ih =>
    cases hp : isOffset p with
    | true => rw [setParam_offset hp,setParam_offset hp,setParam_offset h]
    | false => rw [setParam_other hp,setParam_other hp,setParam_other hp,ih]

theorem setParam_inj (h : setParam value params=setParam other params) : value=other := by
  induction params with
  | nil => exact (cons.inj h).1
  | cons p params ih =>
    cases hp : isOffset p with
    | true =>
      rw [setParam_offset hp,setParam_offset hp] at h
      exact (cons.inj h).1
    | false =>
      rw [setParam_other hp,setParam_other hp] at h
      exact ih (cons.inj h).2

theorem mem_setParam_iff {p : List Char} :
    p∈setParam value params ↔ p=value ∨ p∈params.eraseP isOffset := by
  induction params with
  | nil => exact mem_singleton.trans ⟨Or.inl,fun h => h.resolve_right not_mem_nil⟩
  | cons q params ih =>
    cases hq : isOffset q with
    | true => rw [setParam_offset hq,mem_cons,eraseP_cons_of_pos hq]
    | false =>
      have hnot : ¬isOffset q=true := by
        rw [hq]
        exact Bool.false_ne_true
      rw [setParam_other hq,mem_cons,ih,eraseP_cons_of_neg hnot,mem_cons]
      exact or_left_comm

theorem erase_setParam (h : isOffset value=true) :
    (setParam value params).eraseP isOffset=params.eraseP isOffset := by
  induction params with
  | nil => exact eraseP_cons_of_pos h
  | cons q params ih =>
    cases hq : isOffset q with
    | true => rw [setParam_offset hq,eraseP_cons_of_pos h,eraseP_cons_of_pos hq]
    | false =>
      have hnot : ¬isOffset q=true := by
        rw [hq]
        exact Bool.false_ne_true
      rw [setParam_other hq,eraseP_cons_of_neg hnot,eraseP_cons_of_neg hnot,ih]

end params

/-- A text holds a mark of universal addresses. -/
def HoldsMark (text : List Char) : Prop := universalMark <:+: text ∨ transcodeMark <:+: text

variable (u : Url)

/-- A mark stands outside the first offset parameter. -/
def MarkOutside : Prop :=
  HoldsMark u.path ∨ (∃ p∈u.params.eraseP isOffset, HoldsMark p) ∨ HoldsMark u.fragment

/-- The key of an offset stands in a parameter, perhaps inside of its name or value, or in
the fragment; without a query only behind the sign of one. -/
def KeySomewhere : Prop :=
  (∃ p∈u.params, offsetKey <:+: p) ∨
    offsetKey <:+: if u.params = [] then (u.fragment.dropWhile (· != '?')).drop 1 else u.fragment

/-- Some parameter carries an offset. -/
def HasOffset : Prop := ∃ p∈u.params, isOffset p=true

/-- The marks stand where seeks do not change them, and the key of an offset only where
there is an offset. -/
def Regular : Prop := MarkOutside u ∧ (KeySomewhere u → HasOffset u)

open Url

theorem isUniversal_iff : isUniversalTranscodeUrl u.text=true ↔
      HoldsMark u.path ∨ (∃ p∈u.params, HoldsMark p) ∨ HoldsMark u.fragment := by
  have huniversal : universalMark <:+: u.text ↔ universalMark <:+: u.path ∨
      (∃ p∈u.params, universalMark <:+: p) ∨ universalMark <:+: u.fragment :=
    infix_text (by decide) (by decide) (by decide) (by decide) u
  have htranscode : transcodeMark <:+: u.text ↔ transcodeMark <:+: u.path ∨
      (∃ p∈u.params, transcodeMark <:+: p) ∨ transcodeMark <:+: u.fragment :=
    infix_text (by decide) (by decide) (by decide) (by decide) u
  rw [isUniversalTranscodeUrl,Bool.or_eq_true,find_isSome (by decide),find_isSome (by decide),
    huniversal,htranscode]
  constructor
  · rintro ((h | ⟨p,hp,h⟩ | h) | (h | ⟨p,hp,h⟩ | h))
    · exact Or.inl (Or.inl h)
    · exact Or.inr (Or.inl ⟨p,hp,Or.inl h⟩)
    · exact Or.inr (Or.inr (Or.inl h))
    · exact Or.inl (Or.inr h)
    · exact Or.inr (Or.inl ⟨p,hp,Or.inr h⟩)
    · exact Or.inr (Or.inr (Or.inr h))
  · rintro ((h | h) | ⟨p,hp,h | h⟩ | (h | h))
    · exact Or.inl (Or.inl h)
    · exact Or.inr (Or.inl h)
    · exact Or.inl (Or.inr (Or.inl ⟨p,hp,h⟩))
    · exact Or.inr (Or.inr (Or.inl ⟨p,hp,h⟩))
    · exact Or.inl (Or.inr (Or.inr h))
    · exact Or.inr (Or.inr (Or.inr h))

theorem not_holdsMark_offsetParam (ms : ℤ) : ¬HoldsMark (offsetParam ms) := by
  have hslash : '/' ∉ offsetParam ms := by
    intro hmem
    rcases mem_append.mp hmem with hkey | hmem
    · revert hkey
      decide
    · have hdigit := Nat.isDigit_of_mem_toDigits (by decide) (by decide) hmem
      revert hdigit
      decide
  rintro (h | h)
  · exact hslash (h.subset (by decide))
  · exact hslash (h.subset (by decide))

/-- With a new offset an address is one of a universal transcode where a mark stands
outside the old one. -/
theorem isUniversal_setOffset (ms : ℤ) :
    isUniversalTranscodeUrl (setOffset u ms).text=true ↔ MarkOutside u := by
  rw [isUniversal_iff]
  have hparams : (∃ p∈(setOffset u ms).params, HoldsMark p) ↔
      ∃ p∈u.params.eraseP isOffset, HoldsMark p := by
    constructor
    · rintro ⟨p,hp,hmark⟩
      rcases mem_setParam_iff.mp hp with rfl | hp
      · exact absurd hmark (not_holdsMark_offsetParam ms)
      · exact ⟨p,hp,hmark⟩
    · rintro ⟨p,hp,hmark⟩
      exact ⟨p,mem_setParam_iff.mpr (Or.inr hp),hmark⟩
  rw [hparams]
  rfl

theorem regular_setOffset {u : Url} (h : MarkOutside u) (ms : ℤ) : Regular (setOffset u ms) := by
  constructor
  case left =>
    have herase : (setOffset u ms).params.eraseP isOffset=u.params.eraseP isOffset :=
      erase_setParam (isOffset_offsetParam ms)
    unfold MarkOutside
    rw [herase]
    exact h
  case right =>
    exact fun _ => ⟨offsetParam ms,mem_setParam_iff.mpr (Or.inl rfl),isOffset_offsetParam ms⟩

/-- An offset seems to stand in a query where the key of one stands behind the path. -/
theorem urlHasUniversalOffset_iff {u : Url} (h : isUniversalTranscodeUrl u.text=true) :
    urlHasUniversalOffset u.text=true ↔ KeySomewhere u := by
  have hkey : offsetKey≠[] := offsetKey_ne
  have huniversal : ¬(!isUniversalTranscodeUrl u.text)=true := by
    rw [h]
    exact Bool.false_ne_true
  rw [urlHasUniversalOffset,if_neg huniversal,KeySomewhere]
  cases hparams : u.params with
  | nil =>
    have htext : u.text = u.path ++ u.fragment := by
      rw [text,hparams,queryOf,append_nil]
    have hcut : u.fragment.takeWhile (· != '?') ++ u.fragment.dropWhile (· != '?')=u.fragment :=
      takeWhile_append_dropWhile
    have hfront : '?' ∉ u.path ++ u.fragment.takeWhile (· != '?') := by
      rw [mem_append]
      exact fun hmem => hmem.elim u.path_clean.1 (not_mem_takeWhile '?' _)
    rw [if_pos rfl]
    rcases dropWhile_head '?' u.fragment with hrest | hrest
    · rw [hrest,append_nil] at hcut
      rw [hcut] at hfront
      rw [htext,find_char_none hfront,hrest,drop_nil,infix_nil]
      constructor
      · exact fun hfalse => absurd hfalse Bool.false_ne_true
      · rintro (⟨p,hp,_⟩ | hnil)
        · exact absurd hp not_mem_nil
        · exact absurd hnil hkey
    · obtain ⟨c,rest,hcons⟩ : ∃ c rest, u.fragment.dropWhile (· != '?')=c::rest := by
        cases hdrop : u.fragment.dropWhile (· != '?') with
        | nil =>
          rw [hdrop] at hrest
          cases hrest
        | cons c rest => exact ⟨c,rest,rfl⟩
      have hc : c = '?' := by
        rw [hcons] at hrest
        exact Option.some.inj hrest
      rw [hc] at hcons
      have hsplit : u.text = u.path ++ u.fragment.takeWhile (· != '?') ++ '?' :: rest := by
        rw [htext,append_assoc,← hcons,hcut]
      have hdrop : u.text.drop ((u.path ++ u.fragment.takeWhile (· != '?')).length+1)=rest := by
        rw [hsplit,← drop_drop,drop_left]
        rfl
      have hfind : find ['?'] u.text 0 =
          some (u.path ++ u.fragment.takeWhile (· != '?')).length := by
        rw [hsplit]
        exact find_char hfront
      rw [hfind]
      dsimp only
      rw [hdrop,hcons,find_isSome hkey]
      exact ⟨Or.inr,fun h => h.elim (fun hsome => absurd hsome.choose_spec.1 not_mem_nil) id⟩
  | cons p ps =>
    have hsplit : u.text = u.path ++ '?' :: (['&'].intercalate (p::ps) ++ u.fragment) := by
      rw [text,hparams,queryOf,append_assoc]
      rfl
    have hdrop : u.text.drop (u.path.length+1)=['&'].intercalate (p::ps) ++ u.fragment := by
      rw [hsplit,← drop_drop,drop_left]
      rfl
    have hfind : find ['?'] u.text 0=some u.path.length := by
      rw [hsplit]
      exact find_char u.path_clean.1
    rw [hfind]
    dsimp only
    rw [hdrop,find_isSome hkey,infix_append_head hkey (by decide) _ u.fragment_clean,
      infix_intercalate hkey (by decide),if_neg (cons_ne_nil p ps)]

/-- An offset parameter shows its key in the query. -/
theorem HasOffset.key {u : Url} (h : HasOffset u) : KeySomewhere u := by
  obtain ⟨p,hp,hoffset⟩ := h
  exact Or.inl ⟨p,hp,(List.isPrefixOf_iff_prefix.mp hoffset).isInfix⟩

theorem seekOption_ne_headerBlock (headers : List Char) : seekOption≠headerBlock headers := by
  intro h
  have hlast : (headerBlock headers).getLast?=some '\n' := by
    rw [headerBlock]
    split
    case isTrue => simp
    case isFalse hnot =>
      by_contra hne
      exact hnot (Or.inr hne)
  rw [← h] at hlast
  revert hlast
  decide

theorem seekOption_not_mem_headerArgs (headers : List Char) (delayMax : Bool) :
    seekOption ∉ headerArgs headers delayMax := by
  rw [headerArgs]
  split
  · exact not_mem_nil
  · have hfixed : seekOption ∉ ["-reconnect".toList,"1".toList,"-reconnect_streamed".toList,
        "1".toList] := by decide
    have hdelay : seekOption ∉ (if delayMax then ["-reconnect_delay_max".toList,"5".toList]
        else []) := by cases delayMax <;> decide
    intro hmem
    rcases mem_append.mp hmem with hmem | hmem
    · rcases mem_cons.mp hmem with hname | hmem
      · revert hname
        decide
      · rcases mem_cons.mp hmem with hblock | hmem
        · exact seekOption_ne_headerBlock headers hblock
        · exact hfixed hmem
    · exact hdelay hmem

variable {url : List Char}

theorem seekOption_ne_url (h : isUniversalTranscodeUrl url=true) : seekOption≠url := by
  rintro rfl
  revert h
  decide

/-- Among other arguments the option stands where the ones for a start position do. -/
theorem seekOption_mem {front tail : List (List Char)} (hfront : seekOption ∉ front)
    (htail : seekOption ∉ tail) (url : List Char) (startMs : ℤ) :
    seekOption ∈ front ++ seekArgs url startMs ++ tail ↔ seekArgs url startMs≠[] := by
  rw [mem_append,mem_append,or_iff_left htail,or_iff_right hfront,seekArgs]
  split
  · exact ⟨fun _ => cons_ne_nil _ _,fun _ => mem_cons_self⟩
  · exact ⟨fun h => absurd h not_mem_nil,fun h => absurd rfl h⟩

theorem seekOption_not_mem_input (h : isUniversalTranscodeUrl url=true)
    {outputs : List (List Char)} (houtputs : seekOption ∉ outputs) :
    seekOption ∉ "-i".toList::url::outputs := by
  intro hmem
  rcases mem_cons.mp hmem with hname | hmem
  · revert hname
    decide
  · rcases mem_cons.mp hmem with hurl | hmem
    · exact seekOption_ne_url h hurl
    · exact houtputs hmem

open Player

theorem seekOption_mem_args (h : isUniversalTranscodeUrl url=true)
    (player : Player) (headers : List Char) (startMs : ℤ) :
    seekOption∈player.args url headers startMs ↔ seekArgs url startMs≠[] := by
  have hquiet : seekOption ∉ quietArgs := by decide
  have hheader : ∀ delayMax {rest : List (List Char)}, seekOption ∉ rest →
      seekOption ∉ headerArgs headers delayMax ++ rest := by
    intro delayMax rest hrest hmem
    rcases mem_append.mp hmem with hmem | hmem
    · exact seekOption_not_mem_headerArgs headers delayMax hmem
    · exact hrest hmem
  cases player with
  | probe =>
    have houtputs : seekOption ∉ ["-map".toList,"0:a:0".toList,"-frames:a".toList,"1".toList,
        "-f".toList,"null".toList,"-".toList] := by decide
    rw [args,ffmpegHasAudioStream,append_assoc (quietArgs ++ _)]
    exact seekOption_mem hquiet (hheader true (seekOption_not_mem_input h houtputs)) url startMs
  | streamDemux =>
    have hfilter : ∀ elementary : Bool, seekOption ∉
        ["-map".toList,"0:v:0".toList,"-an".toList,"-c:v".toList,"copy".toList] ++
          (if elementary then [] else ["-bsf:v".toList,"h264_mp4toannexb".toList]) ++
          ["-f".toList,"h264".toList,"pipe:1".toList] := by
      intro elementary
      cases elementary <;> decide
    have hformat : ∀ elementary : Bool, seekOption ∉
        (if elementary then ["-f".toList,"h264".toList] else []) := by
      intro elementary
      cases elementary <;> decide
    have hinput := seekOption_not_mem_input h (hfilter (looksElementaryH264 url))
    have hrest : seekOption ∉
        (if looksElementaryH264 url then ["-f".toList,"h264".toList] else []) ++
        ("-i".toList::url::(["-map".toList,"0:v:0".toList,"-an".toList,"-c:v".toList,
          "copy".toList] ++ (if looksElementaryH264 url then [] else
          ["-bsf:v".toList,"h264_mp4toannexb".toList]) ++
          ["-f".toList,"h264".toList,"pipe:1".toList])) := by
      intro hmem
      rcases mem_append.mp hmem with hmem | hmem
      · exact hformat _ hmem
      · exact hinput hmem
    have hargs := seekOption_mem hquiet (hheader false hrest) url startMs
    rw [args,spawnStreamDemux]
    simp only [append_assoc,cons_append,nil_append] at hargs ⊢
    exact hargs
  | remux =>
    have houtputs : seekOption ∉ ["-map".toList,"0:v:0".toList,"-an".toList,"-c:v".toList,
        "copy".toList,"-bsf:v".toList,"h264_mp4toannexb".toList,"-f".toList,"h264".toList,
        "-y".toList,"/tmp/mplex-inproc.h264".toList] := by decide
    rw [args,spawnHttpRemuxMpegts,append_assoc (quietArgs ++ _)]
    exact seekOption_mem hquiet (hheader true (seekOption_not_mem_input h houtputs)) url startMs
  | audioOnly audioDelayMs =>
    have hdelay : ∀ digits : List Char,
        seekOption ≠ "aresample=48000,adelay=".toList ++ digits ++ ":all=1".toList := by
      intro digits hsame
      have hhead : some '-' = some 'a' := congrArg head? hsame
      cases hhead
    have hnames : seekOption ∉ ["-vn".toList,"-map".toList,"0:a:0?".toList,"-af".toList] := by
      decide
    have hformat : seekOption ∉ ["-f".toList,"s16le".toList,"-ac".toList,"2".toList,
        "-ar".toList,"48000".toList,"pipe:3".toList] := by decide
    have houtputs : seekOption ∉ ["-vn".toList,"-map".toList,"0:a:0?".toList,"-af".toList] ++
        ((if audioDelayMs > 0 then
          "aresample=48000,adelay=".toList ++ Nat.toDigits 10 audioDelayMs ++ ":all=1".toList
        else "aresample=48000".toList) ::
        ["-f".toList,"s16le".toList,"-ac".toList,"2".toList,"-ar".toList,"48000".toList,
        "pipe:3".toList]) := by
      intro hmem
      rcases mem_append.mp hmem with hmem | hmem
      · exact hnames hmem
      · rcases mem_cons.mp hmem with hfilter | hmem
        · split at hfilter
          · exact hdelay _ hfilter
          · revert hfilter
            decide
        · exact hformat hmem
    rw [args,spawnAudioOnly,append_assoc (quietArgs ++ _)]
    exact seekOption_mem hquiet (hheader true (seekOption_not_mem_input h houtputs)) url startMs
  | combined =>
    have hnone : seekOption ∉ ([] : List (List Char)) := not_mem_nil
    have hargs := seekOption_mem hnone (hheader true (seekOption_not_mem_input h hnone)) url startMs
    rw [args,combinedInput,append_assoc]
    exact hargs

theorem seekOption_iff {u : Url} (h : isUniversalTranscodeUrl u.text=true) (player : Player)
    (headers : List Char) {startMs : ℤ} (hstart : startMs>0) :
    seekOption∈player.args u.text headers startMs ↔ ¬KeySomewhere u := by
  rw [seekOption_mem_args h,seekArgs,← urlHasUniversalOffset_iff h,Bool.not_eq_true]
  constructor
  · intro hargs
    by_contra hnone
    exact hargs (if_neg fun hboth => hnone hboth.2)
  · intro hnone
    rw [if_pos ⟨hstart,hnone⟩]
    exact cons_ne_nil _ _

/-- In an address a seek changes the offset alone, the last one counts, one offset stays one,
and the players get a start position exactly where there is no offset. -/
structure AppliedOnce (url : List Char) : Prop where
  /-- Path, fragment and the other parameters stay. -/
  others : ∀ ms, (Url.ofText (withUniversalOffset url ms)).path=(Url.ofText url).path ∧
    (Url.ofText (withUniversalOffset url ms)).fragment=(Url.ofText url).fragment ∧
    (Url.ofText (withUniversalOffset url ms)).params.filter (!isOffset ·) =
      (Url.ofText url).params.filter (!isOffset ·)
  /-- A second seek is as if there had been no first one. -/
  last : ∀ a b, withUniversalOffset (withUniversalOffset url a) b=withUniversalOffset url b
  /-- At most one offset becomes exactly one, that of the seek. -/
  single : ((Url.ofText url).params.filter isOffset).length≤1 →
    ∀ ms, (Url.ofText (withUniversalOffset url ms)).params.filter isOffset=[offsetParam ms]
  /-- A player that does not start at the beginning gets its start position exactly where the
  query has no offset. -/
  started : ∀ (player : Player) (headers : List Char) (startMs : ℤ), startMs>0 →
    (seekOption∈player.args url headers startMs ↔
      ∀ p∈(Url.ofText url).params, isOffset p=false)

/-- In every run of seeks every address is one in which a seek is applied once. -/
def SeeksOnce (url : List Char) : Prop :=
  ∀ (startMs durationMs : ℤ) (seeks : List Seek),
    AppliedOnce (seeks.foldl Session.seekMs ⟨url,startMs,durationMs⟩).url

/-- A regular address of a universal transcode. -/
def Steady (url : List Char) : Prop :=
  isUniversalTranscodeUrl url=true ∧ Regular (Url.ofText url)

theorem with_ofText (h : isUniversalTranscodeUrl url=true) (ms : ℤ) :
    withUniversalOffset url ms=(setOffset (Url.ofText url) ms).text := by
  rw [← withUniversalOffset_text,text_ofText]
  rw [text_ofText]
  exact h

theorem Steady.later (h : Steady url) (ms : ℤ) : Steady (withUniversalOffset url ms) := by
  rw [with_ofText h.1]
  refine ⟨(isUniversal_setOffset _ ms).mpr h.2.1,?_⟩
  rw [Url.ofText_text]
  exact regular_setOffset h.2.1 ms

theorem Steady.seekMs {s : Session} (h : Steady s.url) (e : Seek) : Steady (s.seekMs e).url := by
  rw [Session.seekMs]
  split
  · exact h
  · split
    · exact h
    · exact h.later _

/-- Seeks keep the URL steady. -/
theorem Steady.run {s : Session} (h : Steady s.url) (seeks : List Seek) :
    Steady (seeks.foldl Session.seekMs s).url := by
  induction seeks generalizing s with
  | nil => exact h
  | cons e seeks ih => exact ih (h.seekMs e)

theorem Steady.appliedOnce (h : Steady url) : AppliedOnce url where
  others ms := by
    rw [with_ofText h.1,Url.ofText_text]
    exact ⟨rfl,rfl,others_setParam (isOffset_offsetParam ms)⟩
  last a b := by
    have hparams : setOffset (setOffset (ofText url) a) b=setOffset (ofText url) b :=
      Url.ext rfl (setParam_setParam (isOffset_offsetParam a)) rfl
    rw [with_ofText (h.later a).1,with_ofText h.1 a,Url.ofText_text,hparams,with_ofText h.1 b]
  single hone ms := by
    rw [with_ofText h.1,Url.ofText_text]
    exact offsets_setParam (isOffset_offsetParam ms) hone
  started player headers startMs hstart := by
    have huniversal : isUniversalTranscodeUrl (ofText url).text=true := by
      rw [text_ofText]
      exact h.1
    have hoption := seekOption_iff huniversal player headers hstart
    rw [text_ofText] at hoption
    rw [hoption]
    constructor
    · intro hnone p hp
      rw [← Bool.not_eq_true]
      exact fun hoffset => hnone (HasOffset.key ⟨p,hp,hoffset⟩)
    · intro hnone hkey
      obtain ⟨p,hp,hoffset⟩ := h.2.2 hkey
      rw [hnone p hp] at hoffset
      cases hoffset

theorem offsetParam_ne : offsetParam 0≠offsetParam 1000 := by decide

theorem AppliedOnce.regular (huniversal : isUniversalTranscodeUrl url=true)
    (h : AppliedOnce url) : Regular (Url.ofText url) := by
  constructor
  case left =>
    by_contra hinside
    have hlost : isUniversalTranscodeUrl (setOffset (ofText url) 0).text=false := by
      rw [← Bool.not_eq_true,isUniversal_setOffset]
      exact hinside
    have hkept : withUniversalOffset (setOffset (ofText url) 0).text 1000 =
        (setOffset (ofText url) 0).text := by
      rw [withUniversalOffset,hlost]
      rfl
    have hlast := h.last 0 1000
    rw [with_ofText huniversal 0,hkept,with_ofText huniversal 1000] at hlast
    have hsame := congrArg ofText hlast
    rw [Url.ofText_text,Url.ofText_text] at hsame
    exact offsetParam_ne (setParam_inj (congrArg params hsame))
  case right =>
    intro hkey
    by_contra hnone
    have hparams : ∀ p∈(ofText url).params, isOffset p=false := by
      intro p hp
      rw [← Bool.not_eq_true]
      exact fun hoffset => hnone ⟨p,hp,hoffset⟩
    have htext : isUniversalTranscodeUrl (ofText url).text=true := by
      rw [text_ofText]
      exact huniversal
    have hoption := seekOption_iff htext combined [] Int.one_pos
    rw [text_ofText] at hoption
    exact hoption.mp ((h.started combined [] 1 Int.one_pos).mpr hparams) hkey

/-- In every run of seeks from the address of a universal transcode each seek is applied once
exactly when the address is regular. -/
theorem seeksOnce_iff (url : List Char) (h : isUniversalTranscodeUrl url=true) :
    SeeksOnce url ↔ Regular (Url.ofText url) := by
  constructor
  · intro hruns
    exact (hruns 0 0 []).regular h
  · intro hregular startMs durationMs seeks
    have hstart : Steady url := ⟨h,hregular⟩
    exact (Steady.run (s := ⟨url,startMs,durationMs⟩) hstart seeks).appliedOnce

/-- A universal transcode with an ordinary query. -/
def ordinary : List Char := "http://h/video/:/transcode/universal/start?path=1&offset=5#t".toList

/-- There every seek is applied once. -/
theorem seeksOnce_ordinary : SeeksOnce ordinary := by
  have huniversal : isUniversalTranscodeUrl ordinary=true := by decide
  have hmark : HoldsMark (ofText ordinary).path := by
    refine Or.inl ((find_isSome (by decide)).mp ?_)
    decide
  have hoffset : ∃ p∈(ofText ordinary).params, isOffset p=true := by decide
  exact (seeksOnce_iff ordinary huniversal).mpr ⟨Or.inl hmark,fun _ => hoffset⟩

/-- A universal transcode with a parameter whose name ends as the key of an offset does. -/
def misnamed : List Char := "http://h/video/:/transcode/universal/start?audiooffset=5".toList

/-- There the players start at the beginning, whatever the start position is. -/
theorem not_seeksOnce : ¬∀ url, isUniversalTranscodeUrl url=true → SeeksOnce url := by
  intro hall
  have huniversal : isUniversalTranscodeUrl misnamed=true := by decide
  have honce : AppliedOnce misnamed := hall misnamed huniversal 0 0 []
  have hnone : ∀ p∈(ofText misnamed).params, isOffset p=false := by decide
  have hargs : seekOption ∉ combined.args misnamed [] 1000 := by decide
  exact hargs ((honce.started combined [] 1000 (by decide)).mpr hnone)

end Misterplex.UniversalOffset
