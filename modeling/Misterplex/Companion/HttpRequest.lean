import Mathlib.Data.List.Find
import Misterplex.Companion.Routing

/-!
# Requests as their target names them

A request has a method, a path, parameters, header lines and perhaps the start
of a body. What its target names is the handler of its path and the parameters
of exactly the searched names, percent-decoded where they name media. The
server takes just that from the text of a request whose marks stand in the path
and whose parameters are not preceded by their pattern elsewhere.
-/

namespace Misterplex.Companion

open List

/-- A parameter, with a value or without. -/
structure QueryParameter where
  /-- What stands in front of the equals sign. -/
  name : List Char
  /-- What stands behind it, if there is one. -/
  value : Option (List Char)
  /-- A name ends at the equals sign. -/
  name_clean : ∀ c∈name, c ∉ '=' :: valueStops
  /-- A value ends at the next parameter. -/
  value_clean : ∀ v, value=some v → ∀ c∈v, c ∉ valueStops

/-- A header line. -/
structure Header where
  /-- What stands in front of the colon. -/
  name : List Char
  /-- What stands behind it. -/
  value : List Char
  /-- An empty line would end the header lines. -/
  name_ne : name≠[]
  /-- A name ends at the colon. -/
  name_clean : ∀ c∈name, c ∉ [':','\r','\n']
  /-- A value ends with its line. -/
  value_clean : ∀ c∈value, c ∉ ['\r','\n']

/-- A request of the hypertext transfer protocol. -/
structure HttpRequest where
  /-- Method. -/
  method : List Char
  /-- Target up to its parameters. -/
  path : List Char
  /-- Parameters of the target. -/
  query : List QueryParameter
  /-- Version of the protocol. -/
  version : List Char
  /-- Header lines. -/
  headers : List Header
  /-- What was received behind the empty line. -/
  body : List Char
  /-- The method ends at a blank. -/
  method_clean : ∀ c∈method, c ∉ [' ','\r','\n']
  /-- The path ends at a blank or a question mark. -/
  path_clean : ∀ c∈path, c ∉ [' ','?','\r','\n']
  /-- The version ends with its line. -/
  version_clean : ∀ c∈version, c ∉ ['\r','\n']

/-- The parameter as the URL spells it. -/
def QueryParameter.written (p : QueryParameter) : List Char :=
  match p.value with
  | none => p.name
  | some v => p.name ++ '=' :: v

/-- A parameter of a name, with a value. -/
def QueryParameter.isNamed (p : QueryParameter) (key : String) : Bool :=
  p.value.isSome && p.name == key.toList

/-- A header line as it is written. -/
def Header.written (h : Header) : List Char := h.name ++ ':' :: h.value

namespace HttpRequest

variable (r : HttpRequest)

/-- What stands behind the path: the parameters, if there are some. -/
def afterPath : Char := if r.query = [] then ' ' else '?'

/-- The request line up to the end of the path. -/
def line : List Char := r.method ++ ' ' :: (r.path ++ [r.afterPath])

/-- The parameters as they are written, up to the end of the target. -/
def queryText : List QueryParameter → List Char → List Char
  | [],rest => rest
  | [p],rest => p.written ++ ' ' :: rest
  | p::ps,rest => p.written ++ '&' :: queryText ps rest

/-- The header lines as they are written, up to the empty line. -/
def headerText : List Header → List Char → List Char
  | [],rest => '\r' :: '\n' :: rest
  | h::hs,rest => h.written ++ '\r' :: '\n' :: headerText hs rest

/-- The text of a request. -/
def text : List Char :=
  r.line ++ queryText r.query (r.version ++ '\r' :: '\n' :: headerText r.headers r.body)

/-- The value of the parameter of exactly a name. -/
def param (key : String) : List Char :=
  match r.query.find? fun p => p.isNamed key with
  | none => []
  | some p => p.value.getD []

/-- The value of the header line of exactly a name. -/
def header (name : String) : List Char :=
  match r.headers.find? fun h => asciiLower h.name == asciiLower name.toList with
  | none => []
  | some h => trimOws h.value

/-- The pieces of a request in front of the parameter of a name, all of them
when there is none. -/
def piecesBefore (key : String) : List (List Char) :=
  r.method::r.path ::
    ((r.query.takeWhile fun p => !p.isNamed key).map QueryParameter.written ++
      if (r.query.any fun p => p.isNamed key) then []
      else r.version::r.headers.map Header.written ++ [r.body])

/-- The pattern of a parameter does not stand in front of it. -/
def ParamFirst (key : String) : Prop :=
  ∀ piece∈r.piecesBefore key, found (paramPattern key) piece=false

/-- A mark that stands in the request stands in the request line up to the end
of the path. -/
def MarksInPath : Prop := ∀ m : Mark, m.inText r.text=true → m.inText r.line=true

end HttpRequest

/-- The names of the parameters that are looked up. -/
def parameterNames : List String :=
  ["X-Plex-Client-Identifier","clientIdentifier","commandID","token","X-Plex-Token",
    "protocol","port","wait","key","containerKey","playQueueItemID","playQueueVersion",
    "ratingKey","address","machineIdentifier","offset","viewOffset","time",
    "startTimeOffset","playQueueID"]

namespace HttpRequest

variable {r : HttpRequest}

theorem cutLine_append {line : List Char} (h : '\r' ∉ line) (rest : List Char) :
    cutLine (line ++ '\r' :: '\n' :: rest)=some (line,rest) := by
  induction line with
  | nil => rfl
  | cons c line ih =>
    have hc : ¬ (c = '\r' ∧ (line ++ '\r' :: '\n' :: rest).head?=some '\n') :=
      fun hand => h (hand.1 ▸ mem_cons_self)
    rw [cons_append,cutLine,if_neg hc,ih fun hmem => h (mem_cons_of_mem c hmem)]
    rfl

theorem cutColon_append {name : List Char} (h : ':' ∉ name) (value : List Char) :
    cutColon (name ++ ':' :: value)=some (name,value) := by
  induction name with
  | nil => rfl
  | cons c name ih =>
    have hc : c ≠ ':' := fun heq => h (heq ▸ mem_cons_self)
    rw [cons_append,cutColon,if_neg hc,ih fun hmem => h (mem_cons_of_mem c hmem)]
    rfl

theorem written_no_break (h : Header) : '\r' ∉ h.written := by
  intro hmem
  rcases mem_append.mp hmem with hname | hvalue
  · exact h.name_clean '\r' hname (by decide)
  · rcases mem_cons.mp hvalue with heq | hvalue
    · exact absurd heq (by decide)
    · exact h.value_clean '\r' hvalue (by decide)

theorem headerScan_headerText (wanted : List Char) (hs : List Header) (rest : List Char) :
    headerScan wanted (headerText hs rest) =
      match hs.find? fun h => asciiLower h.name == wanted with
      | none => []
      | some h => trimOws h.value := by
  induction hs with
  | nil =>
    have hcut : cutLine (headerText [] rest)=some ([],rest) := rfl
    rw [headerScan,hcut]
    rfl
  | cons h hs ih =>
    have hcut : cutLine (headerText (h::hs) rest)=some (h.written,headerText hs rest) :=
      cutLine_append (written_no_break h) _
    have hcolon : cutColon h.written=some (h.name,h.value) :=
      cutColon_append (fun hmem => h.name_clean ':' hmem (by decide)) h.value
    have hne : h.written≠[] := by
      exact fun hnil => h.name_ne (append_eq_nil_iff.mp hnil).1
    rw [headerScan,hcut]
    dsimp only
    rw [if_neg hne,hcolon]
    dsimp only
    rw [find?_cons]
    by_cases hname : asciiLower h.name=wanted
    · rw [if_pos hname,beq_iff_eq.mpr hname]
    · rw [if_neg hname,beq_eq_false_iff_ne.mpr hname]
      exact ih

theorem queryText_cons (p : QueryParameter) (ps : List QueryParameter) (rest : List Char) :
    ∃ d∈[' ','&'], queryText (p::ps) rest = p.written ++ d::queryText ps rest := by
  cases ps with
  | nil => exact ⟨' ',by decide,rfl⟩
  | cons q ps => exact ⟨'&',by decide,rfl⟩

theorem queryText_append (q : List QueryParameter) (a b : List Char) :
    queryText q (a ++ b) = queryText q a ++ b := by
  induction q with
  | nil => rfl
  | cons p ps ih =>
    cases ps with
    | nil => simp [queryText]
    | cons q ps => simp [queryText,ih]

theorem written_of_isNamed {p : QueryParameter} {key : String} (h : p.isNamed key=true) :
    p.written = paramPattern key ++ p.value.getD [] := by
  unfold QueryParameter.isNamed at h
  rw [Bool.and_eq_true,beq_iff_eq] at h
  obtain ⟨v,hv⟩ := Option.isSome_iff_exists.mp h.1
  unfold QueryParameter.written paramPattern
  rw [hv,h.2]
  simp

theorem paramPattern_ne_nil (key : String) : paramPattern key≠[] :=
  append_ne_nil_of_right_ne_nil _ (cons_ne_nil _ _)

theorem found_nil (key : String) : found (paramPattern key) []=false := by
  have hnil : behind (paramPattern key) []=none := if_neg (paramPattern_ne_nil key)
  rw [found,hnil]
  rfl

/-- A name that no delimiter of a request is part of. -/
def PlainName (key : String) : Prop := ∀ d∈[' ','?','&','\r','\n'], d ∉ paramPattern key

theorem parameterNames_plain : ∀ key∈parameterNames, PlainName key := by
  unfold PlainName
  decide

variable {key : String}

theorem behind_queryText (hkey : PlainName key) (q : List QueryParameter) (rest : List Char)
    (hbefore : ∀ p ∈ q.takeWhile fun p => !p.isNamed key,
      found (paramPattern key) p.written=false) :
    match q.find? fun p => p.isNamed key with
    | none => behind (paramPattern key) (queryText q rest)=behind (paramPattern key) rest
    | some p => ∃ d∈valueStops, ∃ tail,
        behind (paramPattern key) (queryText q rest)=some (p.value.getD [] ++ d::tail) := by
  induction q with
  | nil => rfl
  | cons p ps ih =>
    obtain ⟨d,hd,htext⟩ := queryText_cons p ps rest
    rw [find?_cons]
    cases hnamed : p.isNamed key with
    | true =>
      refine ⟨d,?_,queryText ps rest,?_⟩
      · revert hd
        unfold valueStops
        simp
        rintro (rfl | rfl) <;> simp
      · rw [htext,written_of_isNamed hnamed,append_assoc]
        exact behind_prefix (paramPattern_ne_nil key) _
    | false =>
      have hfirst : p ∈ (p::ps).takeWhile fun p => !p.isNamed key := by
        rw [takeWhile_cons,hnamed]
        exact mem_cons_self
      have hrest := ih fun o ho => hbefore o (by
        rw [takeWhile_cons,hnamed]
        exact mem_cons_of_mem p ho)
      have hdelim : d ∉ paramPattern key := hkey d (by
        revert hd
        simp
        rintro (rfl | rfl) <;> simp)
      have hskip := behind_skip (paramPattern_ne_nil key) hdelim (hbefore p hfirst)
        (queryText ps rest)
      rw [htext,hskip]
      exact hrest

/-- A pattern that stands in no header line and not in the body does not stand
behind the request line. -/
theorem behind_headerText (hkey : PlainName key) (hs : List Header) (body : List Char)
    (hnone : ∀ piece ∈ hs.map Header.written ++ [body],
      found (paramPattern key) piece=false) :
    behind (paramPattern key) (headerText hs body)=none := by
  have hne := paramPattern_ne_nil key
  have hcr : '\r' ∉ paramPattern key := hkey '\r' (by decide)
  have hlf : '\n' ∉ paramPattern key := hkey '\n' (by decide)
  induction hs with
  | nil =>
    have hcrlf := behind_skip hne hcr (found_nil key) ('\n' :: body)
    have hlast := behind_skip hne hlf (found_nil key) body
    have hbody := hnone body (by simp)
    exact hcrlf.trans (hlast.trans (Option.not_isSome_iff_eq_none.mp (by
      rw [← found,hbody]
      exact Bool.false_ne_true)))
  | cons h hs ih =>
    have hline := behind_skip hne hcr (hnone h.written (by simp)) ('\n' :: headerText hs body)
    have hbreak := behind_skip hne hlf (found_nil key) (headerText hs body)
    have hrest := ih fun piece hpiece => hnone piece (mem_cons_of_mem h.written hpiece)
    exact hline.trans (hbreak.trans hrest)

theorem queryParam_text (hkey : PlainName key) (hfirst : r.ParamFirst key) :
    queryParam r.text key=r.param key := by
  have hne := paramPattern_ne_nil key
  have hmethod := hfirst r.method (by simp [piecesBefore])
  have hpath := hfirst r.path (by simp [piecesBefore])
  have hspace : ' ' ∉ paramPattern key := hkey ' ' (by decide)
  have hafter : r.afterPath ∉ paramPattern key := by
    unfold afterPath
    split
    · exact hspace
    · exact hkey '?' (by decide)
  have htext : r.text = r.method ++ ' ' :: (r.path ++ r.afterPath::queryText r.query
      (r.version ++ '\r' :: '\n' :: headerText r.headers r.body)) := by
    simp [text,line]
  have hskip := (behind_skip hne hspace hmethod _).trans (behind_skip hne hafter hpath
    (queryText r.query (r.version ++ '\r' :: '\n' :: headerText r.headers r.body)))
  have hquery := behind_queryText hkey r.query
    (r.version ++ '\r' :: '\n' :: headerText r.headers r.body) fun p hp =>
      hfirst p.written (by
        exact mem_cons_of_mem _ (mem_cons_of_mem _
          (mem_append_left _ (mem_map_of_mem hp))))
  unfold queryParam param
  rw [htext,hskip]
  cases hfind : r.query.find? fun p => p.isNamed key with
  | none =>
    rw [hfind] at hquery
    have hany : (r.query.any fun p => p.isNamed key)=false := by
      rw [any_eq_false]
      exact find?_eq_none.mp hfind
    have hversion := hfirst r.version (by simp [piecesBefore,hany])
    have hcr : '\r' ∉ paramPattern key := hkey '\r' (by decide)
    have hlf : '\n' ∉ paramPattern key := hkey '\n' (by decide)
    have hheaders := behind_headerText hkey r.headers r.body fun piece hpiece =>
      hfirst piece (by
        unfold piecesBefore
        rw [hany]
        exact mem_cons_of_mem _ (mem_cons_of_mem _ (mem_append_right _
          (mem_cons_of_mem _ hpiece))))
    have hrest := (behind_skip hne hcr hversion ('\n' :: headerText r.headers r.body)).trans
      ((behind_skip hne hlf (found_nil key) (headerText r.headers r.body)).trans hheaders)
    rw [hquery,hrest]
  | some p =>
    rw [hfind] at hquery
    obtain ⟨d,hd,tail,hbehind⟩ := hquery
    rw [hbehind]
    apply upTo_append_stop hd
    intro c hc
    cases hvalue : p.value with
    | none =>
      rw [hvalue] at hc
      exact absurd hc not_mem_nil
    | some v =>
      rw [hvalue] at hc
      exact p.value_clean v hvalue c hc

theorem parameter_no_break (p : QueryParameter) : '\r' ∉ p.written := by
  intro hmem
  unfold QueryParameter.written at hmem
  cases hvalue : p.value with
  | none =>
    rw [hvalue] at hmem
    exact p.name_clean '\r' hmem (by decide)
  | some v =>
    rw [hvalue] at hmem
    rcases mem_append.mp hmem with hname | hrest
    · exact p.name_clean '\r' hname (by decide)
    · rcases mem_cons.mp hrest with heq | hv
      · exact absurd heq (by decide)
      · exact p.value_clean v hvalue '\r' hv (by decide)

theorem queryText_no_break (q : List QueryParameter) {rest : List Char} (h : '\r' ∉ rest) :
    '\r' ∉ queryText q rest := by
  induction q with
  | nil => exact h
  | cons p ps ih =>
    obtain ⟨d,hd,htext⟩ := queryText_cons p ps rest
    rw [htext]
    intro hmem
    rcases mem_append.mp hmem with hwritten | htail
    · exact parameter_no_break p hwritten
    · rcases mem_cons.mp htail with heq | hrest
      · exact absurd (heq ▸ hd) (by decide)
      · exact ih hrest

theorem line_no_break (r : HttpRequest) : '\r' ∉ r.line := by
  intro hmem
  rcases mem_append.mp hmem with hmethod | hrest
  · exact r.method_clean '\r' hmethod (by decide)
  · rcases mem_cons.mp hrest with heq | hrest
    · exact absurd heq (by decide)
    · rcases mem_append.mp hrest with hpath | hafter
      · exact r.path_clean '\r' hpath (by decide)
      · have heq := mem_singleton.mp hafter
        unfold afterPath at heq
        split at heq
        · exact absurd heq (by decide)
        · exact absurd heq (by decide)

theorem headerValue_text (name : String) : headerValue r.text name=r.header name := by
  have htext : r.text = (r.line ++ queryText r.query r.version) ++
      '\r' :: '\n' :: headerText r.headers r.body := by
    unfold text
    rw [queryText_append,append_assoc]
  have hbreak : '\r' ∉ r.line ++ queryText r.query r.version := by
    intro hmem
    rcases mem_append.mp hmem with hline | hquery
    · exact line_no_break r hline
    · exact queryText_no_break r.query
        (fun hversion => r.version_clean '\r' hversion (by decide)) hquery
  unfold headerValue header
  rw [htext,cutLine_append hbreak]
  exact headerScan_headerText (asciiLower name.toList) r.headers r.body

theorem inText_of_line {m : Mark} (h : m.inText r.line=true) : m.inText r.text=true := by
  obtain ⟨w,hw,hfound⟩ := any_eq_true.mp h
  exact any_eq_true.mpr ⟨w,hw,found_append hfound _⟩

theorem isPreflight_text (r : HttpRequest) : isPreflight r.text=isPreflight r.line := by
  have hspace : ' ' ∉ "OPTIONS".toList := by decide
  have hline := isPrefixOf_append_delim hspace r.method (r.path ++ [r.afterPath])
  have htext := isPrefixOf_append_delim hspace r.method (r.path ++ [r.afterPath] ++
    queryText r.query (r.version ++ '\r' :: '\n' :: headerText r.headers r.body))
  unfold isPreflight text line
  rw [append_assoc,cons_append,htext,hline]

theorem parseOffsetMs_congr {a b : Lookup}
    (hquery : ∀ key∈parameterNames, a.queryParam key=b.queryParam key) :
    a.parseOffsetMs=b.parseOffsetMs := by
  have hmem : ∀ name∈["offset","viewOffset","time","startTimeOffset"],
      name∈parameterNames := by decide
  have hfind : (["offset","viewOffset","time","startTimeOffset"].find?
      fun name => !(a.queryParam name).isEmpty) =
      ["offset","viewOffset","time","startTimeOffset"].find?
        fun name => !(b.queryParam name).isEmpty := by
    apply find?_congr
    intro name hname
    rw [hquery name (hmem name hname)]
  unfold Lookup.parseOffsetMs
  rw [hfind]
  cases hb : ["offset","viewOffset","time","startTimeOffset"].find?
      fun name => !(b.queryParam name).isEmpty with
  | none => rfl
  | some name =>
    dsimp only
    rw [hquery name (hmem name (mem_of_find?_eq_some hb))]

theorem readParameters_congr {a b : Lookup}
    (hquery : ∀ key∈parameterNames, a.queryParam key=b.queryParam key)
    (hheader : ∀ name∈["X-Plex-Client-Identifier","X-Plex-Token",
      "Access-Control-Request-Headers"], a.headerValue name=b.headerValue name) :
    readParameters a=readParameters b := by
  have hoffset := parseOffsetMs_congr hquery
  simp (disch := decide) only [readParameters,parsePlayRequest,Lookup.controllerId,
    Lookup.token,Lookup.callbackPort,hquery,hheader,hoffset]

/-- A hexadecimal digit of a value. -/
def IsHexDigit (c : Char) (x : ℕ) : Prop :=
  "0123456789abcdef".toList[x]?=some c ∨ "0123456789ABCDEF".toList[x]?=some c

/-- What a percent-encoded text means: an escape is its byte, a plus sign a blank, and a percent
sign without two digits stands for itself. -/
inductive PctText : List Char → List Char → Prop
  | nil : PctText [] []
  | escape {a b : Char} {x y : ℕ} {rest text : List Char} : IsHexDigit a x → IsHexDigit b y →
    PctText rest text → PctText ('%' :: a::b::rest) (Char.ofNat (16*x+y)::text)
  | percent {rest text : List Char} :
    (∀ a b tail x y, rest=a::b::tail → ¬(IsHexDigit a x ∧ IsHexDigit b y)) →
    PctText rest text → PctText ('%' :: rest) ('%' :: text)
  | plus {rest text : List Char} : PctText rest text → PctText ('+' :: rest) (' ' :: text)
  | plain {c : Char} {rest text : List Char} : c ≠ '%' → c ≠ '+' → PctText rest text →
    PctText (c::rest) (c::text)

instance (c : Char) (x : ℕ) : Decidable (IsHexDigit c x) :=
  inferInstanceAs (Decidable (_ ∨ _))

/-- The digits the server takes are the hexadecimal digits, with their values. -/
theorem hexDigit_iff (c : Char) (x : ℕ) : hexDigit c=some x ↔ IsHexDigit c x := by
  constructor
  · intro h
    have hsmall : c.toNat<128 := by
      have hbelow : ∀ d : Char, d.toNat<128 → 128≤c.toNat → ¬c≤d :=
        fun d hd hlarge (hle : c.toNat≤d.toNat) => by omega
      by_contra hlarge
      have hdigit : c.isDigit=false := by
        unfold Char.isDigit
        rw [Bool.and_eq_false_iff,decide_eq_false_iff_not,decide_eq_false_iff_not]
        exact Or.inr (hbelow '9' (by decide) (Nat.le_of_not_lt hlarge))
      unfold hexDigit at h
      rw [hdigit,if_neg Bool.false_ne_true,
        if_neg fun hle => hbelow 'f' (by decide) (Nat.le_of_not_lt hlarge) hle.2,
        if_neg fun hle => hbelow 'F' (by decide) (Nat.le_of_not_lt hlarge) hle.2] at h
      cases h
    have hall : ∀ n<128, ∀ y∈hexDigit (Char.ofNat n), IsHexDigit (Char.ofNat n) y := by decide
    have hdigit := hall c.toNat hsmall x
    rw [Char.ofNat_toNat] at hdigit
    exact hdigit h
  · intro h
    have hmem : (c,x) ∈ "0123456789abcdef".toList.zipIdx ++ "0123456789ABCDEF".toList.zipIdx := by
      rcases h with h | h
      · exact mem_append_left _ (mk_mem_zipIdx_iff_getElem?.mpr h)
      · exact mem_append_right _ (mk_mem_zipIdx_iff_getElem?.mpr h)
    have hall : ∀ p ∈ "0123456789abcdef".toList.zipIdx ++ "0123456789ABCDEF".toList.zipIdx,
        hexDigit p.1=some p.2 := by decide
    exact hall (c,x) hmem

theorem escaped_iff {rest : List Char} {e : Char} : escaped rest=some e ↔
    ∃ a b tail x y, rest=a::b::tail ∧ (IsHexDigit a x ∧ IsHexDigit b y) ∧
      e=Char.ofNat (16*x+y) := by
  constructor
  · intro h
    match rest with
    | [] => cases h
    | [_] => cases h
    | a::b::tail =>
      obtain ⟨x,hx,hrest⟩ := Option.bind_eq_some_iff.mp h
      obtain ⟨y,hy,he⟩ := Option.map_eq_some_iff.mp hrest
      exact ⟨a,b,tail,x,y,rfl,⟨(hexDigit_iff a x).mp hx,(hexDigit_iff b y).mp hy⟩,he.symm⟩
  · rintro ⟨a,b,tail,x,y,rfl,⟨hx,hy⟩,rfl⟩
    rw [escaped,(hexDigit_iff a x).mpr hx,(hexDigit_iff b y).mpr hy]
    rfl

/-- Decoding gives what a text means. The induction is on the length, since an escape skips its
two digits. -/
theorem pctDecode_text (text : List Char) : PctText text (pctDecode text) := by
  induction hlen : text.length using Nat.strong_induction_on generalizing text with
  | _ n ih =>
    unfold pctDecode at ih ⊢
    cases text with
    | nil => exact .nil
    | cons c rest =>
      rw [length_cons] at hlen
      rw [pctDecodeFrom]
      by_cases hpercent : c = '%'
      · rw [if_pos hpercent,hpercent]
        cases hescape : escaped rest with
        | some e =>
          obtain ⟨a,b,tail,x,y,rfl,⟨hx,hy⟩,rfl⟩ := escaped_iff.mp hescape
          exact .escape hx hy (ih tail.length (by simp at hlen; omega) tail rfl)
        | none =>
          refine .percent (fun a b tail x y hrest hdigits => ?_)
            (ih rest.length (by omega) rest rfl)
          have hsome := escaped_iff.mpr ⟨a,b,tail,x,y,hrest,hdigits,rfl⟩
          rw [hescape] at hsome
          cases hsome
      · rw [if_neg hpercent]
        by_cases hplus : c = '+'
        · rw [if_pos hplus,hplus]
          exact .plus (ih rest.length (by omega) rest rfl)
        · rw [if_neg hplus]
          exact .plain hpercent hplus (ih rest.length (by omega) rest rfl)

/-- What a path names, with the methods it is served for. -/
structure Route where
  /-- Path of the target. -/
  path : String
  /-- Methods it is served for. -/
  methods : List String
  /-- Handler of such a request. -/
  handler : Handler
  /-- Its token becomes that of the session. -/
  refreshes : Bool
  /-- The player becomes bound. -/
  binds : Bool

/-- The methods of the protocol, apart from that of a preflight. -/
def allMethods : List String := ["GET","HEAD","POST","PUT","DELETE","CONNECT","TRACE","PATCH"]

/-- The paths of the companion protocol. -/
def routes : List Route :=
  [⟨"/resources",["GET"],.resources,false,true⟩,
    ⟨"/identity",["GET"],.resources,false,false⟩,
    ⟨"/player/timeline/subscribe",allMethods,.subscribe,false,true⟩,
    ⟨"/player/timeline/unsubscribe",allMethods,.unsubscribe,false,true⟩,
    ⟨"/player/timeline/poll",allMethods,.poll,false,true⟩,
    ⟨"/player/proxy/timeline",allMethods,.poll,false,true⟩,
    ⟨"/player/mirror/details",allMethods,.mirror,false,true⟩,
    ⟨"/player/playback/playMedia",allMethods,.playMedia,true,true⟩,
    ⟨"/player/playback/pause",allMethods,.pause,true,true⟩,
    ⟨"/player/playback/play",allMethods,.resumePlay,true,true⟩,
    ⟨"/player/playback/stop",allMethods,.stop,true,true⟩,
    ⟨"/player/playback/seekTo",allMethods,.seek,true,true⟩,
    ⟨"/player/playback/stepForward",allMethods,.step false,true,true⟩,
    ⟨"/player/playback/stepBack",allMethods,.step true,true,true⟩,
    ⟨"/player/playback/skipNext",allMethods,.skipNext,true,true⟩,
    ⟨"/player/playback/skipPrevious",allMethods,.skipPrevious,true,true⟩,
    ⟨"/player/playback/setParameters",allMethods,.acknowledge,true,true⟩,
    ⟨"/",allMethods,.notFound,false,false⟩]

/-- The request line of a route, whether parameters follow or not, has the marks of its row. -/
theorem routes_marks : ∀ route∈routes, ∀ method∈route.methods, ∀ after∈[' ','?'],
    let line := method.toList ++ ' ' :: (route.path.toList ++ [after])
    handlerOf (isPreflight line) (fun m => m.inText line)=route.handler ∧
      refreshesToken (fun m => m.inText line)=route.refreshes ∧
      bindsCast (fun m => m.inText line)=route.binds := by
  decide +kernel

/-- The first of some texts that is not empty. -/
def firstOf (texts : List (List Char)) : List Char := (texts.find? fun t => !t.isEmpty).getD []

/-- What the handlers use is what the parameters of exactly these names give. The header lines of
three names stand in for an absent token and an absent controller and are repeated to a
preflight. -/
structure Gives (r : HttpRequest) (p : Parameters) : Prop where
  /-- The controller, decoded. -/
  controllerId : PctText (firstOf [r.param "X-Plex-Client-Identifier",r.param "clientIdentifier",
    r.header "X-Plex-Client-Identifier"]) p.controllerId
  /-- The token, decoded. -/
  token : PctText (firstOf [r.param "token",r.param "X-Plex-Token",r.header "X-Plex-Token"])
    p.token ∧ p.play.token=String.ofList p.token
  /-- What a preflight asks for. -/
  allowHeaders : p.allowHeaders=r.header "Access-Control-Request-Headers"
  /-- The media key, decoded. -/
  key : PctText (r.param "key") p.play.key.toList
  /-- The address of the server, decoded. -/
  address : PctText (r.param "address") p.play.address.toList
  /-- The container key, decoded: a queue is named by what follows its path, and a library is no
  container. -/
  container : ∃ c, PctText (r.param "containerKey") c ∧
    if found "/playQueues/".toList c then p.play.containerKey = String.ofList c ∧
      p.play.playQueueId=String.ofList (upTo ['?'] (c.drop 12))
    else p.play.containerKey = (if found "/library/".toList c then "" else String.ofList c) ∧
      p.play.playQueueId=String.ofList (r.param "playQueueID")
  /-- The rating key as it was sent. -/
  ratingKey : r.param "ratingKey" ≠ [] → p.play.ratingKey=String.ofList (r.param "ratingKey")
  /-- An absent rating key is the number in the media key. -/
  ratingOfKey : r.param "ratingKey" = [] → ∀ id tail, Decimal.Digits id →
    (∀ c∈tail.head?, c.isDigit=false) →
    p.play.key.toList = "/library/metadata/".toList ++ (id ++ tail) →
    p.play.ratingKey=String.ofList id
  /-- Identifiers are used as they were sent. -/
  verbatim : p.commandID=r.param "commandID" ∧ p.stepOffset=r.param "offset" ∧
    p.play.playQueueItemId=String.ofList (r.param "playQueueItemID") ∧
    p.play.playQueueVersion=String.ofList (r.param "playQueueVersion") ∧
    p.play.protocol=String.ofList (r.param "protocol") ∧
    p.play.port=String.ofList (r.param "port") ∧
    p.play.serverMachineId=String.ofList (r.param "machineIdentifier")
  /-- The protocol of a subscriber. -/
  protocol : p.protocol=asciiLower (firstOf [r.param "protocol","http".toList])
  /-- The port of a subscriber. -/
  port : ∀ ds, ds≠[] → Decimal.Digits ds → r.param "port" = ds →
    p.port = if Decimal.value ds ≤ 65535 then Decimal.value ds else 0
  /-- Whether a poll waits. -/
  wait : p.wait=true ↔ r.param "wait" = "1".toList
  /-- The position is that of the first name that has one. -/
  offset : ∀ w, firstOf [r.param "offset",r.param "viewOffset",r.param "time",
      r.param "startTimeOffset"]=w →
    p.offset=(atoll w,!w.isEmpty) ∧ (Decimal.Digits w → p.offset.1=Decimal.value w) ∧
      p.play.offsetMs=p.offset.1 ∧ p.play.offsetPresent=p.offset.2

theorem pctDecode_eq_nil_iff (text : List Char) : pctDecode text=[] ↔ text=[] := by
  cases text with
  | nil => exact iff_of_true rfl rfl
  | cons c text =>
    refine iff_of_false ?_ (cons_ne_nil c text)
    unfold pctDecode pctDecodeFrom
    split
    · split
      · exact cons_ne_nil _ _
      · exact cons_ne_nil _ _
    · split
      · exact cons_ne_nil _ _
      · exact cons_ne_nil _ _

theorem firstOf_cons (a : List Char) (texts : List (List Char)) :
    firstOf (a::texts)=Lookup.orElse a (firstOf texts) := by
  cases a with
  | nil => rfl
  | cons c a => rfl

theorem orElse_decoded (a b : List Char) :
    Lookup.orElse (pctDecode a) (pctDecode b)=pctDecode (Lookup.orElse a b) := by
  unfold Lookup.orElse
  by_cases ha : a=[]
  · rw [if_pos ha,if_pos ((pctDecode_eq_nil_iff a).mpr ha)]
  · rw [if_neg ha,if_neg fun h => ha ((pctDecode_eq_nil_iff a).mp h)]

theorem firstOf_decoded (a b c : List Char) :
    Lookup.orElse (Lookup.orElse (pctDecode a) (pctDecode b)) (pctDecode c) =
      pctDecode (firstOf [a,b,c]) := by
  rw [orElse_decoded,orElse_decoded]
  cases a with
  | cons d a => rfl
  | nil =>
    cases b with
    | cons d b => rfl
    | nil => cases c <;> rfl

/-- The digits at the start of a text that goes on with something else. -/
theorem takeWhile_digits {ds tail : List Char} (hds : Decimal.Digits ds)
    (htail : ∀ c∈tail.head?, c.isDigit=false) : (ds ++ tail).takeWhile Char.isDigit=ds := by
  rw [takeWhile_append_of_pos hds]
  cases tail with
  | nil => simp
  | cons c tail => rw [takeWhile_cons,htail c rfl,if_neg Bool.false_ne_true,append_nil]

theorem leadingNat_digits {ds : List Char} (hds : Decimal.Digits ds) :
    ds.takeWhile Char.isDigit=ds ∧ leadingNat ds=Decimal.value ds := by
  have htake : (ds ++ []).takeWhile Char.isDigit=ds :=
    takeWhile_digits hds fun c hc => absurd hc (Option.not_mem_none c)
  rw [append_nil] at htake
  unfold leadingNat
  rw [htake]
  exact ⟨rfl,rfl⟩

/-- Digits have neither blanks nor a sign in front. -/
theorem cutSign_digits {ds : List Char} (hds : Decimal.Digits ds) :
    cutSign (ds.dropWhile isSpace)=(false,ds) := by
  cases ds with
  | nil => rfl
  | cons c ds =>
    have hc : c.isDigit=true := hds c mem_cons_self
    have hlow : '0'.toNat≤c.toNat := by
      exact of_decide_eq_true (Bool.and_eq_true_iff.mp hc).1
    have hother : ∀ d : Char, d.toNat < '0'.toNat → c≠d := by
      rintro d hd rfl
      omega
    have hspace : isSpace c=false := by
      unfold isSpace
      rw [Bool.or_eq_false_iff,beq_eq_false_iff_ne,Bool.and_eq_false_iff,
        decide_eq_false_iff_not,decide_eq_false_iff_not]
      exact ⟨hother ' ' (by decide),Or.inr fun (hle : c.toNat ≤ '\r'.toNat) =>
        absurd (hlow.trans hle) (by decide)⟩
    rw [dropWhile_cons,hspace,if_neg Bool.false_ne_true]
    unfold cutSign
    split
    · rename_i heq
      exact absurd (cons.inj heq).1 (hother '-' (by decide))
    · rename_i heq
      exact absurd (cons.inj heq).1 (hother '+' (by decide))
    · rfl

theorem parseOffsetMs_eq (q : Lookup) : q.parseOffsetMs =
    (atoll (firstOf (["offset","viewOffset","time","startTimeOffset"].map q.queryParam)),
      !(firstOf (["offset","viewOffset","time","startTimeOffset"].map
        q.queryParam)).isEmpty) := by
  unfold Lookup.parseOffsetMs firstOf
  rw [find?_map,Function.comp_def]
  cases hfind : ["offset","viewOffset","time","startTimeOffset"].find?
      fun name => !(q.queryParam name).isEmpty with
  | none => rfl
  | some name =>
    have hsome := find?_some hfind
    exact Prod.ext rfl hsome.symm

theorem gives_readParameters (r : HttpRequest) : r.Gives (readParameters ⟨r.param,r.header⟩) := by
  constructor
  case controllerId =>
    show PctText _ (Lookup.controllerId _)
    unfold Lookup.controllerId
    rw [firstOf_decoded]
    exact pctDecode_text _
  case token =>
    refine ⟨?_,rfl⟩
    show PctText _ (Lookup.token _)
    unfold Lookup.token
    rw [firstOf_decoded]
    exact pctDecode_text _
  case allowHeaders => rfl
  case key =>
    show PctText _ (String.ofList _).toList
    rw [String.toList_ofList]
    exact pctDecode_text _
  case address =>
    show PctText _ (String.ofList _).toList
    rw [String.toList_ofList]
    exact pctDecode_text _
  case container =>
    refine ⟨pctDecode (r.param "containerKey"),pctDecode_text _,?_⟩
    unfold readParameters parsePlayRequest
    dsimp only
    by_cases hqueue : found "/playQueues/".toList (pctDecode (r.param "containerKey"))=true
    · rw [if_pos hqueue,if_pos hqueue,hqueue]
      exact ⟨rfl,rfl⟩
    · rw [if_neg hqueue,if_neg hqueue,Bool.eq_false_iff.mpr hqueue]
      exact ⟨rfl,rfl⟩
  case ratingKey =>
    intro hsent
    exact congrArg String.ofList (if_neg hsent)
  case ratingOfKey =>
    intro habsent id tail hid htail hkey
    have hkey' : pctDecode (r.param "key") = "/library/metadata/".toList ++ (id ++ tail) :=
      (String.toList_ofList ▸ hkey :)
    show String.ofList (Lookup.orElse _ _)=_
    unfold Lookup.orElse
    rw [if_pos habsent,hkey']
    exact congrArg String.ofList (takeWhile_digits hid htail)
  case verbatim => exact ⟨rfl,rfl,rfl,rfl,rfl,rfl,rfl⟩
  case protocol =>
    rw [firstOf_cons]
    rfl
  case port =>
    intro ds hne hds hport
    show Lookup.callbackPort _ = _
    unfold Lookup.callbackPort
    dsimp only
    obtain ⟨htake,hvalue⟩ := leadingNat_digits hds
    rw [hport,cutSign_digits hds]
    simp only [htake,hvalue,hne,ne_eq,not_true_eq_false,Bool.false_eq_true,false_and,
      false_or,if_false]
    by_cases hport : Decimal.value ds≤65535
    · split <;> omega
    · rw [if_neg hport,if_pos (Or.inr (by omega))]
  case wait => exact beq_iff_eq
  case offset =>
    intro w hw
    have hoffset : (Lookup.mk r.param r.header).parseOffsetMs=(atoll w,!w.isEmpty) :=
      hw ▸ parseOffsetMs_eq ⟨r.param,r.header⟩
    refine ⟨hoffset,fun hds => ?_,rfl,rfl⟩
    show (Lookup.parseOffsetMs _).1=_
    rw [hoffset]
    unfold atoll
    rw [cutSign_digits hds]
    exact congrArg Int.ofNat (leadingNat_digits hds).2

/-- Everything read depends on the parameters of the searched names and on three header lines. -/
def SameNamed (r s : HttpRequest) : Prop :=
  (∀ key∈parameterNames, r.param key=s.param key) ∧
    ∀ name∈["X-Plex-Client-Identifier","X-Plex-Token","Access-Control-Request-Headers"],
      r.header name=s.header name

theorem taken_line (hmarks : r.MarksInPath) :
    (taken r.text).handler=handlerOf (isPreflight r.line) (fun m => m.inText r.line) ∧
      (taken r.text).refreshesToken=refreshesToken (fun m => m.inText r.line) ∧
      (taken r.text).bindsCast=bindsCast (fun m => m.inText r.line) := by
  have hhas : (fun m : Mark => m.inText r.text) = fun m => m.inText r.line := by
    funext m
    rw [Bool.eq_iff_iff]
    exact ⟨hmarks m,inText_of_line⟩
  unfold taken
  rw [isPreflight_text,hhas]
  exact ⟨rfl,rfl,rfl⟩

theorem taken_parameters (hparams : ∀ key∈parameterNames, r.ParamFirst key) :
    (taken r.text).parameters=readParameters ⟨r.param,r.header⟩ :=
  readParameters_congr
    (fun key hkey => queryParam_text (parameterNames_plain key hkey) (hparams key hkey))
    fun name _ => headerValue_text name

/-- A parameter with a plain name and value. -/
def keyParameter (name : String) (h : ∀ c∈name.toList, c ∉ '=' :: valueStops) (value : String)
    (hv : ∀ c∈value.toList, c ∉ valueStops) : QueryParameter :=
  ⟨name.toList,some value.toList,h,fun _ hvalue => Option.some.inj hvalue ▸ hv⟩

/-- A token among the header lines. -/
def tokenHeader : Header := ⟨"X-Plex-Token".toList," abc".toList,by decide,by decide,by decide⟩

/-- A cast with some parameters and header lines. -/
def castRequest (query : List QueryParameter) (headers : List Header) : HttpRequest :=
  { method := "GET".toList, path := "/player/playback/playMedia".toList, query := query,
    version := "HTTP/1.1".toList, headers := headers, body := [], method_clean := by decide,
    path_clean := by decide, version_clean := by decide }

/-- The key of a title, with an escaped slash. -/
def titleKey : QueryParameter := keyParameter "key" (by decide) "%2F2" (by decide)

/-- A cast with a key behind a longer name that does not end in it, and a token among its header
lines. -/
def plainCast : HttpRequest :=
  castRequest [keyParameter "keyframes" (by decide) "1" (by decide),titleKey] [tokenHeader]

end HttpRequest

end Misterplex.Companion
