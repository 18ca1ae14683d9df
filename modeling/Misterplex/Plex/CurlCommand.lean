import Misterplex.Lib.Shell
import Misterplex.Plex.Universal

/-!
# The command lines of the server requests

A request to the media server is a command line for the shell. Addresses, tokens
and header values come from the network, so each is put between apostrophes.
-/

namespace Misterplex.Plex

open Misterplex.Companion List

/-- A text between apostrophes; an apostrophe of its own stands behind a backslash. -/
def shellQuote (s : List Char) : List Char :=
  s.foldl (fun o c => if c = '\'' then o ++ "'\\''".toList else o ++ [c]) ['\''] ++ ['\'']

/-- The arguments of the headers of a request. -/
def curlHeaderArgs (headers : List (List Char × List Char)) : List Char :=
  headers.foldl
    (fun args h =>
      if h.1.isEmpty then args
      else args ++ " -H ".toList ++ shellQuote (h.1 ++ ": ".toList ++ h.2)) []

/-- The headers that name the player, as both requests write them. -/
def identityArgs : List Char :=
  " -H 'X-Plex-Client-Identifier: misterplex'".toList ++
  " -H 'X-Plex-Product: Plex Web'".toList ++
  " -H 'X-Plex-Version: 4.125.0'".toList ++
  " -H 'X-Plex-Platform: Chrome'".toList ++
  " -H 'X-Plex-Platform-Version: 120.0'".toList ++
  " -H 'X-Plex-Device: Linux'".toList ++
  " -H 'X-Plex-Device-Name: Chrome'".toList ++
  " -H 'X-Plex-Client-Profile-Name: MiSTerPlex'".toList ++
  " -H 'X-Plex-Model: bundled'".toList ++
  " -H 'X-Plex-Provides: player'".toList

variable (url : List Char)

/-- The command line of a request whose answer is read. -/
def httpGetCommand (timeoutSec : ℤ) (extraHeaders : List Char) : List Char :=
  "curl -sS -g -k -L --http1.1 --connect-timeout 6 --max-time ".toList ++ intText timeoutSec ++
  " -H 'Accept: application/xml'".toList ++ identityArgs ++
  (if extraHeaders.isEmpty then [] else extraHeaders) ++
  " ".toList ++ shellQuote url ++ " 2>/dev/null".toList

/-- A header of this name is among those of the request. -/
def hasHeader (headers : List (List Char × List Char)) (name : List Char) : Bool :=
  headers.any fun h => h.1 == name

/-- The command line of a request of which only the status is read. -/
def noBodyCommand (headers : List (List Char × List Char)) (timeoutSec : ℤ) : List Char :=
  let defaultIdentity := !hasHeader headers "X-Plex-Client-Identifier".toList
  "curl -sS -g -k -L --http1.1 --connect-timeout 6 --max-time ".toList ++ intText timeoutSec ++
  " -o /dev/null -w '%{http_code}' -H 'Accept: application/xml'".toList ++
  (if defaultIdentity then identityArgs else []) ++
  curlHeaderArgs headers ++ " ".toList ++ shellQuote url ++ " 2>/dev/null".toList

/-- The text that is handed over: what stands in front of the first zero byte. -/
def cString (text : List Char) : List Char := text.takeWhile (· != '\x00')

open Shell

theorem run_shellQuote_body (s : List Char) (o w : List Char) (command : Shell.Command)
    {start : Shell.Scan}
    (h : start.run o=some ⟨.quoted,some w,false,none,command⟩) :
    start.run (s.foldl (fun o c => if c = '\'' then o ++ "'\\''".toList else o ++ [c]) o) =
      some ⟨.quoted,some (w ++ s),false,none,command⟩ := by
  induction s generalizing o w with
  | nil => rw [foldl_nil,append_nil,h]
  | cons c s ih =>
    have hnext : start.run (if c = '\'' then o ++ "'\\''".toList else o ++ [c]) =
        some ⟨.quoted,some (w ++ [c]),false,none,command⟩ := by
      by_cases hc : c = '\''
      · rw [if_pos hc,run_append_of h,hc]
        rfl
      · rw [if_neg hc,run_append_of h,run_cons,step_quoted rfl hc]
        rfl
    have hrest := ih _ _ hnext
    rw [append_assoc] at hrest
    exact hrest

theorem spells_shellQuote (s : List Char) : Shell.Spells (shellQuote s) s := by
  intro command
  have hopen : (Shell.Scan.between command).run ['\''] =
      some ⟨.quoted,some [],false,none,command⟩ := rfl
  have hbody := run_shellQuote_body s ['\''] [] command hopen
  refine ⟨false,?_⟩
  rw [shellQuote,run_append_of hbody]
  rfl

theorem spells_intText (n : ℤ) : Shell.Spells (intText n) (intText n) := by
  have hdigits : ∀ c∈Nat.toDigits 10 n.natAbs, Shell.isPlain c=true := fun c hc =>
    Shell.isPlain_of_isDigit (Nat.isDigit_of_mem_toDigits (by decide) (by decide) hc)
  have hne : Nat.toDigits 10 n.natAbs≠[] := Nat.toDigits_ne_nil
  rw [intText]
  split
  case isTrue =>
    refine Shell.spells_plain (List.cons_ne_nil _ _) fun c hc => ?_
    rcases mem_cons.mp hc with rfl | hc
    · decide
    · exact hdigits c hc
  case isFalse => exact Shell.spells_plain hne hdigits

/-- The options of every request. -/
def options : List (List Char) :=
  ["-sS","-g","-k","-L","--http1.1","--connect-timeout","6","--max-time"].map String.toList

/-- The program, its options and the time limit. -/
def optionWords (timeoutSec : ℤ) : List (List Char) :=
  "curl".toList::options ++ [intText timeoutSec]

/-- The arguments of one header line. -/
def headerLine (line : List Char) : List (List Char) := ["-H".toList,line]

/-- The form of answer that is asked for. -/
def acceptWords : List (List Char) := headerLine "Accept: application/xml".toList

/-- The header lines that name the player. -/
def identityWords : List (List Char) :=
  ["X-Plex-Client-Identifier: misterplex","X-Plex-Product: Plex Web","X-Plex-Version: 4.125.0",
    "X-Plex-Platform: Chrome","X-Plex-Platform-Version: 120.0","X-Plex-Device: Linux",
    "X-Plex-Device-Name: Chrome","X-Plex-Client-Profile-Name: MiSTerPlex",
    "X-Plex-Model: bundled","X-Plex-Provides: player"].flatMap fun line => headerLine line.toList

/-- Each header as one argument behind its option. -/
def headerWords (headers : List (List Char × List Char)) : List (List Char) :=
  headers.flatMap fun h => headerLine (h.1 ++ ": ".toList ++ h.2)

/-- The arguments of a request whose answer is read. -/
def httpGetWords (headers : List (List Char × List Char)) (timeoutSec : ℤ) : List (List Char) :=
  optionWords timeoutSec ++ acceptWords ++ identityWords ++ headerWords headers ++ [url]

/-- The arguments of a request of which only the status is read. -/
def noBodyWords (headers : List (List Char × List Char)) (timeoutSec : ℤ) : List (List Char) :=
  optionWords timeoutSec ++ ["-o","/dev/null","-w","%{http_code}"].map String.toList ++
  acceptWords ++
  (if !hasHeader headers "X-Plex-Client-Identifier".toList then identityWords else []) ++
  headerWords headers ++ [url]

theorem adds_headerLine (line : List Char) :
    Shell.Adds (" -H ".toList ++ shellQuote line) (headerLine line) := by
  have hoption : Shell.Spells "-H".toList "-H".toList := Shell.spells_plain (by decide) (by decide)
  have hboth := (Shell.adds_word hoption).append (Shell.adds_word (spells_shellQuote line))
  exact hboth

theorem curlHeaderArgs_eq (headers : List (List Char × List Char)) :
    curlHeaderArgs headers = (headers.filter fun h => !h.1.isEmpty).flatMap
      fun h => " -H ".toList ++ shellQuote (h.1 ++ ": ".toList ++ h.2) := by
  have hfold : ∀ args : List Char, headers.foldl
      (fun args h =>
        if h.1.isEmpty then args
        else args ++ " -H ".toList ++ shellQuote (h.1 ++ ": ".toList ++ h.2)) args =
      args ++ (headers.filter fun h => !h.1.isEmpty).flatMap
        fun h => " -H ".toList ++ shellQuote (h.1 ++ ": ".toList ++ h.2) := by
    induction headers with
    | nil => exact fun args => (append_nil args).symm
    | cons h headers ih =>
      intro args
      rw [foldl_cons,ih]
      by_cases hname : h.1.isEmpty=true
      · rw [if_pos hname,filter_cons,hname]
        rfl
      · have hkept : (!h.1.isEmpty)=true := by
          rw [Bool.not_eq_true] at hname
          rw [hname]
          rfl
        have hfilter : (h::headers).filter (fun h => !h.1.isEmpty) =
            h::headers.filter fun h => !h.1.isEmpty := filter_cons_of_pos hkept
        rw [if_neg hname,hfilter,flatMap_cons]
        simp only [append_assoc]
  exact hfold []

theorem adds_curlHeaderArgs (headers : List (List Char × List Char)) :
    Shell.Adds (curlHeaderArgs headers) (headerWords (headers.filter fun h => !h.1.isEmpty)) := by
  rw [curlHeaderArgs_eq]
  exact adds_flatMap fun h _ => adds_headerLine (h.1 ++ ": ".toList ++ h.2)

theorem adds_identityArgs : Shell.Adds identityArgs identityWords := by
  have hlines : identityArgs =
      ["X-Plex-Client-Identifier: misterplex","X-Plex-Product: Plex Web",
        "X-Plex-Version: 4.125.0","X-Plex-Platform: Chrome","X-Plex-Platform-Version: 120.0",
        "X-Plex-Device: Linux","X-Plex-Device-Name: Chrome",
        "X-Plex-Client-Profile-Name: MiSTerPlex","X-Plex-Model: bundled",
        "X-Plex-Provides: player"].flatMap
        fun line => " -H ".toList ++ shellQuote line.toList := by
    decide +kernel
  rw [hlines,identityWords]
  exact adds_flatMap fun line _ => adds_headerLine line.toList

theorem run_options (timeoutSec : ℤ) :
    ∃ s, Shell.Scan.start.run
        ("curl -sS -g -k -L --http1.1 --connect-timeout 6 --max-time ".toList ++
          intText timeoutSec)=some s ∧
      s.Settled ∧ s.words=optionWords timeoutSec ∧ s.command.redirects=[] := by
  have htext : "curl -sS -g -k -L --http1.1 --connect-timeout 6 --max-time ".toList ++
      intText timeoutSec =
      "curl".toList ++ (options.flatMap (fun o => ' ' :: o) ++ ' ' :: intText timeoutSec) := by
    have hfixed : "curl -sS -g -k -L --http1.1 --connect-timeout 6 --max-time ".toList =
        "curl".toList ++ (options.flatMap (fun o => ' ' :: o) ++ [' ']) := by
      decide
    rw [hfixed]
    simp only [append_assoc,singleton_append]
  have hcurl : Shell.Scan.start.run "curl".toList =
      some ⟨.bare,some "curl".toList,true,none,⟨[],[]⟩⟩ :=
    run_plain_word (by decide) (by decide) ⟨[],[]⟩
  have hplain : ∀ o∈options, Shell.Spells o o := by
    have hall : ∀ o∈options, o≠[] ∧ ∀ c∈o, Shell.isPlain c=true := by decide
    exact fun o ho => Shell.spells_plain (hall o ho).1 (hall o ho).2
  have hadds := (Shell.adds_words hplain).append (Shell.adds_word (spells_intText timeoutSec))
  obtain ⟨s,hrun,hs,hwords,hredirects⟩ :=
    hadds ⟨.bare,some "curl".toList,true,none,⟨[],[]⟩⟩ ⟨rfl,rfl,fun h => nomatch h⟩
  refine ⟨s,?_,hs,?_,hredirects⟩
  · rw [htext,run_append_of hcurl,hrun]
  · rw [hwords,map_id']
    rfl

/-- Errors are thrown away. -/
def quiet : Shell.Redirect := ⟨2,"/dev/null".toList⟩

theorem parse_request (timeoutSec : ℤ) {middle : List Char} {ws : List (List Char)}
    (h : Shell.Adds middle ws) (url : List Char) :
    Shell.parse ("curl -sS -g -k -L --http1.1 --connect-timeout 6 --max-time ".toList ++
        intText timeoutSec ++ middle ++ " ".toList ++ shellQuote url ++ " 2>/dev/null".toList) =
      some ⟨optionWords timeoutSec ++ ws ++ [url],[quiet]⟩ := by
  obtain ⟨s,hrun,hs,hwords,hredirects⟩ := run_options timeoutSec
  obtain ⟨s',hrun',hs',hwords',hredirects'⟩ :=
    (h.append (Shell.adds_word (spells_shellQuote url))) s hs
  have hall : s'.words = optionWords timeoutSec ++ ws ++ [url] := by
    rw [hwords',hwords,append_assoc]
  have hfirst : (s'.words.head?.map String.ofList).any reserved.contains=false := by
    rw [hall]
    show reserved.contains (String.ofList "curl".toList)=false
    decide
  have hdigit : Decimal.Digits ['2'] := by
    intro c hc
    rw [mem_singleton.mp hc]
    rfl
  have hdevice : ∀ c ∈ "/dev/null".toList, Shell.isPlain c=true := by decide
  have hend := Shell.finish_redirect hs' (List.cons_ne_nil '2' []) hdigit (by decide) hdevice hfirst
  have htext : "curl -sS -g -k -L --http1.1 --connect-timeout 6 --max-time ".toList ++
      intText timeoutSec ++ middle ++ " ".toList ++ shellQuote url ++ " 2>/dev/null".toList =
      ("curl -sS -g -k -L --http1.1 --connect-timeout 6 --max-time ".toList ++
        intText timeoutSec) ++
      ((middle ++ ' ' :: shellQuote url) ++ (' ' :: ['2'] ++ '>' :: "/dev/null".toList)) := by
    simp only [append_assoc]
    rfl
  rw [htext,parse,run_append_of hrun,run_append_of hrun',hend,hall,
    hredirects',hredirects]
  rfl

theorem cString_of_not_mem {text : List Char} (h : '\x00' ∉ text) : cString text=text := by
  refine takeWhile_eq_self_iff.mpr fun c hc => bne_iff_ne.mpr ?_
  rintro rfl
  exact h hc

theorem not_mem_shellQuote {s : List Char} (h : '\x00' ∉ s) : '\x00' ∉ shellQuote s := by
  have hbody : ∀ o : List Char, '\x00' ∉ o → '\x00' ∉ s.foldl
      (fun o c => if c = '\'' then o ++ "'\\''".toList else o ++ [c]) o := by
    induction s with
    | nil => exact fun o ho => ho
    | cons c s ih =>
      intro o ho
      rw [foldl_cons]
      refine ih (fun hs => h (mem_cons_of_mem c hs)) _ ?_
      split
      case isTrue => exact not_mem_append ho (by decide)
      case isFalse =>
        refine not_mem_append ho fun hc => h ?_
        rw [mem_singleton.mp hc]
        exact mem_cons_self
  exact not_mem_append (hbody ['\''] (by decide)) (by decide)

theorem not_mem_curlHeaderArgs {headers : List (List Char × List Char)}
    (h : ∀ p∈headers, '\x00' ∉ p.1 ∧ '\x00' ∉ p.2) : '\x00' ∉ curlHeaderArgs headers := by
  rw [curlHeaderArgs_eq]
  intro hmem
  obtain ⟨p,hp,hin⟩ := mem_flatMap.mp hmem
  obtain ⟨hname,hvalue⟩ := h p (mem_filter.mp hp).1
  have hline : '\x00' ∉ p.1 ++ ": ".toList ++ p.2 :=
    not_mem_append (not_mem_append hname (by decide)) hvalue
  exact not_mem_append (by decide) (not_mem_shellQuote hline) hin

theorem not_mem_intText (n : ℤ) : '\x00' ∉ intText n := by
  intro h
  have hplain := intText_plain n _ h
  revert hplain
  decide

theorem cString_request (timeoutSec : ℤ) {middle url : List Char} (hmiddle : '\x00' ∉ middle)
    (hurl : '\x00' ∉ url) :
    cString ("curl -sS -g -k -L --http1.1 --connect-timeout 6 --max-time ".toList ++
        intText timeoutSec ++ middle ++ " ".toList ++ shellQuote url ++ " 2>/dev/null".toList) =
      "curl -sS -g -k -L --http1.1 --connect-timeout 6 --max-time ".toList ++
        intText timeoutSec ++ middle ++ " ".toList ++ shellQuote url ++
        " 2>/dev/null".toList := by
  refine cString_of_not_mem ?_
  refine not_mem_append (not_mem_append (not_mem_append (not_mem_append
    (not_mem_append ?_ (not_mem_intText timeoutSec)) hmiddle) ?_) (not_mem_shellQuote hurl)) ?_
  all_goals decide

theorem hasHeader_filter (headers : List (List Char × List Char)) {name : List Char}
    (hname : name≠[]) :
    hasHeader (headers.filter fun h => !h.1.isEmpty) name=hasHeader headers name := by
  rw [hasHeader,hasHeader,any_filter]
  congr 1
  funext h
  cases hfirst : h.1 with
  | nil =>
    have hother : (([] : List Char) == name)=false := beq_false_of_ne hname.symm
    rw [hother]
    rfl
  | cons c rest => rfl

theorem append_middle (a b c d e f g h : List Char) :
    a ++ b ++ c ++ d ++ e ++ f ++ g ++ h = a ++ b ++ (c ++ d ++ e) ++ f ++ g ++ h := by
  simp only [append_assoc]

/-- A request whose answer is read, with what stands between its limit and its address. -/
theorem httpGetCommand_eq (timeoutSec : ℤ) (extraHeaders : List Char) :
    httpGetCommand url timeoutSec extraHeaders =
      "curl -sS -g -k -L --http1.1 --connect-timeout 6 --max-time ".toList ++
        intText timeoutSec ++
        (" -H 'Accept: application/xml'".toList ++ identityArgs ++
          if extraHeaders.isEmpty then [] else extraHeaders) ++
        " ".toList ++ shellQuote url ++ " 2>/dev/null".toList :=
  append_middle _ _ _ _ _ _ _ _

/-- A request of which the status is read, with what stands between its limit and its address. -/
theorem noBodyCommand_eq (headers : List (List Char × List Char)) (timeoutSec : ℤ) :
    noBodyCommand url headers timeoutSec =
      "curl -sS -g -k -L --http1.1 --connect-timeout 6 --max-time ".toList ++
        intText timeoutSec ++
        (" -o /dev/null -w '%{http_code}' -H 'Accept: application/xml'".toList ++
          (if !hasHeader headers "X-Plex-Client-Identifier".toList then identityArgs else []) ++
          curlHeaderArgs headers) ++
        " ".toList ++ shellQuote url ++ " 2>/dev/null".toList :=
  append_middle _ _ _ _ _ _ _ _

/-- The part of a request between the options and the address whose answer is read. -/
theorem adds_httpGet (headers : List (List Char × List Char)) :
    Shell.Adds
      (" -H 'Accept: application/xml'".toList ++ identityArgs ++
        if (curlHeaderArgs headers).isEmpty then [] else curlHeaderArgs headers)
      (acceptWords ++ identityWords ++ headerWords (headers.filter fun h => !h.1.isEmpty)) := by
  have haccept := adds_headerLine "Accept: application/xml".toList
  have hextra : (if (curlHeaderArgs headers).isEmpty then [] else curlHeaderArgs headers) =
      curlHeaderArgs headers := by
    split
    case isTrue h => exact (isEmpty_iff.mp h).symm
    case isFalse => rfl
  rw [hextra]
  exact (haccept.append adds_identityArgs).append (adds_curlHeaderArgs headers)

/-- The part of a request between the options and the address of which the status is read. -/
theorem adds_noBody (headers : List (List Char × List Char)) :
    Shell.Adds
      (" -o /dev/null -w '%{http_code}' -H 'Accept: application/xml'".toList ++
        (if !hasHeader headers "X-Plex-Client-Identifier".toList then identityArgs else []) ++
        curlHeaderArgs headers)
      (["-o","/dev/null","-w","%{http_code}"].map String.toList ++ acceptWords ++
        (if !hasHeader headers "X-Plex-Client-Identifier".toList then identityWords else []) ++
        headerWords (headers.filter fun h => !h.1.isEmpty)) := by
  have houtput : Shell.Adds " -o".toList ["-o".toList] :=
    Shell.adds_word (Shell.spells_plain (by decide) (by decide))
  have hnowhere : Shell.Adds " /dev/null".toList ["/dev/null".toList] :=
    Shell.adds_word (Shell.spells_plain (by decide) (by decide))
  have hwrite : Shell.Adds " -w".toList ["-w".toList] :=
    Shell.adds_word (Shell.spells_plain (by decide) (by decide))
  have hcode := Shell.adds_word (spells_shellQuote "%{http_code}".toList)
  have haccept := adds_headerLine "Accept: application/xml".toList
  have hidentity : Shell.Adds
      (if !hasHeader headers "X-Plex-Client-Identifier".toList then identityArgs else [])
      (if !hasHeader headers "X-Plex-Client-Identifier".toList then identityWords else []) := by
    split
    case isTrue => exact adds_identityArgs
    case isFalse => exact adds_nil
  exact ((((((houtput.append hnowhere).append hwrite).append hcode).append haccept).append
    hidentity).append (adds_curlHeaderArgs headers))

/-- What the shell makes of both requests: the intended arguments, and nothing else. -/
def SplitAsIntended (headers named : List (List Char × List Char)) (timeoutSec : ℤ) : Prop :=
  Shell.parse (cString (httpGetCommand url timeoutSec (curlHeaderArgs headers))) =
      some ⟨httpGetWords url named timeoutSec,[quiet]⟩ ∧
    Shell.parse (cString (noBodyCommand url headers timeoutSec)) =
      some ⟨noBodyWords url named timeoutSec,[quiet]⟩

/-- The shell splits both requests into the intended arguments, with the address and each header
that has a name as one argument, as they were given. -/
theorem requests_split {url : List Char} {headers : List (List Char × List Char)}
    (hurl : '\x00' ∉ url) (hheaders : ∀ h∈headers, '\x00' ∉ h.1 ∧ '\x00' ∉ h.2)
    (timeoutSec : ℤ) :
    SplitAsIntended url headers (headers.filter fun h => !h.1.isEmpty) timeoutSec := by
  have hargs := not_mem_curlHeaderArgs hheaders
  have hidentity : '\x00' ∉ identityArgs := by decide
  constructor
  · have hmiddle : '\x00' ∉ " -H 'Accept: application/xml'".toList ++ identityArgs ++
        if (curlHeaderArgs headers).isEmpty then [] else curlHeaderArgs headers := by
      refine not_mem_append (not_mem_append (by decide) hidentity) ?_
      split
      case isTrue => exact not_mem_nil
      case isFalse => exact hargs
    have hwords : httpGetWords url (headers.filter fun h => !h.1.isEmpty) timeoutSec =
        optionWords timeoutSec ++ (acceptWords ++ identityWords ++
          headerWords (headers.filter fun h => !h.1.isEmpty)) ++ [url] := by
      rw [httpGetWords]
      simp only [append_assoc]
    rw [httpGetCommand_eq,cString_request timeoutSec hmiddle hurl,
      parse_request timeoutSec (adds_httpGet headers) url,hwords]
  · have hname : "X-Plex-Client-Identifier".toList≠[] := by decide
    have hnamed := hasHeader_filter headers hname
    have hmiddle : '\x00' ∉
        " -o /dev/null -w '%{http_code}' -H 'Accept: application/xml'".toList ++
          (if !hasHeader headers "X-Plex-Client-Identifier".toList then identityArgs else []) ++
          curlHeaderArgs headers := by
      refine not_mem_append (not_mem_append (by decide) ?_) hargs
      split
      case isTrue => exact hidentity
      case isFalse => exact not_mem_nil
    have hwords : noBodyWords url (headers.filter fun h => !h.1.isEmpty) timeoutSec =
        optionWords timeoutSec ++ (["-o","/dev/null","-w","%{http_code}"].map String.toList ++
          acceptWords ++
          (if !hasHeader headers "X-Plex-Client-Identifier".toList then identityWords else []) ++
          headerWords (headers.filter fun h => !h.1.isEmpty)) ++ [url] := by
      rw [noBodyWords,hnamed]
      simp only [append_assoc]
    rw [noBodyCommand_eq,cString_request timeoutSec hmiddle hurl,
      parse_request timeoutSec (adds_noBody headers) url,hwords]

/-- A request with an apostrophe in its address and in a header. -/
theorem requests_split_apostrophe :
    SplitAsIntended "http://a/'; reboot '".toList [("X-Plex-Token".toList,"'$(x)\n".toList)]
      [("X-Plex-Token".toList,"'$(x)\n".toList)] 20 :=
  @requests_split "http://a/'; reboot '".toList [("X-Plex-Token".toList,"'$(x)\n".toList)]
    (by decide) (by decide) 20

/-- A header without name is no argument. -/
theorem not_requests_split_unnamed :
    ¬∀ (url : List Char) (headers : List (List Char × List Char)) (timeoutSec : ℤ),
      '\x00' ∉ url → (∀ h∈headers, '\x00' ∉ h.1 ∧ '\x00' ∉ h.2) →
        SplitAsIntended url headers headers timeoutSec := by
  intro hall
  have hunnamed := (hall [] [([],"v".toList)] 15 (by decide) (by decide)).1
  have hleft : parse (cString (httpGetCommand [] 15 (curlHeaderArgs [([],"v".toList)]))) =
      some ⟨httpGetWords [] [] 15,[quiet]⟩ := by
    decide +kernel
  rw [hleft] at hunnamed
  revert hunnamed
  decide

end Misterplex.Plex
