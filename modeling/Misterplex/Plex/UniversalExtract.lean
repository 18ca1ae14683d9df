import Misterplex.Plex.Universal

/-!
# Parameters read back from an address

A parameter is looked for in the whole address. It is found in the query when the
base does not hold its name with the sign; otherwise what the base holds is taken.
-/

namespace Misterplex.Plex

open Misterplex.Companion List

/-- A name with its sign stands in a written parameter only at the end of its name. -/
theorem suffix_of_found {name : List Char} {p : Param} (hp : '=' ∉ p.1) (hbytes : IsBytes p.2)
    (h : found (name ++ ['=']) p.written=true) : name <:+ p.1 := by
  have hvalue : '=' ∉ encoded p.2 := not_mem_encoded hbytes rfl (by decide)
  obtain ⟨rest,hrest⟩ := Option.isSome_iff_exists.mp h
  obtain ⟨front,hfront⟩ := behind_eq hrest
  have htext : p.1 ++ '=' :: encoded p.2 = front ++ name ++ '=' :: rest := by
    rw [Param.written] at hfront
    rw [hfront]
    simp only [append_assoc,cons_append,nil_append]
  rcases append_eq_append_iff.mp htext with ⟨part,hpart,hback⟩ | ⟨part,hpart,hback⟩
  · cases part with
    | nil =>
      rw [append_nil] at hpart
      exact ⟨front,hpart⟩
    | cons c part =>
      have hmem : '=' ∈ encoded p.2 := by
        rw [(cons.inj hback).2]
        exact mem_append_right part mem_cons_self
      exact absurd hmem hvalue
  · cases part with
    | nil =>
      rw [append_nil] at hpart
      exact ⟨front,hpart.symm⟩
    | cons c part =>
      have hc : '=' = c := (cons.inj hback).1
      have hmem : '=' ∈ p.1 := by
        rw [hpart,hc]
        exact mem_append_right _ mem_cons_self
      exact absurd hmem hp

/-- Parameters that can be read back by a name. -/
structure Readable (name : List Char) (ps : List Param) : Prop where
  /-- No name holds a sign of the query. -/
  names : ∀ p∈ps, '&' ∉ p.1 ∧ '=' ∉ p.1
  bytes : ∀ p∈ps, IsBytes p.2
  apart : ∀ p∈ps, name <:+ p.1 → p.1=name
  /-- No name occurs twice. -/
  once : (ps.map Prod.fst).Nodup

/-- A readable query is readable behind its first parameter. -/
theorem Readable.tail {name : List Char} {p : Param} {ps : List Param}
    (h : Readable name (p::ps)) : Readable name ps where
  names q hq := h.names q (mem_cons_of_mem p hq)
  bytes q hq := h.bytes q (mem_cons_of_mem p hq)
  apart q hq := h.apart q (mem_cons_of_mem p hq)
  once := (nodup_cons.mp h.once).2

theorem behind_params {name value : List Char} (hname : '&' ∉ name) {ps : List Param}
    (h : Readable name ps) (hmem : (name,value)∈ps) :
    ∃ rest, behind (name ++ ['=']) (['&'].intercalate (ps.map Param.written)) =
      some (encoded value ++ rest) ∧ (rest=[] ∨ rest.head?=some '&') := by
  have hpat : name ++ ['=']≠[] := append_ne_nil_of_right_ne_nil name (cons_ne_nil _ _)
  have hamp : '&' ∉ name ++ ['='] := by
    rw [mem_append,mem_singleton]
    rintro (hmem | hmem)
    · exact hname hmem
    · cases hmem
  induction ps with
  | nil => cases hmem
  | cons p ps ih =>
    rw [intercalate_written]
    rcases mem_cons.mp hmem with rfl | hlater
    · have hwritten : Param.written (name,value) = name ++ ['='] ++ encoded value := by
        rw [Param.written,append_assoc]
        rfl
      refine ⟨amps ps,?_,?_⟩
      · rw [hwritten,append_assoc]
        exact behind_prefix hpat _
      · cases ps with
        | nil => exact Or.inl rfl
        | cons q ps => exact Or.inr rfl
    · have hnotin := (nodup_cons.mp h.once).1
      have hother : p.1≠name := by
        rintro hsame
        exact hnotin (hsame ▸ mem_map_of_mem hlater)
      have hskip : found (name ++ ['=']) p.written=false := by
        rw [← Bool.not_eq_true]
        intro hfound
        have hclean := (h.names p mem_cons_self).2
        have hsuffix := suffix_of_found hclean (h.bytes p mem_cons_self) hfound
        exact hother (h.apart p mem_cons_self hsuffix)
      cases ps with
      | nil => cases hlater
      | cons q ps =>
        have hrest : amps (q::ps) = '&' :: ['&'].intercalate ((q::ps).map Param.written) := by
          rw [intercalate_written,amps_cons,cons_append]
        rw [hrest,behind_skip hpat hamp hskip]
        exact ih h.tail hlater

/-- The path behind the base of an address, without its first sign. -/
def startPath : List Char := "video/:/transcode/universal/start.mp4".toList

/-- What the base makes of a parameter: either it does not hold the name with the sign, or it
holds the very value with a sign behind it. -/
def BaseKeeps (base name value : List Char) : Prop :=
  match behind (name ++ ['=']) base with
  | none => True
  | some rest => '&' ∈ rest ∧ rest.takeWhile (· != '&')=encoded value

theorem qparam_iff {name : String} {value : List Char} {ps : List Param} (base : List Char)
    (hname : '&' ∉ name.toList ∧ '/' ∉ name.toList ∧ '?' ∉ name.toList)
    (hpath : found (name.toList ++ ['=']) startPath=false) (h : Readable name.toList ps)
    (hmem : (name.toList,value)∈ps) :
    qparam (base ++ '/' :: (startPath ++ '?' :: ['&'].intercalate (ps.map Param.written))) name =
        encoded value ↔ BaseKeeps base name.toList value := by
  have hpat : name.toList ++ ['=']≠[] :=
    append_ne_nil_of_right_ne_nil _ (cons_ne_nil _ _)
  have hbytes : IsBytes value := h.bytes _ hmem
  have hslash : '/' ∉ name.toList ++ ['='] := by
    rw [mem_append,mem_singleton]
    rintro (hmem | hmem)
    · exact hname.2.1 hmem
    · cases hmem
  have hquery : '?' ∉ name.toList ++ ['='] := by
    rw [mem_append,mem_singleton]
    rintro (hmem | hmem)
    · exact hname.2.2 hmem
    · cases hmem
  rw [qparam,BaseKeeps]
  cases hbase : behind (name.toList ++ ['=']) base with
  | none =>
    have hnot : found (name.toList ++ ['=']) base=false := by
      rw [found,hbase]
      rfl
    obtain ⟨rest,hrest,hend⟩ := behind_params hname.1 h hmem
    have hvalue : '&' ∉ encoded value := not_mem_encoded hbytes rfl (by decide)
    rw [behind_skip hpat hslash hnot,behind_skip hpat hquery hpath,hrest]
    exact ⟨fun _ => trivial,fun _ => (Url.cut_append hvalue hend).1⟩
  | some rest =>
    rw [behind_append hpat hbase]
    dsimp only
    by_cases hamp : '&' ∈ rest
    · have hcut : rest.takeWhile (· != '&') ++ rest.dropWhile (· != '&')=rest :=
        takeWhile_append_dropWhile
      have hhead : (rest.dropWhile (· != '&')).head?=some '&' := by
        rcases Url.dropWhile_head '&' rest with hnil | hhead
        · rw [hnil,append_nil] at hcut
          exact absurd hamp (hcut ▸ Url.not_mem_takeWhile '&' rest)
        · exact hhead
      have hsame (more : List Char) :
          (rest ++ more).takeWhile (· != '&')=rest.takeWhile (· != '&') := by
        have hmore : (rest.dropWhile (· != '&') ++ more).head?=some '&' := by
          rw [head?_append,hhead]
          rfl
        have hlater := (Url.cut_append (Url.not_mem_takeWhile '&' rest) (Or.inr hmore)).1
        rw [← append_assoc,hcut] at hlater
        exact hlater
      rw [hsame]
      exact ⟨fun hvalue => ⟨hamp,hvalue⟩,And.right⟩
    · have hslashed : '/' ∉ encoded value := not_mem_encoded hbytes rfl (by decide)
      have hpass : ∀ c∈rest, (c != '&')=true := by
        intro c hc
        rw [bne_iff_ne]
        rintro rfl
        exact hamp hc
      rw [takeWhile_append_of_pos hpass]
      constructor
      · intro hsame
        have hmem : '/' ∈ encoded value := by
          rw [← hsame]
          refine mem_append_right rest ?_
          rw [takeWhile_cons_of_pos (by decide)]
          exact mem_cons_self
        exact absurd hmem hslashed
      · exact fun hboth => absurd hboth.1 hamp

/-- The parameters that are read back before the server decides. -/
def mirrored (metadataKey : List Char) (weak : WeakLadder) : List (String × List Char) :=
  [("path",metadataKey),("videoQuality",intText weak.videoQuality),
    ("videoResolution",weak.videoResolution),
    ("maxVideoBitrate",intText weak.maxVideoBitrateKbps),("videoCodec",weak.videoCodec),
    ("audioCodec",weak.audioCodec),("videoProfile",weak.h264Profile),
    ("videoLevel",intText weak.h264Level)]

/-- The names of the mirrored parameters. -/
def mirroredNames : List String :=
  ["path","videoQuality","videoResolution","maxVideoBitrate","videoCodec","audioCodec",
    "videoProfile","videoLevel"]

theorem mirroredNames_clean : ∀ name∈mirroredNames,
    ('&' ∉ name.toList ∧ '/' ∉ name.toList ∧ '?' ∉ name.toList) ∧
    found (name.toList ++ ['=']) startPath=false ∧
    ∀ other∈allNames, name.toList <:+ other → other=name.toList := by decide

theorem mirrored_names {metadataKey : List Char} {weak : WeakLadder} {p : String × List Char}
    (hp : p∈mirrored metadataKey weak) : p.1∈mirroredNames := by
  exact mem_map_of_mem hp

theorem mirrored_mem {metadataKey : List Char} {weak : WeakLadder} {p : String × List Char}
    (hp : p∈mirrored metadataKey weak) (token session : List Char) (offsetMs : ℤ) :
    (p.1.toList,p.2)∈universalParams metadataKey token session offsetMs weak := by
  have hat : ∀ (i : ℕ) {q : Param}, (fixedParams metadataKey session weak)[i]?=some q →
      q∈fixedParams metadataKey session weak := fun _ _ h => mem_of_getElem? h
  have hfixed : ∀ p∈mirrored metadataKey weak,
      (p.1.toList,p.2)∈fixedParams metadataKey session weak := by
    rw [mirrored]
    simp only [forall_mem_cons]
    exact ⟨hat 0 rfl,hat 12 rfl,hat 13 rfl,hat 14 rfl,hat 15 rfl,hat 16 rfl,hat 17 rfl,
      hat 18 rfl,nofun⟩
  refine mem_cons_of_mem _ ?_
  exact mem_append_left _ (mem_append_left _ (mem_append_left _ (hfixed p hp)))

/-- The address of a universal transcode carries exactly the given values, each under a name
of its own, and the parameters that are read back from it are those it carries. -/
structure ReadsBack (base metadataKey token session : List Char) (offsetMs : ℤ)
    (weak : WeakLadder) : Prop where
  /-- The query splits and decodes to the parameters with the given values. -/
  values : ∀ decode∈[urlDecode,pctDecode],
    readParams decode (buildUniversalTranscodeUrl base metadataKey token session offsetMs weak) =
      universalParams metadataKey token session offsetMs weak
  /-- No name occurs twice. -/
  once : ((universalParams metadataKey token session offsetMs weak).map Prod.fst).Nodup
  /-- The mirrored parameters are read back as the address carries them. -/
  extracted : ∀ p∈mirrored metadataKey weak,
    qparam (buildUniversalTranscodeUrl base metadataKey token session offsetMs weak) p.1 =
      encoded p.2

/-- Values are carried and read back exactly where the base keeps every mirrored parameter. -/
theorem readsBack_iff (base metadataKey token session : List Char) (offsetMs : ℤ)
    (weak : WeakLadder) (hbase : '?' ∉ base) (hkey : IsBytes metadataKey) (htoken : IsBytes token)
    (hsession : IsBytes session) (hweak : weak.IsBytes) :
    ReadsBack base metadataKey token session offsetMs weak ↔
      ∀ p∈mirrored metadataKey weak, BaseKeeps base p.1.toList p.2 := by
  have hsome : universalParams metadataKey token session offsetMs weak≠[] := cons_ne_nil _ _
  have hsublist := names_sublist metadataKey token session offsetMs weak
  have hall : ∀ p∈universalParams metadataKey token session offsetMs weak, p.1∈allNames :=
    fun p hp => hsublist.subset (mem_map_of_mem hp)
  have hnames : ∀ p∈universalParams metadataKey token session offsetMs weak,
      '&' ∉ p.1 ∧ '=' ∉ p.1 := fun p hp => allNames_clean.2 p.1 (hall p hp)
  have hbytes := universalParams_bytes offsetMs hkey htoken hsession hweak
  have honce := hsublist.nodup allNames_clean.1
  have hurl := buildUniversalTranscodeUrl_eq base metadataKey token session offsetMs weak
  have hiff : ∀ p∈mirrored metadataKey weak,
      (qparam (buildUniversalTranscodeUrl base metadataKey token session offsetMs weak) p.1 =
        encoded p.2 ↔ BaseKeeps base p.1.toList p.2) := by
    intro p hp
    obtain ⟨hname,hpath,hapart⟩ := mirroredNames_clean p.1 (mirrored_names hp)
    have hreadable : Readable p.1.toList
        (universalParams metadataKey token session offsetMs weak) :=
      ⟨hnames,hbytes,fun q hq => hapart q.1 (hall q hq),honce⟩
    rw [hurl,append_assoc]
    exact qparam_iff base hname hpath hreadable (mirrored_mem hp token session offsetMs)
  constructor
  · intro hreads p hp
    exact (hiff p hp).mp (hreads.extracted p hp)
  · intro hkeeps
    have hvalues := readParams_url hbase hsome hnames hbytes
    rw [← hurl] at hvalues
    refine ⟨?_,honce,fun p hp => (hiff p hp).mpr (hkeeps p hp)⟩
    intro decode hdecode
    rcases mem_cons.mp hdecode with rfl | hdecode
    · exact hvalues
    · rw [mem_singleton.mp hdecode]
      exact hvalues

/-- From a plain base everything is read back. -/
theorem readsBack_plain : ReadsBack "http://h:32400".toList "/library/metadata/7".toList "t&1".toList
    "mplex-1".toList 1500 {} := by
  have hbytes : ∀ text∈["/library/metadata/7".toList,"t&1".toList,"mplex-1".toList,
      "320x240".toList,"h264".toList,"aac".toList,"baseline".toList], IsBytes text := by
    intro text htext c hc
    revert c
    revert text
    decide
  have hbase : '?' ∉ "http://h:32400".toList := by decide
  have hnone : ∀ name∈mirroredNames,
      behind (name.toList ++ ['=']) "http://h:32400".toList=none := by decide
  refine (readsBack_iff _ _ _ _ _ _ hbase (hbytes _ (by decide)) (hbytes _ (by decide))
    (hbytes _ (by decide)) ⟨hbytes _ (by decide),hbytes _ (by decide),hbytes _ (by decide),
      hbytes _ (by decide)⟩).mpr ?_
  intro p hp
  rw [BaseKeeps,hnone p.1 (mirrored_names hp)]
  trivial

/-- From a base with a parameter of its own the path is not read back. -/
theorem not_readsBack :
    ¬∀ (base metadataKey token session : List Char) (offsetMs : ℤ) (weak : WeakLadder),
      '?' ∉ base → IsBytes metadataKey → IsBytes token → IsBytes session → weak.IsBytes →
      ReadsBack base metadataKey token session offsetMs weak := by
  intro hall
  have hbytes : ∀ text∈["/library/metadata/7".toList,"m".toList,"320x240".toList,
      "h264".toList,"aac".toList,"baseline".toList], IsBytes text := by
    intro text htext c hc
    revert c
    revert text
    decide
  have hreads := hall "http://h/path=x".toList "/library/metadata/7".toList [] "m".toList 0 {}
    (by decide) (hbytes _ (by decide)) nofun (hbytes _ (by decide))
    ⟨hbytes _ (by decide),hbytes _ (by decide),hbytes _ (by decide),hbytes _ (by decide)⟩
  have hpath := hreads.extracted ("path","/library/metadata/7".toList) mem_cons_self
  revert hpath
  decide

end Misterplex.Plex
