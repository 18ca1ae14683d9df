import Misterplex.Playback.Daemon
import Misterplex.Plex.Base
import Misterplex.Lib.UrlText

/-!
# Restarts of a title

A title is played from the configured server unless the cast names one. The server
that answered is written into the remembered request, taken apart into protocol,
host and port. A seek, a change of the content resolution and a step in the play
queue make their requests from the remembered one, so that its server is put
together again and its token is chosen again.

Putting the parts together gives the server back when it is nothing but a scheme, a
plain host and a port, and also when the host is missing or counted unreachable, for
then the configured server is taken.
-/

namespace Misterplex.Playback

open Misterplex.Companion List

/-- The configured servers. -/
structure Servers where
  /-- The default server as it was configured. -/
  host : String
  /-- The pinned host is an address. -/
  host_some : Plex.normalizePlexBase host ≠ ""
  /-- The servers configured. -/
  servers : List String
  /-- The token configured. -/
  confToken : String

namespace Servers

variable (c : Servers)

/-- The base address of the default server. -/
def defaultPms : String := Plex.normalizePlexBase c.host

/-- The token a request is made with. -/
def tokenOf (req : PlayRequest) : String :=
  if req.token ≠ "" then req.token else if req.address = "" then c.confToken else ""

/-- The server a request is made to first. -/
def selected (req : PlayRequest) (preferredBase : String) : String :=
  let base := Plex.buildPlexBase req.protocol.toList req.address.toList req.port.toList
    preferredBase.toList
  if base.isEmpty then orElse preferredBase c.defaultPms else String.ofList base

/-- A request is made to the selected server and, if the cast names none, to the other ones. -/
def resolveAgainstServers
    (resolvePlayTarget : String → String → String → ℤ → ResolveResult) (req : PlayRequest)
    (preferredBase : String) : ResolveResult × String :=
  let tryBase := fun base => resolvePlayTarget req.key base (c.tokenOf req) req.offsetMs
  let base := c.selected req preferredBase
  if (tryBase base).ok then (tryBase base,base)
  else if req.address ≠ "" then (tryBase base,base)
  else
    match (c.servers.filter (· != base)).find? fun s => (tryBase s).ok with
    | some s => (tryBase s,s)
    | none => (tryBase base,base)

end Servers

/-- What is remembered of the title that is played. -/
structure Session where
  /-- The last play request. -/
  lastPlay : PlayRequest
  /-- The server it was played from. -/
  lastBase : String
  /-- The token it was played with. -/
  lastToken : String

/-- How a play request ends. -/
inductive Fate
  /-- It is given up for a newer request or a stop. -/
  | superseded
  | closed
  | played

/-- What a play request meets. -/
structure Reply where
  /-- What the resolver answers. -/
  resolvePlayTarget : String → String → String → ℤ → ResolveResult
  /-- The play queue. -/
  queue : PlayQueue
  /-- How the play request ends. -/
  fate : Fate

/-- What makes a title start again. -/
inductive Restart
  | seek (ms : ℤ)
  | contentRes (positionMs : ℤ)
  | queueStep (delta : ℤ) (queue : PlayQueue)

/-- The title changes to another one of the queue. -/
def Restart.isStep : Restart → Bool
  | .queueStep _ _ => true
  | _ => false

namespace Session

variable (s : Session)

/-- The title is remembered with the token that belongs to it. -/
def commit (confToken : String) (req bound : PlayRequest) (base : String) : Session where
  lastPlay := bound
  lastBase := base
  lastToken :=
    if bound.token ≠ "" then bound.token
    else if req.address = "" ∧ confToken ≠ "" then confToken else s.lastToken

/-- The title is forgotten. -/
def drop : Session := { s with lastPlay := PlayRequest.blank, lastBase := "" }

/-- A control request brings a token. -/
def tokenUpdate (token : String) : Session :=
  { s with lastToken := orElse token s.lastToken }

/-- A play request is resolved and played. -/
def doPlay (c : Servers) (reply : Reply) (req : PlayRequest) : Session :=
  let resolved := c.resolveAgainstServers reply.resolvePlayTarget req c.defaultPms
  let res := (resolve req resolved.1 resolved.2).bindQueue req reply.queue
  match reply.fate with
  | .superseded => s
  | .closed => s.drop
  | .played => s.commit c.confToken req (res.bound req) resolved.2

/-- The request a restart makes, if it makes one. -/
def request : Restart → Option PlayRequest
  | .seek ms => if libraryKey s.lastPlay then some (seekRequest s.lastPlay (max 0 ms)) else none
  | .contentRes positionMs =>
    if s.lastPlay.key = "" ∧ s.lastPlay.ratingKey = "" then none
    else some (seekRequest s.lastPlay (if 0 < positionMs then positionMs else s.lastPlay.offsetMs))
  | .queueStep delta queue =>
    if mentions (queueRef s.lastPlay) "/playQueues/" then
      (queue.dest delta).map fun item => queue.request item s.lastPlay s.lastToken
    else none

/-- A step in the queue makes its request that of the session before it is played. -/
def stage (req : PlayRequest) : Restart → Session
  | .queueStep _ _ => { s with lastPlay := req }
  | _ => s

end Session

/-- The sessions of a title whose plays were served by the default server so far, with
whether there was a step in the queue. The cast named no server and brought no token. -/
inductive Served (c : Servers) : Bool → Session → Prop
  | play {req : PlayRequest} {reply : Reply} (s : Session) (haddress : req.address = "")
      (htoken : req.token = "")
      (hok : (reply.resolvePlayTarget req.key c.defaultPms c.confToken req.offsetMs).ok=true)
      (hplayed : reply.fate = .played) : Served c false (s.doPlay c reply req)
  /-- A control request brings a token. -/
  | tokenUpdate {stepped : Bool} {s : Session} (h : Served c stepped s) (token : String) :
      Served c stepped (s.tokenUpdate token)
  /-- The title is started again, and no other server answers. -/
  | restart {stepped : Bool} {s : Session} {r : Restart} {req : PlayRequest} (h : Served c stepped s)
      (hreq : s.request r=some req) (reply : Reply)
      (hbase : (c.resolveAgainstServers reply.resolvePlayTarget req c.defaultPms).2 =
        c.defaultPms) :
      Served c (stepped || r.isStep) ((s.stage req r).doPlay c reply req)

/-- A request goes to the default server with its token, so that it is played from there
whenever the default server answers it. -/
structure Servers.Faithful (c : Servers) (req : PlayRequest) : Prop where
  /-- The default server is asked first. -/
  base : c.selected req c.defaultPms=c.defaultPms
  credential : c.tokenOf req=c.confToken
  /-- Where it answers, nothing else is played. -/
  kept : ∀ resolvePlayTarget : String → String → String → ℤ → ResolveResult,
    (resolvePlayTarget req.key c.defaultPms c.confToken req.offsetMs).ok=true →
      c.resolveAgainstServers resolvePlayTarget req c.defaultPms =
        (resolvePlayTarget req.key c.defaultPms c.confToken req.offsetMs,c.defaultPms)

/-- A base address of nothing but a scheme, a host that is not encoded and a port. -/
structure PlainBase (base scheme host port : List Char) : Prop where
  joined : base = scheme ++ "://".toList ++ (host ++ ':' :: port)
  scheme_web : scheme = "http".toList ∨ scheme = "https".toList
  host_some : host≠[]
  /-- The host ends in front of the port. -/
  host_clean : ':' ∉ host ∧ '/' ∉ host
  port_some : port≠[]
  port_clean : ':' ∉ port ∧ '/' ∉ port
  host_plain : Plex.urlDecode host=host

variable (base : String)

/-- A base address that names no host. -/
def Hostless : Prop := hostOf (hostPort base) = ""

/-- A base address whose host, once decoded, is counted unreachable. -/
def Unreachable : Prop :=
  Plex.isUnreachableHost (Plex.urlDecode (hostOf (hostPort base)).toList)=true

/-- A base address that a remembered request leads back to. -/
def Rebuilt : Prop :=
  Hostless base ∨ Unreachable base ∨ ∃ scheme host port, PlainBase base.toList scheme host port

/-- A request has the parts of a base address as its server. -/
structure Placed (base : String) (req : PlayRequest) : Prop where
  /-- Address of the server. -/
  address : req.address=hostOf (hostPort base)
  port : req.port=portOf (hostPort base)
  protocol : req.protocol = if "https".toList.isPrefixOf base.toList then "https" else "http"

variable {hostport : List Char}

theorem split_of_no_colon (h : ':' ∉ hostport) :
    (hostOf hostport).toList=hostport ∧ portOf hostport = "32400" := by
  have hcolon : ¬hostport.contains ':' = true := by simpa using h
  rw [hostOf,portOf,if_neg hcolon,if_neg hcolon,String.toList_ofList]
  exact ⟨rfl,rfl⟩

theorem split_at_colon (host : List Char) {port : List Char} (h : ':' ∉ port) :
    (hostOf (host ++ ':' :: port)).toList=host ∧
      (portOf (host ++ ':' :: port)).toList=port := by
  have hcolon : (host ++ ':' :: port).contains ':' = true := by simp
  have hback : (host ++ ':' :: port).reverse = port.reverse ++ ':' :: host.reverse := by simp
  have hport : ':' ∉ port.reverse := by simpa using h
  obtain ⟨htake,hdrop⟩ := Url.cut_append hport
    (show ':' :: host.reverse=[] ∨ (':' :: host.reverse).head?=some ':' from Or.inr rfl)
  rw [hostOf,portOf,if_pos hcolon,if_pos hcolon,String.toList_ofList,String.toList_ofList,
    hback,htake,hdrop]
  exact ⟨reverse_reverse host,reverse_reverse port⟩

theorem exists_last_colon (h : ':' ∈ hostport) :
    ∃ host port, hostport = host ++ ':' :: port ∧ ':' ∉ port := by
  induction hostport with
  | nil => cases h
  | cons c rest ih =>
    by_cases hrest : ':' ∈ rest
    · obtain ⟨host,port,hsplit,hport⟩ := ih hrest
      exact ⟨c::host,port,by rw [hsplit]; rfl,hport⟩
    · have hc : ':' = c := (mem_cons.mp h).resolve_right hrest
      exact ⟨[],rest,by rw [hc]; rfl,hrest⟩

theorem length_hostOf (hostport : List Char) :
    (hostOf hostport).toList.length≤hostport.length := by
  by_cases hcolon : ':' ∈ hostport
  · obtain ⟨host,port,hsplit,hport⟩ := exists_last_colon hcolon
    rw [hsplit,(split_at_colon host hport).1,length_append]
    exact Nat.le_add_right _ _
  · rw [(split_of_no_colon hcolon).1]

theorem length_hostOf_lt (h : ':' ∈ hostport) :
    (hostOf hostport).toList.length<hostport.length := by
  obtain ⟨host,port,hsplit,hport⟩ := exists_last_colon h
  rw [hsplit,(split_at_colon host hport).1,length_append,length_cons]
  omega

open Plex

theorem portField_clean (h : ':' ∈ hostport) (hslash : '/' ∉ hostport) :
    Plex.fieldOr (portOf hostport).toList "32400".toList≠[] ∧
      ':' ∉ Plex.fieldOr (portOf hostport).toList "32400".toList ∧
      '/' ∉ Plex.fieldOr (portOf hostport).toList "32400".toList := by
  obtain ⟨host,port,hsplit,hport⟩ := exists_last_colon h
  rw [hsplit,(split_at_colon host hport).2,fieldOr]
  cases port with
  | nil => decide
  | cons c port =>
    refine ⟨cons_ne_nil c port,hport,fun hmem => hslash ?_⟩
    rw [hsplit]
    exact mem_append_right _ (mem_cons_of_mem _ hmem)

section

variable {base rest : List Char}

theorem length_behind_scheme (h : behind "://".toList base=some rest) :
    rest.length+3≤base.length := by
  obtain ⟨front,hfront⟩ := behind_eq h
  have hthree : "://".toList.length=3 := by decide
  rw [hfront,length_append,length_append,hthree]
  omega

/-- A decoded host that is an address of its own is not the address it came from. -/
theorem ne_decoded_host (h : behind "://".toList base=some rest) :
    Plex.urlDecode (hostOf (rest.takeWhile (· != '/'))).toList≠base := by
  intro hbase
  have hdecode := length_urlDecode (hostOf (rest.takeWhile (· != '/'))).toList
  have hhost := length_hostOf (rest.takeWhile (· != '/'))
  have htake := (List.takeWhile_prefix (p := (· != '/')) (l := rest)).length_le
  have hrest := length_behind_scheme h
  rw [hbase] at hdecode
  omega

/-- A decoded host with a colon does not lead back to the address without its port. -/
theorem ne_without_port {proto : List Char} (hproto : ':' ∉ proto)
    (h : behind "://".toList base=some rest)
    (hcolon : ':' ∈ Plex.urlDecode (hostOf (rest.takeWhile (· != '/'))).toList) :
    proto ++ "://".toList ++ Plex.urlDecode (hostOf (rest.takeWhile (· != '/'))).toList≠base := by
  intro hbase
  have hdecode := length_urlDecode (hostOf (rest.takeWhile (· != '/'))).toList
  have htake := (List.takeWhile_prefix (p := (· != '/')) (l := rest)).length_le
  have hrest : urlDecode (hostOf (rest.takeWhile (· != '/'))).toList=rest := by
    have hbehind := behind_scheme hproto
      (urlDecode (hostOf (rest.takeWhile (· != '/'))).toList)
    rw [hbase,h] at hbehind
    exact (Option.some.inj hbehind).symm
  have hlength := congrArg length hrest
  by_cases hport : ':' ∈ rest.takeWhile (· != '/')
  · have hhost := length_hostOf_lt hport
    omega
  · have hhost := (split_of_no_colon hport).1
    have hwhole : rest.takeWhile (· != '/')=rest := by
      refine (List.takeWhile_prefix _).eq_of_length ?_
      rw [hhost] at hdecode hlength
      omega
    rw [hrest,← hwhole] at hcolon
    exact hport hcolon

/-- A text with the authority cut off at a slash is longer than the host in front of it. -/
theorem slash_not_mem {addr p : List Char} (hcolon : ':' ∉ addr)
    (hlength : addr.length ≤
      (hostOf ((addr ++ ':' :: p).takeWhile (· != '/'))).toList.length) : '/' ∉ addr := by
  intro hmem
  have hparts := takeWhile_append_dropWhile (p := (· != '/')) (l := addr)
  have hdrop : addr.dropWhile (· != '/')≠[] := by
    intro hnil
    rw [hnil,append_nil] at hparts
    exact Url.not_mem_takeWhile '/' addr (hparts.symm ▸ hmem)
  have hhead : (addr.dropWhile (· != '/') ++ ':' :: p).head?=some '/' := by
    rw [head?_append_of_ne_nil _ hdrop]
    exact (Url.dropWhile_head '/' addr).resolve_left hdrop
  have hsplit : addr ++ ':' :: p =
      addr.takeWhile (· != '/') ++ (addr.dropWhile (· != '/') ++ ':' :: p) := by
    rw [← append_assoc,hparts]
  have hcut := (Url.cut_append (Url.not_mem_takeWhile '/' addr) (Or.inr hhead)).1
  have hnone : ':' ∉ addr.takeWhile (· != '/') := fun hc =>
    hcolon ((List.takeWhile_prefix _).subset hc)
  rw [hsplit,hcut,(split_of_no_colon hnone).1] at hlength
  have hdropped := length_pos_iff.mpr hdrop
  have hwhole := congrArg length hparts
  rw [length_append] at hwhole
  omega

theorem takeWhile_authority {addr p : List Char} (haddr : '/' ∉ addr) (hp : '/' ∉ p) :
    (addr ++ ':' :: p).takeWhile (· != '/') = addr ++ ':' :: p := by
  have hnone : '/' ∉ addr ++ ':' :: p := by simp [haddr,hp]
  have hcut := (Url.cut_append hnone (Or.inl rfl)).1
  rwa [append_nil] at hcut

/-- A decoded host without colon leads back to the address with its port only when the
address has nothing else. -/
theorem plainBase_of_eq {proto : List Char} (hproto : proto = "http".toList ∨ proto = "https".toList)
    (h : behind "://".toList base=some rest)
    (hne : Plex.urlDecode (hostOf (rest.takeWhile (· != '/'))).toList≠[])
    (hcolon : ':' ∉ Plex.urlDecode (hostOf (rest.takeWhile (· != '/'))).toList)
    (hbase : proto ++ "://".toList ++ Plex.urlDecode (hostOf (rest.takeWhile (· != '/'))).toList ++
      ':' :: Plex.fieldOr (portOf (rest.takeWhile (· != '/'))).toList "32400".toList=base) :
    PlainBase base proto (hostOf (rest.takeWhile (· != '/'))).toList
      (portOf (rest.takeWhile (· != '/'))).toList := by
  have hclean : ':' ∉ proto := by
    rcases hproto with rfl | rfl
    · decide
    · decide
  have hdecode := length_urlDecode (hostOf (rest.takeWhile (· != '/'))).toList
  generalize haddr : urlDecode (hostOf (rest.takeWhile (· != '/'))).toList=addr at *
  have hport := @portField_clean (rest.takeWhile (· != '/'))
  generalize hp : fieldOr (portOf (rest.takeWhile (· != '/'))).toList "32400".toList=p at *
  have hrest : rest = addr ++ ':' :: p := by
    have hbehind := behind_scheme hclean (addr ++ ':' :: p)
    rw [← append_assoc,hbase,h] at hbehind
    exact Option.some.inj hbehind
  have hslash : '/' ∉ addr := slash_not_mem hcolon (hrest ▸ hdecode)
  have hcolon' : ':' ∈ rest.takeWhile (· != '/') := by
    have hpass : ∀ c∈addr, (c != '/')=true := fun c hc =>
      bne_iff_ne.mpr fun hc' => hslash (hc' ▸ hc)
    rw [hrest,takeWhile_append_of_pos hpass]
    exact mem_append_right _ mem_cons_self
  obtain ⟨hsome,hnocolon,hnoslash⟩ := hport hcolon' (Url.not_mem_takeWhile '/' rest)
  have hwhole : rest.takeWhile (· != '/') = addr ++ ':' :: p := by
    rw [hrest,takeWhile_authority hslash hnoslash]
  have hparts := split_at_colon addr hnocolon
  rw [← hwhole] at hparts
  rw [hparts.1] at haddr
  rw [hparts.1,hparts.2]
  exact ⟨by rw [← hbase,append_assoc],hproto,hne,⟨hcolon,hslash⟩,hsome,
    ⟨hnocolon,hnoslash⟩,haddr⟩

end

/-- The protocol that is remembered of a base address. -/
def protocolOf : List Char :=
  if "https".toList.isPrefixOf base.toList then "https".toList else "http".toList

/-- The base address that is put together from what is remembered of one. -/
def rebuild : List Char :=
  Plex.buildPlexBase (protocolOf base) (hostOf (hostPort base)).toList
    (portOf (hostPort base)).toList base.toList

theorem protocolOf_web : protocolOf base = "http".toList ∨ protocolOf base = "https".toList := by
  rw [protocolOf]
  split
  · exact Or.inr rfl
  · exact Or.inl rfl

theorem lost_iff : ((Plex.urlDecode (hostOf (hostPort base)).toList).isEmpty ||
      Plex.isUnreachableHost (Plex.urlDecode (hostOf (hostPort base)).toList))=true ↔
      Hostless base ∨ Unreachable base := by
  rw [Bool.or_eq_true,List.isEmpty_iff,Unreachable,Hostless,← String.toList_eq_nil_iff]
  constructor
  · exact Or.imp_left urlDecode_eq_nil
  · exact Or.imp_left fun h => by rw [h]; rfl

theorem rebuild_lost {base : String} (hscheme : found "://".toList base.toList=true)
    (hlost : Hostless base ∨ Unreachable base) : rebuild base=[] ∨ rebuild base=base.toList :=
  (buildPlexBase_fallback ((lost_iff base).mpr hlost) hscheme).symm

theorem rebuild_reached {base : String} (hreach : ¬(Hostless base ∨ Unreachable base)) :
    rebuild base =
      if found "://".toList (Plex.urlDecode (hostOf (hostPort base)).toList) then
        Plex.urlDecode (hostOf (hostPort base)).toList
      else if (Plex.urlDecode (hostOf (hostPort base)).toList).contains ':' then
        protocolOf base ++ "://".toList ++ Plex.urlDecode (hostOf (hostPort base)).toList
      else protocolOf base ++ "://".toList ++ Plex.urlDecode (hostOf (hostPort base)).toList ++
        ':' :: Plex.fieldOr (portOf (hostPort base)).toList "32400".toList := by
  have hproto : fieldOr (protocolOf base) "http".toList=protocolOf base := by
    rcases protocolOf_web base with h | h
    · rw [h]
      rfl
    · rw [h]
      rfl
  rw [rebuild,buildPlexBase,if_neg (mt (lost_iff base).mp hreach),hproto]

theorem found_scheme_slash {text : List Char} (h : found "://".toList text=true) :
    '/' ∈ text := by
  obtain ⟨rest,hrest⟩ := Option.isSome_iff_exists.mp h
  obtain ⟨front,hfront⟩ := behind_eq hrest
  rw [hfront]
  exact mem_append_left _ (mem_append_right _ (by decide))

theorem rebuild_plain {base : String} {scheme host port : List Char}
    (hplain : PlainBase base.toList scheme host port)
    (hreach : ¬(Hostless base ∨ Unreachable base)) : rebuild base=base.toList := by
  have hclean : ':' ∉ scheme := by
    rcases hplain.scheme_web with rfl | rfl
    · decide
    · decide
  have hbehind : behind "://".toList base.toList=some (host ++ ':' :: port) := by
    rw [hplain.joined]
    exact behind_scheme hclean _
  have hhostPort : hostPort base = host ++ ':' :: port := by
    rw [hostPort,hbehind,Option.getD_some,
      takeWhile_authority hplain.host_clean.2 hplain.port_clean.2]
  have hparts := split_at_colon host hplain.port_clean.1
  rw [← hhostPort] at hparts
  have hprotocol : protocolOf base=scheme := by
    rw [protocolOf,hplain.joined]
    rcases hplain.scheme_web with rfl | rfl
    · rfl
    · rfl
  have hnoscheme : ¬found "://".toList host=true := fun h =>
    hplain.host_clean.2 (found_scheme_slash h)
  have hnocolon : ¬host.contains ':' = true := by simpa using hplain.host_clean.1
  have hport : ¬port.isEmpty=true := mt List.isEmpty_iff.mp hplain.port_some
  rw [rebuild_reached hreach,hparts.1,hparts.2,hplain.host_plain,hprotocol,
    if_neg hnoscheme,if_neg hnocolon,fieldOr,if_neg hport,hplain.joined,
    append_assoc _ host]

/-- A base address with a host in reach is put together again only when it is plain. -/
theorem plain_of_rebuild {base : String} {rest : List Char}
    (hrest : behind "://".toList base.toList=some rest)
    (hreach : ¬(Hostless base ∨ Unreachable base))
    (hbase : rebuild base=[] ∨ rebuild base=base.toList) :
    ∃ scheme host port, PlainBase base.toList scheme host port := by
  have hhostPort : hostPort base=rest.takeWhile (· != '/') := by
    rw [hostPort,hrest,Option.getD_some]
  have hlost := mt (lost_iff base).mp hreach
  rw [Bool.or_eq_true,not_or,List.isEmpty_iff] at hlost
  have hproto := protocolOf_web base
  have hclean : ':' ∉ protocolOf base := by
    rcases hproto with h | h
    · rw [h]
      decide
    · rw [h]
      decide
  rw [rebuild_reached hreach,hhostPort] at hbase
  rw [hhostPort] at hlost
  by_cases hscheme : found "://".toList
      (urlDecode (hostOf (rest.takeWhile (· != '/'))).toList)=true
  · rw [if_pos hscheme] at hbase
    exact absurd (hbase.resolve_left hlost.1) (ne_decoded_host hrest)
  · rw [if_neg hscheme] at hbase
    by_cases hcolon : (urlDecode (hostOf (rest.takeWhile (· != '/'))).toList).contains ':' = true
    · rw [if_pos hcolon] at hbase
      have hsome := hbase.resolve_left (by simp)
      exact absurd hsome (ne_without_port hclean hrest (by simpa using hcolon))
    · rw [if_neg hcolon] at hbase
      have hsome := hbase.resolve_left (by simp)
      exact ⟨_,_,_,plainBase_of_eq hproto hrest hlost.1 (by simpa using hcolon) hsome⟩

/-- Putting the parts of a configured server together gives it back, or nothing that could
take its place, exactly when it has nothing but a scheme, a plain host and a port, or when
its host is missing or counted unreachable. -/
theorem rebuild_iff {base : String} (hscheme : found "://".toList base.toList=true) :
    (rebuild base=[] ∨ rebuild base=base.toList) ↔ Rebuilt base := by
  obtain ⟨rest,hrest⟩ := Option.isSome_iff_exists.mp hscheme
  by_cases hlost : Hostless base ∨ Unreachable base
  · have hrebuilt := rebuild_lost hscheme hlost
    exact ⟨fun _ => or_assoc.mp (Or.inl hlost),fun _ => hrebuilt⟩
  · constructor
    · intro hbase
      exact or_assoc.mp (Or.inr (plain_of_rebuild hrest hlost hbase))
    · intro hrebuilt
      obtain ⟨scheme,host,port,hplain⟩ := (or_assoc.mpr hrebuilt).resolve_left hlost
      exact Or.inr (rebuild_plain hplain hlost)

end Misterplex.Playback
