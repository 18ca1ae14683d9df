import Misterplex.Playback.RestartBase

/-!
# Where a restart goes

The remembered request keeps the parts of the configured server through all restarts of
a title, and its token is the one that was remembered at the last step in the queue. So
a restart goes to the same server with the same token exactly when the server is one
that is put together again and that token is the configured one.
-/

namespace Misterplex.Playback

open Misterplex.Companion

namespace Servers

variable {c : Servers}

theorem defaultPms_scheme (c : Servers) : found "://".toList c.defaultPms.toList=true :=
  Plex.found_normalizePlexBase c.host_some

variable {req : PlayRequest}

theorem selected_iff : c.selected req c.defaultPms=c.defaultPms ↔
      Plex.buildPlexBase req.protocol.toList req.address.toList req.port.toList
          c.defaultPms.toList=[] ∨
        Plex.buildPlexBase req.protocol.toList req.address.toList req.port.toList
          c.defaultPms.toList=c.defaultPms.toList := by
  rw [selected]
  generalize Plex.buildPlexBase req.protocol.toList req.address.toList req.port.toList
    c.defaultPms.toList=base
  have hsome : orElse c.defaultPms c.defaultPms=c.defaultPms := by
    rw [orElse]
    split <;> rfl
  cases base with
  | nil => exact ⟨fun _ => Or.inl rfl,fun _ => hsome⟩
  | cons ch base =>
    have hne : ¬(ch::base).isEmpty=true := Bool.false_ne_true
    rw [if_neg hne]
    constructor
    · intro h
      exact Or.inr (by rw [← h,String.toList_ofList])
    · intro h
      rw [h.resolve_left (List.cons_ne_nil ch base),String.ofList_toList]

theorem selected_of_no_address (h : req.address = "") :
    c.selected req c.defaultPms=c.defaultPms := by
  rw [selected_iff,h]
  exact (Plex.buildPlexBase_fallback rfl c.defaultPms_scheme).symm

/-- With the parts of the default server it is selected when they are put together to it. -/
theorem selected_placed (h : Placed c.defaultPms req) :
    c.selected req c.defaultPms=c.defaultPms ↔ Rebuilt c.defaultPms := by
  have hprotocol : req.protocol.toList=protocolOf c.defaultPms := by
    rw [h.protocol,protocolOf]
    split <;> rfl
  rw [selected_iff,hprotocol,h.address,h.port]
  exact rebuild_iff c.defaultPms_scheme

theorem resolve_selected (req : PlayRequest) (preferredBase : String)
    {resolvePlayTarget : String → String → String → ℤ → ResolveResult}
    (h : (resolvePlayTarget req.key (c.selected req preferredBase) (c.tokenOf req)
      req.offsetMs).ok=true) :
    c.resolveAgainstServers resolvePlayTarget req preferredBase =
      (resolvePlayTarget req.key (c.selected req preferredBase) (c.tokenOf req) req.offsetMs,
        c.selected req preferredBase) := by
  exact if_pos h

/-- The token is right when the request brings it, or when it brings none and names no server. -/
theorem tokenOf_iff : c.tokenOf req=c.confToken ↔
      req.token=c.confToken ∨ (req.token = "" ∧ req.address = "") := by
  rw [tokenOf]
  by_cases htoken : req.token = ""
  · rw [if_neg (not_not.mpr htoken),htoken]
    by_cases haddress : req.address = ""
    · rw [if_pos haddress]
      exact ⟨fun _ => Or.inr ⟨rfl,haddress⟩,fun _ => rfl⟩
    · rw [if_neg haddress]
      exact ⟨Or.inl,fun h => h.resolve_right fun hboth => haddress hboth.2⟩
  · rw [if_pos htoken]
    exact ⟨Or.inl,fun h => h.resolve_right fun hboth => htoken hboth.1⟩

theorem faithful_iff : c.Faithful req ↔
      c.selected req c.defaultPms=c.defaultPms ∧ c.tokenOf req=c.confToken := by
  constructor
  · intro h
    exact ⟨h.base,h.credential⟩
  · rintro ⟨hbase,hcredential⟩
    refine ⟨hbase,hcredential,fun resolvePlayTarget hok => ?_⟩
    have hresolved := @resolve_selected c req c.defaultPms resolvePlayTarget
    rw [hbase,hcredential] at hresolved
    exact hresolved hok

end Servers

open Resolved

theorem Resolved.bindQueue_base (res : Resolved) (req : PlayRequest) (queue : PlayQueue) :
    (res.bindQueue req queue).base=res.base := by
  rw [bindQueue]
  split
  · split
    · rfl
    · split <;> rfl
  · rfl

theorem Resolved.bound_placed {res : Resolved} {req : PlayRequest} {base : String}
    (hbase : res.base=base) (hsome : base ≠ "")
    (h : req.address = "" ∨ Placed base req) : Placed base (res.bound req) := by
  by_cases haddress : req.address = ""
  · have hnamed : req.address = "" ∧ res.base ≠ "" := ⟨haddress,hbase ▸ hsome⟩
    have hbound : res.address req=_ := if_pos hnamed
    constructor
    · rw [bound,hbound,hbase]
    · rw [bound,hbound,hbase]
    · rw [bound,hbound,hbase]
  · have hnamed : ¬(req.address = "" ∧ res.base ≠ "") := fun hboth => haddress hboth.1
    have hbound : res.address req=req := if_neg hnamed
    have hplaced := h.resolve_left haddress
    constructor
    · rw [bound,hbound]
      exact hplaced.address
    · rw [bound,hbound]
      exact hplaced.port
    · rw [bound,hbound]
      exact hplaced.protocol

theorem Resolved.bound_token (res : Resolved) (req : PlayRequest) :
    (res.bound req).token=req.token := by
  rw [bound,address]
  split <;> rfl

/-- What is remembered of a title that is served by the default server. -/
structure Session.Remembers (s : Session) (c : Servers) (stepped : Bool) : Prop where
  /-- The request has the parts of the default server, unless the title is forgotten. -/
  placed : s.lastPlay=PlayRequest.blank ∨ Placed c.defaultPms s.lastPlay
  /-- Without a step in the queue the request has no token. -/
  tokenless : stepped=false → s.lastPlay.token = ""

/-- The token of the request a restart makes. A step in the queue takes the one that came
last; the other restarts repeat the one of the last step, if there was one. -/
def Session.carried (s : Session) (stepped : Bool) (r : Restart) : String :=
  if r.isStep then s.lastToken else if stepped then s.lastPlay.token else ""

namespace Session

variable {s : Session} {c : Servers} {stepped : Bool} {r : Restart} {req : PlayRequest}

theorem request_blank (h : s.lastPlay=PlayRequest.blank) : s.request r=none := by
  cases r with
  | seek ms =>
    have hkey : ¬libraryKey s.lastPlay=true := by
      rw [h]
      decide
    exact if_neg hkey
  | contentRes positionMs =>
    have hkey : s.lastPlay.key = "" ∧ s.lastPlay.ratingKey = "" := by
      rw [h]
      exact ⟨rfl,rfl⟩
    exact if_pos hkey
  | queueStep delta queue =>
    have hqueue : ¬mentions (queueRef s.lastPlay) "/playQueues/" = true := by
      rw [h]
      decide
    exact if_neg hqueue

theorem request_server (h : s.request r=some req) :
    req.address=s.lastPlay.address ∧ req.port=s.lastPlay.port ∧
      req.protocol=s.lastPlay.protocol := by
  cases r with
  | seek ms =>
    rw [request] at h
    split at h
    · cases h
      exact ⟨rfl,rfl,rfl⟩
    · cases h
  | contentRes positionMs =>
    rw [request] at h
    split at h
    · cases h
    · cases h
      exact ⟨rfl,rfl,rfl⟩
  | queueStep delta queue =>
    rw [request] at h
    split at h
    · obtain ⟨item,_,hitem⟩ := Option.map_eq_some_iff.mp h
      rw [← hitem]
      exact ⟨rfl,rfl,rfl⟩
    · cases h

/-- A restart brings the token of the remembered request or, in a step, the last one. -/
theorem request_token (h : s.request r=some req) :
    req.token = if r.isStep then s.lastToken else s.lastPlay.token := by
  cases r with
  | seek ms =>
    rw [request] at h
    split at h
    · cases h
      rfl
    · cases h
  | contentRes positionMs =>
    rw [request] at h
    split at h
    · cases h
    · cases h
      rfl
  | queueStep delta queue =>
    rw [request] at h
    split at h
    · obtain ⟨item,_,hitem⟩ := Option.map_eq_some_iff.mp h
      rw [← hitem]
      rfl
    · cases h

theorem Remembers.request_placed (h : s.Remembers c stepped) (hreq : s.request r=some req) :
    Placed c.defaultPms req := by
  have hplaced := h.placed.resolve_left fun hblank => by
    rw [request_blank hblank] at hreq
    cases hreq
  obtain ⟨haddress,hport,hprotocol⟩ := request_server hreq
  exact ⟨haddress.trans hplaced.address,hport.trans hplaced.port,
    hprotocol.trans hplaced.protocol⟩

theorem Remembers.request_carried (h : s.Remembers c stepped) (hreq : s.request r=some req) :
    req.token=s.carried stepped r := by
  rw [request_token hreq,carried]
  split
  · rfl
  · cases stepped with
    | false => exact h.tokenless rfl
    | true => rfl

theorem commit_remembers (s : Session) {res : Resolved} (hbase : res.base=c.defaultPms)
    (hserver : req.address = "" ∨ Placed c.defaultPms req)
    (htoken : stepped=false → req.token = "") :
    (s.commit c.confToken req (res.bound req) c.defaultPms).Remembers c stepped where
  placed := Or.inr (bound_placed hbase c.host_some hserver)
  tokenless hstep := (res.bound_token req).trans (htoken hstep)

theorem Remembers.doPlay (h : s.Remembers c stepped) (reply : Reply)
    (hserver : Placed c.defaultPms req) (htoken : stepped=false → req.token = "")
    (hbase : (c.resolveAgainstServers reply.resolvePlayTarget req c.defaultPms).2 =
      c.defaultPms) : (s.doPlay c reply req).Remembers c stepped := by
  rw [Session.doPlay]
  cases reply.fate with
  | superseded => exact h
  | closed => exact ⟨Or.inl rfl,fun _ => rfl⟩
  | played =>
    rw [hbase]
    exact commit_remembers s (bindQueue_base _ req reply.queue) (Or.inr hserver) htoken

theorem Remembers.stage (h : s.Remembers c stepped) (hreq : s.request r=some req) :
    (s.stage req r).Remembers c (stepped || r.isStep) := by
  have hplaced := h.request_placed hreq
  cases r with
  | seek ms => exact ⟨h.placed,fun hstep => h.tokenless (Bool.or_eq_false_iff.mp hstep).1⟩
  | contentRes positionMs =>
    exact ⟨h.placed,fun hstep => h.tokenless (Bool.or_eq_false_iff.mp hstep).1⟩
  | queueStep delta queue =>
    exact ⟨Or.inr hplaced,fun hstep => by cases (Bool.or_eq_false_iff.mp hstep).2⟩

end Session

theorem Served.remembers {c : Servers} {stepped : Bool} {s : Session} (h : Served c stepped s) :
    s.Remembers c stepped := by
  induction h with
  | @play req reply s haddress htoken hok hplayed =>
    have hselected := Servers.selected_of_no_address (c := c) haddress
    have hcredential : c.tokenOf req=c.confToken :=
      Servers.tokenOf_iff.mpr (Or.inr ⟨htoken,haddress⟩)
    have hresolved := (Servers.faithful_iff.mpr ⟨hselected,hcredential⟩).kept
      reply.resolvePlayTarget hok
    rw [Session.doPlay,hplayed,hresolved]
    exact Session.commit_remembers s (bindQueue_base _ req reply.queue)
      (Or.inl haddress) fun _ => htoken
  | tokenUpdate h token ih => exact ⟨ih.placed,ih.tokenless⟩
  | @restart stepped s r req h hreq reply hbase ih =>
    have hstaged := ih.stage hreq
    refine hstaged.doPlay reply (ih.request_placed hreq) (fun hstep => ?_) hbase
    obtain ⟨hbefore,hr⟩ := Bool.or_eq_false_iff.mp hstep
    rw [Session.request_token hreq,hr]
    exact ih.tokenless hbefore

/-- In every session of a title that the default server has served so far, a restart goes
to the default server with the configured token, and so is played from there whenever the
server answers it, if and only if the address of the server is one that is put together
again and the token that is carried to the restart is the configured one. -/
theorem restart_faithful_iff {c : Servers} {stepped : Bool} {s : Session}
    (h : Served c stepped s) {r : Restart} {req : PlayRequest} (hreq : s.request r=some req) :
    c.Faithful req ↔
      Rebuilt c.defaultPms ∧
        (s.carried stepped r=c.confToken ∨
          (s.carried stepped r = "" ∧ Hostless c.defaultPms)) := by
  have hplaced := h.remembers.request_placed hreq
  rw [Servers.faithful_iff,Servers.selected_placed hplaced,Servers.tokenOf_iff,
    h.remembers.request_carried hreq,hplaced.address,Hostless]

variable (confToken : String)

/-- A server at home with the given token. -/
def homeServers : Servers where
  host := "10.0.0.2"
  host_some := by decide
  servers := ["http://10.0.0.2:32400"]
  confToken := confToken

/-- A cast of a title in a play queue that names no server. -/
def homeCast : PlayRequest :=
  { PlayRequest.blank with key := "/library/metadata/7", containerKey := "/playQueues/3" }

/-- The home server answers every request. -/
def homeReply : Reply where
  resolvePlayTarget _ _ _ _ := { ResolveResult.failed with ok := true }
  queue := PlayQueue.failed
  fate := .played

/-- The session of the title from the home server. -/
def homeSession : Session :=
  Session.doPlay ⟨PlayRequest.blank,"",""⟩ (homeServers confToken) homeReply homeCast

theorem homeSession_served : Served (homeServers confToken) false (homeSession confToken) :=
  Served.play ⟨PlayRequest.blank,"",""⟩ rfl rfl rfl rfl

theorem homeServers_rebuilt : Rebuilt (homeServers confToken).defaultPms := by
  have hbase : (homeServers confToken).defaultPms = "http://10.0.0.2:32400" := by
    show Plex.normalizePlexBase "10.0.0.2" = "http://10.0.0.2:32400"
    decide
  rw [hbase]
  exact Or.inr (Or.inr ⟨"http".toList,"10.0.0.2".toList,"32400".toList,by decide,by decide,
    by decide,by decide,by decide,by decide,by decide⟩)

/-- The play queue of that title, with one more title behind it. -/
def homeQueue : PlayQueue where
  ok := true
  playQueueId := "3"
  playQueueVersion := "1"
  containerKey := "/playQueues/3"
  items := [⟨"/library/metadata/7","7","11"⟩,⟨"/library/metadata/8","8","12"⟩]
  currentIndex := 0

/-- The step to the next title of the queue. -/
def nextTitle : Restart := .queueStep 1 homeQueue

/-- The request of the step from the first title. -/
def nextRequest : PlayRequest :=
  homeQueue.request ⟨"/library/metadata/8","8","12"⟩ (homeSession confToken).lastPlay
    (homeSession confToken).lastToken

/-- The session of the next title. -/
def nextSession : Session :=
  ((homeSession confToken).stage (nextRequest confToken) nextTitle).doPlay
    (homeServers confToken) homeReply (nextRequest confToken)

/-- A step in the queue takes the configured token along, and so does a seek behind it. -/
theorem restart_faithful_next :
    (homeServers "abc").Faithful (nextRequest "abc") ∧
      (homeServers "abc").Faithful (seekRequest (nextSession "abc").lastPlay 60000) := by
  have hstep : (homeSession "abc").request nextTitle=some (nextRequest "abc") := by decide
  have hserved : Served (homeServers "abc") true (nextSession "abc") :=
    (homeSession_served "abc").restart hstep homeReply (by decide)
  have hseek : (nextSession "abc").request (.seek 60000) =
      some (seekRequest (nextSession "abc").lastPlay 60000) := by decide
  exact ⟨(restart_faithful_iff (homeSession_served "abc") hstep).mpr
      ⟨homeServers_rebuilt "abc",Or.inl (by decide)⟩,
    (restart_faithful_iff hserved hseek).mpr ⟨homeServers_rebuilt "abc",Or.inl (by decide)⟩⟩

/-- With a configured token a seek leaves it out. -/
theorem not_restart_faithful :
    ¬∀ (c : Servers) (stepped : Bool) (s : Session), Served c stepped s →
      ∀ (r : Restart) (req : PlayRequest), s.request r=some req → c.Faithful req := by
  intro hall
  have hseek := hall (homeServers "abc") false (homeSession "abc") (homeSession_served "abc")
    (.seek 60000) (seekRequest (homeSession "abc").lastPlay 60000) (by decide)
  have htoken := hseek.credential
  revert htoken
  decide

end Misterplex.Playback
