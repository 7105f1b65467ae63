import Boostander.Net.Client
import Boostander.Net.Conversation

/-! A server and one client program of it, connected by a stream, among other peers of
the server that may do anything. The client is told the number of rows of its own file. -/
namespace Boostander.Net
open Algo Algo.CSV Library

section
variable {γ : Type*}

/-- What an event of the client is to its session, if anything. -/
def ClientEvent.sessionEvent (csvContents : Bytes) : ClientEvent γ → Option (SessionEvent γ)
  | .opened => some .opened
  | .runAsClient now => some (.runAsClient now)
  | .request => some (.send (.shared (clientRequest csvContents)))
  | .session e => some e
  | _ => none

variable [DecidableEq γ] {callbacks : WSInputCallbacks γ}
  {exec : Bound γ → Except Fault (List SendCall)} {csvContents : Bytes}

private theorem session_clientStep {e : ClientEvent γ} {x : SessionEvent γ} {c c' : Client γ}
    (hs : clientStep callbacks exec csvContents e c = some c') (hx : e.sessionEvent csvContents = some x) :
    sessionStep callbacks exec x c.session = some c'.session := by
  cases clientMove_of_step hs with
  | opened hpos => exact Option.some.inj hx ▸ rfl
  | runAsClient now hphase => exact Option.some.inj hx ▸ rfl
  | request hphase => exact Option.some.inj hx ▸ rfl
  | session e s hallows hsession => exact Option.some.inj hx ▸ hsession
  | _ => cases hx

private theorem session_clientStep_none {e : ClientEvent γ} {c c' : Client γ}
    (hs : clientStep callbacks exec csvContents e c = some c') (hx : e.sessionEvent csvContents = none) :
    c'.session = c.session ∨ c'.session = c.session.onSessionFail := by
  cases clientMove_of_step hs with
  | resolved ec hpos =>
    cases ec with
    | none => exact .inl rfl
    | some ec => exact .inr rfl
  | connected ec hpos =>
    cases ec with
    | none => exact .inl rfl
    | some ec => exact .inr rfl
  | handshaken ec hpos =>
    cases ec with
    | none => exact .inl rfl
    | some ec => exact .inr rfl
  | connectAsClient now hphase => exact .inl rfl
  | poll now endTime currentTime hphase => exact .inl rfl
  | waited hphase => exact .inl rfl
  | _ => cases hx

theorem ticking_clientStep {e : ClientEvent γ} {c c' : Client γ}
    (hs : clientStep callbacks exec csvContents e c = some c') :
    ((e.sessionEvent csvContents).bind SessionEvent.sentCall = some (.shared (clientRequest csvContents)) ∧
        c.phase = .started ∧ c'.phase = .ticking) ∨
      ((e.sessionEvent csvContents).bind SessionEvent.sentCall = none ∧
        (c'.phase = .ticking ↔ c.phase = .ticking)) := by
  cases clientMove_of_step hs with
  | request hphase => exact .inl ⟨rfl, hphase, rfl⟩
  | resolved ec hpos => cases ec <;> exact .inr ⟨rfl, Iff.rfl⟩
  | connected ec hpos => cases ec <;> exact .inr ⟨rfl, Iff.rfl⟩
  | handshaken ec hpos => cases ec <;> exact .inr ⟨rfl, Iff.rfl⟩
  | connectAsClient now hphase => exact .inr ⟨rfl, by simp [hphase]⟩
  | opened hpos => exact .inr ⟨rfl, Iff.rfl⟩
  | poll now endTime currentTime hphase =>
    refine .inr ⟨rfl, ?_⟩
    simp only [hphase, Client.pollConnect]
    split <;> simp
  | waited hphase =>
    refine .inr ⟨rfl, ?_⟩
    simp only [hphase]
    split <;> simp
  | runAsClient now hphase => exact .inr ⟨rfl, by simp [hphase]⟩
  | session e s hallows hsession =>
    refine .inr ⟨?_, Iff.rfl⟩
    cases e with
    | send call => cases hallows
    | _ => rfl

variable {nm nm' : NetworkManager γ} {id : Bytes}

theorem object_serverStep {e : ServerEvent γ} {x : SessionEvent γ} (hfiled : Filed nm.registry)
    (hs : serverStep callbacks exec e nm = some nm') (he : e.Permitted) (hx : e.eventOf id = some x) :
    ∃ s s', nm.registry.objects id = some s ∧ sessionStep callbacks exec x s = some s' ∧
      s'.id = id ∧ nm'.registry = nm.registry.settle s' := by
  have of_session (hr : registryStep callbacks exec (.session id x) nm.registry = some nm'.registry)
      (hstarts : ¬x.Starts) : ∃ s s', nm.registry.objects id = some s ∧
        sessionStep callbacks exec x s = some s' ∧ s'.id = id ∧
        nm'.registry = nm.registry.settle s' := by
    obtain ⟨s, s', hsome, hs', hreg⟩ := registry_session hr
    exact ⟨s, s', hsome, hs', (identity_step hs' hstarts).1.trans (hfiled id s hsome).1, hreg⟩
  cases e with
  | session i e =>
    obtain ⟨rfl, hevent⟩ := Option.ite_none_right_eq_some.mp hx
    obtain rfl := Option.some.inj hevent
    exact of_session (step_session hs).2.1 he
  | callback i b =>
    obtain ⟨rfl, hevent⟩ := Option.ite_none_right_eq_some.mp hx
    obtain rfl := Option.some.inj hevent
    exact of_session (step_ran hs).2.1 not_false
  | _ => cases hx

private theorem object_serverStep_none {e : ServerEvent γ} (hfiled : Filed nm.registry)
    (hs : serverStep callbacks exec e nm = some nm') (he : e.Permitted) (hx : e.eventOf id = none) :
    nm'.registry.objects id = nm.registry.objects id ∨ nm.registry.objects id = none ∧
      ∃ now, nm'.registry.objects id = some ((WsSession.created id).runAsServer now) := by
  have of_session {i : Bytes} {y : SessionEvent γ}
      (hr : registryStep callbacks exec (.session i y) nm.registry = some nm'.registry)
      (hstarts : ¬y.Starts) (hi : i ≠ id) : nm'.registry.objects id = nm.registry.objects id := by
    obtain ⟨s, s', hsome, hs', hreg⟩ := registry_session hr
    have hid : s'.id = i := (identity_step hs' hstarts).1.trans (hfiled i s hsome).1
    rw [hreg, objects_settle, hid, Function.update_of_ne hi.symm]
  cases e with
  | listener e now =>
    obtain ⟨-, -, ⟨-, hreg⟩ | ⟨newSessId, -, hr⟩⟩ := step_listener hs
    · exact .inl (by rw [hreg])
    · obtain ⟨hnone, hreg⟩ := registry_accepted hr
      rw [hreg, objects_addSession]
      by_cases hid : id = newSessId
      · subst hid
        exact .inr ⟨hnone, now, Function.update_self ..⟩
      · exact .inl (Function.update_of_ne hid ..)
  | session i e =>
    refine .inl (of_session (step_session hs).2.1 he ?_)
    rintro rfl
    simp [ServerEvent.eventOf] at hx
  | callback i b =>
    refine .inl (of_session (step_ran hs).2.1 not_false ?_)
    rintro rfl
    simp [ServerEvent.eventOf] at hx
  | tick order =>
    obtain ⟨-, rfl⟩ := step_tick hs
    exact .inl rfl
  | next =>
    obtain ⟨i, rest, -, -, rfl⟩ := step_next hs
    exact .inl rfl

end

/-- A server, one client of it, and what these two have read of each other. -/
structure Service where
  server : NetworkManager ServerCallback
  client : Client ServerCallback
  taken : Side → List Bytes := fun _ => []

/-- What can happen. The events of the other sessions of the server are not restricted. -/
inductive ServiceEvent where
  | server (e : ServerEvent ServerCallback)
  | client (e : ClientEvent ServerCallback)

/-- What an event is to the connection of the client with the session `id`, if anything. -/
def ServiceEvent.linkEvent (csvContents id : Bytes) : ServiceEvent → Option LinkEvent
  | .server e => (e.eventOf id).map (LinkEvent.mk .server)
  | .client e => (e.sessionEvent csvContents).map (LinkEvent.mk .client)

def linkHistory (csvContents id : Bytes) (h : List ServiceEvent) : List LinkEvent :=
  h.filterMap (ServiceEvent.linkEvent csvContents id)

/-- `main` of the server makes no client sessions and sends nothing of its own. -/
def ServiceEvent.Permitted (id : Bytes) : ServiceEvent → Prop
  | .server e => e.Permitted ∧ ∀ call, e ≠ .session id (.send call)
  | .client _ => True

namespace Service

def initial (acceptorOpen : Bool) (clientId : Bytes) : Service where
  server := .initial acceptorOpen
  client := { session := .created clientId }

/-- The connection. Until the listener accepts it, nothing has happened at its server end. -/
def link (id : Bytes) (sv : Service) : Duplex where
  ends
    | .client => sv.client.session
    | .server => (sv.server.registry.objects id).getD ((WsSession.created id).runAsServer 0)
  taken := sv.taken

/-- The stream has delivered what this event reads. -/
def read (sv : Service) : Option LinkEvent → Service
  | some e =>
    { sv with
      taken := Function.update sv.taken e.side (sv.taken e.side ++ e.event.receivedMessage.toList) }
  | none => sv

@[simp] theorem read_server (sv : Service) (x : Option LinkEvent) : (sv.read x).server = sv.server := by
  cases x <;> rfl

@[simp] theorem read_client (sv : Service) (x : Option LinkEvent) : (sv.read x).client = sv.client := by
  cases x <;> rfl

end Service

section
variable {δ : Type} (cv : Side → Conversions δ) (csvContents id : Bytes)

def programStep : ServiceEvent → Service → Option Service
  | .server e, sv =>
    (serverStep operationCallbacks (calling cv .server) e sv.server).map fun nm => { sv with server := nm }
  | .client e, sv =>
    (clientStep operationCallbacks (calling cv .client) csvContents e sv.client).map
      fun c => { sv with client := c }

/-- The machine of a server and of a client that asks for `csvContents` and is connected
to the session `id`. -/
def serviceStep (e : ServiceEvent) (sv : Service) : Option Service :=
  if (e.linkEvent csvContents id).all fun x => (sv.link id).delivers x.side x.event then
    (programStep cv csvContents e sv).map fun sv' => sv'.read (e.linkEvent csvContents id)
  else none

def serviceMachine : EventMachine Service ServiceEvent := ⟨serviceStep cv csvContents id⟩

end

/-- Two connections on which the same was sent and read. -/
structure Alike (d d' : Duplex) : Prop where
  taken : d'.taken = d.taken
  ends : ∀ side, (d'.ends side).inbox = (d.ends side).inbox ∧
    (d'.ends side).sendView = (d.ends side).sendView

private theorem Linked.congr {exec : Side → Bound ServerCallback → Except Fault (List SendCall)}
    {h : List LinkEvent} {d d' : Duplex} {side : Side} (hx : Linked exec h d side) (ha : Alike d d') :
    Linked exec h d' side := by
  obtain ⟨hinbox, hsendView⟩ := ha.ends side
  obtain ⟨hbuffer, hqueue⟩ := Prod.mk.injEq _ _ _ _ ▸ hinbox
  obtain ⟨o, hsends, hacc⟩ := hx.relayed.sends
  have hview := (ha.ends side.peer).2
  simp only [WsSession.sendView, Prod.mk.injEq] at hview
  refine ⟨⟨hbuffer.trans hx.relayed.recievedBuffer, hx.relayed.short, ?_,
    o, hsends.congr hsendView, hacc⟩, ?_, ?_⟩
  · rw [hqueue]
    exact hx.relayed.queued
  · rw [ha.taken]
    exact hx.taken
  · rw [ha.taken, hview.2.2.2]
    exact hx.delivered

section
variable {δ : Type} {cv : Side → Conversions δ} {csvContents id : Bytes} {sv sv' : Service}
  {e : ServiceEvent}

/-- What a step can do: the stream delivers what is read, and one of the programs goes on. -/
theorem serviceStep_cases (hs : serviceStep cv csvContents id e sv = some sv') :
    ((e.linkEvent csvContents id).all fun x => (sv.link id).delivers x.side x.event) = true ∧
      ((∃ x nm, e = .server x ∧
          serverStep operationCallbacks (calling cv .server) x sv.server = some nm ∧
          sv' = Service.read { sv with server := nm } (e.linkEvent csvContents id)) ∨
        ∃ x c, e = .client x ∧
          clientStep operationCallbacks (calling cv .client) csvContents x sv.client = some c ∧
          sv' = Service.read { sv with client := c } (e.linkEvent csvContents id)) := by
  obtain ⟨hdelivers, hs⟩ := Option.ite_none_right_eq_some.mp hs
  obtain ⟨sv₁, hprogram, rfl⟩ := Option.map_eq_some_iff.mp hs
  refine ⟨hdelivers, ?_⟩
  cases e with
  | server x =>
    obtain ⟨nm, hserver, rfl⟩ := Option.map_eq_some_iff.mp hprogram
    exact .inl ⟨x, nm, rfl, hserver, rfl⟩
  | client x =>
    obtain ⟨c, hclient, rfl⟩ := Option.map_eq_some_iff.mp hprogram
    exact .inr ⟨x, c, rfl, hclient, rfl⟩

private theorem inbox_runAsServer (s : WsSession ServerCallback) (now : Nat) :
    (s.runAsServer now).inbox = s.inbox :=
  (WsSession.inbox_of_watchFrame (WsSession.watchFrame_startTimer s now) :)

private theorem link_read {x : LinkEvent} {s : WsSession ServerCallback}
    (hdelivers : (sv.link id).delivers x.side x.event = true)
    (hs : sessionStep operationCallbacks (calling cv x.side) x.event ((sv.link id).ends x.side) = some s)
    (htaken : sv'.taken = sv.taken) (hend : (sv'.link id).ends x.side = s)
    (hpeer : (sv'.link id).ends x.side.peer = (sv.link id).ends x.side.peer) :
    linkStep (calling cv) x (sv.link id) = some ((sv'.read (some x)).link id) := by
  have hends : (sv'.link id).ends = Function.update (sv.link id).ends x.side s := by
    funext side
    rcases x.side.eq_or_eq_peer side with rfl | rfl
    · rw [Function.update_self, hend]
    · rw [Function.update_of_ne (Side.peer_ne x.side), hpeer]
  have hput : (sv'.read (some x)).link id = (sv.link id).put x s := by
    refine congrArg₂ Duplex.mk hends ?_
    simp only [Service.read, htaken]
    rfl
  rw [linkStep, if_pos hdelivers, hs, hput]
  rfl

/-- What one step of the service is to the connection of the client. -/
theorem service_step (hfiled : Filed sv.server.registry) (he : e.Permitted id)
    (hs : serviceStep cv csvContents id e sv = some sv') :
    (∃ x, e.linkEvent csvContents id = some x ∧
        linkStep (calling cv) x (sv.link id) = some (sv'.link id)) ∨
      (e.linkEvent csvContents id = none ∧ Alike (sv.link id) (sv'.link id)) := by
  obtain ⟨hdelivers, ⟨e, nm, rfl, hserver, rfl⟩ | ⟨e, c, rfl, hclient, rfl⟩⟩ := serviceStep_cases hs
  · cases hx : e.eventOf id with
    | some y =>
      have hevent : (ServiceEvent.server e).linkEvent csvContents id = some ⟨.server, y⟩ := by
        simp only [ServiceEvent.linkEvent, hx, Option.map_some]
      obtain ⟨s, s', hsome, hs', hid, hreg⟩ := object_serverStep hfiled hserver he.1 hx
      have hsome' : nm.registry.objects id = some s' := by
        rw [hreg, objects_settle, hid, Function.update_self]
      rw [hevent] at hdelivers ⊢
      refine .inl ⟨_, rfl, link_read (s := s') hdelivers ?_ rfl ?_ rfl⟩
      · simpa only [Service.link, hsome, Option.getD_some] using hs'
      · simp only [Service.link, hsome', Option.getD_some]
    | none =>
      have hevent : (ServiceEvent.server e).linkEvent csvContents id = none := by
        simp only [ServiceEvent.linkEvent, hx, Option.map_none]
      rw [hevent]
      refine .inr ⟨rfl, rfl, ?_⟩
      intro side
      cases side with
      | client => exact ⟨rfl, rfl⟩
      | server =>
        rcases object_serverStep_none hfiled hserver he.1 hx with hsame | ⟨hnone, now, hnew⟩
        · simp only [Service.read, Service.link, hsame, and_self]
        · simp only [Service.read, Service.link, hnone, hnew, Option.getD_some, Option.getD_none,
            inbox_runAsServer, WsSession.sendView_runAsServer, and_self]
  · cases hx : e.sessionEvent csvContents with
    | some y =>
      have hevent : (ServiceEvent.client e).linkEvent csvContents id = some ⟨.client, y⟩ := by
        simp only [ServiceEvent.linkEvent, hx, Option.map_some]
      rw [hevent] at hdelivers ⊢
      exact .inl ⟨_, rfl, link_read hdelivers (session_clientStep hclient hx) rfl rfl rfl⟩
    | none =>
      have hevent : (ServiceEvent.client e).linkEvent csvContents id = none := by
        simp only [ServiceEvent.linkEvent, hx, Option.map_none]
      rw [hevent]
      have hsession := session_clientStep_none hclient hx
      refine .inr ⟨rfl, rfl, ?_⟩
      intro side
      cases side with
      | client =>
        rcases hsession with heq | heq
        · simp only [Service.read, Service.link, heq, and_self]
        · simp only [Service.read, Service.link, heq]
          exact ⟨rfl, rfl⟩
      | server => exact ⟨rfl, rfl⟩

theorem linkHistory_concat (h : List ServiceEvent) (e : ServiceEvent) :
    linkHistory csvContents id (h ++ [e]) =
      linkHistory csvContents id h ++ (e.linkEvent csvContents id).toList := by
  cases he : e.linkEvent csvContents id <;> simp [linkHistory, he]

private theorem requests_concat (h : List LinkEvent) (x : LinkEvent) :
    requests (h ++ [x]) = requests h ++
      if x.side = .client then acceptedTexts x.event.sentCall.toList else [] := by
  by_cases hside : x.side = .client
  · rw [requests, ← hside, eventsOf_concat, sentTexts, List.filterMap_append, acceptedTexts_append,
      if_pos rfl, requests, ← hside]
    cases hcall : x.event.sentCall <;> simp [hcall, sentTexts]
  · have hserver : Side.client = x.side.peer := (x.side.eq_or_eq_peer .client).resolve_left (Ne.symm hside)
    rw [requests, hserver, eventsOf_concat_peer, ← hserver, if_neg hside, List.append_nil, requests]

theorem filed_serviceStep (hfiled : Filed sv.server.registry) (he : e.Permitted id)
    (hs : serviceStep cv csvContents id e sv = some sv') : Filed sv'.server.registry := by
  obtain ⟨-, ⟨e, nm, rfl, hserver, rfl⟩ | ⟨e, c, rfl, -, rfl⟩⟩ := serviceStep_cases hs
  · rw [Service.read_server]
    obtain ⟨k, hk, hp⟩ := projects_step hserver he.1
    exact filed_run hfiled hk hp.permitted
  · rw [Service.read_server]
    exact hfiled

private theorem asks_serviceStep {x : LinkEvent} (he : e.Permitted id)
    (hs : serviceStep cv csvContents id e sv = some sv') (hx : e.linkEvent csvContents id = some x) :
    x.Asks := by
  intro call hcall
  obtain ⟨-, ⟨e, nm, rfl, -, -⟩ | ⟨e, c, rfl, hclient, -⟩⟩ := serviceStep_cases hs
  · obtain ⟨y, hy, rfl⟩ := Option.map_eq_some_iff.mp hx
    obtain rfl : y = .send call := hcall
    cases e with
    | session i e =>
      obtain ⟨rfl, hevent⟩ := Option.ite_none_right_eq_some.mp hy
      exact absurd (congrArg (ServerEvent.session i) (Option.some.inj hevent)) (he.2 call)
    | callback i b =>
      obtain ⟨-, hevent⟩ := Option.ite_none_right_eq_some.mp hy
      cases hevent
    | _ => cases hy
  · obtain ⟨y, hy, rfl⟩ := Option.map_eq_some_iff.mp hx
    obtain rfl : y = .send call := hcall
    refine ⟨rfl, csvContents, ?_⟩
    have hsent := ticking_clientStep hclient
    rw [hy] at hsent
    rcases hsent with ⟨hsent, -, -⟩ | ⟨hsent, -⟩
    · exact Option.some.inj hsent
    · cases hsent

/-- The requests that were sent while `main` is in this phase. -/
def askedIn (csvContents : Bytes) (phase : MainPhase) : List Bytes :=
  if phase = .ticking then acceptedTexts [.shared (clientRequest csvContents)] else []

private theorem requests_serviceStep {h : List ServiceEvent}
    (hs : serviceStep cv csvContents id e sv = some sv')
    (hrequests : requests (linkHistory csvContents id h) = askedIn csvContents sv.client.phase) :
    requests (linkHistory csvContents id (h ++ [e])) = askedIn csvContents sv'.client.phase := by
  rw [linkHistory_concat]
  obtain ⟨-, ⟨e, nm, rfl, -, rfl⟩ | ⟨e, c, rfl, hclient, rfl⟩⟩ := serviceStep_cases hs
  · rw [Service.read_client, ← hrequests]
    cases hy : e.eventOf id with
    | none => simp only [ServiceEvent.linkEvent, hy, Option.map_none, Option.toList_none, List.append_nil]
    | some y =>
      simp only [ServiceEvent.linkEvent, hy, Option.map_some, Option.toList_some]
      rw [requests_concat, if_neg Side.noConfusion, List.append_nil]
  · rw [Service.read_client]
    have hsent : requests (linkHistory csvContents id h ++
        ((ServiceEvent.client e).linkEvent csvContents id).toList) =
          requests (linkHistory csvContents id h) ++
            acceptedTexts ((e.sessionEvent csvContents).bind SessionEvent.sentCall).toList := by
      cases hy : e.sessionEvent csvContents with
      | none =>
        simp only [ServiceEvent.linkEvent, hy, Option.map_none, Option.toList_none, List.append_nil,
          Option.bind_none]
        exact (List.append_nil _).symm
      | some y =>
        simp only [ServiceEvent.linkEvent, hy, Option.map_some, Option.toList_some, Option.bind_some]
        rw [requests_concat, if_pos rfl]
    rw [hsent, hrequests]
    rcases ticking_clientStep hclient with ⟨hcall, hstarted, hticking⟩ | ⟨hcall, hiff⟩
    · simp [hcall, askedIn, hstarted, hticking]
    · rw [hcall, askedIn, askedIn, Option.toList_none]
      simp only [hiff]
      exact List.append_nil _

/-- What holds of the service after a history. -/
structure Served (cv : Side → Conversions δ) (csvContents id : Bytes) (h : List ServiceEvent)
    (sv : Service) : Prop where
  filed : Filed sv.server.registry
  linked : ∀ side, Linked (calling cv) (linkHistory csvContents id h) (sv.link id) side
  replied : Replied cv (linkHistory csvContents id h)
  typed : Typed cv (linkHistory csvContents id h)
  asks : ∀ x ∈ linkHistory csvContents id h, x.Asks
  requests : requests (linkHistory csvContents id h) = askedIn csvContents sv.client.phase

private theorem served_step {h : List ServiceEvent} (hserved : Served cv csvContents id h sv)
    (hs : serviceStep cv csvContents id e sv = some sv') (he : e.Permitted id)
    (hwhole : ∀ x, e.linkEvent csvContents id = some x → x.event.Whole) :
    Served cv csvContents id (h ++ [e]) sv' := by
  have hrequests := requests_serviceStep hs hserved.requests
  have hfiled := filed_serviceStep hserved.filed he hs
  rcases service_step hserved.filed he hs with ⟨x, hx, hlink⟩ | ⟨hx, halike⟩
  · have hasks := asks_serviceStep he hs hx
    have hconcat : linkHistory csvContents id (h ++ [e]) = linkHistory csvContents id h ++ [x] := by
      rw [linkHistory_concat, hx, Option.toList_some]
    rw [hconcat] at hrequests
    refine ⟨hfiled, ?_, ?_, ?_, ?_, ?_⟩ <;> rw [hconcat]
    · exact linked_step hserved.linked hlink (hwhole x hx)
    · exact replied_step hserved.linked hserved.replied hlink hasks.nulFree
    · exact typed_step hserved.linked hserved.replied hserved.typed hlink hasks
    · exact List.forall_mem_append.mpr ⟨hserved.asks, by simpa using hasks⟩
    · exact hrequests
  · have hconcat : linkHistory csvContents id (h ++ [e]) = linkHistory csvContents id h := by
      rw [linkHistory_concat, hx, Option.toList_none, List.append_nil]
    rw [hconcat] at hrequests
    refine ⟨hfiled, ?_, ?_, ?_, ?_, ?_⟩ <;> rw [hconcat]
    · exact fun side => (hserved.linked side).congr halike
    · exact hserved.replied
    · exact hserved.typed
    · exact hserved.asks
    · exact hrequests

private theorem served_initial (b : Bool) (clientId : Bytes) :
    Served cv csvContents id [] (.initial b clientId) := by
  refine ⟨fun i s hs => absurd hs (Option.some_ne_none s).symm, ?_, ⟨?_, ?_⟩, ⟨?_, ?_⟩, ?_, rfl⟩
  · intro side
    refine (linked_connected clientId id 0 0 side).congr ⟨rfl, ?_⟩
    intro side
    cases side with
    | client => exact ⟨rfl, rfl⟩
    | server => exact ⟨rfl, rfl⟩
  · exact fun side m hm => absurd hm List.not_mem_nil
  · exact fun side b hb => absurd hb List.not_mem_nil
  · exact fun m hm => absurd hm List.not_mem_nil
  · exact fun m hm => absurd hm List.not_mem_nil
  · exact fun x hx => absurd hx List.not_mem_nil

theorem served_of_run {b : Bool} {clientId : Bytes} {h : List ServiceEvent}
    (hr : (serviceMachine cv csvContents id).run h (.initial b clientId) = some sv)
    (hperm : ∀ e ∈ h, e.Permitted id) (hwhole : ∀ x ∈ linkHistory csvContents id h, x.event.Whole) :
    Served cv csvContents id h sv := by
  have hall : ∀ e ∈ h, e.Permitted id ∧
      ∀ x, e.linkEvent csvContents id = some x → x.event.Whole := fun e he =>
    ⟨hperm e he, fun x hx => hwhole x (List.mem_filterMap.mpr ⟨e, he, hx⟩)⟩
  apply (EventMachine.path_of_run hr hall).invariant (Served cv csvContents id)
  · exact served_initial b clientId
  · rintro h u v e hu ⟨he, hwhole⟩ hstep
    exact served_step hu hstep he hwhole

theorem answers_request (csvContents : Bytes) :
    ((acceptedTexts [.shared (clientRequest csvContents)]).filter fun m => decide (2 ≤ m.length)).map
        rowsAnswer =
      if Sendable (49 :: cStr csvContents) ∧ cStr csvContents ≠ [] then
        [rowsAnswer (49 :: cStr csvContents)]
      else [] := by
  have hlong : 2 ≤ (49 :: cStr csvContents).length ↔ cStr csvContents ≠ [] := by
    rw [List.length_cons, ← List.length_pos_iff]
    omega
  rw [acceptedTexts, List.map_singleton, text_clientRequest]
  by_cases hsendable : Sendable (49 :: cStr csvContents)
  · by_cases hcontents : cStr csvContents = []
    · simp [hcontents]
    · rw [if_pos ⟨hsendable, hcontents⟩, List.filter_cons_of_pos (by simpa using hsendable),
        List.filter_nil, List.filter_cons_of_pos (by simpa using hlong.mpr hcontents)]
      rfl
  · rw [if_neg fun h => hsendable h.1, List.filter_cons_of_neg (by simpa using hsendable)]
    rfl

/-- Whatever the other peers of the server do, and whatever fails, a client that nobody
connects to is told one thing at most, and that is the number of rows of its own file, if
a failed read leaves no partial message. -/
theorem client_told_rows {b : Bool} {clientId : Bytes} {h : List ServiceEvent}
    (hr : (serviceMachine cv csvContents id).run h (.initial b clientId) = some sv)
    (hperm : ∀ e ∈ h, e.Permitted id) (hwhole : ∀ x ∈ linkHistory csvContents id h, x.event.Whole) :
    results (linkHistory csvContents id h) = [] ∨
      sv.client.phase = .ticking ∧ cStr csvContents ≠ [] ∧
        results (linkHistory csvContents id h) = [rowsAnswer (49 :: cStr csvContents)] := by
  have hserved := served_of_run hr hperm hwhole
  have hresults := results_prefix_requests hserved.linked hserved.replied hserved.typed hserved.asks
  rw [hserved.requests, askedIn] at hresults
  split at hresults
  · rename_i hticking
    rw [answers_request] at hresults
    split at hresults
    · rename_i hsent
      rcases List.prefix_cons_iff.mp hresults with hnil | ⟨l, hcons, hl⟩
      · exact .inl hnil
      · rw [List.prefix_nil.mp hl] at hcons
        exact .inr ⟨hticking, hsent.2, hcons⟩
    · exact .inl (List.prefix_nil.mp hresults)
  · exact .inl (List.prefix_nil.mp hresults)

end

/-- The message `0H` of another peer, bound to its callback. -/
def strangersPing : Bound ServerCallback := ⟨.ping, [48, 72], by decide⟩

/-- The client and another peer connect, the peer sends a ping, and the client asks for a
table of one row and is told so. -/
def askedService : List ServiceEvent :=
  [.server (.listener .run 0), .client (.connectAsClient 0), .client (.resolved none),
    .client (.connected none), .server (.listener (.completed none) 0),
    .server (.listener (.onAccept none [1]) 0), .server (.session [1] .opened),
    .server (.session [1] (.accepted none)), .client .opened, .client (.poll 1000000), .client .waited,
    .client (.runAsClient 1000000), .client (.handshaken none),
    .server (.listener (.completed none) 0), .server (.listener (.onAccept none [2]) 0),
    .server (.session [2] .opened), .server (.session [2] (.accepted none)),
    .server (.session [2] (.received none [48, 72])), .client .request,
    .server (.session [1] (.received none (49 :: datedContents))), .server (.tick [[2], [1]]),
    .server (.callback [2] strangersPing), .server .next, .server (.callback [1] askedTable),
    .client (.session (.received none [50, 49])), .client (.session (.callback answeredTable)),
    .server .next]

theorem client_told_rows_asked : ∃ sv,
    (serviceMachine (fun _ => wholeConversions) datedContents [1]).run askedService
      (.initial true [9]) = some sv ∧
    sv.client.phase = .ticking ∧ cStr datedContents ≠ [] ∧
    results (linkHistory datedContents [1] askedService) = [rowsAnswer (49 :: cStr datedContents)] := by
  obtain ⟨sv, hr⟩ : ∃ sv, (serviceMachine (fun _ => wholeConversions) datedContents [1]).run askedService
      (.initial true [9]) = some sv := ⟨_, rfl⟩
  have hperm : ∀ e ∈ askedService, e.Permitted [1] := by
    simp [askedService, ServiceEvent.Permitted, ServerEvent.Permitted, SessionEvent.Starts]
  have hhistory : linkHistory datedContents [1] askedService =
      [⟨.server, .opened⟩, ⟨.server, .accepted none⟩, ⟨.client, .opened⟩, ⟨.client, .runAsClient 1000000⟩,
        ⟨.client, .send (.shared (clientRequest datedContents))⟩,
        ⟨.server, .received none (49 :: datedContents)⟩, ⟨.server, .callback askedTable⟩,
        ⟨.client, .received none [50, 49]⟩, ⟨.client, .callback answeredTable⟩] := rfl
  have hwhole : ∀ x ∈ linkHistory datedContents [1] askedService, x.event.Whole := by
    rw [hhistory]
    simp [SessionEvent.Whole]
  have htold : results (linkHistory datedContents [1] askedService) ≠ [] := by
    rw [hhistory]
    exact List.cons_ne_nil _ _
  exact ⟨sv, hr, (client_told_rows hr hperm hwhole).resolve_left htold⟩

end Boostander.Net
