import Boostander.Net.Answers
import Boostander.Net.Service

/-! The client gets its answer. As long as its connection holds, there are steps that
take its request to the server, through the ticks there, and the answer back. -/
namespace Boostander.Net
open Algo Algo.CSV Library

section
variable {γ : Type*} {exec : Bound γ → Except Fault (List SendCall)} {nm u v : NetworkManager γ}
  {id : Bytes}

/-- The server has gone on with its tick from `nm` to `u` and has not come to `id`. -/
structure Passing (exec : Bound γ → Except Fault (List SendCall)) (id : Bytes)
    (nm u : NetworkManager γ) : Prop where
  filed : Filed u.registry
  present : Present u
  nodup : u.todo.Nodup
  object : u.registry.objects id = nm.registry.objects id
  inMap : id ∈ u.registry.sessions
  waits : id ∈ nm.todo → id ∈ u.todo
  returns : ∀ i ≠ id, ∀ b ∈ u.received i, ∃ calls, exec b = .ok calls

private theorem Passing.next {i : Bytes} {rest : List Bytes} (h : Passing exec id nm u)
    (htodo : u.todo = i :: rest) (hi : i ≠ id) : Passing exec id nm { u with todo := rest } where
  filed := h.filed
  present := ⟨h.present.1, fun j hj => h.present.2 j (htodo ▸ List.mem_cons_of_mem _ hj)⟩
  nodup := (List.nodup_cons.mp (htodo ▸ h.nodup)).2
  object := h.object
  inMap := h.inMap
  waits hid := (List.mem_cons.mp (htodo ▸ h.waits hid)).resolve_left (Ne.symm hi)
  returns := h.returns

private theorem attached_processBuffer (callbacks : WSInputCallbacks γ) (s : WsSession γ) :
    (s.processBuffer callbacks).registered = s.registered ∧
      (s.processBuffer callbacks).ws.socketOpen = s.ws.socketOpen := by
  have hdata : (s.handleIncomingData callbacks s.recievedBuffer).2.registered = s.registered ∧
      (s.handleIncomingData callbacks s.recievedBuffer).2.ws.socketOpen = s.ws.socketOpen := by
    rw [WsSession.handleIncomingData]
    split
    · exact ⟨rfl, rfl⟩
    split <;> exact ⟨rfl, rfl⟩
  rw [WsSession.processBuffer]
  split
  · exact ⟨rfl, rfl⟩
  split
  · exact ⟨rfl, rfl⟩
  dsimp only
  split <;> exact hdata

variable [DecidableEq γ] {callbacks : WSInputCallbacks γ}

private theorem Passing.callback {i : Bytes} {b : Bound γ} (h : Passing exec id nm u)
    (hs : serverStep callbacks exec (.callback i b) u = some v) (hi : i ≠ id) :
    Passing exec id nm v := by
  obtain ⟨-, hr, -, htodo⟩ := step_ran hs
  obtain ⟨s, s', hsome, hs', hreg⟩ := registry_session hr
  have hid : s'.id = i := (identity_step hs' not_false).1.trans (h.filed i s hsome).1
  obtain ⟨hobject, hmap⟩ := u.registry.settle_other (s := s') (hid ▸ hi.symm)
  obtain ⟨-, hqueue, -⟩ := DispatchQueue.takeFront_eq_some.mp (queue_callback hs').1
  refine ⟨filed_step h.filed hr not_false, present_step h.present hs, htodo ▸ h.nodup, ?_, ?_, ?_, ?_⟩
  · rw [hreg, hobject, h.object]
  · rw [hreg]
    exact hmap.mpr h.inMap
  · rw [htodo]
    exact h.waits
  · intro j hj c hc
    have hreceived : v.received j = Function.update u.received i
        s'.receivedMessagesQueue.callbacksQueue j := by
      rw [← received_settle u hid, NetworkManager.received, NetworkManager.received, hreg]
    rw [hreceived] at hc
    by_cases hji : j = i
    · subst hji
      rw [Function.update_self] at hc
      refine h.returns j hj c ?_
      simp only [NetworkManager.received, hsome, hqueue]
      exact List.mem_cons_of_mem _ hc
    · rw [Function.update_of_ne hji] at hc
      exact h.returns j hj c hc

private theorem Passing.visit {i : Bytes} {rest : List Bytes} (h : Passing exec id nm u)
    (htodo : u.todo = i :: rest) (hi : i ≠ id) :
    ∃ e v, serverStep callbacks exec e u = some v ∧ e.Permitted ∧ e.eventOf id = none ∧
      e.isVisit = true ∧ e.isRead = false ∧ Passing exec id nm v := by
  rcases visit_enabled h.filed h.present htodo with
    ⟨v, hs⟩ | ⟨b, l, hreceived, ⟨v, hs⟩ | ⟨f, hf⟩⟩
  · obtain ⟨j, rest', htodo', -, rfl⟩ := step_next hs
    obtain ⟨rfl, rfl⟩ := List.cons.inj (htodo.symm.trans htodo')
    exact ⟨.next, _, hs, trivial, rfl, rfl, rfl, h.next htodo hi⟩
  · exact ⟨.callback i b, v, hs, trivial, if_neg hi, rfl, rfl, h.callback hs hi⟩
  · obtain ⟨calls, hcalls⟩ := h.returns i hi b (hreceived ▸ List.mem_cons_self)
    exact absurd (hcalls.symm.trans hf) (by simp)

private theorem Passing.reaches (h : Passing exec id nm u) :
    ∃ k v, (serverMachine callbacks exec).run k u = some v ∧
      ((∀ e ∈ k, e.Permitted ∧ e.eventOf id = none) ∧ Passing exec id nm v) ∧
      (v.todo = [] ∨ v.todo.head? = some id) := by
  refine EventMachine.exists_run_of_rank (h := [])
    (I := fun (k : List (ServerEvent γ)) v =>
      (∀ e ∈ k, e.Permitted ∧ e.eventOf id = none) ∧ Passing exec id nm v)
    (G := fun _ v => v.todo = [] ∨ v.todo.head? = some id) (fun _ v => v.rounds.remaining) ?_
    ⟨fun e he => absurd he List.not_mem_nil, h⟩
  rintro k u ⟨hk, hu⟩ hgoal
  rw [not_or] at hgoal
  obtain ⟨i, rest, htodo⟩ := List.exists_cons_of_ne_nil hgoal.1
  have hi : i ≠ id := by
    rintro rfl
    exact hgoal.2 (by rw [htodo]; rfl)
  obtain ⟨e, v, hs, hperm, hother, hvisit, hread, hv⟩ := hu.visit htodo hi
  refine ⟨[e], v, EventMachine.run_singleton hs, ⟨?_, hv⟩, ?_⟩
  · exact List.forall_mem_append.mpr ⟨hk, by simpa using ⟨hperm, hother⟩⟩
  · obtain ⟨l, hl, hf⟩ := follows_step hu.filed hs hperm
    have hround : Rounds.SameRound l := by
      intro order hmem
      obtain rfl := List.mem_singleton.mp (hf.begins order hmem)
      cases hvisit
    obtain ⟨-, hle⟩ := hl.remaining_le hround hu.nodup
    have hvisits := hf.visits
    have harrivals := hf.arrivals
    simp only [List.countP_singleton, hvisit, hread, if_true, Bool.false_eq_true, if_false]
      at hvisits harrivals
    omega

private theorem session_visited (callbacks : WSInputCallbacks γ) (hfiled : Filed u.registry)
    (hpresent : Present u) (hnodup : u.todo.Nodup) (hmap : id ∈ u.registry.sessions)
    (hreturns : ∀ i ≠ id, ∀ b ∈ u.received i, ∃ calls, exec b = .ok calls) :
    ∃ k v, (serverMachine callbacks exec).run k u = some v ∧
      (∀ e ∈ k, e.Permitted ∧ e.eventOf id = none) ∧ v.todo.head? = some id ∧
      v.registry.objects id = u.registry.objects id ∧ id ∈ v.registry.sessions ∧
      ∀ i ≠ id, ∀ b ∈ v.received i, ∃ calls, exec b = .ok calls := by
  have hstart : Passing exec id u u := ⟨hfiled, hpresent, hnodup, rfl, hmap, fun h => h, hreturns⟩
  obtain ⟨k, v, hk, ⟨hperm, hv⟩, hend | hhead⟩ := hstart.reaches
  · have htick : serverStep callbacks exec (.tick v.registry.sessions.toList) v =
        some { v with todo := v.registry.sessions.toList } :=
      if_pos ⟨hend, Finset.nodup_toList _, Finset.toList_toFinset _⟩
    have hagain : Passing exec id { v with todo := v.registry.sessions.toList }
        { v with todo := v.registry.sessions.toList } :=
      ⟨hv.filed, present_step hv.present htick, Finset.nodup_toList _, rfl, hv.inMap, fun h => h,
        hv.returns⟩
    obtain ⟨l, w, hl, ⟨hperm', hw⟩, hend' | hhead⟩ := hagain.reaches
    · have hwaits := hw.waits (Finset.mem_toList.mpr hv.inMap)
      rw [hend'] at hwaits
      exact absurd hwaits List.not_mem_nil
    · refine ⟨k ++ .tick v.registry.sessions.toList :: l, w, ?_, ?_, hhead, hw.object.trans hv.object,
        hw.inMap, hw.returns⟩
      · rw [EventMachine.run_append, hk]
        exact (congrArg (Option.bind · _) htick).trans hl
      · exact List.forall_mem_append.mpr ⟨hperm, List.forall_mem_cons.mpr ⟨⟨trivial, rfl⟩, hperm'⟩⟩
  · exact ⟨k, v, hk, hperm, hhead, hv.object, hv.inMap, hv.returns⟩

private theorem nodup_server {b : Bool} {h : List (ServerEvent γ)}
    (hr : (serverMachine callbacks exec).run h (.initial b) = some nm) : nm.todo.Nodup := by
  apply (EventMachine.reaches_of_run hr).invariant fun _ nm => nm.todo.Nodup
  · exact List.nodup_nil
  · intro _ u v e hu _ hstep
    have hs : serverStep callbacks exec e u = some v := hstep
    cases e with
    | listener e now => exact (step_listener hs).2.1 ▸ hu
    | session i e => exact (step_session hs).2.2.2 ▸ hu
    | tick order =>
      obtain ⟨⟨-, hnodup, -⟩, rfl⟩ := step_tick hs
      exact hnodup
    | callback i b => exact (step_ran hs).2.2.2 ▸ hu
    | next =>
      obtain ⟨i, rest, htodo, -, rfl⟩ := step_next hs
      exact (List.nodup_cons.mp (htodo ▸ hu)).2

private theorem attached_step {s s' : WsSession γ} {e : SessionEvent γ}
    (hs : sessionStep callbacks exec e s = some s') (hsteady : e.Steady)
    (hinternal : e.isInternal = true) :
    s'.registered = s.registered ∧ s'.ws.socketOpen = s.ws.socketOpen := by
  cases e with
  | received ec data =>
    obtain rfl : ec = none := hsteady
    obtain ⟨-, rfl⟩ := step_received hs
    rw [WsSession.onRead, if_neg (by simp), if_neg (by simp), if_neg (by simp)]
    exact attached_processBuffer callbacks (s.readDone data)
  | written ec dp =>
    obtain rfl : ec = none := hsteady
    obtain ⟨-, rfl⟩ := step_written hs
    rw [WsSession.onWrite, if_neg (by simp), if_neg (by simp)]
    split
    · exact ⟨rfl, rfl⟩
    dsimp only
    split <;> exact ⟨rfl, rfl⟩
  | callback b =>
    obtain ⟨q, calls, -, -, rfl⟩ := step_callback hs
    obtain ⟨_, _, _, _, heq⟩ := WsSession.sendFrame_foldl { s with receivedMessagesQueue := q } calls
    rw [heq]
    exact ⟨rfl, rfl⟩
  | _ => cases hinternal

end

section
variable {δ : Type} {cv : Side → Conversions δ} {csvContents id : Bytes} {sv sv' : Service}
  {h : List ServiceEvent} {e : ServiceEvent}

def ServiceEvent.serverEvent : ServiceEvent → Option (ServerEvent ServerCallback)
  | .server e => some e
  | .client _ => none

private theorem permitted_server (hperm : ∀ e ∈ h, e.Permitted id) :
    ∀ e ∈ h.filterMap ServiceEvent.serverEvent, e.Permitted := by
  intro e he
  obtain ⟨x, hx, hof⟩ := List.mem_filterMap.mp he
  cases x with
  | server y =>
    obtain rfl := Option.some.inj hof
    exact (hperm _ hx).1
  | client y => cases hof

private theorem server_run {b : Bool} {clientId : Bytes}
    (hr : (serviceMachine cv csvContents id).run h (.initial b clientId) = some sv) :
    (serverMachine operationCallbacks (calling cv .server)).run
      (h.filterMap ServiceEvent.serverEvent) (.initial b) = some sv.server := by
  apply (EventMachine.reaches_of_run hr).invariant fun h sv =>
    (serverMachine operationCallbacks (calling cv .server)).run
      (h.filterMap ServiceEvent.serverEvent) (.initial b) = some sv.server
  · rfl
  · intro h u v e hu _ hstep
    have hs : serviceStep cv csvContents id e u = some v := hstep
    obtain ⟨-, ⟨x, nm, rfl, hserver, rfl⟩ | ⟨x, c, rfl, -, rfl⟩⟩ := serviceStep_cases hs
    · rw [List.filterMap_append, EventMachine.run_append, hu, Service.read_server]
      exact EventMachine.run_singleton hserver
    · have hnone : [ServiceEvent.client x].filterMap ServiceEvent.serverEvent = [] := rfl
      rw [List.filterMap_append, hnone, List.append_nil, Service.read_server]
      exact hu

private theorem run_server {k : List (ServerEvent ServerCallback)}
    {nm : NetworkManager ServerCallback}
    (hk : (serverMachine operationCallbacks (calling cv .server)).run k sv.server = some nm)
    (hother : ∀ e ∈ k, e.eventOf id = none) :
    (serviceMachine cv csvContents id).run (k.map .server) sv = some { sv with server := nm } := by
  induction k generalizing sv with
  | nil =>
    obtain rfl : sv.server = nm := Option.some.inj hk
    rfl
  | cons e k ih =>
    obtain ⟨u, hu, hk⟩ := Option.bind_eq_some_iff.mp hk
    obtain ⟨he, hother⟩ := List.forall_mem_cons.mp hother
    have hevent : (ServiceEvent.server e).linkEvent csvContents id = none := by
      simp only [ServiceEvent.linkEvent, he, Option.map_none]
    have hserver : serverStep operationCallbacks (calling cv .server) e sv.server = some u := hu
    have hstep : serviceStep cv csvContents id (.server e) sv = some { sv with server := u } := by
      rw [serviceStep, hevent, if_pos Option.all_none, programStep, hserver]
      rfl
    have hrest : (serviceMachine cv csvContents id).run (k.map .server) { sv with server := u } =
        some { sv with server := nm } := ih hk hother
    exact (congrArg (Option.bind · _) hstep).trans hrest

private theorem Written.congr {s s' : WsSession ServerCallback} {n : Nat} (h : Written s n)
    (hview : s'.sendView = s.sendView) : Written s' n := by
  simp only [WsSession.sendView, Prod.mk.injEq] at hview
  rw [Written, hview.2.2.1, hview.2.2.2]
  exact h

private theorem written_of_run {b : Bool} {clientId : Bytes}
    (hr : (serviceMachine cv csvContents id).run h (.initial b clientId) = some sv)
    (hperm : ∀ e ∈ h, e.Permitted id) (side : Side) :
    Written ((sv.link id).ends side)
      ((eventsOf side (linkHistory csvContents id h)).countP SessionEvent.isWritten) := by
  have hboth : Filed sv.server.registry ∧ ∀ side, Written ((sv.link id).ends side)
      ((eventsOf side (linkHistory csvContents id h)).countP SessionEvent.isWritten) := by
    apply (EventMachine.path_of_run hr hperm).invariant fun h sv =>
      Filed sv.server.registry ∧ ∀ side, Written ((sv.link id).ends side)
        ((eventsOf side (linkHistory csvContents id h)).countP SessionEvent.isWritten)
    · refine ⟨fun i s hs => absurd hs (Option.some_ne_none s).symm, ?_⟩
      intro side
      cases side <;> rfl
    · rintro h u v e ⟨hfiled, hwritten⟩ he hs
      refine ⟨filed_serviceStep hfiled he hs, ?_⟩
      rw [linkHistory_concat]
      rcases service_step hfiled he hs with ⟨x, hx, hlink⟩ | ⟨hx, halike⟩
      · obtain ⟨-, s, hsession, hput⟩ := link_step hlink
        rw [hx, hput, Option.toList_some]
        intro side
        rcases x.side.eq_or_eq_peer side with rfl | rfl
        · rw [Duplex.put_ends, eventsOf_concat, List.countP_append, List.countP_singleton]
          exact written_step (hwritten x.side) hsession
        · rw [Duplex.put_ends_peer, eventsOf_concat_peer]
          exact hwritten x.side.peer
      · rw [hx, Option.toList_none, List.append_nil]
        exact fun side => (hwritten side).congr (halike.ends side).2
  exact hboth.2 side

/-- The connection of the client holds: `main` has sent the request, both ends are open
and reading, no timer has closed a socket, both programs have the session in their maps,
and what the other sessions of the server have queued there returns. -/
structure Holding (cv : Side → Conversions δ) (id : Bytes) (sv : Service) : Prop where
  ticking : sv.client.phase = .ticking
  active : ∀ side, ((sv.link id).ends side).Active
  sockets : ∀ side, ((sv.link id).ends side).ws.socketOpen = true
  registered : sv.client.session.registered = true
  inMap : id ∈ sv.server.registry.sessions
  returns : ∀ i ≠ id, ∀ b ∈ sv.server.received i, ∃ calls, calling cv .server b = .ok calls

private theorem attached_link {x : LinkEvent} {d d' : Duplex}
    (hlink : linkStep (calling cv) x d = some d') (hsteady : x.event.Steady)
    (hinternal : x.isInternal = true) (side : Side) :
    (d'.ends side).registered = (d.ends side).registered ∧
      (d'.ends side).ws.socketOpen = (d.ends side).ws.socketOpen := by
  obtain ⟨-, s, hsession, rfl⟩ := link_step hlink
  rcases x.side.eq_or_eq_peer side with rfl | rfl
  · rw [Duplex.put_ends]
    exact attached_step hsession hsteady hinternal
  · rw [Duplex.put_ends_peer]
    exact ⟨rfl, rfl⟩

private theorem holding_step {x : LinkEvent} (hserved : Served cv csvContents id h sv)
    (hup : ∀ side, Upheld (linkHistory csvContents id h) (sv.link id) side)
    (hregistered : ((sv.link id).ends .server).registered = true) (hholding : Holding cv id sv)
    (hs : serviceStep cv csvContents id e sv = some sv') (he : e.Permitted id)
    (hx : e.linkEvent csvContents id = some x) (hsteady : x.event.Steady)
    (hinternal : x.isInternal = true) : Holding cv id sv' := by
  have hlink : linkStep (calling cv) x (sv.link id) = some (sv'.link id) := by
    rcases service_step hserved.filed he hs with ⟨y, hy, hlink⟩ | ⟨hnone, -⟩
    · obtain rfl : x = y := Option.some.inj (hx.symm.trans hy)
      exact hlink
    · exact absurd (hx.symm.trans hnone) (by simp)
  have hactive : ∀ side, ((sv'.link id).ends side).Active :=
    fun side => (upheld_step hserved.linked hup hlink hsteady side).active
  have hattached := attached_link hlink hsteady hinternal
  have hsockets : ∀ side, ((sv'.link id).ends side).ws.socketOpen = true :=
    fun side => (hattached side).2.trans (hholding.sockets side)
  have hclient : sv'.client.session.registered = true :=
    (hattached .client).1.trans hholding.registered
  have hkept : ((sv'.link id).ends .server).registered = true :=
    (hattached .server).1.trans hregistered
  obtain ⟨-, ⟨y, nm, rfl, hserver, rfl⟩ | ⟨y, c, rfl, hstep, rfl⟩⟩ := serviceStep_cases hs
  · obtain ⟨z, hz, rfl⟩ := Option.map_eq_some_iff.mp hx
    obtain ⟨s, s', hsome, hs', hid, hreg⟩ := object_serverStep hserved.filed hserver he.1 hz
    have hself := sv.server.registry.settle_self (s := s') fun _ => hid ▸ hholding.inMap
    rw [hid, ← hreg] at hself
    refine ⟨?_, hactive, hsockets, hclient, ?_, ?_⟩
    · rw [Service.read_client]
      exact hholding.ticking
    · rw [Service.read_server]
      simp only [Service.link, Service.read_server, hself.1, Option.getD_some] at hkept
      exact hself.2.mpr hkept
    · rw [Service.read_server]
      intro i hi b hb
      have hother := (sv.server.registry.settle_other (s := s') (hid ▸ hi)).1
      rw [← hreg] at hother
      refine hholding.returns i hi b ?_
      rw [NetworkManager.received, ← hother]
      exact hb
  · refine ⟨?_, hactive, hsockets, hclient, ?_, ?_⟩
    · rw [Service.read_client]
      rcases ticking_clientStep hstep with ⟨-, -, hticking⟩ | ⟨-, hiff⟩
      · exact hticking
      · exact hiff.mpr hholding.ticking
    · rw [Service.read_server]
      exact hholding.inMap
    · rw [Service.read_server]
      exact hholding.returns

private theorem step_enabled {x : LinkEvent} (hx : e.linkEvent csvContents id = some x)
    (hdelivers : (sv.link id).delivers x.side x.event = true)
    (hprogram : programStep cv csvContents e sv = some sv') :
    serviceStep cv csvContents id e sv = some (sv'.read (some x)) := by
  have hall : (Option.all (fun x => (sv.link id).delivers x.side x.event) (some x)) = true := hdelivers
  rw [serviceStep, hx, if_pos hall, hprogram]
  rfl

private theorem client_enabled {event : SessionEvent ServerCallback} {s : WsSession ServerCallback}
    (hticking : sv.client.phase = .ticking) (hinternal : event.isInternal = true)
    (hsession : sessionStep operationCallbacks (calling cv .client) event sv.client.session = some s) :
    programStep cv csvContents (.client (.session event)) sv =
      some { sv with client := { sv.client with session := s } } := by
  have hallows : sv.client.Allows event = true := by
    cases event with
    | received ec data => rfl
    | written ec dp => rfl
    | callback b => exact decide_eq_true hticking
    | _ => cases hinternal
  rw [programStep, clientStep, if_pos hallows, hsession]
  rfl

private theorem server_enabled {e : ServerEvent ServerCallback} {nm : NetworkManager ServerCallback}
    (hserver : serverStep operationCallbacks (calling cv .server) e sv.server = some nm) :
    programStep cv csvContents (.server e) sv = some { sv with server := nm } := by
  rw [programStep, hserver]
  rfl

private theorem service_enabled (csvContents : Bytes) {x : LinkEvent} {d : Duplex}
    (hholding : Holding cv id sv)
    (hpresent : Present sv.server) (hlink : linkStep (calling cv) x (sv.link id) = some d)
    (hinternal : x.isInternal = true)
    (hturn : x.side = .server → x.event.isCallback = true → sv.server.todo.head? = some id) :
    ∃ e sv', e.linkEvent csvContents id = some x ∧ e.Permitted id ∧
      serviceStep cv csvContents id e sv = some sv' := by
  obtain ⟨hdelivers, hlink⟩ := Option.ite_none_right_eq_some.mp hlink
  obtain ⟨s, hsession, -⟩ := Option.map_eq_some_iff.mp hlink
  obtain ⟨side, event⟩ := x
  cases side with
  | client =>
    have hprogram : programStep cv csvContents (.client (.session event)) sv = _ :=
      client_enabled hholding.ticking hinternal hsession
    exact ⟨.client (.session event), _, rfl, trivial, step_enabled rfl hdelivers hprogram⟩
  | server =>
    obtain ⟨t, hsome⟩ := Option.ne_none_iff_exists'.mp (hpresent.1 id hholding.inMap)
    have hend : (sv.link id).ends .server = t := by simp only [Service.link, hsome, Option.getD_some]
    have hregistry : registryStep operationCallbacks (calling cv .server) (.session id event)
        sv.server.registry = some (sv.server.registry.settle s) := by
      simp only [registryStep, hsome]
      rw [← hend]
      exact congrArg (Option.map _) hsession
    by_cases hcallback : event.isCallback = true
    · cases event with
      | callback b =>
        have hx : (ServiceEvent.server (.callback id b)).linkEvent csvContents id =
            some ⟨.server, .callback b⟩ := by
          simp [ServiceEvent.linkEvent, ServerEvent.eventOf]
        have hserver : serverStep operationCallbacks (calling cv .server) (.callback id b) sv.server =
            some { sv.server with registry := sv.server.registry.settle s } := by
          rw [serverStep, if_pos (hturn rfl hcallback), hregistry]
          rfl
        exact ⟨.server (.callback id b), _, hx, ⟨trivial, by simp⟩,
          step_enabled hx hdelivers (server_enabled hserver)⟩
      | _ => cases hcallback
    · have hx : (ServiceEvent.server (.session id event)).linkEvent csvContents id =
          some ⟨.server, event⟩ := by
        simp [ServiceEvent.linkEvent, ServerEvent.eventOf]
      have hserver : serverStep operationCallbacks (calling cv .server) (.session id event) sv.server =
          some { sv.server with registry := sv.server.registry.settle s } := by
        rw [serverStep, if_neg hcallback, hregistry]
        rfl
      have hperm : (ServiceEvent.server (.session id event)).Permitted id := by
        cases event with
        | received ec data => exact ⟨not_false, by simp⟩
        | written ec dp => exact ⟨not_false, by simp⟩
        | callback b => exact ⟨not_false, by simp⟩
        | _ => cases hinternal
      exact ⟨.server (.session id event), _, hx, hperm,
        step_enabled hx hdelivers (server_enabled hserver)⟩

private theorem steady_enabled {x : LinkEvent} {d d' : Duplex}
    (hlink : linkStep (calling cv) x d = some d')
    (hinternal : x.isInternal = true) :
    ∃ y d'', y.event.Steady ∧ y.isInternal = true ∧ linkStep (calling cv) y d = some d'' := by
  obtain ⟨side, event⟩ := x
  cases event with
  | received ec data =>
    cases ec with
    | none => exact ⟨⟨side, .received none data⟩, d', rfl, rfl, hlink⟩
    | some ec => cases hinternal
  | written ec dp =>
    obtain ⟨-, s, hsession, -⟩ := link_step hlink
    obtain ⟨hdp, -⟩ := step_written hsession
    have hs : sessionStep operationCallbacks (calling cv side) (.written none dp) (d.ends side) =
        some (((d.ends side).writeDone dp).onWrite none) := if_pos hdp
    obtain ⟨d'', hd⟩ := Option.ne_none_iff_exists'.mp
      (link_enabled (e := ⟨side, .written none dp⟩) hs rfl)
    exact ⟨⟨side, .written none dp⟩, d'', rfl, rfl, hd⟩
  | callback b => exact ⟨⟨side, .callback b⟩, d', trivial, rfl, hlink⟩
  | _ => cases hinternal

private theorem answer_returns {b : Bound ServerCallback} (hroute : route b.message = some b)
    (hanswer : b.message.headD 0 = 50) (side : Side) : ∃ calls, calling cv side b = .ok calls := by
  obtain ⟨-, hregistered⟩ := route_eq_some hroute
  rw [hanswer] at hregistered
  have hcallback : .csvAnswer = b.callback := Option.some.inj hregistered
  have hlong := b.long
  refine ⟨[], ?_⟩
  rw [calling, Bound.call, ← hcallback]
  simp only [csvAnswerCallback, substr]
  rw [if_neg (by omega)]
  rfl

private theorem queued_returns (hserved : Served cv csvContents id h sv)
    (hreturns : ∀ b, route (49 :: cStr csvContents) = some b → ∃ calls, calling cv .server b = .ok calls)
    (side : Side) (b : Bound ServerCallback)
    (hb : b ∈ ((sv.link id).ends side).receivedMessagesQueue.callbacksQueue) :
    ∃ calls, calling cv side b = .ok calls := by
  obtain ⟨hmem, -, hroute⟩ := Linked.mem_accepted hserved.linked (List.mem_append_right _ hb)
  cases side with
  | client => exact answer_returns hroute (hserved.typed.server _ hmem) .client
  | server =>
    have hrequest : b.message ∈ requests (linkHistory csvContents id h) := by
      rw [← accepted_client hserved.linked hserved.replied hserved.typed]
      exact hmem
    rw [hserved.requests, askedIn] at hrequest
    split at hrequest
    · have htext : b.message = 49 :: cStr csvContents := by
        rw [← text_clientRequest]
        simpa using (List.mem_filter.mp hrequest).1
      exact hreturns b (htext ▸ hroute)
    · cases hrequest

private theorem turn_reached (csvContents : Bytes) (hholding : Holding cv id sv)
    (hfiled : Filed sv.server.registry) (hpresent : Present sv.server) (hnodup : sv.server.todo.Nodup) :
    ∃ k sv₁, (serviceMachine cv csvContents id).run k sv = some sv₁ ∧ (∀ e ∈ k, e.Permitted id) ∧
      linkHistory csvContents id k = [] ∧ sv₁.link id = sv.link id ∧ Holding cv id sv₁ ∧
      sv₁.server.todo.head? = some id := by
  obtain ⟨k, nm, hk, hother, hhead, hobject, hmap, hreturns⟩ :=
    session_visited operationCallbacks hfiled hpresent hnodup hholding.inMap hholding.returns
  have hlink : ({ sv with server := nm } : Service).link id = sv.link id := by
    simp only [Service.link, hobject]
  refine ⟨k.map .server, { sv with server := nm }, run_server hk fun e he => (hother e he).2, ?_, ?_,
    hlink, ⟨hholding.ticking, hlink ▸ hholding.active, hlink ▸ hholding.sockets,
      hholding.registered, hmap, hreturns⟩, hhead⟩
  · intro e he
    obtain ⟨y, hy, rfl⟩ := List.mem_map.mp he
    refine ⟨(hother y hy).1, ?_⟩
    rintro call rfl
    simpa [ServerEvent.eventOf] using (hother _ hy).2
  · rw [linkHistory, List.filterMap_map, List.filterMap_eq_nil_iff]
    intro y hy
    simp only [Function.comp_apply, ServiceEvent.linkEvent, (hother y hy).2, Option.map_none]

/-- A run of the service after which the connection holds. -/
structure Kept (cv : Side → Conversions δ) (csvContents id : Bytes) (b : Bool) (clientId : Bytes)
    (h : List ServiceEvent) (sv : Service) : Prop where
  run : (serviceMachine cv csvContents id).run h (.initial b clientId) = some sv
  permitted : ∀ e ∈ h, e.Permitted id
  whole : ∀ x ∈ linkHistory csvContents id h, x.event.Whole
  holding : Holding cv id sv

variable {b : Bool} {clientId : Bytes}

namespace Kept

private theorem served (hkept : Kept cv csvContents id b clientId h sv) :
    Served cv csvContents id h sv :=
  served_of_run hkept.run hkept.permitted hkept.whole

private theorem upheld (hkept : Kept cv csvContents id b clientId h sv) (side : Side) :
    Upheld (linkHistory csvContents id h) (sv.link id) side :=
  ⟨hkept.holding.active side, written_of_run hkept.run hkept.permitted side⟩

private theorem requests_eq (hkept : Kept cv csvContents id b clientId h sv) :
    requests (linkHistory csvContents id h) = acceptedTexts [.shared (clientRequest csvContents)] := by
  rw [hkept.served.requests, askedIn, if_pos hkept.holding.ticking]

private theorem registered (hkept : Kept cv csvContents id b clientId h sv) :
    ((sv.link id).ends .server).registered = true := by
  obtain ⟨k, -, -, htracks⟩ :=
    tracks_server (server_run hkept.run) (permitted_server hkept.permitted) id
  cases htracks with
  | absent _ hout _ => exact absurd hkept.holding.inMap hout
  | present s now hsome _ hiff _ _ =>
    simp only [Service.link, hsome, Option.getD_some]
    exact hiff.mp hkept.holding.inMap

private theorem append {k : List ServiceEvent} (hkept : Kept cv csvContents id b clientId h sv)
    (hk : (serviceMachine cv csvContents id).run k sv = some sv') (hperm : ∀ e ∈ k, e.Permitted id)
    (hwhole : ∀ x ∈ linkHistory csvContents id k, x.event.Whole) (hholding : Holding cv id sv') :
    Kept cv csvContents id b clientId (h ++ k) sv' := by
  refine ⟨?_, List.forall_mem_append.mpr ⟨hkept.permitted, hperm⟩, ?_, hholding⟩
  · rw [EventMachine.run_append, hkept.run]
    exact hk
  · rw [linkHistory, List.filterMap_append]
    exact List.forall_mem_append.mpr ⟨hkept.whole, hwhole⟩

private theorem not_stuck (hkept : Kept cv csvContents id b clientId h sv)
    (hcontents : cStr csvContents ≠ [])
    (hsmall : (49 :: cStr csvContents).length ≤ readMessageMax)
    (hreturns : ∀ b, route (49 :: cStr csvContents) = some b → ∃ calls, calling cv .server b = .ok calls)
    (huntold : results (linkHistory csvContents id h) ≠ [rowsAnswer (49 :: cStr csvContents)]) :
    ¬Stuck cv (sv.link id) := by
  intro hstuck
  have hserved := hkept.served
  have hsendable : Sendable (49 :: cStr csvContents) :=
    ⟨List.cons_ne_nil _ _, Nat.le_trans hsmall (by decide)⟩
  have hshort : ∀ m ∈ requests (linkHistory csvContents id h),
      m.length ≤ readMessageMax := by
    intro m hm
    rw [hkept.requests_eq] at hm
    have htext : m = 49 :: cStr csvContents := by
      rw [← text_clientRequest]
      simpa using (List.mem_filter.mp hm).1
    rw [htext]
    exact hsmall
  apply huntold
  have hall := results_of_stuck hserved.linked hserved.replied hserved.typed hkept.upheld hserved.asks
    hshort hstuck (queued_returns hserved hreturns)
  rw [hall, hkept.requests_eq, answers_request, if_pos ⟨hsendable, hcontents⟩]

private theorem progress (hkept : Kept cv csvContents id b clientId h sv)
    (hmoves : ¬Stuck cv (sv.link id)) :
    ∃ k sv', (serviceMachine cv csvContents id).run k sv = some sv' ∧
      Kept cv csvContents id b clientId (h ++ k) sv' ∧
      (linkHistory csvContents id (h ++ k)).countP LinkEvent.isInternal =
        (linkHistory csvContents id h).countP LinkEvent.isInternal + 1 := by
  simp only [Stuck, not_forall] at hmoves
  obtain ⟨x, hinternal, hsome⟩ := hmoves
  obtain ⟨d, hlink⟩ := Option.ne_none_iff_exists'.mp hsome
  obtain ⟨y, d', hsteady, hinternal, hlink⟩ := steady_enabled hlink hinternal
  obtain ⟨k, sv₁, hk, hperm, hsilent, hsame, hholding, hhead⟩ := turn_reached csvContents hkept.holding
    hkept.served.filed (present_server (server_run hkept.run)) (nodup_server (server_run hkept.run))
  have hkept₁ := hkept.append hk hperm (by simp [hsilent]) hholding
  obtain ⟨e, sv', hy, he, hs⟩ := service_enabled csvContents hholding
    (present_server (server_run hkept₁.run)) (hsame ▸ hlink) hinternal fun _ _ => hhead
  have hone : linkHistory csvContents id [e] = [y] := by
    rw [linkHistory, List.filterMap_cons_some hy]
    rfl
  have hkept' := hkept₁.append (EventMachine.run_singleton hs) (by simpa using he)
    (by simpa [hone] using hsteady.whole) (holding_step hkept₁.served hkept₁.upheld hkept₁.registered
      hholding hs he hy hsteady hinternal)
  rw [List.append_assoc] at hkept'
  refine ⟨k ++ [e], sv', ?_, hkept', ?_⟩
  · rw [EventMachine.run_append, hk]
    exact EventMachine.run_singleton hs
  · have hhistory : linkHistory csvContents id (h ++ (k ++ [e])) = linkHistory csvContents id h ++ [y] := by
      rw [← hone, ← List.nil_append (linkHistory csvContents id [e]), ← hsilent]
      simp only [linkHistory, List.filterMap_append]
    rw [hhistory, List.countP_append, List.countP_singleton, if_pos hinternal]

private theorem internal_le_six (hkept : Kept cv csvContents id b clientId h sv) :
    (linkHistory csvContents id h).countP LinkEvent.isInternal ≤ 6 := by
  have hserved := hkept.served
  have hle := internal_le hserved.linked hserved.replied hserved.typed hkept.upheld hserved.asks
  have hone : (requests (linkHistory csvContents id h)).length ≤ 1 := by
    rw [hkept.requests_eq]
    exact List.length_filter_le _ _
  omega

end Kept

/-- From every state of the service in which the connection of the client holds, however
busy the server is with other peers, some steps that keep the connection lead to the client
being told the number of rows of its file, if its message is small enough to be read and the
callbacks return. -/
theorem client_can_be_told
    (hr : (serviceMachine cv csvContents id).run h (.initial b clientId) = some sv)
    (hperm : ∀ e ∈ h, e.Permitted id) (hwhole : ∀ x ∈ linkHistory csvContents id h, x.event.Whole)
    (hholding : Holding cv id sv) (hcontents : cStr csvContents ≠ [])
    (hsmall : (49 :: cStr csvContents).length ≤ readMessageMax)
    (hreturns : ∀ b, route (49 :: cStr csvContents) = some b →
      ∃ calls, calling cv .server b = .ok calls) :
    ∃ k sv', (serviceMachine cv csvContents id).run k sv = some sv' ∧ (∀ e ∈ k, e.Permitted id) ∧
      Holding cv id sv' ∧
      results (linkHistory csvContents id (h ++ k)) = [rowsAnswer (49 :: cStr csvContents)] := by
  have hkept : Kept cv csvContents id b clientId h sv := ⟨hr, hperm, hwhole, hholding⟩
  have hprogress : ∀ h u, Kept cv csvContents id b clientId h u →
      ¬results (linkHistory csvContents id h) = [rowsAnswer (49 :: cStr csvContents)] →
      ∃ k v, (serviceMachine cv csvContents id).run k u = some v ∧
        Kept cv csvContents id b clientId (h ++ k) v ∧
        6 - (linkHistory csvContents id (h ++ k)).countP LinkEvent.isInternal <
          6 - (linkHistory csvContents id h).countP LinkEvent.isInternal := by
    intro h u hu huntold
    obtain ⟨k, v, hk, hv, hcount⟩ := hu.progress (hu.not_stuck hcontents hsmall hreturns huntold)
    have hle := hv.internal_le_six
    exact ⟨k, v, hk, hv, by omega⟩
  obtain ⟨k, sv', hk, hkept', htold⟩ := EventMachine.exists_run_of_rank
    (G := fun h _ => results (linkHistory csvContents id h) = [rowsAnswer (49 :: cStr csvContents)])
    (fun h _ => 6 - (linkHistory csvContents id h).countP LinkEvent.isInternal) hprogress hkept
  exact ⟨k, sv', hk, fun e he => hkept'.permitted e (List.mem_append_right _ he), hkept'.holding, htold⟩

end
/-- The server has just begun a tick with another peer's ping before it as the client's
request is on its way. -/
def busyService : List ServiceEvent := askedService.take 19 ++ [.server (.tick [[2], [1]])]

private theorem busy_run : ∃ sv,
    (serviceMachine (fun _ => wholeConversions) datedContents [1]).run busyService
      (.initial true [9]) = some sv ∧
    sv.client.phase = .ticking ∧ [1] ∈ sv.server.registry.sessions ∧
    sv.server.wsListener.added = [[1], [2]] ∧ sv.server.received [2] = [strangersPing] ∧
    (∀ side, ((sv.link [1]).ends side).ws.isOpen = true ∧ ((sv.link [1]).ends side).Reading ∧
      ((sv.link [1]).ends side).receivedMessagesQueue.quit = false) ∧
    (∀ side, ((sv.link [1]).ends side).ws.socketOpen = true) ∧ sv.client.session.registered = true ∧
    ((sv.link [1]).ends .client).ws.writes = [49 :: datedContents] ∧
    ((sv.link [1]).ends .server).isSendBusy = false ∧ ((sv.link [1]).ends .server).sendQueue = [] := by
  refine ⟨_, rfl, rfl, by decide, rfl, rfl, ?_, ?_, rfl, rfl, rfl, rfl⟩
  · intro side
    cases side with
    | client => exact ⟨rfl, ⟨rfl, rfl, rfl⟩, rfl⟩
    | server => exact ⟨rfl, ⟨rfl, rfl, rfl⟩, rfl⟩
  · intro side
    cases side <;> rfl

theorem client_can_be_told_busy : ∃ sv k sv',
    (serviceMachine (fun _ => wholeConversions) datedContents [1]).run busyService
      (.initial true [9]) = some sv ∧
    (serviceMachine (fun _ => wholeConversions) datedContents [1]).run k sv = some sv' ∧
    Holding (fun _ => wholeConversions) [1] sv' ∧
    results (linkHistory datedContents [1] (busyService ++ k)) =
      [rowsAnswer (49 :: cStr datedContents)] := by
  obtain ⟨sv, hr, hticking, hmap, hadded, hqueued, hends, hsockets, hclient, hwrites, hbusy, hqueue⟩ :=
    busy_run
  have hperm : ∀ e ∈ busyService, e.Permitted [1] := by
    simp [busyService, askedService, ServiceEvent.Permitted, ServerEvent.Permitted, SessionEvent.Starts]
  have hhistory : linkHistory datedContents [1] busyService =
      [⟨.server, .opened⟩, ⟨.server, .accepted none⟩, ⟨.client, .opened⟩, ⟨.client, .runAsClient 1000000⟩,
        ⟨.client, .send (.shared (clientRequest datedContents))⟩] := rfl
  have hwhole : ∀ x ∈ linkHistory datedContents [1] busyService, x.event.Whole := by
    rw [hhistory]
    simp [SessionEvent.Whole]
  have hactive : ∀ side, ((sv.link [1]).ends side).Active := by
    intro side
    obtain ⟨hopen, hreading, halive⟩ := hends side
    cases side with
    | client =>
      have hwriting : ((sv.link [1]).ends .client).ws.writes ≠ [] := by simp [hwrites]
      exact ⟨hopen, hreading, halive, ⟨fun _ => hwriting, fun _ => hopen⟩, fun _ _ => hwriting⟩
    | server =>
      have hidle : ((sv.link [1]).ends .server).isSendBusy ≠ true := by simp [hbusy]
      exact ⟨hopen, hreading, halive, ⟨fun hb => absurd hb hidle, fun hb => absurd hb hidle⟩,
        fun _ hq => absurd hqueue hq⟩
  have hreturns : ∀ i ≠ [1], ∀ b ∈ sv.server.received i,
      ∃ calls, calling (fun _ => wholeConversions) .server b = .ok calls := by
    intro i hi b hb
    have hexists : sv.server.registry.objects i ≠ none := by
      intro hnone
      simp [NetworkManager.received, hnone] at hb
    have hlisted := (listed_server (server_run hr) (permitted_server hperm) i).mp hexists
    obtain rfl : i = [2] := by simpa [hadded, hi] using hlisted
    obtain rfl : b = strangersPing := by simpa [hqueued] using hb
    exact ⟨[.shared [48, 72]], rfl⟩
  have hrequest : ∀ b, route (49 :: cStr datedContents) = some b →
      ∃ calls, calling (fun _ => wholeConversions) .server b = .ok calls := by
    intro b hroute
    obtain rfl : askedTable = b := Option.some.inj hroute
    exact ⟨[.str [50, 49]], rfl⟩
  obtain ⟨k, sv', hk, -, hholding, htold⟩ := client_can_be_told hr hperm hwhole
    ⟨hticking, hactive, hsockets, hclient, hmap, hreturns⟩ (by decide) (by decide) hrequest
  exact ⟨sv, k, sv', hr, hk, hholding, htold⟩

end Boostander.Net
