import Boostander.Library.Rounds
import Boostander.Net.Inbox
import Boostander.Net.ListenerShutdown
import Boostander.Net.Registry

/-! The running server, `net/NetworkManager.cpp`: the listener and the handlers of the
sessions on the threads of the `io_context`, and the tick on the main thread. The tick
works on a copy of the map of sessions, and the other threads go on meanwhile. -/
namespace Boostander.Net
open Algo Library

/-- The server. `todo` are the sessions of the copy that the tick has still to visit;
it is with the first of them, and between two ticks there are none. -/
structure NetworkManager (γ : Type*) where
  wsListener : WsListener := {}
  registry : Registry γ := {}
  todo : List Bytes := []

/-- What can happen. A session that the listener adds is started at `now`. -/
inductive ServerEvent (γ : Type*) where
  | listener (e : ListenerEvent) (now : Nat)
  | session (id : Bytes) (e : SessionEvent γ)
  /-- `handleIncomingMessages` copies the map; `order` is the iteration order of the copy. -/
  | tick (order : List Bytes)
  /-- `DispatchQueued` of the session that is visited takes a callback and runs it. -/
  | callback (id : Bytes) (b : Bound γ)
  /-- `DispatchQueued` finds the queue empty, and the tick goes on to the next session. -/
  | next

namespace NetworkManager
variable {γ : Type*}

/-- The messages received for a session and not yet handled. -/
def received (nm : NetworkManager γ) (id : Bytes) : List (Bound γ) :=
  match nm.registry.objects id with
  | some s => s.receivedMessagesQueue.callbacksQueue
  | none => []

/-- The server on an acceptor that is open or not, before `WsListener::run`. -/
def initial (acceptorOpen : Bool) : NetworkManager γ := { wsListener := { acceptorOpen := acceptorOpen } }

end NetworkManager

section
variable {γ : Type*}

namespace ServerEvent

/-- `main` of the server makes no client sessions, and only the listener starts sessions. -/
def Permitted : ServerEvent γ → Prop
  | .listener (.addClientSession _) _ => False
  | .session _ e => ¬e.Starts
  | _ => True

def eventOf (id : Bytes) : ServerEvent γ → Option (SessionEvent γ)
  | .session i e => if i = id then some e else none
  | .callback i b => if i = id then some (.callback b) else none
  | _ => none

def ranOf (id : Bytes) : ServerEvent γ → Option (Bound γ)
  | .callback i b => if i = id then some b else none
  | _ => none

end ServerEvent

/-- What happens to one session of a server. -/
def historyOf (id : Bytes) (h : List (ServerEvent γ)) : List (SessionEvent γ) :=
  h.filterMap (ServerEvent.eventOf id)

/-- The callbacks of a session that ran along a history. -/
def ranFor (id : Bytes) (h : List (ServerEvent γ)) : List (Bound γ) :=
  h.filterMap (ServerEvent.ranOf id)

/-- A history of the registry that stands for a history of the server. -/
structure Projects (h : List (ServerEvent γ)) (k : List (RegistryEvent γ)) : Prop where
  permitted : ∀ e ∈ k, e.Permitted
  sessions : ∀ id, sessionHistory id k = h.filterMap (ServerEvent.eventOf id)

private theorem Projects.nil : Projects ([] : List (ServerEvent γ)) [] := ⟨by simp, fun _ => rfl⟩

private theorem Projects.append {h h' : List (ServerEvent γ)} {k k' : List (RegistryEvent γ)}
    (hp : Projects h k) (hp' : Projects h' k') : Projects (h ++ h') (k ++ k') := by
  refine ⟨List.forall_mem_append.mpr ⟨hp.permitted, hp'.permitted⟩, ?_⟩
  intro id
  rw [List.filterMap_append, ← hp.sessions, ← hp'.sessions]
  exact List.filterMap_append

private theorem projects_one {e : ServerEvent γ} {x : RegistryEvent γ} (hx : x.Permitted)
    (hsame : ∀ id, x.eventOf id = e.eventOf id) : Projects [e] [x] := by
  refine ⟨by simpa using hx, ?_⟩
  intro id
  simp [sessionHistory, List.filterMap_cons, hsame id]

private theorem projects_none {e : ServerEvent γ} (he : ∀ id, e.eventOf id = none) :
    Projects [e] [] := by
  refine ⟨by simp, ?_⟩
  intro id
  simp [sessionHistory, he id]

end

section
variable {γ : Type*} [DecidableEq γ] (callbacks : WSInputCallbacks γ)
  (exec : Bound γ → Except Fault (List SendCall))

/-- Start the sessions that the listener has added. -/
def startSessions (now : Nat) (ids : List Bytes) (r : Registry γ) : Option (Registry γ) :=
  ids.foldlM (fun r id => registryStep callbacks exec (.accepted id now) r) r

def serverStep : ServerEvent γ → NetworkManager γ → Option (NetworkManager γ)
  | .listener e now, nm =>
    (listenerStep e nm.wsListener).bind fun l =>
      (startSessions callbacks exec now (l.added.drop nm.wsListener.added.length) nm.registry).map
        fun r => { nm with wsListener := l, registry := r }
  | .session id e, nm =>
    if e.isCallback then none
    else (registryStep callbacks exec (.session id e) nm.registry).map fun r => { nm with registry := r }
  | .tick order, nm =>
    if nm.todo = [] ∧ order.Nodup ∧ order.toFinset = nm.registry.sessions then
      some { nm with todo := order }
    else none
  | .callback id b, nm =>
    if nm.todo.head? = some id then
      (registryStep callbacks exec (.session id (.callback b)) nm.registry).map
        fun r => { nm with registry := r }
    else none
  | .next, nm =>
    match nm.todo with
    | id :: rest => if nm.received id = [] then some { nm with todo := rest } else none
    | [] => none

def serverMachine : EventMachine (NetworkManager γ) (ServerEvent γ) := ⟨serverStep callbacks exec⟩

private theorem added_step {l l' : WsListener} {e : ListenerEvent} (hs : listenerStep e l = some l') :
    l'.added = l.added ∨ ∃ newSessId, l'.added = l.added ++ [newSessId] := by
  cases listenerMove_of_step hs with
  | run =>
    left
    rw [WsListener.run]
    split
    · rfl
    · rw [WsListener.doAccept]
      split <;> rfl
  | completed ec hpos => exact .inl rfl
  | onAccept ec newSessId hmem =>
    rw [WsListener.onAccept]
    split
    · exact .inl rfl
    split
    · left
      rw [WsListener.doAccept]
      split <;> rfl
    · right
      refine ⟨newSessId, ?_⟩
      rw [WsListener.doAccept]
      split <;> rfl
  | addClientSession newSessId =>
    rw [WsListener.addClientSession]
    split
    · exact .inl rfl
    · exact .inr ⟨newSessId, rfl⟩
  | stop => exact .inl rfl
  | stopped hpos => exact .inl rfl

variable {callbacks exec} {nm nm' : NetworkManager γ}

theorem step_listener {e : ListenerEvent} {now : Nat}
    (hs : serverStep callbacks exec (.listener e now) nm = some nm') :
    listenerStep e nm.wsListener = some nm'.wsListener ∧ nm'.todo = nm.todo ∧
      (nm'.wsListener.added = nm.wsListener.added ∧ nm'.registry = nm.registry ∨
        ∃ newSessId, nm'.wsListener.added = nm.wsListener.added ++ [newSessId] ∧
          registryStep callbacks exec (.accepted newSessId now) nm.registry = some nm'.registry) := by
  obtain ⟨l, hl, hs⟩ := Option.bind_eq_some_iff.mp hs
  obtain ⟨r, hr, rfl⟩ := Option.map_eq_some_iff.mp hs
  refine ⟨hl, rfl, ?_⟩
  rcases added_step hl with hsame | ⟨newSessId, hnew⟩
  · rw [hsame, List.drop_length] at hr
    exact .inl ⟨hsame, (Option.some.inj hr).symm⟩
  · rw [hnew, List.drop_left] at hr
    exact .inr ⟨newSessId, hnew, by simpa [startSessions] using hr⟩

theorem step_session {id : Bytes} {e : SessionEvent γ}
    (hs : serverStep callbacks exec (.session id e) nm = some nm') :
    e.isCallback = false ∧ registryStep callbacks exec (.session id e) nm.registry = some nm'.registry ∧
      nm'.wsListener = nm.wsListener ∧ nm'.todo = nm.todo := by
  simp only [serverStep] at hs
  split at hs
  · cases hs
  · rename_i he
    obtain ⟨r, hr, rfl⟩ := Option.map_eq_some_iff.mp hs
    exact ⟨Bool.eq_false_iff.mpr he, hr, rfl, rfl⟩

theorem step_tick {order : List Bytes} (hs : serverStep callbacks exec (.tick order) nm = some nm') :
    (nm.todo = [] ∧ order.Nodup ∧ order.toFinset = nm.registry.sessions) ∧
      nm' = { nm with todo := order } := by
  obtain ⟨hc, hs⟩ := Option.ite_none_right_eq_some.mp hs
  exact ⟨hc, (Option.some.inj hs).symm⟩

theorem step_ran {id : Bytes} {b : Bound γ}
    (hs : serverStep callbacks exec (.callback id b) nm = some nm') :
    nm.todo.head? = some id ∧
      registryStep callbacks exec (.session id (.callback b)) nm.registry = some nm'.registry ∧
      nm'.wsListener = nm.wsListener ∧ nm'.todo = nm.todo := by
  obtain ⟨hhead, hs⟩ := Option.ite_none_right_eq_some.mp hs
  obtain ⟨r, hr, rfl⟩ := Option.map_eq_some_iff.mp hs
  exact ⟨hhead, hr, rfl, rfl⟩

theorem step_next (hs : serverStep callbacks exec .next nm = some nm') :
    ∃ id rest, nm.todo = id :: rest ∧ nm.received id = [] ∧ nm' = { nm with todo := rest } := by
  simp only [serverStep] at hs
  split at hs
  · rename_i id rest htodo
    obtain ⟨hempty, hs⟩ := Option.ite_none_right_eq_some.mp hs
    exact ⟨id, rest, htodo, hempty, (Option.some.inj hs).symm⟩
  · cases hs

/-- Seen from the map of sessions, the listener and the tick are nothing but sessions
that start and callbacks that run. -/
theorem projects_step {e : ServerEvent γ} (hs : serverStep callbacks exec e nm = some nm')
    (he : e.Permitted) :
    ∃ k, (registryMachine callbacks exec).run k nm.registry = some nm'.registry ∧ Projects [e] k := by
  cases e with
  | listener e now =>
    obtain ⟨-, -, ⟨-, hsame⟩ | ⟨newSessId, -, hr⟩⟩ := step_listener hs
    · exact ⟨[], congrArg some hsame.symm, projects_none fun _ => rfl⟩
    · exact ⟨[.accepted newSessId now], EventMachine.run_singleton hr, projects_one trivial fun _ => rfl⟩
  | session id e =>
    obtain ⟨-, hr, -, -⟩ := step_session hs
    exact ⟨[.session id e], EventMachine.run_singleton hr, projects_one he fun _ => rfl⟩
  | tick order =>
    obtain ⟨-, rfl⟩ := step_tick hs
    exact ⟨[], rfl, projects_none fun _ => rfl⟩
  | callback id b =>
    obtain ⟨-, hr, -, -⟩ := step_ran hs
    exact ⟨[.session id (.callback b)], EventMachine.run_singleton hr, projects_one not_false fun _ => rfl⟩
  | next =>
    obtain ⟨id, rest, -, -, rfl⟩ := step_next hs
    exact ⟨[], rfl, projects_none fun _ => rfl⟩

theorem projects_run {h : List (ServerEvent γ)}
    (hr : (serverMachine callbacks exec).run h nm = some nm') (hperm : ∀ e ∈ h, e.Permitted) :
    ∃ k, (registryMachine callbacks exec).run k nm.registry = some nm'.registry ∧ Projects h k := by
  apply (EventMachine.path_of_run hr hperm).invariant fun h nm' => ∃ k,
    (registryMachine callbacks exec).run k nm.registry = some nm'.registry ∧ Projects h k
  · exact ⟨[], rfl, .nil⟩
  · rintro h u v e ⟨k, hk, hp⟩ he hs
    obtain ⟨l, hl, hp'⟩ := projects_step hs he
    refine ⟨k ++ l, ?_, hp.append hp'⟩
    rw [EventMachine.run_append, hk]
    exact hl

/-- In every run of the server each session has its own run, from its start by the
listener to where it is now, with the callbacks the ticks have run among its events. -/
theorem tracks_server {b : Bool} {h : List (ServerEvent γ)}
    (hr : (serverMachine callbacks exec).run h (.initial b) = some nm)
    (hperm : ∀ e ∈ h, e.Permitted) (id : Bytes) :
    ∃ k, (∀ e ∈ k, e.Permitted) ∧ sessionHistory id k = h.filterMap (ServerEvent.eventOf id) ∧
      Tracks callbacks exec id k nm.registry := by
  obtain ⟨k, hk, hp⟩ := projects_run hr hperm
  exact ⟨k, hp.permitted, hp.sessions id, tracks_of_run hk hp.permitted id⟩

end
end Boostander.Net
