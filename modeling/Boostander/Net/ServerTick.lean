import Boostander.Net.Callbacks
import Boostander.Net.NetworkManager

/-! The ticks of a server among the events of its sessions. A tick is a round over the
sessions that were in the map when it began. -/
namespace Boostander.Net
open Algo Library

section
variable {γ : Type*}

/-- The objects are filed under their own identifiers, and their queues are alive. -/
def Filed (r : Registry γ) : Prop :=
  ∀ id s, r.objects id = some s → s.id = id ∧ s.receivedMessagesQueue.quit = false

theorem objects_settle {r : Registry γ} {s : WsSession γ} :
    (r.settle s).objects = Function.update r.objects s.id (some s) := by
  rw [Registry.settle]
  split <;> rfl

theorem objects_addSession (r : Registry γ) (id : Bytes) (now : Nat) :
    (r.addSession ((WsSession.created id).runAsServer now)).objects =
      Function.update r.objects id (some ((WsSession.created id).runAsServer now)) := rfl

private theorem filed_update {r r' : Registry γ} {id : Bytes} {s : WsSession γ} (h : Filed r)
    (hs : s.id = id ∧ s.receivedMessagesQueue.quit = false)
    (hobjects : r'.objects = Function.update r.objects id (some s)) : Filed r' := by
  intro i t ht
  rw [hobjects] at ht
  by_cases hi : i = id
  · subst hi
    rw [Function.update_self] at ht
    exact Option.some.inj ht ▸ hs
  · rw [Function.update_of_ne hi] at ht
    exact h i t ht

/-- The queues of the sessions, and where the tick is. -/
def NetworkManager.rounds (nm : NetworkManager γ) : Rounds Bytes (Bound γ) where
  queue := nm.received
  todo := nm.todo

namespace ServerEvent

def isRead : ServerEvent γ → Bool
  | .session _ e => e.isReceived
  | _ => false

def isVisit : ServerEvent γ → Bool
  | .callback _ _ => true
  | .next => true
  | _ => false

end ServerEvent

/-- A history of rounds that stands for a history of the server. -/
structure Follows (h : List (ServerEvent γ)) (k : List (RoundEvent Bytes (Bound γ))) : Prop where
  taken : ∀ id, Rounds.taken id k = ranFor id h
  arrivals : k.countP Rounds.isArrival ≤ h.countP ServerEvent.isRead
  visits : k.countP Rounds.isVisit = h.countP ServerEvent.isVisit
  begins : ∀ order, .begin order ∈ k → .tick order ∈ h

private theorem Follows.append {h h' : List (ServerEvent γ)}
    {k k' : List (RoundEvent Bytes (Bound γ))}
    (hf : Follows h k) (hf' : Follows h' k') : Follows (h ++ h') (k ++ k') where
  taken id := by
    rw [Rounds.taken, List.filterMap_append, ranFor, List.filterMap_append]
    exact congrArg₂ (· ++ ·) (hf.taken id) (hf'.taken id)
  arrivals := by
    rw [List.countP_append, List.countP_append]
    exact Nat.add_le_add hf.arrivals hf'.arrivals
  visits := by rw [List.countP_append, List.countP_append, hf.visits, hf'.visits]
  begins order hmem := by
    rcases List.mem_append.mp hmem with hmem | hmem
    · exact List.mem_append_left _ (hf.begins order hmem)
    · exact List.mem_append_right _ (hf'.begins order hmem)

private theorem follows_nothing {e : ServerEvent γ} (hran : ∀ id, e.ranOf id = none)
    (hvisit : e.isVisit = false) : Follows [e] [] where
  taken id := by simp [Rounds.taken, ranFor, hran id]
  arrivals := Nat.zero_le _
  visits := by simp [hvisit]
  begins order hmem := absurd hmem List.not_mem_nil

theorem received_settle (nm : NetworkManager γ) {s : WsSession γ} {id : Bytes} (hid : s.id = id) :
    NetworkManager.received { nm with registry := nm.registry.settle s } =
      Function.update nm.received id s.receivedMessagesQueue.callbacksQueue := by
  funext i
  rw [NetworkManager.received, objects_settle, hid]
  by_cases hi : i = id
  · subst hi
    rw [Function.update_self, Function.update_self]
  · rw [Function.update_of_ne hi, Function.update_of_ne hi, NetworkManager.received]

private theorem permitted_append_tick {h k : List (ServerEvent γ)} (order : List Bytes)
    (hperm : ∀ e ∈ h, e.Permitted) (hperm' : ∀ e ∈ k, e.Permitted) :
    ∀ e ∈ h ++ .tick order :: k, e.Permitted :=
  List.forall_mem_append.mpr ⟨hperm, List.forall_mem_cons.mpr ⟨trivial, hperm'⟩⟩

end

section
variable {γ : Type*} [DecidableEq γ] {callbacks : WSInputCallbacks γ}
  {exec : Bound γ → Except Fault (List SendCall)}

theorem registry_session {r r' : Registry γ} {id : Bytes} {e : SessionEvent γ}
    (hs : registryStep callbacks exec (.session id e) r = some r') :
    ∃ s s', r.objects id = some s ∧ sessionStep callbacks exec e s = some s' ∧ r' = r.settle s' := by
  simp only [registryStep] at hs
  split at hs
  · cases hs
  · rename_i s hsome
    obtain ⟨s', hs', rfl⟩ := Option.map_eq_some_iff.mp hs
    exact ⟨s, s', hsome, hs', rfl⟩

theorem registry_accepted {r r' : Registry γ} {id : Bytes} {now : Nat}
    (hs : registryStep callbacks exec (.accepted id now) r = some r') :
    r.objects id = none ∧ r' = r.addSession ((WsSession.created id).runAsServer now) := by
  simp only [registryStep] at hs
  split at hs
  · cases hs
  · rename_i hnone
    exact ⟨by simpa using hnone, (Option.some.inj hs).symm⟩

theorem filed_step {r r' : Registry γ} {e : RegistryEvent γ} (h : Filed r)
    (hs : registryStep callbacks exec e r = some r') (he : e.Permitted) : Filed r' := by
  cases e with
  | accepted id now =>
    obtain ⟨-, rfl⟩ := registry_accepted hs
    exact filed_update h (s := (WsSession.created id).runAsServer now) ⟨rfl, rfl⟩ rfl
  | session id e =>
    obtain ⟨s, s', hsome, hs', rfl⟩ := registry_session hs
    obtain ⟨hid, hlive⟩ := h id s hsome
    have hid' := (identity_step hs' he).1.trans hid
    refine filed_update h ⟨hid', (live_step hs').trans hlive⟩ ?_
    rw [objects_settle, hid']

variable {nm nm' : NetworkManager γ}

private theorem follows_session {id : Bytes} {e : SessionEvent γ} (hfiled : Filed nm.registry)
    (hs : serverStep callbacks exec (.session id e) nm = some nm') (hstart : ¬e.Starts) :
    ∃ k, Rounds.Run nm.rounds k nm'.rounds ∧ Follows [.session id e] k := by
  obtain ⟨he, hr, -, htodo⟩ := step_session hs
  obtain ⟨s, s', hsome, hs', hreg⟩ := registry_session hr
  have hid : s'.id = id := (identity_step hs' hstart).1.trans (hfiled id s hsome).1
  have hqueue : nm.received id = s.receivedMessagesQueue.callbacksQueue := by
    simp only [NetworkManager.received, hsome]
  obtain ⟨-, hqueued⟩ := queued_step hs' he
  have hread : (e.reads s.recievedBuffer).2.bind (bindMessage callbacks) ≠ none →
      e.isReceived = true := by
    intro hne
    by_contra hnot
    rw [SessionEvent.reads_of_not_received _ (Bool.eq_false_iff.mpr hnot)] at hne
    exact hne rfl
  generalize (e.reads s.recievedBuffer).2.bind (bindMessage callbacks) = new at hread hqueued
  have hreceived : nm'.received = Function.update nm.received id (nm.received id ++ new.toList) := by
    have hsettle := received_settle nm (s := s') hid
    rw [← hreg, hqueued, ← hqueue] at hsettle
    exact hsettle
  cases new with
  | none =>
    refine ⟨[], ?_, follows_nothing (fun _ => rfl) rfl⟩
    have hsame : nm'.rounds = nm.rounds := by
      simp [NetworkManager.rounds, hreceived, htodo]
    rw [hsame]
    exact .start
  | some b =>
    have hnext : nm'.rounds = { nm.rounds with
        queue := Function.update nm.rounds.queue id (nm.rounds.queue id ++ [b]) } := by
      simp [NetworkManager.rounds, hreceived, htodo]
    refine ⟨[.arrive id b], ?_, ?_⟩
    · rw [hnext]
      exact Rounds.Run.one (.arrive id b)
    · refine ⟨fun i => rfl, ?_, rfl, ?_⟩
      · simp [Rounds.isArrival, ServerEvent.isRead, hread]
      · intro order hmem
        cases List.mem_singleton.mp hmem

private theorem follows_ran {id : Bytes} {b : Bound γ} (hfiled : Filed nm.registry)
    (hs : serverStep callbacks exec (.callback id b) nm = some nm') :
    ∃ k, Rounds.Run nm.rounds k nm'.rounds ∧ Follows [.callback id b] k := by
  obtain ⟨hhead, hr, -, htodo⟩ := step_ran hs
  obtain ⟨s, s', hsome, hs', hreg⟩ := registry_session hr
  have hid : s'.id = id := (identity_step hs' not_false).1.trans (hfiled id s hsome).1
  obtain ⟨-, htake, -⟩ := DispatchQueue.takeFront_eq_some.mp (queue_callback hs').1
  have hqueue : nm.received id = b :: s'.receivedMessagesQueue.callbacksQueue := by
    simp only [NetworkManager.received, hsome, htake]
  have hreceived : nm'.received =
      Function.update nm.received id s'.receivedMessagesQueue.callbacksQueue := by
    have hsettle := received_settle nm (s := s') hid
    rw [← hreg] at hsettle
    exact hsettle
  obtain ⟨todo, htodo'⟩ : ∃ todo, nm.todo = id :: todo := List.head?_eq_some_iff.mp hhead
  have hnext : nm'.rounds = { nm.rounds with
      queue := Function.update nm.rounds.queue id s'.receivedMessagesQueue.callbacksQueue } := by
    simp [NetworkManager.rounds, hreceived, htodo]
  refine ⟨[.take id b], ?_, fun i => rfl, Nat.le_refl _, rfl, ?_⟩
  · rw [hnext]
    exact Rounds.Run.one (.take htodo' hqueue)
  · intro order hmem
    cases List.mem_singleton.mp hmem

private theorem received_accepted {r : Registry γ} {id : Bytes} {now : Nat}
    (hr : registryStep callbacks exec (.accepted id now) nm.registry = some r) :
    NetworkManager.received { nm with registry := r } = nm.received := by
  obtain ⟨hnone, rfl⟩ := registry_accepted hr
  funext i
  simp only [NetworkManager.received, objects_addSession]
  by_cases hi : i = id
  · subst hi
    rw [Function.update_self, hnone]
    rfl
  · rw [Function.update_of_ne hi]

theorem follows_step {e : ServerEvent γ} (hfiled : Filed nm.registry)
    (hs : serverStep callbacks exec e nm = some nm') (he : e.Permitted) :
    ∃ k, Rounds.Run nm.rounds k nm'.rounds ∧ Follows [e] k := by
  cases e with
  | listener e now =>
    refine ⟨[], ?_, follows_nothing (fun _ => rfl) rfl⟩
    have hsame : nm'.rounds = nm.rounds := by
      obtain ⟨-, htodo, ⟨-, hreg⟩ | ⟨newSessId, -, hr⟩⟩ := step_listener hs
      · have hreceived : nm'.received = nm.received := by
          funext i
          rw [NetworkManager.received, NetworkManager.received, hreg]
        rw [NetworkManager.rounds, NetworkManager.rounds, htodo, hreceived]
      · rw [NetworkManager.rounds, NetworkManager.rounds, htodo, ← received_accepted hr]
        rfl
    rw [hsame]
    exact .start
  | session id e => exact follows_session hfiled hs he
  | tick order =>
    obtain ⟨⟨hidle, -, -⟩, rfl⟩ := step_tick hs
    refine ⟨[.begin order], Rounds.Run.one (.begin order hidle), fun i => rfl, Nat.le_refl _, rfl, ?_⟩
    intro order' hmem
    cases List.mem_singleton.mp hmem
    exact List.mem_singleton_self _
  | callback id b => exact follows_ran hfiled hs
  | next =>
    obtain ⟨id, rest, htodo, hempty, rfl⟩ := step_next hs
    refine ⟨[.next], Rounds.Run.one (.next htodo hempty), fun i => rfl, Nat.le_refl _, rfl, ?_⟩
    intro order hmem
    cases List.mem_singleton.mp hmem

theorem filed_run {k : List (RegistryEvent γ)} {r r' : Registry γ} (h : Filed r)
    (hr : (registryMachine callbacks exec).run k r = some r') (hperm : ∀ e ∈ k, e.Permitted) :
    Filed r' := by
  apply (EventMachine.path_of_run hr hperm).invariant fun _ r => Filed r
  · exact h
  · intro _ u v e hu he hs
    exact filed_step hu hs he

theorem filed_server {b : Bool} {h : List (ServerEvent γ)}
    (hr : (serverMachine callbacks exec).run h (.initial b) = some nm)
    (hperm : ∀ e ∈ h, e.Permitted) : Filed nm.registry := by
  obtain ⟨k, hk, hp⟩ := projects_run hr hperm
  refine filed_run ?_ hk hp.permitted
  intro id s hs
  cases hs

/-- Every run of the server is a run of the rounds. -/
theorem follows_run {h : List (ServerEvent γ)} (hfiled : Filed nm.registry)
    (hr : (serverMachine callbacks exec).run h nm = some nm') (hperm : ∀ e ∈ h, e.Permitted) :
    ∃ k, Rounds.Run nm.rounds k nm'.rounds ∧ Follows h k := by
  have hboth : Filed nm'.registry ∧ ∃ k, Rounds.Run nm.rounds k nm'.rounds ∧ Follows h k := by
    apply (EventMachine.path_of_run hr hperm).invariant fun h nm' =>
      Filed nm'.registry ∧ ∃ k, Rounds.Run nm.rounds k nm'.rounds ∧ Follows h k
    · exact ⟨hfiled, [], .start, fun _ => rfl, Nat.le_refl _, rfl, by simp⟩
    · rintro h u v e ⟨hu, k, hk, hf⟩ he hs
      obtain ⟨l, hl, hf'⟩ := follows_step hu hs he
      obtain ⟨x, hx, hp⟩ := projects_step hs he
      exact ⟨filed_run hu hx hp.permitted, k ++ l, hk.append hl, hf.append hf'⟩
  exact hboth.2

private theorem run_tick {order : List Bytes} {k : List (ServerEvent γ)}
    (hk : (serverMachine callbacks exec).run (.tick order :: k) nm = some nm') :
    (nm.todo = [] ∧ order.Nodup ∧ order.toFinset = nm.registry.sessions) ∧
      (serverMachine callbacks exec).run k { nm with todo := order } = some nm' := by
  obtain ⟨u, hu, hk⟩ := Option.bind_eq_some_iff.mp hk
  have hs : serverStep callbacks exec (.tick order) nm = some u := hu
  obtain ⟨hc, rfl⟩ := step_tick hs
  exact ⟨hc, hk⟩

private theorem run_append_tick {b : Bool} {h k : List (ServerEvent γ)} {order : List Bytes}
    (hr : (serverMachine callbacks exec).run h (.initial b) = some nm)
    (hk : (serverMachine callbacks exec).run (.tick order :: k) nm = some nm') :
    (serverMachine callbacks exec).run (h ++ .tick order :: k) (.initial b) = some nm' := by
  rw [EventMachine.run_append, hr]
  exact hk

/-- One client connects, and a ping of it is received. -/
def connectedHistory : List (ServerEvent ServerCallback) :=
  [.listener .run 0, .listener (.completed none) 0, .listener (.onAccept none [1]) 0,
    .session [1] .opened, .session [1] (.accepted none), .session [1] (.received none [48, 67])]

/-- Another ping arrives during the tick, which runs both. -/
def servedHistory : List (ServerEvent ServerCallback) :=
  [.session [1] (.received none [48, 66]), .callback [1] ⟨.ping, [48, 67], by decide⟩,
    .callback [1] ⟨.ping, [48, 66], by decide⟩, .next]

private theorem served_run : ∃ nm nm' : NetworkManager ServerCallback,
    (serverMachine operationCallbacks (fun _ => .ok [])).run connectedHistory (.initial true) = some nm ∧
    (serverMachine operationCallbacks (fun _ => .ok [])).run (.tick [[1]] :: servedHistory) nm =
      some nm' ∧
    (∀ e ∈ connectedHistory ++ servedHistory, e.Permitted) ∧ (∀ order, .tick order ∉ servedHistory) ∧
    [1] ∈ nm.registry.sessions ∧ nm'.todo = [] := by
  refine ⟨_, _, rfl, rfl, ?_, ?_, Finset.mem_insert_self _ _, rfl⟩
  · simp [connectedHistory, servedHistory, ServerEvent.Permitted, SessionEvent.Starts]
  · simp [servedHistory]

private theorem ranFor_eq {h : List (ServerEvent γ)}
    (hr : (serverMachine callbacks exec).run h nm = some nm') (id : Bytes) :
    ranFor id h = (historyOf id h).filterMap SessionEvent.ranCallback := by
  apply (EventMachine.reaches_of_run hr).invariant fun h _ =>
    ranFor id h = (historyOf id h).filterMap SessionEvent.ranCallback
  · rfl
  · intro h u v e hh _ hs
    rw [ranFor, historyOf, List.filterMap_append, List.filterMap_append, List.filterMap_append]
    refine congrArg₂ (· ++ ·) hh ?_
    cases e with
    | session i e =>
      obtain ⟨he, -⟩ := step_session hs
      by_cases hi : i = id <;> simp [List.filterMap_cons, ServerEvent.ranOf, ServerEvent.eventOf, hi,
        SessionEvent.ranCallback_eq_none he]
    | callback i b => by_cases hi : i = id <;> simp [ServerEvent.ranOf, ServerEvent.eventOf, hi,
        SessionEvent.ranCallback]
    | _ => rfl

private theorem received_server {b : Bool} {h : List (ServerEvent γ)}
    (hr : (serverMachine callbacks exec).run h (.initial b) = some nm)
    (hperm : ∀ e ∈ h, e.Permitted) (id : Bytes) :
    ranFor id h ++ nm.received id =
      (messagesRead [] (historyOf id h)).filterMap (bindMessage callbacks) := by
  rw [ranFor_eq hr id]
  obtain ⟨k, -, hsessions, htracks⟩ := tracks_server hr hperm id
  cases htracks with
  | absent hnone _ hempty =>
    have hhistory : historyOf id h = [] := hsessions.symm.trans hempty
    simp [NetworkManager.received, hnone, hhistory, messagesRead]
  | present s now hsome _ _ _ hrun =>
    rw [hsessions] at hrun
    obtain ⟨-, hqueue⟩ := inbox_run hrun
    simp only [NetworkManager.received, hsome]
    exact hqueue

/-- A tick that has ended has run everything that was received, when it began, for the
sessions in the map, in order and before anything received later, and nothing for the
other sessions. What ran for a session and what waits are what waited and what the
messages that its reads completed meanwhile are bound to, in this order. -/
theorem tick_serves {b : Bool} {h k : List (ServerEvent γ)} {order : List Bytes}
    (hr : (serverMachine callbacks exec).run h (.initial b) = some nm)
    (hk : (serverMachine callbacks exec).run (.tick order :: k) nm = some nm')
    (hperm : ∀ e ∈ h ++ k, e.Permitted) (hround : ∀ order', .tick order' ∉ k)
    (hdone : nm'.todo = []) :
    (∀ id ∈ nm.registry.sessions, nm.received id <+: ranFor id k) ∧
      (∀ id ∉ nm.registry.sessions, ranFor id k = []) ∧
      ∀ id, ranFor id k ++ nm'.received id = nm.received id ++
        (messagesRead (bufferAfter [] (historyOf id h)) (historyOf id k)).filterMap
          (bindMessage callbacks) := by
  obtain ⟨hperm, hperm'⟩ := List.forall_mem_append.mp hperm
  have hrun := run_append_tick hr hk
  have hall := permitted_append_tick order hperm hperm'
  obtain ⟨⟨-, -, horder⟩, hk⟩ := run_tick hk
  have hfiled := filed_server hr hperm
  have hstart : Filed ({ nm with todo := order } : NetworkManager γ).registry := hfiled
  obtain ⟨l, hl, hf⟩ := follows_run hstart hk hperm'
  obtain ⟨hserved, helse⟩ := Rounds.Run.whole_round (s := nm.rounds) hl
    (fun order' hmem => hround order' (hf.begins order' hmem)) hdone
  have hmem : ∀ id, id ∈ order ↔ id ∈ nm.registry.sessions := by
    intro id
    rw [← horder, List.mem_toFinset]
  refine ⟨?_, ?_, ?_⟩
  · intro id hid
    rw [← hf.taken]
    exact hserved id ((hmem id).mpr hid)
  · intro id hid
    rw [← hf.taken]
    exact helse id fun hin => hid ((hmem id).mp hin)
  · intro id
    have hbefore := received_server hr hperm id
    have hafter := received_server hrun hall id
    have hhistory : historyOf id (h ++ .tick order :: k) = historyOf id h ++ historyOf id k := by
      rw [historyOf, List.filterMap_append]
      rfl
    have hran : ranFor id (h ++ .tick order :: k) = ranFor id h ++ ranFor id k := by
      rw [ranFor, List.filterMap_append]
      rfl
    rw [hhistory, hran, messagesRead_append, List.filterMap_append, ← hbefore, List.append_assoc,
      List.append_assoc] at hafter
    exact List.append_cancel_left hafter

theorem tick_serves_two : ∃ nm nm' : NetworkManager ServerCallback,
    (serverMachine operationCallbacks (fun _ => .ok [])).run connectedHistory (.initial true) = some nm ∧
    (serverMachine operationCallbacks (fun _ => .ok [])).run (.tick [[1]] :: servedHistory) nm =
      some nm' ∧
    [1] ∈ nm.registry.sessions ∧ nm.received [1] <+: ranFor [1] servedHistory ∧
    ranFor [1] servedHistory ++ nm'.received [1] =
      nm.received [1] ++ [⟨.ping, [48, 66], by decide⟩] := by
  obtain ⟨nm, nm', hr, hk, hperm, hround, hmem, hdone⟩ := served_run
  obtain ⟨hserved, -, hkept⟩ := tick_serves hr hk hperm hround hdone
  exact ⟨nm, nm', hr, hk, hmem, hserved [1] hmem, hkept [1]⟩

private theorem objects_mono {e : RegistryEvent γ} {r r' : Registry γ}
    (hs : registryStep callbacks exec e r = some r') {id : Bytes} (hid : r.objects id ≠ none) :
    r'.objects id ≠ none := by
  have of_update {i : Bytes} {s : WsSession γ} : Function.update r.objects i (some s) id ≠ none := by
    by_cases hi : id = i
    · subst hi
      simp
    · rw [Function.update_of_ne hi]
      exact hid
  cases e with
  | accepted newSessId now =>
    obtain ⟨-, rfl⟩ := registry_accepted hs
    exact of_update
  | session i e =>
    obtain ⟨s, s', -, -, rfl⟩ := registry_session hs
    rw [objects_settle]
    exact of_update

private theorem sessions_session {i : Bytes} {e : SessionEvent γ} {r r' : Registry γ}
    (hs : registryStep callbacks exec (.session i e) r = some r') : r'.sessions ⊆ r.sessions := by
  obtain ⟨s, s', -, -, rfl⟩ := registry_session hs
  rw [Registry.settle]
  split
  · exact Finset.Subset.refl _
  · exact Finset.erase_subset _ _

/-- A session that exists, that the map does not hold and that the tick will not visit. -/
def Forgotten (nm : NetworkManager γ) (id : Bytes) : Prop :=
  nm.registry.objects id ≠ none ∧ id ∉ nm.registry.sessions ∧ id ∉ nm.todo

private theorem forgotten_step {e : ServerEvent γ} {id : Bytes} (h : Forgotten nm id)
    (hs : serverStep callbacks exec e nm = some nm') : Forgotten nm' id ∧ e.ranOf id = none := by
  obtain ⟨hsome, hout, htodo⟩ := h
  cases e with
  | listener e now =>
    obtain ⟨-, htodo', ⟨-, hreg⟩ | ⟨newSessId, -, hr⟩⟩ := step_listener hs
    · exact ⟨⟨hreg ▸ hsome, hreg ▸ hout, htodo' ▸ htodo⟩, rfl⟩
    · refine ⟨⟨objects_mono hr hsome, ?_, htodo' ▸ htodo⟩, rfl⟩
      obtain ⟨hnone, hreg⟩ := registry_accepted hr
      rw [hreg]
      intro hin
      rcases Finset.mem_insert.mp hin with heq | hin
      · exact hsome (heq ▸ hnone)
      · exact hout hin
  | session i e =>
    obtain ⟨-, hr, -, htodo'⟩ := step_session hs
    exact ⟨⟨objects_mono hr hsome, fun hin => hout (sessions_session hr hin), htodo' ▸ htodo⟩, rfl⟩
  | tick order =>
    obtain ⟨⟨-, -, horder⟩, rfl⟩ := step_tick hs
    refine ⟨⟨hsome, hout, ?_⟩, rfl⟩
    rw [← horder, List.mem_toFinset] at hout
    exact hout
  | callback i b =>
    obtain ⟨hhead, hr, -, htodo'⟩ := step_ran hs
    have hi : i ≠ id := by
      rintro rfl
      exact htodo (List.mem_of_mem_head? hhead)
    exact ⟨⟨objects_mono hr hsome, fun hin => hout (sessions_session hr hin), htodo' ▸ htodo⟩,
      if_neg hi⟩
  | next =>
    obtain ⟨i, rest, hcons, -, rfl⟩ := step_next hs
    rw [hcons] at htodo
    exact ⟨⟨hsome, hout, fun hin => htodo (List.mem_cons_of_mem _ hin)⟩, rfl⟩

/-- Once a session has left the map and the tick is not about to visit it, no message of
it is ever run again: what it still receives stays in its queue. -/
theorem unregistered_never_served {b : Bool} {h k : List (ServerEvent γ)} {id : Bytes}
    (hr : (serverMachine callbacks exec).run h (.initial b) = some nm)
    (hk : (serverMachine callbacks exec).run k nm = some nm')
    (hperm : ∀ e ∈ h ++ k, e.Permitted) (hid : Forgotten nm id) :
    ranFor id k = [] ∧ nm.received id <+: nm'.received id ∧ id ∉ nm'.registry.sessions := by
  obtain ⟨hperm, hperm'⟩ := List.forall_mem_append.mp hperm
  have hall : Forgotten nm' id ∧ ranFor id k = [] := by
    apply (EventMachine.reaches_of_run hk).invariant fun k nm' => Forgotten nm' id ∧ ranFor id k = []
    · exact ⟨hid, rfl⟩
    · rintro k u v e ⟨hu, hran⟩ - hs
      obtain ⟨hv, hnone⟩ := forgotten_step hu hs
      refine ⟨hv, ?_⟩
      rw [ranFor, List.filterMap_append, ← ranFor, hran]
      simp [hnone]
  obtain ⟨hforgotten, hran⟩ := hall
  obtain ⟨l, hl, hf⟩ := follows_run (filed_server hr hperm) hk hperm'
  refine ⟨hran, ?_, hforgotten.2.1⟩
  have hcons : Rounds.taken id l ++ nm'.received id = nm.received id ++ _ := hl.conserves id
  rw [hf.taken, hran, List.nil_append] at hcons
  exact hcons ▸ List.prefix_append _ _

/-- A read fails after it has added a message to the buffer; the session is taken out of
the map and reads on, and the next tick does not visit it. -/
theorem unregistered_never_served_failed : ∃ nm nm' : NetworkManager ServerCallback,
    (serverMachine operationCallbacks (fun _ => .ok [])).run
      (connectedHistory ++ [.session [1] (.received (some (.other 104)) [48, 66])]) (.initial true) =
        some nm ∧
    (serverMachine operationCallbacks (fun _ => .ok [])).run
      [.tick [], .session [1] (.received none [48, 67])] nm = some nm' ∧
    nm'.received [1] ≠ [] ∧ nm.received [1] <+: nm'.received [1] := by
  obtain ⟨nm, nm', hr, hk, hsome, hout, htodo, hne⟩ : ∃ nm nm' : NetworkManager ServerCallback,
      (serverMachine operationCallbacks (fun _ => .ok [])).run
        (connectedHistory ++ [.session [1] (.received (some (.other 104)) [48, 66])]) (.initial true) =
          some nm ∧
      (serverMachine operationCallbacks (fun _ => .ok [])).run
        [.tick [], .session [1] (.received none [48, 67])] nm = some nm' ∧
      nm.registry.objects [1] ≠ none ∧ [1] ∉ nm.registry.sessions ∧ [1] ∉ nm.todo ∧
      nm'.received [1] ≠ [] := by
    refine ⟨_, _, rfl, rfl, Option.some_ne_none _, ?_, List.not_mem_nil, List.cons_ne_nil _ _⟩
    exact Finset.notMem_erase _ _
  have hperm : ∀ e ∈ (connectedHistory ++ [.session [1] (.received (some (.other 104)) [48, 66])]) ++
      [.tick [], .session [1] (.received none [48, 67])], e.Permitted := by
    simp [connectedHistory, ServerEvent.Permitted, SessionEvent.Starts]
  exact ⟨nm, nm', hr, hk, hne, (unregistered_never_served hr hk hperm ⟨hsome, hout, htodo⟩).2.1⟩

/-- The sessions of the map exist, and so do those the tick has still to visit. -/
def Present (nm : NetworkManager γ) : Prop :=
  (∀ id ∈ nm.registry.sessions, nm.registry.objects id ≠ none) ∧
    ∀ id ∈ nm.todo, nm.registry.objects id ≠ none

theorem present_step {e : ServerEvent γ} (h : Present nm)
    (hs : serverStep callbacks exec e nm = some nm') : Present nm' := by
  obtain ⟨hmap, hvisit⟩ := h
  have of_session {i : Bytes} {e : SessionEvent γ} (htodo : nm'.todo = nm.todo)
      (hr : registryStep callbacks exec (.session i e) nm.registry = some nm'.registry) : Present nm' :=
    ⟨fun id hid => objects_mono hr (hmap id (sessions_session hr hid)),
      fun id hid => objects_mono hr (hvisit id (htodo ▸ hid))⟩
  cases e with
  | listener e now =>
    obtain ⟨-, htodo, ⟨-, hreg⟩ | ⟨newSessId, -, hr⟩⟩ := step_listener hs
    · exact ⟨hreg ▸ hmap, fun id hid => hreg ▸ hvisit id (htodo ▸ hid)⟩
    · refine ⟨?_, fun id hid => objects_mono hr (hvisit id (htodo ▸ hid))⟩
      intro id hid
      by_cases hnew : nm.registry.objects id = none
      · obtain ⟨-, hreg⟩ := registry_accepted hr
        rw [hreg] at hid ⊢
        rcases Finset.mem_insert.mp hid with rfl | hin
        · rw [objects_addSession]
          simp
        · exact absurd hnew (hmap id hin)
      · exact objects_mono hr hnew
  | session i e =>
    obtain ⟨-, hr, -, htodo⟩ := step_session hs
    exact of_session htodo hr
  | tick order =>
    obtain ⟨⟨-, -, horder⟩, rfl⟩ := step_tick hs
    refine ⟨hmap, fun id hid => hmap id ?_⟩
    rw [← horder]
    exact List.mem_toFinset.mpr hid
  | callback i b =>
    obtain ⟨-, hr, -, htodo⟩ := step_ran hs
    exact of_session htodo hr
  | next =>
    obtain ⟨i, rest, hcons, -, rfl⟩ := step_next hs
    exact ⟨hmap, fun id hid => hvisit id (hcons ▸ List.mem_cons_of_mem _ hid)⟩

theorem present_server {b : Bool} {h : List (ServerEvent γ)}
    (hr : (serverMachine callbacks exec).run h (.initial b) = some nm) : Present nm := by
  apply (EventMachine.reaches_of_run hr).invariant fun _ nm => Present nm
  · exact ⟨fun id hid => absurd hid (Finset.notMem_empty id), fun id hid => absurd hid List.not_mem_nil⟩
  · intro _ u v e hu _ hs
    exact present_step hu hs

theorem callback_enabled {s : WsSession γ} {b : Bound γ} {l : List (Bound γ)} {calls : List SendCall}
    (hlive : s.receivedMessagesQueue.quit = false)
    (hqueue : s.receivedMessagesQueue.callbacksQueue = b :: l) (hexec : exec b = .ok calls) :
    ∃ s', sessionStep callbacks exec (.callback b) s = some s' := by
  have htake : s.receivedMessagesQueue.takeFront =
      some (b, { s.receivedMessagesQueue with callbacksQueue := l }) :=
    DispatchQueue.takeFront_eq_some.mpr ⟨hlive, hqueue, rfl⟩
  simp only [sessionStep, htake, if_true, WsSession.runCallback, hexec]
  exact ⟨_, rfl⟩

/-- The tick can go on with the session it visits, unless the next callback does not return. -/
theorem visit_enabled {id : Bytes} {rest : List Bytes} (hfiled : Filed nm.registry)
    (hpresent : Present nm) (htodo : nm.todo = id :: rest) :
    (∃ u, serverStep callbacks exec .next nm = some u) ∨
      ∃ b l, nm.received id = b :: l ∧ ((∃ u, serverStep callbacks exec (.callback id b) nm = some u) ∨
        ∃ f, exec b = .error f) := by
  obtain ⟨s, hsome⟩ := Option.ne_none_iff_exists'.mp (hpresent.2 id (htodo ▸ List.mem_cons_self))
  have hlive := (hfiled id s hsome).2
  have hqueue : nm.received id = s.receivedMessagesQueue.callbacksQueue := by
    simp only [NetworkManager.received, hsome]
  cases hreceived : nm.received id with
  | nil =>
    left
    exact ⟨{ nm with todo := rest }, by simp only [serverStep, htodo, hreceived, if_true]⟩
  | cons b l =>
    right
    refine ⟨b, l, rfl, ?_⟩
    rw [hqueue] at hreceived
    cases hexec : exec b with
    | error f => exact .inr ⟨f, rfl⟩
    | ok calls =>
      left
      obtain ⟨s', hstep⟩ : ∃ s', sessionStep callbacks exec (.callback b) s = some s' :=
        callback_enabled hlive hreceived hexec
      refine ⟨{ nm with registry := nm.registry.settle s' }, ?_⟩
      simp only [serverStep, htodo, List.head?_cons, if_true, registryStep, hsome, hstep,
        Option.map_some]

/-- A tick ends after as many steps as it has sessions to visit and messages to run,
those that arrive meanwhile included, and until then it is only held up by a callback
that does not return. -/
theorem tick_progresses {b : Bool} {h k : List (ServerEvent γ)} {order : List Bytes}
    (hr : (serverMachine callbacks exec).run h (.initial b) = some nm)
    (hk : (serverMachine callbacks exec).run (.tick order :: k) nm = some nm')
    (hperm : ∀ e ∈ h ++ k, e.Permitted) (hround : ∀ order', .tick order' ∉ k) :
    k.countP ServerEvent.isVisit ≤
        (order.map fun id => (nm.received id).length + 1).sum + k.countP ServerEvent.isRead ∧
      ∀ id rest, nm'.todo = id :: rest → (∃ u, serverStep callbacks exec .next nm' = some u) ∨
        ∃ b l, nm'.received id = b :: l ∧
          ((∃ u, serverStep callbacks exec (.callback id b) nm' = some u) ∨ ∃ f, exec b = .error f) := by
  obtain ⟨hperm, hperm'⟩ := List.forall_mem_append.mp hperm
  have hrun := run_append_tick hr hk
  have hall := permitted_append_tick order hperm hperm'
  constructor
  · obtain ⟨⟨-, hnodup, -⟩, hk⟩ := run_tick hk
    have hfiled := filed_server hr hperm
    have hstart : Filed ({ nm with todo := order } : NetworkManager γ).registry := hfiled
    obtain ⟨l, hl, hf⟩ := follows_run hstart hk hperm'
    obtain ⟨-, hle⟩ := hl.remaining_le (fun order' hmem => hround order' (hf.begins order' hmem)) hnodup
    have harrivals := hf.arrivals
    rw [hf.visits] at hle
    have hsum : Rounds.remaining (NetworkManager.rounds { nm with todo := order }) =
        (order.map fun id => (nm.received id).length + 1).sum := rfl
    omega
  · intro id rest htodo
    exact visit_enabled (filed_server hrun hall) (present_server hrun) htodo

theorem tick_progresses_two : ∃ nm nm' : NetworkManager ServerCallback,
    (serverMachine operationCallbacks (fun _ => .ok [])).run connectedHistory (.initial true) = some nm ∧
    (serverMachine operationCallbacks (fun _ => .ok [])).run (.tick [[1]] :: servedHistory) nm =
      some nm' ∧
    servedHistory.countP ServerEvent.isVisit ≤
      ([[1]].map fun id => (nm.received id).length + 1).sum + servedHistory.countP ServerEvent.isRead := by
  obtain ⟨nm, nm', hr, hk, hperm, hround, -, -⟩ := served_run
  exact ⟨nm, nm', hr, hk, (tick_progresses hr hk hperm hround).1⟩

end
end Boostander.Net
