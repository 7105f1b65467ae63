import Boostander.Net.ServerTick

/-! From `NetworkManager::run` to `finish`: how the acceptor is set up, and what has to
end before the threads of the `io_context` do. -/
namespace Boostander.Net
open Algo Library

/-- How far the setup of `acceptor_` has come. -/
structure Acceptor where
  isOpen : Bool := false
  reuseAddress : Bool := false
  bound : Bool := false
  listening : Bool := false
  deriving DecidableEq, Repr

/-- `WsListener::configureAcceptor`, with the results of `open`, `set_option`, `bind` and
`listen`. The first failure is logged and ends the setup; what is open stays open. -/
def configureAcceptor (opened setOption bind listen : Option ErrorCode) : Acceptor :=
  if opened.isSome then {}
  else if setOption.isSome then { isOpen := true }
  else if bind.isSome then { isOpen := true, reuseAddress := true }
  else if listen.isSome then { isOpen := true, reuseAddress := true, bound := true }
  else { isOpen := true, reuseAddress := true, bound := true, listening := true }

private theorem listening_iff (opened setOption bind listen : Option ErrorCode) :
    (configureAcceptor opened setOption bind listen).listening = true ↔
      opened = none ∧ setOption = none ∧ bind = none ∧ listen = none := by
  cases opened with
  | some ec => simp [configureAcceptor]
  | none =>
    cases setOption with
    | some ec => simp [configureAcceptor]
    | none =>
      cases bind with
      | some ec => simp [configureAcceptor]
      | none => cases listen <;> simp [configureAcceptor]

private theorem update_ne_none_iff {γ : Type*} {objects : Bytes → Option (WsSession γ)} {i id : Bytes}
    {s : WsSession γ} : Function.update objects i (some s) id ≠ none ↔ id = i ∨ objects id ≠ none := by
  by_cases hi : id = i
  · subst hi
    simp
  · simp [hi]

section
variable {γ : Type*} [DecidableEq γ] {callbacks : WSInputCallbacks γ}
  {exec : Bound γ → Except Fault (List SendCall)} {nm nm' : NetworkManager γ}

/-- The sessions that were ever started are those the listener has added. -/
def Listed (nm : NetworkManager γ) : Prop :=
  ∀ id, nm.registry.objects id ≠ none ↔ id ∈ nm.wsListener.added

private theorem exists_session {i : Bytes} {e : SessionEvent γ} {r r' : Registry γ} (hfiled : Filed r)
    (hs : registryStep callbacks exec (.session i e) r = some r') (he : ¬e.Starts) (id : Bytes) :
    r'.objects id ≠ none ↔ r.objects id ≠ none := by
  obtain ⟨s, s', hsome, hs', rfl⟩ := registry_session hs
  have hid : s'.id = i := (identity_step hs' he).1.trans (hfiled i s hsome).1
  rw [objects_settle, hid, update_ne_none_iff]
  constructor
  · rintro (rfl | hne)
    · simp [hsome]
    · exact hne
  · exact .inr

private theorem listed_step {e : ServerEvent γ} (hfiled : Filed nm.registry) (h : Listed nm)
    (hs : serverStep callbacks exec e nm = some nm') (he : e.Permitted) : Listed nm' := by
  have of_session {i : Bytes} {e : SessionEvent γ} (hlistener : nm'.wsListener = nm.wsListener)
      (hr : registryStep callbacks exec (.session i e) nm.registry = some nm'.registry)
      (he : ¬e.Starts) : Listed nm' := by
    intro id
    rw [exists_session hfiled hr he, hlistener]
    exact h id
  cases e with
  | listener e now =>
    obtain ⟨-, -, ⟨hadded, hreg⟩ | ⟨newSessId, hadded, hr⟩⟩ := step_listener hs
    · exact fun id => hreg ▸ hadded ▸ h id
    · obtain ⟨-, hreg⟩ := registry_accepted hr
      intro id
      rw [hadded, hreg, objects_addSession, update_ne_none_iff, List.mem_append, List.mem_singleton,
        h id]
      exact or_comm
  | session i e =>
    obtain ⟨-, hr, hlistener, -⟩ := step_session hs
    exact of_session hlistener hr he
  | tick order =>
    obtain ⟨-, rfl⟩ := step_tick hs
    exact h
  | callback i b =>
    obtain ⟨-, hr, hlistener, -⟩ := step_ran hs
    exact of_session hlistener hr not_false
  | next =>
    obtain ⟨i, rest, -, -, rfl⟩ := step_next hs
    exact h

theorem listed_server {b : Bool} {h : List (ServerEvent γ)}
    (hr : (serverMachine callbacks exec).run h (.initial b) = some nm)
    (hperm : ∀ e ∈ h, e.Permitted) : Listed nm := by
  have hboth : Filed nm.registry ∧ Listed nm := by
    apply (EventMachine.path_of_run hr hperm).invariant fun _ nm => Filed nm.registry ∧ Listed nm
    · refine ⟨fun id s hs => absurd hs (Option.some_ne_none s).symm, ?_⟩
      intro id
      exact iff_of_false (fun hne => hne rfl) List.not_mem_nil
    · rintro _ u v e ⟨hfiled, hlisted⟩ he hs
      obtain ⟨k, hk, hp⟩ := projects_step hs he
      exact ⟨filed_run hfiled hk hp.permitted, listed_step hfiled hlisted hs he⟩
  exact hboth.2

/-- A client connects, `finish` stops the listener, and the timer closes the session. -/
def finishedHistory : List (ServerEvent ServerCallback) :=
  [.listener .run 0, .listener (.completed none) 0, .listener (.onAccept none [1]) 0,
    .listener .stop 1, .listener .stopped 1, .listener (.completed (some .operationAborted)) 1,
    .listener (.onAccept (some .operationAborted) [2]) 1,
    .session [1] (.timer (some .operationAborted) 1), .session [1] (.expired none),
    .session [1] (.timer none wsPingFrequency), .session [1] (.accepted (some .operationAborted))]

/-- The operations a session has started and whose handlers have not run. -/
def WsSession.outstanding {γ : Type*} (s : WsSession γ) : Nat :=
  s.ws.accepts + s.ws.reads + s.ws.writes.length + s.ws.pings + s.pending

/-- `io_context::run` returns: no operation is outstanding and no handler has to run. The
threads that `finishThreads` joins have then ended. -/
def NetworkManager.IoDone (nm : NetworkManager γ) : Prop :=
  nm.wsListener.inFlight = 0 ∧ nm.wsListener.stops = 0 ∧
    ∀ id s, nm.registry.objects id = some s → s.outstanding = 0

/-- `finish` stops the listener but no session: it returns only when each session that was
ever accepted has been given up by its own timer, and then the map is empty. -/
theorem finish_waits_for_sessions {b : Bool} {h : List (ServerEvent γ)}
    (hr : (serverMachine callbacks exec).run h (.initial b) = some nm)
    (hperm : ∀ e ∈ h, e.Permitted) (hdone : nm.IoDone) :
    nm.registry.sessions = ∅ ∧ ∀ id ∈ nm.wsListener.added, ∃ now,
      Exited callbacks exec ((WsSession.created id).runAsServer now)
        (h.filterMap (ServerEvent.eventOf id)) := by
  have hstarts : ∀ id, ∀ e ∈ h.filterMap (ServerEvent.eventOf id), ¬e.Starts := by
    intro id e he
    obtain ⟨x, hx, hof⟩ := List.mem_filterMap.mp he
    have hxperm := hperm x hx
    cases x with
    | session i e' =>
      simp only [ServerEvent.eventOf, Option.ite_none_right_eq_some, Option.some.injEq] at hof
      exact hof.2 ▸ hxperm
    | callback i b =>
      simp only [ServerEvent.eventOf, Option.ite_none_right_eq_some, Option.some.injEq] at hof
      exact hof.2 ▸ not_false
    | _ => cases hof
  have hover : ∀ id s, nm.registry.objects id = some s → (id ∉ nm.registry.sessions) ∧ ∃ now,
      Exited callbacks exec ((WsSession.created id).runAsServer now)
        (h.filterMap (ServerEvent.eventOf id)) := by
    intro id s hsome
    obtain ⟨k, -, hhistory, ht⟩ := tracks_server hr hperm id
    cases ht with
    | absent hnone => simp [hnone] at hsome
    | present t now hsome' hid hmap _ hrun =>
      obtain rfl : s = t := Option.some.inj (hsome.symm.trans hsome')
      have hpending : s.pending = 0 := by
        have hzero := hdone.2.2 id s hsome
        rw [WsSession.outstanding] at hzero
        omega
      rw [hhistory] at hrun
      rcases armed_or_unwatched (launched_accepted id now) hrun (hstarts id) with
        ⟨-, harmed⟩ | ⟨hexited, hunwatched⟩
      · exact absurd (harmed.pending.symm.trans hpending) (by decide)
      · refine ⟨fun hin => ?_, now, hexited⟩
        exact absurd ((hmap.mp hin).symm.trans hunwatched.registered) (by decide)
  constructor
  · apply Finset.eq_empty_of_forall_notMem
    intro id hid
    obtain ⟨s, hsome⟩ := Option.ne_none_iff_exists'.mp ((present_server hr).1 id hid)
    exact (hover id s hsome).1 hid
  · intro id hid
    obtain ⟨s, hsome⟩ := Option.ne_none_iff_exists'.mp ((listed_server hr hperm id).mpr hid)
    exact (hover id s hsome).2

theorem finish_waits_for_sessions_one : ∃ nm : NetworkManager ServerCallback,
    (serverMachine operationCallbacks (fun _ => .ok [])).run finishedHistory (.initial true) = some nm ∧
    nm.IoDone ∧ [1] ∈ nm.wsListener.added ∧ nm.registry.sessions = ∅ := by
  obtain ⟨nm, hr, hadded, hflight, hstops, hone⟩ : ∃ nm : NetworkManager ServerCallback,
      (serverMachine operationCallbacks (fun _ => .ok [])).run finishedHistory (.initial true) =
        some nm ∧ nm.wsListener.added = [[1]] ∧ nm.wsListener.inFlight = 0 ∧
      nm.wsListener.stops = 0 ∧ (nm.registry.objects [1]).map WsSession.outstanding = some 0 :=
    ⟨_, rfl, rfl, rfl, rfl, rfl⟩
  have hperm : ∀ e ∈ finishedHistory, e.Permitted := by
    simp [finishedHistory, ServerEvent.Permitted, SessionEvent.Starts]
  have hdone : nm.IoDone := by
    refine ⟨hflight, hstops, ?_⟩
    intro id s hsome
    have hid : id ∈ nm.wsListener.added := (listed_server hr hperm id).mp (by simp [hsome])
    obtain rfl : id = [1] := by simpa [hadded] using hid
    simpa [hsome] using hone
  exact ⟨nm, hr, hdone, by simp [hadded], (finish_waits_for_sessions hr hperm hdone).1⟩

/-- The accepts of this history, of which none succeeds unless the acceptor listens. -/
def AcceptsOn (a : Acceptor) (h : List (ServerEvent γ)) : Prop :=
  ∀ now, .listener (.completed none) now ∈ h → a.listening = true

/-- A listener that has never had a connection. -/
def Barren (l : WsListener) : Prop := l.socketOpen = false ∧ l.added = []

private theorem barren_step {l l' : WsListener} {e : ListenerEvent} (h : Barren l)
    (hs : listenerStep e l = some l') (haccept : e ≠ .completed none)
    (hclient : ∀ newSessId, e ≠ .addClientSession newSessId) : Barren l' := by
  have of_doAccept (hl : Barren l) : Barren l.doAccept := by
    rw [WsListener.doAccept]
    split
    · exact hl
    · exact hl
  cases listenerMove_of_step hs with
  | run =>
    rw [WsListener.run]
    split
    · exact h
    · exact of_doAccept h
  | completed ec hpos =>
    refine ⟨?_, h.2⟩
    cases ec with
    | none => exact absurd rfl haccept
    | some ec => rfl
  | onAccept ec newSessId hmem =>
    have hclosed : ((l.handlerDone ec).onAccept ec newSessId) = l.handlerDone ec := by
      simp [WsListener.onAccept, WsListener.handlerDone, h.1]
    rw [hclosed]
    exact h
  | addClientSession newSessId => exact absurd rfl (hclient newSessId)
  | stop => exact h
  | stopped hpos => exact ⟨rfl, h.2⟩

private theorem acceptorOpen_step {l l' : WsListener} {e : ListenerEvent}
    (hs : listenerStep e l = some l') :
    l'.acceptorOpen = true ↔ l.acceptorOpen = true ∧ e ≠ .stopped := by
  have of_flags (hflags : l'.flags = l.flags) (he : e ≠ .stopped) :
      l'.acceptorOpen = true ↔ l.acceptorOpen = true ∧ e ≠ .stopped := by
    rw [(Prod.mk.inj hflags).1]
    simp [he]
  cases listenerMove_of_step hs with
  | run => exact of_flags (WsListener.flags_run l) ListenerEvent.noConfusion
  | completed ec hpos => exact of_flags rfl ListenerEvent.noConfusion
  | onAccept ec newSessId hmem =>
    exact of_flags (WsListener.flags_onAccept (l.handlerDone ec) ec newSessId) ListenerEvent.noConfusion
  | addClientSession newSessId =>
    exact of_flags (WsListener.flags_addClientSession l newSessId) ListenerEvent.noConfusion
  | stop => exact of_flags rfl ListenerEvent.noConfusion
  | stopped hpos => exact iff_of_false Bool.false_ne_true fun h => h.2 rfl

private theorem barren_server {b : Bool} {h : List (ServerEvent γ)}
    (hr : (serverMachine callbacks exec).run h (.initial b) = some nm) (hperm : ∀ e ∈ h, e.Permitted)
    (hfail : ∀ now, .listener (.completed none) now ∉ h) :
    Barren nm.wsListener ∧ (nm.wsListener.acceptorOpen = true ↔
      b = true ∧ ∀ now, .listener .stopped now ∉ h) := by
  have hall : ∀ e ∈ h, e.Permitted ∧ ∀ now, e ≠ .listener (.completed none) now :=
    fun e he => ⟨hperm e he, fun now heq => hfail now (heq ▸ he)⟩
  apply (EventMachine.path_of_run hr hall).invariant fun h nm => Barren nm.wsListener ∧
    (nm.wsListener.acceptorOpen = true ↔ b = true ∧ ∀ now, .listener .stopped now ∉ h)
  · exact ⟨⟨rfl, rfl⟩, by simp [NetworkManager.initial]⟩
  · rintro h u v e ⟨hbarren, hopen⟩ ⟨he, hne⟩ hstep
    have hs : serverStep callbacks exec e u = some v := hstep
    have of_same (hlistener : v.wsListener = u.wsListener) (hother : ∀ now, e ≠ .listener .stopped now) :
        Barren v.wsListener ∧ (v.wsListener.acceptorOpen = true ↔
          b = true ∧ ∀ now, .listener .stopped now ∉ h ++ [e]) := by
      rw [hlistener]
      refine ⟨hbarren, hopen.trans ?_⟩
      simp [List.mem_append, fun now => (hother now).symm]
    cases e with
    | listener e now =>
      obtain ⟨hl, -⟩ := step_listener hs
      refine ⟨barren_step hbarren hl (fun heq => hne now (heq ▸ rfl)) ?_, ?_⟩
      · rintro newSessId rfl
        exact he
      · rw [acceptorOpen_step hl, hopen]
        simp only [List.mem_append, List.mem_singleton, ServerEvent.listener.injEq, not_or, not_and]
        constructor
        · rintro ⟨⟨hb, hall⟩, hstop⟩
          exact ⟨hb, fun now' => ⟨hall now', fun heq => absurd heq.symm hstop⟩⟩
        · rintro ⟨hb, hall⟩
          exact ⟨⟨hb, fun now' => (hall now').1⟩, fun heq => (hall now).2 heq.symm rfl⟩
    | session i e =>
      obtain ⟨-, -, hlistener, -⟩ := step_session hs
      exact of_same hlistener (by simp)
    | tick order =>
      obtain ⟨-, rfl⟩ := step_tick hs
      exact of_same rfl (by simp)
    | callback i b =>
      obtain ⟨-, -, hlistener, -⟩ := step_ran hs
      exact of_same hlistener (by simp)
    | next =>
      obtain ⟨i, rest, -, -, rfl⟩ := step_next hs
      exact of_same rfl (by simp)

/-- When a step of the setup after `open` fails, the server runs on without ever having a
session, and `isAccepting` reports that it accepts until the closure of `stop` has run. -/
theorem failed_setup_never_serves (setOption bind listen : Option ErrorCode)
    (hfail : ¬(setOption = none ∧ bind = none ∧ listen = none)) {h : List (ServerEvent γ)}
    (haccepts : AcceptsOn (configureAcceptor none setOption bind listen) h)
    (hr : (serverMachine callbacks exec).run h
      (.initial (configureAcceptor none setOption bind listen).isOpen) = some nm)
    (hperm : ∀ e ∈ h, e.Permitted) :
    (∀ id, nm.registry.objects id = none) ∧ nm.registry.sessions = ∅ ∧
      (nm.wsListener.isAccepting = true ↔ ∀ now, .listener .stopped now ∉ h) := by
  have hlisten : ¬(configureAcceptor none setOption bind listen).listening = true := by
    rw [listening_iff]
    exact fun hall => hfail hall.2
  have hopen : (configureAcceptor none setOption bind listen).isOpen = true := by
    cases setOption <;> cases bind <;> cases listen <;> rfl
  obtain ⟨hbarren, haccepting⟩ := barren_server hr hperm fun now hmem => hlisten (haccepts now hmem)
  have hnone : ∀ id, nm.registry.objects id = none := by
    intro id
    by_contra hne
    have hin := (listed_server hr hperm id).mp hne
    rw [hbarren.2] at hin
    exact List.not_mem_nil hin
  refine ⟨hnone, ?_, ?_⟩
  · apply Finset.eq_empty_of_forall_notMem
    exact fun id hid => (present_server hr).1 id hid (hnone id)
  · rw [WsListener.isAccepting, haccepting, hopen]
    exact and_iff_right rfl

/-- The port is taken. The accept that `run` starts fails, and nothing follows it. -/
theorem failed_setup_never_serves_bind : ∃ nm : NetworkManager ServerCallback,
    (serverMachine operationCallbacks (fun _ => .ok [])).run
      [.listener .run 0, .listener (.completed (some (.other 22))) 0,
        .listener (.onAccept (some (.other 22)) [1]) 0, .tick []]
      (.initial (configureAcceptor none none (some (.other 98)) none).isOpen) = some nm ∧
    nm.registry.sessions = ∅ ∧ nm.wsListener.isAccepting = true := by
  obtain ⟨nm, hr⟩ : ∃ nm : NetworkManager ServerCallback,
      (serverMachine operationCallbacks (fun _ => .ok [])).run
        [.listener .run 0, .listener (.completed (some (.other 22))) 0,
          .listener (.onAccept (some (.other 22)) [1]) 0, .tick []]
        (.initial (configureAcceptor none none (some (.other 98)) none).isOpen) = some nm := ⟨_, rfl⟩
  obtain ⟨-, hsessions, haccepting⟩ := failed_setup_never_serves none (some (.other 98)) none
    (by simp) (by simp [AcceptsOn]) hr (by simp [ServerEvent.Permitted])
  exact ⟨nm, hr, hsessions, haccepting.mpr (by simp)⟩

end
end Boostander.Net
