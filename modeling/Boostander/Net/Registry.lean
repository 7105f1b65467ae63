import Boostander.Net.DeadPeer

/-! The map of sessions of `net/SessionManagerBase.hpp` while sessions come and go.
A handler keeps its session alive whether or not the map holds it, so the objects
and the keys of the map are kept apart. -/
namespace Boostander.Net
open Algo Library

/-- The session objects by identifier, and the identifiers the map `sessions_` holds. An
object stays here after the program has destroyed it, when nothing happens to it any more. -/
structure Registry (γ : Type*) where
  objects : Bytes → Option (WsSession γ) := fun _ => none
  sessions : Finset Bytes := ∅

namespace Registry
variable {γ : Type*}

/-- The session object has changed; the map shares it. -/
def put (r : Registry γ) (s : WsSession γ) : Registry γ :=
  { r with objects := Function.update r.objects s.id (some s) }

def addSession (r : Registry γ) (s : WsSession γ) : Registry γ :=
  { r.put s with sessions := insert s.id r.sessions }

def unregisterSession (r : Registry γ) (id : Bytes) : Registry γ :=
  { r with sessions := r.sessions.erase id }

/-- A handler has left its session as `s`, having unregistered it or not. -/
def settle (r : Registry γ) (s : WsSession γ) : Registry γ :=
  if s.registered then r.put s else (r.put s).unregisterSession s.id

def sendTo (r : Registry γ) (sessionID message : Bytes) : Registry γ :=
  if sessionID ∈ r.sessions then
    match r.objects sessionID with
    | some s => r.put (s.send message)
    | none => r
  else r

/-- `order` is the order in which the loop comes to the sessions of the map. -/
def sendToAll (r : Registry γ) (order : List Bytes) (message : Bytes) : Registry γ :=
  order.foldl (fun r sessionID => r.sendTo sessionID message) r

theorem settle_self {r : Registry γ} {s : WsSession γ} (h : s.registered = true → s.id ∈ r.sessions) :
    (r.settle s).objects s.id = some s ∧ (s.id ∈ (r.settle s).sessions ↔ s.registered = true) := by
  rw [settle]
  cases hr : s.registered with
  | true => simp [put, h hr]
  | false => simp [put, unregisterSession]

theorem settle_other (r : Registry γ) {s : WsSession γ} {id : Bytes} (hid : id ≠ s.id) :
    (r.settle s).objects id = r.objects id ∧ (id ∈ (r.settle s).sessions ↔ id ∈ r.sessions) := by
  rw [settle]
  cases s.registered with
  | true => simp [put, Function.update_of_ne hid]
  | false => simp [put, unregisterSession, hid]

theorem sessions_sendTo (r : Registry γ) (id message : Bytes) :
    (r.sendTo id message).sessions = r.sessions := by
  rw [sendTo]
  split
  · split <;> rfl
  · rfl

end Registry

/-- `on_accept` of the listener creates a session under a new identifier and
starts it; then its handlers run. -/
inductive RegistryEvent (γ : Type*) where
  | accepted (newSessId : Bytes) (now : Nat)
  | session (id : Bytes) (e : SessionEvent γ)

namespace RegistryEvent
variable {γ : Type*}

/-- Only the listener starts a session. -/
def Permitted : RegistryEvent γ → Prop
  | .accepted _ _ => True
  | .session _ e => ¬e.Starts

def eventOf (id : Bytes) : RegistryEvent γ → Option (SessionEvent γ)
  | .accepted _ _ => none
  | .session i e => if i = id then some e else none

end RegistryEvent

def sessionHistory {γ : Type*} (id : Bytes) (h : List (RegistryEvent γ)) : List (SessionEvent γ) :=
  h.filterMap (RegistryEvent.eventOf id)

private theorem history_concat {γ : Type*} (id : Bytes) (h : List (RegistryEvent γ))
    (e : RegistryEvent γ) :
    sessionHistory id (h ++ [e]) = sessionHistory id h ++ (e.eventOf id).toList := by
  cases he : e.eventOf id <;> simp [sessionHistory, he]

private theorem not_starts_of_permitted {γ : Type*} {h : List (RegistryEvent γ)} {id : Bytes}
    (hperm : ∀ e ∈ h, e.Permitted) :
    ∀ e ∈ sessionHistory id h, ¬e.Starts := by
  intro e he
  obtain ⟨e', he', hof⟩ := List.mem_filterMap.mp he
  cases e' with
  | accepted newSessId now => cases hof
  | session i e'' =>
    simp only [RegistryEvent.eventOf, Option.ite_none_right_eq_some, Option.some.injEq] at hof
    exact hof.2 ▸ hperm _ he'

section
variable {γ : Type*} [DecidableEq γ] (callbacks : WSInputCallbacks γ)
  (exec : Bound γ → Except Fault (List SendCall))

/-- Identifiers are never drawn twice. -/
def registryStep : RegistryEvent γ → Registry γ → Option (Registry γ)
  | .accepted newSessId now, r =>
    if (r.objects newSessId).isSome then none
    else some (r.addSession ((WsSession.created newSessId).runAsServer now))
  | .session id e, r =>
    match r.objects id with
    | none => none
    | some s => (sessionStep callbacks exec e s).map r.settle

def registryMachine : EventMachine (Registry γ) (RegistryEvent γ) := ⟨registryStep callbacks exec⟩

/-- How the registry `r`, after the history `h`, stands to the session `id`: it has
not been created, or its object is where its own history leads and the map holds
it exactly as long as it is registered. -/
inductive Tracks (id : Bytes) (h : List (RegistryEvent γ)) (r : Registry γ) : Prop where
  | absent : r.objects id = none → id ∉ r.sessions → sessionHistory id h = [] → Tracks id h r
  | present (s : WsSession γ) (now : Nat) : r.objects id = some s → s.id = id →
      (id ∈ r.sessions ↔ s.registered = true) → .accepted id now ∈ h →
      (sessionMachine callbacks exec).run (sessionHistory id h)
        ((WsSession.created id).runAsServer now) = some s → Tracks id h r

variable {callbacks exec} {r r' : Registry γ} {h : List (RegistryEvent γ)}

theorem identity_step {s s' : WsSession γ} {e : SessionEvent γ}
    (hs : sessionStep callbacks exec e s = some s') (hstart : ¬e.Starts) :
    s'.id = s.id ∧ (s'.registered = true → s.registered = true) := by
  by_cases hwatch : e.Watches
  · have hid : s'.id = s.id := by
      obtain ⟨_, _, _, _, _, rfl⟩ := watchFrame_step hs hwatch
      rfl
    refine ⟨hid, ?_⟩
    by_cases htimer : ∃ ec now, e = .timer ec now
    · obtain ⟨ec, now, rfl⟩ := htimer
      obtain ⟨-, rfl⟩ := step_timer hs
      rcases WsSession.onTimer_cases (s.timerDone ec) ec now with
        ⟨-, heq⟩ | ⟨-, heq⟩ | ⟨-, heq⟩ | ⟨-, -, heq⟩
      · simp [heq, WsSession.onSessionFail]
      · rw [heq]
        exact fun hr => hr
      · simp [heq, WsSession.shutDown, WsSession.onSessionFail]
      · rw [heq]
        exact fun hr => hr
    · exact (pending_step hs (fun ec now he => htimer ⟨ec, now, he⟩) hstart).2.2
  · have hkeep := keepsWatch_step hs hwatch hstart
    exact ⟨hkeep.id, hkeep.registered⟩

private theorem Tracks.other {id : Bytes} {e : RegistryEvent γ} (ht : Tracks callbacks exec id h r)
    (hobject : r'.objects id = r.objects id) (hkey : id ∈ r'.sessions ↔ id ∈ r.sessions)
    (he : e.eventOf id = none) : Tracks callbacks exec id (h ++ [e]) r' := by
  have hsame : sessionHistory id (h ++ [e]) = sessionHistory id h := by
    rw [history_concat, he]
    exact List.append_nil _
  cases ht with
  | absent hnone hkey' hempty =>
    exact .absent (hobject.trans hnone) (fun hin => hkey' (hkey.mp hin)) (hsame.trans hempty)
  | present s now hsome hid hmap hmem hrun =>
    refine .present s now (hobject.trans hsome) hid (hkey.trans hmap) (List.mem_append_left _ hmem) ?_
    rw [hsame]
    exact hrun

private theorem tracks_accepted {newSessId : Bytes} {now : Nat}
    (ht : ∀ id, Tracks callbacks exec id h r)
    (hs : registryStep callbacks exec (.accepted newSessId now) r = some r') (id : Bytes) :
    Tracks callbacks exec id (h ++ [.accepted newSessId now]) r' := by
  simp only [registryStep] at hs
  split at hs
  · cases hs
  rename_i hfresh
  obtain rfl := Option.some.inj hs
  have hid : ((WsSession.created newSessId : WsSession γ).runAsServer now).id = newSessId := rfl
  by_cases hsame : id = newSessId
  · subst hsame
    cases ht id with
    | present s now hsome => simp [hsome] at hfresh
    | absent _ _ hempty =>
      have hregistered := (launched_accepted (γ := γ) id now).watchView.2.2.2.2
      refine .present ((WsSession.created id).runAsServer now) now ?_ hid ?_ (by simp) ?_
      · simp [Registry.addSession, Registry.put, hid]
      · simp [Registry.addSession, hid, hregistered]
      · rw [history_concat, hempty]
        rfl
  · refine (ht id).other ?_ ?_ rfl
    · simp [Registry.addSession, Registry.put, hid, Function.update_of_ne hsame]
    · simp [Registry.addSession, hid, hsame]

private theorem tracks_session {i : Bytes} {e : SessionEvent γ}
    (ht : ∀ id, Tracks callbacks exec id h r)
    (hs : registryStep callbacks exec (.session i e) r = some r') (hstart : ¬e.Starts) (id : Bytes) :
    Tracks callbacks exec id (h ++ [.session i e]) r' := by
  simp only [registryStep] at hs
  split at hs
  · cases hs
  rename_i s hobject
  obtain ⟨s', hs', rfl⟩ := Option.map_eq_some_iff.mp hs
  obtain ⟨hid, hregistered⟩ := identity_step hs' hstart
  cases ht i with
  | absent hnone => simp [hnone] at hobject
  | present t now hsome hi hmap hmem hrun =>
    obtain rfl : s = t := Option.some.inj (hobject.symm.trans hsome)
    have hi' : s'.id = i := hid.trans hi
    by_cases hsame : id = i
    · subst hsame
      obtain ⟨hobject', hkey'⟩ := Registry.settle_self (r := r) (s := s')
        fun hr => hi'.symm ▸ hmap.mpr (hregistered hr)
      rw [hi'] at hobject' hkey'
      refine .present s' now hobject' hi' hkey' (List.mem_append_left _ hmem) ?_
      rw [history_concat]
      simp only [RegistryEvent.eventOf, if_true, Option.toList_some]
      exact session_run_concat.mpr ⟨s, hrun, hs'⟩
    · obtain ⟨hobject', hkey'⟩ := Registry.settle_other r (s := s') (hi'.symm ▸ hsame)
      refine (ht id).other hobject' hkey' ?_
      simp [RegistryEvent.eventOf, Ne.symm hsame]

private theorem tracks_step {e : RegistryEvent γ} (ht : ∀ id, Tracks callbacks exec id h r)
    (hs : registryStep callbacks exec e r = some r') (hperm : e.Permitted) (id : Bytes) :
    Tracks callbacks exec id (h ++ [e]) r' := by
  cases e with
  | accepted newSessId now => exact tracks_accepted ht hs id
  | session i e => exact tracks_session ht hs hperm id

/-- Every run of the registry is, for each session, a run of that session alone. -/
theorem tracks_of_run (hr : (registryMachine callbacks exec).run h {} = some r)
    (hperm : ∀ e ∈ h, e.Permitted) (id : Bytes) : Tracks callbacks exec id h r := by
  have hpath := EventMachine.path_of_run hr hperm
  refine hpath.invariant (fun h r => ∀ id, Tracks callbacks exec id h r) ?_ ?_ id
  · exact fun id => .absent rfl (by simp) rfl
  · intro h r r' e ht he hs
    exact tracks_step ht hs he

/-- Whatever the sessions of a server do, each has exactly one wait pending on its
timer until the timer takes its error branch or its close branch, none from then
on, and then the map does not hold it. -/
theorem watchdog_single {id : Bytes} {s : WsSession γ}
    (hr : (registryMachine callbacks exec).run h {} = some r) (hperm : ∀ e ∈ h, e.Permitted)
    (hs : r.objects id = some s) :
    ∃ now, .accepted id now ∈ h ∧
      (sessionMachine callbacks exec).run (sessionHistory id h)
        ((WsSession.created id).runAsServer now) = some s ∧
      (¬Exited callbacks exec ((WsSession.created id).runAsServer now) (sessionHistory id h) →
        s.pending = 1) ∧
      (Exited callbacks exec ((WsSession.created id).runAsServer now) (sessionHistory id h) →
        s.pending = 0) ∧
      (s.pending = 0 → id ∉ r.sessions) := by
  cases tracks_of_run hr hperm id with
  | absent hnone => simp [hnone] at hs
  | present t now hsome hid hmap hmem hrun =>
    obtain rfl : s = t := Option.some.inj (hs.symm.trans hsome)
    refine ⟨now, hmem, hrun, ?_⟩
    rcases armed_or_unwatched (launched_accepted id now) hrun (not_starts_of_permitted hperm) with
      ⟨hexited, harmed⟩ | ⟨hexited, hover⟩
    · exact ⟨fun _ => harmed.pending, fun hx => absurd hx hexited,
        fun hzero => absurd (harmed.pending.symm.trans hzero) (by decide)⟩
    · refine ⟨fun hx => absurd hexited hx, fun _ => hover.pending, fun _ hin => ?_⟩
      exact absurd ((hmap.mp hin).symm.trans hover.registered) (by decide)

end

/-- A session whose handshake never completes: the timer closes it, and a late
control frame finds no wait to cancel. A second session goes on. -/
def silentHistory : List (RegistryEvent Unit) :=
  [.accepted [1] 0, .session [1] (.timer (some .operationAborted) 1), .accepted [2] 2,
    .session [1] (.expired none), .session [1] (.timer none wsPingFrequency),
    .session [1] (.control (wsPingFrequency + 1))]

theorem watchdog_single_silent : ∃ (r : Registry Unit) (s : WsSession Unit),
    (registryMachine {} (fun _ => .ok [])).run silentHistory {} = some r ∧ r.objects [1] = some s ∧
    ∃ now, .accepted [1] now ∈ silentHistory ∧
      (sessionMachine {} (fun _ => .ok [])).run (sessionHistory [1] silentHistory)
        ((WsSession.created [1]).runAsServer now) = some s ∧
      (¬Exited {} (fun _ => .ok []) ((WsSession.created [1]).runAsServer now)
        (sessionHistory [1] silentHistory) → s.pending = 1) ∧
      (Exited {} (fun _ => .ok []) ((WsSession.created [1]).runAsServer now)
        (sessionHistory [1] silentHistory) → s.pending = 0) ∧
      (s.pending = 0 → [1] ∉ r.sessions) := by
  obtain ⟨r, s, hr, hs⟩ : ∃ (r : Registry Unit) (s : WsSession Unit),
      (registryMachine {} (fun _ => .ok [])).run silentHistory {} = some r ∧ r.objects [1] = some s :=
    ⟨_, _, rfl, rfl⟩
  refine ⟨r, s, hr, hs, watchdog_single hr ?_ hs⟩
  simp [silentHistory, RegistryEvent.Permitted, SessionEvent.Starts]

end Boostander.Net
