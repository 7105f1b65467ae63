import Boostander.Net.Conversation
import Boostander.Net.ServerTick

/-! The clients of a server, seen one at a time. Whatever the others do, a client is sent
the replies to its own messages, in the order in which it sent them, and what is sent to
all of them reaches each once. -/
namespace Boostander.Net
open Algo Library

section
variable {exec : Bound ServerCallback → Except Fault (List SendCall)}
  {s s' : WsSession ServerCallback} {h : List (SessionEvent ServerCallback)}

private theorem Relayed.received_nil (hx : Relayed exec h s)
    (hs : sessionStep operationCallbacks exec (.received none []) s = some s') :
    Relayed exec (h ++ [.received none []]) s' := by
  have hsends := hx.sends_step hs
  obtain ⟨-, rfl⟩ := step_received hs
  have hbuffer : (s.readDone []).recievedBuffer = [] := by
    simp [WsSession.readDone, hx.recievedBuffer]
  have heq : (s.readDone []).onRead operationCallbacks none = s.readDone [] := by
    rw [WsSession.onRead, if_neg (by simp), if_neg (by simp), if_neg (by simp), WsSession.processBuffer,
      if_pos hbuffer]
  rw [heq] at hsends ⊢
  refine ⟨hbuffer, ?_, ?_, hsends⟩
  · intro m hm
    rw [receivedMessages_concat, List.mem_append] at hm
    rcases hm with hm | hm
    · exact hx.short m hm
    · rw [List.mem_singleton.mp hm]
      exact Nat.zero_le _
  · have hqueued := hx.queued
    rw [receivedMessages_concat, ranCallbacks_concat, List.filterMap_append, ← hqueued]
    simp [SessionEvent.receivedMessage, SessionEvent.ranCallback, route, WsSession.readDone]

private theorem relayed_run {id : Bytes} {now : Nat}
    (hr : (sessionMachine operationCallbacks exec).run h ((WsSession.created id).runAsServer now) = some s)
    (hwhole : ∀ e ∈ h, e.Whole) : Relayed exec h s := by
  apply (EventMachine.path_of_run hr hwhole).invariant fun h s => Relayed exec h s
  · exact ⟨rfl, fun m hm => absurd hm List.not_mem_nil, rfl, {}, ⟨rfl, rfl, rfl, rfl⟩, rfl⟩
  · intro h u v e hu he hstep
    have hs : sessionStep operationCallbacks exec e u = some v := hstep
    by_cases hnil : e = .received none []
    · subst hnil
      exact hu.received_nil hs
    · refine hu.step hs he ?_
      rintro data hdata rfl
      cases e with
      | received ec data' =>
        cases ec with
        | none =>
          obtain rfl := Option.some.inj hdata
          exact hnil rfl
        | some ec => cases hdata
      | _ => cases hdata

end

section
variable {δ : Type} {nm : NetworkManager ServerCallback} {h : List (ServerEvent ServerCallback)}

/-- In every run of the server, with any number of clients, ticks and failures, what a
session has handed to its stream and what waits to be handed are the replies of the
callbacks that ran for it, and these and the ones that wait are those of the messages
that it has read itself, all in order. -/
theorem clients_kept_apart (cv : Conversions δ) {b : Bool} {id : Bytes}
    {s : WsSession ServerCallback}
    (hr : (serverMachine operationCallbacks (Bound.call cv)).run h (.initial b) = some nm)
    (hperm : ∀ e ∈ h, e.Permitted) (hwhole : ∀ e ∈ historyOf id h, e.Whole)
    (hunsent : ∀ call, .session id (.send call) ∉ h) (hsome : nm.registry.objects id = some s) :
    s.ws.handed ++ s.unsent =
        (ranCallbacks (historyOf id h)).flatMap (repliesOf (Bound.call cv)) ∧
      ranCallbacks (historyOf id h) ++ nm.received id =
        (receivedMessages (historyOf id h)).filterMap route := by
  obtain ⟨k, -, hsessions, htracks⟩ := tracks_server hr hperm id
  cases htracks with
  | absent hnone _ _ => exact absurd (hnone.symm.trans hsome) (by simp)
  | present t now ht _ _ _ hrun =>
    obtain rfl : t = s := Option.some.inj (ht.symm.trans hsome)
    rw [hsessions] at hrun
    have hx := relayed_run hrun hwhole
    have hsilent : ∀ call, .send call ∉ historyOf id h := by
      intro call hmem
      obtain ⟨e, he, hof⟩ := List.mem_filterMap.mp hmem
      cases e with
      | session i e =>
        simp only [ServerEvent.eventOf, Option.ite_none_right_eq_some, Option.some.injEq] at hof
        obtain ⟨rfl, rfl⟩ := hof
        exact hunsent call he
      | callback i c => simp [ServerEvent.eventOf] at hof
      | _ => cases hof
    obtain ⟨o, hsends, hacc⟩ := hx.sends
    refine ⟨?_, ?_⟩
    · rw [hsends.handed_append_unsent, hacc]
      exact acceptedSends_of_unsent hsilent
    · have hqueue : nm.received id = t.receivedMessagesQueue.callbacksQueue := by
        simp only [NetworkManager.received, hsome]
      rw [hqueue]
      exact hx.queued

end

/-- Two clients connect, each sends a ping, and one tick answers both. -/
def twoClients : List (ServerEvent ServerCallback) :=
  [.listener .run 0, .listener (.completed none) 0, .listener (.onAccept none [1]) 0,
    .listener (.completed none) 0, .listener (.onAccept none [2]) 0,
    .session [1] .opened, .session [1] (.accepted none), .session [2] .opened,
    .session [2] (.accepted none), .session [1] (.received none [48, 70]),
    .session [2] (.received none [48, 71]), .tick [[2], [1]],
    .callback [2] ⟨.ping, [48, 71], by decide⟩, .next, .callback [1] ⟨.ping, [48, 70], by decide⟩, .next]

theorem clients_kept_apart_two : ∃ nm s,
    (serverMachine operationCallbacks (Bound.call wholeConversions)).run twoClients (.initial true) =
      some nm ∧
    nm.registry.objects [1] = some s ∧ s.ws.handed = [[48, 70]] ∧
    s.ws.handed ++ s.unsent =
      (ranCallbacks (historyOf [1] twoClients)).flatMap (repliesOf (Bound.call wholeConversions)) := by
  obtain ⟨nm, s, hr, hsome, hhanded⟩ : ∃ nm s,
      (serverMachine operationCallbacks (Bound.call wholeConversions)).run twoClients (.initial true) =
        some nm ∧
      nm.registry.objects [1] = some s ∧ s.ws.handed = [[48, 70]] := ⟨_, _, rfl, rfl, rfl⟩
  have hperm : ∀ e ∈ twoClients, e.Permitted := by
    simp [twoClients, ServerEvent.Permitted, SessionEvent.Starts]
  have hwhole : ∀ e ∈ historyOf [1] twoClients, e.Whole := by
    have hmine : historyOf [1] twoClients = [.opened, .accepted none, .received none [48, 70],
        .callback ⟨.ping, [48, 70], by decide⟩] := rfl
    rw [hmine]
    simp [SessionEvent.Whole]
  have hunsent : ∀ call, .session [1] (.send call) ∉ twoClients := by
    simp [twoClients]
  exact ⟨nm, s, hr, hsome, hhanded,
    (clients_kept_apart wholeConversions hr hperm hwhole hunsent hsome).1⟩

section
variable {γ : Type*} {r : Registry γ}

private theorem filed_send (hfiled : Filed r) {id : Bytes} {s : WsSession γ}
    (hsome : r.objects id = some s) (message : Bytes) :
    (s.send message).id = id ∧ (s.send message).receivedMessagesQueue.quit = false := by
  obtain ⟨_, _, _, _, hframe⟩ := WsSession.sendFrame_send s message
  rw [hframe]
  exact hfiled id s hsome

private theorem objects_sendTo (hfiled : Filed r) (sessionID message : Bytes) :
    (r.sendTo sessionID message).objects =
      if sessionID ∈ r.sessions then
        Function.update r.objects sessionID ((r.objects sessionID).map (WsSession.send · message))
      else r.objects := by
  rw [Registry.sendTo]
  split
  · cases hsome : r.objects sessionID with
    | none => exact (Function.update_eq_self_iff.mpr hsome.symm).symm
    | some s => simp [Registry.put, (filed_send hfiled hsome message).1]
  · rfl

private theorem filed_sendTo (hfiled : Filed r) (sessionID message : Bytes) :
    Filed (r.sendTo sessionID message) := by
  intro id s hs
  rw [objects_sendTo hfiled] at hs
  split at hs
  · by_cases hid : id = sessionID
    · subst hid
      rw [Function.update_self] at hs
      obtain ⟨t, ht, rfl⟩ := Option.map_eq_some_iff.mp hs
      exact filed_send hfiled ht message
    · rw [Function.update_of_ne hid] at hs
      exact hfiled id s hs
  · exact hfiled id s hs

private theorem sessions_sendToAll (r : Registry γ) (order : List Bytes) (message : Bytes) :
    (r.sendToAll order message).sessions = r.sessions := by
  induction order generalizing r with
  | nil => rfl
  | cons i order ih => exact (ih (r.sendTo i message)).trans (r.sessions_sendTo i message)

private theorem objects_sendToAll (hfiled : Filed r) {order : List Bytes} (hnodup : order.Nodup)
    (message id : Bytes) :
    (r.sendToAll order message).objects id =
      if id ∈ order ∧ id ∈ r.sessions then (r.objects id).map (WsSession.send · message)
      else r.objects id := by
  induction order generalizing r with
  | nil => simp [Registry.sendToAll]
  | cons i order ih =>
    obtain ⟨hi, hnodup⟩ := List.nodup_cons.mp hnodup
    have hrest := ih (filed_sendTo hfiled i message) hnodup
    rw [r.sessions_sendTo i message, objects_sendTo hfiled] at hrest
    have hcons : r.sendToAll (i :: order) message = (r.sendTo i message).sendToAll order message := rfl
    rw [hcons, hrest]
    by_cases hid : id = i
    · subst hid
      by_cases hin : id ∈ r.sessions <;> simp [hi, hin]
    · by_cases hin : i ∈ r.sessions <;> simp [hid, hin]

end

section
variable {γ : Type*} [DecidableEq γ] {callbacks : WSInputCallbacks γ}
  {exec : Bound γ → Except Fault (List SendCall)} {nm : NetworkManager γ}

private theorem sends_server {b : Bool} {h : List (ServerEvent γ)}
    (hr : (serverMachine callbacks exec).run h (.initial b) = some nm)
    (hperm : ∀ e ∈ h, e.Permitted) {id : Bytes} {s : WsSession γ}
    (hsome : nm.registry.objects id = some s) : ∃ o, s.Sends o := by
  obtain ⟨k, -, -, htracks⟩ := tracks_server hr hperm id
  cases htracks with
  | absent hnone _ _ => exact absurd (hnone.symm.trans hsome) (by simp)
  | present t now ht _ _ _ hrun =>
    obtain rfl : t = s := Option.some.inj (ht.symm.trans hsome)
    apply (EventMachine.reaches_of_run hrun).invariant fun _ s => ∃ o, s.Sends o
    · exact ⟨{}, rfl, rfl, rfl, rfl⟩
    · rintro _ u v e ⟨o, hsends⟩ - hstep
      obtain ⟨o', hsends', -⟩ := sends_step hsends hstep
      exact ⟨o', hsends'⟩

/-- In every state of the server a broadcast leaves the same, in whichever order it goes
through the map, and `send` has accepted the message once more for each session in the
map and not at all for the others. -/
theorem broadcast_once {b : Bool} {h : List (ServerEvent γ)}
    (hr : (serverMachine callbacks exec).run h (.initial b) = some nm)
    (hperm : ∀ e ∈ h, e.Permitted) {order order' : List Bytes} (hnodup : order.Nodup)
    (hnodup' : order'.Nodup) (horder : order.toFinset = nm.registry.sessions)
    (horder' : order'.toFinset = nm.registry.sessions) (message : Bytes) :
    nm.registry.sendToAll order message = nm.registry.sendToAll order' message ∧
      ∀ id s, nm.registry.objects id = some s →
        ∃ s', (nm.registry.sendToAll order message).objects id = some s' ∧
          s'.ws.handed ++ s'.unsent = s.ws.handed ++ s.unsent ++
            if id ∈ nm.registry.sessions ∧ Sendable message then [message] else [] := by
  have hfiled := filed_server hr hperm
  have hmem : ∀ id, id ∈ order ↔ id ∈ nm.registry.sessions := by
    intro id
    rw [← horder, List.mem_toFinset]
  have hmem' : ∀ id, id ∈ order' ↔ id ∈ nm.registry.sessions := by
    intro id
    rw [← horder', List.mem_toFinset]
  constructor
  · have hobjects : (nm.registry.sendToAll order message).objects =
        (nm.registry.sendToAll order' message).objects := by
      funext id
      simp only [objects_sendToAll hfiled hnodup, objects_sendToAll hfiled hnodup', hmem, hmem']
    have hsessions : (nm.registry.sendToAll order message).sessions =
        (nm.registry.sendToAll order' message).sessions := by
      rw [sessions_sendToAll, sessions_sendToAll]
    exact congrArg₂ Registry.mk hobjects hsessions
  · intro id s hsome
    have hobject := objects_sendToAll hfiled hnodup message id
    simp only [hmem, and_self, hsome] at hobject
    obtain ⟨o, hsends⟩ := sends_server hr hperm hsome
    by_cases hin : id ∈ nm.registry.sessions
    · obtain ⟨o', hsends', -, hacc⟩ := hsends.send message
      refine ⟨s.send message, hobject.trans (if_pos hin), ?_⟩
      rw [hsends'.handed_append_unsent, hacc, hsends.handed_append_unsent]
      simp only [hin, true_and]
    · refine ⟨s, hobject.trans (if_neg hin), ?_⟩
      simp [hin]

end

theorem broadcast_once_two : ∃ nm : NetworkManager ServerCallback,
    (serverMachine operationCallbacks (Bound.call wholeConversions)).run twoClients (.initial true) =
      some nm ∧
    nm.registry.sendToAll [[1], [2]] [48, 70] = nm.registry.sendToAll [[2], [1]] [48, 70] := by
  obtain ⟨nm, hr, hmap, hmap'⟩ : ∃ nm : NetworkManager ServerCallback,
      (serverMachine operationCallbacks (Bound.call wholeConversions)).run twoClients (.initial true) =
        some nm ∧
      [[1], [2]].toFinset = nm.registry.sessions ∧ [[2], [1]].toFinset = nm.registry.sessions :=
    ⟨_, rfl, by decide, by decide⟩
  have hperm : ∀ e ∈ twoClients, e.Permitted := by
    simp [twoClients, ServerEvent.Permitted, SessionEvent.Starts]
  exact ⟨nm, hr, (broadcast_once hr hperm (by decide) (by decide) hmap hmap' [48, 70]).1⟩

end Boostander.Net
