import Boostander.Library.EventMachine
import Boostander.Net.WsSession

/-! The query for received messages of `net/SessionBase.cpp`. It asks the queue
whether it is empty, and the queue looks at its worker threads. -/
namespace Boostander.Net
open Algo Library

namespace WsSession
variable {γ : Type*}

def hasReceivedMessages (s : WsSession γ) : Bool := s.receivedMessagesQueue.isEmpty

def clearReceivedMessages (s : WsSession γ) : WsSession γ :=
  { s with receivedMessagesQueue := s.receivedMessagesQueue.clear }

/-- The query says what it is asked: whether a callback is still queued. -/
def QueryExact (s : WsSession γ) : Prop :=
  s.hasReceivedMessages = true ↔ s.receivedMessagesQueue.callbacksQueue ≠ []

end WsSession

/-- The calls made on the queue of a session. A drain that does not end within
`rounds` rounds has not returned. -/
inductive QueueCall (γ : Type*) where
  | dispatch (b : Bound γ)
  | dispatchQueued (rounds : Nat)
  | clearReceivedMessages

section
variable {γ : Type*} (exec : Bound γ → WsSession γ → Ran (WsSession γ) (Bound γ))

def queueStep : QueueCall γ → WsSession γ → Option (WsSession γ)
  | .dispatch b, s =>
    some { s with receivedMessagesQueue := s.receivedMessagesQueue.dispatch b }
  | .dispatchQueued rounds, s =>
    match s.receivedMessagesQueue.dispatchQueued exec rounds s with
    | some (q, s, _) => some { s with receivedMessagesQueue := q }
    | none => none
  | .clearReceivedMessages, s => some s.clearReceivedMessages

def queueMachine : EventMachine (WsSession γ) (QueueCall γ) := ⟨queueStep exec⟩

variable {exec}

private theorem threads_step {s s' : WsSession γ} {call : QueueCall γ}
    (hs : queueStep exec call s = some s') :
    s'.receivedMessagesQueue.threads = s.receivedMessagesQueue.threads := by
  cases call with
  | dispatch b =>
    obtain rfl := Option.some.inj hs
    rfl
  | dispatchQueued rounds =>
    simp only [queueStep] at hs
    split at hs
    · rename_i q t fault hdrain
      obtain rfl := Option.some.inj hs
      have hq : q.threads = s.receivedMessagesQueue.threads := by
        rw [DispatchQueue.dispatchQueued_keeps hdrain]
      exact hq
    · cases hs
  | clearReceivedMessages =>
    obtain rfl := Option.some.inj hs
    rfl

private theorem hasReceivedMessages_of_run {id : Bytes} {h : List (QueueCall γ)} {s : WsSession γ}
    (hr : (queueMachine exec).run h { id := id } = some s) : s.hasReceivedMessages = true := by
  have hthreads : s.receivedMessagesQueue.threads = 0 := by
    apply (EventMachine.reaches_of_run hr).invariant (fun _ s => s.receivedMessagesQueue.threads = 0)
    · rfl
    · intro _ u v call hu _ hs
      exact (threads_step hs).trans hu
  rw [WsSession.hasReceivedMessages, DispatchQueue.isEmpty, hthreads]
  rfl

/-- After any calls the query is right exactly if a callback is still queued. -/
theorem queryExact_iff {id : Bytes} {h : List (QueueCall γ)} {s : WsSession γ}
    (hr : (queueMachine exec).run h { id := id } = some s) :
    s.QueryExact ↔ s.receivedMessagesQueue.callbacksQueue ≠ [] := by
  rw [WsSession.QueryExact, hasReceivedMessages_of_run hr]
  constructor
  · intro h
    exact h.mp rfl
  · intro hne
    exact iff_of_true rfl hne

end

/-- Two messages are dispatched, drained and one more is dispatched. -/
theorem queryExact_iff_drained : ∃ s : WsSession Unit,
    (queueMachine (fun _ s => { state := s })).run
      [.dispatch ⟨(), [48, 65], by decide⟩, .dispatch ⟨(), [48, 66], by decide⟩, .dispatchQueued 3,
        .dispatch ⟨(), [48, 67], by decide⟩] { id := [] } = some s ∧
    (s.QueryExact ↔ s.receivedMessagesQueue.callbacksQueue ≠ []) := by
  obtain ⟨s, hs⟩ : ∃ s : WsSession Unit, (queueMachine (fun _ s => { state := s })).run
      [.dispatch ⟨(), [48, 65], by decide⟩, .dispatch ⟨(), [48, 66], by decide⟩, .dispatchQueued 3,
        .dispatch ⟨(), [48, 67], by decide⟩] { id := [] } = some s := ⟨_, rfl⟩
  exact ⟨s, hs, queryExact_iff hs⟩

/-- A session that never received anything. -/
theorem queryExact_fresh_fails : ¬({ id := [] } : WsSession Unit).QueryExact := by
  intro h
  exact absurd rfl (h.mp rfl)

end Boostander.Net
