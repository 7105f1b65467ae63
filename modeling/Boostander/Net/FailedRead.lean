import Boostander.Net.Callbacks
import Boostander.Net.ReadLoop
import Boostander.Net.Registry

/-! What a failed read leaves behind. `on_read` returns at once after an abort and
after a close; after any other error it unregisters the session and goes on with
whatever the buffer holds. -/
namespace Boostander.Net
open Algo Library

section
variable {γ : Type*} (callbacks : WSInputCallbacks γ)

/-- A message `handleIncomingData` finds a callback for. -/
def Routable (message : Bytes) : Prop :=
  2 ≤ message.length ∧
    (callbacks.find { operationCode := wsOpcodeFromStr (cStr message) }).isSome = true

variable {callbacks}

/-- No callback was dispatched and no read started. -/
def WsSession.Silent (s s' : WsSession γ) : Prop :=
  s'.receivedMessagesQueue = s.receivedMessagesQueue ∧ s'.ws.reads = s.ws.reads

private theorem dispatch_ne {α : Type*} (q : DispatchQueue α) (op : α) : q.dispatch op ≠ q := by
  intro h
  have hlen := congrArg (fun q => q.callbacksQueue.length) h
  simp [DispatchQueue.dispatch] at hlen

private theorem handleIncomingData_keeps_iff (callbacks : WSInputCallbacks γ) (s : WsSession γ)
    (message : Bytes) :
    (s.handleIncomingData callbacks message).2.receivedMessagesQueue = s.receivedMessagesQueue ↔
      ¬Routable callbacks message := by
  rw [WsSession.handleIncomingData, Routable]
  by_cases hshort : message.length < 2
  · rw [dif_pos hshort]
    exact iff_of_true rfl fun hroute => absurd hroute.1 (Nat.not_le.mpr hshort)
  · rw [dif_neg hshort]
    cases hfind : callbacks.find { operationCode := wsOpcodeFromStr (cStr message) } with
    | some callback => exact iff_of_false (dispatch_ne _ _) (not_not.mpr ⟨Nat.le_of_not_lt hshort, rfl⟩)
    | none => exact iff_of_true rfl (by simp)

private theorem processBuffer_silent_iff (s : WsSession γ) :
    s.Silent (s.processBuffer callbacks) ↔
      s.recievedBuffer = [] ∨ WsSession.maxReceiveMsgSize < s.recievedBuffer.length ∨
        s.ws.isOpen = false ∧ ¬Routable callbacks s.recievedBuffer := by
  rw [WsSession.processBuffer]
  by_cases hempty : s.recievedBuffer = []
  · rw [if_pos hempty]
    exact iff_of_true ⟨rfl, rfl⟩ (Or.inl hempty)
  by_cases hlong : WsSession.maxReceiveMsgSize < s.recievedBuffer.length
  · rw [if_neg hempty, if_pos hlong]
    exact iff_of_true ⟨rfl, rfl⟩ (Or.inr (Or.inl hlong))
  have hkeeps := handleIncomingData_keeps_iff callbacks s s.recievedBuffer
  have hview := WsSession.readView_handleIncomingData callbacks s s.recievedBuffer
  simp only [WsSession.readView, Prod.mk.injEq] at hview
  obtain ⟨hreads, -, -, hopen⟩ := hview
  rw [if_neg hempty, if_neg hlong]
  cases ho : s.ws.isOpen with
  | true =>
    simp [WsSession.Silent, hempty, hlong, hopen, ho, hreads, WsSession.doRead, WsStream.asyncRead]
  | false => simp [WsSession.Silent, hempty, hlong, hopen, ho, hreads, hkeeps]

variable (callbacks) in
/-- The read of `s` that failed with `ec` is the end of it: nothing is dispatched,
no read is started, and unless the read was aborted or the stream closed the map
of the server no longer holds the session. -/
structure FailedReadFinal (r : Registry γ) (s : WsSession γ) (ec : ErrorCode) : Prop where
  silent : s.Silent (s.onRead callbacks (some ec))
  removed : ec ≠ .operationAborted → ec ≠ .closed →
    s.id ∉ (r.settle (s.onRead callbacks (some ec))).sessions

private theorem onRead_other (s : WsSession γ) {ec : ErrorCode} (habort : ec ≠ .operationAborted)
    (hclosed : ec ≠ .closed) :
    s.onRead callbacks (some ec) = s.onSessionFail.processBuffer callbacks := by
  rw [WsSession.onRead, if_neg (by simpa using habort), if_neg (by simpa using hclosed)]
  exact if_pos rfl

private theorem removed_of_onRead (r : Registry γ) (s : WsSession γ) {ec : ErrorCode}
    (habort : ec ≠ .operationAborted) (hclosed : ec ≠ .closed) :
    s.id ∉ (r.settle (s.onRead callbacks (some ec))).sessions := by
  have hframe := WsSession.readFrame_processBuffer callbacks s.onSessionFail
  rw [onRead_other s habort hclosed]
  obtain ⟨_, _, _, _, registered, heq, hregistered⟩ := hframe
  have hgone : registered = false := by
    cases registered with
    | false => rfl
    | true => exact absurd (hregistered rfl) (by simp [WsSession.onSessionFail])
  rw [heq, hgone]
  simp [Registry.settle, Registry.unregisterSession, WsSession.onSessionFail]

/-- A failed read is final exactly after an abort or a close, or when the buffer it
left is empty, too long, or neither routable nor on an open stream. -/
theorem failedRead_final_iff (r : Registry γ) (s : WsSession γ) (ec : ErrorCode) :
    FailedReadFinal callbacks r s ec ↔
      ec = .operationAborted ∨ ec = .closed ∨ s.recievedBuffer = [] ∨
        WsSession.maxReceiveMsgSize < s.recievedBuffer.length ∨
        s.ws.isOpen = false ∧ ¬Routable callbacks s.recievedBuffer := by
  by_cases habort : ec = .operationAborted
  · subst habort
    exact iff_of_true ⟨⟨rfl, rfl⟩, fun h => absurd rfl h⟩ (Or.inl rfl)
  by_cases hclosed : ec = .closed
  · subst hclosed
    exact iff_of_true ⟨⟨rfl, rfl⟩, fun _ h => absurd rfl h⟩ (Or.inr (Or.inl rfl))
  have hsilent : s.Silent (s.onRead callbacks (some ec)) ↔
      s.recievedBuffer = [] ∨ WsSession.maxReceiveMsgSize < s.recievedBuffer.length ∨
        s.ws.isOpen = false ∧ ¬Routable callbacks s.recievedBuffer := by
    rw [onRead_other s habort hclosed]
    exact processBuffer_silent_iff s.onSessionFail
  constructor
  · rintro ⟨hfinal, -⟩
    exact Or.inr (Or.inr (hsilent.mp hfinal))
  · rintro (h | h | h)
    · exact absurd h habort
    · exact absurd h hclosed
    · exact ⟨hsilent.mpr h, fun _ _ => removed_of_onRead r s habort hclosed⟩

end

/-- A session that has received half of a message. -/
def interrupted : WsSession ServerCallback :=
  { id := [65], recievedBuffer := [48, 65], registered := true }

/-- The connection is reset in the middle of the message, and its first bytes are
queued for the ping callback as if they were all of it. -/
theorem failedRead_partial_fails : ¬FailedReadFinal operationCallbacks {} interrupted (.other 104) := by
  rintro ⟨⟨hqueue, -⟩, -⟩
  exact absurd hqueue (by decide)

end Boostander.Net
