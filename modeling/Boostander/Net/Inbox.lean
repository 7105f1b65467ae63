import Boostander.Net.SessionMachine

/-! What a session has read. Its buffer and its queue of callbacks change only when a
read completes and when a callback runs, and what they hold follows from the events of
the session alone. -/
namespace Boostander.Net
open Algo Library

section
variable {γ : Type*} {s s' : WsSession γ}

namespace WsSession

/-- The part of a session that holds what was read. -/
def inbox (s : WsSession γ) : Bytes × DispatchQueue (Bound γ) :=
  (s.recievedBuffer, s.receivedMessagesQueue)

theorem inbox_of_watchFrame (h : WatchFrame s s') : s'.inbox = s.inbox := by
  obtain ⟨_, _, _, _, _, rfl⟩ := h
  rfl

theorem inbox_of_sendFrame (h : SendFrame s s') : s'.inbox = s.inbox := by
  obtain ⟨_, _, _, _, rfl⟩ := h
  rfl

private theorem inbox_onWrite (s : WsSession γ) (ec : Option ErrorCode) :
    (s.onWrite ec).inbox = s.inbox := by
  rcases sendFrame_onWrite s ec with hframe | heq
  · exact inbox_of_sendFrame hframe
  · rw [heq]
    rfl

private theorem inbox_onAccept (s : WsSession γ) (ec : Option ErrorCode) :
    (s.onAccept ec).inbox = s.inbox := by
  rw [onAccept]
  split
  · rfl
  split <;> rfl

end WsSession

/-- The callback a message is bound to: it is long enough and its opcode is registered. -/
def bindMessage (callbacks : WSInputCallbacks γ) (message : Bytes) : Option (Bound γ) :=
  if h : 2 ≤ message.length then
    (callbacks.find { operationCode := wsOpcodeFromStr (cStr message) }).map fun callback =>
      ⟨callback, message, h⟩
  else none

namespace SessionEvent

def isReceived : SessionEvent γ → Bool
  | .received _ _ => true
  | _ => false

def isCallback : SessionEvent γ → Bool
  | .callback _ => true
  | _ => false

def ranCallback : SessionEvent γ → Option (Bound γ)
  | .callback b => some b
  | _ => none

/-- What the event leaves in the buffer that it finds, and the message it completes: all
of the buffer, unless the read was aborted or closed or there is nothing or too much. -/
def reads (buffer : Bytes) : SessionEvent γ → Bytes × Option Bytes
  | .received ec data =>
    if ec = some .operationAborted ∨ ec = some .closed ∨ buffer ++ data = [] ∨
        WsSession.maxReceiveMsgSize < (buffer ++ data).length then
      (buffer ++ data, none)
    else ([], some (buffer ++ data))
  | _ => (buffer, none)

theorem ranCallback_eq_none {e : SessionEvent γ} (he : e.isCallback = false) : e.ranCallback = none := by
  cases e with
  | callback b => cases he
  | _ => rfl

theorem reads_of_not_received (buffer : Bytes) {e : SessionEvent γ} (he : e.isReceived = false) :
    e.reads buffer = (buffer, none) := by
  cases e with
  | received ec data => cases he
  | _ => rfl

end SessionEvent

def bufferAfter (buffer : Bytes) (h : List (SessionEvent γ)) : Bytes :=
  h.foldl (fun buffer e => (e.reads buffer).1) buffer

/-- The messages that the events of a session complete, from what the buffer holds. -/
def messagesRead : Bytes → List (SessionEvent γ) → List Bytes
  | _, [] => []
  | buffer, e :: h => (e.reads buffer).2.toList ++ messagesRead (e.reads buffer).1 h

theorem messagesRead_append (buffer : Bytes) (h k : List (SessionEvent γ)) :
    messagesRead buffer (h ++ k) = messagesRead buffer h ++ messagesRead (bufferAfter buffer h) k := by
  induction h generalizing buffer with
  | nil => rfl
  | cons e h ih =>
    rw [List.cons_append, messagesRead, messagesRead, ih, List.append_assoc]
    rfl

private theorem messagesRead_singleton (buffer : Bytes) (e : SessionEvent γ) :
    messagesRead buffer [e] = (e.reads buffer).2.toList := List.append_nil _

/-- The queue with one more callback or with none more. -/
def Queued (q q' : DispatchQueue (Bound γ)) (new : Option (Bound γ)) : Prop :=
  q' = { q with callbacksQueue := q.callbacksQueue ++ new.toList }

private theorem queued_none (q : DispatchQueue (Bound γ)) : Queued q q none := by
  simp [Queued]

private theorem queued_handleIncomingData (callbacks : WSInputCallbacks γ) (s : WsSession γ)
    (message : Bytes) :
    Queued s.receivedMessagesQueue (s.handleIncomingData callbacks message).2.receivedMessagesQueue
      (bindMessage callbacks message) := by
  rw [WsSession.handleIncomingData, bindMessage]
  by_cases hshort : message.length < 2
  · rw [dif_pos hshort, dif_neg (Nat.not_le.mpr hshort)]
    exact queued_none _
  · rw [dif_neg hshort, dif_pos (Nat.le_of_not_lt hshort)]
    split
    · rename_i callback hfind
      rw [hfind]
      rfl
    · rename_i hfind
      rw [hfind]
      exact queued_none _

private theorem inbox_processBuffer (callbacks : WSInputCallbacks γ) (s : WsSession γ) :
    (s.processBuffer callbacks).recievedBuffer =
        ((SessionEvent.received none s.recievedBuffer : SessionEvent γ).reads []).1 ∧
      Queued s.receivedMessagesQueue (s.processBuffer callbacks).receivedMessagesQueue
        (((SessionEvent.received none s.recievedBuffer : SessionEvent γ).reads []).2.bind
          (bindMessage callbacks)) := by
  rw [WsSession.processBuffer, SessionEvent.reads]
  simp only [reduceCtorEq, false_or, List.nil_append]
  by_cases hempty : s.recievedBuffer = []
  · rw [if_pos hempty, if_pos (.inl hempty)]
    exact ⟨rfl, queued_none _⟩
  rw [if_neg hempty]
  by_cases hlong : WsSession.maxReceiveMsgSize < s.recievedBuffer.length
  · rw [if_pos hlong, if_pos (.inr hlong)]
    exact ⟨rfl, queued_none _⟩
  · have hreads : ¬(s.recievedBuffer = [] ∨ WsSession.maxReceiveMsgSize < s.recievedBuffer.length) :=
      not_or.mpr ⟨hempty, hlong⟩
    rw [if_neg hlong, if_neg hreads]
    have hqueued := queued_handleIncomingData callbacks s s.recievedBuffer
    dsimp only
    split
    · exact ⟨rfl, hqueued⟩
    · exact ⟨rfl, hqueued⟩

private theorem inbox_onRead (callbacks : WSInputCallbacks γ) (s : WsSession γ)
    (ec : Option ErrorCode) (data : Bytes) :
    ((s.readDone data).onRead callbacks ec).recievedBuffer =
        ((SessionEvent.received ec data : SessionEvent γ).reads s.recievedBuffer).1 ∧
      Queued s.receivedMessagesQueue
        ((s.readDone data).onRead callbacks ec).receivedMessagesQueue
        (((SessionEvent.received ec data : SessionEvent γ).reads s.recievedBuffer).2.bind
          (bindMessage callbacks)) := by
  rw [WsSession.onRead]
  by_cases haborted : ec = some .operationAborted
  · rw [if_pos haborted, SessionEvent.reads, if_pos (.inl haborted)]
    exact ⟨rfl, queued_none _⟩
  rw [if_neg haborted]
  by_cases hclosed : ec = some .closed
  · rw [if_pos hclosed, SessionEvent.reads, if_pos (.inr (.inl hclosed))]
    exact ⟨rfl, queued_none _⟩
  have hreads : (SessionEvent.received ec data : SessionEvent γ).reads s.recievedBuffer =
      (SessionEvent.received none (s.recievedBuffer ++ data) : SessionEvent γ).reads [] := by
    simp [SessionEvent.reads, haborted, hclosed]
  rw [if_neg hclosed, hreads]
  split
  · exact inbox_processBuffer callbacks (s.readDone data).onSessionFail
  · exact inbox_processBuffer callbacks (s.readDone data)

end

section
variable {γ : Type*} [DecidableEq γ] {callbacks : WSInputCallbacks γ}
  {exec : Bound γ → Except Fault (List SendCall)} {s s' : WsSession γ}

theorem inbox_step {e : SessionEvent γ} (hs : sessionStep callbacks exec e s = some s')
    (hreceived : e.isReceived = false) (hcallback : e.isCallback = false) : s'.inbox = s.inbox := by
  cases e with
  | runAsServer now =>
    obtain rfl := Option.some.inj hs
    exact (WsSession.inbox_of_watchFrame (WsSession.watchFrame_startTimer s now) :)
  | runAsClient now =>
    obtain rfl := Option.some.inj hs
    exact (WsSession.inbox_of_watchFrame (WsSession.watchFrame_startTimer s now) :)
  | opened => exact Option.some.inj hs ▸ rfl
  | closed => exact Option.some.inj hs ▸ rfl
  | accepted ec =>
    obtain ⟨-, rfl⟩ := step_accepted hs
    exact (WsSession.inbox_onAccept s.acceptDone ec :)
  | received ec data => cases hreceived
  | written ec dp =>
    obtain ⟨-, rfl⟩ := step_written hs
    exact (WsSession.inbox_onWrite (s.writeDone dp) ec :)
  | pinged ec => exact WsSession.inbox_of_watchFrame (watchFrame_step hs trivial)
  | control now => exact WsSession.inbox_of_watchFrame (watchFrame_step hs trivial)
  | expired ec => exact WsSession.inbox_of_watchFrame (watchFrame_step hs trivial)
  | timer ec now => exact WsSession.inbox_of_watchFrame (watchFrame_step hs trivial)
  | send call =>
    obtain rfl := Option.some.inj hs
    exact WsSession.inbox_of_sendFrame (WsSession.sendFrame_foldl s [call])
  | callback b => cases hcallback

theorem queue_callback {b : Bound γ} (hs : sessionStep callbacks exec (.callback b) s = some s') :
    s.receivedMessagesQueue.takeFront = some (b, s'.receivedMessagesQueue) ∧
      s'.recievedBuffer = s.recievedBuffer := by
  obtain ⟨q, calls, htake, -, rfl⟩ := step_callback hs
  have hinbox := WsSession.inbox_of_sendFrame
    (WsSession.sendFrame_foldl { s with receivedMessagesQueue := q } calls)
  obtain ⟨hbuffer, hqueue⟩ := Prod.mk.injEq _ _ _ _ ▸ hinbox
  exact ⟨hqueue ▸ htake, hbuffer⟩

/-- What an event other than a callback does to the buffer and to the queue. -/
theorem queued_step {e : SessionEvent γ} (hs : sessionStep callbacks exec e s = some s')
    (he : e.isCallback = false) :
    s'.recievedBuffer = (e.reads s.recievedBuffer).1 ∧
      Queued s.receivedMessagesQueue s'.receivedMessagesQueue
        ((e.reads s.recievedBuffer).2.bind (bindMessage callbacks)) := by
  cases hreceived : e.isReceived with
  | false =>
    obtain ⟨hbuffer, hqueue⟩ := Prod.mk.injEq _ _ _ _ ▸ inbox_step hs hreceived he
    rw [SessionEvent.reads_of_not_received _ hreceived]
    exact ⟨hbuffer, hqueue ▸ queued_none _⟩
  | true =>
    cases e with
    | received ec data =>
      obtain ⟨-, rfl⟩ := step_received hs
      exact inbox_onRead callbacks s ec data
    | _ => cases hreceived

theorem live_step {e : SessionEvent γ} (hs : sessionStep callbacks exec e s = some s') :
    s'.receivedMessagesQueue.quit = s.receivedMessagesQueue.quit := by
  cases he : e.isCallback with
  | false =>
    obtain ⟨-, hqueued⟩ := queued_step hs he
    rw [hqueued]
  | true =>
    cases e with
    | callback b =>
      obtain ⟨-, -, hq⟩ := DispatchQueue.takeFront_eq_some.mp (queue_callback hs).1
      rw [hq]
    | _ => cases he

private theorem inbox_conserved {e : SessionEvent γ} (hs : sessionStep callbacks exec e s = some s') :
    s'.recievedBuffer = (e.reads s.recievedBuffer).1 ∧
      e.ranCallback.toList ++ s'.receivedMessagesQueue.callbacksQueue =
        s.receivedMessagesQueue.callbacksQueue ++
          (e.reads s.recievedBuffer).2.toList.filterMap (bindMessage callbacks) := by
  cases he : e.isCallback with
  | false =>
    obtain ⟨hbuffer, hqueued⟩ := queued_step hs he
    have hnew : ∀ o : Option Bytes, (o.bind (bindMessage callbacks)).toList =
        o.toList.filterMap (bindMessage callbacks) := by
      rintro (_ | m)
      · rfl
      · cases hm : bindMessage callbacks m <;> simp [hm]
    refine ⟨hbuffer, ?_⟩
    rw [hqueued, SessionEvent.ranCallback_eq_none he, ← hnew]
    rfl
  | true =>
    cases e with
    | callback b =>
      obtain ⟨htake, hbuffer⟩ := queue_callback hs
      obtain ⟨-, hfront, -⟩ := DispatchQueue.takeFront_eq_some.mp htake
      refine ⟨hbuffer, ?_⟩
      simp [SessionEvent.ranCallback, SessionEvent.reads, hfront]
    | _ => cases he

/-- A whole run: the callbacks that ran and those that wait are, in order, those that
waited and those of the messages completed since. -/
theorem inbox_run {h : List (SessionEvent γ)}
    (hr : (sessionMachine callbacks exec).run h s = some s') :
    s'.recievedBuffer = bufferAfter s.recievedBuffer h ∧
      h.filterMap SessionEvent.ranCallback ++ s'.receivedMessagesQueue.callbacksQueue =
        s.receivedMessagesQueue.callbacksQueue ++
          (messagesRead s.recievedBuffer h).filterMap (bindMessage callbacks) := by
  apply (EventMachine.reaches_of_run hr).invariant fun h s' =>
    s'.recievedBuffer = bufferAfter s.recievedBuffer h ∧
      h.filterMap SessionEvent.ranCallback ++ s'.receivedMessagesQueue.callbacksQueue =
        s.receivedMessagesQueue.callbacksQueue ++
          (messagesRead s.recievedBuffer h).filterMap (bindMessage callbacks)
  · exact ⟨rfl, by simp [messagesRead]⟩
  · rintro h u v e ⟨hbuffer, hqueue⟩ - hs
    obtain ⟨hbuffer', hqueue'⟩ := inbox_conserved hs
    refine ⟨?_, ?_⟩
    · rw [hbuffer', hbuffer, bufferAfter, bufferAfter, List.foldl_concat]
    · have hran : [e].filterMap SessionEvent.ranCallback = e.ranCallback.toList := by
        cases hr : e.ranCallback <;> simp [hr]
      rw [messagesRead_append, List.filterMap_append, List.filterMap_append, hran, List.append_assoc,
        hqueue', ← List.append_assoc, hqueue, ← hbuffer, messagesRead_singleton, List.append_assoc]

end
end Boostander.Net
