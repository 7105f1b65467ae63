import Boostander.Net.Analysis
import Boostander.Net.Inbox
import Boostander.Net.SendQueue

/-! A session of the server as a transducer. Messages pass through the read
loop, the queue of callbacks and the queue of writes, each on its own schedule;
together they compute one function on lists. -/
namespace Boostander.Net
open Algo Algo.CSV Library

def registered (c : Byte) : Option ServerCallback :=
  if c = 48 then some .ping
  else if c = 49 then some .csvAnalize
  else if c = 50 then some .csvAnswer
  else none

/-- The callback a message is bound to: it has at least two bytes and a registered opcode. -/
def route (m : Bytes) : Option (Bound ServerCallback) :=
  if h : 2 ≤ m.length then (registered (m.headD 0)).map fun c => ⟨c, m, h⟩ else none

/-- What a message is answered with, by its first byte. -/
def replyTo (m : Bytes) : List Bytes :=
  if m.headD 0 = 48 then [m]
  else if m.headD 0 = 49 then [50 :: stdToString (table 44 m.tail).length]
  else []

namespace SessionEvent

/-- The message a successful read delivers. -/
def receivedMessage {γ : Type*} : SessionEvent γ → Option Bytes
  | .received none data => some data
  | _ => none

def writtenMessage {γ : Type*} : SessionEvent γ → Option Bytes
  | .written none dp => some dp
  | _ => none

/-- Successful reads of non-empty messages without NUL, callbacks, and successful writes. -/
def Exchanges {γ : Type*} : SessionEvent γ → Prop
  | .received ec data => ec = none ∧ data ≠ [] ∧ 0 ∉ data
  | .callback _ => True
  | .written ec _ => ec = none
  | _ => False

end SessionEvent

private theorem find_operationCallbacks (str : Bytes) :
    operationCallbacks.find { operationCode := wsOpcodeFromStr str } = registered (str.headD 0) := by
  have hall : ∀ n : Fin 256, operationCallbacks.find
      { operationCode := (UInt8.ofFin n).toInt8.toInt32.toUInt32 } = registered (UInt8.ofFin n) := by
    decide +kernel
  exact hall (str.headD 0).toFin

private theorem headD_cStr (m : Bytes) : (cStr m).headD 0 = m.headD 0 := by
  cases m with
  | nil => rfl
  | cons c m =>
    by_cases hc : c = 0
    · simp [cStr, hc]
    · simp [cStr, hc]

theorem handleIncomingData_eq (s : WsSession ServerCallback) (m : Bytes) :
    (s.handleIncomingData operationCallbacks m).2 =
      { s with receivedMessagesQueue := { s.receivedMessagesQueue with
        callbacksQueue := s.receivedMessagesQueue.callbacksQueue ++ (route m).toList } } := by
  unfold WsSession.handleIncomingData route
  by_cases h : m.length < 2
  · simp [h, Nat.not_le.mpr h]
  · rw [dif_neg h, dif_pos (Nat.le_of_not_lt h), find_operationCallbacks, headD_cStr]
    cases registered (m.headD 0) with
    | none => simp
    | some c => rfl

theorem route_eq_some {m : Bytes} {b : Bound ServerCallback} (h : route m = some b) :
    b.message = m ∧ registered (m.headD 0) = some b.callback := by
  unfold route at h
  split at h
  · obtain ⟨c, hc, rfl⟩ := Option.map_eq_some_iff.mp h
    exact ⟨rfl, hc⟩
  · cases h

/-- The messages this development follows through a session. -/
structure PlainMessage (m : Bytes) : Prop where
  nonempty : m ≠ []
  nul_free : 0 ∉ m
  short : m.length ≤ readMessageMax

private theorem PlainMessage.sendable {m : Bytes} (h : PlainMessage m) : Sendable m :=
  ⟨h.nonempty, Nat.le_trans h.short (by decide)⟩

private theorem sendable_answer {n : Nat} (h : n ≤ readMessageMax) :
    Sendable (50 :: stdToString n) := by
  have hdigits : (Nat.toDigits 10 n).length ≤ 10 :=
    (Nat.length_toDigits_le_iff (by decide) (by decide)).mpr (Nat.lt_of_le_of_lt h (by decide))
  refine ⟨List.cons_ne_nil _ _, ?_⟩
  simp only [stdToString, List.length_cons, List.length_map, WsSession.maxSendMsgSize]
  omega

/-- A callback that returns has its session accept what its message is answered with. -/
theorem acceptedTexts_call {δ : Type} {cv : Conversions δ} {m : Bytes} {b : Bound ServerCallback}
    {calls : List SendCall} (hm : PlainMessage m) (hroute : route m = some b)
    (hcall : b.call cv = .ok calls) : acceptedTexts calls = replyTo m := by
  obtain ⟨hmessage, hregistered⟩ := route_eq_some hroute
  obtain ⟨callback, message, long⟩ := b
  obtain rfl : message = m := hmessage
  unfold registered at hregistered
  split at hregistered
  · rename_i hc
    obtain rfl : ServerCallback.ping = callback := Option.some.inj hregistered
    obtain rfl := Except.ok.inj hcall
    rw [replyTo, if_pos hc]
    simp [acceptedTexts, SendCall.text, cStr_eq_self hm.nul_free, hm.sendable]
  split at hregistered
  · rename_i hc
    obtain rfl : ServerCallback.csvAnalize = callback := Option.some.inj hregistered
    obtain ⟨-, rfl⟩ := (csvAnalizeCallback_ok hm.nonempty).mp hcall
    have hrows : (table 44 message.tail).length ≤ readMessageMax := by
      have htail := List.length_tail (l := message)
      have hshort := hm.short
      have htable := length_table_le 44 message.tail
      omega
    rw [replyTo, if_neg (by rw [hc]; decide), if_pos hc]
    simp [acceptedTexts, SendCall.text, opcodeToStr, WsOpcode.csvAnswer, sendable_answer hrows]
  split at hregistered
  · rename_i hc
    obtain rfl : ServerCallback.csvAnswer = callback := Option.some.inj hregistered
    obtain rfl : [] = calls := by
      simpa [Bound.call, csvAnswerCallback, substr_tail hm.nonempty, Bind.bind, Except.bind, pure,
        Except.pure] using hcall
    rw [replyTo, if_neg (by rw [hc]; decide), if_neg (by rw [hc]; decide)]
    rfl
  · cases hregistered

section
variable {δ : Type} {cv : Conversions δ} {s₀ s s' : WsSession ServerCallback}
  {h : List (SessionEvent ServerCallback)}

/-- An open session with nothing left to read, to run or to write. -/
structure Idle (s : WsSession ServerCallback) : Prop where
  isOpen : s.ws.isOpen = true
  recievedBuffer : s.recievedBuffer = []
  callbacksQueue : s.receivedMessagesQueue.callbacksQueue = []
  sendQueue : s.sendQueue = []
  isSendBusy : s.isSendBusy = false
  writes : s.ws.writes = []

/-- The messages received, the callbacks run and the messages written along a history. -/
def receivedMessages (h : List (SessionEvent ServerCallback)) : List Bytes :=
  h.filterMap SessionEvent.receivedMessage

def ranCallbacks (h : List (SessionEvent ServerCallback)) : List (Bound ServerCallback) :=
  h.filterMap SessionEvent.ranCallback

def writtenMessages (h : List (SessionEvent ServerCallback)) : List Bytes :=
  h.filterMap SessionEvent.writtenMessage

@[simp] theorem receivedMessages_concat (h : List (SessionEvent ServerCallback))
    (e : SessionEvent ServerCallback) :
    receivedMessages (h ++ [e]) = receivedMessages h ++ e.receivedMessage.toList := by
  cases he : e.receivedMessage <;> simp [receivedMessages, he]

@[simp] theorem ranCallbacks_concat (h : List (SessionEvent ServerCallback))
    (e : SessionEvent ServerCallback) :
    ranCallbacks (h ++ [e]) = ranCallbacks h ++ e.ranCallback.toList := by
  cases he : e.ranCallback <;> simp [ranCallbacks, he]

@[simp] theorem writtenMessages_concat (h : List (SessionEvent ServerCallback))
    (e : SessionEvent ServerCallback) :
    writtenMessages (h ++ [e]) = writtenMessages h ++ e.writtenMessage.toList := by
  cases he : e.writtenMessage <;> simp [writtenMessages, he]

/-- The three stages of the session `s`, which started as `s₀` and went through `h`. -/
structure Exchanged (s₀ : WsSession ServerCallback) (h : List (SessionEvent ServerCallback))
    (s : WsSession ServerCallback) : Prop where
  isOpen : s.ws.isOpen = true
  recievedBuffer : s.recievedBuffer = []
  plain : ∀ m ∈ receivedMessages h, PlainMessage m
  queued : ranCallbacks h ++ s.receivedMessagesQueue.callbacksQueue =
    (receivedMessages h).filterMap route
  sends : ∃ o, s.Sends o ∧ o.done = s₀.ws.handed ++ writtenMessages h ∧
    o.accepted = s₀.ws.handed ++ (ranCallbacks h).flatMap (fun b => replyTo b.message)

private theorem Idle.exchanged (h : Idle s₀) : Exchanged s₀ [] s₀ where
  isOpen := h.isOpen
  recievedBuffer := h.recievedBuffer
  plain := by simp [receivedMessages]
  queued := h.callbacksQueue
  sends := by
    refine ⟨{ done := s₀.ws.handed }, ⟨h.sendQueue, h.isSendBusy, h.writes, rfl⟩, ?_, ?_⟩
    · exact (List.append_nil _).symm
    · rfl

private theorem onRead_plain {data : Bytes} (hbuffer : s.recievedBuffer = [])
    (hopen : s.ws.isOpen = true) (hdata : PlainMessage data) :
    (s.readDone data).onRead operationCallbacks none =
      { s with
        ws := { s.ws with reads := s.ws.reads - 1 + 1 }
        recievedBuffer := []
        receivedMessagesQueue := { s.receivedMessagesQueue with
          callbacksQueue := s.receivedMessagesQueue.callbacksQueue ++ (route data).toList } } := by
  have hread : (s.readDone data).recievedBuffer = data := by simp [WsSession.readDone, hbuffer]
  have hlen : ¬data.length > WsSession.maxReceiveMsgSize :=
    Nat.not_lt.mpr (Nat.le_trans hdata.short (by decide))
  change (s.readDone data).processBuffer operationCallbacks = _
  rw [WsSession.processBuffer, hread, if_neg hdata.nonempty, if_neg hlen, handleIncomingData_eq]
  simp only [WsSession.readDone, hopen]
  rfl

private theorem Exchanged.received {data : Bytes} (hx : Exchanged s₀ h s) (hdata : data ≠ [])
    (hnul : 0 ∉ data)
    (hs : sessionStep operationCallbacks (Bound.call cv) (.received none data) s = some s') :
    Exchanged s₀ (h ++ [.received none data]) s' := by
  obtain ⟨⟨-, hshort⟩, rfl⟩ := step_received hs
  have hplain : PlainMessage data := ⟨hdata, hnul, hshort⟩
  rw [onRead_plain hx.recievedBuffer hx.isOpen hplain]
  refine ⟨hx.isOpen, rfl, ?_, ?_, ?_⟩
  · intro m hm
    simp only [receivedMessages_concat, SessionEvent.receivedMessage, Option.toList_some,
      List.mem_append, List.mem_singleton] at hm
    rcases hm with hm | rfl
    · exact hx.plain m hm
    · exact hplain
  · simp only [receivedMessages_concat, ranCallbacks_concat, List.filterMap_append, ← hx.queued]
    cases hroute : route data <;> simp [SessionEvent.receivedMessage, SessionEvent.ranCallback, hroute]
  · obtain ⟨o, hsends, hdone, hacc⟩ := hx.sends
    refine ⟨o, hsends.congr rfl, ?_, ?_⟩
    · simpa [SessionEvent.writtenMessage] using hdone
    · simpa [SessionEvent.ranCallback] using hacc

private theorem Exchanged.callback {b : Bound ServerCallback} (hx : Exchanged s₀ h s)
    (hs : sessionStep operationCallbacks (Bound.call cv) (.callback b) s = some s') :
    Exchanged s₀ (h ++ [.callback b]) s' := by
  obtain ⟨q, calls, htake, hcall, rfl⟩ := step_callback hs
  obtain ⟨-, hq, -⟩ := DispatchQueue.takeFront_eq_some.mp htake
  obtain ⟨m, hm, hroute⟩ : ∃ m ∈ receivedMessages h, route m = some b := by
    apply List.mem_filterMap.mp
    rw [← hx.queued, hq]
    simp
  have hreply := acceptedTexts_call (hx.plain m hm) hroute hcall
  rw [← (route_eq_some hroute).1] at hreply
  obtain ⟨o, hsends, hdone, hacc⟩ := hx.sends
  have hsends' : WsSession.Sends o { s with receivedMessagesQueue := q } := hsends.congr rfl
  obtain ⟨o', hs', hdone', hacc'⟩ := hsends'.foldl_sendCall calls
  obtain ⟨_, _, _, _, hframe⟩ := WsSession.sendFrame_foldl { s with receivedMessagesQueue := q } calls
  refine ⟨?_, ?_, ?_, ?_, o', hs', ?_, ?_⟩
  · rw [hframe]
    exact hx.isOpen
  · rw [hframe]
    exact hx.recievedBuffer
  · simpa [SessionEvent.receivedMessage] using hx.plain
  · rw [hframe]
    simpa [SessionEvent.receivedMessage, SessionEvent.ranCallback, hq] using hx.queued
  · simpa [SessionEvent.writtenMessage] using hdone'.trans hdone
  · simp [SessionEvent.ranCallback, hacc', hacc, hreply]

private theorem Exchanged.written {dp : Bytes} (hx : Exchanged s₀ h s)
    (hs : sessionStep operationCallbacks (Bound.call cv) (.written none dp) s = some s') :
    Exchanged s₀ (h ++ [.written none dp]) s' := by
  obtain ⟨hdp, rfl⟩ := step_written hs
  obtain ⟨o, hsends, hdone, hacc⟩ := hx.sends
  have hmem : dp ∈ o.writing := hsends.writes ▸ hdp
  have hframe : ((s.writeDone dp).onWrite none).ws.isOpen = s.ws.isOpen ∧
      ((s.writeDone dp).onWrite none).recievedBuffer = s.recievedBuffer ∧
      ((s.writeDone dp).onWrite none).receivedMessagesQueue = s.receivedMessagesQueue := by
    rcases WsSession.sendFrame_onWrite (s.writeDone dp) none with ⟨_, _, _, _, hframe⟩ | hframe
    · rw [hframe]
      exact ⟨rfl, rfl, rfl⟩
    · rw [hframe]
      exact ⟨rfl, rfl, rfl⟩
  obtain ⟨hopen, hbuffer, hqueue⟩ := hframe
  refine ⟨hopen.trans hx.isOpen, hbuffer.trans hx.recievedBuffer, ?_, ?_,
    o.finish, hsends.written hdp hx.isOpen, ?_, ?_⟩
  · simpa [SessionEvent.receivedMessage] using hx.plain
  · rw [hqueue]
    simpa [SessionEvent.receivedMessage, SessionEvent.ranCallback] using hx.queued
  · simp [SessionEvent.writtenMessage, Outbox.done_finish hmem, hdone]
  · simpa [SessionEvent.ranCallback, Outbox.accepted_finish] using hacc

private theorem Exchanged.step {e : SessionEvent ServerCallback} (hx : Exchanged s₀ h s)
    (he : e.Exchanges)
    (hs : sessionStep operationCallbacks (Bound.call cv) e s = some s') :
    Exchanged s₀ (h ++ [e]) s' := by
  cases e with
  | received ec data =>
    obtain ⟨rfl, hdata, hnul⟩ := he
    exact hx.received hdata hnul hs
  | callback b => exact hx.callback hs
  | written ec dp =>
    obtain rfl : ec = none := he
    exact hx.written hs
  | _ => exact absurd he id

theorem Exchanged.path {k : List (SessionEvent ServerCallback)} (hx : Exchanged s₀ h s)
    (hp : (sessionMachine operationCallbacks (Bound.call cv)).Path (fun _ e => e.Exchanges) s k s') :
    Exchanged s₀ (h ++ k) s' := by
  refine hp.invariant (fun k s => Exchanged s₀ (h ++ k) s) (by simpa using hx) ?_
  intro k t u e ht he hs
  rw [← List.append_assoc]
  exact ht.step he hs

/-- A session is a transducer: the callbacks run and the callbacks queued are
the routed messages, in order, and the messages written and the messages queued
are the replies to the callbacks run, in order. -/
theorem session_transduces (hidle : Idle s₀)
    (hp : (sessionMachine operationCallbacks (Bound.call cv)).Path
      (fun _ e => e.Exchanges) s₀ h s) :
    ranCallbacks h ++ s.receivedMessagesQueue.callbacksQueue = (receivedMessages h).filterMap route ∧
      writtenMessages h ++ s.sendQueue = (ranCallbacks h).flatMap (fun b => replyTo b.message) := by
  have hx : Exchanged s₀ h s := hidle.exchanged.path hp
  refine ⟨hx.queued, ?_⟩
  obtain ⟨o, hsends, hdone, hacc⟩ := hx.sends
  rw [Outbox.accepted, hdone, List.append_assoc, ← hsends.queue] at hacc
  exact List.append_cancel_left hacc

end

/-- A session of the server just after its handshake. -/
def serverSession : WsSession ServerCallback :=
  ((WsSession.runAsServer { id := [] } 0).setOpen true).acceptDone.onAccept none

/-- The message `0A`, bound to its callback. -/
def pingMessage : Bound ServerCallback := ⟨.ping, [48, 65], by decide⟩

/-- A ping, a message of one byte and an unknown opcode arrive; the ping runs and is written. -/
def pingHistory : List (SessionEvent ServerCallback) :=
  [.received none [48, 65], .received none [49], .callback pingMessage,
    .received none [57, 57], .written none [48, 65]]

theorem session_transduces_ping : ∃ s,
    (sessionMachine operationCallbacks (Bound.call wholeConversions)).run pingHistory serverSession =
      some s ∧
    ranCallbacks pingHistory ++ s.receivedMessagesQueue.callbacksQueue =
      (receivedMessages pingHistory).filterMap route ∧
    writtenMessages pingHistory ++ s.sendQueue =
      (ranCallbacks pingHistory).flatMap (fun b => replyTo b.message) := by
  have hidle : Idle serverSession := ⟨rfl, rfl, rfl, rfl, rfl, rfl⟩
  obtain ⟨s, hs⟩ : ∃ s, (sessionMachine operationCallbacks (Bound.call wholeConversions)).run
      pingHistory serverSession = some s := ⟨_, rfl⟩
  refine ⟨s, hs, session_transduces hidle (EventMachine.path_of_run hs ?_)⟩
  simp [pingHistory, SessionEvent.Exchanges]
end Boostander.Net
