import Boostander.Algo.DispatchQueue
import Boostander.Algo.NetworkOperation

/-! One WebSocket session, `net/websockets/WsSession.cpp`. Each handler of the
source is a function on the session; the operations it starts on the stream and
on the timer are recorded in their states, and their completions are events. -/
namespace Boostander.Net
open Algo

/-- Error codes, as far as the handlers tell them apart. -/
inductive ErrorCode where
  | operationAborted
  /-- `websocket::error::closed`. -/
  | closed
  | other (value : Nat)
  deriving DecidableEq, Repr

inductive PingState where
  | alive
  | sending
  | sent
  deriving DecidableEq, Repr

/-- A message bound to the callback its operation code selects. Only messages
that are long enough to carry an operation code and a payload are ever bound. -/
structure Bound (γ : Type*) where
  callback : γ
  message : Bytes
  long : 2 ≤ message.length
  deriving DecidableEq

/-- The stream `ws_`: the operations started and not completed, and every
message that was ever handed to `async_write`. The TCP socket below it can be
closed before the stream notices. -/
structure WsStream where
  isOpen : Bool := false
  socketOpen : Bool := true
  accepts : Nat := 0
  reads : Nat := 0
  writes : List Bytes := []
  pings : Nat := 0
  handed : List Bytes := []
  deriving DecidableEq, Repr

namespace WsStream

def asyncAccept (ws : WsStream) : WsStream := { ws with accepts := ws.accepts + 1 }
def asyncRead (ws : WsStream) : WsStream := { ws with reads := ws.reads + 1 }
def asyncPing (ws : WsStream) : WsStream := { ws with pings := ws.pings + 1 }

def asyncWrite (ws : WsStream) (dp : Bytes) : WsStream :=
  { ws with writes := ws.writes ++ [dp], handed := ws.handed ++ [dp] }

end WsStream

/-- `steady_timer`: the deadline, `none` for `time_point::max`, the waits armed
on it, and the completed waits whose handler has still to run. -/
structure SteadyTimer where
  expiry : Option Nat := none
  waits : Nat := 0
  queued : List (Option ErrorCode) := []
  deriving DecidableEq, Repr

/-- `WS_PING_FREQUENCY_SEC`, in ticks of the steady clock. -/
def wsPingFrequency : Nat := 15 * 10^9

namespace SteadyTimer

/-- Moving the deadline cancels the waits that are armed. -/
def expiresAfter (timer : SteadyTimer) (now : Nat) : SteadyTimer :=
  { expiry := some (now + wsPingFrequency)
    waits := 0
    queued := timer.queued ++ List.replicate timer.waits (some .operationAborted) }

def asyncWait (timer : SteadyTimer) : SteadyTimer := { timer with waits := timer.waits + 1 }

def expired (timer : SteadyTimer) (now : Nat) : Bool := timer.expiry.any (· ≤ now)

end SteadyTimer

/-- A session. `registered` says whether the server's map still holds it. -/
structure WsSession (γ : Type*) where
  id : Bytes
  isFullyCreated : Bool := false
  ws : WsStream := {}
  recievedBuffer : Bytes := []
  timer : SteadyTimer := {}
  isSendBusy : Bool := false
  sendQueue : List Bytes := []
  pingState : PingState := .alive
  receivedMessagesQueue : DispatchQueue (Bound γ) := { threads := 0 }
  registered : Bool := false

/-- A call of one of the two overloads of `send`. -/
inductive SendCall where
  | shared (ss : Bytes)
  | str (ss : Bytes)
  deriving DecidableEq, Repr

namespace WsSession
variable {γ : Type*}

def maxReceiveMsgSize : Nat := 1024 * 1024 * 1024
def maxSendMsgSize : Nat := 1024 * 1024 * 1024

/-- The session is taken out of the server's map. -/
def onSessionFail (s : WsSession γ) : WsSession γ := { s with registered := false }

def doRead (s : WsSession γ) : WsSession γ := { s with ws := s.ws.asyncRead }

def send (s : WsSession γ) (ss : Bytes) : WsSession γ :=
  if ss = [] then s
  else if ss.length > maxSendMsgSize then s
  else
    let s := { s with sendQueue := s.sendQueue ++ [ss] }
    if !s.ws.isOpen then s
    else match s.isSendBusy, s.sendQueue with
      | false, dp :: _ => { s with isSendBusy := true, ws := s.ws.asyncWrite dp }
      | _, _ => s

/-- `send(std::shared_ptr<std::string>)` passes a `const char*` on. -/
def sendShared (s : WsSession γ) (ss : Bytes) : WsSession γ := s.send (cStr ss)

def sendCall (s : WsSession γ) : SendCall → WsSession γ
  | .shared ss => s.sendShared ss
  | .str ss => s.send ss

def onWrite (s : WsSession γ) (ec : Option ErrorCode) : WsSession γ :=
  if ec = some .operationAborted then s
  else if ec.isSome then s.onSessionFail
  else if !s.ws.isOpen then s
  else
    let s := { s with sendQueue := s.sendQueue.tail }
    match s.sendQueue with
    | dp :: _ => { s with ws := s.ws.asyncWrite dp }
    | [] => { s with isSendBusy := false }

/-- Bind a message to its callback and queue it. The result says whether the
message can be processed. The check of `typeStr` only logs and is left out. -/
def handleIncomingData (callbacks : WSInputCallbacks γ) (s : WsSession γ) (message : Bytes) :
    Bool × WsSession γ :=
  if h : message.length < 2 then (false, s)
  else match callbacks.find { operationCode := wsOpcodeFromStr (cStr message) } with
    | some callback =>
      (true, { s with receivedMessagesQueue :=
        s.receivedMessagesQueue.dispatch ⟨callback, message, Nat.le_of_not_lt h⟩ })
    | none => (false, s)

/-- The part of `on_read` after its error checks, on the buffer the read left.
An empty or too big buffer is neither consumed nor followed by another read. -/
def processBuffer (callbacks : WSInputCallbacks γ) (s : WsSession γ) : WsSession γ :=
  if s.recievedBuffer = [] then s
  else if s.recievedBuffer.length > maxReceiveMsgSize then s
  else
    let s := { (s.handleIncomingData callbacks s.recievedBuffer).2 with recievedBuffer := [] }
    if !s.ws.isOpen then s else s.doRead

/-- After a failure other than an abort or a close the handler goes on, as in the source. -/
def onRead (callbacks : WSInputCallbacks γ) (s : WsSession γ) (ec : Option ErrorCode) :
    WsSession γ :=
  if ec = some .operationAborted then s
  else if ec = some .closed then s
  else if ec.isSome then s.onSessionFail.processBuffer callbacks
  else s.processBuffer callbacks

def onAccept (s : WsSession γ) (ec : Option ErrorCode) : WsSession γ :=
  if ec = some .operationAborted then s
  else if ec.isSome then s.onSessionFail
  else doRead { s with isFullyCreated := true }

def onRemoteActivity (s : WsSession γ) (now : Nat) : WsSession γ :=
  { s with pingState := .alive, timer := s.timer.expiresAfter now }

def onControlCallback (s : WsSession γ) (now : Nat) : WsSession γ := s.onRemoteActivity now

def onPing (s : WsSession γ) (ec : Option ErrorCode) : Except Fault (WsSession γ) :=
  if ec = some .operationAborted then .ok s
  else if ec.isSome then .ok s.onSessionFail
  else match s.pingState with
    | .sending => .ok { s with pingState := .sent }
    | .alive => .ok s
    | .sent => .error .assertFailed

def onTimer (s : WsSession γ) (ec : Option ErrorCode) (now : Nat) : WsSession γ :=
  if ec.isSome ∧ ec ≠ some .operationAborted then s.onSessionFail
  else if s.timer.expired now then
    if s.ws.isOpen ∧ s.pingState = .alive then
      { s with
        pingState := .sending
        timer := (s.timer.expiresAfter now).asyncWait
        ws := s.ws.asyncPing }
    else onSessionFail { s with ws := { s.ws with socketOpen := false } }
  else { s with timer := s.timer.asyncWait }

/-- The common start of `runAsServer` and `runAsClient`. -/
def startTimer (s : WsSession γ) (now : Nat) : WsSession γ :=
  let s := s.onTimer none now
  { s with timer := s.timer.expiresAfter now }

def runAsServer (s : WsSession γ) (now : Nat) : WsSession γ :=
  let s := s.startTimer now
  { s with ws := s.ws.asyncAccept }

def runAsClient (s : WsSession γ) (now : Nat) : WsSession γ :=
  doRead { s.startTimer now with isFullyCreated := true }

/-- The sessions that differ from `s` at most in what is being sent. -/
def SendFrame (s s' : WsSession γ) : Prop :=
  ∃ sendQueue isSendBusy writes handed,
    s' = { s with
      sendQueue := sendQueue
      isSendBusy := isSendBusy
      ws := { s.ws with writes := writes, handed := handed } }

theorem SendFrame.refl (s : WsSession γ) : SendFrame s s := ⟨_, _, _, _, rfl⟩

private theorem SendFrame.trans {s t u : WsSession γ} (h : SendFrame s t) (k : SendFrame t u) :
    SendFrame s u := by
  obtain ⟨_, _, _, _, rfl⟩ := h
  obtain ⟨_, _, _, _, rfl⟩ := k
  exact ⟨_, _, _, _, rfl⟩

theorem sendFrame_send (s : WsSession γ) (ss : Bytes) : SendFrame s (s.send ss) := by
  rw [send]
  split
  · exact .refl s
  split
  · exact .refl s
  dsimp only
  split
  · exact ⟨_, _, _, _, rfl⟩
  split <;> exact ⟨_, _, _, _, rfl⟩

theorem sendFrame_foldl (s : WsSession γ) (calls : List SendCall) :
    SendFrame s (calls.foldl sendCall s) := by
  induction calls generalizing s with
  | nil => exact .refl s
  | cons call calls ih =>
    have hcall : SendFrame s (s.sendCall call) := by
      cases call with
      | shared ss => exact sendFrame_send s (cStr ss)
      | str ss => exact sendFrame_send s ss
    exact hcall.trans (ih _)

/-- A write completion touches what is being sent, and a failed one the registration. -/
theorem sendFrame_onWrite (s : WsSession γ) (ec : Option ErrorCode) :
    SendFrame s (s.onWrite ec) ∨ s.onWrite ec = s.onSessionFail := by
  rw [onWrite]
  split
  · exact Or.inl (.refl s)
  split
  · exact Or.inr rfl
  split
  · exact Or.inl (.refl s)
  dsimp only
  split <;> exact Or.inl ⟨_, _, _, _, rfl⟩

/-- The sessions that differ from `s` at most in what is being received, and are
registered only if `s` is. -/
def ReadFrame (s s' : WsSession γ) : Prop :=
  ∃ isFullyCreated reads recievedBuffer receivedMessagesQueue registered,
    s' = { s with
      isFullyCreated := isFullyCreated
      ws := { s.ws with reads := reads }
      recievedBuffer := recievedBuffer
      receivedMessagesQueue := receivedMessagesQueue
      registered := registered } ∧
    (registered = true → s.registered = true)

private theorem ReadFrame.refl (s : WsSession γ) : ReadFrame s s := ⟨_, _, _, _, _, rfl, fun h => h⟩

theorem readFrame_onSessionFail (s : WsSession γ) : ReadFrame s s.onSessionFail :=
  ⟨_, _, _, _, _, rfl, fun h => absurd h (by decide)⟩

private theorem ReadFrame.trans {s t u : WsSession γ} (h : ReadFrame s t) (k : ReadFrame t u) :
    ReadFrame s u := by
  obtain ⟨_, _, _, _, _, rfl, hs⟩ := h
  obtain ⟨_, _, _, _, _, rfl, ht⟩ := k
  exact ⟨_, _, _, _, _, rfl, fun hu => hs (ht hu)⟩

private theorem readFrame_handleIncomingData (callbacks : WSInputCallbacks γ) (s : WsSession γ)
    (message : Bytes) : ReadFrame s (s.handleIncomingData callbacks message).2 := by
  rw [handleIncomingData]
  split
  · exact .refl s
  split
  · exact ⟨_, _, _, _, _, rfl, fun h => h⟩
  · exact .refl s

theorem readFrame_processBuffer (callbacks : WSInputCallbacks γ) (s : WsSession γ) :
    ReadFrame s (s.processBuffer callbacks) := by
  rw [processBuffer]
  split
  · exact .refl s
  split
  · exact .refl s
  have hdata := readFrame_handleIncomingData callbacks s s.recievedBuffer
  dsimp only
  split
  · exact hdata.trans ⟨_, _, _, _, _, rfl, fun h => h⟩
  · exact hdata.trans ⟨_, _, _, _, _, rfl, fun h => h⟩

theorem readFrame_onRead (callbacks : WSInputCallbacks γ) (s : WsSession γ)
    (ec : Option ErrorCode) : ReadFrame s (s.onRead callbacks ec) := by
  rw [onRead]
  split
  · exact .refl s
  split
  · exact .refl s
  split
  · exact (readFrame_onSessionFail s).trans (readFrame_processBuffer callbacks _)
  · exact readFrame_processBuffer callbacks s

theorem readFrame_onAccept (s : WsSession γ) (ec : Option ErrorCode) :
    ReadFrame s (s.onAccept ec) := by
  rw [onAccept]
  split
  · exact .refl s
  split
  · exact readFrame_onSessionFail s
  · exact ⟨_, _, _, _, _, rfl, fun h => h⟩

/-- The sessions that differ from `s` at most in what watches over the connection. -/
def WatchFrame (s s' : WsSession γ) : Prop :=
  ∃ pingState timer registered pings socketOpen,
    s' = { s with
      pingState := pingState
      timer := timer
      registered := registered
      ws := { s.ws with pings := pings, socketOpen := socketOpen } }

theorem WatchFrame.trans {s t u : WsSession γ} (h : WatchFrame s t) (k : WatchFrame t u) :
    WatchFrame s u := by
  obtain ⟨_, _, _, _, _, rfl⟩ := h
  obtain ⟨_, _, _, _, _, rfl⟩ := k
  exact ⟨_, _, _, _, _, rfl⟩

theorem watchFrame_onTimer (s : WsSession γ) (ec : Option ErrorCode) (now : Nat) :
    WatchFrame s (s.onTimer ec now) := by
  rw [onTimer]
  split
  · exact ⟨_, _, _, _, _, rfl⟩
  split
  · split <;> exact ⟨_, _, _, _, _, rfl⟩
  · exact ⟨_, _, _, _, _, rfl⟩

theorem watchFrame_startTimer (s : WsSession γ) (now : Nat) : WatchFrame s (s.startTimer now) :=
  (watchFrame_onTimer s none now).trans ⟨_, _, _, _, _, rfl⟩

theorem watchFrame_onPing {s s' : WsSession γ} {ec : Option ErrorCode} (h : s.onPing ec = .ok s') :
    WatchFrame s s' := by
  rw [onPing] at h
  split at h
  · obtain rfl := Except.ok.inj h
    exact ⟨_, _, _, _, _, rfl⟩
  split at h
  · obtain rfl := Except.ok.inj h
    exact ⟨_, _, _, _, _, rfl⟩
  split at h
  · obtain rfl := Except.ok.inj h
    exact ⟨_, _, _, _, _, rfl⟩
  · obtain rfl := Except.ok.inj h
    exact ⟨_, _, _, _, _, rfl⟩
  · cases h

end WsSession
end Boostander.Net
