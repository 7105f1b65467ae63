import Boostander.Library.EventMachine
import Boostander.Net.WsSession

/-! A session as an event machine. An event is the completion of an operation the session
started, a call from outside, or a change of the stream. The handlers run on the strand,
`send` and the callbacks on the main thread: that each is atomic is an assumption. -/
namespace Boostander.Net
open Algo Library

/-- What can happen to a session. An event carries what the outside observes of
it, so the calls made along a run can be read off its history. -/
inductive SessionEvent (γ : Type*) where
  | runAsServer (now : Nat)
  | runAsClient (now : Nat)
  /-- The handshake succeeds. -/
  | opened
  /-- The peer or a failed operation ends the stream. -/
  | closed
  | accepted (ec : Option ErrorCode)
  /-- A read completes, having added `data` to the buffer. -/
  | received (ec : Option ErrorCode) (data : Bytes)
  | written (ec : Option ErrorCode) (dp : Bytes)
  | pinged (ec : Option ErrorCode)
  /-- A ping, pong or close frame arrives. -/
  | control (now : Nat)
  /-- An armed wait completes, as the deadline passes or with an error; its handler is queued. -/
  | expired (ec : Option ErrorCode)
  | timer (ec : Option ErrorCode) (now : Nat)
  | send (call : SendCall)
  /-- The tick takes this callback from the queue and runs it. -/
  | callback (b : Bound γ)

namespace WsSession
variable {γ : Type*}

def setOpen (s : WsSession γ) (b : Bool) : WsSession γ := { s with ws := { s.ws with isOpen := b } }

/-- The stream has taken the accept, read, write or ping off its outstanding operations. -/
def acceptDone (s : WsSession γ) : WsSession γ :=
  { s with ws := { s.ws with accepts := s.ws.accepts - 1 } }

def readDone (s : WsSession γ) (data : Bytes) : WsSession γ :=
  { s with
    ws := { s.ws with reads := s.ws.reads - 1 }
    recievedBuffer := s.recievedBuffer ++ data }

def writeDone (s : WsSession γ) (dp : Bytes) : WsSession γ :=
  { s with ws := { s.ws with writes := s.ws.writes.erase dp } }

def pingDone (s : WsSession γ) : WsSession γ :=
  { s with ws := { s.ws with pings := s.ws.pings - 1 } }

def waitDone (s : WsSession γ) (ec : Option ErrorCode) : WsSession γ :=
  { s with timer := { s.timer with waits := s.timer.waits - 1, queued := s.timer.queued ++ [ec] } }

def timerDone (s : WsSession γ) (ec : Option ErrorCode) : WsSession γ :=
  { s with timer := { s.timer with queued := s.timer.queued.erase ec } }

/-- Run a callback that was taken from the queue. One that does not return
ends the process, so it has no successor. -/
def runCallback (exec : Bound γ → Except Fault (List SendCall)) (s : WsSession γ) (b : Bound γ) :
    Option (WsSession γ) :=
  match exec b with
  | .ok calls => some (calls.foldl sendCall s)
  | .error _ => none

end WsSession

section
variable {γ : Type*} [DecidableEq γ] (callbacks : WSInputCallbacks γ)
  (exec : Bound γ → Except Fault (List SendCall))

/-- The machine of a session of a server with the table `callbacks`. Reads and writes may
complete without an error even after `on_timer` has closed the socket. -/
def sessionStep : SessionEvent γ → WsSession γ → Option (WsSession γ)
  | .runAsServer now, s => some (s.runAsServer now)
  | .runAsClient now, s => some (s.runAsClient now)
  | .opened, s => some (s.setOpen true)
  | .closed, s => some (s.setOpen false)
  | .accepted ec, s => if 0 < s.ws.accepts then some (s.acceptDone.onAccept ec) else none
  | .received ec data, s =>
    if 0 < s.ws.reads ∧ data.length ≤ readMessageMax then
      some ((s.readDone data).onRead callbacks ec)
    else none
  | .written ec dp, s => if dp ∈ s.ws.writes then some ((s.writeDone dp).onWrite ec) else none
  | .pinged ec, s => if 0 < s.ws.pings then (s.pingDone.onPing ec).toOption else none
  | .control now, s => some (s.onControlCallback now)
  | .expired ec, s => if 0 < s.timer.waits then some (s.waitDone ec) else none
  | .timer ec now, s => if ec ∈ s.timer.queued then some ((s.timerDone ec).onTimer ec now) else none
  | .send call, s => some (s.sendCall call)
  | .callback b, s =>
    match s.receivedMessagesQueue.takeFront with
    | some (front, q) =>
      if front = b then WsSession.runCallback exec { s with receivedMessagesQueue := q } b else none
    | none => none

def sessionMachine : EventMachine (WsSession γ) (SessionEvent γ) := ⟨sessionStep callbacks exec⟩

variable {callbacks exec}

theorem session_run_concat {k : List (SessionEvent γ)} {e : SessionEvent γ} {s₀ s' : WsSession γ} :
    (sessionMachine callbacks exec).run (k ++ [e]) s₀ = some s' ↔
      ∃ s, (sessionMachine callbacks exec).run k s₀ = some s ∧
        sessionStep callbacks exec e s = some s' :=
  EventMachine.run_concat

private theorem of_guard {σ : Type*} {c : Prop} [Decidable c] {x y : σ}
    (h : (if c then some x else none) = some y) : c ∧ y = x := by
  obtain ⟨hc, hx⟩ := Option.ite_none_right_eq_some.mp h
  exact ⟨hc, (Option.some.inj hx).symm⟩

theorem step_accepted {ec : Option ErrorCode} {s s' : WsSession γ}
    (h : sessionStep callbacks exec (.accepted ec) s = some s') :
    0 < s.ws.accepts ∧ s' = s.acceptDone.onAccept ec :=
  of_guard h

theorem step_received {ec : Option ErrorCode} {data : Bytes} {s s' : WsSession γ}
    (h : sessionStep callbacks exec (.received ec data) s = some s') :
    (0 < s.ws.reads ∧ data.length ≤ readMessageMax) ∧
      s' = (s.readDone data).onRead callbacks ec :=
  of_guard h

theorem step_written {ec : Option ErrorCode} {dp : Bytes} {s s' : WsSession γ}
    (h : sessionStep callbacks exec (.written ec dp) s = some s') :
    dp ∈ s.ws.writes ∧ s' = (s.writeDone dp).onWrite ec :=
  of_guard h

theorem step_pinged {ec : Option ErrorCode} {s s' : WsSession γ}
    (h : sessionStep callbacks exec (.pinged ec) s = some s') :
    0 < s.ws.pings ∧ s.pingDone.onPing ec = .ok s' := by
  obtain ⟨hc, hping⟩ := Option.ite_none_right_eq_some.mp h
  refine ⟨hc, ?_⟩
  cases hok : s.pingDone.onPing ec with
  | error f => simp [hok, Except.toOption] at hping
  | ok t => simpa [hok, Except.toOption] using hping

theorem step_expired {ec : Option ErrorCode} {s s' : WsSession γ}
    (h : sessionStep callbacks exec (.expired ec) s = some s') :
    0 < s.timer.waits ∧ s' = s.waitDone ec :=
  of_guard h

theorem step_timer {ec : Option ErrorCode} {now : Nat} {s s' : WsSession γ}
    (h : sessionStep callbacks exec (.timer ec now) s = some s') :
    ec ∈ s.timer.queued ∧ s' = (s.timerDone ec).onTimer ec now :=
  of_guard h

theorem step_callback {b : Bound γ} {s s' : WsSession γ}
    (h : sessionStep callbacks exec (.callback b) s = some s') :
    ∃ q calls, s.receivedMessagesQueue.takeFront = some (b, q) ∧ exec b = .ok calls ∧
      s' = calls.foldl WsSession.sendCall { s with receivedMessagesQueue := q } := by
  simp only [sessionStep] at h
  split at h
  · rename_i front q hq
    split at h
    · rename_i hb
      subst hb
      unfold WsSession.runCallback at h
      split at h
      · rename_i calls hc
        exact ⟨q, calls, hq, hc, (Option.some.inj h).symm⟩
      · cases h
    · cases h
  · cases h

/-- The calls that start a session. Its creator makes one of them, once. -/
def SessionEvent.Starts : SessionEvent γ → Prop
  | .runAsServer _ => True
  | .runAsClient _ => True
  | _ => False

/-- The events of the watch over the connection. -/
def SessionEvent.Watches : SessionEvent γ → Prop
  | .pinged _ => True
  | .control _ => True
  | .expired _ => True
  | .timer _ _ => True
  | _ => False

theorem watchFrame_step {e : SessionEvent γ} {s s' : WsSession γ}
    (hs : sessionStep callbacks exec e s = some s') (he : e.Watches) : WsSession.WatchFrame s s' := by
  cases e with
  | pinged ec =>
    obtain ⟨-, hok⟩ := step_pinged hs
    have hdone : WsSession.WatchFrame s s.pingDone := ⟨_, _, _, _, _, rfl⟩
    exact hdone.trans (WsSession.watchFrame_onPing hok)
  | control now =>
    obtain rfl := Option.some.inj hs
    exact ⟨_, _, _, _, _, rfl⟩
  | expired ec =>
    obtain ⟨-, rfl⟩ := step_expired hs
    exact ⟨_, _, _, _, _, rfl⟩
  | timer ec now =>
    obtain ⟨-, rfl⟩ := step_timer hs
    have hdone : WsSession.WatchFrame s (s.timerDone ec) := ⟨_, _, _, _, _, rfl⟩
    exact hdone.trans (WsSession.watchFrame_onTimer _ ec now)
  | _ => exact absurd he id

end
end Boostander.Net
