import Boostander.Net.Inbox
import Boostander.Net.RowCount
import Boostander.Net.Watchdog

/-! The two sessions of one connection. A client and a server run the same code over a
stream that delivers, in order, what was handed to `async_write` at its other end. -/
namespace Boostander.Net
open Algo Library

section
variable {γ : Type*} {s s' : WsSession γ}

namespace WsSession

/-- What `send` has accepted and not handed to the stream. -/
def unsent (s : WsSession γ) : List Bytes :=
  if s.isSendBusy then s.sendQueue.tail else s.sendQueue

theorem Sends.handed_append_unsent {o : Outbox Bytes} (h : s.Sends o) :
    s.ws.handed ++ s.unsent = o.accepted := by
  rw [h.handed, unsent, h.busy, h.queue, Outbox.accepted]
  cases hphase : o.phase with
  | idle => simp [Outbox.handed, hphase]
  | writing =>
    obtain ⟨a, rest, hq⟩ := List.exists_cons_of_ne_nil (o.front (by simp [hphase]))
    simp [Outbox.handed, hphase, hq]
  | stalled =>
    obtain ⟨a, rest, hq⟩ := List.exists_cons_of_ne_nil (o.front (by simp [hphase]))
    simp [Outbox.handed, hphase, hq]

private theorem handed_send (s : WsSession γ) (ss : Bytes) :
    s.ws.handed <+: (s.send ss).ws.handed := by
  rw [send]
  split
  · exact List.prefix_rfl
  split
  · exact List.prefix_rfl
  dsimp only
  split
  · exact List.prefix_rfl
  split
  · exact List.prefix_append _ _
  · exact List.prefix_rfl

private theorem handed_foldl (s : WsSession γ) (calls : List SendCall) :
    s.ws.handed <+: (calls.foldl sendCall s).ws.handed := by
  induction calls generalizing s with
  | nil => exact List.prefix_rfl
  | cons call calls ih =>
    have hcall : s.ws.handed <+: (s.sendCall call).ws.handed := by
      cases call with
      | shared ss => exact handed_send s (cStr ss)
      | str ss => exact handed_send s ss
    exact hcall.trans (ih _)

private theorem handed_onWrite (s : WsSession γ) (ec : Option ErrorCode) :
    s.ws.handed <+: (s.onWrite ec).ws.handed := by
  rw [onWrite]
  split
  · exact List.prefix_rfl
  split
  · exact List.prefix_rfl
  split
  · exact List.prefix_rfl
  dsimp only
  split
  · exact List.prefix_append _ _
  · exact List.prefix_rfl

end WsSession
end

section
variable {γ : Type*} [DecidableEq γ] {callbacks : WSInputCallbacks γ}
  {exec : Bound γ → Except Fault (List SendCall)} {s s' : WsSession γ}

private theorem handed_step {e : SessionEvent γ} (hs : sessionStep callbacks exec e s = some s') :
    s.ws.handed <+: s'.ws.handed := by
  cases e with
  | send call =>
    obtain rfl := Option.some.inj hs
    exact WsSession.handed_foldl s [call]
  | callback b =>
    obtain ⟨q, calls, -, -, rfl⟩ := step_callback hs
    exact (WsSession.handed_foldl { s with receivedMessagesQueue := q } calls :)
  | written ec dp =>
    obtain ⟨-, rfl⟩ := step_written hs
    exact (WsSession.handed_onWrite (s.writeDone dp) ec :)
  | _ =>
    have hview : s'.sendView = s.sendView := by
      apply sendView_step hs <;> simp
    simp only [WsSession.sendView, Prod.mk.injEq] at hview
    rw [hview.2.2.2]

end

namespace SessionEvent
variable {γ : Type*}

/-- A read that fails leaves no part of a message in the buffer. -/
def Whole : SessionEvent γ → Prop
  | .received ec data => ec.isSome → data = []
  | _ => True

end SessionEvent

private theorem WsSession.recievedBuffer_processBuffer {s : WsSession ServerCallback}
    (hlen : s.recievedBuffer.length ≤ WsSession.maxReceiveMsgSize) :
    (s.processBuffer operationCallbacks).recievedBuffer = [] := by
  rw [WsSession.processBuffer]
  split
  · assumption
  rw [if_neg (Nat.not_lt.mpr hlen)]
  dsimp only
  split <;> rfl

section
variable {exec : Bound ServerCallback → Except Fault (List SendCall)}
  {s s' : WsSession ServerCallback} {h : List (SessionEvent ServerCallback)}

/-- The session `s` has gone through `h`: it has queued what it read and it has written
as an outbox that accepted what `send` accepted. -/
structure Relayed (exec : Bound ServerCallback → Except Fault (List SendCall))
    (h : List (SessionEvent ServerCallback)) (s : WsSession ServerCallback) : Prop where
  recievedBuffer : s.recievedBuffer = []
  short : ∀ m ∈ receivedMessages h, m.length ≤ readMessageMax
  queued : ranCallbacks h ++ s.receivedMessagesQueue.callbacksQueue =
    (receivedMessages h).filterMap route
  sends : ∃ o, s.Sends o ∧ o.accepted = acceptedSends exec h

theorem Relayed.sends_step {e : SessionEvent ServerCallback} (hx : Relayed exec h s)
    (hs : sessionStep operationCallbacks exec e s = some s') :
    ∃ o, s'.Sends o ∧ o.accepted = acceptedSends exec (h ++ [e]) := by
  obtain ⟨o, hsends, hacc⟩ := hx.sends
  obtain ⟨o', hsends', hacc'⟩ := Net.sends_step hsends hs
  refine ⟨o', hsends', ?_⟩
  rw [hacc', hacc, acceptedSends_concat]

private theorem Relayed.quiet {e : SessionEvent ServerCallback} (hx : Relayed exec h s)
    (hs : sessionStep operationCallbacks exec e s = some s') (hinbox : s'.inbox = s.inbox)
    (hread : e.receivedMessage = none) (hran : e.ranCallback = none) :
    Relayed exec (h ++ [e]) s' := by
  obtain ⟨hbuffer, hqueue⟩ := Prod.mk.injEq _ _ _ _ ▸ hinbox
  refine ⟨hbuffer.trans hx.recievedBuffer, ?_, ?_, hx.sends_step hs⟩
  · simpa [hread] using hx.short
  · rw [hqueue]
    simpa [hread, hran] using hx.queued

private theorem Relayed.received {data : Bytes} (hx : Relayed exec h s) (hdata : data ≠ [])
    (hs : sessionStep operationCallbacks exec (.received none data) s = some s') :
    Relayed exec (h ++ [.received none data]) s' := by
  have hsends := hx.sends_step hs
  obtain ⟨⟨-, hshort⟩, hs'⟩ := step_received hs
  have hbuffer : (s.readDone data).recievedBuffer = data := by
    simp [WsSession.readDone, hx.recievedBuffer]
  have hlen : (s.readDone data).recievedBuffer.length ≤ WsSession.maxReceiveMsgSize := by
    rw [hbuffer]
    exact hshort.trans (by decide)
  have hne : (s.readDone data).recievedBuffer ≠ [] := by
    rw [hbuffer]
    exact hdata
  have heq : s' = (s.readDone data).processBuffer operationCallbacks := hs'
  refine ⟨?_, ?_, ?_, hsends⟩
  · rw [heq]
    exact WsSession.recievedBuffer_processBuffer hlen
  · intro m hm
    simp only [receivedMessages_concat, SessionEvent.receivedMessage, Option.toList_some,
      List.mem_append, List.mem_singleton] at hm
    rcases hm with hm | rfl
    · exact hx.short m hm
    · exact hshort
  · rw [heq, callbacksQueue_processBuffer hne hlen, hbuffer]
    have hqueued := hx.queued
    simp only [receivedMessages_concat, ranCallbacks_concat, List.filterMap_append, ← hqueued]
    cases hroute : route data <;>
      simp [SessionEvent.receivedMessage, SessionEvent.ranCallback, hroute, WsSession.readDone]

private theorem Relayed.failed {ec : ErrorCode} (hx : Relayed exec h s)
    (hs : sessionStep operationCallbacks exec (.received (some ec) []) s = some s') :
    Relayed exec (h ++ [.received (some ec) []]) s' := by
  refine hx.quiet hs ?_ rfl rfl
  obtain ⟨-, rfl⟩ := step_received hs
  have hbuffer : (s.readDone []).recievedBuffer = [] := by
    simp [WsSession.readDone, hx.recievedBuffer]
  have hinbox : (s.readDone []).inbox = s.inbox := by
    simp [WsSession.inbox, WsSession.readDone]
  rw [← hinbox, WsSession.onRead]
  split
  · rfl
  split
  · rfl
  have hfail : (s.readDone []).onSessionFail.recievedBuffer = [] := hbuffer
  rw [if_pos (Option.isSome_some), WsSession.processBuffer, if_pos hfail]
  rfl

private theorem Relayed.callback {b : Bound ServerCallback} (hx : Relayed exec h s)
    (hs : sessionStep operationCallbacks exec (.callback b) s = some s') :
    Relayed exec (h ++ [.callback b]) s' := by
  have hsends := hx.sends_step hs
  obtain ⟨q, calls, htake, -, rfl⟩ := step_callback hs
  obtain ⟨-, hq, -⟩ := DispatchQueue.takeFront_eq_some.mp htake
  have hinbox := WsSession.inbox_of_sendFrame
    (WsSession.sendFrame_foldl { s with receivedMessagesQueue := q } calls)
  obtain ⟨hbuffer, hqueue⟩ := Prod.mk.injEq _ _ _ _ ▸ hinbox
  refine ⟨hbuffer.trans hx.recievedBuffer, ?_, ?_, hsends⟩
  · simpa [SessionEvent.receivedMessage] using hx.short
  · rw [hqueue]
    simpa [SessionEvent.receivedMessage, SessionEvent.ranCallback, hq] using hx.queued

theorem Relayed.step {e : SessionEvent ServerCallback} (hx : Relayed exec h s)
    (hs : sessionStep operationCallbacks exec e s = some s') (hwhole : e.Whole)
    (hne : ∀ data, e.receivedMessage = some data → data ≠ []) : Relayed exec (h ++ [e]) s' := by
  cases e with
  | received ec data =>
    cases ec with
    | none => exact hx.received (hne data rfl) hs
    | some ec =>
      obtain rfl : data = [] := hwhole rfl
      exact hx.failed hs
  | callback b => exact hx.callback hs
  | _ => exact hx.quiet hs (inbox_step hs rfl rfl) rfl rfl

theorem Relayed.mem_received {b : Bound ServerCallback} (hx : Relayed exec h s)
    (hb : b ∈ ranCallbacks h ++ s.receivedMessagesQueue.callbacksQueue) :
    b.message ∈ receivedMessages h ∧ route b.message = some b := by
  rw [hx.queued] at hb
  obtain ⟨m, hm, hroute⟩ := List.mem_filterMap.mp hb
  rw [(route_eq_some hroute).1]
  exact ⟨hm, hroute⟩

end

/-- The programs at the two ends of a connection. -/
inductive Side where
  | client
  | server
  deriving DecidableEq, Repr

def Side.peer : Side → Side
  | .client => .server
  | .server => .client

@[simp] theorem Side.peer_peer (side : Side) : side.peer.peer = side := by
  cases side <;> rfl

@[simp] theorem Side.peer_ne (side : Side) : side.peer ≠ side := by
  cases side <;> decide

theorem Side.eq_or_eq_peer (a b : Side) : b = a ∨ b = a.peer := by
  cases a <;> cases b <;> simp [Side.peer]

/-- Two connected sessions, and the messages each of them has read so far. -/
structure Duplex where
  ends : Side → WsSession ServerCallback
  taken : Side → List Bytes

/-- Something happens to the session of one side. -/
structure LinkEvent where
  side : Side
  event : SessionEvent ServerCallback

namespace Duplex

/-- A connection after the handshake, before anything is sent. -/
def connected (clientId serverId : Bytes) (clientNow serverNow : Nat) : Duplex where
  ends
    | .client => ((WsSession.created clientId).setOpen true).runAsClient clientNow
    | .server =>
      (((WsSession.created serverId).runAsServer serverNow).setOpen true).acceptDone.onAccept none
  taken _ := []

/-- The stream lets a read succeed with the next message that the peer handed to it. -/
def delivers (d : Duplex) (side : Side) (e : SessionEvent ServerCallback) : Bool :=
  e.receivedMessage.all fun data =>
    (d.taken side ++ [data]).isPrefixOf (d.ends side.peer).ws.handed

def put (d : Duplex) (e : LinkEvent) (s : WsSession ServerCallback) : Duplex where
  ends := Function.update d.ends e.side s
  taken := Function.update d.taken e.side (d.taken e.side ++ e.event.receivedMessage.toList)

@[simp] theorem put_ends (d : Duplex) (e : LinkEvent) (s : WsSession ServerCallback) :
    (d.put e s).ends e.side = s :=
  Function.update_self ..

@[simp] theorem put_ends_peer (d : Duplex) (e : LinkEvent) (s : WsSession ServerCallback) :
    (d.put e s).ends e.side.peer = d.ends e.side.peer :=
  Function.update_of_ne (Side.peer_ne e.side) ..

@[simp] theorem put_taken (d : Duplex) (e : LinkEvent) (s : WsSession ServerCallback) :
    (d.put e s).taken e.side = d.taken e.side ++ e.event.receivedMessage.toList :=
  Function.update_self ..

@[simp] theorem put_taken_peer (d : Duplex) (e : LinkEvent) (s : WsSession ServerCallback) :
    (d.put e s).taken e.side.peer = d.taken e.side.peer :=
  Function.update_of_ne (Side.peer_ne e.side) ..

/-- What the peer's `send` has accepted and `side` has not read, in order. -/
def inFlight (d : Duplex) (side : Side) : List Bytes :=
  (d.ends side.peer).ws.handed.drop (d.taken side).length ++ (d.ends side.peer).unsent

end Duplex

def eventsOf (side : Side) (h : List LinkEvent) : List (SessionEvent ServerCallback) :=
  h.filterMap fun e => if e.side = side then some e.event else none

theorem eventsOf_concat (h : List LinkEvent) (e : LinkEvent) :
    eventsOf e.side (h ++ [e]) = eventsOf e.side h ++ [e.event] := by
  simp [eventsOf]

theorem eventsOf_concat_peer (h : List LinkEvent) (e : LinkEvent) :
    eventsOf e.side.peer (h ++ [e]) = eventsOf e.side.peer h := by
  simp [eventsOf, (Side.peer_ne e.side).symm]

section
variable (exec : Side → Bound ServerCallback → Except Fault (List SendCall))

/-- The machine of a connection whose sides run callbacks by `exec`. -/
def linkStep (e : LinkEvent) (d : Duplex) : Option Duplex :=
  if d.delivers e.side e.event then
    (sessionStep operationCallbacks (exec e.side) e.event (d.ends e.side)).map (d.put e)
  else none

def linkMachine : EventMachine Duplex LinkEvent := ⟨linkStep exec⟩

variable {exec} {d d' : Duplex} {e : LinkEvent} {h : List LinkEvent}

theorem link_step (hs : linkStep exec e d = some d') :
    (∀ data, e.event.receivedMessage = some data →
        d.taken e.side ++ [data] <+: (d.ends e.side.peer).ws.handed) ∧
      ∃ s, sessionStep operationCallbacks (exec e.side) e.event (d.ends e.side) = some s ∧
        d' = d.put e s := by
  obtain ⟨hdelivers, hs⟩ := Option.ite_none_right_eq_some.mp hs
  obtain ⟨s, hsession, rfl⟩ := Option.map_eq_some_iff.mp hs
  refine ⟨?_, s, hsession, rfl⟩
  intro data hdata
  rw [Duplex.delivers, hdata] at hdelivers
  exact List.isPrefixOf_iff_prefix.mp hdelivers

/-- What the two ends of a connection have gone through. -/
structure Linked (exec : Side → Bound ServerCallback → Except Fault (List SendCall))
    (h : List LinkEvent) (d : Duplex) (side : Side) : Prop where
  relayed : Relayed (exec side) (eventsOf side h) (d.ends side)
  taken : d.taken side = receivedMessages (eventsOf side h)
  delivered : d.taken side <+: (d.ends side.peer).ws.handed

theorem linked_connected (clientId serverId : Bytes) (clientNow serverNow : Nat) (side : Side) :
    Linked exec [] (.connected clientId serverId clientNow serverNow) side := by
  cases side with
  | client =>
    exact ⟨⟨rfl, fun m hm => absurd hm List.not_mem_nil, rfl, {}, ⟨rfl, rfl, rfl, rfl⟩, rfl⟩, rfl,
      List.nil_prefix⟩
  | server =>
    exact ⟨⟨rfl, fun m hm => absurd hm List.not_mem_nil, rfl, {}, ⟨rfl, rfl, rfl, rfl⟩, rfl⟩, rfl,
      List.nil_prefix⟩

theorem Linked.handed {side : Side} (hx : Linked exec h d side) :
    (d.ends side).ws.handed ++ (d.ends side).unsent = acceptedSends (exec side) (eventsOf side h) := by
  obtain ⟨o, hsends, hacc⟩ := hx.relayed.sends
  rw [hsends.handed_append_unsent, hacc]

theorem sendable_of_mem_acceptedSends {f : Bound ServerCallback → Except Fault (List SendCall)}
    {k : List (SessionEvent ServerCallback)} {m : Bytes} (hm : m ∈ acceptedSends f k) : Sendable m := by
  have hfilter := (List.mem_filter.mp hm).2
  exact of_decide_eq_true hfilter

theorem Linked.ne_nil (hx : ∀ side, Linked exec h d side) {side : Side} {data : Bytes}
    (hdata : d.taken side ++ [data] <+: (d.ends side.peer).ws.handed) : data ≠ [] := by
  have hmem : data ∈ acceptedSends (exec side.peer) (eventsOf side.peer h) := by
    rw [← (hx side.peer).handed]
    apply List.mem_append_left
    exact hdata.subset (by simp)
  exact (sendable_of_mem_acceptedSends hmem).1

theorem linked_step (hx : ∀ side, Linked exec h d side) (hs : linkStep exec e d = some d')
    (hwhole : e.event.Whole) (side : Side) : Linked exec (h ++ [e]) d' side := by
  obtain ⟨hdelivers, s, hsession, rfl⟩ := link_step hs
  have hne : ∀ data, e.event.receivedMessage = some data → data ≠ [] := fun data hdata =>
    Linked.ne_nil hx (hdelivers data hdata)
  rcases e.side.eq_or_eq_peer side with rfl | rfl
  · refine ⟨?_, ?_, ?_⟩
    · rw [eventsOf_concat, Duplex.put_ends]
      exact (hx e.side).relayed.step hsession hwhole hne
    · rw [eventsOf_concat, Duplex.put_taken, receivedMessages_concat, (hx e.side).taken]
    · rw [Duplex.put_taken, Duplex.put_ends_peer]
      cases hdata : e.event.receivedMessage with
      | none => simpa using (hx e.side).delivered
      | some data => exact hdelivers data hdata
  · refine ⟨?_, ?_, ?_⟩
    · rw [eventsOf_concat_peer, Duplex.put_ends_peer]
      exact (hx e.side.peer).relayed
    · rw [eventsOf_concat_peer, Duplex.put_taken_peer]
      exact (hx e.side.peer).taken
    · have hdelivered := (hx e.side.peer).delivered
      rw [Side.peer_peer] at hdelivered
      rw [Duplex.put_taken_peer, Side.peer_peer, Duplex.put_ends]
      exact hdelivered.trans (handed_step hsession)

private theorem linked_run {d₀ : Duplex} (h₀ : ∀ side, Linked exec [] d₀ side)
    (hr : (linkMachine exec).run h d₀ = some d) (hwhole : ∀ e ∈ h, e.event.Whole) (side : Side) :
    Linked exec h d side := by
  have hall : ∀ side, Linked exec h d side := by
    apply (EventMachine.path_of_run hr hwhole).invariant fun h d => ∀ side, Linked exec h d side
    · exact h₀
    · intro h u v e hu he hstep
      have hs : linkStep exec e u = some v := hstep
      exact linked_step hu hs he
  exact hall side

theorem Linked.conserved {side : Side} (hx : Linked exec h d side) (hpeer : Linked exec h d side.peer) :
    d.taken side ++ d.inFlight side = acceptedSends (exec side.peer) (eventsOf side.peer h) := by
  rw [← hpeer.handed, Duplex.inFlight, ← List.append_assoc,
    List.prefix_iff_eq_append.mp hx.delivered]

/-- Whatever fails on the way, if a failed read leaves no partial message, each side has
read a first part of what the other side's `send` accepted, in order and once, the rest is
still under way, and the callbacks that ran and that wait are those of the messages read,
in their order. -/
theorem link_delivers {clientId serverId : Bytes} {clientNow serverNow : Nat}
    (hr : (linkMachine exec).run h (.connected clientId serverId clientNow serverNow) = some d)
    (hwhole : ∀ e ∈ h, e.event.Whole) (side : Side) :
    ranCallbacks (eventsOf side h) ++ (d.ends side).receivedMessagesQueue.callbacksQueue =
        (d.taken side).filterMap route ∧
      d.taken side ++ d.inFlight side = acceptedSends (exec side.peer) (eventsOf side.peer h) := by
  have hall := linked_run (linked_connected clientId serverId clientNow serverNow) hr hwhole
  have hx := hall side
  refine ⟨?_, hx.conserved (hall side.peer)⟩
  rw [hx.taken]
  exact hx.relayed.queued

end

/-- The message `0D`, bound to its callback. -/
def bouncingPing : Bound ServerCallback := ⟨.ping, [48, 68], by decide⟩

/-- The client sends a ping, the server reads it before the client hears of its write
and sends it back, and then the client's write fails. -/
def bouncingHistory : List LinkEvent :=
  [⟨.client, .send (.shared [48, 68])⟩, ⟨.server, .received none [48, 68]⟩,
    ⟨.server, .callback bouncingPing⟩, ⟨.client, .received none [48, 68]⟩,
    ⟨.client, .written (some (.other 32)) [48, 68]⟩, ⟨.client, .send (.str [49, 65])⟩]

theorem link_delivers_bouncing : ∃ d,
    (linkMachine fun _ => Bound.call wholeConversions).run bouncingHistory
      (.connected [1] [2] 0 0) = some d ∧
    ranCallbacks (eventsOf .server bouncingHistory) ++
        (d.ends .server).receivedMessagesQueue.callbacksQueue = (d.taken .server).filterMap route ∧
    d.taken .server ++ d.inFlight .server =
      acceptedSends (Bound.call wholeConversions) (eventsOf .client bouncingHistory) := by
  obtain ⟨d, hd⟩ : ∃ d, (linkMachine fun _ => Bound.call wholeConversions).run bouncingHistory
      (.connected [1] [2] 0 0) = some d := ⟨_, rfl⟩
  refine ⟨d, hd, link_delivers hd ?_ .server⟩
  simp [bouncingHistory, SessionEvent.Whole]

end Boostander.Net
