import Boostander.Library.Outbox
import Boostander.Net.SessionMachine

/-! The outgoing side of a session. Whatever else happens to it, a session
writes like an outbox: one message at a time, in the order `send` accepted them. -/
namespace Boostander.Net
open Algo Library

/-- The text a call of `send` passes on. -/
def SendCall.text : SendCall → Bytes
  | .shared ss => cStr ss
  | .str ss => ss

/-- The texts `send` puts on its queue. -/
def Sendable (ss : Bytes) : Prop := ss ≠ [] ∧ ss.length ≤ WsSession.maxSendMsgSize

instance (ss : Bytes) : Decidable (Sendable ss) := inferInstanceAs (Decidable (_ ∧ _))

/-- The messages `send` accepts from a sequence of calls. -/
def acceptedTexts (calls : List SendCall) : List Bytes :=
  (calls.map SendCall.text).filter (fun ss => decide (Sendable ss))

section
variable {γ : Type*} (exec : Bound γ → Except Fault (List SendCall))

def callsOf (b : Bound γ) : List SendCall :=
  match exec b with
  | .ok calls => calls
  | .error _ => []

theorem callsOf_eq {exec : Bound γ → Except Fault (List SendCall)} {b : Bound γ}
    {calls : List SendCall} (h : exec b = .ok calls) : callsOf exec b = calls := by
  simp [callsOf, h]

def SessionEvent.calls : SessionEvent γ → List SendCall
  | .send call => [call]
  | .callback b => callsOf exec b
  | _ => []

/-- The messages accepted by `send` along a history. -/
def acceptedSends (h : List (SessionEvent γ)) : List Bytes :=
  acceptedTexts (h.flatMap (SessionEvent.calls exec))

theorem acceptedTexts_append (k l : List SendCall) :
    acceptedTexts (k ++ l) = acceptedTexts k ++ acceptedTexts l := by
  simp [acceptedTexts]

theorem acceptedSends_concat (h : List (SessionEvent γ)) (e : SessionEvent γ) :
    acceptedSends exec (h ++ [e]) = acceptedSends exec h ++ acceptedTexts (e.calls exec) := by
  simp [acceptedSends, acceptedTexts_append]

end

namespace WsSession
variable {γ : Type*}

def sendView (s : WsSession γ) : List Bytes × Bool × List Bytes × List Bytes :=
  (s.sendQueue, s.isSendBusy, s.ws.writes, s.ws.handed)

private theorem sendView_of_watchFrame {s s' : WsSession γ} (h : WatchFrame s s') :
    s'.sendView = s.sendView := by
  obtain ⟨_, _, _, _, _, rfl⟩ := h
  rfl

theorem sendView_runAsServer (s : WsSession γ) (now : Nat) :
    (s.runAsServer now).sendView = s.sendView := by
  have hstart := sendView_of_watchFrame (watchFrame_startTimer s now)
  exact hstart

theorem sendView_runAsClient (s : WsSession γ) (now : Nat) :
    (s.runAsClient now).sendView = s.sendView := by
  have hstart := sendView_of_watchFrame (watchFrame_startTimer s now)
  exact hstart

private theorem sendView_of_readFrame {s s' : WsSession γ} (h : ReadFrame s s') :
    s'.sendView = s.sendView := by
  obtain ⟨_, _, _, _, _, rfl, -⟩ := h
  rfl

theorem send_of_not_sendable (s : WsSession γ) {ss : Bytes} (hss : ¬Sendable ss) : s.send ss = s := by
  rw [send]
  by_cases hne : ss = []
  · rw [if_pos hne]
  · rw [if_neg hne, if_pos (Nat.lt_of_not_le fun hlen => hss ⟨hne, hlen⟩)]

theorem sendQueue_send (s : WsSession γ) (ss : Bytes) :
    (s.send ss).sendQueue = s.sendQueue ++ if Sendable ss then [ss] else [] := by
  by_cases hss : Sendable ss
  · rw [if_pos hss, send, if_neg hss.1, if_neg (Nat.not_lt.mpr hss.2)]
    dsimp only
    split
    · rfl
    · split <;> rfl
  · rw [if_neg hss, List.append_nil, send_of_not_sendable s hss]

theorem sendQueue_foldl (s : WsSession γ) (calls : List SendCall) :
    (calls.foldl sendCall s).sendQueue = s.sendQueue ++ acceptedTexts calls := by
  induction calls generalizing s with
  | nil => simp [acceptedTexts]
  | cons call calls ih =>
    have hcall : (s.sendCall call).sendQueue = s.sendQueue ++ acceptedTexts [call] := by
      cases call <;>
        exact (sendQueue_send s _).trans (by simp [acceptedTexts, List.filter_cons, SendCall.text])
    rw [List.foldl_cons, ih, hcall, List.append_assoc, ← acceptedTexts_append, List.singleton_append]

/-- The session writes as the outbox `o` does. -/
structure Sends (o : Outbox Bytes) (s : WsSession γ) : Prop where
  queue : s.sendQueue = o.queue
  busy : s.isSendBusy = decide (o.phase ≠ .idle)
  writes : s.ws.writes = o.writing
  handed : s.ws.handed = o.handed

variable {o : Outbox Bytes} {s s' : WsSession γ}

theorem sends_create (id : Bytes) : Sends {} { id := id : WsSession γ } := ⟨rfl, rfl, rfl, rfl⟩

theorem Sends.congr (h : Sends o s) (hview : s'.sendView = s.sendView) : Sends o s' := by
  simp only [sendView, Prod.mk.injEq] at hview
  obtain ⟨hqueue, hbusy, hwrites, hhanded⟩ := hview
  exact ⟨hqueue.trans h.queue, hbusy.trans h.busy, hwrites.trans h.writes, hhanded.trans h.handed⟩

private theorem Sends.push (h : Sends o s) (ss : Bytes) :
    Sends (o.push ss) { s with sendQueue := s.sendQueue ++ [ss] } where
  queue := by simp [h.queue, Outbox.push]
  busy := h.busy
  writes := by simp [h.writes]
  handed := by simp [h.handed]

private theorem Sends.start (h : Sends o s) {dp : Bytes} {rest : List Bytes}
    (hbusy : s.isSendBusy = false) (hq : s.sendQueue = dp :: rest) :
    Sends o.start { s with isSendBusy := true, ws := s.ws.asyncWrite dp } := by
  have hidle : o.phase = .idle := by simpa [h.busy] using hbusy
  obtain ⟨hphase, hwriting, hhanded⟩ := Outbox.start_eq hidle (h.queue ▸ hq)
  have hnone : s.ws.writes = [] := by simp [h.writes, Outbox.writing, hidle]
  refine ⟨?_, ?_, ?_, ?_⟩
  · simpa using h.queue
  · simp [hphase]
  · simp [WsStream.asyncWrite, hnone, hwriting]
  · simp [WsStream.asyncWrite, h.handed, hhanded]

theorem Sends.send (h : Sends o s) (ss : Bytes) : ∃ o', Sends o' (s.send ss) ∧
    o'.done = o.done ∧ o'.accepted = o.accepted ++ if Sendable ss then [ss] else [] := by
  by_cases hss : Sendable ss
  · rw [if_pos hss, WsSession.send, if_neg hss.1, if_neg (Nat.not_lt.mpr hss.2)]
    dsimp only
    split
    · exact ⟨o.push ss, h.push ss, rfl, by simp⟩
    · split
      · rename_i dp rest hbusy hq
        exact ⟨(o.push ss).start, (h.push ss).start hbusy hq, by simp [Outbox.push], by simp⟩
      · exact ⟨o.push ss, h.push ss, rfl, by simp⟩
  · rw [if_neg hss, send_of_not_sendable s hss]
    exact ⟨o, h, rfl, by simp⟩

theorem Sends.sendCall (h : Sends o s) (call : SendCall) : ∃ o', Sends o' (s.sendCall call) ∧
    o'.done = o.done ∧ o'.accepted = o.accepted ++ acceptedTexts [call] := by
  obtain ⟨o', hs, hdone, hacc⟩ := h.send call.text
  refine ⟨o', ?_, hdone, ?_⟩
  · cases call <;> exact hs
  · simpa [acceptedTexts, List.filter_cons] using hacc

theorem Sends.foldl_sendCall (h : Sends o s) (calls : List SendCall) :
    ∃ o', Sends o' (calls.foldl WsSession.sendCall s) ∧
      o'.done = o.done ∧ o'.accepted = o.accepted ++ acceptedTexts calls := by
  induction calls generalizing o s with
  | nil => exact ⟨o, h, rfl, by simp [acceptedTexts]⟩
  | cons call calls ih =>
    obtain ⟨o₁, h₁, hdone₁, hacc₁⟩ := h.sendCall call
    obtain ⟨o₂, h₂, hdone₂, hacc₂⟩ := ih h₁
    refine ⟨o₂, h₂, hdone₂.trans hdone₁, ?_⟩
    rw [hacc₂, hacc₁, List.append_assoc, ← acceptedTexts_append, List.singleton_append]

/-- A write that succeeds on an open stream leaves the queue and the next one starts. -/
theorem Sends.written (h : Sends o s) {dp : Bytes} (hdp : dp ∈ s.ws.writes)
    (hopen : s.ws.isOpen = true) : Sends o.finish ((s.writeDone dp).onWrite none) := by
  have hmem : dp ∈ o.writing := h.writes ▸ hdp
  obtain ⟨hqueue, hnext⟩ := Outbox.finish_eq hmem
  have herase : s.ws.writes.erase dp = [] := by simp [h.writes, Outbox.writing_eq hmem]
  simp only [WsSession.onWrite, writeDone, hopen, herase]
  obtain ⟨htail, hphase, hwriting, hhanded⟩ | ⟨b, rest, htail, hphase, hwriting, hhanded⟩ := hnext
  · rw [← h.queue] at htail hqueue
    refine ⟨?_, ?_, ?_, ?_⟩ <;> simp [htail, hqueue, hphase, hwriting, hhanded, h.handed]
  · have hbusy : s.isSendBusy = true := by
      simp [h.busy, (Outbox.queue_of_mem_writing hmem).1]
    rw [← h.queue] at htail hqueue
    refine ⟨?_, ?_, ?_, ?_⟩ <;>
      simp [htail, hqueue, hphase, hwriting, hhanded, h.handed, hbusy, WsStream.asyncWrite]

private theorem Sends.notWritten (h : Sends o s) {dp : Bytes} (hdp : dp ∈ s.ws.writes)
    {ec : Option ErrorCode} (hec : ec.isSome ∨ s.ws.isOpen = false) :
    Sends o.stall ((s.writeDone dp).onWrite ec) := by
  have hmem : dp ∈ o.writing := h.writes ▸ hdp
  obtain ⟨hqueue, hphase, hwriting, hhanded⟩ := Outbox.stall_eq hmem
  have hstall : Sends o.stall (s.writeDone dp) := by
    refine ⟨?_, ?_, ?_, ?_⟩
    · rw [hqueue, ← h.queue]
      rfl
    · simp [writeDone, hphase, h.busy, (Outbox.queue_of_mem_writing hmem).1]
    · simp [writeDone, hwriting, h.writes, Outbox.writing_eq hmem]
    · rw [hhanded, ← h.handed]
      rfl
  apply hstall.congr
  rw [WsSession.onWrite]
  split_ifs with habort hsome hclosed
  · rfl
  · rfl
  · rfl
  · simp_all [writeDone]

end WsSession

section
variable {γ : Type*} [DecidableEq γ] {callbacks : WSInputCallbacks γ}
  {exec : Bound γ → Except Fault (List SendCall)} {o : Outbox Bytes} {s s' : WsSession γ}

/-- An event that makes no call of `send` and completes no write leaves the writing part alone. -/
theorem sendView_step {e : SessionEvent γ} (hs : sessionStep callbacks exec e s = some s')
    (hsend : ∀ call, e ≠ .send call) (hcallback : ∀ b, e ≠ .callback b)
    (hwritten : ∀ ec dp, e ≠ .written ec dp) : s'.sendView = s.sendView := by
  cases e with
  | runAsServer now => exact Option.some.inj hs ▸ WsSession.sendView_runAsServer s now
  | runAsClient now => exact Option.some.inj hs ▸ WsSession.sendView_runAsClient s now
  | opened => exact Option.some.inj hs ▸ rfl
  | closed => exact Option.some.inj hs ▸ rfl
  | accepted ec =>
    obtain ⟨-, rfl⟩ := step_accepted hs
    have hframe := WsSession.readFrame_onAccept s.acceptDone ec
    exact (WsSession.sendView_of_readFrame hframe :)
  | received ec data =>
    obtain ⟨-, rfl⟩ := step_received hs
    have hframe := WsSession.readFrame_onRead callbacks (s.readDone data) ec
    exact (WsSession.sendView_of_readFrame hframe :)
  | written ec dp => exact absurd rfl (hwritten ec dp)
  | pinged ec => exact WsSession.sendView_of_watchFrame (watchFrame_step hs trivial)
  | control now => exact WsSession.sendView_of_watchFrame (watchFrame_step hs trivial)
  | expired ec => exact WsSession.sendView_of_watchFrame (watchFrame_step hs trivial)
  | timer ec now => exact WsSession.sendView_of_watchFrame (watchFrame_step hs trivial)
  | send call => exact absurd rfl (hsend call)
  | callback b => exact absurd rfl (hcallback b)

/-- One event of a session is a few operations of its outbox, which accept what the event sends. -/
theorem sends_step {e : SessionEvent γ} (h : s.Sends o)
    (hs : sessionStep callbacks exec e s = some s') :
    ∃ o', s'.Sends o' ∧ o'.accepted = o.accepted ++ acceptedTexts (e.calls exec) := by
  cases e with
  | send call =>
    obtain ⟨o', hs', -, hacc⟩ := h.sendCall call
    exact ⟨o', Option.some.inj hs ▸ hs', hacc⟩
  | callback b =>
    obtain ⟨q, calls, -, hcalls, rfl⟩ := step_callback hs
    have hq : WsSession.Sends o { s with receivedMessagesQueue := q } := h.congr rfl
    obtain ⟨o', hs', -, hacc⟩ := hq.foldl_sendCall calls
    exact ⟨o', hs', by rw [hacc, SessionEvent.calls, callsOf_eq hcalls]⟩
  | written ec dp =>
    obtain ⟨hdp, rfl⟩ := step_written hs
    by_cases hok : ec = none ∧ s.ws.isOpen = true
    · obtain ⟨rfl, hopen⟩ := hok
      exact ⟨o.finish, h.written hdp hopen,
        by simp [Outbox.accepted_finish, SessionEvent.calls, acceptedTexts]⟩
    · have hec : ec.isSome ∨ s.ws.isOpen = false := by
        cases ec <;> simp_all
      exact ⟨o.stall, h.notWritten hdp hec, by simp [SessionEvent.calls, acceptedTexts]⟩
  | _ =>
    refine ⟨o, h.congr (sendView_step hs ?_ ?_ ?_), ?_⟩ <;> simp [SessionEvent.calls, acceptedTexts]

private theorem sends_of_reaches {id : Bytes} {h : List (SessionEvent γ)}
    (hr : (sessionMachine callbacks exec).Reaches { id := id } h s) :
    ∃ o : Outbox Bytes, s.Sends o ∧ o.accepted = acceptedSends exec h := by
  refine hr.invariant (fun h s => ∃ o : Outbox Bytes, s.Sends o ∧ o.accepted = acceptedSends exec h)
    ⟨{}, WsSession.sends_create id, rfl⟩ ?_
  rintro h t u e ⟨o, hsends, hacc⟩ - hstep
  obtain ⟨o', hsends', hacc'⟩ := sends_step hsends hstep
  exact ⟨o', hsends', by rw [hacc', hacc, acceptedSends_concat]⟩

/-- Whatever the order of calls, completions, openings and closings: at most one
write is outstanding, it is that of the front of a busy queue, and the messages
ever handed to `async_write` are the first ones `send` accepted, in order. -/
theorem sendQueue_inOrder {id : Bytes} {h : List (SessionEvent γ)}
    (hr : (sessionMachine callbacks exec).Reaches { id := id } h s) :
    s.ws.writes.length ≤ 1 ∧
      (∀ dp ∈ s.ws.writes, s.isSendBusy = true ∧ s.sendQueue.head? = some dp) ∧
      s.ws.handed <+: acceptedSends exec h := by
  obtain ⟨o, hsends, hacc⟩ := sends_of_reaches hr
  refine ⟨?_, ?_, ?_⟩
  · rw [hsends.writes]
    exact o.length_writing_le
  · intro dp hdp
    obtain ⟨hphase, rest, hq⟩ := Outbox.queue_of_mem_writing (hsends.writes ▸ hdp)
    simp [hsends.busy, hsends.queue, hphase, hq]
  · rw [hsends.handed, ← hacc]
    exact o.handed_prefix

end

/-- A message queued before the stream opens, a failed write after it, and a last message. -/
def stalledHistory : List (SessionEvent Unit) :=
  [.send (.str [1]), .opened, .send (.str [2]), .written none [1], .written (some (.other 32)) [2],
    .send (.str [3])]

theorem sendQueue_inOrder_stalled : ∃ s : WsSession Unit,
    (sessionMachine {} (fun _ => .ok [])).run stalledHistory { id := [] } = some s ∧
      s.ws.writes.length ≤ 1 ∧
      (∀ dp ∈ s.ws.writes, s.isSendBusy = true ∧ s.sendQueue.head? = some dp) ∧
      s.ws.handed <+: acceptedSends (fun _ => .ok []) stalledHistory :=
  ⟨_, rfl, sendQueue_inOrder (EventMachine.reaches_of_run (m := sessionMachine {} _) rfl)⟩

end Boostander.Net
