import Boostander.Net.SendQueue

/-! Whether the queue of a session keeps moving. While the stream stays open and
writes succeed, only a message queued before the handshake can be left behind. -/
namespace Boostander.Net
open Algo Library

namespace SessionEvent
variable {γ : Type*}

/-- The stream does not close and no write fails. -/
def Progresses : SessionEvent γ → Prop
  | .closed => False
  | .written ec _ => ec = none
  | _ => True

end SessionEvent

namespace WsSession
variable {γ : Type*} {s s' : WsSession γ}

/-- On an open stream, a queued message means a write in progress. -/
def NotStranded (s : WsSession γ) : Prop :=
  s.ws.isOpen = true → s.sendQueue ≠ [] → s.ws.writes ≠ []

/-- The handshake completes on an empty queue, unless the stream is open already. -/
def OpensEmpty (s : WsSession γ) : SessionEvent γ → Prop
  | .opened => s.ws.isOpen = true ∨ s.sendQueue = []
  | _ => True

/-- The queue is busy only with a write in progress, which needs the stream open. -/
structure Flows (s : WsSession γ) : Prop where
  busy : s.isSendBusy = true → s.ws.writes ≠ []
  opened : s.isSendBusy = true → s.ws.isOpen = true

def flowView (s : WsSession γ) : (List Bytes × Bool × List Bytes × List Bytes) × Bool :=
  (s.sendView, s.ws.isOpen)

private theorem flows_congr (h : s.Flows) (hview : s'.flowView = s.flowView) : s'.Flows := by
  simp only [flowView, sendView, Prod.mk.injEq] at hview
  obtain ⟨⟨-, hbusy, hwrites, -⟩, hopen⟩ := hview
  exact ⟨by rw [hbusy, hwrites]; exact h.busy, by rw [hbusy, hopen]; exact h.opened⟩

private theorem notStranded_congr (hview : s'.flowView = s.flowView) :
    s'.NotStranded ↔ s.NotStranded := by
  simp only [flowView, sendView, Prod.mk.injEq] at hview
  obtain ⟨⟨hqueue, -, hwrites, -⟩, hopen⟩ := hview
  rw [NotStranded, NotStranded, hqueue, hwrites, hopen]

theorem isOpen_of_watchFrame (h : WatchFrame s s') : s'.ws.isOpen = s.ws.isOpen := by
  obtain ⟨_, _, _, _, _, rfl⟩ := h
  rfl

theorem isOpen_of_readFrame (h : ReadFrame s s') : s'.ws.isOpen = s.ws.isOpen := by
  obtain ⟨_, _, _, _, _, rfl, -⟩ := h
  rfl

private theorem Flows.send (h : s.Flows) (ss : Bytes) :
    (s.send ss).Flows ∧ (s.NotStranded → (s.send ss).NotStranded) := by
  by_cases hss : Sendable ss
  · rw [WsSession.send, if_neg hss.1, if_neg (Nat.not_lt.mpr hss.2)]
    dsimp only
    by_cases hopen : s.ws.isOpen = true
    · rw [if_neg (by simp [hopen])]
      cases hbusy : s.isSendBusy with
      | true =>
        have hwrites := h.busy hbusy
        exact ⟨⟨fun _ => hwrites, fun _ => hopen⟩, fun _ _ _ => hwrites⟩
      | false =>
        obtain ⟨dp, rest, hq⟩ : ∃ dp rest, s.sendQueue ++ [ss] = dp :: rest :=
          List.exists_cons_of_ne_nil (by simp)
        simp only [hq]
        have hwrites : (s.ws.asyncWrite dp).writes ≠ [] := by simp [WsStream.asyncWrite]
        exact ⟨⟨fun _ => hwrites, fun _ => hopen⟩, fun _ _ _ => hwrites⟩
    · rw [if_pos (by simp [hopen])]
      exact ⟨⟨h.busy, h.opened⟩, fun _ hopen' => absurd hopen' hopen⟩
  · rw [send_of_not_sendable s hss]
    exact ⟨h, fun hs => hs⟩

private theorem Flows.foldl_sendCall (h : s.Flows) (calls : List SendCall) :
    (calls.foldl WsSession.sendCall s).Flows ∧
      (s.NotStranded → (calls.foldl WsSession.sendCall s).NotStranded) := by
  induction calls generalizing s with
  | nil => exact ⟨h, fun hs => hs⟩
  | cons call calls ih =>
    have hcall : (s.sendCall call).Flows ∧ (s.NotStranded → (s.sendCall call).NotStranded) := by
      cases call with
      | shared ss => exact h.send (cStr ss)
      | str ss => exact h.send ss
    obtain ⟨hflows, hrest⟩ := ih hcall.1
    exact ⟨hflows, fun hs => hrest (hcall.2 hs)⟩

private theorem Flows.written {o : Outbox Bytes} (h : s.Flows) (hsends : s.Sends o) {dp : Bytes}
    (hdp : dp ∈ s.ws.writes) :
    ((s.writeDone dp).onWrite none).Flows ∧ ((s.writeDone dp).onWrite none).NotStranded := by
  have hmem : dp ∈ o.writing := hsends.writes ▸ hdp
  have hbusy : s.isSendBusy = true := by
    simp [hsends.busy, (Outbox.queue_of_mem_writing hmem).1]
  have hopen := h.opened hbusy
  simp only [WsSession.onWrite, writeDone, hopen]
  cases hq : s.sendQueue.tail with
  | nil => exact ⟨⟨fun hb => absurd hb (by simp), fun hb => absurd hb (by simp)⟩, by simp [NotStranded]⟩
  | cons dp' rest =>
    refine ⟨⟨fun _ => ?_, fun _ => ?_⟩, fun _ _ => ?_⟩
    · simp [WsStream.asyncWrite]
    · simp [WsStream.asyncWrite]
    · simp [WsStream.asyncWrite]

private theorem notStranded_opened {o : Outbox Bytes} (h : s.Flows) (hsends : s.Sends o)
    (hs : s.NotStranded) : (s.setOpen true).NotStranded ↔ s.ws.isOpen = true ∨ s.sendQueue = [] := by
  by_cases hopen : s.ws.isOpen = true
  · exact iff_of_true (fun _ => hs hopen) (Or.inl hopen)
  · have hnone : s.ws.writes = [] := by
      by_contra hwrites
      obtain ⟨dp, hdp⟩ := List.exists_mem_of_ne_nil _ hwrites
      have hmem : dp ∈ o.writing := hsends.writes ▸ hdp
      apply hopen
      apply h.opened
      simp [hsends.busy, (Outbox.queue_of_mem_writing hmem).1]
    simp [NotStranded, setOpen, hopen, hnone]

end WsSession

section
variable {γ : Type*} [DecidableEq γ] {callbacks : WSInputCallbacks γ}
  {exec : Bound γ → Except Fault (List SendCall)} {s s' : WsSession γ}

private theorem flowView_step {e : SessionEvent γ} (hs : sessionStep callbacks exec e s = some s')
    (hsend : ∀ call, e ≠ .send call) (hcallback : ∀ b, e ≠ .callback b)
    (hwritten : ∀ ec dp, e ≠ .written ec dp) (hopened : e ≠ .opened) (hclosed : e ≠ .closed) :
    s'.flowView = s.flowView := by
  have hopen : s'.ws.isOpen = s.ws.isOpen := by
    cases e with
    | runAsServer now =>
      have hstart := WsSession.isOpen_of_watchFrame (WsSession.watchFrame_startTimer s now)
      exact Option.some.inj hs ▸ hstart
    | runAsClient now =>
      have hstart := WsSession.isOpen_of_watchFrame (WsSession.watchFrame_startTimer s now)
      exact Option.some.inj hs ▸ hstart
    | opened => exact absurd rfl hopened
    | closed => exact absurd rfl hclosed
    | accepted ec =>
      obtain ⟨-, rfl⟩ := step_accepted hs
      have hframe := WsSession.readFrame_onAccept s.acceptDone ec
      exact (WsSession.isOpen_of_readFrame hframe :)
    | received ec data =>
      obtain ⟨-, rfl⟩ := step_received hs
      have hframe := WsSession.readFrame_onRead callbacks (s.readDone data) ec
      exact (WsSession.isOpen_of_readFrame hframe :)
    | written ec dp => exact absurd rfl (hwritten ec dp)
    | pinged ec => exact WsSession.isOpen_of_watchFrame (watchFrame_step hs trivial)
    | control now => exact WsSession.isOpen_of_watchFrame (watchFrame_step hs trivial)
    | expired ec => exact WsSession.isOpen_of_watchFrame (watchFrame_step hs trivial)
    | timer ec now => exact WsSession.isOpen_of_watchFrame (watchFrame_step hs trivial)
    | send call => exact absurd rfl (hsend call)
    | callback b => exact absurd rfl (hcallback b)
  rw [WsSession.flowView, sendView_step hs hsend hcallback hwritten, hopen]
  rfl

theorem flows_step {o : Outbox Bytes} {e : SessionEvent γ} (h : s.Flows) (hsends : s.Sends o)
    (hs : sessionStep callbacks exec e s = some s') (he : e.Progresses) :
    s'.Flows ∧ (s.NotStranded → (s'.NotStranded ↔ s.OpensEmpty e)) := by
  cases e with
  | closed => exact absurd he id
  | opened =>
    obtain rfl := Option.some.inj hs
    exact ⟨⟨h.busy, fun _ => rfl⟩, WsSession.notStranded_opened h hsends⟩
  | written ec dp =>
    obtain ⟨hdp, rfl⟩ := step_written hs
    obtain rfl : ec = none := he
    obtain ⟨hflows, hnot⟩ := h.written hsends hdp
    exact ⟨hflows, fun _ => iff_of_true hnot trivial⟩
  | send call =>
    obtain ⟨hflows, hnot⟩ := h.foldl_sendCall [call]
    obtain rfl := Option.some.inj hs
    exact ⟨hflows, fun hn => iff_of_true (hnot hn) trivial⟩
  | callback b =>
    obtain ⟨q, calls, -, -, rfl⟩ := step_callback hs
    have hq : WsSession.Flows { s with receivedMessagesQueue := q } := ⟨h.busy, h.opened⟩
    obtain ⟨hflows, hnot⟩ := hq.foldl_sendCall calls
    exact ⟨hflows, fun hn => iff_of_true (hnot hn) trivial⟩
  | _ =>
    have hview : s'.flowView = s.flowView := by
      apply flowView_step hs <;> simp
    exact ⟨WsSession.flows_congr h hview,
      fun hn => iff_of_true ((WsSession.notStranded_congr hview).mpr hn) trivial⟩

private theorem flows_of_run {id : Bytes} {h : List (SessionEvent γ)}
    (hr : (sessionMachine callbacks exec).run h { id := id } = some s)
    (hprogress : ∀ e ∈ h, e.Progresses) : s.Flows ∧ ∃ o, s.Sends o := by
  have hpath := EventMachine.path_of_run hr hprogress
  apply hpath.invariant (fun _ s => s.Flows ∧ ∃ o, s.Sends o)
  · exact ⟨⟨fun hbusy => absurd hbusy (by simp), fun hbusy => absurd hbusy (by simp)⟩,
      {}, WsSession.sends_create id⟩
  · rintro _ u v e ⟨hflows, o, hsends⟩ he hs
    obtain ⟨o', hsends', -⟩ := sends_step hsends hs
    exact ⟨(flows_step hflows hsends hs he).1, o', hsends'⟩

/-- While nothing closes the stream or fails a write, a session is never stranded
exactly if its handshake completes before anything is queued. -/
theorem notStranded_iff {id : Bytes} {h : List (SessionEvent γ)} {t : WsSession γ}
    (hr : (sessionMachine callbacks exec).run h { id := id } = some t)
    (hprogress : ∀ e ∈ h, e.Progresses) :
    (∀ k u, k <+: h → (sessionMachine callbacks exec).run k { id := id } = some u → u.NotStranded) ↔
      ∀ k e u, k ++ [e] <+: h → (sessionMachine callbacks exec).run k { id := id } = some u →
        u.OpensEmpty e := by
  apply EventMachine.forall_prefix_iff hr
  · exact fun _ hqueue => absurd rfl hqueue
  · intro k e u v hk hu hnot hs
    have hk' := (List.prefix_append _ _).trans hk
    obtain ⟨hflows, o, hsends⟩ := flows_of_run hu fun e he => hprogress e (hk'.subset he)
    exact (flows_step hflows hsends hs (hprogress e (hk.subset (by simp)))).2 hnot

end

/-- A handshake, two messages and the first write. -/
def sendingHistory : List (SessionEvent Unit) :=
  [.runAsServer 0, .opened, .accepted none, .send (.str [1]), .send (.str [2]), .written none [1]]

theorem notStranded_iff_sending :
    (∀ k u, k <+: sendingHistory →
        (sessionMachine {} (fun _ => .ok [])).run k { id := [] } = some u → u.NotStranded) ↔
      ∀ k e u, k ++ [e] <+: sendingHistory →
        (sessionMachine {} (fun _ => .ok [])).run k { id := [] } = some u → u.OpensEmpty e := by
  obtain ⟨t, ht⟩ : ∃ t, (sessionMachine {} (fun _ => .ok [])).run sendingHistory { id := [] } = some t :=
    ⟨_, rfl⟩
  exact notStranded_iff ht (by simp [sendingHistory, SessionEvent.Progresses])

/-- A message sent before the handshake stays in the queue of the open stream, with
no write to carry it. -/
theorem notStranded_early_fails : ∃ u : WsSession Unit,
    (sessionMachine {} (fun _ => .ok [])).run
      [.runAsServer 0, .send (.str [1]), .opened, .accepted none] { id := [] } = some u ∧
    ¬u.NotStranded := by
  refine ⟨_, rfl, fun h => ?_⟩
  exact absurd (h rfl (by decide)) (by decide)

end Boostander.Net
