import Boostander.Net.SessionMachine

/-! The incoming side of a session: its one outstanding read, and the buffer
that read fills. -/
namespace Boostander.Net
open Algo Library

namespace WsSession
variable {γ : Type*}

def readView (s : WsSession γ) : Nat × Bytes × Nat × Bool :=
  (s.ws.reads, s.recievedBuffer, s.ws.accepts, s.ws.isOpen)

theorem readView_of_sendFrame {s s' : WsSession γ} (h : SendFrame s s') :
    s'.readView = s.readView := by
  obtain ⟨_, _, _, _, rfl⟩ := h
  rfl

theorem readView_onWrite (s : WsSession γ) (ec : Option ErrorCode) :
    (s.onWrite ec).readView = s.readView := by
  rcases sendFrame_onWrite s ec with h | h
  · exact readView_of_sendFrame h
  · rw [h]
    rfl

theorem readView_of_watchFrame {s s' : WsSession γ} (h : WatchFrame s s') :
    s'.readView = s.readView := by
  obtain ⟨_, _, _, _, _, rfl⟩ := h
  rfl

theorem readView_handleIncomingData (callbacks : WSInputCallbacks γ) (s : WsSession γ)
    (message : Bytes) : (s.handleIncomingData callbacks message).2.readView = s.readView := by
  rw [handleIncomingData]
  split
  · rfl
  · split <;> rfl

private theorem readView_processBuffer (callbacks : WSInputCallbacks γ) {s : WsSession γ}
    (hreads : s.ws.reads = 0) (haccepts : s.ws.accepts = 0)
    (hlen : s.recievedBuffer.length ≤ maxReceiveMsgSize) :
    (s.processBuffer callbacks).readView =
      (if s.recievedBuffer ≠ [] ∧ s.ws.isOpen then 1 else 0, [], 0, s.ws.isOpen) := by
  by_cases hne : s.recievedBuffer = []
  · rw [processBuffer, if_pos hne]
    simp [readView, hreads, haccepts, hne]
  · have hdata := readView_handleIncomingData callbacks s s.recievedBuffer
    simp only [readView, Prod.mk.injEq] at hdata
    obtain ⟨hreads', -, haccepts', hopen⟩ := hdata
    simp only [processBuffer, if_neg hne, if_neg (Nat.not_lt.mpr hlen), hopen]
    cases ho : s.ws.isOpen <;>
      simp [readView, doRead, WsStream.asyncRead, hreads', hreads, haccepts', haccepts, hopen, ho, hne]

/-- A session that has started and reads: the read it waits for is the only one. -/
structure Reading (s : WsSession γ) : Prop where
  reads : s.ws.reads = 1
  recievedBuffer : s.recievedBuffer = []
  accepts : s.ws.accepts = 0

/-- A session reads, or no read of it is left. -/
structure ReadsAtMostOnce (s : WsSession γ) : Prop where
  reading : 0 < s.ws.reads → s.Reading
  accepts : s.ws.accepts = 0

theorem Reading.atMostOnce {s : WsSession γ} (h : s.Reading) : s.ReadsAtMostOnce :=
  ⟨fun _ => h, h.accepts⟩

private theorem atMostOnce_of_readView {s : WsSession γ} {n : Nat} {b : Bool} (hn : n ≤ 1)
    (h : s.readView = (n, [], 0, b)) : s.ReadsAtMostOnce := by
  simp only [readView, Prod.mk.injEq] at h
  obtain ⟨hreads, hbuffer, haccepts, -⟩ := h
  exact ⟨fun hpos => ⟨by omega, hbuffer, haccepts⟩, haccepts⟩

private theorem atMostOnce_congr {s s' : WsSession γ} (h : s.ReadsAtMostOnce)
    (hview : s'.ws.reads = s.ws.reads ∧ s'.recievedBuffer = s.recievedBuffer ∧
      s'.ws.accepts = s.ws.accepts) : s'.ReadsAtMostOnce := by
  obtain ⟨hreads, hbuffer, haccepts⟩ := hview
  refine ⟨fun hpos => ?_, haccepts.trans h.accepts⟩
  obtain ⟨hone, hempty, hzero⟩ := h.reading (hreads ▸ hpos)
  exact ⟨hreads.trans hone, hbuffer.trans hempty, haccepts.trans hzero⟩

private theorem atMostOnce_view {s s' : WsSession γ} (h : s.ReadsAtMostOnce)
    (hview : s'.readView = s.readView) :
    s'.ReadsAtMostOnce := by
  simp only [readView, Prod.mk.injEq] at hview
  exact atMostOnce_congr h ⟨hview.1, hview.2.1, hview.2.2.1⟩

end WsSession

section
variable {γ : Type*} [DecidableEq γ] {callbacks : WSInputCallbacks γ}
  {exec : Bound γ → Except Fault (List SendCall)} {s s' : WsSession γ}

private theorem readView_received {ec : Option ErrorCode} {data : Bytes} (h : s.ReadsAtMostOnce)
    (hs : sessionStep callbacks exec (.received ec data) s = some s')
    (habort : ec ≠ some .operationAborted) (hclosed : ec ≠ some .closed) :
    s'.readView = (if data ≠ [] ∧ s.ws.isOpen then 1 else 0, [], 0, s.ws.isOpen) := by
  obtain ⟨⟨hreads, hlen⟩, rfl⟩ := step_received hs
  obtain ⟨hone, hempty, hzero⟩ := h.reading hreads
  have hbuffer : (s.readDone data).recievedBuffer = data := by simp [WsSession.readDone, hempty]
  have hlen' : data.length ≤ WsSession.maxReceiveMsgSize := Nat.le_trans hlen (by decide)
  have hnone : (s.readDone data).ws.reads = 0 := by simp [WsSession.readDone, hone]
  rw [WsSession.onRead, if_neg habort, if_neg hclosed]
  split
  · have hview := WsSession.readView_processBuffer callbacks (s := (s.readDone data).onSessionFail)
      hnone hzero (hbuffer.symm ▸ hlen')
    rwa [show (s.readDone data).onSessionFail.recievedBuffer = data from hbuffer] at hview
  · have hview := WsSession.readView_processBuffer callbacks hnone hzero (hbuffer.symm ▸ hlen')
    rwa [hbuffer] at hview

theorem reading_of_received {data : Bytes} (h : s.ReadsAtMostOnce)
    (hs : sessionStep callbacks exec (.received none data) s = some s') :
    s'.ws.isOpen = s.ws.isOpen ∧
      (s.ws.isOpen = true → (s'.ws.reads = 1 ∧ s'.recievedBuffer = [] ↔ data ≠ [])) := by
  have hview := readView_received h hs (by simp) (by simp)
  simp only [WsSession.readView, Prod.mk.injEq] at hview
  obtain ⟨hreads, hbuffer, -, hopen⟩ := hview
  refine ⟨hopen, fun hs => ?_⟩
  simp [hreads, hbuffer, hs]

theorem atMostOnce_step {e : SessionEvent γ} (h : s.ReadsAtMostOnce)
    (hs : sessionStep callbacks exec e s = some s') (he : ¬e.Starts) : s'.ReadsAtMostOnce := by
  cases e with
  | runAsServer now => exact absurd trivial he
  | runAsClient now => exact absurd trivial he
  | opened => exact Option.some.inj hs ▸ WsSession.atMostOnce_congr h ⟨rfl, rfl, rfl⟩
  | closed => exact Option.some.inj hs ▸ WsSession.atMostOnce_congr h ⟨rfl, rfl, rfl⟩
  | accepted ec =>
    obtain ⟨hpos, -⟩ := step_accepted hs
    exact absurd h.accepts (Nat.ne_of_gt hpos)
  | received ec data =>
    by_cases hec : ec = some .operationAborted ∨ ec = some .closed
    · obtain ⟨⟨hreads, -⟩, rfl⟩ := step_received hs
      have hone := (h.reading hreads).reads
      have hstay : (s.readDone data).onRead callbacks ec = s.readDone data := by
        rcases hec with rfl | rfl <;> simp [WsSession.onRead]
      rw [hstay]
      exact ⟨fun hpos => absurd hpos (by simp [WsSession.readDone, hone]), h.accepts⟩
    · obtain ⟨habort, hclosed⟩ := not_or.mp hec
      refine WsSession.atMostOnce_of_readView ?_ (readView_received h hs habort hclosed)
      split <;> decide
  | written ec dp =>
    obtain ⟨-, rfl⟩ := step_written hs
    exact WsSession.atMostOnce_view h (WsSession.readView_onWrite _ ec)
  | pinged ec =>
    exact WsSession.atMostOnce_view h (WsSession.readView_of_watchFrame (watchFrame_step hs trivial))
  | control now =>
    exact WsSession.atMostOnce_view h (WsSession.readView_of_watchFrame (watchFrame_step hs trivial))
  | expired ec =>
    exact WsSession.atMostOnce_view h (WsSession.readView_of_watchFrame (watchFrame_step hs trivial))
  | timer ec now =>
    exact WsSession.atMostOnce_view h (WsSession.readView_of_watchFrame (watchFrame_step hs trivial))
  | send call =>
    have hframe := WsSession.sendFrame_foldl s [call]
    exact Option.some.inj hs ▸ WsSession.atMostOnce_view h (WsSession.readView_of_sendFrame hframe)
  | callback b =>
    obtain ⟨q, calls, -, -, rfl⟩ := step_callback hs
    have hview := WsSession.readView_of_sendFrame
      (WsSession.sendFrame_foldl { s with receivedMessagesQueue := q } calls)
    exact WsSession.atMostOnce_view h (hview.trans rfl)

/-- In the history `h` from `s₀`, every successful read on an open stream leaves
the next read outstanding, as the only one, and the buffer empty. -/
def Rearms (callbacks : WSInputCallbacks γ) (exec : Bound γ → Except Fault (List SendCall))
    (s₀ : WsSession γ) (h : List (SessionEvent γ)) : Prop :=
  ∀ k data s, k ++ [.received none data] <+: h →
    (sessionMachine callbacks exec).run (k ++ [.received none data]) s₀ = some s →
    s.ws.isOpen = true → s.ws.reads = 1 ∧ s.recievedBuffer = []

/-- Every message that arrives while the stream is open has some content. -/
def NoEmptyMessage (callbacks : WSInputCallbacks γ)
    (exec : Bound γ → Except Fault (List SendCall)) (s₀ : WsSession γ)
    (h : List (SessionEvent γ)) : Prop :=
  ∀ k data s, k ++ [.received none data] <+: h →
    (sessionMachine callbacks exec).run k s₀ = some s → s.ws.isOpen = true → data ≠ []

theorem atMostOnce_of_run {s₀ t : WsSession γ} {h k : List (SessionEvent γ)}
    (h₀ : s₀.Reading) (hstart : ∀ e ∈ h, ¬e.Starts) (hk : k <+: h)
    (hr : (sessionMachine callbacks exec).run k s₀ = some t) : t.ReadsAtMostOnce := by
  have hpath := EventMachine.path_of_run hr (fun e he => hstart e (hk.subset he))
  apply hpath.invariant (fun _ s => s.ReadsAtMostOnce) h₀.atMostOnce
  intro _ t u e ht he hs
  exact atMostOnce_step ht hs he

/-- The read loop goes on exactly as long as no empty message arrives. -/
theorem rearms_iff {s₀ t : WsSession γ} {h : List (SessionEvent γ)} (h₀ : s₀.Reading)
    (hr : (sessionMachine callbacks exec).run h s₀ = some t) (hstart : ∀ e ∈ h, ¬e.Starts) :
    Rearms callbacks exec s₀ h ↔ NoEmptyMessage callbacks exec s₀ h := by
  constructor
  · intro hrearms k data s hk hrun hopen
    obtain ⟨u, hu⟩ := EventMachine.run_prefix hk hr
    obtain ⟨s', hs', hstep⟩ := session_run_concat.mp hu
    obtain rfl : s = s' := Option.some.inj (hrun.symm.trans hs')
    have honce := atMostOnce_of_run h₀ hstart ((List.prefix_append _ _).trans hk) hrun
    obtain ⟨hsame, hiff⟩ := reading_of_received honce hstep
    exact (hiff hopen).mp (hrearms k data u hk hu (hsame.trans hopen))
  · intro hne k data u hk hu hopen
    obtain ⟨s, hs, hstep⟩ := session_run_concat.mp hu
    have honce := atMostOnce_of_run h₀ hstart ((List.prefix_append _ _).trans hk) hs
    obtain ⟨hsame, hiff⟩ := reading_of_received honce hstep
    have hopen' : s.ws.isOpen = true := hsame.symm.trans hopen
    exact (hiff hopen').mpr (hne k data s hk hs hopen')

end

/-- A session just after its handshake. -/
def acceptedSession : WsSession Unit :=
  ((WsSession.runAsServer { id := [] } 0).setOpen true).acceptDone.onAccept none

theorem rearms_iff_short :
    Rearms {} (fun _ => .ok []) acceptedSession [.received none [48], .closed] ↔
      NoEmptyMessage {} (fun _ => .ok []) acceptedSession [.received none [48], .closed] :=
  rearms_iff ⟨rfl, rfl, rfl⟩ rfl (by simp [SessionEvent.Starts])

/-- One empty message, and no read is outstanding any more. -/
theorem rearms_empty_fails :
    ¬Rearms {} (fun _ => .ok []) acceptedSession [.received none []] := by
  intro h
  obtain ⟨hreads, -⟩ := h [] [] _ List.prefix_rfl rfl rfl
  exact absurd hreads (by decide)

end Boostander.Net
