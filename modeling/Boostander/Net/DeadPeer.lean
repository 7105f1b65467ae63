import Boostander.Net.Watchdog

/-! What the timer decides, as a property of histories: a peer is given up exactly
if it has sent no control frame since it was last pinged, and the session is
watched by exactly one wait until then. -/
namespace Boostander.Net
open Algo Library

namespace WsSession
variable {γ : Type*} {s s' : WsSession γ}

/-- The event is a run of `on_timer` that takes its error branch or its close branch. -/
def TimerExits (s : WsSession γ) : SessionEvent γ → Prop
  | .timer ec now => TimerError ec ∨ s.TimerCloses ec now
  | _ => False

/-- The session is watched: one wait is pending, and the timer has not closed the socket. -/
structure Armed (s : WsSession γ) : Prop where
  pending : s.pending = 1
  socketOpen : s.ws.socketOpen = true

/-- The watch is over: no wait is pending, and the map does not hold the session. -/
structure Unwatched (s : WsSession γ) : Prop where
  pending : s.pending = 0
  registered : s.registered = false

private theorem pending_expiresAfter (timer : SteadyTimer) (now : Nat) :
    (timer.expiresAfter now).waits + (timer.expiresAfter now).queued.length =
      timer.waits + timer.queued.length := by
  simp [SteadyTimer.expiresAfter, Nat.add_comm]

private theorem pending_onControlCallback (s : WsSession γ) (now : Nat) :
    (s.onControlCallback now).pending = s.pending :=
  pending_expiresAfter s.timer now

private theorem pending_waitDone {ec : Option ErrorCode} (h : 0 < s.timer.waits) :
    (s.waitDone ec).pending = s.pending := by
  simp only [pending, waitDone, List.length_append, List.length_singleton]
  omega

private theorem pending_timerDone {ec : Option ErrorCode} (h : ec ∈ s.timer.queued) :
    (s.timerDone ec).pending + 1 = s.pending := by
  have hpos := List.length_pos_of_mem h
  simp only [pending, timerDone, List.length_erase_of_mem h]
  omega

private theorem pending_pingSent (s : WsSession γ) (now : Nat) :
    (s.pingSent now).pending = s.pending + 1 := by
  have htimer := pending_expiresAfter s.timer now
  simp only [pending, pingSent, SteadyTimer.asyncWait] at htimer ⊢
  omega

private theorem pending_wait (s : WsSession γ) :
    WsSession.pending { s with timer := s.timer.asyncWait } = s.pending + 1 := by
  simp only [pending, SteadyTimer.asyncWait]
  omega

private theorem pending_congr (hview : s'.watchView = s.watchView) :
    s'.pending = s.pending ∧ s'.ws.socketOpen = s.ws.socketOpen := by
  simp only [watchView, Prod.mk.injEq] at hview
  obtain ⟨-, htimer, -, hsocket⟩ := hview
  exact ⟨by rw [pending, htimer]; rfl, hsocket⟩

end WsSession

section
variable {γ : Type*} [DecidableEq γ] {callbacks : WSInputCallbacks γ}
  {exec : Bound γ → Except Fault (List SendCall)} {s₀ s s' : WsSession γ}

private theorem armed_timer {ec : Option ErrorCode} {now : Nat} (h : s.Armed)
    (hs : sessionStep callbacks exec (.timer ec now) s = some s') :
    (s.TimerExits (.timer ec now) → s'.Unwatched) ∧ (¬s.TimerExits (.timer ec now) → s'.Armed) := by
  obtain ⟨hmem, rfl⟩ := step_timer hs
  have hdone := WsSession.pending_timerDone hmem
  have hnone : (s.timerDone ec).pending = 0 := by
    rw [h.pending] at hdone
    omega
  rcases WsSession.onTimer_cases (s.timerDone ec) ec now with
    ⟨herror, heq⟩ | ⟨hpings, heq⟩ | ⟨hcloses, heq⟩ | ⟨herror, hexpired, heq⟩
  · rw [heq]
    exact ⟨fun _ => ⟨hnone, rfl⟩, fun hstay => absurd (Or.inl herror) hstay⟩
  · rw [heq]
    refine ⟨?_, fun _ => ⟨?_, h.socketOpen⟩⟩
    · rintro (herror | hcloses)
      · exact absurd herror hpings.1.1
      · exact absurd hpings.2 hcloses.2
    · rw [WsSession.pending_pingSent, hnone]
  · rw [heq]
    exact ⟨fun _ => ⟨hnone, rfl⟩, fun hstay => absurd (Or.inr hcloses) hstay⟩
  · rw [heq]
    refine ⟨?_, fun _ => ⟨?_, h.socketOpen⟩⟩
    · rintro (herror' | hcloses)
      · exact absurd herror' herror
      · exact absurd (hexpired.symm.trans hcloses.1.2) (by decide)
    · rw [WsSession.pending_wait, hnone]

theorem pending_step {e : SessionEvent γ} (hs : sessionStep callbacks exec e s = some s')
    (htimer : ∀ ec now, e ≠ .timer ec now) (hstart : ¬e.Starts) :
    s'.pending = s.pending ∧ s'.ws.socketOpen = s.ws.socketOpen ∧
      (s'.registered = true → s.registered = true) := by
  by_cases hwatch : e.Watches
  · cases e with
    | pinged ec =>
      obtain ⟨-, hok⟩ := step_pinged hs
      obtain ⟨-, htimer, hws, -, hregistered⟩ := WsSession.onPing_ok hok
      exact ⟨by rw [WsSession.pending, htimer]; rfl, by rw [hws]; rfl, hregistered⟩
    | control now =>
      obtain rfl := Option.some.inj hs
      exact ⟨WsSession.pending_onControlCallback s now, rfl, fun h => h⟩
    | expired ec =>
      obtain ⟨hpos, rfl⟩ := step_expired hs
      exact ⟨WsSession.pending_waitDone hpos, rfl, fun h => h⟩
    | timer ec now => exact absurd rfl (htimer ec now)
    | _ => exact absurd hwatch id
  · have hkeep := keepsWatch_step hs hwatch hstart
    obtain ⟨hpending, hsocket⟩ := WsSession.pending_congr hkeep.watchView
    exact ⟨hpending, hsocket, hkeep.registered⟩

private theorem armed_step {e : SessionEvent γ} (h : s.Armed)
    (hs : sessionStep callbacks exec e s = some s') (hstart : ¬e.Starts) :
    (s.TimerExits e → s'.Unwatched) ∧ (¬s.TimerExits e → s'.Armed) := by
  by_cases htimer : ∃ ec now, e = .timer ec now
  · obtain ⟨ec, now, rfl⟩ := htimer
    exact armed_timer h hs
  · have hother : ∀ ec now, e ≠ .timer ec now := fun ec now he => htimer ⟨ec, now, he⟩
    obtain ⟨hpending, hsocket, -⟩ := pending_step hs hother hstart
    refine ⟨?_, fun _ => ⟨hpending.trans h.pending, hsocket.trans h.socketOpen⟩⟩
    intro hexits
    cases e with
    | timer ec now => exact absurd rfl (hother ec now)
    | _ => exact absurd hexits id

private theorem unwatched_step {e : SessionEvent γ} (h : s.Unwatched)
    (hs : sessionStep callbacks exec e s = some s') (hstart : ¬e.Starts) : s'.Unwatched := by
  have hother : ∀ ec now, e ≠ .timer ec now := by
    rintro ec now rfl
    obtain ⟨hmem, -⟩ := step_timer hs
    have hdone := WsSession.pending_timerDone hmem
    rw [h.pending] at hdone
    omega
  obtain ⟨hpending, -, hregistered⟩ := pending_step hs hother hstart
  refine ⟨hpending.trans h.pending, ?_⟩
  cases hr : s'.registered with
  | false => rfl
  | true => exact absurd (h.registered.symm.trans (hregistered hr)) (by decide)

variable (callbacks exec) in
/-- The timer has taken its error branch or its close branch. -/
def Exited (s₀ : WsSession γ) (h : List (SessionEvent γ)) : Prop :=
  (sessionMachine callbacks exec).Since s₀ WsSession.TimerExits (fun _ => False) h

/-- From its start on, a session is watched until the timer gives up and never after. -/
theorem armed_or_unwatched {h : List (SessionEvent γ)} (h₀ : Launched s₀)
    (hr : (sessionMachine callbacks exec).run h s₀ = some s) (hstart : ∀ e ∈ h, ¬e.Starts) :
    ¬Exited callbacks exec s₀ h ∧ s.Armed ∨ Exited callbacks exec s₀ h ∧ s.Unwatched := by
  induction h using List.reverseRecOn generalizing s with
  | nil =>
    obtain rfl := Option.some.inj hr
    obtain ⟨-, -, hsocket, hpending, -⟩ := h₀.watchView
    exact Or.inl ⟨EventMachine.not_since_nil, hpending, hsocket⟩
  | append_singleton h e ih =>
    obtain ⟨u, hu, hs⟩ := session_run_concat.mp hr
    have hgrow := EventMachine.since_concat (p := WsSession.TimerExits) (q := fun _ => False) (e := e) hu
    have he := hstart e (by simp)
    have hbefore := ih hu fun e he => hstart e (List.mem_append_left _ he)
    rcases hbefore with ⟨hexited, harmed⟩ | ⟨hexited, hover⟩
    · obtain ⟨hout, hin⟩ := armed_step harmed hs he
      by_cases hexits : u.TimerExits e
      · exact Or.inr ⟨hgrow.mpr (Or.inl hexits), hout hexits⟩
      · refine Or.inl ⟨fun hx => ?_, hin hexits⟩
        rcases hgrow.mp hx with hx | ⟨-, hx⟩
        · exact hexits hx
        · exact hexited hx
    · exact Or.inr ⟨hgrow.mpr (Or.inr ⟨id, hexited⟩), unwatched_step hover hs he⟩

variable (callbacks exec) in
def StartsPing (s : WsSession γ) (e : SessionEvent γ) : Prop :=
  ∃ s', sessionStep callbacks exec e s = some s' ∧ s.ws.pings < s'.ws.pings

variable (callbacks exec) in
/-- A ping was started since the most recent control frame, or since the start if there was none. -/
def PingedSince (s₀ : WsSession γ) (h : List (SessionEvent γ)) : Prop :=
  (sessionMachine callbacks exec).Since s₀ (StartsPing callbacks exec) SessionEvent.IsControl h

private theorem startsPing_iff {e : SessionEvent γ} (hs : sessionStep callbacks exec e s = some s') :
    StartsPing callbacks exec s e ↔ s.ws.pings < s'.ws.pings := by
  constructor
  · rintro ⟨t, ht, hlt⟩
    exact Option.some.inj (hs.symm.trans ht) ▸ hlt
  · exact fun hlt => ⟨s', hs, hlt⟩

private theorem pingState_step {e : SessionEvent γ} (hs : sessionStep callbacks exec e s = some s')
    (hstart : ¬e.Starts) :
    s'.pingState ≠ .alive ↔
      StartsPing callbacks exec s e ∨ ¬e.IsControl ∧ s.pingState ≠ .alive := by
  rw [startsPing_iff hs]
  rcases ping_cases hs hstart with ⟨ec, rfl, hpings, halive⟩ | ⟨now, rfl, hpings, halive⟩ |
    ⟨ec, now, rfl, -, hpings, hsending⟩ | ⟨hpings, hsame, hcontrol, -, -⟩
  · have hfewer : ¬s.ws.pings < s'.ws.pings := by
      rw [hpings]
      exact Nat.not_lt.mpr (Nat.sub_le _ _)
    simp [halive, hfewer, SessionEvent.IsControl]
  · simp [halive, hpings, SessionEvent.IsControl]
  · simp [hsending, hpings]
  · simp [hsame, hpings, hcontrol]

private theorem pingedSince_iff {h : List (SessionEvent γ)} (h₀ : Launched s₀)
    (hr : (sessionMachine callbacks exec).run h s₀ = some s) (hstart : ∀ e ∈ h, ¬e.Starts) :
    PingedSince callbacks exec s₀ h ↔ s.pingState ≠ .alive := by
  induction h using List.reverseRecOn generalizing s with
  | nil =>
    obtain rfl := Option.some.inj hr
    obtain ⟨halive, -⟩ := h₀.watchView
    exact iff_of_false EventMachine.not_since_nil (not_not.mpr halive)
  | append_singleton h e ih =>
    obtain ⟨u, hu, hs⟩ := session_run_concat.mp hr
    have hih := ih hu fun e he => hstart e (List.mem_append_left _ he)
    rw [pingState_step hs (hstart e (by simp)), ← hih]
    exact EventMachine.since_concat hu

private theorem timer_outcome {ec : Option ErrorCode} {now : Nat}
    (hs : sessionStep callbacks exec (.timer ec now) s = some s') (hexpired : s.FindsExpired ec now) :
    (s.ws.isOpen = true ∧ s.pingState = .alive → s' = (s.timerDone ec).pingSent now) ∧
      (¬(s.ws.isOpen = true ∧ s.pingState = .alive) → s' = (s.timerDone ec).shutDown) := by
  obtain ⟨-, rfl⟩ := step_timer hs
  rcases WsSession.onTimer_cases (s.timerDone ec) ec now with
    ⟨herror, -⟩ | ⟨hpings, heq⟩ | ⟨hcloses, heq⟩ | ⟨-, hnot, -⟩
  · exact absurd herror hexpired.1
  · exact ⟨fun _ => heq, fun hdead => absurd hpings.2 hdead⟩
  · exact ⟨fun halive => absurd halive hcloses.2, fun _ => heq⟩
  · exact absurd (hnot.symm.trans hexpired.2) (by decide)

private theorem armed_of_timer {h : List (SessionEvent γ)} (h₀ : Launched s₀)
    (hr : (sessionMachine callbacks exec).run h s₀ = some s) (hstart : ∀ e ∈ h, ¬e.Starts)
    {ec : Option ErrorCode} {now : Nat}
    (hs : sessionStep callbacks exec (.timer ec now) s = some s') : s.Armed := by
  rcases armed_or_unwatched h₀ hr hstart with ⟨-, harmed⟩ | ⟨-, hover⟩
  · exact harmed
  · obtain ⟨hmem, -⟩ := step_timer hs
    have hdone := WsSession.pending_timerDone hmem
    rw [hover.pending] at hdone
    omega

private theorem pingedSince_of_run {k l : List (SessionEvent γ)} {ec : Option ErrorCode} {now : Nat}
    {u : WsSession γ} (h₀ : Launched s₀)
    (hr : (sessionMachine callbacks exec).run (k ++ .timer ec now :: l) s₀ = some s)
    (hstart : ∀ e ∈ k ++ .timer ec now :: l, ¬e.Starts) (harmed : s.Armed)
    (hu : (sessionMachine callbacks exec).run k s₀ = some u) (hexpired : u.FindsExpired ec now)
    (hl : ∀ e ∈ l, ¬e.IsControl) : PingedSince callbacks exec s₀ (k ++ .timer ec now :: l) := by
  have hk : k ++ [.timer ec now] <+: k ++ .timer ec now :: l := ⟨l, by simp⟩
  obtain ⟨v, hv⟩ := EventMachine.run_prefix hk hr
  obtain ⟨u', hu', hs⟩ := session_run_concat.mp hv
  obtain rfl : u = u' := Option.some.inj (hu.symm.trans hu')
  by_cases halive : u.ws.isOpen = true ∧ u.pingState = .alive
  · have hsent := (timer_outcome hs hexpired).1 halive
    refine ⟨k, _, l, u, rfl, hu, (startsPing_iff hs).mpr ?_, hl⟩
    rw [hsent]
    exact Nat.lt_succ_self _
  · have hexited : Exited callbacks exec s₀ (k ++ .timer ec now :: l) :=
      ⟨k, _, l, u, rfl, hu, Or.inr ⟨hexpired, halive⟩, fun _ _ => id⟩
    rcases armed_or_unwatched h₀ hr hstart with ⟨hnot, -⟩ | ⟨-, hover⟩
    · exact absurd hexited hnot
    · exact absurd (harmed.pending.symm.trans hover.pending) (by decide)

/-- A run of `on_timer` that finds the deadline passed on an open stream closes
the session exactly if a ping was started since the last control frame, and
otherwise starts one. So of two such runs with no control frame between them,
whether or not the stream is open, the second leaves the session closed and out
of the map. -/
theorem deadPeer_exact {h : List (SessionEvent γ)} (h₀ : Launched s₀)
    (hr : (sessionMachine callbacks exec).run h s₀ = some s) (hstart : ∀ e ∈ h, ¬e.Starts)
    {ec : Option ErrorCode} {now : Nat}
    (hs : sessionStep callbacks exec (.timer ec now) s = some s') (hexpired : s.FindsExpired ec now) :
    (s.ws.isOpen = true →
        (s'.ws.socketOpen = false ↔ PingedSince callbacks exec s₀ h) ∧
        (¬PingedSince callbacks exec s₀ h → s'.ws.pings = s.ws.pings + 1)) ∧
      ∀ k ec₁ now₁ l u, h = k ++ .timer ec₁ now₁ :: l →
        (sessionMachine callbacks exec).run k s₀ = some u → u.FindsExpired ec₁ now₁ →
        (∀ e ∈ l, ¬e.IsControl) → s'.ws.socketOpen = false ∧ s'.registered = false := by
  have hpinged := pingedSince_iff h₀ hr hstart
  have harmed := armed_of_timer h₀ hr hstart hs
  obtain ⟨hping, hclose⟩ := timer_outcome hs hexpired
  constructor
  · intro hopen
    by_cases halive : s.pingState = .alive
    · have hnot : ¬PingedSince callbacks exec s₀ h := fun hp => hpinged.mp hp halive
      have hsocket : ((s.timerDone ec).pingSent now).ws.socketOpen = true := harmed.socketOpen
      rw [hping ⟨hopen, halive⟩, hsocket]
      exact ⟨iff_of_false (by decide) hnot, fun _ => rfl⟩
    · have hdead := hpinged.mpr halive
      rw [hclose fun hboth => halive hboth.2]
      exact ⟨iff_of_true rfl hdead, fun hnot => absurd hdead hnot⟩
  · rintro k ec₁ now₁ l u rfl hu hexpired₁ hl
    have hdead := hpinged.mp (pingedSince_of_run h₀ hr hstart harmed hu hexpired₁ hl)
    rw [hclose fun hboth => hdead hboth.2]
    exact ⟨rfl, rfl⟩

end

/-- A ping that is sent and never answered, up to the second expiry. -/
def unansweredPing : List (SessionEvent Unit) :=
  [.timer (some .operationAborted) 1, .expired none, .timer none wsPingFrequency, .pinged none,
    .expired none]

theorem deadPeer_exact_unanswered : ∃ s s',
    (sessionMachine {} (fun _ => .ok [])).run unansweredPing launchedClient = some s ∧
    sessionStep {} (fun _ => .ok []) (.timer none (2 * wsPingFrequency)) s = some s' ∧
    s.FindsExpired none (2 * wsPingFrequency) ∧
    ((s.ws.isOpen = true →
        (s'.ws.socketOpen = false ↔
          PingedSince {} (fun _ => .ok []) launchedClient unansweredPing) ∧
        (¬PingedSince {} (fun _ => .ok []) launchedClient unansweredPing →
          s'.ws.pings = s.ws.pings + 1)) ∧
      ∀ k ec₁ now₁ l u, unansweredPing = k ++ .timer ec₁ now₁ :: l →
        (sessionMachine {} (fun _ => .ok [])).run k launchedClient = some u →
        u.FindsExpired ec₁ now₁ →
        (∀ e ∈ l, ¬e.IsControl) → s'.ws.socketOpen = false ∧ s'.registered = false) := by
  obtain ⟨s, hrun, s', hs, hexpired⟩ : ∃ s,
      (sessionMachine {} (fun _ => .ok [])).run unansweredPing launchedClient = some s ∧
      ∃ s', sessionStep {} (fun _ => .ok []) (.timer none (2 * wsPingFrequency)) s = some s' ∧
        s.FindsExpired none (2 * wsPingFrequency) :=
    ⟨_, rfl, _, rfl, by simp [TimerError], rfl⟩
  refine ⟨s, s', hrun, hs, hexpired, deadPeer_exact launched_client hrun ?_ hs hexpired⟩
  simp [unansweredPing, SessionEvent.Starts]

end Boostander.Net
