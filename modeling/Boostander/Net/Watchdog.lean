import Boostander.Net.SessionMachine

/-! The watch over a connection: one timer, the pings it starts, and the control
frames that answer them. The state of the ping stands for a fact about the whole
history, and the pending wait on the timer for the session being watched at all. -/
namespace Boostander.Net
open Algo Library

namespace SessionEvent
variable {γ : Type*}

def IsControl : SessionEvent γ → Prop
  | .control _ => True
  | _ => False

def IsPinged : SessionEvent γ → Prop
  | .pinged _ => True
  | _ => False

end SessionEvent

/-- `on_timer` is called with an error other than an abort. -/
def TimerError (ec : Option ErrorCode) : Prop := ec.isSome ∧ ec ≠ some .operationAborted

namespace WsSession
variable {γ : Type*} {s s' : WsSession γ}

/-- A run of `on_timer` with this error code gets to the deadline and finds it passed. -/
def FindsExpired (s : WsSession γ) (ec : Option ErrorCode) (now : Nat) : Prop :=
  ¬TimerError ec ∧ s.timer.expired now = true

def TimerPings (s : WsSession γ) (ec : Option ErrorCode) (now : Nat) : Prop :=
  s.FindsExpired ec now ∧ s.ws.isOpen = true ∧ s.pingState = .alive

def TimerCloses (s : WsSession γ) (ec : Option ErrorCode) (now : Nat) : Prop :=
  s.FindsExpired ec now ∧ ¬(s.ws.isOpen = true ∧ s.pingState = .alive)

/-- The session once the timer has closed it. -/
def shutDown (s : WsSession γ) : WsSession γ :=
  onSessionFail { s with ws := { s.ws with socketOpen := false } }

/-- The session once the timer has sent a ping. -/
def pingSent (s : WsSession γ) (now : Nat) : WsSession γ :=
  { s with
    pingState := .sending
    timer := (s.timer.expiresAfter now).asyncWait
    ws := s.ws.asyncPing }

/-- The branches of `on_timer`. -/
theorem onTimer_cases (s : WsSession γ) (ec : Option ErrorCode) (now : Nat) :
    TimerError ec ∧ s.onTimer ec now = s.onSessionFail ∨
    s.TimerPings ec now ∧ s.onTimer ec now = s.pingSent now ∨
    s.TimerCloses ec now ∧ s.onTimer ec now = s.shutDown ∨
    ¬TimerError ec ∧ s.timer.expired now = false ∧
      s.onTimer ec now = { s with timer := s.timer.asyncWait } := by
  by_cases herror : TimerError ec
  · exact Or.inl ⟨herror, if_pos herror⟩
  have hskip : s.onTimer ec now = if s.timer.expired now then
      if s.ws.isOpen ∧ s.pingState = .alive then s.pingSent now else s.shutDown
      else { s with timer := s.timer.asyncWait } := if_neg herror
  cases hexpired : s.timer.expired now with
  | false =>
    rw [hexpired] at hskip
    exact Or.inr (Or.inr (Or.inr ⟨herror, rfl, hskip⟩))
  | true =>
    rw [hexpired, if_pos rfl] at hskip
    by_cases halive : s.ws.isOpen = true ∧ s.pingState = .alive
    · exact Or.inr (Or.inl ⟨⟨⟨herror, hexpired⟩, halive⟩, hskip.trans (if_pos halive)⟩)
    · exact Or.inr (Or.inr (Or.inl ⟨⟨⟨herror, hexpired⟩, halive⟩, hskip.trans (if_neg halive)⟩))

def watchView (s : WsSession γ) : PingState × SteadyTimer × Nat × Bool :=
  (s.pingState, s.timer, s.ws.pings, s.ws.socketOpen)

/-- What an event outside the watch leaves alone. -/
structure KeepsWatch (s s' : WsSession γ) : Prop where
  id : s'.id = s.id
  watchView : s'.watchView = s.watchView
  registered : s'.registered = true → s.registered = true

private theorem KeepsWatch.trans {s'' : WsSession γ} (h : KeepsWatch s s') (h' : KeepsWatch s' s'') :
    KeepsWatch s s'' where
  id := h'.id.trans h.id
  watchView := h'.watchView.trans h.watchView
  registered := fun hs => h.registered (h'.registered hs)

private theorem keepsWatch_of_sendFrame (h : SendFrame s s') : KeepsWatch s s' := by
  obtain ⟨_, _, _, _, rfl⟩ := h
  exact ⟨rfl, rfl, fun hs => hs⟩

private theorem keepsWatch_of_readFrame (h : ReadFrame s s') : KeepsWatch s s' := by
  obtain ⟨_, _, _, _, _, rfl, hregistered⟩ := h
  exact ⟨rfl, rfl, hregistered⟩

private theorem keepsWatch_onWrite (s : WsSession γ) (ec : Option ErrorCode) :
    KeepsWatch s (s.onWrite ec) := by
  rcases sendFrame_onWrite s ec with h | h
  · exact keepsWatch_of_sendFrame h
  · rw [h]
    exact keepsWatch_of_readFrame (readFrame_onSessionFail s)

/-- A ping completion that returns leaves the timer alone, and a session that was
not alive as it is in that respect. -/
theorem onPing_ok {ec : Option ErrorCode} (h : s.onPing ec = .ok s') :
    (s'.pingState = .alive ↔ s.pingState = .alive) ∧ s'.timer = s.timer ∧ s'.ws = s.ws ∧
      s'.id = s.id ∧ (s'.registered = true → s.registered = true) := by
  rw [onPing] at h
  split at h
  · obtain rfl := Except.ok.inj h
    exact ⟨Iff.rfl, rfl, rfl, rfl, fun h => h⟩
  split at h
  · obtain rfl := Except.ok.inj h
    exact ⟨Iff.rfl, rfl, rfl, rfl, fun h => absurd h (by simp [onSessionFail])⟩
  split at h
  · rename_i hstate
    obtain rfl := Except.ok.inj h
    exact ⟨by simp [hstate], rfl, rfl, rfl, fun h => h⟩
  · obtain rfl := Except.ok.inj h
    exact ⟨Iff.rfl, rfl, rfl, rfl, fun h => h⟩
  · cases h

/-- At most one ping is in flight, and should it complete without error the
assertion of `on_ping` holds. -/
structure PingSafe (s : WsSession γ) : Prop where
  single : s.ws.pings ≤ 1
  asserted : 0 < s.ws.pings → ∃ s', s.pingDone.onPing none = .ok s'

/-- The timer sends no ping while an earlier one is in flight. -/
def PingsApart (s : WsSession γ) : SessionEvent γ → Prop
  | .timer ec now => s.TimerPings ec now → s.ws.pings = 0
  | _ => True

/-- The event is a run of `on_timer` that finds the deadline passed on an open stream. -/
def ExpiresOpen (s : WsSession γ) : SessionEvent γ → Prop
  | .timer ec now => s.FindsExpired ec now ∧ s.ws.isOpen = true
  | _ => False

/-- The event is a control frame that arrives while a ping is in flight. -/
def AnswersEarly (s : WsSession γ) (e : SessionEvent γ) : Prop := e.IsControl ∧ 0 < s.ws.pings

private theorem pingsApart_iff (s : WsSession γ) (e : SessionEvent γ) :
    s.PingsApart e ↔ (0 < s.ws.pings ∧ s.pingState = .alive → ¬s.ExpiresOpen e) := by
  cases e with
  | timer ec now =>
    constructor
    · rintro hapart ⟨hpos, halive⟩ ⟨hexpired, hopen⟩
      exact absurd (hapart ⟨hexpired, hopen, halive⟩) (Nat.ne_of_gt hpos)
    · rintro hexpires ⟨hexpired, hopen, halive⟩
      by_contra hpings
      exact hexpires ⟨Nat.pos_of_ne_zero hpings, halive⟩ ⟨hexpired, hopen⟩
  | _ => exact iff_of_true trivial fun _ hexpires => hexpires.elim

private theorem onPing_none_ok : (∃ s', s.onPing none = .ok s') ↔ s.pingState ≠ .sent := by
  cases hstate : s.pingState <;> simp [onPing, hstate]

private theorem pingSafe_iff (s : WsSession γ) :
    s.PingSafe ↔ s.ws.pings ≤ 1 ∧ (0 < s.ws.pings → s.pingState ≠ .sent) := by
  have hok : (∃ s', s.pingDone.onPing none = .ok s') ↔ s.pingState ≠ .sent := onPing_none_ok
  constructor
  · rintro ⟨hsingle, hasserted⟩
    exact ⟨hsingle, fun hpos => hok.mp (hasserted hpos)⟩
  · rintro ⟨hsingle, hstate⟩
    exact ⟨hsingle, fun hpos => hok.mpr (hstate hpos)⟩

/-- The waits on the timer whose handler has still to run, armed or completed. -/
def pending (s : WsSession γ) : Nat := s.timer.waits + s.timer.queued.length

/-- The session that is put into the map, before it runs. -/
def created (id : Bytes) : WsSession γ := { id := id, registered := true }

end WsSession

/-- A session that has just been started, by `on_accept` or by a client. Messages
may have been sent to it since it was put into the map. -/
inductive Launched {γ : Type*} : WsSession γ → Prop where
  | server {id : Bytes} {s : WsSession γ} (hs : WsSession.SendFrame (.created id) s) (now : Nat) :
      Launched (s.runAsServer now)
  | client {id : Bytes} {s : WsSession γ} (hs : WsSession.SendFrame (.created id) s) (isOpen : Bool)
      (now : Nat) : Launched ((s.setOpen isOpen).runAsClient now)

theorem Launched.watchView {γ : Type*} {s₀ : WsSession γ} (h : Launched s₀) :
    s₀.pingState = .alive ∧ s₀.ws.pings = 0 ∧ s₀.ws.socketOpen = true ∧ s₀.pending = 1 ∧
      s₀.registered = true := by
  cases h with
  | server hs now =>
    obtain ⟨_, _, _, _, rfl⟩ := hs
    exact ⟨rfl, rfl, rfl, rfl, rfl⟩
  | client hs isOpen now =>
    obtain ⟨_, _, _, _, rfl⟩ := hs
    exact ⟨rfl, rfl, rfl, rfl, rfl⟩

theorem launched_accepted {γ : Type*} (id : Bytes) (now : Nat) :
    Launched ((WsSession.created id : WsSession γ).runAsServer now) :=
  .server (.refl _) now

section
variable {γ : Type*} [DecidableEq γ] {callbacks : WSInputCallbacks γ}
  {exec : Bound γ → Except Fault (List SendCall)} {s₀ s s' : WsSession γ}

theorem keepsWatch_step {e : SessionEvent γ} (hs : sessionStep callbacks exec e s = some s')
    (hwatch : ¬e.Watches) (hstart : ¬e.Starts) : WsSession.KeepsWatch s s' := by
  cases e with
  | runAsServer now => exact absurd trivial hstart
  | runAsClient now => exact absurd trivial hstart
  | opened => exact Option.some.inj hs ▸ ⟨rfl, rfl, fun h => h⟩
  | closed => exact Option.some.inj hs ▸ ⟨rfl, rfl, fun h => h⟩
  | accepted ec =>
    obtain ⟨-, rfl⟩ := step_accepted hs
    have hdone : WsSession.KeepsWatch s s.acceptDone := ⟨rfl, rfl, fun h => h⟩
    have hframe := WsSession.readFrame_onAccept s.acceptDone ec
    exact hdone.trans (WsSession.keepsWatch_of_readFrame hframe)
  | received ec data =>
    obtain ⟨-, rfl⟩ := step_received hs
    have hdone : WsSession.KeepsWatch s (s.readDone data) := ⟨rfl, rfl, fun h => h⟩
    have hframe := WsSession.readFrame_onRead callbacks (s.readDone data) ec
    exact hdone.trans (WsSession.keepsWatch_of_readFrame hframe)
  | written ec dp =>
    obtain ⟨-, rfl⟩ := step_written hs
    have hdone : WsSession.KeepsWatch s (s.writeDone dp) := ⟨rfl, rfl, fun h => h⟩
    exact hdone.trans (WsSession.keepsWatch_onWrite (s.writeDone dp) ec)
  | pinged ec => exact absurd trivial hwatch
  | control now => exact absurd trivial hwatch
  | expired ec => exact absurd trivial hwatch
  | timer ec now => exact absurd trivial hwatch
  | send call =>
    exact Option.some.inj hs ▸ WsSession.keepsWatch_of_sendFrame (WsSession.sendFrame_foldl s [call])
  | callback b =>
    obtain ⟨q, calls, -, -, rfl⟩ := step_callback hs
    have htaken : WsSession.KeepsWatch s { s with receivedMessagesQueue := q } :=
      ⟨rfl, rfl, fun h => h⟩
    have hframe := WsSession.sendFrame_foldl { s with receivedMessagesQueue := q } calls
    exact htaken.trans (WsSession.keepsWatch_of_sendFrame hframe)

theorem ping_cases {e : SessionEvent γ} (hs : sessionStep callbacks exec e s = some s')
    (hstart : ¬e.Starts) :
    (∃ ec, e = .pinged ec ∧ s'.ws.pings = s.ws.pings - 1 ∧
      (s'.pingState = .alive ↔ s.pingState = .alive)) ∨
    (∃ now, e = .control now ∧ s'.ws.pings = s.ws.pings ∧ s'.pingState = .alive) ∨
    (∃ ec now, e = .timer ec now ∧ s.TimerPings ec now ∧ s'.ws.pings = s.ws.pings + 1 ∧
      s'.pingState = .sending) ∨
    s'.ws.pings = s.ws.pings ∧ s'.pingState = s.pingState ∧ ¬e.IsControl ∧ ¬e.IsPinged ∧
      ∀ ec now, e = .timer ec now → ¬s.TimerPings ec now := by
  by_cases hwatch : e.Watches
  · cases e with
    | pinged ec =>
      obtain ⟨-, hok⟩ := step_pinged hs
      obtain ⟨halive, -, hws, -⟩ := WsSession.onPing_ok hok
      exact Or.inl ⟨ec, rfl, congrArg WsStream.pings hws, halive⟩
    | control now =>
      obtain rfl := Option.some.inj hs
      exact Or.inr (Or.inl ⟨now, rfl, rfl, rfl⟩)
    | expired ec =>
      obtain ⟨-, rfl⟩ := step_expired hs
      exact Or.inr (Or.inr (Or.inr ⟨rfl, rfl, not_false, not_false, nofun⟩))
    | timer ec now =>
      obtain ⟨-, rfl⟩ := step_timer hs
      have hother (hnot : ¬s.TimerPings ec now) : ∀ ec' now',
          SessionEvent.timer (γ := γ) ec now = .timer ec' now' → ¬s.TimerPings ec' now' := by
        rintro _ _ ⟨⟩
        exact hnot
      rcases WsSession.onTimer_cases (s.timerDone ec) ec now with
        ⟨herror, heq⟩ | ⟨hpings, heq⟩ | ⟨hcloses, heq⟩ | ⟨-, hexpired, heq⟩
      · rw [heq]
        exact Or.inr (Or.inr (Or.inr ⟨rfl, rfl, not_false, not_false,
          hother fun hp => absurd herror hp.1.1⟩))
      · rw [heq]
        exact Or.inr (Or.inr (Or.inl ⟨ec, now, rfl, hpings, rfl, rfl⟩))
      · rw [heq]
        exact Or.inr (Or.inr (Or.inr ⟨rfl, rfl, not_false, not_false,
          hother fun hp => absurd hp.2 hcloses.2⟩))
      · rw [heq]
        exact Or.inr (Or.inr (Or.inr ⟨rfl, rfl, not_false, not_false,
          hother fun hp => absurd (hexpired.symm.trans hp.1.2) (by decide)⟩))
    | _ => exact absurd hwatch id
  · have hkeep := (keepsWatch_step hs hwatch hstart).watchView
    simp only [WsSession.watchView, Prod.mk.injEq] at hkeep
    obtain ⟨hstate, -, hpings, -⟩ := hkeep
    refine Or.inr (Or.inr (Or.inr ⟨hpings, hstate, ?_⟩))
    cases e with
    | pinged ec => exact absurd trivial hwatch
    | control now => exact absurd trivial hwatch
    | timer ec now => exact absurd trivial hwatch
    | _ => exact ⟨not_false, not_false, nofun⟩

private theorem pingSafe_step {e : SessionEvent γ} (h : s.PingSafe)
    (hs : sessionStep callbacks exec e s = some s') (hstart : ¬e.Starts) :
    s'.PingSafe ↔ s.PingsApart e := by
  obtain ⟨hsingle, hstate⟩ := (WsSession.pingSafe_iff s).mp h
  rw [WsSession.pingSafe_iff]
  rcases ping_cases hs hstart with ⟨ec, rfl, hpings, -⟩ | ⟨now, rfl, hpings, halive⟩ |
    ⟨ec, now, rfl, hpinging, hpings, hsending⟩ | ⟨hpings, hsame, -, -, hnot⟩
  · have hnone : s'.ws.pings = 0 := hpings.trans (Nat.sub_eq_zero_of_le hsingle)
    exact iff_of_true (by simp [hnone]) trivial
  · exact iff_of_true ⟨hpings ▸ hsingle, by simp [halive]⟩ trivial
  · have hapart : s.PingsApart (.timer ec now) ↔ s.ws.pings = 0 :=
      ⟨fun hp => hp hpinging, fun hzero _ => hzero⟩
    rw [hapart, hpings, hsending]
    simp
  · refine iff_of_true (by rw [hpings, hsame]; exact ⟨hsingle, hstate⟩) ?_
    cases e with
    | timer ec now => exact fun hp => absurd hp (hnot ec now rfl)
    | _ => trivial

variable (callbacks exec) in
/-- A control frame has arrived while a ping was in flight, and no ping has completed since. -/
def AnsweredEarly (s₀ : WsSession γ) (h : List (SessionEvent γ)) : Prop :=
  (sessionMachine callbacks exec).Since s₀ WsSession.AnswersEarly SessionEvent.IsPinged h

private theorem aliveInFlight_step {e : SessionEvent γ} (h : s.PingSafe) (h' : s'.PingSafe)
    (hs : sessionStep callbacks exec e s = some s') (hstart : ¬e.Starts) :
    0 < s'.ws.pings ∧ s'.pingState = .alive ↔
      s.AnswersEarly e ∨ ¬e.IsPinged ∧ 0 < s.ws.pings ∧ s.pingState = .alive := by
  rw [WsSession.AnswersEarly]
  rcases ping_cases hs hstart with ⟨ec, rfl, hpings, -⟩ | ⟨now, rfl, hpings, halive⟩ |
    ⟨ec, now, rfl, -, hpings, hsending⟩ | ⟨hpings, hsame, hcontrol, hpinged, -⟩
  · have hnone : s'.ws.pings = 0 := hpings.trans (Nat.sub_eq_zero_of_le h.single)
    simp [hnone, SessionEvent.IsControl, SessionEvent.IsPinged]
  · rw [hpings, halive]
    constructor
    · exact fun hpos => Or.inl ⟨trivial, hpos.1⟩
    · rintro (⟨-, hpos⟩ | ⟨-, hpos, -⟩)
      · exact ⟨hpos, rfl⟩
      · exact ⟨hpos, rfl⟩
  · have hnone : s.ws.pings = 0 := by
      have hsingle := h'.single
      omega
    simp [hnone, hsending]
  · simp [hpings, hsame, hcontrol, hpinged]

private theorem answeredEarly_iff {h : List (SessionEvent γ)} (h₀ : Launched s₀)
    (hr : (sessionMachine callbacks exec).run h s₀ = some s) (hstart : ∀ e ∈ h, ¬e.Starts)
    (hsafe : ∀ k u, k <+: h → (sessionMachine callbacks exec).run k s₀ = some u → u.PingSafe) :
    AnsweredEarly callbacks exec s₀ h ↔ 0 < s.ws.pings ∧ s.pingState = .alive := by
  induction h using List.reverseRecOn generalizing s with
  | nil =>
    obtain rfl := Option.some.inj hr
    obtain ⟨-, hpings, -⟩ := h₀.watchView
    exact iff_of_false EventMachine.not_since_nil (by simp [hpings])
  | append_singleton h e ih =>
    obtain ⟨u, hu, hs⟩ := session_run_concat.mp hr
    have hih := ih hu (fun e he => hstart e (List.mem_append_left _ he))
      fun k v hk => hsafe k v (hk.trans (List.prefix_append _ _))
    have hbefore := hsafe h u (List.prefix_append _ _) hu
    have hafter := hsafe (h ++ [e]) s List.prefix_rfl hr
    rw [aliveInFlight_step hbefore hafter hs (hstart e (by simp)), ← hih]
    exact EventMachine.since_concat hu

/-- Pings are in flight one at a time and the assertion of `on_ping` never fails,
exactly as long as the deadline is not found passed on an open stream between a
control frame that arrived while a ping was in flight and the completion of the ping. -/
theorem pingSafe_iff_answeredInTime {t : WsSession γ} {h : List (SessionEvent γ)} (h₀ : Launched s₀)
    (hr : (sessionMachine callbacks exec).run h s₀ = some t) (hstart : ∀ e ∈ h, ¬e.Starts) :
    (∀ k u, k <+: h → (sessionMachine callbacks exec).run k s₀ = some u → u.PingSafe) ↔
      ∀ k e u, k ++ [e] <+: h → (sessionMachine callbacks exec).run k s₀ = some u →
        AnsweredEarly callbacks exec s₀ k → ¬u.ExpiresOpen e := by
  apply EventMachine.forall_prefix_iff_of_history hr
  · obtain ⟨-, hpings, -⟩ := h₀.watchView
    exact (WsSession.pingSafe_iff s₀).mpr (by simp [hpings])
  · intro k e u v hk hu hsafe hs
    have hk' := (List.prefix_append _ _).trans hk
    have hearly := answeredEarly_iff h₀ hu (fun e he => hstart e (hk'.subset he)) hsafe
    rw [pingSafe_step (hsafe k u List.prefix_rfl hu) hs (hstart e (hk.subset (by simp))),
      WsSession.pingsApart_iff, hearly]

end

/-- A client of an open stream. -/
def launchedClient : WsSession Unit :=
  ((WsSession.created []).setOpen true).runAsClient 0

theorem launched_client : Launched launchedClient := .client (.refl _) true 0

/-- A ping that completes before the control frame that answers it, and a second
one that completes after it but before the timer expires again. -/
def answeredPing : List (SessionEvent Unit) :=
  [.timer (some .operationAborted) 1, .expired none, .timer none wsPingFrequency, .pinged none,
    .control (wsPingFrequency + 1), .timer (some .operationAborted) (wsPingFrequency + 1),
    .expired none, .timer none (2 * wsPingFrequency + 1), .control (2 * wsPingFrequency + 2),
    .pinged none]

theorem pingSafe_iff_answeredInTime_twice :
    (∀ k u, k <+: answeredPing →
        (sessionMachine {} (fun _ => .ok [])).run k launchedClient = some u → u.PingSafe) ↔
      ∀ k e u, k ++ [e] <+: answeredPing →
        (sessionMachine {} (fun _ => .ok [])).run k launchedClient = some u →
        AnsweredEarly {} (fun _ => .ok []) launchedClient k → ¬u.ExpiresOpen e := by
  obtain ⟨t, ht⟩ : ∃ t, (sessionMachine {} (fun _ => .ok [])).run answeredPing launchedClient = some t :=
    ⟨_, rfl⟩
  exact pingSafe_iff_answeredInTime launched_client ht (by simp [answeredPing, SessionEvent.Starts])

/-- A control frame arrives while the first ping is in flight, and that ping is still
in flight when the timer expires again. -/
def overlappingPings : List (SessionEvent Unit) :=
  [.timer (some .operationAborted) 1, .expired none, .timer none wsPingFrequency,
    .control (wsPingFrequency + 1), .timer (some .operationAborted) (wsPingFrequency + 1),
    .expired none, .timer none (2 * wsPingFrequency + 1)]

/-- Two pings are in flight, and when both have completed the assertion has failed. -/
theorem pings_overlap_fails : ∃ u v : WsSession Unit,
    (sessionMachine {} (fun _ => .ok [])).run overlappingPings launchedClient = some u ∧
    u.ws.isOpen = true ∧ u.ws.pings = 2 ∧
    (sessionMachine {} (fun _ => .ok [])).run (overlappingPings ++ [.pinged none]) launchedClient =
      some v ∧
    v.ws.pings = 1 ∧ v.pingDone.onPing none = .error .assertFailed :=
  ⟨_, _, rfl, rfl, rfl, rfl, rfl, rfl⟩

end Boostander.Net
