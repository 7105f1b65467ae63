import Boostander.Library.Sweep
import Boostander.Net.Exchange

/-! The server, `net/websockets/WsServer.cpp` with `net/SessionManagerBase.hpp`:
the map of sessions and the tick that runs the queued callbacks of all of them. -/
namespace Boostander.Net
open Algo Library Library.Sweep

section
variable {γ : Type*} (exec : Bound γ → Except Fault (List SendCall))

def runBound (b : Bound γ) (s : WsSession γ) : Ran (WsSession γ) (Bound γ) :=
  match exec b with
  | .ok calls => { state := calls.foldl WsSession.sendCall s }
  | .error f => { state := s, fault := some f }

/-- `DispatchQueued` on the queue of a session. The callbacks of the server
dispatch nothing to that queue, so one round for each and a last one are enough. -/
def WsSession.dispatchReceived (s : WsSession γ) : WsSession γ × Option Fault :=
  let msgs := s.receivedMessagesQueue
  match msgs.dispatchQueued (runBound exec) (msgs.callbacksQueue.length + 1) s with
  | some (q, s, fault) => ({ s with receivedMessagesQueue := q }, fault)
  | none => (s, some .endless)

def Returns (b : Bound γ) : Prop := ∃ calls, exec b = .ok calls

variable {exec}

theorem runUntilFault_ok {b : Bound γ} {calls : List SendCall} (hb : exec b = .ok calls)
    (l : List (Bound γ)) (s : WsSession γ) :
    DispatchQueue.runUntilFault (runBound exec) (b :: l) s =
      DispatchQueue.runUntilFault (runBound exec) l (calls.foldl WsSession.sendCall s) := by
  have hran : runBound exec b s = { state := calls.foldl WsSession.sendCall s } := by
    simp [runBound, hb]
  rw [DispatchQueue.runUntilFault, hran]

theorem runUntilFault_error {b : Bound γ} {f : Fault} (hb : exec b = .error f)
    (l : List (Bound γ)) (s : WsSession γ) :
    DispatchQueue.runUntilFault (runBound exec) (b :: l) s = (l, s, some f) := by
  have hran : runBound exec b s = { state := s, fault := some f } := by simp [runBound, hb]
  rw [DispatchQueue.runUntilFault, hran]

private theorem fault_runUntilFault (l : List (Bound γ)) (s : WsSession γ) :
    (DispatchQueue.runUntilFault (runBound exec) l s).2.2 = none ↔ ∀ b ∈ l, Returns exec b := by
  induction l generalizing s with
  | nil => simp [DispatchQueue.runUntilFault]
  | cons b l ih =>
    cases hb : exec b with
    | ok calls => simp [runUntilFault_ok hb, ih, Returns, hb]
    | error f => simp [runUntilFault_error hb, Returns, hb]

private theorem remaining_runUntilFault (l : List (Bound γ)) (s : WsSession γ) :
    (DispatchQueue.runUntilFault (runBound exec) l s).1 = [] ↔ ∀ b ∈ l.dropLast, Returns exec b := by
  induction l generalizing s with
  | nil => simp [DispatchQueue.runUntilFault]
  | cons b l ih =>
    cases hb : exec b with
    | ok calls =>
      cases l with
      | nil =>
        rw [runUntilFault_ok hb]
        simp [DispatchQueue.runUntilFault]
      | cons c l =>
        rw [runUntilFault_ok hb, List.dropLast_cons_cons, List.forall_mem_cons]
        exact (ih _).trans (and_iff_right ⟨calls, hb⟩).symm
    | error f =>
      cases l with
      | nil => simp [runUntilFault_error hb]
      | cons c l => simp [runUntilFault_error hb, Returns, hb]

private theorem sendQueue_runUntilFault (l : List (Bound γ)) (s : WsSession γ) :
    ∃ acc, (DispatchQueue.runUntilFault (runBound exec) l s).2.1.sendQueue = s.sendQueue ++ acc := by
  induction l generalizing s with
  | nil => exact ⟨[], (List.append_nil _).symm⟩
  | cons b l ih =>
    cases hb : exec b with
    | ok calls =>
      obtain ⟨acc, hacc⟩ := ih (calls.foldl WsSession.sendCall s)
      rw [WsSession.sendQueue_foldl, List.append_assoc] at hacc
      exact ⟨_, by rw [runUntilFault_ok hb]; exact hacc⟩
    | error f => exact ⟨[], by rw [runUntilFault_error hb]; exact (List.append_nil _).symm⟩

/-- The drain of a session that is alive runs its queue up to the first fault. -/
theorem dispatchReceived_eq {s : WsSession γ} (hlive : s.receivedMessagesQueue.quit = false) :
    s.dispatchReceived exec =
      let ran := DispatchQueue.runUntilFault (runBound exec) s.receivedMessagesQueue.callbacksQueue s
      ({ ran.2.1 with receivedMessagesQueue :=
        { s.receivedMessagesQueue with callbacksQueue := ran.1 } }, ran.2.2) := by
  have hsilent : ∀ b (s : WsSession γ), (runBound exec b s).dispatched = [] := by
    intro b s
    unfold runBound
    split <;> rfl
  rw [WsSession.dispatchReceived, DispatchQueue.dispatchQueued_eq_runUntilFault _ hsilent _ _ hlive _
    (Nat.lt_succ_self _)]

private theorem live_dispatchReceived {s : WsSession γ}
    (hlive : s.receivedMessagesQueue.quit = false) :
    (s.dispatchReceived exec).1.receivedMessagesQueue.quit = false := by
  rw [dispatchReceived_eq hlive]
  exact hlive

theorem dispatchReceived_spec (exec : Bound γ → Except Fault (List SendCall)) {s : WsSession γ}
    (hlive : s.receivedMessagesQueue.quit = false) :
    ((s.dispatchReceived exec).2 = none ↔
        ∀ b ∈ s.receivedMessagesQueue.callbacksQueue, Returns exec b) ∧
      ((s.dispatchReceived exec).1.receivedMessagesQueue.callbacksQueue = [] ↔
        ∀ b ∈ s.receivedMessagesQueue.callbacksQueue.dropLast, Returns exec b) ∧
      ∃ acc, (s.dispatchReceived exec).1.sendQueue = s.sendQueue ++ acc := by
  rw [dispatchReceived_eq hlive]
  exact ⟨fault_runUntilFault _ s, remaining_runUntilFault _ s, sendQueue_runUntilFault _ s⟩

private theorem send_withReceived (s : WsSession γ) (q : DispatchQueue (Bound γ)) (ss : Bytes) :
    ({ s with receivedMessagesQueue := q } : WsSession γ).send ss =
      { s.send ss with receivedMessagesQueue := q } := by
  unfold WsSession.send
  split
  · rfl
  split
  · rfl
  dsimp only
  split
  · rfl
  split <;> rfl

theorem foldl_withReceived (s : WsSession γ) (q : DispatchQueue (Bound γ))
    (calls : List SendCall) :
    calls.foldl WsSession.sendCall { s with receivedMessagesQueue := q } =
      { calls.foldl WsSession.sendCall s with receivedMessagesQueue := q } := by
  induction calls generalizing s with
  | nil => rfl
  | cons call calls ih =>
    have hcall : WsSession.sendCall { s with receivedMessagesQueue := q } call =
        { s.sendCall call with receivedMessagesQueue := q } := by
      cases call <;> exact send_withReceived s q _
    rw [List.foldl_cons, List.foldl_cons, hcall, ih]

private theorem run_callbacks [DecidableEq γ] {callbacks : WSInputCallbacks γ} (l : List (Bound γ))
    (s : WsSession γ) (q : DispatchQueue (Bound γ)) (hlive : q.quit = false)
    (hreturns : ∀ b ∈ l, Returns exec b) :
    (sessionMachine callbacks exec).run (l.map .callback)
        { s with receivedMessagesQueue := { q with callbacksQueue := l } } =
      some { (DispatchQueue.runUntilFault (runBound exec) l s).2.1 with
        receivedMessagesQueue := { q with callbacksQueue := [] } } := by
  induction l generalizing s with
  | nil => rfl
  | cons b l ih =>
    obtain ⟨⟨calls, hcalls⟩, hreturns⟩ := List.forall_mem_cons.mp hreturns
    have hstep : sessionStep callbacks exec (.callback b)
        { s with receivedMessagesQueue := { q with callbacksQueue := b :: l } } =
        some { calls.foldl WsSession.sendCall s with
          receivedMessagesQueue := { q with callbacksQueue := l } } := by
      simp [sessionStep, DispatchQueue.takeFront, hlive, WsSession.runCallback, hcalls,
        ← foldl_withReceived]
    rw [runUntilFault_ok hcalls]
    exact (congrArg (Option.bind · _) hstep).trans (ih _ hreturns)

private theorem run_dispatchReceived [DecidableEq γ] (callbacks : WSInputCallbacks γ)
    {s : WsSession γ}
    (hlive : s.receivedMessagesQueue.quit = false)
    (hreturns : ∀ b ∈ s.receivedMessagesQueue.callbacksQueue, Returns exec b) :
    (sessionMachine callbacks exec).run (s.receivedMessagesQueue.callbacksQueue.map .callback) s =
      some (s.dispatchReceived exec).1 := by
  have hempty := (remaining_runUntilFault s.receivedMessagesQueue.callbacksQueue s).mpr
    fun b hb => hreturns b (List.dropLast_subset _ hb)
  rw [dispatchReceived_eq hlive]
  dsimp only
  rw [hempty]
  exact run_callbacks _ s s.receivedMessagesQueue hlive hreturns

/-- The sessions of a server, in the iteration order of its map. Identifiers are
keys, and the queue of a session quits only when the session is destroyed. -/
structure WSServer (γ : Type*) where
  sessions : List (Bytes × WsSession γ) := []
  nodup : (sessions.map (·.1)).Nodup := by simp
  live : ∀ e ∈ sessions, e.2.receivedMessagesQueue.quit = false := by simp

/-- `doToAllSessions` on the snapshot of the map; an exception ends the loop. -/
def doToAllSessions (func : WsSession γ → WsSession γ × Option Fault)
    (sessions : List (Bytes × WsSession γ)) : List (Bytes × WsSession γ) × Option Fault :=
  sweep func sessions

namespace WSServer

def getSessById (srv : WSServer γ) (sessionID : Bytes) : Option (WsSession γ) :=
  lookup srv.sessions sessionID

/-- One tick: the server it leaves, and the fault that ended it. -/
def handleIncomingMessages (exec : Bound γ → Except Fault (List SendCall)) (srv : WSServer γ) :
    WSServer γ × Option Fault :=
  ({ sessions := (doToAllSessions (WsSession.dispatchReceived exec) srv.sessions).1
     nodup := keys_sweep (WsSession.dispatchReceived exec) srv.sessions ▸ srv.nodup
     live := forall_sweep (p := fun s : WsSession γ => s.receivedMessagesQueue.quit = false)
      (fun _ => live_dispatchReceived) srv.live },
    (doToAllSessions (WsSession.dispatchReceived exec) srv.sessions).2)

end WSServer

/-- No session before `A` holds a callback that does not return. -/
def Undisturbed (exec : Bound γ → Except Fault (List SendCall)) (srv : WSServer γ) (A : Bytes) : Prop :=
  ∀ e ∈ before srv.sessions A, ∀ b ∈ e.2.receivedMessagesQueue.callbacksQueue, Returns exec b

private theorem lookup_tick (exec : Bound γ → Except Fault (List SendCall)) {srv : WSServer γ}
    {A : Bytes}
    {s : WsSession γ} (hA : (A, s) ∈ srv.sessions) :
    (Undisturbed exec srv A →
        (srv.handleIncomingMessages exec).1.getSessById A = some (s.dispatchReceived exec).1) ∧
      (¬Undisturbed exec srv A → (srv.handleIncomingMessages exec).1.getSessById A = some s) := by
  obtain ⟨post, hsplit, hpre⟩ := split_of_mem srv.nodup hA
  have hfault : ∀ e ∈ before srv.sessions A, ((e.2.dispatchReceived exec).2 = none ↔
      ∀ b ∈ e.2.receivedMessagesQueue.callbacksQueue, Returns exec b) := by
    intro e he
    exact (dispatchReceived_spec exec (srv.live e (List.takeWhile_subset _ he))).1
  change (_ → lookup (sweep _ srv.sessions).1 A = _) ∧ (_ → lookup (sweep _ srv.sessions).1 A = _)
  constructor
  · intro hclear
    rw [hsplit]
    exact lookup_sweep_of_clear hpre fun e he => (hfault e he).mpr (hclear e he)
  · intro hstop
    rw [hsplit]
    apply lookup_sweep_of_stop hpre
    by_contra hnone
    simp only [not_exists, not_and, not_not] at hnone
    exact hstop fun e he => (hfault e he).mp (hnone e he)

/-- The same server with other messages queued on the sessions other than `A`. -/
def WSServer.requeue (srv : WSServer γ) (A : Bytes) (queues : Bytes → List (Bound γ)) : WSServer γ where
  sessions := srv.sessions.map fun e =>
    if e.1 = A then e
    else (e.1, { e.2 with receivedMessagesQueue :=
      { e.2.receivedMessagesQueue with callbacksQueue := queues e.1 } })
  nodup := by
    rw [List.map_map]
    refine (congrArg List.Nodup (List.map_congr_left fun e _ => ?_)).mpr srv.nodup
    dsimp only [Function.comp]
    split <;> rfl
  live := by
    intro e he
    obtain ⟨e₀, he₀, rfl⟩ := List.mem_map.mp he
    split
    · exact srv.live e₀ he₀
    · exact srv.live e₀ he₀

private theorem mem_requeue {srv : WSServer γ} {A : Bytes} {s : WsSession γ}
    (hA : (A, s) ∈ srv.sessions)
    (queues : Bytes → List (Bound γ)) : (A, s) ∈ (srv.requeue A queues).sessions :=
  List.mem_map.mpr ⟨(A, s), hA, if_pos rfl⟩

/-- A tick leaves the session `A`, which was `s`, with an empty queue and with the
same messages accepted, whether or not the other sessions hold other messages. -/
def Isolated (exec : Bound γ → Except Fault (List SendCall)) (srv : WSServer γ) (A : Bytes)
    (s : WsSession γ) (queues : Bytes → List (Bound γ)) : Prop :=
  ∃ t t' accepted,
    (srv.handleIncomingMessages exec).1.getSessById A = some t ∧
    ((srv.requeue A queues).handleIncomingMessages exec).1.getSessById A = some t' ∧
    t.receivedMessagesQueue.callbacksQueue = [] ∧ t'.receivedMessagesQueue.callbacksQueue = [] ∧
    t.sendQueue = s.sendQueue ++ accepted ∧ t'.sendQueue = s.sendQueue ++ accepted

private theorem emptied_iff {srv : WSServer γ} {A : Bytes} {s t : WsSession γ}
    (hA : (A, s) ∈ srv.sessions) (ht : (srv.handleIncomingMessages exec).1.getSessById A = some t) :
    t.receivedMessagesQueue.callbacksQueue = [] ↔
      s.receivedMessagesQueue.callbacksQueue = [] ∨
        Undisturbed exec srv A ∧
          ∀ b ∈ s.receivedMessagesQueue.callbacksQueue.dropLast, Returns exec b := by
  obtain ⟨hclear, hstop⟩ := lookup_tick exec hA
  obtain ⟨-, hempty, -⟩ := dispatchReceived_spec exec (srv.live _ hA)
  by_cases hun : Undisturbed exec srv A
  · obtain rfl := Option.some.inj (ht.symm.trans (hclear hun))
    rw [hempty]
    constructor
    · exact fun hreturns => Or.inr ⟨hun, hreturns⟩
    · rintro (hnil | ⟨-, hreturns⟩)
      · simp [hnil]
      · exact hreturns
  · obtain rfl := Option.some.inj (ht.symm.trans (hstop hun))
    simp [hun]

private theorem lookup_of_empty {srv : WSServer γ} {A : Bytes} {s : WsSession γ}
    (hA : (A, s) ∈ srv.sessions) (hnil : s.receivedMessagesQueue.callbacksQueue = []) :
    (srv.handleIncomingMessages exec).1.getSessById A = some s := by
  obtain ⟨hclear, hstop⟩ := lookup_tick exec hA
  by_cases hun : Undisturbed exec srv A
  · rw [hclear hun, dispatchReceived_eq (srv.live _ hA), hnil]
    simp only [DispatchQueue.runUntilFault, ← hnil]
  · exact hstop hun

private theorem isolated_iff {srv : WSServer γ} {A : Bytes} {s : WsSession γ}
    (hA : (A, s) ∈ srv.sessions)
    (queues : Bytes → List (Bound γ)) :
    Isolated exec srv A s queues ↔
      s.receivedMessagesQueue.callbacksQueue = [] ∨
        Undisturbed exec srv A ∧ Undisturbed exec (srv.requeue A queues) A ∧
          ∀ b ∈ s.receivedMessagesQueue.callbacksQueue.dropLast, Returns exec b := by
  have hA' := mem_requeue hA queues
  constructor
  · rintro ⟨t, t', accepted, ht, ht', hempty, hempty', -, -⟩
    rcases (emptied_iff hA ht).mp hempty with hnil | ⟨hun, hreturns⟩
    · exact Or.inl hnil
    rcases (emptied_iff hA' ht').mp hempty' with hnil | ⟨hun', -⟩
    · exact Or.inl hnil
    exact Or.inr ⟨hun, hun', hreturns⟩
  · rintro (hnil | ⟨hun, hun', hreturns⟩)
    · exact ⟨s, s, [], lookup_of_empty hA hnil, lookup_of_empty hA' hnil, hnil, hnil,
        (List.append_nil _).symm, (List.append_nil _).symm⟩
    · obtain ⟨-, hempty, accepted, hacc⟩ := dispatchReceived_spec exec (srv.live _ hA)
      exact ⟨_, _, accepted, (lookup_tick exec hA).1 hun, (lookup_tick exec hA').1 hun',
        hempty.mpr hreturns, hempty.mpr hreturns, hacc, hacc⟩

end

section
variable {δ : Type} (cv : Conversions δ)

/-- A queued callback that returns: only an analysis can end in a fault. -/
def Harmless (b : Bound ServerCallback) : Prop :=
  b.callback = .csvAnalize → Analyzable cv b.message.tail

variable {cv}

theorem returns_iff (b : Bound ServerCallback) : Returns (Bound.call cv) b ↔ Harmless cv b := by
  have hne : b.message ≠ [] := List.ne_nil_of_length_pos (Nat.lt_of_lt_of_le Nat.two_pos b.long)
  obtain ⟨callback, message, long⟩ := b
  cases callback with
  | ping => exact iff_of_true ⟨_, rfl⟩ (by simp [Harmless])
  | csvAnalize =>
    have hok : (∃ calls, csvAnalizeCallback cv message = .ok calls) ↔ Analyzable cv message.tail := by
      simp [csvAnalizeCallback_ok hne]
    simpa [Returns, Harmless, Bound.call] using hok
  | csvAnswer =>
    refine iff_of_true ⟨[], ?_⟩ (by simp [Harmless])
    simp [Bound.call, csvAnswerCallback, substr_tail hne, Bind.bind, Except.bind, pure, Except.pure]

/-- A tick takes part in an exchange as the callbacks it runs. -/
theorem Exchanged.tick {s₀ s : WsSession ServerCallback} {h : List (SessionEvent ServerCallback)}
    (hx : Exchanged s₀ h s) (hlive : s.receivedMessagesQueue.quit = false)
    (hharmless : ∀ b ∈ s.receivedMessagesQueue.callbacksQueue, Harmless cv b) :
    Exchanged s₀ (h ++ s.receivedMessagesQueue.callbacksQueue.map .callback)
      (s.dispatchReceived (Bound.call cv)).1 := by
  have hrun := run_dispatchReceived operationCallbacks hlive
    fun b hb => (returns_iff b).mpr (hharmless b hb)
  refine hx.path (EventMachine.path_of_run hrun ?_)
  intro e he
  obtain ⟨b, -, rfl⟩ := List.mem_map.mp he
  trivial

/-- The sessions visited before `A` hold no analysis that ends in a fault. -/
def HarmlessBefore (cv : Conversions δ) (srv : WSServer ServerCallback) (A : Bytes) : Prop :=
  ∀ e ∈ before srv.sessions A, ∀ b ∈ e.2.receivedMessagesQueue.callbacksQueue, Harmless cv b

/-- A tick keeps a session apart from the others exactly when it has nothing to
run, or every session visited before it holds only harmless messages, in both
states, and so does the session itself up to its last message. -/
theorem tick_isolated_iff (cv : Conversions δ) (srv : WSServer ServerCallback) {A : Bytes}
    {s : WsSession ServerCallback} (hA : (A, s) ∈ srv.sessions)
    (queues : Bytes → List (Bound ServerCallback)) :
    Isolated (Bound.call cv) srv A s queues ↔
      s.receivedMessagesQueue.callbacksQueue = [] ∨
        HarmlessBefore cv srv A ∧ HarmlessBefore cv (srv.requeue A queues) A ∧
          ∀ b ∈ s.receivedMessagesQueue.callbacksQueue.dropLast, Harmless cv b := by
  rw [isolated_iff hA]
  simp only [Undisturbed, HarmlessBefore, returns_iff]

end

/-- A session with a ping to answer. -/
def pinged : WsSession ServerCallback :=
  { id := [65]
    ws := { isOpen := true }
    receivedMessagesQueue := { callbacksQueue := [pingMessage], threads := 0 } }

/-- Two open sessions, of which the second has a ping to answer. -/
def twoSessions : WSServer ServerCallback where
  sessions := [([66], { id := [66], ws := { isOpen := true } }), ([65], pinged)]
  nodup := by decide
  live := by simp [pinged]

theorem tick_isolated_iff_two :
    Isolated (Bound.call wholeConversions) twoSessions [65] pinged (fun _ => []) ↔
      pinged.receivedMessagesQueue.callbacksQueue = [] ∨
        HarmlessBefore wholeConversions twoSessions [65] ∧
          HarmlessBefore wholeConversions (twoSessions.requeue [65] fun _ => []) [65] ∧
          ∀ b ∈ pinged.receivedMessagesQueue.callbacksQueue.dropLast, Harmless wholeConversions b :=
  tick_isolated_iff wholeConversions twoSessions (by simp [twoSessions]) _

/-- The other session's request with a single column ends the tick before the ping is answered. -/
theorem tick_oneColumn_disturbs :
    ¬ Isolated (Bound.call wholeConversions) twoSessions [65] pinged
      (fun _ => [⟨.csvAnalize, 49 :: someDate ++ [lf], by decide⟩]) := by
  rw [isolated_iff (by simp [twoSessions])]
  rintro (hnil | ⟨-, hun, -⟩)
  · exact absurd hnil (List.cons_ne_nil _ _)
  · obtain ⟨calls, hcalls⟩ := hun _ (List.mem_singleton_self _) _ (List.mem_singleton_self _)
    have hfault : Bound.call wholeConversions
        ⟨.csvAnalize, 49 :: someDate ++ [lf], by decide⟩ = .error .bareThrow := by rfl
    exact absurd (hfault.symm.trans hcalls) (by simp)

end Boostander.Net
