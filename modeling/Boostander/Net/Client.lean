import Boostander.Net.ReadLoop
import Boostander.Net.RowCount
import Boostander.Net.SendProgress
import Boostander.Net.ServerLifecycle

/-! The client program, `client/main.cpp`. Its main thread waits for a session that the
threads of the io_context connect in three stages, and only then starts to talk. -/
namespace Boostander.Net
open Algo Library

/-- Where the main thread is. -/
inductive MainPhase where
  /-- The session is in the map. -/
  | added
  /-- In the loop of `waitForConnect`. -/
  | waiting (endTime currentTime : Nat)
  /-- The loop has ended and its result is still to be read. -/
  | leaving
  | connected
  /-- `runAsClient` has returned. -/
  | started
  /-- The request was sent, and the ticks run. -/
  | ticking
  /-- The connection was given up. -/
  | finishing
  deriving DecidableEq, Repr

/-- The session that the client opens, with the operations that connect it. `shaken` says
that the outstanding handshake has succeeded. The listener that `run` starts in the
client as well is left out, as if nobody connects to its random port. -/
structure Client (γ : Type*) where
  session : WsSession γ
  resolves : Nat := 0
  connects : Nat := 0
  handshakes : Nat := 0
  shaken : Bool := false
  phase : MainPhase := .added

namespace Client
variable {γ : Type*}

def onSessionFail (c : Client γ) : Client γ := { c with session := c.session.onSessionFail }

def connectAsClient (c : Client γ) : Client γ := { c with resolves := c.resolves + 1 }

def onResolve (c : Client γ) (ec : Option ErrorCode) : Client γ :=
  if ec.isSome then c.onSessionFail else { c with connects := c.connects + 1 }

def onConnect (c : Client γ) (ec : Option ErrorCode) : Client γ :=
  if ec.isSome then c.onSessionFail else { c with handshakes := c.handshakes + 1 }

def onHandshake (c : Client γ) (ec : Option ErrorCode) : Client γ :=
  if ec.isSome then c.onSessionFail else c

/-- The argument of `waitForConnect`, in ticks of the clock. -/
def maxWait : Nat := 1000 * 10^6

/-- One test of the loop of `waitForConnect`, with the time read after the sleep. -/
def pollConnect (c : Client γ) (endTime currentTime now : Nat) : MainPhase :=
  if !c.session.ws.isOpen && decide (currentTime < endTime) then .waiting endTime now else .leaving

end Client

/-- What can happen to the client. -/
inductive ClientEvent (γ : Type*) where
  | connectAsClient (now : Nat)
  | resolved (ec : Option ErrorCode)
  | connected (ec : Option ErrorCode)
  /-- The handshake succeeds; its handler has still to run. -/
  | opened
  /-- The handler of the handshake runs, without an error exactly if it has succeeded. -/
  | handshaken (ec : Option ErrorCode)
  | poll (now : Nat)
  /-- `waitForConnect` returns. -/
  | waited
  | runAsClient (now : Nat)
  | request
  | session (e : SessionEvent γ)

/-- The events of a session that its own operations can bring. Control frames arrive
during a read, and callbacks run in ticks, which work on a copy of the map and so also
after the session has left it. -/
def Client.Allows {γ : Type*} (c : Client γ) : SessionEvent γ → Bool
  | .runAsServer _ => false
  | .runAsClient _ => false
  | .opened => false
  | .send _ => false
  | .control _ => decide (0 < c.session.ws.reads)
  | .callback _ => decide (c.phase = .ticking)
  | _ => true

section
variable {γ : Type*} [DecidableEq γ] (callbacks : WSInputCallbacks γ)
  (exec : Bound γ → Except Fault (List SendCall)) (csvContents : Bytes)

/-- The machine of the client that sends a request for `csvContents`. -/
def clientStep : ClientEvent γ → Client γ → Option (Client γ)
  | .connectAsClient now, c =>
    if c.phase = .added then
      some { c.connectAsClient with phase := .waiting (now + Client.maxWait) now }
    else none
  | .resolved ec, c =>
    if 0 < c.resolves then some (Client.onResolve { c with resolves := c.resolves - 1 } ec) else none
  | .connected ec, c =>
    if 0 < c.connects then some (Client.onConnect { c with connects := c.connects - 1 } ec) else none
  | .opened, c =>
    if 0 < c.handshakes ∧ c.shaken = false then
      some { c with session := c.session.setOpen true, shaken := true }
    else none
  | .handshaken ec, c =>
    if 0 < c.handshakes ∧ c.shaken = ec.isNone then
      some (Client.onHandshake { c with handshakes := c.handshakes - 1 } ec)
    else none
  | .poll now, c =>
    match c.phase with
    | .waiting endTime currentTime => some { c with phase := c.pollConnect endTime currentTime now }
    | _ => none
  | .waited, c =>
    if c.phase = .leaving then
      some { c with phase := if c.session.ws.isOpen then .connected else .finishing }
    else none
  | .runAsClient now, c =>
    if c.phase = .connected then some { c with session := c.session.runAsClient now, phase := .started }
    else none
  | .request, c =>
    if c.phase = .started then
      some { c with
        session := c.session.sendCall (.shared (clientRequest csvContents))
        phase := .ticking }
    else none
  | .session e, c =>
    if c.Allows e then (sessionStep callbacks exec e c.session).map fun s => { c with session := s }
    else none

def clientMachine : EventMachine (Client γ) (ClientEvent γ) :=
  ⟨clientStep callbacks exec csvContents⟩

end

/-- The stages of a connection, as they begin and as they end. -/
inductive StageEvent where
  | resolve
  | resolved (ec : Option ErrorCode)
  | connected (ec : Option ErrorCode)
  | opened
  | handshaken (ec : Option ErrorCode)
  deriving DecidableEq, Repr

def ClientEvent.stage {γ : Type*} : ClientEvent γ → Option StageEvent
  | .connectAsClient _ => some .resolve
  | .resolved ec => some (.resolved ec)
  | .connected ec => some (.connected ec)
  | .opened => some .opened
  | .handshaken ec => some (.handshaken ec)
  | _ => none

def stagesOf {γ : Type*} (h : List (ClientEvent γ)) : List StageEvent := h.filterMap ClientEvent.stage

/-- The stages so far, with the number of lookups, connects and handshakes outstanding
and whether the handshake has succeeded: each is taken once, after the one before it has
succeeded. -/
inductive Stages : List StageEvent → Nat → Nat → Nat → Bool → Prop where
  | start : Stages [] 0 0 0 false
  | resolving : Stages [.resolve] 1 0 0 false
  | unresolved (ec : ErrorCode) : Stages [.resolve, .resolved (some ec)] 0 0 0 false
  | connecting : Stages [.resolve, .resolved none] 0 1 0 false
  | unconnected (ec : ErrorCode) : Stages [.resolve, .resolved none, .connected (some ec)] 0 0 0 false
  | handshaking : Stages [.resolve, .resolved none, .connected none] 0 0 1 false
  | unshaken (ec : ErrorCode) :
      Stages [.resolve, .resolved none, .connected none, .handshaken (some ec)] 0 0 0 false
  | opened : Stages [.resolve, .resolved none, .connected none, .opened] 0 0 1 true
  | shaken : Stages [.resolve, .resolved none, .connected none, .opened, .handshaken none] 0 0 0 true

/-- The three stages, each of which has succeeded. -/
def allStages : List StageEvent := [.resolve, .resolved none, .connected none, .opened]

section
variable {γ : Type*} {csvContents id : Bytes}

private theorem Stages.concat_opened {l : List StageEvent} {resolves connects handshakes : Nat}
    (h : Stages l resolves connects handshakes false) (hpos : 0 < handshakes) :
    l ++ [.opened] = allStages := by
  cases h with
  | handshaking => rfl
  | _ => exact absurd hpos (Nat.lt_irrefl 0)

private theorem stagesOf_concat (h : List (ClientEvent γ)) (e : ClientEvent γ) :
    stagesOf (h ++ [e]) = stagesOf h ++ e.stage.toList := by
  cases he : e.stage <;> simp [stagesOf, he]

private theorem append_stage {e : ClientEvent γ} (he : e.stage = none) (l : List StageEvent) :
    l ++ e.stage.toList = l := by
  rw [he, Option.toList_none, List.append_nil]

/-- The phases in which the client talks, or is about to. -/
def MainPhase.Talking (phase : MainPhase) : Prop :=
  phase = .connected ∨ phase = .started ∨ phase = .ticking

/-- A session that was created and that only its stream and the map have changed since. -/
def Untouched (id : Bytes) (s : WsSession γ) : Prop :=
  ∃ isOpen registered,
    s = { WsSession.created id with ws := { isOpen := isOpen }, registered := registered }

private theorem untouched_created (id : Bytes) : Untouched id (WsSession.created id : WsSession γ) :=
  ⟨false, true, rfl⟩

private theorem Untouched.fail {s : WsSession γ} (h : Untouched id s) :
    Untouched id s.onSessionFail := by
  obtain ⟨isOpen, registered, rfl⟩ := h
  exact ⟨isOpen, false, rfl⟩

private theorem Untouched.setOpen {s : WsSession γ} (h : Untouched id s) (b : Bool) :
    Untouched id (s.setOpen b) := by
  obtain ⟨isOpen, registered, rfl⟩ := h
  exact ⟨b, registered, rfl⟩

/-- What the client has gone through. -/
structure Gone (csvContents id : Bytes) (l : List StageEvent) (c : Client γ) : Prop where
  stages : Stages l c.resolves c.connects c.handshakes c.shaken
  added : c.phase = .added → l = []
  opened : c.session.ws.isOpen = true → allStages <+: l
  talking : c.phase.Talking → allStages <+: l
  untouched : c.phase ≠ .started → c.phase ≠ .ticking → Untouched id c.session
  sends : ∃ o, c.session.Sends o ∧ (c.phase ≠ .ticking → o.accepted = []) ∧
    (c.phase = .ticking → acceptedTexts [.shared (clientRequest csvContents)] <+: o.accepted)

private theorem gone_created (csvContents id : Bytes) :
    Gone csvContents id [] ({ session := WsSession.created id } : Client γ) := by
  refine ⟨.start, fun _ => rfl, ?_, ?_, fun _ _ => untouched_created id,
    {}, ⟨rfl, rfl, rfl, rfl⟩, fun _ => rfl, ?_⟩
  · intro hopen
    cases hopen
  · rintro (hphase | hphase | hphase) <;> cases hphase
  · intro hphase
    cases hphase

private theorem Gone.staged {l l' : List StageEvent} {c c' : Client γ} (h : Gone csvContents id l c)
    (hstages : Stages (l ++ l') c'.resolves c'.connects c'.handshakes c'.shaken)
    (hadded : c'.phase = .added → l ++ l' = []) (hphase : c'.phase = c.phase)
    (hsession : c'.session = c.session ∨ c'.session = c.session.onSessionFail) :
    Gone csvContents id (l ++ l') c' := by
  have hview : c'.session.sendView = c.session.sendView := by
    rcases hsession with heq | heq <;> rw [heq]
    rfl
  have hopen : c'.session.ws.isOpen = c.session.ws.isOpen := by
    rcases hsession with heq | heq <;> rw [heq]
    rfl
  obtain ⟨o, hsends, hsilent, hspoken⟩ := h.sends
  refine ⟨hstages, hadded, ?_, ?_, ?_, o, hsends.congr hview, hphase ▸ hsilent, hphase ▸ hspoken⟩
  · intro hc
    exact (h.opened (hopen.symm.trans hc)).trans (List.prefix_append _ _)
  · intro hc
    exact (h.talking (hphase ▸ hc)).trans (List.prefix_append _ _)
  · intro hstarted hticking
    have huntouched := h.untouched (hphase ▸ hstarted) (hphase ▸ hticking)
    rcases hsession with heq | heq <;> rw [heq]
    · exact huntouched
    · exact huntouched.fail

end

section
variable {γ : Type*} [DecidableEq γ] {callbacks : WSInputCallbacks γ}
  {exec : Bound γ → Except Fault (List SendCall)} {csvContents id : Bytes}

/-- What the steps can do, with their guards. -/
inductive ClientMove (callbacks : WSInputCallbacks γ) (exec : Bound γ → Except Fault (List SendCall))
    (csvContents : Bytes) (c : Client γ) : ClientEvent γ → Client γ → Prop where
  | connectAsClient (now : Nat) (hphase : c.phase = .added) :
      ClientMove callbacks exec csvContents c (.connectAsClient now)
        { c.connectAsClient with phase := .waiting (now + Client.maxWait) now }
  | resolved (ec : Option ErrorCode) (hpos : 0 < c.resolves) :
      ClientMove callbacks exec csvContents c (.resolved ec)
        (Client.onResolve { c with resolves := c.resolves - 1 } ec)
  | connected (ec : Option ErrorCode) (hpos : 0 < c.connects) :
      ClientMove callbacks exec csvContents c (.connected ec)
        (Client.onConnect { c with connects := c.connects - 1 } ec)
  | opened (hpos : 0 < c.handshakes) (hshaken : c.shaken = false) :
      ClientMove callbacks exec csvContents c .opened
        { c with session := c.session.setOpen true, shaken := true }
  | handshaken (ec : Option ErrorCode) (hpos : 0 < c.handshakes) (hshaken : c.shaken = ec.isNone) :
      ClientMove callbacks exec csvContents c (.handshaken ec)
        (Client.onHandshake { c with handshakes := c.handshakes - 1 } ec)
  | poll (now endTime currentTime : Nat) (hphase : c.phase = .waiting endTime currentTime) :
      ClientMove callbacks exec csvContents c (.poll now)
        { c with phase := c.pollConnect endTime currentTime now }
  | waited (hphase : c.phase = .leaving) :
      ClientMove callbacks exec csvContents c .waited
        { c with phase := if c.session.ws.isOpen then .connected else .finishing }
  | runAsClient (now : Nat) (hphase : c.phase = .connected) :
      ClientMove callbacks exec csvContents c (.runAsClient now)
        { c with session := c.session.runAsClient now, phase := .started }
  | request (hphase : c.phase = .started) :
      ClientMove callbacks exec csvContents c .request
        { c with
          session := c.session.sendCall (.shared (clientRequest csvContents))
          phase := .ticking }
  | session (e : SessionEvent γ) (s : WsSession γ) (hallows : c.Allows e = true)
      (hs : sessionStep callbacks exec e c.session = some s) :
      ClientMove callbacks exec csvContents c (.session e) { c with session := s }

theorem clientMove_of_step {e : ClientEvent γ} {c c' : Client γ}
    (hs : clientStep callbacks exec csvContents e c = some c') :
    ClientMove callbacks exec csvContents c e c' := by
  cases e with
  | connectAsClient now =>
    obtain ⟨hphase, hs⟩ := Option.ite_none_right_eq_some.mp hs
    exact Option.some.inj hs ▸ .connectAsClient now hphase
  | resolved ec =>
    obtain ⟨hpos, hs⟩ := Option.ite_none_right_eq_some.mp hs
    exact Option.some.inj hs ▸ .resolved ec hpos
  | connected ec =>
    obtain ⟨hpos, hs⟩ := Option.ite_none_right_eq_some.mp hs
    exact Option.some.inj hs ▸ .connected ec hpos
  | opened =>
    obtain ⟨⟨hpos, hshaken⟩, hs⟩ := Option.ite_none_right_eq_some.mp hs
    exact Option.some.inj hs ▸ .opened hpos hshaken
  | handshaken ec =>
    obtain ⟨⟨hpos, hshaken⟩, hs⟩ := Option.ite_none_right_eq_some.mp hs
    exact Option.some.inj hs ▸ .handshaken ec hpos hshaken
  | poll now =>
    simp only [clientStep] at hs
    split at hs
    · rename_i endTime currentTime hphase
      exact Option.some.inj hs ▸ .poll now endTime currentTime hphase
    · cases hs
  | waited =>
    obtain ⟨hphase, hs⟩ := Option.ite_none_right_eq_some.mp hs
    exact Option.some.inj hs ▸ .waited hphase
  | runAsClient now =>
    obtain ⟨hphase, hs⟩ := Option.ite_none_right_eq_some.mp hs
    exact Option.some.inj hs ▸ .runAsClient now hphase
  | request =>
    obtain ⟨hphase, hs⟩ := Option.ite_none_right_eq_some.mp hs
    exact Option.some.inj hs ▸ .request hphase
  | session e =>
    obtain ⟨hallows, hs⟩ := Option.ite_none_right_eq_some.mp hs
    obtain ⟨s, hsession, rfl⟩ := Option.map_eq_some_iff.mp hs
    exact .session e s hallows hsession

private theorem stages_step {e : ClientEvent γ} {c c' : Client γ} {l : List StageEvent}
    (h : Stages l c.resolves c.connects c.handshakes c.shaken) (hadded : c.phase = .added → l = [])
    (hm : ClientMove callbacks exec csvContents c e c') :
    Stages (l ++ e.stage.toList) c'.resolves c'.connects c'.handshakes c'.shaken ∧
      (c'.phase = .added → l ++ e.stage.toList = []) := by
  obtain ⟨session, resolves, connects, handshakes, shaken, phase⟩ := c
  cases hm with
  | connectAsClient now hphase =>
    obtain rfl := hadded hphase
    cases h
    exact ⟨.resolving, fun hc => absurd hc (by simp)⟩
  | resolved ec hpos =>
    simp only at h hpos hadded
    cases h with
    | resolving =>
      have hphase : phase ≠ .added := fun hc => absurd (hadded hc) (by simp)
      cases ec with
      | none => exact ⟨.connecting, fun hc => absurd hc hphase⟩
      | some ec => exact ⟨.unresolved ec, fun hc => absurd hc hphase⟩
    | _ => exact absurd hpos (Nat.lt_irrefl 0)
  | connected ec hpos =>
    simp only at h hpos hadded
    cases h with
    | connecting =>
      have hphase : phase ≠ .added := fun hc => absurd (hadded hc) (by simp)
      cases ec with
      | none => exact ⟨.handshaking, fun hc => absurd hc hphase⟩
      | some ec => exact ⟨.unconnected ec, fun hc => absurd hc hphase⟩
    | _ => exact absurd hpos (Nat.lt_irrefl 0)
  | opened hpos hshaken =>
    simp only at h hpos hadded hshaken
    cases h with
    | handshaking =>
      have hphase : phase ≠ .added := fun hc => absurd (hadded hc) (by simp)
      exact ⟨.opened, fun hc => absurd hc hphase⟩
    | opened => cases hshaken
    | _ => exact absurd hpos (Nat.lt_irrefl 0)
  | handshaken ec hpos hshaken =>
    simp only at h hpos hadded hshaken
    have hphase : l ≠ [] → phase ≠ .added := fun hne hc => hne (hadded hc)
    cases h with
    | handshaking =>
      cases ec with
      | none => cases hshaken
      | some ec => exact ⟨.unshaken ec, fun hc => absurd hc (hphase (by simp))⟩
    | opened =>
      cases ec with
      | none => exact ⟨.shaken, fun hc => absurd hc (hphase (by simp))⟩
      | some ec => cases hshaken
    | _ => exact absurd hpos (Nat.lt_irrefl 0)
  | poll now endTime currentTime hphase =>
    refine ⟨by simpa [ClientEvent.stage] using h, ?_⟩
    intro hc
    simp only [Client.pollConnect] at hc
    split at hc <;> cases hc
  | waited hphase =>
    refine ⟨by simpa [ClientEvent.stage] using h, ?_⟩
    intro hc
    simp only at hc
    split at hc <;> cases hc
  | runAsClient now hphase => exact ⟨by simpa [ClientEvent.stage] using h, fun hc => absurd hc (by simp)⟩
  | request hphase => exact ⟨by simpa [ClientEvent.stage] using h, fun hc => absurd hc (by simp)⟩
  | session e s hallows hs => simpa [ClientEvent.stage] using ⟨h, hadded⟩

private theorem Untouched.step {c : Client γ} {e : SessionEvent γ} {s : WsSession γ}
    (h : Untouched id c.session) (hphase : c.phase ≠ .ticking) (hallows : c.Allows e = true)
    (hs : sessionStep callbacks exec e c.session = some s) : Untouched id s := by
  obtain ⟨isOpen, registered, hsession⟩ := h
  rw [hsession] at hs
  cases e with
  | closed =>
    obtain rfl := Option.some.inj hs
    exact ⟨false, registered, rfl⟩
  | accepted ec => exact absurd (step_accepted hs).1 (Nat.lt_irrefl 0)
  | received ec data => exact absurd (step_received hs).1.1 (Nat.lt_irrefl 0)
  | written ec dp => exact absurd (step_written hs).1 List.not_mem_nil
  | pinged ec => exact absurd (step_pinged hs).1 (Nat.lt_irrefl 0)
  | control now =>
    have hreads : 0 < c.session.ws.reads := of_decide_eq_true hallows
    rw [hsession] at hreads
    exact absurd hreads (Nat.lt_irrefl 0)
  | expired ec => exact absurd (step_expired hs).1 (Nat.lt_irrefl 0)
  | timer ec now => exact absurd (step_timer hs).1 List.not_mem_nil
  | callback b => exact absurd (of_decide_eq_true hallows) hphase
  | _ => cases hallows

private theorem isOpen_step {s s' : WsSession γ} {e : SessionEvent γ}
    (hs : sessionStep callbacks exec e s = some s') (hopened : e ≠ .opened)
    (hopen : s'.ws.isOpen = true) : s.ws.isOpen = true := by
  cases e with
  | runAsServer now =>
    obtain rfl := Option.some.inj hs
    exact (WsSession.isOpen_of_watchFrame (WsSession.watchFrame_startTimer s now)).symm.trans hopen
  | runAsClient now =>
    obtain rfl := Option.some.inj hs
    exact (WsSession.isOpen_of_watchFrame (WsSession.watchFrame_startTimer s now)).symm.trans hopen
  | opened => exact absurd rfl hopened
  | closed =>
    obtain rfl := Option.some.inj hs
    cases hopen
  | accepted ec =>
    obtain ⟨-, rfl⟩ := step_accepted hs
    exact (WsSession.isOpen_of_readFrame (WsSession.readFrame_onAccept s.acceptDone ec)).symm.trans hopen
  | received ec data =>
    obtain ⟨-, rfl⟩ := step_received hs
    exact (WsSession.isOpen_of_readFrame
      (WsSession.readFrame_onRead callbacks (s.readDone data) ec)).symm.trans hopen
  | written ec dp =>
    obtain ⟨-, rfl⟩ := step_written hs
    have hview := WsSession.readView_onWrite (s.writeDone dp) ec
    simp only [WsSession.readView, Prod.mk.injEq] at hview
    exact hview.2.2.2.symm.trans hopen
  | pinged ec => exact (WsSession.isOpen_of_watchFrame (watchFrame_step hs trivial)).symm.trans hopen
  | control now => exact (WsSession.isOpen_of_watchFrame (watchFrame_step hs trivial)).symm.trans hopen
  | expired ec => exact (WsSession.isOpen_of_watchFrame (watchFrame_step hs trivial)).symm.trans hopen
  | timer ec now => exact (WsSession.isOpen_of_watchFrame (watchFrame_step hs trivial)).symm.trans hopen
  | send call =>
    obtain rfl := Option.some.inj hs
    have hview := WsSession.readView_of_sendFrame (WsSession.sendFrame_foldl s [call])
    simp only [WsSession.readView, Prod.mk.injEq] at hview
    exact hview.2.2.2.symm.trans hopen
  | callback b =>
    obtain ⟨q, calls, -, -, rfl⟩ := step_callback hs
    have hview := WsSession.readView_of_sendFrame
      (WsSession.sendFrame_foldl { s with receivedMessagesQueue := q } calls)
    simp only [WsSession.readView, Prod.mk.injEq] at hview
    exact hview.2.2.2.symm.trans hopen

private theorem Gone.session {l : List StageEvent} {c : Client γ} {e : SessionEvent γ}
    {s : WsSession γ} (h : Gone csvContents id l c) (hallows : c.Allows e = true)
    (hs : sessionStep callbacks exec e c.session = some s) :
    Gone csvContents id l { c with session := s } := by
  obtain ⟨o, hsends, hsilent, hspoken⟩ := h.sends
  obtain ⟨o', hsends', hacc⟩ := sends_step hsends hs
  have hopened : e ≠ .opened := by
    rintro rfl
    cases hallows
  have hcalls : c.phase ≠ .ticking → e.calls exec = [] := by
    intro hphase
    cases e with
    | send call => cases hallows
    | callback b => exact absurd (of_decide_eq_true hallows) hphase
    | _ => rfl
  refine ⟨h.stages, h.added, fun hc => h.opened (isOpen_step hs hopened hc), h.talking, ?_,
    o', hsends', ?_, ?_⟩
  · exact fun hstarted hticking => (h.untouched hstarted hticking).step hticking hallows hs
  · intro hphase
    rw [hacc, hsilent hphase, hcalls hphase]
    rfl
  · intro hphase
    rw [hacc]
    exact (hspoken hphase).trans (List.prefix_append _ _)

private theorem gone_step {l : List StageEvent} {c c' : Client γ} {e : ClientEvent γ}
    (h : Gone csvContents id l c) (hm : ClientMove callbacks exec csvContents c e c') :
    Gone csvContents id (l ++ e.stage.toList) c' := by
  obtain ⟨hstages, hadded⟩ := stages_step h.stages h.added hm
  cases hm with
  | connectAsClient now hphase =>
    obtain ⟨o, hsends, hsilent, -⟩ := h.sends
    refine ⟨hstages, hadded, ?_, ?_, ?_, o, hsends, fun _ => hsilent (by simp [hphase]),
      fun hc => absurd hc (by simp)⟩
    · exact fun hc => (h.opened hc).trans (List.prefix_append _ _)
    · rintro (hc | hc | hc) <;> cases hc
    · exact fun _ _ => h.untouched (by simp [hphase]) (by simp [hphase])
  | resolved ec hpos =>
    refine h.staged hstages hadded ?_ ?_
    · cases ec <;> rfl
    · cases ec
      · exact .inl rfl
      · exact .inr rfl
  | connected ec hpos =>
    refine h.staged hstages hadded ?_ ?_
    · cases ec <;> rfl
    · cases ec
      · exact .inl rfl
      · exact .inr rfl
  | opened hpos hshaken =>
    obtain ⟨o, hsends, hsilent, hspoken⟩ := h.sends
    have hbefore := h.stages
    rw [hshaken] at hbefore
    have hall : allStages <+: l ++ [.opened] := (hbefore.concat_opened hpos).symm ▸ List.prefix_rfl
    refine ⟨hstages, hadded, fun _ => hall, fun _ => hall, ?_, o, hsends.congr rfl, hsilent, hspoken⟩
    exact fun hstarted hticking => (h.untouched hstarted hticking).setOpen true
  | handshaken ec hpos hshaken =>
    refine h.staged hstages hadded ?_ ?_
    · cases ec <;> rfl
    · cases ec
      · exact .inl rfl
      · exact .inr rfl
  | poll now endTime currentTime hphase =>
    obtain ⟨o, hsends, hsilent, -⟩ := h.sends
    rw [append_stage rfl] at hstages hadded ⊢
    have hnext : c.pollConnect endTime currentTime now = .waiting endTime now ∨
        c.pollConnect endTime currentTime now = .leaving := by
      rw [Client.pollConnect]
      split
      · exact .inl rfl
      · exact .inr rfl
    refine ⟨hstages, hadded, h.opened, ?_, ?_, o, hsends, fun _ => hsilent (by simp [hphase]), ?_⟩
    · rintro (hc | hc | hc) <;> rcases hnext with hn | hn <;> simp [hn] at hc
    · exact fun _ _ => h.untouched (by simp [hphase]) (by simp [hphase])
    · intro hc
      rcases hnext with hn | hn <;> simp [hn] at hc
  | waited hphase =>
    obtain ⟨o, hsends, hsilent, -⟩ := h.sends
    rw [append_stage rfl] at hstages hadded ⊢
    refine ⟨hstages, hadded, h.opened, ?_, ?_, o, hsends, fun _ => hsilent (by simp [hphase]), ?_⟩
    · intro hc
      apply h.opened
      by_contra hopen
      simp [MainPhase.Talking, hopen] at hc
    · exact fun _ _ => h.untouched (by simp [hphase]) (by simp [hphase])
    · intro hc
      simp only at hc
      split at hc <;> cases hc
  | runAsClient now hphase =>
    obtain ⟨o, hsends, hsilent, -⟩ := h.sends
    rw [append_stage rfl] at hstages hadded ⊢
    have htalking := h.talking (.inl hphase)
    refine ⟨hstages, hadded, fun _ => htalking, fun _ => htalking, fun hc => absurd rfl hc,
      o, hsends.congr (WsSession.sendView_runAsClient _ now), fun _ => hsilent (by simp [hphase]),
      fun hc => absurd hc (by simp)⟩
  | request hphase =>
    obtain ⟨o, hsends, hsilent, -⟩ := h.sends
    obtain ⟨o', hsends', -, hacc⟩ := hsends.sendCall (.shared (clientRequest csvContents))
    rw [append_stage rfl] at hstages hadded ⊢
    have htalking := h.talking (.inr (.inl hphase))
    rw [hsilent (by simp [hphase]), List.nil_append] at hacc
    refine ⟨hstages, hadded, fun _ => htalking, fun _ => htalking, fun _ hc => absurd rfl hc,
      o', hsends', fun hc => absurd rfl hc, fun _ => hacc ▸ List.prefix_rfl⟩
  | session e s hallows hs =>
    rw [append_stage rfl]
    exact h.session hallows hs

private theorem gone_run {h : List (ClientEvent γ)} {c : Client γ}
    (hr : (clientMachine callbacks exec csvContents).run h { session := WsSession.created id } = some c) :
    Gone csvContents id (stagesOf h) c := by
  apply (EventMachine.reaches_of_run hr).invariant fun h c => Gone csvContents id (stagesOf h) c
  · exact gone_created csvContents id
  · intro h u v e hu _ hstep
    rw [stagesOf_concat]
    exact gone_step hu (clientMove_of_step hstep)

/-- The three stages are taken one at a time, each once and only after the one before it
has succeeded, and the client hands a message to its stream only after all three have
succeeded, the first one being its request. -/
theorem client_asks_first {h : List (ClientEvent γ)} {c : Client γ}
    (hr : (clientMachine callbacks exec csvContents).run h { session := WsSession.created id } = some c) :
    Stages (stagesOf h) c.resolves c.connects c.handshakes c.shaken ∧
      (c.session.ws.handed ≠ [] → allStages <+: stagesOf h ∧
        acceptedTexts [.shared (clientRequest csvContents)] <+: c.session.ws.handed) := by
  have hgone := gone_run hr
  refine ⟨hgone.stages, ?_⟩
  intro hhanded
  obtain ⟨o, hsends, hsilent, hspoken⟩ := hgone.sends
  have hfirst := o.handed_prefix
  rw [← hsends.handed] at hfirst
  have hphase : c.phase = .ticking := by
    by_contra hphase
    rw [hsilent hphase] at hfirst
    exact hhanded (List.prefix_nil.mp hfirst)
  refine ⟨hgone.talking (.inr (.inr hphase)), ?_⟩
  rcases List.prefix_or_prefix_of_prefix (hspoken hphase) hfirst with hle | hge
  · exact hle
  · have hone : (acceptedTexts [.shared (clientRequest csvContents)]).length ≤ 1 :=
      List.length_filter_le _ _
    have hpos := List.length_pos_of_ne_nil hhanded
    rw [hge.eq_of_length (by have := hge.length_le; omega)]

private theorem finishing_step {c c' : Client γ} {e : ClientEvent γ} (hphase : c.phase = .finishing)
    (hm : ClientMove callbacks exec csvContents c e c') : c'.phase = .finishing := by
  cases hm with
  | connectAsClient now hc => simp [hphase] at hc
  | resolved ec hpos => cases ec <;> exact hphase
  | connected ec hpos => cases ec <;> exact hphase
  | opened hpos hshaken => exact hphase
  | handshaken ec hpos hshaken => cases ec <;> exact hphase
  | poll now endTime currentTime hc => simp [hphase] at hc
  | waited hc => simp [hphase] at hc
  | runAsClient now hc => simp [hphase] at hc
  | request hc => simp [hphase] at hc
  | session e s hallows hs => exact hphase

/-- A connection that was given up stays so, even if its handshake succeeds later: the
session never reads, sends or waits on its timer, and what is left outstanding of it is
at most the one stage that was under way. -/
theorem client_gives_up {h k : List (ClientEvent γ)} {c c' : Client γ}
    (hr : (clientMachine callbacks exec csvContents).run h { session := WsSession.created id } = some c)
    (hphase : c.phase = .finishing)
    (hk : (clientMachine callbacks exec csvContents).run k c = some c') :
    c'.phase = .finishing ∧ c'.session.outstanding = 0 ∧ c'.session.ws.handed = [] ∧
      c'.session.sendQueue = [] ∧ c'.resolves + c'.connects + c'.handshakes ≤ 1 := by
  have hrun : (clientMachine callbacks exec csvContents).run (h ++ k)
      { session := WsSession.created id } = some c' := by
    rw [EventMachine.run_append, hr]
    exact hk
  have hfinishing : c'.phase = .finishing := by
    apply (EventMachine.reaches_of_run hk).invariant fun _ c => c.phase = .finishing
    · exact hphase
    · intro _ u v e hu _ hstep
      exact finishing_step hu (clientMove_of_step hstep)
  have hgone := gone_run hrun
  obtain ⟨isOpen, registered, hsession⟩ :=
    hgone.untouched (by simp [hfinishing]) (by simp [hfinishing])
  rw [hsession]
  refine ⟨hfinishing, rfl, rfl, rfl, ?_⟩
  have hstages := hgone.stages
  generalize stagesOf (h ++ k) = l at hstages
  generalize c'.resolves = resolves at hstages ⊢
  generalize c'.connects = connects at hstages ⊢
  generalize c'.handshakes = handshakes at hstages ⊢
  generalize c'.shaken = shaken at hstages
  cases hstages <;> omega

end

/-- The client connects, sees that its stream is open before the handler of the
handshake has run, and sends its request. -/
def connectedClient : List (ClientEvent ServerCallback) :=
  [.connectAsClient 0, .resolved none, .poll 1000000, .connected none, .opened, .poll 2000000, .waited,
    .runAsClient 2000000, .handshaken none, .request, .session (.written none (49 :: datedContents))]

theorem client_asks_first_connected : ∃ c : Client ServerCallback,
    (clientMachine operationCallbacks (Bound.call wholeConversions) datedContents).run connectedClient
      { session := WsSession.created [1] } = some c ∧
    Stages (stagesOf connectedClient) c.resolves c.connects c.handshakes c.shaken ∧
    allStages <+: stagesOf connectedClient ∧
    acceptedTexts [.shared (clientRequest datedContents)] <+: c.session.ws.handed := by
  obtain ⟨c, hr, hhanded⟩ : ∃ c : Client ServerCallback,
      (clientMachine operationCallbacks (Bound.call wholeConversions) datedContents).run connectedClient
        { session := WsSession.created [1] } = some c ∧
      c.session.ws.handed = [49 :: datedContents] := ⟨_, rfl, rfl⟩
  obtain ⟨hstages, hfirst⟩ := client_asks_first hr
  exact ⟨c, hr, hstages, hfirst (by simp [hhanded])⟩

/-- The connection takes longer than the client waits for it, and succeeds after that. -/
def lateClient : List (ClientEvent ServerCallback) :=
  [.connectAsClient 0, .resolved none, .poll 1000000000, .poll 1000000001, .waited]

theorem client_gives_up_late : ∃ c c' : Client ServerCallback,
    (clientMachine operationCallbacks (Bound.call wholeConversions) datedContents).run lateClient
      { session := WsSession.created [1] } = some c ∧
    (clientMachine operationCallbacks (Bound.call wholeConversions) datedContents).run
      [.connected none, .opened, .handshaken none] c = some c' ∧
    c'.session.ws.isOpen = true ∧ c'.phase = .finishing ∧ c'.session.outstanding = 0 ∧
    c'.session.ws.handed = [] ∧ c'.session.sendQueue = [] ∧
    c'.resolves + c'.connects + c'.handshakes ≤ 1 := by
  obtain ⟨c, c', hr, hphase, hk, hopen⟩ : ∃ c c' : Client ServerCallback,
      (clientMachine operationCallbacks (Bound.call wholeConversions) datedContents).run lateClient
        { session := WsSession.created [1] } = some c ∧ c.phase = .finishing ∧
      (clientMachine operationCallbacks (Bound.call wholeConversions) datedContents).run
        [.connected none, .opened, .handshaken none] c = some c' ∧ c'.session.ws.isOpen = true :=
    ⟨_, _, rfl, rfl, rfl, rfl⟩
  exact ⟨c, c', hr, hk, hopen, client_gives_up hr hphase hk⟩

end Boostander.Net
