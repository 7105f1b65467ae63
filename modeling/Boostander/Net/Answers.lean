import Boostander.Net.Conversation
import Boostander.Net.SendProgress
import Boostander.Net.ServerTick

/-! Requests over a connection that holds. There is always a next step to take until
every request is answered, and there are six steps to a request. -/
namespace Boostander.Net
open Algo Algo.CSV Library

namespace SessionEvent
variable {γ : Type*}

/-- The connection holds: it is not closed or started again, and no read or write fails. -/
def Steady : SessionEvent γ → Prop
  | .closed => False
  | .runAsServer _ => False
  | .runAsClient _ => False
  | .received ec _ => ec = none
  | .written ec _ => ec = none
  | _ => True

private theorem Steady.progresses {e : SessionEvent γ} (h : e.Steady) : e.Progresses := by
  cases e <;> first | exact h | trivial

theorem Steady.whole {e : SessionEvent γ} (h : e.Steady) : e.Whole := by
  cases e with
  | received ec data =>
    obtain rfl : ec = none := h
    exact fun hsome => absurd hsome (by simp)
  | _ => trivial

end SessionEvent

namespace WsSession
variable {γ : Type*} {s s' : WsSession γ}

/-- A session of a connection that holds. -/
structure Active (s : WsSession γ) : Prop where
  isOpen : s.ws.isOpen = true
  reading : s.Reading
  alive : s.receivedMessagesQueue.quit = false
  flows : s.Flows
  notStranded : s.NotStranded

private theorem Reading.congr (h : s.Reading) (hview : s'.readView = s.readView) : s'.Reading := by
  simp only [readView, Prod.mk.injEq] at hview
  obtain ⟨hreads, hbuffer, haccepts, -⟩ := hview
  exact ⟨hreads.trans h.reads, hbuffer.trans h.recievedBuffer, haccepts.trans h.accepts⟩

end WsSession

section
variable {γ : Type*} [DecidableEq γ] {callbacks : WSInputCallbacks γ}
  {exec : Bound γ → Except Fault (List SendCall)} {s s' : WsSession γ} {e : SessionEvent γ}

private theorem readView_step (h : s.Active) (hs : sessionStep callbacks exec e s = some s')
    (he : e.Steady)
    (hreceived : ∀ ec data, e ≠ .received ec data) : s'.readView = s.readView := by
  cases e with
  | closed => exact absurd he id
  | runAsServer now => exact absurd he id
  | runAsClient now => exact absurd he id
  | opened =>
    obtain rfl := Option.some.inj hs
    simp [WsSession.readView, WsSession.setOpen, h.isOpen]
  | accepted ec =>
    obtain ⟨hpos, -⟩ := step_accepted hs
    exact absurd h.reading.accepts (Nat.ne_of_gt hpos)
  | received ec data => exact absurd rfl (hreceived ec data)
  | written ec dp =>
    obtain ⟨-, rfl⟩ := step_written hs
    exact WsSession.readView_onWrite _ ec
  | pinged ec => exact WsSession.readView_of_watchFrame (watchFrame_step hs trivial)
  | control now => exact WsSession.readView_of_watchFrame (watchFrame_step hs trivial)
  | expired ec => exact WsSession.readView_of_watchFrame (watchFrame_step hs trivial)
  | timer ec now => exact WsSession.readView_of_watchFrame (watchFrame_step hs trivial)
  | send call =>
    obtain rfl := Option.some.inj hs
    exact WsSession.readView_of_sendFrame (WsSession.sendFrame_foldl s [call])
  | callback b =>
    obtain ⟨q, calls, -, -, rfl⟩ := step_callback hs
    exact (WsSession.readView_of_sendFrame
      (WsSession.sendFrame_foldl { s with receivedMessagesQueue := q } calls) :)

private theorem active_step {o : Outbox Bytes} (h : s.Active) (hsends : s.Sends o)
    (hs : sessionStep callbacks exec e s = some s') (he : e.Steady)
    (hne : ∀ data, e.receivedMessage = some data → data ≠ []) : s'.Active := by
  obtain ⟨hflows, hnot⟩ := flows_step h.flows hsends hs he.progresses
  have hopens : s.OpensEmpty e := by
    cases e with
    | opened => exact Or.inl h.isOpen
    | _ => trivial
  have hread : s'.ws.isOpen = true ∧ s'.Reading := by
    cases hreceived : e.receivedMessage with
    | none =>
      have hview := readView_step h hs he (by
        rintro ec data rfl
        obtain rfl : ec = none := he
        cases hreceived)
      refine ⟨?_, h.reading.congr hview⟩
      simp only [WsSession.readView, Prod.mk.injEq] at hview
      exact hview.2.2.2.trans h.isOpen
    | some data =>
      obtain rfl : e = .received none data := by
        cases e with
        | received ec data' =>
          obtain rfl : ec = none := he
          rw [Option.some.inj hreceived]
        | _ => cases hreceived
      obtain ⟨hopen, hiff⟩ := reading_of_received h.reading.atMostOnce hs
      obtain ⟨hreads, hbuffer⟩ := (hiff h.isOpen).mpr (hne data rfl)
      have honce := atMostOnce_step h.reading.atMostOnce hs id
      exact ⟨hopen.trans h.isOpen, hreads, hbuffer, honce.accepts⟩
  exact ⟨hread.1, hread.2, (live_step hs).trans h.alive, hflows, (hnot h.notStranded).mpr hopens⟩

end

section
variable {γ : Type*} {s : WsSession γ}

/-- The writes in progress and those that have completed are those handed to the stream. -/
def Written (s : WsSession γ) (n : Nat) : Prop := s.ws.writes.length + n = s.ws.handed.length

private theorem written_send {n : Nat} (h : Written s n) (ss : Bytes) : Written (s.send ss) n := by
  rw [WsSession.send]
  split
  · exact h
  split
  · exact h
  dsimp only
  split
  · exact h
  split
  · simp only [Written, WsStream.asyncWrite, List.length_append, List.length_singleton] at h ⊢
    omega
  · exact h

private theorem written_foldl {n : Nat} (h : Written s n) (calls : List SendCall) :
    Written (calls.foldl WsSession.sendCall s) n := by
  induction calls generalizing s with
  | nil => exact h
  | cons call calls ih =>
    apply ih
    cases call with
    | shared ss => exact written_send h (cStr ss)
    | str ss => exact written_send h ss

private theorem written_onWrite {n : Nat} (h : Written s n) (ec : Option ErrorCode) :
    Written (s.onWrite ec) n := by
  rw [WsSession.onWrite]
  split
  · exact h
  split
  · exact h
  split
  · exact h
  dsimp only
  split
  · simp only [Written, WsStream.asyncWrite, List.length_append, List.length_singleton] at h ⊢
    omega
  · exact h

def SessionEvent.isWritten : SessionEvent γ → Bool
  | .written _ _ => true
  | _ => false

variable [DecidableEq γ] {callbacks : WSInputCallbacks γ}
  {exec : Bound γ → Except Fault (List SendCall)} {s' : WsSession γ}

theorem written_step {e : SessionEvent γ} {n : Nat} (h : Written s n)
    (hs : sessionStep callbacks exec e s = some s') :
    Written s' (n + if e.isWritten then 1 else 0) := by
  cases e with
  | written ec dp =>
    obtain ⟨hdp, rfl⟩ := step_written hs
    have hpos := List.length_pos_of_mem hdp
    have hdone : Written (s.writeDone dp) (n + 1) := by
      simp only [Written, WsSession.writeDone, List.length_erase_of_mem hdp] at h ⊢
      omega
    exact written_onWrite hdone ec
  | send call =>
    obtain rfl := Option.some.inj hs
    exact written_foldl h [call]
  | callback b =>
    obtain ⟨q, calls, -, -, rfl⟩ := step_callback hs
    have hq : Written { s with receivedMessagesQueue := q } n := h
    exact written_foldl hq calls
  | _ =>
    have hview : s'.sendView = s.sendView := by
      apply sendView_step hs <;> simp
    simp only [WsSession.sendView, Prod.mk.injEq] at hview
    rw [Written, hview.2.2.1, hview.2.2.2]
    exact h

end

/-- The steps that need nothing from outside: a message is read, a callback runs or a
write completes. -/
def SessionEvent.isInternal {γ : Type*} (e : SessionEvent γ) : Bool :=
  e.receivedMessage.isSome || e.ranCallback.isSome || e.isWritten

def LinkEvent.isInternal (e : LinkEvent) : Bool := e.event.isInternal

private theorem countP_session (h : List (SessionEvent ServerCallback)) :
    h.countP SessionEvent.isInternal =
      (receivedMessages h).length + (ranCallbacks h).length + h.countP SessionEvent.isWritten := by
  induction h with
  | nil => rfl
  | cons e h ih =>
    rw [List.countP_cons, List.countP_cons, ih]
    cases e with
    | received ec data =>
      cases ec with
      | none =>
        have hreceived : receivedMessages (.received none data :: h) = data :: receivedMessages h := rfl
        have hran : ranCallbacks (.received none data :: h) = ranCallbacks h := rfl
        rw [hreceived, hran, List.length_cons]
        simp only [SessionEvent.isInternal, SessionEvent.receivedMessage, SessionEvent.isWritten,
          Option.isSome_some, Bool.true_or, if_true, Bool.false_eq_true, if_false]
        omega
      | some ec => rfl
    | callback b =>
      have hreceived : receivedMessages (.callback b :: h) = receivedMessages h := rfl
      have hran : ranCallbacks (.callback b :: h) = b :: ranCallbacks h := rfl
      rw [hreceived, hran, List.length_cons]
      simp only [SessionEvent.isInternal, SessionEvent.ranCallback, SessionEvent.isWritten,
        Option.isSome_some, Bool.or_true, Bool.true_or, if_true, Bool.false_eq_true, if_false]
      omega
    | _ => rfl

private theorem countP_internal (h : List LinkEvent) :
    h.countP LinkEvent.isInternal =
      (eventsOf .client h).countP SessionEvent.isInternal +
        (eventsOf .server h).countP SessionEvent.isInternal := by
  induction h with
  | nil => rfl
  | cons e h ih =>
    obtain ⟨side, event⟩ := e
    have hevent : LinkEvent.isInternal ⟨side, event⟩ = event.isInternal := rfl
    rw [List.countP_cons, ih, hevent]
    cases side with
    | client =>
      have hclient : eventsOf .client (⟨.client, event⟩ :: h) = event :: eventsOf .client h := rfl
      have hserver : eventsOf .server (⟨.client, event⟩ :: h) = eventsOf .server h := rfl
      rw [hclient, hserver, List.countP_cons]
      omega
    | server =>
      have hclient : eventsOf .client (⟨.server, event⟩ :: h) = eventsOf .client h := rfl
      have hserver : eventsOf .server (⟨.server, event⟩ :: h) = event :: eventsOf .server h := rfl
      rw [hclient, hserver, List.countP_cons]
      omega

section
variable {δ : Type} {cv : Side → Conversions δ} {h : List LinkEvent} {d d' : Duplex} {e : LinkEvent}
  {clientId serverId : Bytes} {clientNow serverNow : Nat}

/-- Both sides hold. -/
structure Upheld (h : List LinkEvent) (d : Duplex) (side : Side) : Prop where
  active : (d.ends side).Active
  written : Written (d.ends side) ((eventsOf side h).countP SessionEvent.isWritten)

private theorem upheld_connected (side : Side) :
    Upheld [] (.connected clientId serverId clientNow serverNow) side := by
  have hbusy : ((Duplex.connected clientId serverId clientNow serverNow).ends side).isSendBusy = false := by
    cases side <;> rfl
  have hflows : ((Duplex.connected clientId serverId clientNow serverNow).ends side).Flows :=
    ⟨fun hb => absurd (hbusy.symm.trans hb) Bool.false_ne_true,
      fun hb => absurd (hbusy.symm.trans hb) Bool.false_ne_true⟩
  cases side with
  | client => exact ⟨⟨rfl, ⟨rfl, rfl, rfl⟩, rfl, hflows, fun _ hq => absurd rfl hq⟩, rfl⟩
  | server => exact ⟨⟨rfl, ⟨rfl, rfl, rfl⟩, rfl, hflows, fun _ hq => absurd rfl hq⟩, rfl⟩

theorem upheld_step (hx : ∀ side, Linked (calling cv) h d side)
    (hup : ∀ side, Upheld h d side) (hs : linkStep (calling cv) e d = some d')
    (he : e.event.Steady) (side : Side) : Upheld (h ++ [e]) d' side := by
  obtain ⟨hdelivers, s, hsession, rfl⟩ := link_step hs
  rcases e.side.eq_or_eq_peer side with rfl | rfl
  · obtain ⟨o, hsends, -⟩ := (hx e.side).relayed.sends
    have hactive := active_step (hup e.side).active hsends hsession he fun data hdata =>
      Linked.ne_nil hx (hdelivers data hdata)
    have hwritten := written_step (hup e.side).written hsession
    refine ⟨?_, ?_⟩
    · rw [Duplex.put_ends]
      exact hactive
    · rw [Duplex.put_ends, eventsOf_concat, List.countP_append, List.countP_singleton]
      exact hwritten
  · refine ⟨?_, ?_⟩
    · rw [Duplex.put_ends_peer]
      exact (hup e.side.peer).active
    · rw [Duplex.put_ends_peer, eventsOf_concat_peer]
      exact (hup e.side.peer).written

private theorem counts_le (hx : ∀ side, Linked (calling cv) h d side)
    (hup : ∀ side, Upheld h d side) (side : Side) :
    (ranCallbacks (eventsOf side h)).length ≤ (receivedMessages (eventsOf side h)).length ∧
      (receivedMessages (eventsOf side h)).length ≤
        (acceptedSends (calling cv side.peer) (eventsOf side.peer h)).length ∧
      (eventsOf side h).countP SessionEvent.isWritten ≤
        (acceptedSends (calling cv side) (eventsOf side h)).length := by
  have hran := congrArg List.length (hx side).relayed.queued
  have hfilter := List.length_filterMap_le route (receivedMessages (eventsOf side h))
  have htaken := congrArg List.length ((hx side).conserved (hx side.peer))
  have hhanded := congrArg List.length (hx side).handed
  have hwritten := (hup side).written
  rw [List.length_append] at hran htaken hhanded
  rw [(hx side).taken] at htaken
  rw [Written] at hwritten
  omega

theorem link_enabled {s : WsSession ServerCallback}
    (hs : sessionStep operationCallbacks (calling cv e.side) e.event (d.ends e.side) = some s)
    (hdelivers : d.delivers e.side e.event = true) : linkStep (calling cv) e d ≠ none := by
  rw [linkStep, if_pos hdelivers, hs]
  exact Option.some_ne_none _

/-- No message is read, no callback runs and no write completes in `d`. -/
def Stuck (cv : Side → Conversions δ) (d : Duplex) : Prop :=
  ∀ e : LinkEvent, e.isInternal = true → linkStep (calling cv) e d = none

private theorem queues_of_stuck {side : Side} (hup : Upheld h d side) (hstuck : Stuck cv d)
    (hreturns : ∀ b ∈ (d.ends side).receivedMessagesQueue.callbacksQueue,
      ∃ calls, calling cv side b = .ok calls) :
    (d.ends side).receivedMessagesQueue.callbacksQueue = [] ∧ (d.ends side).sendQueue = [] := by
  constructor
  · cases hqueue : (d.ends side).receivedMessagesQueue.callbacksQueue with
    | nil => rfl
    | cons b l =>
      obtain ⟨calls, hcalls⟩ := hreturns b (by rw [hqueue]; exact List.mem_cons_self)
      obtain ⟨s, hs⟩ : ∃ s, sessionStep operationCallbacks (calling cv side) (.callback b)
          (d.ends side) = some s := callback_enabled hup.active.alive hqueue hcalls
      exact absurd (hstuck ⟨side, .callback b⟩ rfl) (link_enabled hs rfl)
  · by_contra hqueue
    have hwrites := hup.active.notStranded hup.active.isOpen hqueue
    obtain ⟨dp, hdp⟩ := List.exists_mem_of_ne_nil _ hwrites
    have hs : sessionStep operationCallbacks (calling cv side) (.written none dp) (d.ends side) =
        some (((d.ends side).writeDone dp).onWrite none) := if_pos hdp
    exact absurd (hstuck ⟨side, .written none dp⟩ rfl) (link_enabled hs rfl)

private theorem taken_of_stuck {side : Side} (hx : ∀ side, Linked (calling cv) h d side)
    (hup : Upheld h d side) (hstuck : Stuck cv d)
    (hshort : ∀ m ∈ acceptedSends (calling cv side.peer) (eventsOf side.peer h),
      m.length ≤ readMessageMax) :
    d.taken side = (d.ends side.peer).ws.handed := by
  obtain ⟨rest, hrest⟩ := (hx side).delivered
  cases rest with
  | nil => rw [← hrest, List.append_nil]
  | cons data rest =>
    have hnext : d.taken side ++ [data] <+: (d.ends side.peer).ws.handed :=
      ⟨rest, by rw [← hrest, List.append_assoc, List.singleton_append]⟩
    have hmem : data ∈ acceptedSends (calling cv side.peer) (eventsOf side.peer h) := by
      rw [← (hx side.peer).handed]
      exact List.mem_append_left _ (hnext.subset (by simp))
    have hreads : 0 < (d.ends side).ws.reads := by
      rw [hup.active.reading.reads]
      exact Nat.one_pos
    have hs : sessionStep operationCallbacks (calling cv side) (.received none data) (d.ends side) =
        some (((d.ends side).readDone data).onRead operationCallbacks none) :=
      if_pos ⟨hreads, hshort data hmem⟩
    have hdelivers : d.delivers side (.received none data) = true :=
      List.isPrefixOf_iff_prefix.mpr hnext
    exact absurd (hstuck ⟨side, .received none data⟩ rfl) (link_enabled hs hdelivers)

private theorem length_rowsAnswer_le {m : Bytes} (hm : m.length ≤ readMessageMax) :
    (rowsAnswer m).length ≤ readMessageMax := by
  have hrows : (table 44 m.tail).length ≤ readMessageMax := by
    have htable := length_table_le 44 m.tail
    have htail := List.length_tail (l := m)
    omega
  have hdigits : (Nat.toDigits 10 (table 44 m.tail).length).length ≤ 10 :=
    (Nat.length_toDigits_le_iff (by decide) (by decide)).mpr (Nat.lt_of_le_of_lt hrows (by decide))
  have hmax : 11 ≤ readMessageMax := by decide
  simp only [rowsAnswer, stdToString, List.length_cons, List.length_map]
  omega

private theorem upheld_run
    (hr : (linkMachine (calling cv)).run h (.connected clientId serverId clientNow serverNow) = some d)
    (hsteady : ∀ e ∈ h, e.event.Steady) : ∀ side, Upheld h d side := by
  have hboth : (∀ side, Linked (calling cv) h d side) ∧ ∀ side, Upheld h d side := by
    apply (EventMachine.path_of_run hr hsteady).invariant fun h d =>
      (∀ side, Linked (calling cv) h d side) ∧ ∀ side, Upheld h d side
    · exact ⟨linked_connected clientId serverId clientNow serverNow, upheld_connected⟩
    · rintro h u v e ⟨hx, hup⟩ he hstep
      have hs : linkStep (calling cv) e u = some v := hstep
      exact ⟨linked_step hx hs he.whole, upheld_step hx hup hs he⟩
  exact hboth.2

/-- A request takes at most six steps. -/
theorem internal_le (hx : ∀ side, Linked (calling cv) h d side) (hp : Replied cv h) (ht : Typed cv h)
    (hup : ∀ side, Upheld h d side) (hasks : ∀ e ∈ h, e.Asks) :
    h.countP LinkEvent.isInternal ≤ 6 * (requests h).length := by
  have hclient := accepted_client hx hp ht
  have hserver := accepted_server hx hp ht hasks
  obtain ⟨hran, hread, hwritten⟩ := counts_le hx hup .client
  obtain ⟨hran', hread', hwritten'⟩ := counts_le hx hup .server
  rw [show Side.client.peer = .server from rfl, hserver, List.length_map] at hread
  rw [show Side.server.peer = .client from rfl, hclient] at hread'
  rw [hserver, List.length_map] at hwritten'
  rw [hclient] at hwritten
  rw [countP_internal, countP_session, countP_session]
  omega

/-- With no step left to take, everything is answered. -/
theorem results_of_stuck (hx : ∀ side, Linked (calling cv) h d side) (hp : Replied cv h)
    (ht : Typed cv h) (hup : ∀ side, Upheld h d side) (hasks : ∀ e ∈ h, e.Asks)
    (hsmall : ∀ m ∈ requests h, m.length ≤ readMessageMax) (hstuck : Stuck cv d)
    (hreturns : ∀ side, ∀ b ∈ (d.ends side).receivedMessagesQueue.callbacksQueue,
      ∃ calls, calling cv side b = .ok calls) :
    results h = ((requests h).filter fun m => decide (2 ≤ m.length)).map rowsAnswer := by
  have hclient := accepted_client hx hp ht
  have hserver := accepted_server hx hp ht hasks
  have hshort : ∀ side, ∀ m ∈ acceptedSends (calling cv side) (eventsOf side h),
      m.length ≤ readMessageMax := by
    intro side m hm
    cases side with
    | client =>
      rw [hclient] at hm
      exact hsmall m hm
    | server =>
      rw [hserver] at hm
      obtain ⟨b, hb, rfl⟩ := List.mem_map.mp hm
      exact length_rowsAnswer_le (Linked.mem_accepted hx (List.mem_append_left _ hb)).2.1
  have hempty : ∀ side, (d.ends side).receivedMessagesQueue.callbacksQueue = [] ∧
      d.inFlight side = [] := by
    intro side
    have hqueues := queues_of_stuck (hup side) hstuck (hreturns side)
    have hsent := (queues_of_stuck (hup side.peer) hstuck (hreturns side.peer)).2
    refine ⟨hqueues.1, ?_⟩
    rw [Duplex.inFlight, taken_of_stuck hx (hup side) hstuck (hshort side.peer), List.drop_length,
      WsSession.unsent, hsent]
    split <;> rfl
  have hanswered := results_append hx hp ht hasks
  have hasked := requests_append hx hp ht
  rw [(hempty .client).1, (hempty .client).2, List.map_nil, List.append_nil, List.append_nil]
    at hanswered
  rw [(hempty .server).1, (hempty .server).2, List.filterMap_nil, List.append_nil, List.append_nil]
    at hasked
  rw [← routed_requests hx hp ht, List.map_map, ← hasked]
  exact hanswered

/-- While the connection holds, the requests take at most six steps each, and when
there is no step left to take, with no callback that fails to return, the client has a
result for each of its requests with contents, in their order. -/
theorem requests_answered
    (hr : (linkMachine (calling cv)).run h (.connected clientId serverId clientNow serverNow) = some d)
    (hsteady : ∀ e ∈ h, e.event.Steady) (hasks : ∀ e ∈ h, e.Asks)
    (hsmall : ∀ m ∈ requests h, m.length ≤ readMessageMax) :
    h.countP LinkEvent.isInternal ≤ 6 * (requests h).length ∧
      (Stuck cv d →
        (∀ side, ∀ b ∈ (d.ends side).receivedMessagesQueue.callbacksQueue,
          ∃ calls, calling cv side b = .ok calls) →
        results h = ((requests h).filter fun m => decide (2 ≤ m.length)).map rowsAnswer) := by
  obtain ⟨hx, hp, ht⟩ := typed_run (linked_connected clientId serverId clientNow serverNow) hr
    (fun e he => (hsteady e he).whole) hasks
  have hup := upheld_run hr hsteady
  exact ⟨internal_le hx hp ht hup hasks, results_of_stuck hx hp ht hup hasks hsmall⟩

end

private theorem asking_run : ∃ d,
    (linkMachine (calling fun _ => wholeConversions)).run askingHistory (.connected [1] [2] 0 0) =
      some d ∧
    ∀ side, d.taken side = (d.ends side.peer).ws.handed ∧
      (d.ends side).receivedMessagesQueue.callbacksQueue = [] ∧ (d.ends side).ws.writes = [] := by
  refine ⟨_, rfl, ?_⟩
  intro side
  cases side with
  | client => exact ⟨rfl, rfl, rfl⟩
  | server => exact ⟨rfl, rfl, rfl⟩

private theorem stuck_of_empty {δ : Type} {cv : Side → Conversions δ} {d : Duplex}
    (hd : ∀ side, d.taken side = (d.ends side.peer).ws.handed ∧
      (d.ends side).receivedMessagesQueue.callbacksQueue = [] ∧ (d.ends side).ws.writes = []) :
    Stuck cv d := by
  intro e he
  by_contra hsome
  obtain ⟨d', hs⟩ := Option.ne_none_iff_exists'.mp hsome
  obtain ⟨hdelivers, s, hsession, -⟩ := link_step hs
  obtain ⟨htaken, hqueue, hwrites⟩ := hd e.side
  cases hevent : e.event with
  | received ec data =>
    cases ec with
    | none =>
      have hlen := (hdelivers data (by rw [hevent]; rfl)).length_le
      rw [htaken, List.length_append, List.length_singleton] at hlen
      omega
    | some ec => simp [LinkEvent.isInternal, SessionEvent.isInternal, SessionEvent.receivedMessage,
        SessionEvent.ranCallback, SessionEvent.isWritten, hevent] at he
  | callback b =>
    rw [hevent] at hsession
    obtain ⟨q, calls, htake, -, -⟩ := step_callback hsession
    obtain ⟨-, hq, -⟩ := DispatchQueue.takeFront_eq_some.mp htake
    rw [hqueue] at hq
    cases hq
  | written ec dp =>
    rw [hevent] at hsession
    obtain ⟨hdp, -⟩ := step_written hsession
    rw [hwrites] at hdp
    cases hdp
  | _ => simp [LinkEvent.isInternal, SessionEvent.isInternal, SessionEvent.receivedMessage,
      SessionEvent.ranCallback, SessionEvent.isWritten, hevent] at he

theorem requests_answered_asking : ∃ d,
    (linkMachine (calling fun _ => wholeConversions)).run askingHistory (.connected [1] [2] 0 0) =
      some d ∧
    askingHistory.countP LinkEvent.isInternal ≤ 6 * (requests askingHistory).length ∧
    Stuck (fun _ => wholeConversions) d ∧
    results askingHistory =
      ((requests askingHistory).filter fun m => decide (2 ≤ m.length)).map rowsAnswer := by
  obtain ⟨d, hd, hempty⟩ := asking_run
  have hsteady : ∀ e ∈ askingHistory, e.event.Steady := by
    simp [askingHistory, SessionEvent.Steady]
  have hsmall : ∀ m ∈ requests askingHistory, m.length ≤ readMessageMax := by
    have hrequests : requests askingHistory = [49 :: datedContents] := rfl
    rw [hrequests]
    intro m hm
    rw [List.mem_singleton.mp hm]
    decide
  obtain ⟨hbound, hresults⟩ := requests_answered hd hsteady asks_askingHistory hsmall
  refine ⟨d, hd, hbound, stuck_of_empty hempty, hresults (stuck_of_empty hempty) ?_⟩
  intro side b hb
  rw [(hempty side).2.1] at hb
  cases hb

end Boostander.Net
