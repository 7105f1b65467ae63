import Boostander.Net.Link

/-! What the two sides of a connection say to each other. Both register the same
callbacks: a ping is sent back by whoever reads it, a request is answered, and an
answer is the end of it. -/
namespace Boostander.Net
open Algo Algo.CSV Library

section
variable {γ : Type*} (exec : Bound γ → Except Fault (List SendCall))

/-- A call of `send` from outside the callbacks. -/
def SessionEvent.sentCall : SessionEvent γ → Option SendCall
  | .send call => some call
  | _ => none

/-- The texts `send` accepts from outside the callbacks. -/
def sentTexts (h : List (SessionEvent γ)) : List Bytes :=
  acceptedTexts (h.filterMap SessionEvent.sentCall)

def repliesOf (b : Bound γ) : List Bytes := acceptedTexts (callsOf exec b)

private theorem acceptedSends_cons (e : SessionEvent γ) (h : List (SessionEvent γ)) :
    acceptedSends exec (e :: h) = acceptedTexts (e.calls exec) ++ acceptedSends exec h := by
  rw [acceptedSends, List.flatMap_cons, acceptedTexts_append]
  rfl

private theorem acceptedSends_perm (exec : Bound ServerCallback → Except Fault (List SendCall))
    (h : List (SessionEvent ServerCallback)) :
    (acceptedSends exec h).Perm (sentTexts h ++ (ranCallbacks h).flatMap (repliesOf exec)) := by
  induction h with
  | nil => exact List.Perm.refl _
  | cons e h ih =>
    rw [acceptedSends_cons]
    cases e with
    | send call =>
      have hsent : sentTexts (.send call :: h) = acceptedTexts [call] ++ sentTexts h :=
        acceptedTexts_append [call] _
      rw [hsent, List.append_assoc]
      exact ih.append_left _
    | callback b =>
      have hran : (ranCallbacks (.callback b :: h)).flatMap (repliesOf exec) =
          repliesOf exec b ++ (ranCallbacks h).flatMap (repliesOf exec) := rfl
      rw [hran]
      exact (ih.append_left (repliesOf exec b)).trans (List.perm_append_comm_assoc _ _ _)
    | _ => exact ih

theorem acceptedSends_of_unsent {exec : Bound ServerCallback → Except Fault (List SendCall)}
    {h : List (SessionEvent ServerCallback)} (hsent : ∀ call, .send call ∉ h) :
    acceptedSends exec h = (ranCallbacks h).flatMap (repliesOf exec) := by
  induction h with
  | nil => rfl
  | cons e h ih =>
    have hrest := ih fun call hcall => hsent call (List.mem_cons_of_mem _ hcall)
    rw [acceptedSends_cons, hrest]
    cases e with
    | send call => exact absurd List.mem_cons_self (hsent call)
    | _ => rfl

private theorem acceptedSends_of_silent {exec : Bound ServerCallback → Except Fault (List SendCall)}
    {h : List (SessionEvent ServerCallback)} (hsilent : ∀ b ∈ ranCallbacks h, repliesOf exec b = []) :
    acceptedSends exec h = sentTexts h := by
  induction h with
  | nil => rfl
  | cons e h ih =>
    rw [acceptedSends_cons]
    cases e with
    | callback b =>
      have hb : repliesOf exec b = [] := hsilent b List.mem_cons_self
      rw [ih fun c hc => hsilent c (List.mem_cons_of_mem _ hc), SessionEvent.calls]
      exact congrArg (· ++ sentTexts h) hb
    | send call =>
      rw [ih hsilent]
      exact (acceptedTexts_append [call] _).symm
    | _ =>
      rw [ih hsilent]
      rfl

end

/-- The answer to the request `m`: the number of rows. -/
def rowsAnswer (m : Bytes) : Bytes := 50 :: stdToString (table 44 m.tail).length

private theorem nul_notMem_stdToString (n : Nat) : 0 ∉ stdToString n := by
  intro hmem
  obtain ⟨c, hc, hzero⟩ := List.mem_map.mp hmem
  have hdigit : c.isDigit = true := Nat.isDigit_of_mem_toDigits (by decide) (by decide) hc
  simp only [Char.isDigit, Bool.and_eq_true, decide_eq_true_eq] at hdigit
  have hlow : 48 ≤ c.toNat := UInt32.le_iff_toNat_le.mp hdigit.1
  have hhigh : c.toNat ≤ 57 := UInt32.le_iff_toNat_le.mp hdigit.2
  have hmod : c.toNat % 256 = 0 := by
    simpa using congrArg UInt8.toNat hzero
  omega

private theorem route_rowsAnswer (m : Bytes) : ∃ b, route (rowsAnswer m) = some b := by
  have hdigits : 0 < (stdToString (table 44 m.tail).length).length := by
    simpa [stdToString] using Nat.length_toDigits_pos
  have hlong : 2 ≤ (rowsAnswer m).length := by
    simp only [rowsAnswer, List.length_cons]
    omega
  exact ⟨⟨.csvAnswer, rowsAnswer m, hlong⟩, dif_pos hlong⟩

private theorem replyTo_request {m : Bytes} (h : m.headD 0 = 49) : replyTo m = [rowsAnswer m] := by
  rw [replyTo, if_neg (by rw [h]; decide), if_pos h]
  rfl

private theorem replyTo_answer {m : Bytes} (h : m.headD 0 = 50) : replyTo m = [] := by
  rw [replyTo, if_neg (by rw [h]; decide), if_neg (by rw [h]; decide)]

private theorem nul_notMem_replyTo {m r : Bytes} (hm : 0 ∉ m) (hr : r ∈ replyTo m) : 0 ∉ r := by
  rw [replyTo] at hr
  split at hr
  · rw [List.mem_singleton.mp hr]
    exact hm
  split at hr
  · rw [List.mem_singleton.mp hr, List.mem_cons, not_or]
    exact ⟨by decide, nul_notMem_stdToString _⟩
  · cases hr

section
variable {δ : Type}

/-- The callbacks of both sides, each with the conversions of its own program. -/
def calling (cv : Side → Conversions δ) (side : Side) (b : Bound ServerCallback) :
    Except Fault (List SendCall) :=
  b.call (cv side)

/-- What is sent from outside the callbacks holds no NUL. -/
def LinkEvent.NulFree (e : LinkEvent) : Prop := ∀ call, e.event = .send call → 0 ∉ call.text

variable {cv : Side → Conversions δ} {h : List LinkEvent} {d d' : Duplex} {e : LinkEvent}
  {clientId serverId : Bytes} {clientNow serverNow : Nat}

theorem Linked.mem_accepted {exec : Side → Bound ServerCallback → Except Fault (List SendCall)}
    (hx : ∀ side, Linked exec h d side) {side : Side} {b : Bound ServerCallback}
    (hb : b ∈ ranCallbacks (eventsOf side h) ++ (d.ends side).receivedMessagesQueue.callbacksQueue) :
    b.message ∈ acceptedSends (exec side.peer) (eventsOf side.peer h) ∧
      b.message.length ≤ readMessageMax ∧ route b.message = some b := by
  obtain ⟨hmem, hroute⟩ := (hx side).relayed.mem_received hb
  refine ⟨?_, (hx side).relayed.short _ hmem, hroute⟩
  rw [← (hx side.peer).handed]
  apply List.mem_append_left
  apply (hx side).delivered.subset
  rw [(hx side).taken]
  exact hmem

/-- Neither side has sent a NUL, and what the callbacks sent are the replies. -/
structure Replied (cv : Side → Conversions δ) (h : List LinkEvent) : Prop where
  nulFree : ∀ side, ∀ m ∈ acceptedSends (calling cv side) (eventsOf side h), 0 ∉ m
  replies : ∀ side, ∀ b ∈ ranCallbacks (eventsOf side h),
    repliesOf (calling cv side) b = replyTo b.message

private theorem replies_callback (hx : ∀ side, Linked (calling cv) h d side) (hp : Replied cv h)
    {side : Side} {b : Bound ServerCallback} {s : WsSession ServerCallback}
    (hs : sessionStep operationCallbacks (calling cv side) (.callback b) (d.ends side) = some s) :
    0 ∉ b.message ∧ repliesOf (calling cv side) b = replyTo b.message := by
  obtain ⟨q, calls, htake, hcall, -⟩ := step_callback hs
  obtain ⟨-, hq, -⟩ := DispatchQueue.takeFront_eq_some.mp htake
  have hb : b ∈ ranCallbacks (eventsOf side h) ++
      (d.ends side).receivedMessagesQueue.callbacksQueue := by
    rw [hq]
    simp
  obtain ⟨hmem, hshort, hroute⟩ := Linked.mem_accepted hx hb
  have hnul := hp.nulFree side.peer _ hmem
  refine ⟨hnul, ?_⟩
  rw [repliesOf, callsOf_eq hcall]
  exact acceptedTexts_call ⟨(sendable_of_mem_acceptedSends hmem).1, hnul, hshort⟩ hroute hcall

theorem replied_step (hx : ∀ side, Linked (calling cv) h d side) (hp : Replied cv h)
    (hs : linkStep (calling cv) e d = some d') (hnul : e.NulFree) : Replied cv (h ++ [e]) := by
  obtain ⟨-, s, hsession, -⟩ := link_step hs
  have hnew : (∀ m ∈ acceptedTexts (e.event.calls (calling cv e.side)), 0 ∉ m) ∧
      ∀ b ∈ e.event.ranCallback.toList, repliesOf (calling cv e.side) b = replyTo b.message := by
    cases hevent : e.event with
    | send call =>
      refine ⟨?_, fun b hb => absurd hb List.not_mem_nil⟩
      intro m hm
      obtain rfl : m = call.text := by
        simpa [SessionEvent.calls, eq_comm] using (List.mem_filter.mp hm).1
      exact hnul call hevent
    | callback b =>
      rw [hevent] at hsession
      obtain ⟨hmessage, hreply⟩ := replies_callback hx hp hsession
      constructor
      · intro m hm
        have hm' : m ∈ repliesOf (calling cv e.side) b := hm
        rw [hreply] at hm'
        exact nul_notMem_replyTo hmessage hm'
      · intro c hc
        obtain rfl : c = b := by simpa [SessionEvent.ranCallback] using hc
        exact hreply
    | _ => exact ⟨fun m hm => absurd hm List.not_mem_nil, fun b hb => absurd hb List.not_mem_nil⟩
  constructor
  · intro side m hm
    rcases e.side.eq_or_eq_peer side with rfl | rfl
    · rw [eventsOf_concat, acceptedSends_concat, List.mem_append] at hm
      exact hm.elim (hp.nulFree e.side m) (hnew.1 m)
    · rw [eventsOf_concat_peer] at hm
      exact hp.nulFree e.side.peer m hm
  · intro side b hb
    rcases e.side.eq_or_eq_peer side with rfl | rfl
    · rw [eventsOf_concat, ranCallbacks_concat, List.mem_append] at hb
      exact hb.elim (hp.replies e.side b) (hnew.2 b)
    · rw [eventsOf_concat_peer] at hb
      exact hp.replies e.side.peer b hb

private theorem replied_run {d₀ : Duplex} (h₀ : ∀ side, Linked (calling cv) [] d₀ side)
    (hr : (linkMachine (calling cv)).run h d₀ = some d)
    (hwhole : ∀ e ∈ h, e.event.Whole) (hnul : ∀ e ∈ h, e.NulFree) :
    (∀ side, Linked (calling cv) h d side) ∧ Replied cv h := by
  have hpath := EventMachine.path_of_run hr fun e he => And.intro (hwhole e he) (hnul e he)
  apply hpath.invariant fun h d => (∀ side, Linked (calling cv) h d side) ∧ Replied cv h
  · refine ⟨h₀, ?_, ?_⟩
    · exact fun side m hm => absurd hm List.not_mem_nil
    · exact fun side b hb => absurd hb List.not_mem_nil
  · rintro h u v e ⟨hx, hp⟩ ⟨he, hnul⟩ hstep
    have hs : linkStep (calling cv) e u = some v := hstep
    exact ⟨linked_step hx hs he, replied_step hx hp hs hnul⟩

private theorem Replied.perm (hp : Replied cv h) (side : Side) :
    (acceptedSends (calling cv side) (eventsOf side h)).Perm
      (sentTexts (eventsOf side h) ++
        (ranCallbacks (eventsOf side h)).flatMap fun b => replyTo b.message) := by
  have hreplies : (ranCallbacks (eventsOf side h)).flatMap (repliesOf (calling cv side)) =
      (ranCallbacks (eventsOf side h)).flatMap fun b => replyTo b.message :=
    List.flatMap_congr (hp.replies side)
  rw [← hreplies]
  exact acceptedSends_perm _ _

def isPing (m : Bytes) : Bool := (route m).any fun b => decide (b.callback = .ping)

private theorem isPing_of_route {m : Bytes} {b : Bound ServerCallback} (hroute : route m = some b) :
    isPing m = decide (b.callback = .ping) := by
  rw [isPing, hroute]
  rfl

/-- The pings that wait at `side` or are on the way to it. -/
def Duplex.pings (d : Duplex) (side : Side) : Nat :=
  (d.ends side).receivedMessagesQueue.callbacksQueue.countP (fun b => decide (b.callback = .ping)) +
    (d.inFlight side).countP isPing

private theorem countP_replyTo {b : Bound ServerCallback} (hroute : route b.message = some b) :
    (replyTo b.message).countP isPing = if b.callback = .ping then 1 else 0 := by
  obtain ⟨-, hregistered⟩ := route_eq_some hroute
  unfold registered at hregistered
  split at hregistered
  · rename_i hc
    have hping := Option.some.inj hregistered
    rw [replyTo, if_pos hc, ← hping]
    simp [isPing_of_route hroute, ← hping]
  split at hregistered
  · rename_i hc
    have hanalize := Option.some.inj hregistered
    obtain ⟨c, hc'⟩ := route_rowsAnswer b.message
    have hanswer : isPing (rowsAnswer b.message) = false := by
      have hcallback : some .csvAnswer = some c.callback := (route_eq_some hc').2
      rw [isPing_of_route hc', ← Option.some.inj hcallback]
      rfl
    rw [replyTo_request hc, ← hanalize]
    simp [hanswer]
  split at hregistered
  · rename_i hc
    have hanswer := Option.some.inj hregistered
    rw [replyTo_answer hc, ← hanswer]
    rfl
  · cases hregistered

private theorem countP_replies {l : List (Bound ServerCallback)}
    (hl : ∀ b ∈ l, route b.message = some b) :
    (l.flatMap fun b => replyTo b.message).countP isPing =
      l.countP fun b => decide (b.callback = .ping) := by
  induction l with
  | nil => rfl
  | cons b l ih =>
    rw [List.flatMap_cons, List.countP_append, List.countP_cons,
      ih fun c hc => hl c (List.mem_cons_of_mem _ hc), countP_replyTo (hl b List.mem_cons_self),
      Nat.add_comm]
    simp

private theorem countP_accepted (hx : ∀ side, Linked (calling cv) h d side) (hp : Replied cv h)
    (side : Side) :
    (acceptedSends (calling cv side) (eventsOf side h)).countP isPing =
      (sentTexts (eventsOf side h)).countP isPing +
        (ranCallbacks (eventsOf side h)).countP fun b => decide (b.callback = .ping) := by
  rw [(hp.perm side).countP_eq, List.countP_append, countP_replies]
  intro b hb
  exact (Linked.mem_accepted hx (List.mem_append_left _ hb)).2.2

private theorem countP_delivered (hx : ∀ side, Linked (calling cv) h d side) (side : Side) :
    (acceptedSends (calling cv side.peer) (eventsOf side.peer h)).countP isPing =
      ((ranCallbacks (eventsOf side h)).countP fun b => decide (b.callback = .ping)) + d.pings side := by
  have hcount : (d.taken side).countP isPing =
      ((d.taken side).filterMap route).countP fun b => decide (b.callback = .ping) := by
    rw [List.countP_filterMap]
    apply List.countP_congr
    intro m _
    cases hroute : route m <;> simp [isPing, hroute]
  rw [← (hx side).conserved (hx side.peer), List.countP_append, hcount, (hx side).taken,
    ← (hx side).relayed.queued, List.countP_append, Duplex.pings]
  omega

/-- No ping is ever lost, doubled or used up: whatever fails on the way, if a failed read
leaves no partial message, as many pings wait or are on the way as were ever sent from
outside. -/
theorem pings_conserved
    (hr : (linkMachine (calling cv)).run h (.connected clientId serverId clientNow serverNow) = some d)
    (hwhole : ∀ e ∈ h, e.event.Whole) (hnul : ∀ e ∈ h, e.NulFree) :
    d.pings .client + d.pings .server =
      (sentTexts (eventsOf .client h)).countP isPing + (sentTexts (eventsOf .server h)).countP isPing := by
  obtain ⟨hx, hp⟩ :=
    replied_run (linked_connected clientId serverId clientNow serverNow) hr hwhole hnul
  have hclient := countP_accepted hx hp .client
  have hserver := countP_accepted hx hp .server
  have htoServer : (acceptedSends (calling cv .client) (eventsOf .client h)).countP isPing = _ :=
    countP_delivered hx .server
  have htoClient : (acceptedSends (calling cv .server) (eventsOf .server h)).countP isPing = _ :=
    countP_delivered hx .client
  omega

theorem pings_conserved_bouncing : ∃ d,
    (linkMachine (calling fun _ => wholeConversions)).run bouncingHistory (.connected [1] [2] 0 0) =
      some d ∧
    d.pings .client + d.pings .server =
      (sentTexts (eventsOf .client bouncingHistory)).countP isPing +
        (sentTexts (eventsOf .server bouncingHistory)).countP isPing := by
  obtain ⟨d, hd⟩ : ∃ d, (linkMachine (calling fun _ => wholeConversions)).run bouncingHistory
      (.connected [1] [2] 0 0) = some d := ⟨_, rfl⟩
  refine ⟨d, hd, pings_conserved hd ?_ ?_⟩
  · simp [bouncingHistory, SessionEvent.Whole]
  · simp [bouncingHistory, LinkEvent.NulFree, SendCall.text, cStr]

/-- The client only asks and the server does not speak first. -/
def LinkEvent.Asks (e : LinkEvent) : Prop :=
  ∀ call, e.event = .send call →
    e.side = .client ∧ ∃ csvContents, call = .shared (clientRequest csvContents)

theorem text_clientRequest (csvContents : Bytes) :
    (SendCall.shared (clientRequest csvContents)).text = 49 :: cStr csvContents := by
  simp [SendCall.text, clientRequest, opcodeToStr, WsOpcode.csvAnalize, cStr]

theorem LinkEvent.Asks.nulFree (he : e.Asks) : e.NulFree := by
  intro call hcall hmem
  obtain ⟨-, csvContents, rfl⟩ := he call hcall
  have hzero := List.mem_takeWhile_imp (show 0 ∈ (clientRequest csvContents).takeWhile (· ≠ 0) from hmem)
  exact absurd hzero (by decide)

/-- The client sends requests and the server sends answers. -/
structure Typed (cv : Side → Conversions δ) (h : List LinkEvent) : Prop where
  client : ∀ m ∈ acceptedSends (calling cv .client) (eventsOf .client h), m.headD 0 = 49
  server : ∀ m ∈ acceptedSends (calling cv .server) (eventsOf .server h), m.headD 0 = 50

private theorem mem_replies (hx : ∀ side, Linked (calling cv) h d side) (hp : Replied cv h)
    (hs : linkStep (calling cv) e d = some d') {b : Bound ServerCallback} (hb : e.event = .callback b) :
    repliesOf (calling cv e.side) b = replyTo b.message ∧
      b.message ∈ acceptedSends (calling cv e.side.peer) (eventsOf e.side.peer h) := by
  obtain ⟨-, s, hsession, -⟩ := link_step hs
  rw [hb] at hsession
  refine ⟨(replies_callback hx hp hsession).2, ?_⟩
  obtain ⟨q, calls, htake, -, -⟩ := step_callback hsession
  obtain ⟨-, hq, -⟩ := DispatchQueue.takeFront_eq_some.mp htake
  refine (Linked.mem_accepted hx (b := b) ?_).1
  rw [hq]
  simp

private theorem typed_new (hx : ∀ side, Linked (calling cv) h d side) (hp : Replied cv h)
    (ht : Typed cv h) (hs : linkStep (calling cv) e d = some d') (hasks : e.Asks) {m : Bytes}
    (hm : m ∈ acceptedTexts (e.event.calls (calling cv e.side))) :
    (e.side = .client → m.headD 0 = 49) ∧ (e.side = .server → m.headD 0 = 50) := by
  cases hevent : e.event with
  | send call =>
    obtain ⟨hside, csvContents, rfl⟩ := hasks call hevent
    rw [hevent] at hm
    obtain rfl : m = (SendCall.shared (clientRequest csvContents)).text := by
      simpa [SessionEvent.calls, eq_comm] using (List.mem_filter.mp hm).1
    rw [text_clientRequest]
    exact ⟨fun _ => rfl, fun hserver => absurd (hside.symm.trans hserver) (by decide)⟩
  | callback b =>
    obtain ⟨hreply, hmem⟩ := mem_replies hx hp hs hevent
    rw [hevent] at hm
    have hm' : m ∈ repliesOf (calling cv e.side) b := hm
    rw [hreply] at hm'
    constructor
    · intro hside
      rw [hside] at hmem
      rw [replyTo_answer (ht.server _ hmem)] at hm'
      cases hm'
    · intro hside
      rw [hside] at hmem
      rw [replyTo_request (ht.client _ hmem)] at hm'
      rw [List.mem_singleton.mp hm']
      rfl
  | _ =>
    rw [hevent] at hm
    exact absurd hm List.not_mem_nil

theorem typed_step (hx : ∀ side, Linked (calling cv) h d side) (hp : Replied cv h)
    (ht : Typed cv h) (hs : linkStep (calling cv) e d = some d') (hasks : e.Asks) :
    Typed cv (h ++ [e]) := by
  have hnew : ∀ side, ∀ m ∈ acceptedSends (calling cv side) (eventsOf side (h ++ [e])),
      m ∈ acceptedSends (calling cv side) (eventsOf side h) ∨
        e.side = side ∧ m ∈ acceptedTexts (e.event.calls (calling cv e.side)) := by
    intro side m hm
    rcases e.side.eq_or_eq_peer side with rfl | rfl
    · rw [eventsOf_concat, acceptedSends_concat, List.mem_append] at hm
      exact hm.imp_right fun hm => ⟨rfl, hm⟩
    · rw [eventsOf_concat_peer] at hm
      exact Or.inl hm
  constructor
  · intro m hm
    rcases hnew .client m hm with hm | ⟨hside, hm⟩
    · exact ht.client m hm
    · exact (typed_new hx hp ht hs hasks hm).1 hside
  · intro m hm
    rcases hnew .server m hm with hm | ⟨hside, hm⟩
    · exact ht.server m hm
    · exact (typed_new hx hp ht hs hasks hm).2 hside

theorem typed_run {d₀ : Duplex} (h₀ : ∀ side, Linked (calling cv) [] d₀ side)
    (hr : (linkMachine (calling cv)).run h d₀ = some d)
    (hwhole : ∀ e ∈ h, e.event.Whole) (hasks : ∀ e ∈ h, e.Asks) :
    (∀ side, Linked (calling cv) h d side) ∧ Replied cv h ∧ Typed cv h := by
  have hpath := EventMachine.path_of_run hr fun e he => And.intro (hwhole e he) (hasks e he)
  apply hpath.invariant fun h d =>
    (∀ side, Linked (calling cv) h d side) ∧ Replied cv h ∧ Typed cv h
  · refine ⟨h₀, ⟨?_, ?_⟩, ?_, ?_⟩
    · exact fun side m hm => absurd hm List.not_mem_nil
    · exact fun side b hb => absurd hb List.not_mem_nil
    · exact fun m hm => absurd hm List.not_mem_nil
    · exact fun m hm => absurd hm List.not_mem_nil
  · rintro h u v e ⟨hx, hp, ht⟩ ⟨he, hasks⟩ hstep
    have hs : linkStep (calling cv) e u = some v := hstep
    exact ⟨linked_step hx hs he, replied_step hx hp hs hasks.nulFree, typed_step hx hp ht hs hasks⟩

private theorem map_message_route (l : List Bytes) :
    (l.filterMap route).map Bound.message = l.filter fun m => (route m).isSome := by
  induction l with
  | nil => rfl
  | cons m l ih =>
    cases hroute : route m with
    | none =>
      rw [List.filterMap_cons_none hroute, ih, List.filter_cons_of_neg (by simp [hroute])]
    | some b =>
      rw [List.filterMap_cons_some hroute, List.map_cons, ih, (route_eq_some hroute).1,
        List.filter_cons_of_pos (by simp [hroute])]

/-- The results the client reports: what its answer callback was called with. -/
def results (h : List LinkEvent) : List Bytes :=
  (ranCallbacks (eventsOf .client h)).map Bound.message

def requests (h : List LinkEvent) : List Bytes := sentTexts (eventsOf .client h)

theorem accepted_client (hx : ∀ side, Linked (calling cv) h d side) (hp : Replied cv h)
    (ht : Typed cv h) : acceptedSends (calling cv .client) (eventsOf .client h) = requests h := by
  apply acceptedSends_of_silent
  intro b hb
  rw [hp.replies .client b hb]
  apply replyTo_answer
  apply ht.server
  exact (Linked.mem_accepted hx (List.mem_append_left _ hb)).1

theorem accepted_server (hx : ∀ side, Linked (calling cv) h d side) (hp : Replied cv h)
    (ht : Typed cv h) (hasks : ∀ e ∈ h, e.Asks) :
    acceptedSends (calling cv .server) (eventsOf .server h) =
      (ranCallbacks (eventsOf .server h)).map fun b => rowsAnswer b.message := by
  have hunsent : ∀ call, .send call ∉ eventsOf .server h := by
    intro call hmem
    obtain ⟨e, he, hevent⟩ := List.mem_filterMap.mp hmem
    obtain ⟨hside, hcall⟩ := Option.ite_none_right_eq_some.mp hevent
    have hclient := (hasks e he call (Option.some.inj hcall)).1
    exact absurd (hclient.symm.trans hside) (by decide)
  rw [acceptedSends_of_unsent hunsent, List.map_eq_flatMap]
  apply List.flatMap_congr
  intro b hb
  rw [hp.replies .server b hb]
  apply replyTo_request
  apply ht.client
  exact (Linked.mem_accepted hx (List.mem_append_left _ hb)).1

/-- The way of the answers, from the callbacks of the server to those of the client. -/
theorem results_append (hx : ∀ side, Linked (calling cv) h d side) (hp : Replied cv h)
    (ht : Typed cv h) (hasks : ∀ e ∈ h, e.Asks) :
    results h ++ (d.ends .client).receivedMessagesQueue.callbacksQueue.map Bound.message ++
        d.inFlight .client =
      (ranCallbacks (eventsOf .server h)).map fun b => rowsAnswer b.message := by
  have hserver := (hx .client).conserved (hx .server)
  rw [show Side.client.peer = .server from rfl, accepted_server hx hp ht hasks] at hserver
  have hall : ∀ m ∈ d.taken .client, (route m).isSome = true := by
    intro m hm
    have hmem : m ∈ (ranCallbacks (eventsOf .server h)).map fun b => rowsAnswer b.message := by
      rw [← hserver]
      exact List.mem_append_left _ hm
    obtain ⟨b, -, rfl⟩ := List.mem_map.mp hmem
    obtain ⟨c, hc⟩ := route_rowsAnswer b.message
    rw [hc]
    rfl
  rw [results, ← List.map_append, (hx .client).relayed.queued, ← (hx .client).taken, map_message_route,
    List.filter_eq_self.mpr hall, hserver]

/-- The way of the requests, from the client's `send` to the callbacks of the server. -/
theorem requests_append (hx : ∀ side, Linked (calling cv) h d side) (hp : Replied cv h)
    (ht : Typed cv h) :
    ranCallbacks (eventsOf .server h) ++ (d.ends .server).receivedMessagesQueue.callbacksQueue ++
        (d.inFlight .server).filterMap route = (requests h).filterMap route := by
  have hclient := (hx .server).conserved (hx .client)
  rw [show Side.server.peer = .client from rfl, accepted_client hx hp ht] at hclient
  rw [(hx .server).relayed.queued, ← (hx .server).taken, ← List.filterMap_append, hclient]

theorem routed_requests (hx : ∀ side, Linked (calling cv) h d side) (hp : Replied cv h)
    (ht : Typed cv h) :
    ((requests h).filterMap route).map Bound.message =
      (requests h).filter fun m => decide (2 ≤ m.length) := by
  rw [map_message_route]
  apply List.filter_congr
  intro m hm
  have hhead : m.headD 0 = 49 := by
    apply ht.client
    rw [accepted_client hx hp ht]
    exact hm
  by_cases hlong : 2 ≤ m.length
  · rw [route, dif_pos hlong, hhead]
    simp [hlong, registered]
  · simp [route, hlong]

theorem results_prefix_requests (hx : ∀ side, Linked (calling cv) h d side) (hp : Replied cv h)
    (ht : Typed cv h) (hasks : ∀ e ∈ h, e.Asks) :
    results h <+: ((requests h).filter fun m => decide (2 ≤ m.length)).map rowsAnswer := by
  have hanswered := results_append hx hp ht hasks
  have hasked := requests_append hx hp ht
  rw [List.append_assoc] at hanswered hasked
  have hserved : ranCallbacks (eventsOf .server h) <+: (requests h).filterMap route := ⟨_, hasked⟩
  have hresults : results h <+: (ranCallbacks (eventsOf .server h)).map fun b => rowsAnswer b.message :=
    ⟨_, hanswered⟩
  rw [← routed_requests hx hp ht, List.map_map]
  exact hresults.trans (hserved.map _)

/-- The client's results are the answers to its requests with contents, in the order of
the requests, each once and none before those of earlier requests, if a failed read leaves
no partial message. -/
theorem results_inOrder
    (hr : (linkMachine (calling cv)).run h (.connected clientId serverId clientNow serverNow) = some d)
    (hwhole : ∀ e ∈ h, e.event.Whole) (hasks : ∀ e ∈ h, e.Asks) :
    results h <+: ((requests h).filter fun m => decide (2 ≤ m.length)).map rowsAnswer := by
  obtain ⟨hx, hp, ht⟩ :=
    typed_run (linked_connected clientId serverId clientNow serverNow) hr hwhole hasks
  exact results_prefix_requests hx hp ht hasks

end

/-- A request for a table of one row, and its answer, bound to their callbacks. -/
def askedTable : Bound ServerCallback := ⟨.csvAnalize, 49 :: datedContents, by decide⟩
def answeredTable : Bound ServerCallback := ⟨.csvAnswer, [50, 49], by decide⟩

/-- The client asks for that table and gets its answer. -/
def askingHistory : List LinkEvent :=
  [⟨.client, .send (.shared (clientRequest datedContents))⟩,
    ⟨.client, .written none (49 :: datedContents)⟩, ⟨.server, .received none (49 :: datedContents)⟩,
    ⟨.server, .callback askedTable⟩, ⟨.client, .received none [50, 49]⟩,
    ⟨.client, .callback answeredTable⟩, ⟨.server, .written none [50, 49]⟩]

theorem asks_askingHistory : ∀ e ∈ askingHistory, e.Asks := by
  intro e he call hcall
  simp only [askingHistory, List.mem_cons, List.not_mem_nil, or_false] at he
  rcases he with rfl | rfl | rfl | rfl | rfl | rfl | rfl
  · exact ⟨rfl, datedContents, (SessionEvent.send.inj hcall).symm⟩
  all_goals cases hcall

theorem results_inOrder_asking : ∃ d,
    (linkMachine (calling fun _ => wholeConversions)).run askingHistory (.connected [1] [2] 0 0) =
      some d ∧
    results askingHistory <+:
      ((requests askingHistory).filter fun m => decide (2 ≤ m.length)).map rowsAnswer := by
  obtain ⟨d, hd⟩ : ∃ d, (linkMachine (calling fun _ => wholeConversions)).run askingHistory
      (.connected [1] [2] 0 0) = some d := ⟨_, rfl⟩
  refine ⟨d, hd, results_inOrder hd ?_ asks_askingHistory⟩
  simp [askingHistory, SessionEvent.Whole]

end Boostander.Net
