import Boostander.Net.ServerTick
import Boostander.Net.WsServer

/-! The tick in two sizes of step: `handleIncomingMessages` of `net/websockets/WsServer.cpp`
as one function on the map, and the same tick among the events of the running server, one
callback at a time. Undisturbed, the second does what the first says. -/
namespace Boostander.Net
open Algo Library Library.Sweep

section
variable {γ : Type*} {exec : Bound γ → Except Fault (List SendCall)} {s : WsSession γ}

private theorem runUntilFault_withReceived (l : List (Bound γ)) (s : WsSession γ)
    (q : DispatchQueue (Bound γ)) :
    DispatchQueue.runUntilFault (runBound exec) l { s with receivedMessagesQueue := q } =
      let ran := DispatchQueue.runUntilFault (runBound exec) l s
      (ran.1, { ran.2.1 with receivedMessagesQueue := q }, ran.2.2) := by
  induction l generalizing s with
  | nil => rfl
  | cons b l ih =>
    cases hb : exec b with
    | ok calls => rw [runUntilFault_ok hb, runUntilFault_ok hb, foldl_withReceived, ih]
    | error f => rw [runUntilFault_error hb, runUntilFault_error hb]

private theorem dispatchReceived_empty (hlive : s.receivedMessagesQueue.quit = false)
    (hempty : s.receivedMessagesQueue.callbacksQueue = []) : s.dispatchReceived exec = (s, none) := by
  rw [dispatchReceived_eq hlive, hempty]
  dsimp only [DispatchQueue.runUntilFault]
  rw [← hempty]

private theorem dispatchReceived_throws {b : Bound γ} {q : DispatchQueue (Bound γ)} {f : Fault}
    (htake : s.receivedMessagesQueue.takeFront = some (b, q)) (hexec : exec b = .error f) :
    s.dispatchReceived exec = ({ s with receivedMessagesQueue := q }, some f) := by
  obtain ⟨hlive, hqueue, hq⟩ := DispatchQueue.takeFront_eq_some.mp htake
  rw [dispatchReceived_eq hlive, hqueue, runUntilFault_error hexec]
  dsimp only
  rw [← hq]

private theorem dispatchReceived_callback [DecidableEq γ] {callbacks : WSInputCallbacks γ}
    {b : Bound γ}
    {s' : WsSession γ} (hs : sessionStep callbacks exec (.callback b) s = some s') :
    s'.dispatchReceived exec = s.dispatchReceived exec ∧ s'.registered = s.registered := by
  obtain ⟨q, calls, htake, hexec, rfl⟩ := step_callback hs
  obtain ⟨hlive, hqueue, hq⟩ := DispatchQueue.takeFront_eq_some.mp htake
  have hlive' : q.quit = false := by
    rw [hq]
    exact hlive
  rw [foldl_withReceived]
  constructor
  · rw [dispatchReceived_eq hlive, dispatchReceived_eq hlive', hqueue, runUntilFault_ok hexec,
      runUntilFault_withReceived]
    dsimp only
    rw [hq]
  · obtain ⟨_, _, _, _, hframe⟩ := WsSession.sendFrame_foldl s calls
    rw [hframe]

/-- The copy of the map that a tick works on, in the order in which it goes through it. -/
def NetworkManager.snapshot (nm : NetworkManager γ) (order : List Bytes) : List (Bytes × WsSession γ) :=
  order.filterMap fun id => (nm.registry.objects id).map (id, ·)

private theorem snapshot_congr {nm nm' : NetworkManager γ} {l : List Bytes}
    (h : ∀ id ∈ l, nm'.registry.objects id = nm.registry.objects id) :
    nm'.snapshot l = nm.snapshot l := by
  apply List.filterMap_congr
  intro id hid
  rw [h id hid]

private theorem snapshot_append (nm : NetworkManager γ) (l l' : List Bytes) :
    nm.snapshot (l ++ l') = nm.snapshot l ++ nm.snapshot l' := List.filterMap_append

private theorem snapshot_cons {nm : NetworkManager γ} {id : Bytes} (l : List Bytes)
    (hsome : nm.registry.objects id = some s) : nm.snapshot (id :: l) = (id, s) :: nm.snapshot l := by
  simp [NetworkManager.snapshot, hsome]

private theorem keys_snapshot (nm : NetworkManager γ) {l : List Bytes}
    (h : ∀ id ∈ l, nm.registry.objects id ≠ none) : (nm.snapshot l).map (·.1) = l := by
  induction l with
  | nil => rfl
  | cons id l ih =>
    obtain ⟨hid, hl⟩ := List.forall_mem_cons.mp h
    obtain ⟨s, hsome⟩ := Option.ne_none_iff_exists'.mp hid
    rw [snapshot_cons l hsome, List.map_cons, ih hl]

private theorem mem_snapshot {nm : NetworkManager γ} {l : List Bytes} {x : Bytes × WsSession γ}
    (hx : x ∈ nm.snapshot l) : nm.registry.objects x.1 = some x.2 := by
  obtain ⟨id, -, hmap⟩ := List.mem_filterMap.mp hx
  obtain ⟨s, hsome, rfl⟩ := Option.map_eq_some_iff.mp hmap
  exact hsome

private theorem sweep_drained {nm nm' : NetworkManager γ} {done : List Bytes}
    (h : ∀ id ∈ done, ∃ s t, nm.registry.objects id = some s ∧ nm'.registry.objects id = some t ∧
      s.dispatchReceived exec = (t, none)) (post : List (Bytes × WsSession γ)) :
    sweep (WsSession.dispatchReceived exec) (nm.snapshot done ++ post) =
      (nm'.snapshot done ++ (sweep (WsSession.dispatchReceived exec) post).1,
        (sweep (WsSession.dispatchReceived exec) post).2) := by
  induction done with
  | nil => rfl
  | cons id done ih =>
    obtain ⟨⟨s, t, hs, ht, hdrain⟩, hrest⟩ := List.forall_mem_cons.mp h
    have hclear : (s.dispatchReceived exec).2 = none := congrArg Prod.snd hdrain
    rw [snapshot_cons done hs, snapshot_cons done ht, List.cons_append, sweep_cons_none hclear,
      ih hrest, hdrain]
    rfl

/-- How a tick ends: with no session left to visit, or by the exception of the callback
that it has just taken. -/
inductive Ends (exec : Bound γ → Except Fault (List SendCall)) (nm : NetworkManager γ) :
    NetworkManager γ → Option Fault → Prop where
  | done (htodo : nm.todo = []) : Ends exec nm nm none
  | thrown {id : Bytes} {rest : List Bytes} {s : WsSession γ} {b : Bound γ}
      {q : DispatchQueue (Bound γ)} {f : Fault} (htodo : nm.todo = id :: rest)
      (hsome : nm.registry.objects id = some s)
      (htake : s.receivedMessagesQueue.takeFront = some (b, q)) (hexec : exec b = .error f) :
      Ends exec nm { nm with
        registry := nm.registry.settle { s with receivedMessagesQueue := q }
        todo := [] } (some f)

private theorem visit_spec {e : ServerEvent γ} (he : e.isVisit = true) :
    e.Permitted ∧ e.isRead = false ∧ ∀ order, e ≠ .tick order := by
  cases e with
  | callback id b => exact ⟨trivial, rfl, by simp⟩
  | next => exact ⟨trivial, rfl, by simp⟩
  | _ => cases he

/-- Where an undisturbed tick over `order` is, that began in `nm` and has come to `nm'`. -/
structure Halfway (exec : Bound γ → Except Fault (List SendCall)) (nm nm' : NetworkManager γ)
    (order : List Bytes) : Prop where
  filed : Filed nm'.registry
  visited : ∃ done, order = done ++ nm'.todo ∧ ∀ id ∈ done, ∃ s t, nm.registry.objects id = some s ∧
    nm'.registry.objects id = some t ∧ s.dispatchReceived exec = (t, none)
  visiting : ∀ id ∈ nm'.todo, ∃ s t, nm.registry.objects id = some s ∧
    nm'.registry.objects id = some t ∧ t.dispatchReceived exec = s.dispatchReceived exec ∧
      t.registered = true
  waiting : ∀ id ∈ nm'.todo.tail, nm'.registry.objects id = nm.registry.objects id
  others : ∀ id ∉ order, nm'.registry.objects id = nm.registry.objects id
  sessions : nm'.registry.sessions = nm.registry.sessions
  wsListener : nm'.wsListener = nm.wsListener

variable {nm u : NetworkManager γ} {order : List Bytes}

private theorem Halfway.swept {nm' : NetworkManager γ} {fault : Option Fault}
    (hu : Halfway exec nm u order) (hnodup : order.Nodup) (hends : Ends exec u nm' fault) :
    doToAllSessions (WsSession.dispatchReceived exec) (nm.snapshot order) =
      (nm'.snapshot order, fault) := by
  obtain ⟨done, horder, hdone⟩ := hu.visited
  cases hends with
  | done htodo =>
    rw [htodo, List.append_nil] at horder
    subst horder
    have hsweep := sweep_drained hdone []
    simpa [sweep, doToAllSessions] using hsweep
  | @thrown id rest t b q f htodo hsome htake hexec =>
    rw [htodo] at horder
    subst horder
    obtain ⟨-, hnodup', hdisjoint⟩ := List.nodup_append.mp hnodup
    obtain ⟨s, t₁, hs, ht, hdrain, -⟩ := hu.visiting id (htodo ▸ List.mem_cons_self)
    obtain rfl : t = t₁ := Option.some.inj (hsome.symm.trans ht)
    rw [dispatchReceived_throws htake hexec] at hdrain
    have hthrows : (s.dispatchReceived exec).2 = some f := congrArg Prod.snd hdrain.symm
    have hid := (hu.filed id t hsome).1
    rw [doToAllSessions, snapshot_append, snapshot_cons rest hs, sweep_drained hdone,
      sweep_cons_some hthrows, ← hdrain, snapshot_append]
    have hfront : (u.registry.settle { t with receivedMessagesQueue := q }).objects =
        Function.update u.registry.objects id (some { t with receivedMessagesQueue := q }) := by
      rw [objects_settle, hid]
    have hbefore : ∀ i ∈ done, i ≠ id := fun i hi => hdisjoint i hi id List.mem_cons_self
    have hafter : ∀ i ∈ rest, i ≠ id := by
      rintro i hi rfl
      exact (List.nodup_cons.mp hnodup').1 hi
    have hpre : NetworkManager.snapshot { u with
        registry := u.registry.settle { t with receivedMessagesQueue := q }, todo := [] } done =
        u.snapshot done := by
      apply snapshot_congr
      intro i hi
      rw [hfront, Function.update_of_ne (hbefore i hi)]
    have hpost : NetworkManager.snapshot { u with
        registry := u.registry.settle { t with receivedMessagesQueue := q }, todo := [] } rest =
        nm.snapshot rest := by
      apply snapshot_congr
      intro i hi
      rw [hfront, Function.update_of_ne (hafter i hi)]
      exact hu.waiting i (htodo ▸ hi)
    rw [snapshot_cons rest (hfront ▸ Function.update_self _ _ _), hpre, hpost]

private theorem Halfway.kept {nm' : NetworkManager γ} {fault : Option Fault}
    (hu : Halfway exec nm u order) (hends : Ends exec u nm' fault) :
    nm'.todo = [] ∧ nm'.wsListener = nm.wsListener ∧ nm'.registry.sessions = nm.registry.sessions ∧
      ∀ id ∉ order, nm'.registry.objects id = nm.registry.objects id := by
  cases hends with
  | done htodo => exact ⟨htodo, hu.wsListener, hu.sessions, hu.others⟩
  | @thrown id rest t b q f htodo hsome htake hexec =>
    obtain ⟨s, t₁, -, ht, -, hregistered⟩ := hu.visiting id (htodo ▸ List.mem_cons_self)
    obtain rfl : t = t₁ := Option.some.inj (hsome.symm.trans ht)
    refine ⟨rfl, hu.wsListener, ?_, ?_⟩
    · rw [Registry.settle, if_pos hregistered]
      exact hu.sessions
    · intro i hi
      have hne : i ≠ id := by
        rintro rfl
        obtain ⟨done, horder, -⟩ := hu.visited
        rw [horder, htodo] at hi
        exact hi (List.mem_append_right _ List.mem_cons_self)
      rw [objects_settle]
      dsimp only
      rw [(hu.filed id t hsome).1, Function.update_of_ne hne]
      exact hu.others i hi

private theorem visits_done (hu : Halfway exec nm u order) {nm' : NetworkManager γ}
    {fault : Option Fault}
    (hfiled : Filed nm.registry) (hends : Ends exec u nm' fault)
    (hreturns : ∀ id ∈ order, ∀ b ∈ nm.received id, Returns exec b) : u.todo = [] := by
  cases hends with
  | done htodo => exact htodo
  | @thrown id rest t b q f htodo hsome htake hexec =>
    obtain ⟨s, t₁, hs, ht, hdrain, -⟩ := hu.visiting id (htodo ▸ List.mem_cons_self)
    obtain rfl : t = t₁ := Option.some.inj (hsome.symm.trans ht)
    obtain ⟨done, horder, -⟩ := hu.visited
    have hid : id ∈ order := by
      rw [horder, htodo]
      exact List.mem_append_right _ List.mem_cons_self
    have hqueue : nm.received id = s.receivedMessagesQueue.callbacksQueue := by
      simp only [NetworkManager.received, hs]
    have hclear := (dispatchReceived_spec exec (hfiled id s hs).2).1.mpr (hqueue ▸ hreturns id hid)
    rw [← hdrain, dispatchReceived_throws htake hexec] at hclear
    cases hclear

end

section
variable {γ : Type*} [DecidableEq γ] {callbacks : WSInputCallbacks γ}
  {exec : Bound γ → Except Fault (List SendCall)} {nm u v : NetworkManager γ} {order : List Bytes}

private theorem Halfway.callback (hu : Halfway exec nm u order) (hnodup : order.Nodup) {id : Bytes}
    {b : Bound γ} (hs : serverStep callbacks exec (.callback id b) u = some v) :
    Halfway exec nm v order := by
  obtain ⟨hhead, hr, hlistener, htodo⟩ := step_ran hs
  obtain ⟨rest, hcons⟩ : ∃ rest, u.todo = id :: rest := List.head?_eq_some_iff.mp hhead
  obtain ⟨t, t', hsome, hstep, hreg⟩ := registry_session hr
  obtain ⟨done, horder, hdone⟩ := hu.visited
  rw [horder, hcons] at hnodup
  obtain ⟨-, hnodup', hdisjoint⟩ := List.nodup_append.mp hnodup
  obtain ⟨s, t₁, hs₁, ht₁, hdrain, hregistered⟩ := hu.visiting id (hcons ▸ List.mem_cons_self)
  obtain rfl : t = t₁ := Option.some.inj (hsome.symm.trans ht₁)
  obtain ⟨hdrain', hregistered'⟩ := dispatchReceived_callback hstep
  have hid : t'.id = id := (identity_step hstep not_false).1.trans (hu.filed id t hsome).1
  have hself : v.registry.objects id = some t' := by
    rw [hreg, objects_settle, hid, Function.update_self]
  have hother : ∀ i, i ≠ id → v.registry.objects i = u.registry.objects i := by
    intro i hi
    rw [hreg, objects_settle, hid, Function.update_of_ne hi]
  refine ⟨filed_step hu.filed hr not_false, ⟨done, htodo ▸ horder, ?_⟩, ?_, ?_, ?_, ?_,
    hlistener.trans hu.wsListener⟩
  · intro i hi
    have hne : i ≠ id := hdisjoint i hi id List.mem_cons_self
    rw [hother i hne]
    exact hdone i hi
  · intro i hi
    by_cases hne : i = id
    · subst hne
      exact ⟨s, t', hs₁, hself, hdrain'.trans hdrain, hregistered'.trans hregistered⟩
    · rw [hother i hne]
      exact hu.visiting i (htodo ▸ hi)
  · intro i hi
    rw [htodo] at hi
    have hne : i ≠ id := by
      rintro rfl
      rw [hcons] at hi
      exact (List.nodup_cons.mp hnodup').1 hi
    rw [hother i hne]
    exact hu.waiting i hi
  · intro i hi
    have hne : i ≠ id := by
      rintro rfl
      rw [horder, hcons] at hi
      exact hi (List.mem_append_right _ List.mem_cons_self)
    rw [hother i hne]
    exact hu.others i hi
  · rw [hreg, Registry.settle, if_pos (hregistered'.trans hregistered)]
    exact hu.sessions

private theorem Halfway.next (hu : Halfway exec nm u order)
    (hs : serverStep callbacks exec .next u = some v) : Halfway exec nm v order := by
  obtain ⟨id, rest, hcons, hempty, rfl⟩ := step_next hs
  obtain ⟨done, horder, hdone⟩ := hu.visited
  obtain ⟨s, t, hs, ht, hdrain, -⟩ := hu.visiting id (hcons ▸ List.mem_cons_self)
  have hqueue : t.receivedMessagesQueue.callbacksQueue = [] := by
    simpa only [NetworkManager.received, ht] using hempty
  rw [dispatchReceived_empty (hu.filed id t ht).2 hqueue] at hdrain
  refine ⟨hu.filed, ⟨done ++ [id], by simp [horder, hcons], ?_⟩, ?_, ?_, hu.others, hu.sessions,
    hu.wsListener⟩
  · intro i hi
    rcases List.mem_append.mp hi with hi | hi
    · exact hdone i hi
    · obtain rfl := List.mem_singleton.mp hi
      exact ⟨s, t, hs, ht, hdrain.symm⟩
  · intro i hi
    exact hu.visiting i (hcons ▸ List.mem_cons_of_mem _ hi)
  · intro i hi
    apply hu.waiting i
    rw [hcons]
    exact List.mem_of_mem_tail hi

private theorem halfway_step {e : ServerEvent γ} (hu : Halfway exec nm u order) (hnodup : order.Nodup)
    (he : e.isVisit = true) (hs : serverStep callbacks exec e u = some v) : Halfway exec nm v order := by
  cases e with
  | callback id b => exact hu.callback hnodup hs
  | next => exact hu.next hs
  | _ => cases he

private theorem halfway_run {k : List (ServerEvent γ)} (hu : Halfway exec nm u order)
    (hnodup : order.Nodup)
    (hvisits : ∀ e ∈ k, e.isVisit = true) (hk : (serverMachine callbacks exec).run k u = some v) :
    Halfway exec nm v order := by
  apply (EventMachine.path_of_run hk hvisits).invariant fun _ v => Halfway exec nm v order
  · exact hu
  · intro _ v w e hv he hs
    exact halfway_step hv hnodup he hs

private theorem remaining_visit {e : ServerEvent γ} (hfiled : Filed u.registry)
    (hnodup : u.todo.Nodup)
    (he : e.isVisit = true) (hs : serverStep callbacks exec e u = some v) :
    v.todo.Nodup ∧ v.rounds.remaining < u.rounds.remaining := by
  obtain ⟨hperm, hread, htick⟩ := visit_spec he
  obtain ⟨k, hk, hf⟩ := follows_step hfiled hs hperm
  have hround : Rounds.SameRound k := by
    intro order hmem
    exact htick order (List.mem_singleton.mp (hf.begins order hmem)).symm
  obtain ⟨hnodup', hle⟩ := hk.remaining_le hround hnodup
  have hvisits := hf.visits
  have harrivals := hf.arrivals
  simp only [List.countP_singleton, he, hread, if_true, Bool.false_eq_true, if_false] at hvisits harrivals
  exact ⟨hnodup', by omega⟩

private theorem visits_end (callbacks : WSInputCallbacks γ)
    (exec : Bound γ → Except Fault (List SendCall))
    (hfiled : Filed u.registry) (hpresent : Present u) (hnodup : u.todo.Nodup) :
    ∃ k v nm' fault, (∀ e ∈ k, e.isVisit = true) ∧
      (serverMachine callbacks exec).run k u = some v ∧ Ends exec v nm' fault := by
  induction hn : u.rounds.remaining using Nat.strong_induction_on generalizing u with
  | _ n ih =>
    have go_on {e : ServerEvent γ} {w : NetworkManager γ} (he : e.isVisit = true)
        (hs : serverStep callbacks exec e u = some w) :
        ∃ k v nm' fault, (∀ e ∈ k, e.isVisit = true) ∧
          (serverMachine callbacks exec).run k u = some v ∧ Ends exec v nm' fault := by
      obtain ⟨hnodup', hlt⟩ := remaining_visit hfiled hnodup he hs
      obtain ⟨x, hx, hp⟩ := projects_step hs (visit_spec he).1
      obtain ⟨k, v, nm', fault, hvisits, hk, hends⟩ :=
        ih _ (hn ▸ hlt) (filed_run hfiled hx hp.permitted) (present_step hpresent hs) hnodup' rfl
      refine ⟨e :: k, v, nm', fault, List.forall_mem_cons.mpr ⟨he, hvisits⟩, ?_, hends⟩
      exact (congrArg (Option.bind · _) hs).trans hk
    cases htodo : u.todo with
    | nil => exact ⟨[], u, u, none, by simp, rfl, .done htodo⟩
    | cons id rest =>
      rcases visit_enabled hfiled hpresent htodo with ⟨w, hw⟩ | ⟨b, l, hqueue, ⟨w, hw⟩ | ⟨f, hexec⟩⟩
      · exact go_on rfl hw
      · exact go_on rfl hw
      · obtain ⟨s, hsome⟩ := Option.ne_none_iff_exists'.mp (hpresent.2 id (htodo ▸ List.mem_cons_self))
        have htake : s.receivedMessagesQueue.takeFront =
            some (b, { s.receivedMessagesQueue with callbacksQueue := l }) := by
          refine DispatchQueue.takeFront_eq_some.mpr ⟨(hfiled id s hsome).2, ?_, rfl⟩
          simpa only [NetworkManager.received, hsome] using hqueue
        exact ⟨[], u, _, some f, by simp, rfl, .thrown htodo hsome htake hexec⟩

variable (callbacks exec) in
/-- A whole tick with no other event meanwhile. -/
def Ticks (nm : NetworkManager γ) (order : List Bytes) (nm' : NetworkManager γ)
    (fault : Option Fault) : Prop :=
  ∃ k u, (∀ e ∈ k, e.isVisit = true) ∧
    (serverMachine callbacks exec).run (.tick order :: k) nm = some u ∧ Ends exec u nm' fault

private theorem halfway_begins {b : Bool} {h : List (ServerEvent γ)}
    (hr : (serverMachine callbacks exec).run h (.initial b) = some nm)
    (hperm : ∀ e ∈ h, e.Permitted) (horder : order.toFinset = nm.registry.sessions) :
    Halfway exec nm { nm with todo := order } order ∧ Present { nm with todo := order } := by
  have hfiled : Filed nm.registry := filed_server hr hperm
  have hin : ∀ id ∈ order, id ∈ nm.registry.sessions := by
    intro id hid
    exact horder ▸ List.mem_toFinset.mpr hid
  have hpresent := (present_server hr).1
  refine ⟨⟨hfiled, ⟨[], rfl, by simp⟩, ?_, fun _ _ => rfl, fun _ _ => rfl, rfl, rfl⟩,
    hpresent, fun id hid => hpresent id (hin id hid)⟩
  intro id hid
  obtain ⟨k, -, -, htracks⟩ := tracks_server hr hperm id
  cases htracks with
  | absent _ hout _ => exact absurd (hin id hid) hout
  | present s now hsome _ hregistered _ _ =>
    exact ⟨s, s, hsome, hsome, rfl, hregistered.mp (hin id hid)⟩

private theorem run_begun (hidle : nm.todo = []) (hnodup : order.Nodup)
    (horder : order.toFinset = nm.registry.sessions) (k : List (ServerEvent γ)) :
    (serverMachine callbacks exec).run (.tick order :: k) nm =
      (serverMachine callbacks exec).run k { nm with todo := order } := by
  have hbegin : serverStep callbacks exec (.tick order) nm = some { nm with todo := order } :=
    if_pos ⟨hidle, hnodup, horder⟩
  exact congrArg (Option.bind · _) hbegin

/-- In every state the server can be in between two ticks, `handleIncomingMessages` as one
function on the map and the tick that runs one callback at a time agree: left alone the
tick ends, each of its runs ends with the sessions and the exception of the function, and
nothing else of the server has changed. -/
theorem tick_refines {b : Bool} {h : List (ServerEvent γ)}
    (hr : (serverMachine callbacks exec).run h (.initial b) = some nm)
    (hperm : ∀ e ∈ h, e.Permitted) (hidle : nm.todo = []) (hnodup : order.Nodup)
    (horder : order.toFinset = nm.registry.sessions) :
    ∃ srv : WSServer γ, srv.sessions = nm.snapshot order ∧
      (∃ nm' fault, Ticks callbacks exec nm order nm' fault) ∧
      ∀ nm' fault, Ticks callbacks exec nm order nm' fault →
        (srv.handleIncomingMessages exec).1.sessions = nm'.snapshot order ∧
          (srv.handleIncomingMessages exec).2 = fault ∧
          nm'.todo = [] ∧ nm'.wsListener = nm.wsListener ∧
          nm'.registry.sessions = nm.registry.sessions ∧
          ∀ id ∉ order, nm'.registry.objects id = nm.registry.objects id := by
  have hfiled := filed_server hr hperm
  obtain ⟨hstart, hpresent⟩ := halfway_begins hr hperm horder
  have hkeys := keys_snapshot nm hpresent.2
  refine ⟨{ sessions := nm.snapshot order
            nodup := hkeys.symm ▸ hnodup
            live := fun e he => (hfiled e.1 e.2 (mem_snapshot he)).2 }, rfl, ?_, ?_⟩
  · obtain ⟨k, v, nm', fault, hvisits, hk, hends⟩ :=
      visits_end callbacks exec (u := { nm with todo := order }) hfiled hpresent hnodup
    exact ⟨nm', fault, k, v, hvisits, (run_begun hidle hnodup horder k).trans hk, hends⟩
  · rintro nm' fault ⟨k, u, hvisits, hk, hends⟩
    rw [run_begun hidle hnodup horder] at hk
    have hhalf := halfway_run hstart hnodup hvisits hk
    have hswept := hhalf.swept hnodup hends
    exact ⟨congrArg Prod.fst hswept, congrArg Prod.snd hswept, hhalf.kept hends⟩

theorem tick_refines_connected :
    ∃ nm : NetworkManager ServerCallback,
      (serverMachine operationCallbacks (Bound.call wholeConversions)).run connectedHistory
        (.initial true) = some nm ∧
      ∃ srv : WSServer ServerCallback, srv.sessions = nm.snapshot [[1]] ∧
        ∃ nm' fault, Ticks operationCallbacks (Bound.call wholeConversions) nm [[1]] nm' fault ∧
          (srv.handleIncomingMessages (Bound.call wholeConversions)).1.sessions = nm'.snapshot [[1]] ∧
          (srv.handleIncomingMessages (Bound.call wholeConversions)).2 = fault := by
  obtain ⟨nm, hr, hidle, hmap⟩ : ∃ nm : NetworkManager ServerCallback,
      (serverMachine operationCallbacks (Bound.call wholeConversions)).run connectedHistory
        (.initial true) = some nm ∧ nm.todo = [] ∧ [[1]].toFinset = nm.registry.sessions :=
    ⟨_, rfl, rfl, rfl⟩
  have hperm : ∀ e ∈ connectedHistory, e.Permitted := by
    simp [connectedHistory, ServerEvent.Permitted, SessionEvent.Starts]
  obtain ⟨srv, hsrv, ⟨nm', fault, hticks⟩, hagree⟩ :=
    tick_refines hr hperm hidle (List.nodup_singleton _) hmap
  obtain ⟨hsessions, hfault, -⟩ := hagree nm' fault hticks
  exact ⟨nm, hr, srv, hsrv, nm', fault, hticks, hsessions, hfault⟩

private theorem returns_ranFor {k : List (ServerEvent γ)}
    (hk : (serverMachine callbacks exec).run k u = some v)
    {id : Bytes} : ∀ b ∈ ranFor id k, Returns exec b := by
  apply (EventMachine.reaches_of_run hk).invariant fun k _ => ∀ b ∈ ranFor id k, Returns exec b
  · intro b hb
    cases hb
  · intro k v w e hall _ hstep
    have hs : serverStep callbacks exec e v = some w := hstep
    rw [ranFor, List.filterMap_append]
    refine List.forall_mem_append.mpr ⟨hall, ?_⟩
    intro b hb
    obtain ⟨e', he', hran⟩ := List.mem_filterMap.mp hb
    obtain rfl := List.mem_singleton.mp he'
    cases e' with
    | callback i c =>
      simp only [ServerEvent.ranOf, Option.ite_none_right_eq_some, Option.some.injEq] at hran
      obtain ⟨-, hr, -, -⟩ := step_ran hs
      obtain ⟨s, s', -, hcallback, -⟩ := registry_session hr
      obtain ⟨q, calls, -, hexec, -⟩ := step_callback hcallback
      exact ⟨calls, hran.2 ▸ hexec⟩
    | _ => cases hran

private theorem held_tick {k : List (ServerEvent γ)} (hfiled : Filed u.registry)
    (hk : (serverMachine callbacks exec).run k u = some v) (hperm : ∀ e ∈ k, e.Permitted) {id : Bytes}
    {b : Bound γ} (hid : id ∈ u.todo) (hqueued : b ∈ u.received id) (hb : ¬Returns exec b) :
    id ∈ v.todo := by
  obtain ⟨l, hl, hf⟩ := follows_run hfiled hk hperm
  have hnever : b ∉ Rounds.taken id l := by
    rw [hf.taken]
    exact fun hran => hb (returns_ranFor hk b hran)
  exact (hl.held (k := id) hid hqueued hnever).1

end

section
variable {δ : Type} {nm : NetworkManager ServerCallback} {order : List Bytes}

/-- A tick can end, whatever the other threads do meanwhile, exactly if no session in the
map holds an analysis that ends in a fault: one such request of one client stops the
service of all. -/
theorem tick_ends_iff (cv : Conversions δ) {b : Bool} {h : List (ServerEvent ServerCallback)}
    (hr : (serverMachine operationCallbacks (Bound.call cv)).run h (.initial b) = some nm)
    (hperm : ∀ e ∈ h, e.Permitted) (hidle : nm.todo = []) (hnodup : order.Nodup)
    (horder : order.toFinset = nm.registry.sessions) :
    (∃ k nm', (∀ e ∈ k, e.Permitted) ∧
        (serverMachine operationCallbacks (Bound.call cv)).run (.tick order :: k) nm = some nm' ∧
        nm'.todo = []) ↔
      ∀ id ∈ nm.registry.sessions, ∀ b ∈ nm.received id, Harmless cv b := by
  have hfiled := filed_server hr hperm
  obtain ⟨hstart, hpresent⟩ := halfway_begins hr hperm horder
  have hmem : ∀ id, id ∈ order ↔ id ∈ nm.registry.sessions := by
    intro id
    rw [← horder, List.mem_toFinset]
  constructor
  · rintro ⟨k, nm', hpermk, hk, hdone⟩ id hid b hqueued
    rw [run_begun hidle hnodup horder] at hk
    by_contra hb
    have hheld := held_tick (u := { nm with todo := order }) hfiled hk hpermk
      ((hmem id).mpr hid) hqueued fun hreturns => hb ((returns_iff b).mp hreturns)
    rw [hdone] at hheld
    exact List.not_mem_nil hheld
  · intro hharmless
    obtain ⟨k, v, nm', fault, hvisits, hk, hends⟩ := visits_end operationCallbacks (Bound.call cv)
      (u := { nm with todo := order }) hfiled hpresent hnodup
    have hhalf := halfway_run hstart hnodup hvisits hk
    refine ⟨k, v, fun e he => (visit_spec (hvisits e he)).1,
      (run_begun hidle hnodup horder k).trans hk, ?_⟩
    exact visits_done hhalf hfiled hends fun id hid b hb =>
      (returns_iff b).mpr (hharmless id ((hmem id).mp hid) b hb)

/-- One client connects and asks for the analysis of a table with a single column. -/
def askedHistory : List (ServerEvent ServerCallback) :=
  [.listener .run 0, .listener (.completed none) 0, .listener (.onAccept none [1]) 0,
    .session [1] .opened, .session [1] (.accepted none),
    .session [1] (.received none (49 :: someDate ++ [lf]))]

theorem tick_ends_iff_oneColumn : ∃ nm : NetworkManager ServerCallback,
    (serverMachine operationCallbacks (Bound.call wholeConversions)).run askedHistory (.initial true) =
      some nm ∧
    ¬∃ k nm', (∀ e ∈ k, e.Permitted) ∧
      (serverMachine operationCallbacks (Bound.call wholeConversions)).run (.tick [[1]] :: k) nm =
        some nm' ∧
      nm'.todo = [] := by
  obtain ⟨nm, hr, hidle, hmap, b, hb, hfault⟩ : ∃ nm : NetworkManager ServerCallback,
      (serverMachine operationCallbacks (Bound.call wholeConversions)).run askedHistory
        (.initial true) = some nm ∧ nm.todo = [] ∧ [[1]].toFinset = nm.registry.sessions ∧
      ∃ b ∈ nm.received [1], Bound.call wholeConversions b = .error .bareThrow :=
    ⟨_, rfl, rfl, rfl, _, List.mem_singleton_self _, rfl⟩
  have hperm : ∀ e ∈ askedHistory, e.Permitted := by
    simp [askedHistory, ServerEvent.Permitted, SessionEvent.Starts]
  refine ⟨nm, hr, ?_⟩
  rw [tick_ends_iff wholeConversions hr hperm hidle (List.nodup_singleton _) hmap]
  intro hharmless
  have hin : [1] ∈ nm.registry.sessions := hmap ▸ List.mem_toFinset.mpr (List.mem_singleton_self _)
  obtain ⟨calls, hcalls⟩ := (returns_iff b).mpr (hharmless [1] hin b hb)
  exact absurd (hfault.symm.trans hcalls) (by simp)

end
end Boostander.Net
