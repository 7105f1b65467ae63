import Boostander.Algo.DispatchQueue
import Boostander.Library.Forest

/-! Draining a queue whose callbacks dispatch further callbacks to it. What is
dispatched that way is a forest, and the drain runs it in breadth-first order. -/
namespace Boostander.Algo
open Library

/-- The state the callbacks work on, with a record of those started and of those
dispatched by them. -/
structure DispatchLog (σ α : Type*) where
  state : σ
  started : List α := []
  dispatched : List α := []

namespace DispatchQueue
variable {σ α : Type*}

def recorded (exec : α → σ → Ran σ α) (op : α) (log : DispatchLog σ α) : Ran (DispatchLog σ α) α where
  state := ⟨(exec op log.state).state, log.started ++ [op],
    log.dispatched ++ (exec op log.state).dispatched⟩
  dispatched := (exec op log.state).dispatched
  fault := (exec op log.state).fault

/-- Run one after the other from `s`, each callback dispatches the roots of its
children, up to the first that throws. Where the dispatches of a callback do not
depend on the state this only says that the forest is theirs. -/
def SpawnsInOrder (exec : α → σ → Ran σ α) : σ → List (RoseTree α) → Prop
  | _, [] => True
  | s, t :: ts => (exec t.root s).fault = none →
    (exec t.root s).dispatched = t.children.map RoseTree.root ∧ SpawnsInOrder exec (exec t.root s).state ts

variable {exec : α → σ → Ran σ α}

private theorem fault_recorded {op : α} {log : DispatchLog σ α} :
    (recorded exec op log).fault = (exec op log.state).fault := rfl

private theorem dispatchQueued_recorded (fuel : Nat) (q : DispatchQueue α) (log : DispatchLog σ α) :
    dispatchQueued exec fuel q log.state =
      (dispatchQueued (recorded exec) fuel q log).map fun r => (r.1, r.2.1.state, r.2.2) := by
  induction fuel generalizing q log with
  | zero => rfl
  | succ fuel ih =>
    cases htake : q.takeFront with
    | none =>
      rw [dispatchQueued_empty htake, dispatchQueued_empty htake]
      rfl
    | some taken =>
      obtain ⟨op, rest⟩ := taken
      cases hfault : (exec op log.state).fault with
      | some f =>
        rw [dispatchQueued_throws htake hfault,
          dispatchQueued_throws htake (fault_recorded.trans hfault)]
        rfl
      | none =>
        rw [dispatchQueued_returns htake hfault,
          dispatchQueued_returns htake (fault_recorded.trans hfault)]
        exact ih _ (recorded exec op log).state

private theorem conserved {fuel : Nat} {q q' : DispatchQueue α} {log log' : DispatchLog σ α}
    {fault : Option Fault} {initial : List α}
    (hr : dispatchQueued (recorded exec) fuel q log = some (q', log', fault))
    (h : log.started ++ q.callbacksQueue = initial ++ log.dispatched) :
    log'.started ++ q'.callbacksQueue = initial ++ log'.dispatched := by
  induction fuel generalizing q log with
  | zero => cases hr
  | succ fuel ih =>
    obtain ⟨-, hend⟩ | ⟨op, rest, htake, hround⟩ := dispatchQueued_round hr
    · obtain ⟨rfl, hlog⟩ := Prod.mk.inj hend
      obtain ⟨rfl, -⟩ := Prod.mk.inj hlog
      exact h
    · obtain ⟨-, hfront, -⟩ := takeFront_eq_some.mp htake
      have hnext : (recorded exec op log).state.started ++
          ((recorded exec op log).dispatched.foldl dispatch rest).callbacksQueue =
            initial ++ (recorded exec op log).state.dispatched := by
        rw [hfront] at h
        simp only [recorded, foldl_dispatch]
        rw [← List.append_assoc initial, ← h]
        simp
      obtain ⟨f, -, hend⟩ | ⟨-, hgo⟩ := hround
      · obtain ⟨rfl, hlog⟩ := Prod.mk.inj hend
        obtain ⟨rfl, -⟩ := Prod.mk.inj hlog
        exact hnext
      · exact ih hgo hnext

private theorem drain_forest (q : DispatchQueue α) (forest : List (RoseTree α))
    (log : DispatchLog σ α)
    (hquit : q.quit = false) (hqueue : q.callbacksQueue = forest.map RoseTree.root)
    (hspawn : SpawnsInOrder exec log.state (RoseTree.breadthFirst forest)) :
    ∃ q' log' fault,
      (∀ fuel, (RoseTree.forestSubtrees forest).length < fuel →
        dispatchQueued (recorded exec) fuel q log = some (q', log', fault)) ∧
      log'.started ++ (runUntilFault exec ((RoseTree.breadthFirst forest).map RoseTree.root) log.state).1 =
        log.started ++ (RoseTree.breadthFirst forest).map RoseTree.root ∧
      (log'.state, fault) =
        (runUntilFault exec ((RoseTree.breadthFirst forest).map RoseTree.root) log.state).2 ∧
      (fault = none → q'.callbacksQueue = []) := by
  induction hn : (RoseTree.forestSubtrees forest).length using Nat.strong_induction_on
    generalizing q forest log with
  | _ n ih =>
    cases forest with
    | nil =>
      refine ⟨q, log, none, ?_, ?_, rfl, fun _ => hqueue⟩
      · intro fuel hfuel
        obtain ⟨k, rfl⟩ : ∃ k, fuel = k + 1 := Nat.exists_eq_add_one.mpr (Nat.zero_lt_of_lt hfuel)
        exact dispatchQueued_empty (by simp [takeFront, hqueue]) k
      · rfl
    | cons t forest =>
      rw [RoseTree.breadthFirst_cons] at hspawn
      have hsize : (RoseTree.forestSubtrees (forest ++ t.children)).length + 1 = n := by
        rw [← hn, RoseTree.forestSubtrees_append, RoseTree.forestSubtrees, RoseTree.subtrees_eq]
        simp only [List.length_append, List.length_cons]
        omega
      have htake : q.takeFront = some (t.root, { q with callbacksQueue := forest.map RoseTree.root }) := by
        simp [takeFront, hquit, hqueue]
      rw [RoseTree.breadthFirst_cons, List.map_cons, runUntilFault]
      cases hfault : (exec t.root log.state).fault with
      | some f =>
        refine ⟨(recorded exec t.root log).dispatched.foldl dispatch
          { q with callbacksQueue := forest.map RoseTree.root },
          (recorded exec t.root log).state, some f, ?_, ?_, rfl, fun h => absurd h (Option.some_ne_none f)⟩
        · intro fuel hfuel
          obtain ⟨k, rfl⟩ : ∃ k, fuel = k + 1 := Nat.exists_eq_add_one.mpr (by omega)
          exact dispatchQueued_throws htake (fault_recorded.trans hfault) k
        · simp [recorded]
      | none =>
        obtain ⟨hchildren, hrest⟩ := hspawn hfault
        obtain ⟨q', log', fault, hrun, hstarted, hend, hempty⟩ :=
          ih _ (by omega) ((recorded exec t.root log).dispatched.foldl dispatch
            { q with callbacksQueue := forest.map RoseTree.root }) (forest ++ t.children)
            (recorded exec t.root log).state (by rw [foldl_dispatch]; exact hquit)
            (by rw [foldl_dispatch]; simp [recorded, hchildren]) hrest rfl
        refine ⟨q', log', fault, ?_, ?_, hend, hempty⟩
        · intro fuel hfuel
          obtain ⟨k, rfl⟩ : ∃ k, fuel = k + 1 := Nat.exists_eq_add_one.mpr (by omega)
          rw [dispatchQueued_returns htake (fault_recorded.trans hfault)]
          exact hrun k (by omega)
        · simpa [recorded] using hstarted

private theorem runUntilFault_returned {ops : List α} {s : σ}
    (h : (runUntilFault exec ops s).2.2 = none) :
    (runUntilFault exec ops s).1 = [] := by
  induction ops generalizing s with
  | nil => rfl
  | cons op ops ih =>
    rw [runUntilFault] at h ⊢
    cases hfault : (exec op s).fault with
    | some f =>
      rw [hfault] at h
      cases h
    | none =>
      rw [hfault] at h
      exact ih h

private theorem runUntilFault_returns {ops : List α} {s : σ}
    (h : ∀ op ∈ ops, ∀ s, (exec op s).fault = none) :
    (runUntilFault exec ops s).2.2 = none := by
  induction ops generalizing s with
  | nil => rfl
  | cons op ops ih =>
    rw [runUntilFault, h op List.mem_cons_self s]
    exact ih fun op' hop => h op' (List.mem_cons_of_mem _ hop)

private theorem spawnsInOrder_of_forall {ts : List (RoseTree α)} {s : σ}
    (h : ∀ t ∈ ts, ∀ s, (exec t.root s).dispatched = t.children.map RoseTree.root) :
    SpawnsInOrder exec s ts := by
  induction ts generalizing s with
  | nil => exact trivial
  | cons t ts ih =>
    intro _
    exact ⟨h t List.mem_cons_self s, ih fun t' ht => h t' (List.mem_cons_of_mem _ ht)⟩

/-- `DispatchQueued` ends on every finite forest of callbacks, and runs each of them
once, in breadth-first order, up to the first that throws. Then the queue holds what
was dispatched and not started, in the order it was dispatched in. -/
theorem dispatchQueued_breadthFirst (exec : α → σ → Ran σ α) (q : DispatchQueue α)
    (forest : List (RoseTree α)) (s : σ)
    (hquit : q.quit = false) (hqueue : q.callbacksQueue = forest.map RoseTree.root)
    (hspawn : SpawnsInOrder exec s (RoseTree.breadthFirst forest)) :
    (RoseTree.breadthFirst forest).Perm (RoseTree.forestSubtrees forest) ∧
    ∃ q' log fault,
      (∀ fuel, (RoseTree.forestSubtrees forest).length < fuel →
        dispatchQueued (recorded exec) fuel q { state := s } = some (q', log, fault) ∧
          dispatchQueued exec fuel q s = some (q', log.state, fault)) ∧
      log.started ++ (runUntilFault exec ((RoseTree.breadthFirst forest).map RoseTree.root) s).1 =
        (RoseTree.breadthFirst forest).map RoseTree.root ∧
      (log.state, fault) =
        (runUntilFault exec ((RoseTree.breadthFirst forest).map RoseTree.root) s).2 ∧
      ((∀ t ∈ RoseTree.breadthFirst forest, ∀ s, (exec t.root s).fault = none) → fault = none) ∧
      (fault = none → q'.callbacksQueue = [] ∧
        log.started = (RoseTree.breadthFirst forest).map RoseTree.root) ∧
      log.started ++ q'.callbacksQueue = q.callbacksQueue ++ log.dispatched := by
  obtain ⟨q', log, fault, hrun, hstarted, hend, hempty⟩ :=
    drain_forest q forest { state := s } hquit hqueue hspawn
  rw [List.nil_append] at hstarted
  have hfault : fault =
      (runUntilFault exec ((RoseTree.breadthFirst forest).map RoseTree.root) s).2.2 :=
    congrArg Prod.snd hend
  refine ⟨RoseTree.breadthFirst_perm forest, q', log, fault, ?_, hstarted, hend, ?_, ?_, ?_⟩
  · intro fuel hfuel
    have hrecorded := hrun fuel hfuel
    refine ⟨hrecorded, ?_⟩
    rw [dispatchQueued_recorded fuel q { state := s }, hrecorded]
    rfl
  · intro hreturn
    rw [hfault]
    apply runUntilFault_returns
    intro op hop s
    obtain ⟨t, ht, rfl⟩ := List.mem_map.mp hop
    exact hreturn t ht s
  · intro hnone
    refine ⟨hempty hnone, ?_⟩
    rw [runUntilFault_returned (hfault ▸ hnone), List.append_nil] at hstarted
    exact hstarted
  · exact conserved (hrun _ (Nat.lt_succ_self _)) (by simp)

/-- The first of two callbacks dispatches two more, one of which dispatches a fifth. -/
theorem dispatchQueued_breadthFirst_five :
    ∃ (q' : DispatchQueue Nat) (log : DispatchLog (List Nat) Nat) (fault : Option Fault),
      dispatchQueued (recorded fun op s =>
        { state := s ++ [op], dispatched := if op = 1 then [3, 4] else if op = 3 then [5] else [] }) 6
        { callbacksQueue := [1, 2] } { state := [] } = some (q', log, fault) ∧
      fault = none ∧ q'.callbacksQueue = [] ∧ log.started = [1, 2, 3, 4, 5] := by
  obtain ⟨-, q', log, fault, hrun, -, -, hreturns, hdrained, -⟩ :=
    dispatchQueued_breadthFirst (fun op (s : List Nat) =>
        { state := s ++ [op], dispatched := if op = 1 then [3, 4] else if op = 3 then [5] else [] })
      { callbacksQueue := [1, 2] } [.node 1 [.node 3 [.node 5 []], .node 4 []], .node 2 []]
      [] rfl rfl (spawnsInOrder_of_forall (by simp [RoseTree.breadthFirst, RoseTree.levels,
        RoseTree.forestSubtrees, RoseTree.subtrees, RoseTree.nextLevel, RoseTree.children, RoseTree.root]))
  obtain rfl := hreturns fun t _ s => rfl
  exact ⟨q', log, none, (hrun 6 (by decide)).1, rfl, (hdrained rfl).1, (hdrained rfl).2⟩

end DispatchQueue
end Boostander.Algo
