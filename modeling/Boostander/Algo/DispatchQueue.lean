import Boostander.Algo.Text

/-! The queue of callbacks of `algo/DispatchQueue.cpp`. A locked section of the
source is one operation here; the lock is released while a callback runs, so a
callback may itself dispatch to the queue it was taken from. -/
namespace Boostander.Algo

/-- A dispatch queue. `threads` is the number of worker threads, fixed by the constructor. -/
structure DispatchQueue (α : Type*) where
  callbacksQueue : List α := []
  quit : Bool := false
  threads : Nat := 1
  deriving DecidableEq, Repr

/-- What one callback does when it runs: the state it leaves, the callbacks it
dispatches to the same queue, and the fault it ends with if it does not return. -/
structure Ran (σ α : Type*) where
  state : σ
  dispatched : List α := []
  fault : Option Fault := none

namespace DispatchQueue
variable {σ α : Type*}

def dispatch (q : DispatchQueue α) (op : α) : DispatchQueue α :=
  { q with callbacksQueue := q.callbacksQueue ++ [op] }

def clear (q : DispatchQueue α) : DispatchQueue α := { q with callbacksQueue := [] }

/-- As in the source, this looks at the worker threads and not at the queue. -/
def isEmpty (q : DispatchQueue α) : Bool := q.threads == 0

/-- The locked section that takes the next callback to run, in `dispatch_loop` and `DispatchQueued`. -/
def takeFront (q : DispatchQueue α) : Option (α × DispatchQueue α) :=
  if q.quit then none
  else match q.callbacksQueue with
    | [] => none
    | op :: rest => some (op, { q with callbacksQueue := rest })

/-- The loop of `DispatchQueued` on the thread that calls it. Without fuel left
the loop has not ended. A fault leaves the queue as it is at that point. -/
def dispatchQueued (exec : α → σ → Ran σ α) :
    Nat → DispatchQueue α → σ → Option (DispatchQueue α × σ × Option Fault)
  | 0, _, _ => none
  | fuel + 1, q, s =>
    match q.takeFront with
    | none => some (q, s, none)
    | some (op, q) =>
      let ran := exec op s
      let q := ran.dispatched.foldl dispatch q
      match ran.fault with
      | some f => some (q, ran.state, some f)
      | none => dispatchQueued exec fuel q ran.state

/-- Run a list of callbacks in order, up to and including the first that does not return. -/
def runUntilFault (exec : α → σ → Ran σ α) : List α → σ → List α × σ × Option Fault
  | [], s => ([], s, none)
  | op :: rest, s =>
    match (exec op s).fault with
    | some f => (rest, (exec op s).state, some f)
    | none => runUntilFault exec rest (exec op s).state

theorem takeFront_eq_some {q q' : DispatchQueue α} {op : α} :
    q.takeFront = some (op, q') ↔
      q.quit = false ∧ q.callbacksQueue = op :: q'.callbacksQueue ∧
        q' = { q with callbacksQueue := q'.callbacksQueue } := by
  obtain ⟨l, quit, n⟩ := q
  obtain ⟨l', quit', n'⟩ := q'
  unfold takeFront
  cases quit with
  | true => simp
  | false =>
    cases l with
    | nil => simp
    | cons c rest => simp; grind

theorem foldl_dispatch (q : DispatchQueue α) (ops : List α) :
    ops.foldl dispatch q = { q with callbacksQueue := q.callbacksQueue ++ ops } := by
  induction ops generalizing q with
  | nil => simp
  | cons op ops ih =>
    rw [List.foldl_cons, ih]
    simp [dispatch]

section
variable {exec : α → σ → Ran σ α} {q rest : DispatchQueue α} {op : α} {s : σ}

theorem dispatchQueued_empty (h : q.takeFront = none) (fuel : Nat) :
    dispatchQueued exec (fuel + 1) q s = some (q, s, none) := by
  rw [dispatchQueued, h]

theorem dispatchQueued_throws {f : Fault} (h : q.takeFront = some (op, rest))
    (hfault : (exec op s).fault = some f) (fuel : Nat) :
    dispatchQueued exec (fuel + 1) q s =
      some ((exec op s).dispatched.foldl dispatch rest, (exec op s).state, some f) := by
  rw [dispatchQueued, h]
  simp only [hfault]

theorem dispatchQueued_returns (h : q.takeFront = some (op, rest))
    (hfault : (exec op s).fault = none) (fuel : Nat) :
    dispatchQueued exec (fuel + 1) q s =
      dispatchQueued exec fuel ((exec op s).dispatched.foldl dispatch rest) (exec op s).state := by
  rw [dispatchQueued, h]
  simp only [hfault]

/-- What one round of the drain does: it ends on an empty queue and on a fault, and
goes on with what the callback has dispatched otherwise. -/
theorem dispatchQueued_round {fuel : Nat} {r : DispatchQueue α × σ × Option Fault}
    (h : dispatchQueued exec (fuel + 1) q s = some r) :
    (q.takeFront = none ∧ r = (q, s, none)) ∨
      ∃ op rest, q.takeFront = some (op, rest) ∧
        ((∃ f, (exec op s).fault = some f ∧
            r = ((exec op s).dispatched.foldl dispatch rest, (exec op s).state, some f)) ∨
          (exec op s).fault = none ∧
            dispatchQueued exec fuel ((exec op s).dispatched.foldl dispatch rest) (exec op s).state =
              some r) := by
  cases htake : q.takeFront with
  | none =>
    rw [dispatchQueued_empty htake] at h
    exact .inl ⟨rfl, (Option.some.inj h).symm⟩
  | some taken =>
    obtain ⟨op, rest⟩ := taken
    refine .inr ⟨op, rest, rfl, ?_⟩
    cases hfault : (exec op s).fault with
    | some f =>
      rw [dispatchQueued_throws htake hfault] at h
      exact .inl ⟨f, rfl, (Option.some.inj h).symm⟩
    | none =>
      rw [dispatchQueued_returns htake hfault] at h
      exact .inr ⟨rfl, h⟩

end

theorem dispatchQueued_keeps {exec : α → σ → Ran σ α} {fuel : Nat} {q q' : DispatchQueue α} {s s' : σ}
    {fault : Option Fault} (h : dispatchQueued exec fuel q s = some (q', s', fault)) :
    q' = { q with callbacksQueue := q'.callbacksQueue } := by
  induction fuel generalizing q s with
  | zero => cases h
  | succ fuel ih =>
    obtain ⟨-, hend⟩ | ⟨op, rest, htake, hround⟩ := dispatchQueued_round h
    · obtain ⟨rfl, -⟩ := Prod.mk.inj hend
      rfl
    · obtain ⟨-, -, hrest⟩ := takeFront_eq_some.mp htake
      simp only [foldl_dispatch] at hround
      obtain ⟨f, -, hend⟩ | ⟨-, hgo⟩ := hround
      · obtain ⟨rfl, -⟩ := Prod.mk.inj hend
        rw [hrest]
      · rw [ih hgo, hrest]

/-- When no callback dispatches to its own queue the drain runs the queued
callbacks and ends, given one round for each of them and one to find the queue empty. -/
theorem dispatchQueued_eq_runUntilFault (exec : α → σ → Ran σ α)
    (hexec : ∀ op s, (exec op s).dispatched = []) (q : DispatchQueue α) (s : σ)
    (hquit : q.quit = false) (fuel : Nat) (hfuel : q.callbacksQueue.length < fuel) :
    dispatchQueued exec fuel q s =
      some ({ q with callbacksQueue := (runUntilFault exec q.callbacksQueue s).1 },
        (runUntilFault exec q.callbacksQueue s).2) := by
  obtain ⟨l, quit, n⟩ := q
  obtain rfl : quit = false := hquit
  induction l generalizing s fuel with
  | nil =>
    cases fuel with
    | zero => exact absurd hfuel (Nat.not_lt_zero _)
    | succ fuel => simp [dispatchQueued, takeFront, runUntilFault]
  | cons op rest ih =>
    cases fuel with
    | zero => exact absurd hfuel (Nat.not_lt_zero _)
    | succ fuel =>
      have hrest : rest.length < fuel := by simpa using hfuel
      simp only [dispatchQueued, takeFront, runUntilFault, hexec, List.foldl_nil, Bool.false_eq_true,
        if_false]
      cases hf : (exec op s).fault with
      | some f => rfl
      | none => exact ih _ _ hrest

end DispatchQueue
end Boostander.Algo
