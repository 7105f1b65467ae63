import Boostander.Algo.DispatchQueue
import Boostander.Library.EventMachine

/-! A dispatch queue shared by any number of producers and consumers. Each locked
section of the source is one event; between two of them any thread may run. -/
namespace Boostander.Algo
open Library

/-- A queue with the threads at work on it. `running` holds the callback each
consumer runs with the lock released; the last three fields record what was ever
dispatched, started and cleared, in order. -/
structure Dispatching (α : Type*) where
  queue : DispatchQueue α := {}
  running : Nat → Option α := fun _ => none
  dispatched : List α := []
  started : List α := []
  cleared : List α := []

/-- A consumer is a worker thread in `dispatch_loop` or a thread that calls `DispatchQueued`. -/
inductive DispatchEvent (α : Type*) where
  | dispatch (op : α)
  /-- A consumer takes the front callback, releases the lock and starts it. -/
  | start (consumer : Nat)
  /-- The callback returns and its consumer goes back to the lock. -/
  | returned (consumer : Nat)
  | clear
  /-- The destructor sets `quit_`. -/
  | quit

section
variable {α : Type*}

def dispatchStep : DispatchEvent α → Dispatching α → Option (Dispatching α)
  | .dispatch op, t =>
    some { t with queue := t.queue.dispatch op, dispatched := t.dispatched ++ [op] }
  | .start consumer, t =>
    match t.running consumer, t.queue.takeFront with
    | none, some (op, queue) =>
      some { t with
        queue := queue
        running := Function.update t.running consumer (some op)
        started := t.started ++ [op] }
    | _, _ => none
  | .returned consumer, t =>
    if (t.running consumer).isSome then
      some { t with running := Function.update t.running consumer none }
    else none
  | .clear, t =>
    some { t with queue := t.queue.clear, cleared := t.cleared ++ t.queue.callbacksQueue }
  | .quit, t => some { t with queue := { t.queue with quit := true } }

def dispatchMachine : EventMachine (Dispatching α) (DispatchEvent α) := ⟨dispatchStep⟩

/-- What can have become of a dispatched callback. -/
inductive Fate where
  | started
  | cleared
  | queued
  deriving DecidableEq, Repr

/-- The callbacks with a given fate, in the order of their dispatch. -/
def withFate (f : Fate) (fates : List (Fate × α)) : List α :=
  (fates.filter (·.1 = f)).map (·.2)

@[simp] theorem withFate_append (f : Fate) (l k : List (Fate × α)) :
    withFate f (l ++ k) = withFate f l ++ withFate f k := by
  simp [withFate]

theorem withFate_singleton (f g : Fate) (op : α) :
    withFate f [(g, op)] = if g = f then [op] else [] := by
  by_cases hg : g = f <;> simp [withFate, hg]

private theorem withFate_map (f g : Fate) (l : List α) :
    withFate f (l.map (Prod.mk g)) = if g = f then l else [] := by
  induction l with
  | nil => simp [withFate]
  | cons op l ih =>
    rw [List.map_cons, ← List.singleton_append, withFate_append, ih, withFate_singleton]
    by_cases hg : g = f <;> simp [hg]

/-- The callbacks that have left the queue, with what became of them. -/
structure Departed (gone : List (Fate × α)) (t : Dispatching α) : Prop where
  dispatched : gone.map (·.2) ++ t.queue.callbacksQueue = t.dispatched
  started : withFate .started gone = t.started
  cleared : withFate .cleared gone = t.cleared
  queued : withFate .queued gone = []

variable {t t' : Dispatching α}

private theorem step_start {consumer : Nat} (h : dispatchStep (.start consumer) t = some t') :
    ∃ op queue, t.queue.takeFront = some (op, queue) ∧
      t' = { t with
        queue := queue
        running := Function.update t.running consumer (some op)
        started := t.started ++ [op] } := by
  simp only [dispatchStep] at h
  split at h
  · rename_i op queue _ htake
    exact ⟨op, queue, htake, (Option.some.inj h).symm⟩
  · cases h

namespace DispatchEvent

def dispatches : DispatchEvent α → List α
  | .dispatch op => [op]
  | _ => []

/-- The callback that the event hands to its consumer to run. -/
def starts (after : Dispatching α) : DispatchEvent α → List α
  | .start consumer => (after.running consumer).toList
  | _ => []

/-- The callbacks that the event finds in the queue and drops. -/
def clears (before : Dispatching α) : DispatchEvent α → List α
  | .clear => before.queue.callbacksQueue
  | _ => []

def isStart : DispatchEvent α → Bool
  | .start _ => true
  | _ => false

end DispatchEvent

/-- The callbacks dispatched along a history, in order. -/
def dispatchesOf (h : List (DispatchEvent α)) : List α := h.flatMap DispatchEvent.dispatches

/-- The callbacks that some consumer has been given to run along a history, in order. -/
def startsOf (h : List (DispatchEvent α)) (t : Dispatching α) : List α :=
  dispatchMachine.observed (fun _ e after => e.starts after) h t

/-- The callbacks that were in the queue when a history cleared it, in order. -/
def clearsOf (h : List (DispatchEvent α)) (t : Dispatching α) : List α :=
  dispatchMachine.observed (fun before e _ => e.clears before) h t

/-- Callbacks leave from the front, one by one to be started or all at once to be cleared. -/
theorem departed_step {gone : List (Fate × α)} {e : DispatchEvent α} (h : Departed gone t)
    (hs : dispatchStep e t = some t') : ∃ gone', Departed gone' t' := by
  cases e with
  | dispatch op =>
    obtain rfl := Option.some.inj hs
    refine ⟨gone, ?_, h.started, h.cleared, h.queued⟩
    rw [← h.dispatched, List.append_assoc]
    rfl
  | start consumer =>
    obtain ⟨op, queue, htake, rfl⟩ := step_start hs
    obtain ⟨-, hfront, -⟩ := DispatchQueue.takeFront_eq_some.mp htake
    refine ⟨gone ++ [(.started, op)], ?_, ?_, ?_, ?_⟩
    · simp [← h.dispatched, hfront]
    · simp [h.started, withFate_singleton]
    · simp [h.cleared, withFate_singleton]
    · simp [h.queued, withFate_singleton]
  | returned consumer =>
    obtain ⟨-, hs⟩ := Option.ite_none_right_eq_some.mp hs
    obtain rfl := Option.some.inj hs
    exact ⟨gone, h.dispatched, h.started, h.cleared, h.queued⟩
  | clear =>
    obtain rfl := Option.some.inj hs
    refine ⟨gone ++ t.queue.callbacksQueue.map (Prod.mk .cleared), ?_, ?_, ?_, ?_⟩
    · simp [← h.dispatched, DispatchQueue.clear, Function.comp_def]
    · simp [h.started, withFate_map]
    · simp [h.cleared, withFate_map]
    · simp [h.queued, withFate_map]
  | quit =>
    obtain rfl := Option.some.inj hs
    exact ⟨gone, h.dispatched, h.started, h.cleared, h.queued⟩

theorem recorded_step {e : DispatchEvent α} (hs : dispatchStep e t = some t') :
    t'.dispatched = t.dispatched ++ e.dispatches ∧ t'.started = t.started ++ e.starts t' ∧
      t'.cleared = t.cleared ++ e.clears t ∧ (e.starts t').length = [e].countP DispatchEvent.isStart := by
  cases e with
  | dispatch op =>
    obtain rfl := Option.some.inj hs
    simp [DispatchEvent.dispatches, DispatchEvent.starts, DispatchEvent.clears, DispatchEvent.isStart]
  | start consumer =>
    obtain ⟨op, queue, -, rfl⟩ := step_start hs
    simp [DispatchEvent.dispatches, DispatchEvent.starts, DispatchEvent.clears, DispatchEvent.isStart]
  | returned consumer =>
    obtain ⟨-, hs⟩ := Option.ite_none_right_eq_some.mp hs
    obtain rfl := Option.some.inj hs
    simp [DispatchEvent.dispatches, DispatchEvent.starts, DispatchEvent.clears, DispatchEvent.isStart]
  | clear =>
    obtain rfl := Option.some.inj hs
    simp [DispatchEvent.dispatches, DispatchEvent.starts, DispatchEvent.clears, DispatchEvent.isStart]
  | quit =>
    obtain rfl := Option.some.inj hs
    simp [DispatchEvent.dispatches, DispatchEvent.starts, DispatchEvent.clears, DispatchEvent.isStart]

/-- What the records hold after a run is what its events did. -/
theorem recorded_run {h : List (DispatchEvent α)} (hr : dispatchMachine.Reaches t h t') :
    t'.dispatched = t.dispatched ++ dispatchesOf h ∧ t'.started = t.started ++ startsOf h t ∧
      t'.cleared = t.cleared ++ clearsOf h t := by
  refine ⟨?_, hr.records (·.started) ?_, hr.records (·.cleared) ?_⟩
  · refine hr.invariant (fun h u => u.dispatched = t.dispatched ++ dispatchesOf h) ?_ ?_
    · simp [dispatchesOf]
    · intro h u v e hu _ hs
      obtain ⟨hdispatched, -⟩ := recorded_step hs
      simp [hdispatched, hu, dispatchesOf]
  · intro u e v hs
    exact (recorded_step hs).2.1
  · intro u e v hs
    exact (recorded_step hs).2.2.1

private theorem length_startsOf {h : List (DispatchEvent α)} (hr : dispatchMachine.Reaches t h t') :
    (startsOf h t).length = h.countP DispatchEvent.isStart := by
  induction hr with
  | start => rfl
  | next hr _ hs ih =>
    rw [startsOf, EventMachine.observed_concat (EventMachine.run_of_path hr) hs, List.length_append,
      List.countP_append, (recorded_step hs).2.2.2]
    exact congrArg (· + _) ih

theorem quit_step {e : DispatchEvent α} (hquit : t.queue.quit = true)
    (hs : dispatchStep e t = some t') : t'.queue.quit = true ∧ e.isStart = false := by
  cases e with
  | start consumer =>
    obtain ⟨op, queue, htake, -⟩ := step_start hs
    obtain ⟨hrun, -, -⟩ := DispatchQueue.takeFront_eq_some.mp htake
    exact absurd (hquit.symm.trans hrun) (by decide)
  | returned consumer =>
    obtain ⟨-, hs⟩ := Option.ite_none_right_eq_some.mp hs
    obtain rfl := Option.some.inj hs
    exact ⟨hquit, rfl⟩
  | dispatch op =>
    obtain rfl := Option.some.inj hs
    exact ⟨hquit, rfl⟩
  | clear =>
    obtain rfl := Option.some.inj hs
    exact ⟨hquit, rfl⟩
  | quit =>
    obtain rfl := Option.some.inj hs
    exact ⟨rfl, rfl⟩

theorem quit_run {h : List (DispatchEvent α)} (hquit : t.queue.quit = true)
    (hr : dispatchMachine.Reaches t h t') :
    t'.queue.quit = true ∧ ∀ e ∈ h, e.isStart = false := by
  refine hr.invariant (fun h u => u.queue.quit = true ∧ ∀ e ∈ h, e.isStart = false) ⟨hquit, by simp⟩ ?_
  rintro h u v e ⟨hu, hnone⟩ - hs
  obtain ⟨hv, he⟩ := quit_step hu hs
  refine ⟨hv, ?_⟩
  intro e' he'
  rcases List.mem_append.mp he' with he' | he'
  · exact hnone e' he'
  · rwa [List.mem_singleton.mp he']

theorem started_of_quit {h : List (DispatchEvent α)} (hquit : t.queue.quit = true)
    (hr : dispatchMachine.Reaches t h t') : t'.started = t.started := by
  have hnone : startsOf h t = [] := by
    rw [← List.length_eq_zero_iff, length_startsOf hr, List.countP_eq_zero]
    simpa using (quit_run hquit hr).2
  rw [(recorded_run hr).2.1, hnone, List.append_nil]

/-- Whatever the threads and their interleaving, each callback that the history
dispatches has one fate: those whose fate it is to be started are the ones given to
a consumer to run, one at each start, in the order of their dispatch, likewise the
cleared and the queued ones, and nothing starts after `quit_` is set. -/
theorem dispatched_once {threads : Nat} {h : List (DispatchEvent α)}
    (hr : dispatchMachine.Reaches { queue := { threads := threads } } h t) :
    (∃ fates : List (Fate × α), fates.map (·.2) = dispatchesOf h ∧
        withFate .started fates = startsOf h { queue := { threads := threads } } ∧
        withFate .cleared fates = clearsOf h { queue := { threads := threads } } ∧
        withFate .queued fates = t.queue.callbacksQueue) ∧
      (startsOf h { queue := { threads := threads } }).length = h.countP DispatchEvent.isStart ∧
      ∀ k l, h = k ++ .quit :: l → ∀ consumer, .start consumer ∉ l := by
  have hgone : ∃ gone, Departed gone t := by
    refine hr.invariant (fun _ t => ∃ gone, Departed gone t) ⟨[], rfl, rfl, rfl, rfl⟩ ?_
    rintro _ u v e ⟨gone, hu⟩ - hs
    exact departed_step hu hs
  obtain ⟨gone, hdispatched, hstarted, hcleared, hqueued⟩ := hgone
  obtain ⟨hdispatches, hstarts, hclears⟩ := recorded_run hr
  rw [List.nil_append] at hdispatches hstarts hclears
  refine ⟨⟨gone ++ t.queue.callbacksQueue.map (Prod.mk .queued), ?_, ?_, ?_, ?_⟩,
    length_startsOf hr, ?_⟩
  · simpa [Function.comp_def, ← hdispatches] using hdispatched
  · simp [hstarted, withFate_map, ← hstarts]
  · simp [hcleared, withFate_map, ← hclears]
  · simp [hqueued, withFate_map]
  · rintro k l rfl consumer hmem
    have hrun := EventMachine.run_of_path hr
    rw [EventMachine.run_append] at hrun
    obtain ⟨u, -, hrest⟩ := Option.bind_eq_some_iff.mp hrun
    obtain ⟨v, hv, hl⟩ := Option.bind_eq_some_iff.mp hrest
    obtain rfl := Option.some.inj hv
    obtain ⟨-, hnone⟩ := quit_run rfl (EventMachine.reaches_of_run hl)
    cases hnone _ hmem

end

/-- Two consumers and two clears, the second of an empty queue, before the queue quits. -/
def busyHistory : List (DispatchEvent Nat) :=
  [.dispatch 1, .dispatch 2, .start 0, .dispatch 3, .start 1, .clear, .returned 1, .dispatch 4,
    .start 1, .clear, .returned 0, .quit, .dispatch 5]

theorem dispatched_once_busy : ∃ t : Dispatching Nat,
    dispatchMachine.run busyHistory { queue := { threads := 2 } } = some t ∧
    (∃ fates : List (Fate × Nat), fates.map (·.2) = [1, 2, 3, 4, 5] ∧
        withFate .started fates = [1, 2, 4] ∧ withFate .cleared fates = [3] ∧
        withFate .queued fates = [5]) ∧
      ∀ k l, busyHistory = k ++ .quit :: l → ∀ consumer, .start consumer ∉ l := by
  obtain ⟨t, ht, hqueue⟩ : ∃ t, dispatchMachine.run busyHistory { queue := { threads := 2 } } = some t ∧
      t.queue.callbacksQueue = [5] := ⟨_, rfl, rfl⟩
  obtain ⟨⟨fates, hdispatched, hstarted, hcleared, hqueued⟩, -, hquit⟩ :=
    dispatched_once (EventMachine.reaches_of_run ht)
  exact ⟨t, ht, ⟨fates, hdispatched, hstarted, hcleared, hqueued.trans hqueue⟩, hquit⟩

example : (dispatchMachine.run busyHistory { queue := { threads := 2 } }).map
    (fun t => (t.started, t.cleared, t.queue.callbacksQueue)) = some ([1, 2, 4], [3], [5]) := by rfl

end Boostander.Algo
