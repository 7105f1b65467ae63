import Boostander.Algo.DispatchHistory
import Boostander.Library.Monitor

/-! The worker threads of a dispatch queue, with the condition variable they wait on
and the destructor that joins them. What they do to the queue is what the consumers
of `DispatchHistory` do. -/
namespace Boostander.Algo
open Library

section
variable {α : Type*} {n : Nat}

/-- One round of `dispatch_loop`, from the moment the worker holds the lock. With
`quit_` set the body of the loop is skipped and the loop ends. -/
def dispatchLoop (t : Dispatching α) : Turn (Dispatching α) α :=
  if t.queue.callbacksQueue.isEmpty && !t.queue.quit then .wait
  else match t.queue.takeFront with
    | some (op, queue) => .take { t with queue := queue, started := t.started ++ [op] } op
    | none => .leave

/-- `dispatch` and the destructor call `notify_all`, `clear` and `DispatchQueued` do not. -/
def notifies : DispatchEvent α → Bool
  | .dispatch _ => true
  | .quit => true
  | _ => false

private theorem dispatchLoop_wait_iff {t : Dispatching α} :
    dispatchLoop t = .wait ↔ t.queue.callbacksQueue = [] ∧ t.queue.quit = false := by
  unfold dispatchLoop
  constructor
  · intro h
    split at h
    · rename_i hempty
      simpa using hempty
    · split at h <;> cases h
  · rintro ⟨hempty, hquit⟩
    simp [hempty, hquit]

private theorem dispatchLoop_take {t t' : Dispatching α} {op : α} (h : dispatchLoop t = .take t' op) :
    ∃ queue, t.queue.takeFront = some (op, queue) ∧
      t' = { t with queue := queue, started := t.started ++ [op] } := by
  unfold dispatchLoop at h
  split at h
  · cases h
  · split at h
    · rename_i op' queue htake
      obtain ⟨rfl, rfl⟩ := Turn.take.inj h
      exact ⟨queue, htake, rfl⟩
    · cases h

private theorem dispatchLoop_leave {t : Dispatching α} (h : dispatchLoop t = .leave) :
    t.queue.quit = true := by
  by_contra hquit
  rw [Bool.not_eq_true] at hquit
  cases hqueue : t.queue.callbacksQueue with
  | nil => simp [dispatchLoop, hqueue, hquit] at h
  | cons op rest => simp [dispatchLoop, DispatchQueue.takeFront, hqueue, hquit] at h

private theorem dispatchLoop_keeps {t t' : Dispatching α} {op : α} (h : dispatchLoop t = .take t' op)
    (hquit : t.queue.quit = true) : t'.queue.quit = true := by
  obtain ⟨queue, htake, rfl⟩ := dispatchLoop_take h
  obtain ⟨hlive, -⟩ := DispatchQueue.takeFront_eq_some.mp htake
  exact absurd (hquit.symm.trans hlive) (by decide)

/-- The locked sections of the other threads are those of `dispatchStep`. -/
def dispatchMonitor : Monitor (Dispatching α) α (DispatchEvent α) where
  turn := dispatchLoop
  update := dispatchStep
  announces := notifies
  quiet := by
    intro e t t' hs he hwait
    obtain ⟨hempty, hquit⟩ := dispatchLoop_wait_iff.mp hwait
    apply dispatchLoop_wait_iff.mpr
    cases e with
    | dispatch op => cases he
    | quit => cases he
    | start consumer =>
      have hnone : t.queue.takeFront = none := by simp [DispatchQueue.takeFront, hempty]
      simp only [dispatchStep, hnone] at hs
      cases h : t.running consumer <;> simp [h] at hs
    | returned consumer =>
      obtain ⟨-, hs⟩ := Option.ite_none_right_eq_some.mp hs
      exact Option.some.inj hs ▸ ⟨hempty, hquit⟩
    | clear => exact Option.some.inj hs ▸ ⟨rfl, hquit⟩

/-- A queue with its worker threads, of which the destructor has joined the first `joined`. -/
structure Pool (α : Type*) (n : Nat) where
  threads : Threads (Dispatching α) α (DispatchEvent α) n
  joined : Nat := 0

inductive PoolEvent (α : Type*) (n : Nat) where
  | thread (e : ThreadEvent (DispatchEvent α) n)
  /-- The next call of `join` in the destructor returns. -/
  | join

namespace Pool

def created (α : Type*) (n : Nat) : Pool α n := { threads := { shared := { queue := { threads := n } } } }

def queue (p : Pool α n) : DispatchQueue α := p.threads.shared.queue

def isQuit : DispatchEvent α → Bool
  | .quit => true
  | _ => false

/-- The destructor has set `quit_` and notified, and the thread it joins next has ended. -/
def canJoin (p : Pool α n) : Bool :=
  p.queue.quit && !p.threads.notices.any isQuit &&
    if h : p.joined < n then
      match p.threads.workers ⟨p.joined, h⟩ with
      | .left => true
      | _ => false
    else false

def step : PoolEvent α n → Pool α n → Option (Pool α n)
  | .thread e, p => (dispatchMonitor.step e p.threads).map fun threads => { p with threads := threads }
  | .join, p => if p.canJoin then some { p with joined := p.joined + 1 } else none

end Pool

def poolMachine : EventMachine (Pool α n) (PoolEvent α n) := ⟨Pool.step⟩

variable {p p' : Pool α n}

private theorem pool_thread {e : ThreadEvent (DispatchEvent α) n}
    (hs : Pool.step (.thread e) p = some p') :
    dispatchMonitor.step e p.threads = some p'.threads ∧ p'.joined = p.joined := by
  obtain ⟨threads, hthreads, rfl⟩ := Option.map_eq_some_iff.mp hs
  exact ⟨hthreads, rfl⟩

private theorem pool_join (hs : Pool.step .join p = some p') :
    p.canJoin = true ∧ p' = { p with joined := p.joined + 1 } := by
  obtain ⟨hcan, hs⟩ := Option.ite_none_right_eq_some.mp hs
  exact ⟨hcan, (Option.some.inj hs).symm⟩

private theorem Pool.joined_lt (h : p.canJoin = true) : p.joined < n := by
  by_contra hlt
  simp [Pool.canJoin, hlt] at h

def job {ω : Type*} : Worker ω → Option ω
  | .working w => some w
  | _ => none

private theorem job_wake {ω : Type*} (w : Worker ω) : job w.wake = job w := by
  cases w with
  | _ => rfl

/-- The worker threads are the first consumers, the other threads come after them. -/
def consumers (workers : Fin n → Option α) (others : Nat → Option α) (c : Nat) : Option α :=
  if h : c < n then workers ⟨c, h⟩ else others (c - n)

private theorem consumers_worker (workers : Fin n → Option α) (others : Nat → Option α) (t : Fin n) :
    consumers workers others t = workers t := dif_pos t.isLt

private theorem consumers_other (workers : Fin n → Option α) (others : Nat → Option α) (c : Nat) :
    consumers workers others (n + c) = others c := by
  simp [consumers]

private theorem consumers_update_worker (workers : Fin n → Option α) (others : Nat → Option α)
    (t : Fin n)
    (op : Option α) : consumers (Function.update workers t op) others =
      Function.update (consumers workers others) t op := by
  funext c
  by_cases hc : c = t
  · subst hc
    rw [Function.update_self, consumers_worker, Function.update_self]
  · rw [Function.update_of_ne hc]
    by_cases hlt : c < n
    · have hne : (⟨c, hlt⟩ : Fin n) ≠ t := fun heq => hc (congrArg Fin.val heq)
      simp [consumers, hlt, Function.update_of_ne hne]
    · simp [consumers, hlt]

private theorem consumers_update_other (workers : Fin n → Option α) (others : Nat → Option α)
    (c : Nat)
    (op : Option α) : consumers workers (Function.update others c op) =
      Function.update (consumers workers others) (n + c) op := by
  funext d
  by_cases hd : d = n + c
  · subst hd
    rw [Function.update_self, consumers_other, Function.update_self]
  · rw [Function.update_of_ne hd]
    by_cases hlt : d < n
    · simp [consumers, hlt]
    · have hne : d - n ≠ c := by omega
      simp [consumers, hlt, Function.update_of_ne hne]

/-- The pool as a queue with consumers. -/
def Pool.view (p : Pool α n) : Dispatching α :=
  { p.threads.shared with
    running := consumers (fun t => job (p.threads.workers t)) p.threads.shared.running }

private theorem Pool.running_view (p : Pool α n) (t : Fin n) :
    p.view.running t = job (p.threads.workers t) :=
  consumers_worker (fun t => job (p.threads.workers t)) p.threads.shared.running t

private theorem job_update (workers : Fin n → Worker α) (t : Fin n) (w : Worker α) :
    (fun u => job (Function.update workers t w u)) =
      Function.update (fun u => job (workers u)) t (job w) := by
  funext u
  exact Function.apply_update (fun _ => job) workers t w u

private theorem job_update_idle {workers : Fin n → Worker α} {t : Fin n} {w : Worker α}
    (hold : job (workers t) = none) (hnew : job w = none) :
    (fun u => job (Function.update workers t w u)) = fun u => job (workers u) := by
  rw [job_update, hnew, ← hold]
  exact Function.update_eq_self t fun u => job (workers u)

private def shift (n : Nat) : DispatchEvent α → DispatchEvent α
  | .start c => .start (n + c)
  | .returned c => .returned (n + c)
  | e => e

private theorem view_locked {e : DispatchEvent α} {workers : Fin n → Worker α} {t t' : Dispatching α}
    (hs : dispatchStep e t = some t') :
    dispatchStep (shift n e) { t with running := consumers (fun u => job (workers u)) t.running } =
      some { t' with running := consumers (fun u => job (workers u)) t'.running } := by
  cases e with
  | dispatch op => exact Option.some.inj hs ▸ rfl
  | clear => exact Option.some.inj hs ▸ rfl
  | quit => exact Option.some.inj hs ▸ rfl
  | returned c =>
    obtain ⟨hsome, hs⟩ := Option.ite_none_right_eq_some.mp hs
    obtain rfl := Option.some.inj hs
    simp [shift, dispatchStep, consumers_other, hsome, consumers_update_other]
  | start c =>
    simp only [dispatchStep] at hs
    split at hs
    · rename_i op queue hnone htake
      obtain rfl := Option.some.inj hs
      simp [shift, dispatchStep, consumers_other, hnone, htake, consumers_update_other]
    · cases hs

/-- What the outside asks of the queue, as opposed to what its consumers do. -/
def DispatchEvent.request : DispatchEvent α → Option (DispatchEvent α)
  | .start _ => none
  | .returned _ => none
  | e => some e

def PoolEvent.request : PoolEvent α n → Option (DispatchEvent α)
  | .thread (.locked e) => e.request
  | _ => none

private theorem request_shift (e : DispatchEvent α) : (shift n e).request = e.request := by
  cases e with
  | _ => rfl

/-- The queue with consumers gets from the view of `p` to that of `p'` with these requests. -/
def Mirrors (p p' : Pool α n) (requests : List (DispatchEvent α)) : Prop :=
  ∃ k, dispatchMachine.run k p.view = some p'.view ∧ k.filterMap DispatchEvent.request = requests

private theorem mirrors_one {e : DispatchEvent α} (h : dispatchStep e p.view = some p'.view) :
    Mirrors p p' e.request.toList := by
  refine ⟨[e], EventMachine.run_singleton h, ?_⟩
  cases hreq : e.request <;> simp [hreq]

private theorem mirrors_none (hshared : p'.threads.shared = p.threads.shared)
    (hjob : (fun u => job (p'.threads.workers u)) = fun u => job (p.threads.workers u)) :
    Mirrors p p' [] := by
  refine ⟨[], congrArg some ?_, rfl⟩
  rw [Pool.view, Pool.view, hshared, hjob]

private theorem mirrors_step {e : PoolEvent α n} (hs : Pool.step e p = some p') :
    Mirrors p p' e.request.toList := by
  cases e with
  | join =>
    obtain ⟨-, rfl⟩ := pool_join hs
    exact mirrors_none rfl rfl
  | thread e =>
    obtain ⟨hthreads, -⟩ := pool_thread hs
    obtain ⟨threads', joined'⟩ := p'
    cases Monitor.move_of_step hthreads with
    | @locked e shared hupdate =>
      rw [← show (shift n e).request = (PoolEvent.thread (.locked e)).request from request_shift e]
      exact mirrors_one (view_locked hupdate)
    | notify hk => exact mirrors_none rfl (funext fun u => job_wake _)
    | sleep ht hturn => exact mirrors_none rfl (job_update_idle (by rw [ht]; rfl) rfl)
    | leave ht hturn => exact mirrors_none rfl (job_update_idle (by rw [ht]; rfl) rfl)
    | wakes ht => exact mirrors_none rfl (job_update_idle (by rw [ht]; rfl) rfl)
    | @take t shared w ht hturn =>
      obtain ⟨queue, htake, rfl⟩ := dispatchLoop_take hturn
      have hnone : p.view.running t = none := by
        rw [Pool.running_view, ht]
        rfl
      have hview : p.view.queue.takeFront = some (w, queue) := htake
      apply mirrors_one (e := DispatchEvent.start t)
      simp only [dispatchStep, hnone, hview]
      simp only [Pool.view, job_update, consumers_update_worker]
      rfl
    | @finished t w ht =>
      have hsome : p.view.running t = some w := by
        rw [Pool.running_view, ht]
        rfl
      apply mirrors_one (e := .returned t)
      rw [dispatchStep, hsome, Option.isSome_some, if_pos rfl]
      simp only [Pool.view, job_update, consumers_update_worker]
      rfl

private theorem mirrors_run {h : List (PoolEvent α n)} (hr : poolMachine.run h p = some p') :
    Mirrors p p' (h.filterMap PoolEvent.request) := by
  apply (EventMachine.reaches_of_run hr).invariant fun h q => Mirrors p q (h.filterMap PoolEvent.request)
  · exact ⟨[], rfl, rfl⟩
  · rintro h u v e ⟨k, hk, hreq⟩ - hs
    obtain ⟨l, hl, hreq'⟩ := mirrors_step hs
    refine ⟨k ++ l, ?_, ?_⟩
    · rw [EventMachine.run_append, hk]
      exact hl
    · rw [List.filterMap_append, List.filterMap_append, hreq, hreq']
      cases he : e.request <;> simp [he]

private theorem view_created : (Pool.created α n).view = { queue := { threads := n } } := by
  have hidle : consumers (fun _ : Fin n => (none : Option α)) (fun _ => none) = fun _ => none := by
    funext c
    simp [consumers]
  exact congrArg (fun running => ({ queue := { threads := n }, running := running } : Dispatching α)) hidle

/-- The worker threads, their condition variable and the destructor refine the queue
with consumers: each of their runs is a run of it with the same requests in the same
order, after which both hold the same callbacks and run the same ones. -/
theorem pool_refines {h : List (PoolEvent α n)} (hr : poolMachine.run h (Pool.created α n) = some p) :
    ∃ k t, dispatchMachine.run k { queue := { threads := n } } = some t ∧
      k.filterMap DispatchEvent.request = h.filterMap PoolEvent.request ∧
      t.queue = p.queue ∧ t.dispatched = p.threads.shared.dispatched ∧
      t.started = p.threads.shared.started ∧ t.cleared = p.threads.shared.cleared ∧
      (∀ u : Fin n, t.running u = job (p.threads.workers u)) ∧
      ∀ c, t.running (n + c) = p.threads.shared.running c := by
  obtain ⟨k, hk, hreq⟩ := mirrors_run hr
  rw [view_created] at hk
  refine ⟨k, p.view, hk, hreq, rfl, rfl, rfl, rfl, p.running_view, ?_⟩
  exact consumers_other (fun t => job (p.threads.workers t)) p.threads.shared.running

/-- One worker runs one callback and goes back to sleep. -/
def drainedHistory : List (PoolEvent Nat 1) :=
  [.thread (.enter 0), .thread (.locked (.dispatch 7)), .thread (.notify 0), .thread (.enter 0),
    .thread (.finished 0), .thread (.enter 0)]

theorem pool_refines_drained : ∃ (p : Pool Nat 1) (k : List (DispatchEvent Nat)) (t : Dispatching Nat),
    poolMachine.run drainedHistory (Pool.created Nat 1) = some p ∧
    dispatchMachine.run k { queue := { threads := 1 } } = some t ∧
    k.filterMap DispatchEvent.request = drainedHistory.filterMap PoolEvent.request ∧
    t.started = [7] ∧ t.running 0 = none := by
  obtain ⟨p, hr, hstarted, hworkers⟩ : ∃ p : Pool Nat 1,
      poolMachine.run drainedHistory (Pool.created Nat 1) = some p ∧
      p.threads.shared.started = [7] ∧ p.threads.workers 0 = .asleep := ⟨_, rfl, rfl, rfl⟩
  obtain ⟨k, t, hk, hreq, -, -, hstarted', -, hrunning, -⟩ := pool_refines hr
  refine ⟨p, k, t, hr, hk, hreq, hstarted'.trans hstarted, ?_⟩
  rw [show (0 : Nat) = ((0 : Fin 1) : Nat) from rfl, hrunning, hworkers]
  rfl

/-- The events that the threads and the destructor get done by themselves. -/
def PoolEvent.Internal : PoolEvent α n → Prop
  | .thread e => Monitor.Internal e
  | .join => True

/-- No thread and not the destructor can go on. -/
def Pool.Blocked (p : Pool α n) : Prop := ∀ e, PoolEvent.Internal e → Pool.step e p = none

private theorem Pool.Blocked.threads (h : p.Blocked) : dispatchMonitor.Blocked p.threads := by
  intro e he
  exact Option.map_eq_none_iff.mp (h (.thread e) he)

private theorem noLostWakeup_pool {h : List (PoolEvent α n)}
    (hr : poolMachine.run h (Pool.created α n) = some p) :
    dispatchMonitor.NoLostWakeup p.threads ∧ p.joined ≤ n := by
  apply (EventMachine.reaches_of_run hr).invariant fun _ q =>
    dispatchMonitor.NoLostWakeup q.threads ∧ q.joined ≤ n
  · refine ⟨?_, Nat.zero_le n⟩
    intro t ht
    cases ht
  · rintro _ u v e ⟨hlost, hjoined⟩ - hs
    cases e with
    | thread e =>
      obtain ⟨hthreads, hsame⟩ := pool_thread hs
      exact ⟨Monitor.noLostWakeup_step hlost hthreads, hsame ▸ hjoined⟩
    | join =>
      obtain ⟨hcan, rfl⟩ := pool_join hs
      exact ⟨hlost, Pool.joined_lt hcan⟩

/-- A worker sleeps with a callback queued or `quit_` set only as long as a call of
`notify_all` is still to come, in every interleaving. -/
theorem worker_never_stranded {h : List (PoolEvent α n)}
    (hr : poolMachine.run h (Pool.created α n) = some p) {t : Fin n}
    (hasleep : p.threads.workers t = .asleep)
    (hwork : p.queue.callbacksQueue ≠ [] ∨ p.queue.quit = true) : p.threads.notices ≠ [] := by
  rcases (noLostWakeup_pool hr).1 t hasleep with hwait | hnotices
  · obtain ⟨hempty, hquit⟩ := dispatchLoop_wait_iff.mp hwait
    rcases hwork with hne | hquit'
    · exact absurd hempty hne
    · exact absurd (hquit.symm.trans hquit') (by decide)
  · exact hnotices

/-- The only worker sleeps, and a callback was dispatched since. -/
theorem worker_never_stranded_dispatched : ∃ p : Pool Nat 1,
    poolMachine.run [.thread (.enter 0), .thread (.locked (.dispatch 7))] (Pool.created Nat 1) = some p ∧
    p.threads.workers 0 = .asleep ∧ p.queue.callbacksQueue = [7] ∧ p.threads.notices ≠ [] := by
  obtain ⟨p, hr, hasleep, hqueue⟩ : ∃ p : Pool Nat 1,
      poolMachine.run [.thread (.enter 0), .thread (.locked (.dispatch 7))] (Pool.created Nat 1) =
        some p ∧ p.threads.workers 0 = .asleep ∧ p.queue.callbacksQueue = [7] := ⟨_, rfl, rfl, rfl⟩
  have hwork : p.queue.callbacksQueue ≠ [] := by simp [hqueue]
  exact ⟨p, hr, hasleep, hqueue, worker_never_stranded hr hasleep (.inl hwork)⟩

namespace Pool

/-- What the threads and the destructor can still do without the outside. -/
def potential (p : Pool α n) : Nat :=
  Monitor.potential (fun t => t.queue.callbacksQueue.length) p.threads + (n - p.joined)

end Pool

/-- What an event of the outside can make the threads do, with the event itself. -/
def PoolEvent.price : PoolEvent α n → Nat
  | .thread e => Monitor.price e
  | .join => 0

private theorem length_dispatchLoop {t t' : Dispatching α} {op : α}
    (h : dispatchMonitor.turn t = .take t' op) :
    t'.queue.callbacksQueue.length < t.queue.callbacksQueue.length := by
  obtain ⟨queue, htake, rfl⟩ := dispatchLoop_take h
  obtain ⟨-, hqueue, -⟩ := DispatchQueue.takeFront_eq_some.mp htake
  simp [hqueue]

private theorem length_dispatchStep {e : DispatchEvent α} {t t' : Dispatching α}
    (hs : dispatchMonitor.update e t = some t') :
    t'.queue.callbacksQueue.length ≤ t.queue.callbacksQueue.length + 1 := by
  change dispatchStep e t = some t' at hs
  cases e with
  | dispatch op =>
    obtain rfl := Option.some.inj hs
    simp [DispatchQueue.dispatch]
  | start c =>
    simp only [dispatchStep] at hs
    split at hs
    · rename_i op queue _ htake
      obtain rfl := Option.some.inj hs
      obtain ⟨-, hqueue, -⟩ := DispatchQueue.takeFront_eq_some.mp htake
      simp only [hqueue, List.length_cons]
      omega
    · cases hs
  | returned c =>
    obtain ⟨-, hs⟩ := Option.ite_none_right_eq_some.mp hs
    exact Option.some.inj hs ▸ Nat.le_succ _
  | clear => exact Option.some.inj hs ▸ Nat.zero_le _
  | quit => exact Option.some.inj hs ▸ Nat.le_succ _

private theorem length_le_potential {h : List (PoolEvent α n)} (hr : poolMachine.run h p = some p') :
    h.length + p'.potential ≤ p.potential + (h.map PoolEvent.price).sum := by
  apply (EventMachine.reaches_of_run hr).invariant fun h q =>
    h.length + q.potential ≤ p.potential + (h.map PoolEvent.price).sum
  · simp
  · intro h u v e hu _ hs
    have hstep : v.potential + 1 ≤ u.potential + e.price := by
      cases e with
      | thread e =>
        obtain ⟨hthreads, hsame⟩ := pool_thread hs
        have hpaid := Monitor.potential_step length_dispatchLoop length_dispatchStep hthreads
        simp only [Pool.potential, PoolEvent.price, hsame]
        omega
      | join =>
        obtain ⟨hcan, rfl⟩ := pool_join hs
        have hlt := Pool.joined_lt hcan
        simp only [Pool.potential, PoolEvent.price]
        omega
    simp only [List.length_append, List.length_singleton, List.map_append, List.map_singleton,
      List.sum_append, List.sum_singleton]
    omega

private theorem potential_created : (Pool.created α n).potential = 2 * n := by
  simp [Pool.potential, Monitor.potential, Monitor.load, Pool.created, Worker.weight]
  omega

private theorem withFate_started {l : List (Fate × α)} (hcleared : withFate .cleared l = [])
    (hqueued : withFate .queued l = []) : withFate .started l = l.map (·.2) := by
  induction l with
  | nil => rfl
  | cons x l ih =>
    obtain ⟨f, op⟩ := x
    rw [← List.singleton_append, withFate_append, withFate_singleton] at hcleared hqueued ⊢
    cases f with
    | started => simpa using ih (by simpa using hcleared) (by simpa using hqueued)
    | cleared => simp at hcleared
    | queued => simp at hqueued

/-- The callback that a worker or another thread has been given to run by the event. -/
def PoolEvent.starts (after : Pool α n) : PoolEvent α n → List α
  | .thread (.enter t) => (job (after.threads.workers t)).toList
  | .thread (.locked e) => e.starts after.threads.shared
  | _ => []

/-- The callbacks that the threads of a pool have been given to run along a history. -/
def poolStarts (h : List (PoolEvent α n)) (p : Pool α n) : List α :=
  poolMachine.observed (fun _ e after => e.starts after) h p

private theorem started_pool_step {e : PoolEvent α n} (hs : Pool.step e p = some p') :
    p'.threads.shared.started = p.threads.shared.started ++ e.starts p' := by
  cases e with
  | join =>
    obtain ⟨-, rfl⟩ := pool_join hs
    exact (List.append_nil _).symm
  | thread e =>
    obtain ⟨hthreads, -⟩ := pool_thread hs
    obtain ⟨threads', joined'⟩ := p'
    cases Monitor.move_of_step hthreads with
    | locked hupdate => exact (recorded_step hupdate).2.1
    | notify hk => exact (List.append_nil _).symm
    | sleep ht hturn => simp [PoolEvent.starts, job]
    | leave ht hturn => simp [PoolEvent.starts, job]
    | wakes ht => exact (List.append_nil _).symm
    | finished ht => exact (List.append_nil _).symm
    | take ht hturn =>
      obtain ⟨queue, -, rfl⟩ := dispatchLoop_take hturn
      simp [PoolEvent.starts, job]

private theorem dispatches_request (k : List (DispatchEvent α)) :
    dispatchesOf (k.filterMap DispatchEvent.request) = dispatchesOf k := by
  induction k with
  | nil => rfl
  | cons e k ih =>
    cases e with
    | _ => simpa [dispatchesOf, List.filterMap_cons, DispatchEvent.request, DispatchEvent.dispatches] using ih

private theorem recorded_pool {h : List (PoolEvent α n)}
    (hr : poolMachine.run h (Pool.created α n) = some p) :
    p.threads.shared.dispatched = dispatchesOf (h.filterMap PoolEvent.request) ∧
      p.threads.shared.started = poolStarts h (Pool.created α n) := by
  constructor
  · obtain ⟨k, hk, hreq⟩ := mirrors_run hr
    obtain ⟨hdispatched, -⟩ := recorded_run (EventMachine.reaches_of_run hk)
    rw [← hreq, dispatches_request]
    exact hdispatched
  · have hstarted := (EventMachine.reaches_of_run hr).records (·.threads.shared.started)
      fun _ _ _ hs => started_pool_step hs
    exact hstarted

private theorem departed_pool {h : List (PoolEvent α n)}
    (hr : poolMachine.run h (Pool.created α n) = some p) : ∃ gone, Departed gone p.threads.shared := by
  obtain ⟨k, hk, -⟩ := mirrors_run hr
  rw [view_created] at hk
  have hgone : ∃ gone, Departed gone p.view := by
    apply (EventMachine.reaches_of_run hk).invariant fun _ t => ∃ gone, Departed gone t
    · exact ⟨[], rfl, rfl, rfl, rfl⟩
    · rintro _ u v e ⟨gone, hu⟩ - hs
      exact departed_step hu hs
  obtain ⟨gone, hgone⟩ := hgone
  exact ⟨gone, hgone.dispatched, hgone.started, hgone.cleared, hgone.queued⟩

private theorem left_quit {h : List (PoolEvent α n)}
    (hr : poolMachine.run h (Pool.created α n) = some p)
    {t : Fin n} (ht : p.threads.workers t = .left) : p.queue.quit = true := by
  have hall : ∀ t, p.threads.workers t = .left → p.threads.shared.queue.quit = true := by
    apply (EventMachine.reaches_of_run hr).invariant fun _ q =>
      ∀ t, q.threads.workers t = .left → q.threads.shared.queue.quit = true
    · intro t ht
      cases ht
    · intro _ u v e hu _ hs
      cases e with
      | thread e =>
        exact Monitor.left_step (fun t : Dispatching α => t.queue.quit = true)
          dispatchLoop_leave dispatchLoop_keeps (fun hs hq => (quit_step hq hs).1) hu (pool_thread hs).1
      | join =>
        obtain ⟨-, rfl⟩ := pool_join hs
        exact hu
  exact hall t ht

/-- As long as `quit_` is not set a pool with a worker never stalls: its threads can
make only so many events by themselves, and when they can make no more, every callback
that was dispatched and not cleared has been run, in order, and all workers sleep. -/
theorem pool_drains (hn : 0 < n) {h : List (PoolEvent α n)}
    (hr : poolMachine.run h (Pool.created α n) = some p) (hquit : p.queue.quit = false) :
    h.length ≤ 2 * n + (h.map PoolEvent.price).sum ∧
      p.threads.shared.dispatched = dispatchesOf (h.filterMap PoolEvent.request) ∧
      p.threads.shared.started = poolStarts h (Pool.created α n) ∧
      (p.Blocked → p.queue.callbacksQueue = [] ∧ (∀ t, p.threads.workers t = .asleep) ∧
        (p.threads.shared.cleared = [] → p.threads.shared.started = p.threads.shared.dispatched)) := by
  obtain ⟨hdispatched, hstarts⟩ := recorded_pool hr
  refine ⟨?_, hdispatched, hstarts, ?_⟩
  · have hbound := length_le_potential hr
    rw [potential_created] at hbound
    omega
  · intro hblocked
    obtain ⟨hlost, -⟩ := noLostWakeup_pool hr
    obtain ⟨-, hworkers⟩ := Monitor.blocked_workers hlost hblocked.threads
    have hasleep : ∀ t, p.threads.workers t = .asleep ∧ dispatchLoop p.threads.shared = .wait := by
      intro t
      refine (hworkers t).resolve_right fun hleft => ?_
      exact absurd (hquit.symm.trans (left_quit hr hleft)) (by decide)
    obtain ⟨hempty, -⟩ := dispatchLoop_wait_iff.mp (hasleep ⟨0, hn⟩).2
    refine ⟨hempty, fun t => (hasleep t).1, ?_⟩
    intro hcleared
    obtain ⟨gone, hgone⟩ := departed_pool hr
    have hall := withFate_started (hgone.cleared.trans hcleared) hgone.queued
    rw [← hgone.started, hall, ← hgone.dispatched, hempty, List.append_nil]

theorem pool_drains_one : ∃ p : Pool Nat 1,
    poolMachine.run drainedHistory (Pool.created Nat 1) = some p ∧ p.queue.quit = false ∧ p.Blocked ∧
    drainedHistory.length ≤ 2 * 1 + (drainedHistory.map PoolEvent.price).sum ∧
    poolStarts drainedHistory (Pool.created Nat 1) = [7] ∧
    dispatchesOf (drainedHistory.filterMap PoolEvent.request) = [7] := by
  obtain ⟨p, hr, hquit, hnotices, hworkers, hcleared⟩ : ∃ p : Pool Nat 1,
      poolMachine.run drainedHistory (Pool.created Nat 1) = some p ∧ p.queue.quit = false ∧
      p.threads.notices = [] ∧ p.threads.workers 0 = .asleep ∧ p.threads.shared.cleared = [] :=
    ⟨_, rfl, rfl, rfl, rfl, rfl⟩
  have hblocked : p.Blocked := by
    intro e he
    cases e with
    | join => simp [Pool.step, Pool.canJoin, hquit]
    | thread e =>
      cases e with
      | locked i => exact absurd he id
      | wakes t => exact absurd he id
      | notify k => simp [Pool.step, Monitor.step, hnotices]
      | enter t => simp [Pool.step, Monitor.step, Subsingleton.elim t 0, hworkers]
      | finished t => simp [Pool.step, Monitor.step, Subsingleton.elim t 0, hworkers]
  obtain ⟨hbound, hdispatched, hstarts, hdrained⟩ := pool_drains Nat.one_pos hr hquit
  have hall := (hdrained hblocked).2.2 hcleared
  exact ⟨p, hr, hquit, hblocked, hbound, hstarts.symm.trans (hall.trans hdispatched), rfl⟩

/-- Once the destructor has set `quit_` no further callback starts, its threads can make
only so many events by themselves, and when they can make no more, every worker has
left and the destructor has joined them all. -/
theorem destructor_returns {h k : List (PoolEvent α n)} {q : Pool α n}
    (hr : poolMachine.run h (Pool.created α n) = some p) (hquit : p.queue.quit = true)
    (hk : poolMachine.run k p = some q) :
    k.length ≤ p.potential + (k.map PoolEvent.price).sum ∧
      q.threads.shared.started = p.threads.shared.started ∧
      (q.Blocked → q.joined = n ∧ ∀ t, q.threads.workers t = .left) := by
  have hq : poolMachine.run (h ++ k) (Pool.created α n) = some q := by
    rw [EventMachine.run_append, hr]
    exact hk
  obtain ⟨hlost, hjoined⟩ := noLostWakeup_pool hq
  obtain ⟨l, hl, -⟩ := mirrors_run hk
  have hreach := EventMachine.reaches_of_run hl
  have hquit' : q.queue.quit = true := (quit_run (t := p.view) hquit hreach).1
  have hstarted : q.view.started = p.view.started := started_of_quit hquit hreach
  refine ⟨?_, hstarted, ?_⟩
  · have hbound := length_le_potential hk
    omega
  · intro hblocked
    obtain ⟨hnotices, hworkers⟩ := Monitor.blocked_workers hlost hblocked.threads
    have hleft : ∀ t, q.threads.workers t = .left := by
      intro t
      refine (hworkers t).resolve_left fun hwait => ?_
      obtain ⟨-, hlive⟩ := dispatchLoop_wait_iff.mp hwait.2
      exact absurd (hlive.symm.trans hquit') (by decide)
    refine ⟨Nat.le_antisymm hjoined (Nat.le_of_not_lt fun hlt => ?_), hleft⟩
    have hcan : q.canJoin = true := by
      simp [Pool.canJoin, hquit', hnotices, hlt, hleft]
    have hnone := hblocked .join trivial
    simp [Pool.step, hcan] at hnone

/-- The destructor wakes a worker that sleeps, while a callback is still queued. -/
theorem destructor_returns_woken : ∃ p q : Pool Nat 1,
    poolMachine.run [.thread (.enter 0), .thread (.locked (.dispatch 7)), .thread (.locked .quit)]
      (Pool.created Nat 1) = some p ∧
    p.queue.quit = true ∧
    poolMachine.run [.thread (.notify 1), .thread (.enter 0), .join] p = some q ∧ q.joined = 1 ∧
    q.queue.callbacksQueue = [7] ∧ q.threads.shared.started = p.threads.shared.started := by
  obtain ⟨p, q, hr, hquit, hk, hjoined, hqueue⟩ : ∃ p q : Pool Nat 1,
      poolMachine.run [.thread (.enter 0), .thread (.locked (.dispatch 7)), .thread (.locked .quit)]
        (Pool.created Nat 1) = some p ∧
      p.queue.quit = true ∧
      poolMachine.run [.thread (.notify 1), .thread (.enter 0), .join] p = some q ∧ q.joined = 1 ∧
      q.queue.callbacksQueue = [7] := ⟨_, _, rfl, rfl, rfl, rfl, rfl⟩
  exact ⟨p, q, hr, hquit, hk, hjoined, hqueue, (destructor_returns hr hquit hk).2.1⟩

end
end Boostander.Algo
