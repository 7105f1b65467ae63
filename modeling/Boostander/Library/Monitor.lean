import Mathlib

/-! Worker threads that share a state under a mutex and wait on a condition variable.
A locked section is one event. A section that notifies unlocks first, so its
notification is an event of its own, and other threads may run in between. -/
namespace Boostander.Library

/-- What a worker that holds the lock does next. -/
inductive Turn (σ ω : Type*) where
  | wait
  /-- It leaves `s` behind and works on `w` with the lock released. -/
  | take (s : σ) (w : ω)
  | leave

/-- Where a worker is. One that was woken is on its way to the lock again. -/
inductive Worker (ω : Type*) where
  | entering
  | asleep
  | working (w : ω)
  | left

/-- The program of the threads: the turn of a worker, the locked sections of the
other threads, and which of them notify. A section that does not notify never ends
a wait. -/
structure Monitor (σ ω ι : Type*) where
  turn : σ → Turn σ ω
  update : ι → σ → Option σ
  announces : ι → Bool
  quiet : ∀ {i : ι} {s s' : σ}, update i s = some s' → announces i = false → turn s = .wait →
    turn s' = .wait

/-- The shared state, the workers, and the sections that have still to notify. -/
structure Threads (σ ω ι : Type*) (n : Nat) where
  shared : σ
  workers : Fin n → Worker ω := fun _ => .entering
  notices : List ι := []

/-- What can happen: a locked section of another thread, a notification of all workers,
the turn of a worker, a wakeup without a notification, and the end of some work. -/
inductive ThreadEvent (ι : Type*) (n : Nat) where
  | locked (i : ι)
  | notify (k : Nat)
  | enter (t : Fin n)
  | wakes (t : Fin n)
  | finished (t : Fin n)

namespace Worker
variable {ω : Type*}

def wake : Worker ω → Worker ω
  | asleep => entering
  | w => w

/-- How many turns the worker can take before it sleeps or leaves, if it finds no work. -/
def weight : Worker ω → Nat
  | entering => 1
  | working _ => 2
  | _ => 0

private theorem weight_wake_le (w : Worker ω) : w.wake.weight ≤ w.weight + 1 := by
  cases w with
  | _ => simp [wake, weight]

private theorem wake_ne_asleep (w : Worker ω) : w.wake ≠ asleep := by
  cases w with
  | _ => simp [wake]

end Worker

namespace Monitor
variable {σ ω ι : Type*} {n : Nat}

section
variable (m : Monitor σ ω ι)

def enter (s : Threads σ ω ι n) (t : Fin n) : Threads σ ω ι n :=
  match m.turn s.shared with
  | .wait => { s with workers := Function.update s.workers t .asleep }
  | .take shared w => { s with shared := shared, workers := Function.update s.workers t (.working w) }
  | .leave => { s with workers := Function.update s.workers t .left }

def step : ThreadEvent ι n → Threads σ ω ι n → Option (Threads σ ω ι n)
  | .locked i, s =>
    (m.update i s.shared).map fun shared =>
      { s with shared := shared, notices := if m.announces i then s.notices ++ [i] else s.notices }
  | .notify k, s =>
    if k < s.notices.length then
      some { s with workers := fun t => (s.workers t).wake, notices := s.notices.eraseIdx k }
    else none
  | .enter t, s =>
    match s.workers t with
    | .entering => some (m.enter s t)
    | _ => none
  | .wakes t, s =>
    match s.workers t with
    | .asleep => some { s with workers := Function.update s.workers t .entering }
    | _ => none
  | .finished t, s =>
    match s.workers t with
    | .working _ => some { s with workers := Function.update s.workers t .entering }
    | _ => none

/-- What the steps can do, with their guards. -/
inductive Move (s : Threads σ ω ι n) : ThreadEvent ι n → Threads σ ω ι n → Prop where
  | locked {i : ι} {shared : σ} (hupdate : m.update i s.shared = some shared) :
      Move s (.locked i)
        { s with shared := shared, notices := if m.announces i then s.notices ++ [i] else s.notices }
  | notify {k : Nat} (hk : k < s.notices.length) :
      Move s (.notify k)
        { s with workers := fun t => (s.workers t).wake, notices := s.notices.eraseIdx k }
  | sleep {t : Fin n} (ht : s.workers t = .entering) (hturn : m.turn s.shared = .wait) :
      Move s (.enter t) { s with workers := Function.update s.workers t .asleep }
  | take {t : Fin n} {shared : σ} {w : ω} (ht : s.workers t = .entering)
      (hturn : m.turn s.shared = .take shared w) :
      Move s (.enter t)
        { s with shared := shared, workers := Function.update s.workers t (.working w) }
  | leave {t : Fin n} (ht : s.workers t = .entering) (hturn : m.turn s.shared = .leave) :
      Move s (.enter t) { s with workers := Function.update s.workers t .left }
  | wakes {t : Fin n} (ht : s.workers t = .asleep) :
      Move s (.wakes t) { s with workers := Function.update s.workers t .entering }
  | finished {t : Fin n} {w : ω} (ht : s.workers t = .working w) :
      Move s (.finished t) { s with workers := Function.update s.workers t .entering }

end

variable {m : Monitor σ ω ι} {s s' : Threads σ ω ι n} {e : ThreadEvent ι n}

private theorem move_enter {t : Fin n} (ht : s.workers t = .entering) :
    m.Move s (.enter t) (m.enter s t) := by
  rw [enter]
  split
  · rename_i hturn
    exact .sleep ht hturn
  · rename_i hturn
    exact .take ht hturn
  · rename_i hturn
    exact .leave ht hturn

theorem move_of_step (hs : m.step e s = some s') : m.Move s e s' := by
  cases e with
  | locked i =>
    obtain ⟨shared, hupdate, rfl⟩ := Option.map_eq_some_iff.mp hs
    exact .locked hupdate
  | notify k =>
    obtain ⟨hk, hs⟩ := Option.ite_none_right_eq_some.mp hs
    exact Option.some.inj hs ▸ .notify hk
  | enter t =>
    simp only [step] at hs
    split at hs
    · rename_i ht
      exact Option.some.inj hs ▸ move_enter ht
    · cases hs
  | wakes t =>
    simp only [step] at hs
    split at hs
    · rename_i ht
      exact Option.some.inj hs ▸ .wakes ht
    · cases hs
  | finished t =>
    simp only [step] at hs
    split at hs
    · rename_i w ht
      exact Option.some.inj hs ▸ .finished ht
    · cases hs

/-- A worker sleeps only as long as it would wait again or some notification is due. -/
def NoLostWakeup (m : Monitor σ ω ι) (s : Threads σ ω ι n) : Prop :=
  ∀ t, s.workers t = .asleep → m.turn s.shared = .wait ∨ s.notices ≠ []

private theorem asleep_of_update {t u : Fin n} {w : Worker ω} (hw : w ≠ .asleep)
    (hu : Function.update s.workers t w u = .asleep) : s.workers u = .asleep := by
  by_cases hut : u = t
  · subst hut
    rw [Function.update_self] at hu
    exact absurd hu hw
  · rwa [Function.update_of_ne hut] at hu

theorem noLostWakeup_step (h : m.NoLostWakeup s) (hs : m.step e s = some s') : m.NoLostWakeup s' := by
  intro u hu
  cases move_of_step hs with
  | @locked i shared hupdate =>
    cases hann : m.announces i with
    | true => exact .inr (by simp)
    | false => exact (h u hu).imp (m.quiet hupdate hann) (fun hn => by simpa using hn)
  | notify hk => exact absurd hu (Worker.wake_ne_asleep _)
  | sleep ht hturn => exact .inl hturn
  | take ht hturn =>
    rcases h u (asleep_of_update (by simp) hu) with hwait | hn
    · rw [hturn] at hwait
      cases hwait
    · exact .inr hn
  | leave ht hturn => exact h u (asleep_of_update (by simp) hu)
  | wakes ht => exact h u (asleep_of_update (by simp) hu)
  | finished ht => exact h u (asleep_of_update (by simp) hu)

/-- What lets a worker leave, and stays true from then on, holds as long as a worker has left. -/
theorem left_step (closed : σ → Prop) (hleave : ∀ {s}, m.turn s = .leave → closed s)
    (htake : ∀ {s s' w}, m.turn s = .take s' w → closed s → closed s')
    (hupdate : ∀ {i s s'}, m.update i s = some s' → closed s → closed s')
    (h : ∀ t, s.workers t = .left → closed s.shared) (hs : m.step e s = some s') :
    ∀ t, s'.workers t = .left → closed s'.shared := by
  have of_update {t u : Fin n} {w : Worker ω} (hw : w ≠ .left)
      (hu : Function.update s.workers t w u = .left) : closed s.shared := by
    by_cases hut : u = t
    · subst hut
      rw [Function.update_self] at hu
      exact absurd hu hw
    · rw [Function.update_of_ne hut] at hu
      exact h u hu
  intro u hu
  cases move_of_step hs with
  | locked hsome => exact hupdate hsome (h u hu)
  | notify hk =>
    apply h u
    cases hw : s.workers u with
    | left => rfl
    | _ => simp [hw, Worker.wake] at hu
  | sleep ht hturn => exact of_update (by simp) hu
  | take ht hturn => exact htake hturn (of_update (by simp) hu)
  | leave ht hturn => exact hleave hturn
  | wakes ht => exact of_update (by simp) hu
  | finished ht => exact of_update (by simp) hu

/-- How many turns the workers can take without finding work. -/
def load (workers : Fin n → Worker ω) : Nat := ∑ t, (workers t).weight

private theorem load_update (workers : Fin n → Worker ω) (t : Fin n) (w : Worker ω) :
    load (Function.update workers t w) + (workers t).weight = load workers + w.weight := by
  have hrest : ∑ u ∈ Finset.univ.erase t, (Function.update workers t w u).weight =
      ∑ u ∈ Finset.univ.erase t, (workers u).weight := by
    apply Finset.sum_congr rfl
    intro u hu
    rw [Function.update_of_ne (Finset.ne_of_mem_erase hu)]
  have hnew := Finset.add_sum_erase Finset.univ (fun u => (Function.update workers t w u).weight)
    (Finset.mem_univ t)
  have hold := Finset.add_sum_erase Finset.univ (fun u => (workers u).weight) (Finset.mem_univ t)
  simp only [Function.update_self] at hnew
  simp only [load]
  omega

private theorem load_wake_le (workers : Fin n → Worker ω) :
    load (fun t => (workers t).wake) ≤ load workers + n := by
  calc load (fun t => (workers t).wake) ≤ ∑ t, ((workers t).weight + 1) :=
        Finset.sum_le_sum fun t _ => Worker.weight_wake_le (workers t)
    _ = load workers + n := by simp [load, Finset.sum_add_distrib]

/-- The potential of the threads, where `size` says how much work the shared state
holds. A notification is worth one turn of each worker. -/
def potential (size : σ → Nat) (s : Threads σ ω ι n) : Nat :=
  2 * size s.shared + load s.workers + (n + 1) * s.notices.length

def Internal : ThreadEvent ι n → Prop
  | .notify _ => True
  | .enter _ => True
  | .finished _ => True
  | _ => False

private theorem potential_internal {size : σ → Nat}
    (htake : ∀ {s s' w}, m.turn s = .take s' w → size s' < size s) (he : Internal e)
    (hs : m.step e s = some s') : potential size s' < potential size s := by
  cases move_of_step hs with
  | locked hupdate => exact absurd he id
  | @notify k hk =>
    have hload := load_wake_le s.workers
    have hlength := List.length_eraseIdx_of_lt hk
    simp only [potential, hlength]
    have hsucc : (n + 1) * s.notices.length = (n + 1) * (s.notices.length - 1) + (n + 1) := by
      rw [← Nat.mul_succ, Nat.succ_eq_add_one, Nat.sub_add_cancel (Nat.zero_lt_of_lt hk)]
    omega
  | @sleep t ht hturn =>
    have hload := load_update s.workers t .asleep
    simp only [ht, Worker.weight] at hload
    simp only [potential]
    omega
  | @take t shared w ht hturn =>
    have hload := load_update s.workers t (.working w)
    have hless := htake hturn
    simp only [ht, Worker.weight] at hload
    simp only [potential]
    omega
  | @leave t ht hturn =>
    have hload := load_update s.workers t .left
    simp only [ht, Worker.weight] at hload
    simp only [potential]
    omega
  | wakes ht => exact absurd he id
  | @finished t w ht =>
    have hload := load_update s.workers t .entering
    simp only [ht, Worker.weight] at hload
    simp only [potential]
    omega

private theorem potential_wakes (size : σ → Nat) {t : Fin n} (hs : m.step (.wakes t) s = some s') :
    potential size s' = potential size s + 1 := by
  cases move_of_step hs with
  | wakes ht =>
    have hload := load_update s.workers t .entering
    simp only [ht, Worker.weight] at hload
    simp only [potential]
    omega

private theorem potential_locked_le {size : σ → Nat} {i : ι}
    (hsize : ∀ {s s'}, m.update i s = some s' → size s' ≤ size s + 1)
    (hs : m.step (.locked i) s = some s') : potential size s' ≤ potential size s + (n + 3) := by
  cases move_of_step hs with
  | locked hupdate =>
    have hmore := hsize hupdate
    simp only [potential]
    split
    · simp only [List.length_append, List.length_singleton, Nat.mul_add]
      omega
    · omega

/-- How much potential the outside adds with an event, and one more for the event itself. -/
def price : ThreadEvent ι n → Nat
  | .locked _ => n + 4
  | .wakes _ => 2
  | _ => 0

/-- Every event is paid for, by the potential or by the outside. -/
theorem potential_step {size : σ → Nat}
    (htake : ∀ {s s' w}, m.turn s = .take s' w → size s' < size s)
    (hsize : ∀ {i s s'}, m.update i s = some s' → size s' ≤ size s + 1)
    (hs : m.step e s = some s') : potential size s' + 1 ≤ potential size s + price e := by
  cases e with
  | locked i => exact Nat.succ_le_succ (potential_locked_le hsize hs)
  | wakes t => exact Nat.succ_le_succ (potential_wakes size hs).le
  | notify k => exact potential_internal htake (show Internal (.notify k) from trivial) hs
  | enter t => exact potential_internal htake (show Internal (.enter t) from trivial) hs
  | finished t => exact potential_internal htake (show Internal (.finished t) from trivial) hs

/-- No thread can go on without the outside. -/
def Blocked (m : Monitor σ ω ι) (s : Threads σ ω ι n) : Prop :=
  ∀ e, Internal e → m.step e s = none

/-- Blocked threads are asleep or have left, and those asleep have nothing to do. -/
theorem blocked_workers (hlost : m.NoLostWakeup s) (hblocked : m.Blocked s) :
    s.notices = [] ∧ ∀ t, s.workers t = .asleep ∧ m.turn s.shared = .wait ∨ s.workers t = .left := by
  have hnotices : s.notices = [] := by
    by_contra hne
    have hnone := hblocked (.notify 0) trivial
    simp [step, List.length_pos_iff.mpr hne] at hnone
  refine ⟨hnotices, ?_⟩
  intro t
  cases ht : s.workers t with
  | entering =>
    have hnone := hblocked (.enter t) trivial
    simp [step, ht] at hnone
  | working w =>
    have hnone := hblocked (.finished t) trivial
    simp [step, ht] at hnone
  | left => exact .inr rfl
  | asleep => exact .inl ⟨rfl, (hlost t ht).resolve_right (absurd hnotices)⟩

end Monitor
end Boostander.Library
