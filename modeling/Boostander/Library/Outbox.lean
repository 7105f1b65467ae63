import Mathlib

/-! A queue that is emptied by at most one write at a time. The item being
written stays at the front until its write has succeeded, and a write that
fails leaves the queue stalled on it. -/
namespace Boostander.Library

inductive WritePhase where
  | idle
  | writing
  | stalled
  deriving DecidableEq, Repr

/-- The items already written, the items still queued, and what happens to the front one. -/
structure Outbox (α : Type*) where
  done : List α := []
  queue : List α := []
  phase : WritePhase := .idle
  front : phase ≠ .idle → queue ≠ [] := by exact fun h => absurd rfl h

namespace Outbox
variable {α : Type*}

def accepted (o : Outbox α) : List α := o.done ++ o.queue

def writing (o : Outbox α) : List α :=
  match o.phase with
  | .writing => o.queue.take 1
  | _ => []

/-- Every item whose write was ever started, in order. -/
def handed (o : Outbox α) : List α :=
  match o.phase with
  | .idle => o.done
  | _ => o.done ++ o.queue.take 1

def push (o : Outbox α) (a : α) : Outbox α :=
  { o with queue := o.queue ++ [a], front := fun _ => by simp }

/-- Start to write the front item, unless another write holds the queue. -/
def start (o : Outbox α) : Outbox α :=
  match o.phase, h : o.queue with
  | .idle, _ :: _ => { o with phase := .writing, front := fun _ => by simp [h] }
  | _, _ => o

/-- The write of the front item failed. -/
def stall (o : Outbox α) : Outbox α :=
  match h : o.phase with
  | .writing => { o with phase := .stalled, front := fun _ => o.front (by simp [h]) }
  | _ => o

/-- The write of the front item succeeded; the next one starts at once. -/
def finish (o : Outbox α) : Outbox α :=
  match o.phase, o.queue with
  | .writing, a :: rest => start { done := o.done ++ [a], queue := rest }
  | _, _ => o

theorem handed_prefix (o : Outbox α) : o.handed <+: o.accepted := by
  unfold handed accepted
  split
  · exact List.prefix_append _ _
  · exact (List.prefix_append_right_inj _).mpr (List.take_prefix _ _)

theorem length_writing_le (o : Outbox α) : o.writing.length ≤ 1 := by
  rw [writing]
  split
  · exact List.length_take_le _ _
  · exact Nat.zero_le _

@[simp] theorem accepted_push (o : Outbox α) (a : α) : (o.push a).accepted = o.accepted ++ [a] :=
  (List.append_assoc _ _ _).symm

private theorem take_one_append {l : List α} (h : l ≠ []) (a : α) :
    (l ++ [a]).take 1 = l.take 1 := by
  cases l with
  | nil => exact absurd rfl h
  | cons b l => rfl

@[simp] theorem writing_push (o : Outbox α) (a : α) : (o.push a).writing = o.writing := by
  simp only [writing, push]
  split
  · rename_i hp
    exact take_one_append (o.front (by simp [hp])) a
  · rfl

@[simp] theorem handed_push (o : Outbox α) (a : α) : (o.push a).handed = o.handed := by
  simp only [handed, push]
  split
  · rfl
  · rename_i hp
    rw [take_one_append (o.front hp) a]

theorem start_eq {o : Outbox α} {a : α} {rest : List α} (hp : o.phase = .idle)
    (hq : o.queue = a :: rest) :
    o.start.phase = .writing ∧ o.start.writing = [a] ∧ o.start.handed = o.handed ++ [a] := by
  obtain ⟨done, queue, phase, front⟩ := o
  obtain rfl : phase = .idle := hp
  obtain rfl : queue = a :: rest := hq
  exact ⟨rfl, rfl, rfl⟩

@[simp] theorem done_start (o : Outbox α) : o.start.done = o.done := by
  rw [start]
  split <;> rfl

@[simp] theorem queue_start (o : Outbox α) : o.start.queue = o.queue := by
  rw [start]
  split <;> rfl

@[simp] theorem accepted_start (o : Outbox α) : o.start.accepted = o.accepted := by
  simp [accepted]

@[simp] theorem accepted_stall (o : Outbox α) : o.stall.accepted = o.accepted := by
  rw [stall]
  split <;> rfl

theorem queue_of_mem_writing {o : Outbox α} {a : α} (h : a ∈ o.writing) :
    o.phase = .writing ∧ ∃ rest, o.queue = a :: rest := by
  rw [writing] at h
  split at h
  · rename_i hp
    cases hq : o.queue with
    | nil => simp [hq] at h
    | cons b rest =>
      obtain rfl : a = b := by simpa [hq] using h
      exact ⟨hp, rest, rfl⟩
  · simp at h

theorem stall_eq {o : Outbox α} {a : α} (h : a ∈ o.writing) :
    o.stall.queue = o.queue ∧ o.stall.phase = .stalled ∧ o.stall.writing = [] ∧
      o.stall.handed = o.handed := by
  obtain ⟨hp, -⟩ := queue_of_mem_writing h
  obtain ⟨done, queue, phase, front⟩ := o
  obtain rfl : phase = .writing := hp
  exact ⟨rfl, rfl, rfl, rfl⟩

theorem writing_eq {o : Outbox α} {a : α} (h : a ∈ o.writing) : o.writing = [a] := by
  obtain ⟨hp, rest, hq⟩ := queue_of_mem_writing h
  simp [writing, hp, hq]

theorem finish_eq {o : Outbox α} {a : α} (h : a ∈ o.writing) :
    o.finish.queue = o.queue.tail ∧
      ((o.queue.tail = [] ∧ o.finish.phase = .idle ∧ o.finish.writing = [] ∧
          o.finish.handed = o.handed) ∨
        ∃ b rest, o.queue.tail = b :: rest ∧ o.finish.phase = .writing ∧ o.finish.writing = [b] ∧
          o.finish.handed = o.handed ++ [b]) := by
  obtain ⟨hp, rest, hq⟩ := queue_of_mem_writing h
  obtain ⟨done, queue, phase, front⟩ := o
  obtain rfl : phase = .writing := hp
  obtain rfl : queue = a :: rest := hq
  refine ⟨by simp [finish], ?_⟩
  cases rest with
  | nil => exact Or.inl ⟨rfl, rfl, rfl, by simp [finish, start, handed]⟩
  | cons b rest => exact Or.inr ⟨b, rest, rfl, rfl, rfl, by simp [finish, start, handed]⟩

theorem done_finish {o : Outbox α} {a : α} (h : a ∈ o.writing) :
    o.finish.done = o.done ++ [a] := by
  obtain ⟨hp, rest, hq⟩ := queue_of_mem_writing h
  simp [finish, hp, hq]

theorem accepted_finish (o : Outbox α) : o.finish.accepted = o.accepted := by
  rw [finish]
  split
  · rename_i hq
    simp [accepted, hq]
  · rfl

end Outbox
end Boostander.Library
