import Mathlib

/-! One thread that goes round keyed queues while others fill them. A round visits the
keys of a list that was fixed when it began, and stays with a key until the queue of
it is empty. -/
namespace Boostander.Library

/-- The queues, and the keys of the round that are still to visit. The first of them
is being visited. -/
structure Rounds (κ β : Type*) where
  queue : κ → List β := fun _ => []
  todo : List κ := []

inductive RoundEvent (κ β : Type*) where
  | arrive (k : κ) (b : β)
  | begin (order : List κ)
  | take (k : κ) (b : β)
  | next

namespace Rounds
variable {κ β : Type*} [DecidableEq κ]

/-- What a step changes, with its guard. -/
inductive Move (s : Rounds κ β) : RoundEvent κ β → Rounds κ β → Prop where
  | arrive (k : κ) (b : β) :
      Move s (.arrive k b) { s with queue := Function.update s.queue k (s.queue k ++ [b]) }
  | begin (order : List κ) (hidle : s.todo = []) : Move s (.begin order) { s with todo := order }
  | take {k : κ} {b : β} {todo : List κ} {rest : List β} (htodo : s.todo = k :: todo)
      (hqueue : s.queue k = b :: rest) :
      Move s (.take k b) { s with queue := Function.update s.queue k rest }
  | next {k : κ} {todo : List κ} (htodo : s.todo = k :: todo) (hqueue : s.queue k = []) :
      Move s .next { s with todo := todo }

/-- The histories that lead from one state to another. -/
inductive Run (s : Rounds κ β) : List (RoundEvent κ β) → Rounds κ β → Prop where
  | start : Run s [] s
  | next {h : List (RoundEvent κ β)} {t u : Rounds κ β} {e : RoundEvent κ β} :
      Run s h t → Move t e u → Run s (h ++ [e]) u

/-- What was taken from the queue of `k`, and what arrived there. -/
def takenAt (k : κ) : RoundEvent κ β → Option β
  | .take j b => if j = k then some b else none
  | _ => none

def arrivedAt (k : κ) : RoundEvent κ β → Option β
  | .arrive j b => if j = k then some b else none
  | _ => none

def taken (k : κ) (h : List (RoundEvent κ β)) : List β := h.filterMap (takenAt k)

def arrived (k : κ) (h : List (RoundEvent κ β)) : List β := h.filterMap (arrivedAt k)

private theorem taken_concat (k : κ) (h : List (RoundEvent κ β)) (e : RoundEvent κ β) :
    taken k (h ++ [e]) = taken k h ++ (takenAt k e).toList := by
  cases he : takenAt k e <;> simp [taken, he]

private theorem arrived_concat (k : κ) (h : List (RoundEvent κ β)) (e : RoundEvent κ β) :
    arrived k (h ++ [e]) = arrived k h ++ (arrivedAt k e).toList := by
  cases he : arrivedAt k e <;> simp [arrived, he]

variable {s t u : Rounds κ β} {h : List (RoundEvent κ β)} {e : RoundEvent κ β}

theorem Run.one (hm : Move s e t) : Run s [e] t := .next (h := []) .start hm

theorem Run.append {k : List (RoundEvent κ β)} (hr : Run s h t) (hk : Run t k u) : Run s (h ++ k) u := by
  induction hk with
  | start => simpa using hr
  | next _ hm ih =>
    rw [← List.append_assoc]
    exact .next ih hm

private theorem Move.conserves (hm : Move t e u) (k : κ) :
    (takenAt k e).toList ++ u.queue k = t.queue k ++ (arrivedAt k e).toList := by
  cases hm with
  | arrive j b =>
    by_cases hj : j = k
    · subst hj
      simp [takenAt, arrivedAt]
    · simp [takenAt, arrivedAt, hj, Function.update_of_ne (Ne.symm hj)]
  | begin order hidle => simp [takenAt, arrivedAt]
  | @take j b todo rest htodo hqueue =>
    by_cases hj : j = k
    · subst hj
      simp [takenAt, arrivedAt, hqueue]
    · simp [takenAt, arrivedAt, hj, Function.update_of_ne (Ne.symm hj)]
  | next htodo hqueue => simp [takenAt, arrivedAt]

/-- Nothing is lost, doubled or moved past another item of the same queue. -/
theorem Run.conserves (hr : Run s h t) (k : κ) : taken k h ++ t.queue k = s.queue k ++ arrived k h := by
  induction hr with
  | start => simp [taken, arrived]
  | @next h t u e _ hm ih =>
    rw [taken_concat, arrived_concat, List.append_assoc, hm.conserves k, ← List.append_assoc, ih,
      List.append_assoc]

/-- The round goes on: no other one begins. -/
def SameRound (h : List (RoundEvent κ β)) : Prop := ∀ order, .begin order ∉ h

private theorem Run.round (hr : Run s h t) (hround : SameRound h) :
    (∀ k ∈ s.todo, k ∈ t.todo ∨ s.queue k <+: taken k h) ∧
      (∀ k ∈ t.todo, k ∈ s.todo) ∧ ∀ k ∉ s.todo, taken k h = [] := by
  induction hr with
  | start => exact ⟨fun k hk => .inl hk, fun k hk => hk, fun k _ => rfl⟩
  | @next h t u e hr hm ih =>
    have hsame : SameRound h := fun order hmem => hround order (List.mem_append_left _ hmem)
    obtain ⟨hvisit, hsub, helse⟩ := ih hsame
    have hgrow : ∀ k, taken k h <+: taken k (h ++ [e]) := fun k => taken_concat k h e ▸ List.prefix_append _ _
    cases hm with
    | arrive j b =>
      refine ⟨fun k hk => (hvisit k hk).imp id fun hp => hp.trans (hgrow k), hsub, ?_⟩
      intro k hk
      simp [taken_concat, helse k hk, takenAt]
    | begin order hidle => exact absurd (List.mem_append_right _ (List.mem_singleton_self _)) (hround order)
    | @take j b todo rest htodo hqueue =>
      refine ⟨fun k hk => (hvisit k hk).imp id fun hp => hp.trans (hgrow k), hsub, ?_⟩
      intro k hk
      have hj : j ≠ k := by
        rintro rfl
        exact hk (hsub j (htodo ▸ List.mem_cons_self))
      simp [taken_concat, helse k hk, takenAt, hj]
    | @next j todo htodo hqueue =>
      refine ⟨?_, fun k hk => hsub k (htodo ▸ List.mem_cons_of_mem _ hk), ?_⟩
      · intro k hk
        rcases hvisit k hk with htod | hp
        · rw [htodo] at htod
          rcases List.mem_cons.mp htod with rfl | hrest
          · right
            have hcons := hr.conserves k
            rw [hqueue, List.append_nil] at hcons
            exact (hcons ▸ List.prefix_append _ _).trans (hgrow k)
          · exact .inl hrest
        · exact .inr (hp.trans (hgrow k))
      · intro k hk
        simp [taken_concat, helse k hk, takenAt]

/-- A whole round takes what each of its keys held when it began, in order and before
anything that arrived later, and takes nothing elsewhere. -/
theorem Run.whole_round {order : List κ} (hr : Run { s with todo := order } h t) (hround : SameRound h)
    (hdone : t.todo = []) :
    (∀ k ∈ order, s.queue k <+: taken k h) ∧ ∀ k ∉ order, taken k h = [] := by
  obtain ⟨hvisit, -, helse⟩ := hr.round hround
  refine ⟨fun k hk => (hvisit k hk).resolve_left ?_, helse⟩
  rw [hdone]
  exact List.not_mem_nil

theorem Run.held (hr : Run s h t) {k : κ} {b : β} (hk : k ∈ s.todo) (hb : b ∈ s.queue k)
    (hnever : b ∉ taken k h) : k ∈ t.todo ∧ b ∈ t.queue k := by
  induction hr with
  | start => exact ⟨hk, hb⟩
  | @next h t u e hr hm ih =>
    rw [taken_concat, List.mem_append, not_or] at hnever
    obtain ⟨hk', hb'⟩ := ih hnever.1
    cases hm with
    | arrive j c =>
      refine ⟨hk', ?_⟩
      dsimp only
      by_cases hj : k = j
      · subst hj
        rw [Function.update_self]
        exact List.mem_append_left _ hb'
      · rw [Function.update_of_ne hj]
        exact hb'
    | begin order hidle => exact absurd (hidle ▸ hk') List.not_mem_nil
    | @take j c todo rest htodo hqueue =>
      refine ⟨hk', ?_⟩
      dsimp only
      by_cases hj : k = j
      · subst hj
        rw [Function.update_self]
        rw [hqueue] at hb'
        refine (List.mem_cons.mp hb').resolve_left ?_
        rintro rfl
        exact hnever.2 (by simp [takenAt])
      · rw [Function.update_of_ne hj]
        exact hb'
    | @next j todo htodo hqueue =>
      refine ⟨?_, hb'⟩
      rw [htodo] at hk'
      refine (List.mem_cons.mp hk').resolve_left ?_
      rintro rfl
      exact absurd (hqueue ▸ hb') List.not_mem_nil

/-- The steps it takes to finish the round if nothing more arrives. -/
def remaining (s : Rounds κ β) : Nat := (s.todo.map fun k => (s.queue k).length + 1).sum

def isArrival : RoundEvent κ β → Bool
  | .arrive _ _ => true
  | _ => false

def isVisit : RoundEvent κ β → Bool
  | .take _ _ => true
  | .next => true
  | _ => false

private theorem sum_arrive_le (queue : κ → List β) (j : κ) (b : β) {l : List κ} (hnodup : l.Nodup) :
    (l.map fun k => (Function.update queue j (queue j ++ [b]) k).length + 1).sum ≤
      (l.map fun k => (queue k).length + 1).sum + 1 := by
  have hcount := List.nodup_iff_count_le_one.mp hnodup j
  suffices hsum : (l.map fun k => (Function.update queue j (queue j ++ [b]) k).length + 1).sum =
      (l.map fun k => (queue k).length + 1).sum + l.count j by omega
  clear hcount hnodup
  induction l with
  | nil => rfl
  | cons k l ih =>
    rw [List.map_cons, List.map_cons, List.sum_cons, List.sum_cons, ih, List.count_cons]
    by_cases hk : k = j
    · subst hk
      simp
      omega
    · simp [hk]
      omega

private theorem sum_take_le (queue : κ → List β) {k : κ} {b : β} {rest : List β}
    (hqueue : queue k = b :: rest) (l : List κ) :
    (l.map fun j => (Function.update queue k rest j).length + 1).sum ≤
      (l.map fun j => (queue j).length + 1).sum := by
  apply List.sum_le_sum
  intro j _
  by_cases hj : j = k
  · subst hj
    simp [hqueue]
  · rw [Function.update_of_ne hj]

/-- Each step of the thread brings the end of the round closer, and each arrival moves
it away by one step at most. -/
theorem Run.remaining_le (hr : Run s h t) (hround : SameRound h) (hnodup : s.todo.Nodup) :
    t.todo.Nodup ∧ h.countP isVisit + t.remaining ≤ s.remaining + h.countP isArrival := by
  induction hr with
  | start => exact ⟨hnodup, by simp⟩
  | @next h t u e hr hm ih =>
    have hsame : SameRound h := fun order hmem => hround order (List.mem_append_left _ hmem)
    obtain ⟨hnodup', hle⟩ := ih hsame
    simp only [List.countP_append]
    cases hm with
    | arrive j b =>
      have hsum := sum_arrive_le t.queue j b hnodup'
      refine ⟨hnodup', ?_⟩
      simp only [remaining, List.countP_singleton, isVisit, isArrival] at hle ⊢
      simp only [Bool.false_eq_true, if_false, if_true]
      omega
    | begin order hidle => exact absurd (List.mem_append_right _ (List.mem_singleton_self _)) (hround order)
    | @take j b todo rest htodo hqueue =>
      have hsum := sum_take_le t.queue hqueue todo
      refine ⟨hnodup', ?_⟩
      simp only [remaining, htodo, List.map_cons, List.sum_cons, hqueue, Function.update_self,
        List.length_cons, List.countP_singleton, isVisit, isArrival] at hle ⊢
      simp only [Bool.false_eq_true, if_false, if_true]
      omega
    | @next j todo htodo hqueue =>
      refine ⟨(List.nodup_cons.mp (htodo ▸ hnodup')).2, ?_⟩
      simp only [remaining, htodo, List.map_cons, List.sum_cons, hqueue, List.length_nil,
        List.countP_singleton, isVisit, isArrival] at hle ⊢
      simp only [Bool.false_eq_true, if_false, if_true]
      omega

end Rounds
end Boostander.Library
