import Mathlib

/-! Finite forests and their breadth-first order. The order is given level by level,
and a queue that takes the first tree and appends its children follows it. -/
namespace Boostander.Library
universe u

/-- A finite tree. -/
inductive RoseTree (α : Type u) where
  | node (root : α) (children : List (RoseTree α))

namespace RoseTree
variable {α : Type u}

def root : RoseTree α → α
  | node a _ => a

def children : RoseTree α → List (RoseTree α)
  | node _ ts => ts

mutual
/-- The subtrees, one for each node. -/
def subtrees : RoseTree α → List (RoseTree α)
  | node a ts => node a ts :: forestSubtrees ts

def forestSubtrees : List (RoseTree α) → List (RoseTree α)
  | [] => []
  | t :: ts => t.subtrees ++ forestSubtrees ts
end

def nextLevel (ts : List (RoseTree α)) : List (RoseTree α) := ts.flatMap children

/-- The first `n` levels, one after the other. -/
def levels : Nat → List (RoseTree α) → List (RoseTree α)
  | 0, _ => []
  | n + 1, ts => ts ++ levels n (nextLevel ts)

/-- All levels, one after the other; there are no more levels than nodes. -/
def breadthFirst (ts : List (RoseTree α)) : List (RoseTree α) := levels (forestSubtrees ts).length ts

theorem forestSubtrees_append (ts us : List (RoseTree α)) :
    forestSubtrees (ts ++ us) = forestSubtrees ts ++ forestSubtrees us := by
  induction ts with
  | nil => rfl
  | cons t ts ih => rw [List.cons_append, forestSubtrees, ih, ← List.append_assoc, forestSubtrees]

theorem subtrees_eq (t : RoseTree α) : t.subtrees = t :: forestSubtrees t.children := by
  cases t with
  | node a ts => rw [subtrees, children]

private theorem forestSubtrees_perm (ts : List (RoseTree α)) :
    (forestSubtrees ts).Perm (ts ++ forestSubtrees (nextLevel ts)) := by
  induction ts with
  | nil => exact List.Perm.refl _
  | cons t ts ih =>
    rw [forestSubtrees, subtrees_eq, nextLevel, List.flatMap_cons, forestSubtrees_append,
      List.cons_append, List.cons_append]
    apply List.Perm.cons
    calc forestSubtrees t.children ++ forestSubtrees ts
      _ |>.Perm (forestSubtrees t.children ++ (ts ++ forestSubtrees (nextLevel ts))) :=
        ih.append_left _
      _ |>.Perm (ts ++ (forestSubtrees t.children ++ forestSubtrees (nextLevel ts))) := by
        rw [← List.append_assoc, ← List.append_assoc]
        exact List.perm_append_comm.append_right _

private theorem length_nextLevel_lt {ts : List (RoseTree α)} (h : ts ≠ []) :
    (forestSubtrees (nextLevel ts)).length < (forestSubtrees ts).length := by
  have hlength := (forestSubtrees_perm ts).length_eq
  have hpos := List.length_pos_iff.mpr h
  rw [List.length_append] at hlength
  omega

private theorem levels_nil (n : Nat) : levels n ([] : List (RoseTree α)) = [] := by
  induction n with
  | zero => rfl
  | succ n ih => exact ih

private theorem eq_nil_of_no_subtrees {ts : List (RoseTree α)}
    (h : (forestSubtrees ts).length = 0) : ts = [] := by
  by_contra hne
  have hlt := length_nextLevel_lt hne
  omega

private theorem levels_eq_levels {n m : Nat} {ts : List (RoseTree α)}
    (hn : (forestSubtrees ts).length ≤ n)
    (hm : (forestSubtrees ts).length ≤ m) : levels n ts = levels m ts := by
  induction n generalizing m ts with
  | zero =>
    obtain rfl := eq_nil_of_no_subtrees (Nat.le_zero.mp hn)
    rw [levels_nil, levels_nil]
  | succ n ih =>
    by_cases hts : ts = []
    · rw [hts, levels_nil, levels_nil]
    · have hlt := length_nextLevel_lt hts
      obtain ⟨m, rfl⟩ : ∃ k, m = k + 1 := Nat.exists_eq_add_one.mpr (by omega)
      rw [levels, levels, ih (m := m) (by omega) (by omega)]

private theorem breadthFirst_eq (ts : List (RoseTree α)) :
    breadthFirst ts = ts ++ breadthFirst (nextLevel ts) := by
  by_cases hts : ts = []
  · rw [hts]
    rfl
  · have hlt := length_nextLevel_lt hts
    obtain ⟨k, hk⟩ : ∃ k, (forestSubtrees ts).length = k + 1 := Nat.exists_eq_add_one.mpr (by omega)
    rw [breadthFirst, hk, levels, breadthFirst, levels_eq_levels (by omega) (le_refl _)]

private theorem breadthFirst_append (ts us : List (RoseTree α)) :
    breadthFirst (ts ++ us) = ts ++ breadthFirst (us ++ nextLevel ts) := by
  induction hn : (forestSubtrees (ts ++ us)).length using Nat.strong_induction_on
    generalizing ts us with
  | _ n ih =>
    by_cases hts : ts = []
    · rw [hts]
      simp [nextLevel]
    · have hlt : (forestSubtrees (us ++ nextLevel ts)).length < n := by
        have hnext := length_nextLevel_lt hts
        simp only [forestSubtrees_append, List.length_append] at hn ⊢
        omega
      rw [breadthFirst_eq, ih _ hlt us (nextLevel ts) rfl, List.append_assoc, nextLevel, nextLevel,
        nextLevel, List.flatMap_append]

/-- Each node comes exactly once. -/
theorem breadthFirst_perm (ts : List (RoseTree α)) : (breadthFirst ts).Perm (forestSubtrees ts) := by
  induction hn : (forestSubtrees ts).length using Nat.strong_induction_on generalizing ts with
  | _ n ih =>
    by_cases hts : ts = []
    · rw [hts]
      exact List.Perm.refl _
    · rw [breadthFirst_eq]
      have hnext := ih _ (hn ▸ length_nextLevel_lt hts) (nextLevel ts) rfl
      exact (hnext.append_left ts).trans (forestSubtrees_perm ts).symm

theorem breadthFirst_cons (t : RoseTree α) (ts : List (RoseTree α)) :
    breadthFirst (t :: ts) = t :: breadthFirst (ts ++ t.children) := by
  have hround := breadthFirst_append [t] ts
  rwa [nextLevel, List.flatMap_singleton] at hround

end RoseTree
end Boostander.Library
