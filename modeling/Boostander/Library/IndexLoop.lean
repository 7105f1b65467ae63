import Mathlib

/-! Index loops that append one text a round and a separator after every round
but the last: together they write the texts joined by the separator. -/
namespace Boostander.Library.IndexLoop
variable {α ε : Type*}

theorem mem_of_mem_intercalate {a b : α} {ls : List (List α)} (h : b ∈ [a].intercalate ls) :
    b = a ∨ ∃ l ∈ ls, b ∈ l := by
  induction ls with
  | nil => simp at h
  | cons l ls ih =>
    cases ls with
    | nil => exact .inr ⟨l, by simp, by simpa using h⟩
    | cons k ls =>
      rw [List.intercalate_cons_cons, List.mem_append, List.mem_append, List.mem_singleton] at h
      rcases h with (h | h) | h
      · exact .inr ⟨l, by simp, h⟩
      · exact .inl h
      · exact (ih h).imp id fun ⟨m, hm, hb⟩ => ⟨m, List.mem_cons_of_mem _ hm, hb⟩

/-- Every text costs its length and one separator, except that the last has none. -/
theorem length_intercalate {a : α} {ls : List (List α)} (h : ls ≠ []) :
    ([a].intercalate ls).length + 1 = (ls.map fun l => l.length + 1).sum := by
  induction ls with
  | nil => exact absurd rfl h
  | cons l ls ih =>
    cases ls with
    | nil => simp
    | cons k ls =>
      have hrest := ih (by simp)
      rw [List.intercalate_cons_cons, List.map_cons, List.sum_cons, ← hrest]
      simp only [List.length_append, List.length_singleton]
      omega

/-- Round `j` of the loop appends text `j`, and the separator if more follow. -/
def Appends (step : List α → Nat → Except ε (List α)) (sep : List α) (texts : List (List α)) : Prop :=
  ∀ out j, (h : j < texts.length) →
    step out j = .ok (out ++ texts[j] ++ if j < texts.length - 1 then sep else [])

private theorem foldlM_suffix {step : List α → Nat → Except ε (List α)} {sep : List α}
    (done rest : List (List α)) (out : List α) (h : Appends step sep (done ++ rest)) :
    (List.range' done.length rest.length).foldlM step out = .ok (out ++ sep.intercalate rest) := by
  induction rest generalizing done out with
  | nil => simp [pure, Except.pure]
  | cons text rest ih =>
    have hround := h out done.length (by simp)
    rw [List.getElem_append_right (Nat.le_refl _)] at hround
    rw [List.length_cons, List.range'_succ, List.foldlM_cons, hround]
    have hrest := fun out => ih (done ++ [text]) out (by simpa using h)
    simp only [List.length_append, List.length_singleton] at hrest
    refine (hrest _).trans ?_
    cases rest with
    | nil => simp
    | cons next rest => simp [List.intercalate_cons_cons]

/-- The whole loop writes the texts joined by the separator. -/
theorem foldlM_range {step : List α → Nat → Except ε (List α)} {sep : List α} {texts : List (List α)}
    (h : Appends step sep texts) (out : List α) :
    (List.range texts.length).foldlM step out = .ok (out ++ sep.intercalate texts) := by
  rw [List.range_eq_range']
  exact foldlM_suffix [] texts out h

private theorem foldlM_range'_eq {β σ : Type*} {step : σ → Nat → Except ε σ} {f : σ → β → Except ε σ}
    (done rest : List β)
    (h : ∀ s j, (hj : j < (done ++ rest).length) → step s j = f s (done ++ rest)[j]) (s : σ) :
    (List.range' done.length rest.length).foldlM step s = rest.foldlM f s := by
  induction rest generalizing done s with
  | nil => rfl
  | cons b rest ih =>
    have hround := h s done.length (by simp)
    rw [List.getElem_append_right (Nat.le_refl _)] at hround
    simp only [Nat.sub_self, List.getElem_cons_zero] at hround
    have hrest := fun s => ih (done ++ [b]) (by simpa using h) s
    simp only [List.length_append, List.length_singleton] at hrest
    rw [List.length_cons, List.range'_succ, List.foldlM_cons, List.foldlM_cons, hround]
    exact congrArg _ (funext hrest)

/-- A loop over the indices of a list that looks only at the element is a loop over the list. -/
theorem foldlM_range_getElem {β σ : Type*} {step : σ → Nat → Except ε σ} {f : σ → β → Except ε σ}
    {l : List β} (h : ∀ s j, (hj : j < l.length) → step s j = f s l[j]) (s : σ) :
    (List.range l.length).foldlM step s = l.foldlM f s := by
  rw [List.range_eq_range']
  exact foldlM_range'_eq [] l h s

end Boostander.Library.IndexLoop
