import Mathlib

/-! Lists without the marked elements at their ends. A list that is not marked all
through is a core between two marked lists, and the core is what is left of it. -/
namespace Boostander.Library.Strip
variable {α : Type*} {p : α → Bool}

/-- The list without its longest prefix and then its longest suffix of marked elements. -/
def strip (p : α → Bool) (l : List α) : List α := (l.dropWhile p).rdropWhile p

/-- The list neither starts nor ends with a marked element. -/
structure Bare (p : α → Bool) (l : List α) : Prop where
  head : ∀ a ∈ l.head?, p a = false
  last : ∀ a ∈ l.getLast?, p a = false

/-- `core` is not empty and bare, and `lead` and `trail` are marked all through. -/
structure Padded (p : α → Bool) (lead core trail : List α) : Prop where
  leading : ∀ a ∈ lead, p a = true
  bare : Bare p core
  trailing : ∀ a ∈ trail, p a = true
  ne_nil : core ≠ []

variable {lead core trail l : List α}

private theorem Bare.reverse (h : Bare p l) : Bare p l.reverse where
  head := by
    rw [List.head?_reverse]
    exact h.last
  last := by
    rw [List.getLast?_reverse]
    exact h.head

theorem Padded.reverse (h : Padded p lead core trail) :
    Padded p trail.reverse core.reverse lead.reverse where
  leading := fun a ha => h.trailing a (List.mem_reverse.mp ha)
  bare := h.bare.reverse
  trailing := fun a ha => h.leading a (List.mem_reverse.mp ha)
  ne_nil := mt List.reverse_eq_nil_iff.mp h.ne_nil

theorem reverse_append_append (lead core trail : List α) :
    trail.reverse ++ core.reverse ++ lead.reverse = (lead ++ core ++ trail).reverse := by
  rw [List.reverse_append, List.reverse_append, List.append_assoc]

theorem Padded.exists_cons (h : Padded p lead core trail) :
    ∃ a rest, core = a :: rest ∧ p a = false := by
  obtain ⟨a, rest, rfl⟩ := List.exists_cons_of_ne_nil h.ne_nil
  exact ⟨a, rest, rfl, h.bare.head a rfl⟩

private theorem dropWhile_padded (h : Padded p lead core trail) :
    (lead ++ core ++ trail).dropWhile p = core ++ trail := by
  obtain ⟨a, rest, rfl, ha⟩ := h.exists_cons
  rw [List.append_assoc, List.dropWhile_append_of_pos h.leading, List.cons_append,
    List.dropWhile_cons_of_neg (by simp [ha])]

theorem strip_padded (h : Padded p lead core trail) : strip p (lead ++ core ++ trail) = core := by
  have hback : Padded p trail.reverse core.reverse [] :=
    ⟨h.reverse.leading, h.reverse.bare, by simp, h.reverse.ne_nil⟩
  have hdrop := dropWhile_padded hback
  rw [List.append_nil, List.append_nil] at hdrop
  rw [strip, dropWhile_padded h, List.rdropWhile, List.reverse_append, hdrop, List.reverse_reverse]

theorem strip_marked (h : ∀ a ∈ l, p a = true) : strip p l = [] := by
  rw [strip, List.dropWhile_eq_nil_iff.mpr h, List.rdropWhile_nil]

theorem findIdx?_padded (h : Padded p lead core trail) :
    (lead ++ core ++ trail).findIdx? (fun a => !p a) = some lead.length := by
  obtain ⟨a, rest, rfl, ha⟩ := h.exists_cons
  have hlead : lead.findIdx? (fun a => !p a) = none := by
    apply List.findIdx?_eq_none_iff.mpr
    intro b hb
    simp [h.leading b hb]
  rw [List.append_assoc, List.findIdx?_append, hlead]
  simp [List.findIdx?_cons, ha]

theorem head_padded (h : Padded p lead core trail) :
    (∀ a ∈ (lead ++ core ++ trail).head?, p a = false) ↔ lead = [] := by
  constructor
  · intro hhead
    cases lead with
    | nil => rfl
    | cons a lead =>
      have hmarked := h.leading a List.mem_cons_self
      rw [hhead a rfl] at hmarked
      cases hmarked
  · intro hnil
    obtain ⟨a, rest, rfl, ha⟩ := h.exists_cons
    subst hnil
    intro b hb
    obtain rfl := Option.some.inj hb
    exact ha

theorem last_padded (h : Padded p lead core trail) :
    (∀ a ∈ (lead ++ core ++ trail).getLast?, p a = false) ↔ trail = [] := by
  have hback := head_padded h.reverse
  rwa [reverse_append_append, List.head?_reverse, List.reverse_eq_nil_iff] at hback

theorem bare_strip (p : α → Bool) (l : List α) : Bare p (strip p l) where
  head := by
    intro a ha
    obtain ⟨rest, hrest⟩ : strip p l <+: l.dropWhile p := List.rdropWhile_prefix p _
    have hfirst : (l.dropWhile p).head? = some a := by
      rw [← hrest, List.head?_append, Option.mem_def.mp ha, Option.some_or]
    have hnot := List.head?_dropWhile_not p l
    rwa [hfirst] at hnot
  last := by
    intro a ha
    have hne : strip p l ≠ [] := List.ne_nil_of_mem (List.mem_of_getLast? ha)
    have hnot := List.rdropWhile_last_not p (l.dropWhile p) hne
    obtain rfl : (strip p l).getLast hne = a :=
      Option.some.inj ((List.getLast?_eq_some_getLast hne).symm.trans ha)
    exact Bool.not_eq_true _ |>.mp hnot

private theorem padded_strip (hl : ¬ ∀ a ∈ l, p a = true) :
    Padded p (l.takeWhile p) (strip p l) ((l.dropWhile p).rtakeWhile p) where
  leading := fun a ha => List.mem_takeWhile_imp ha
  bare := bare_strip p l
  trailing := fun a ha => List.mem_rtakeWhile_imp ha
  ne_nil := by
    intro hnil
    apply hl
    intro a ha
    rw [← List.takeWhile_append_dropWhile (p := p) (l := l), List.mem_append] at ha
    obtain ha | ha := ha
    · exact List.mem_takeWhile_imp ha
    · exact List.rdropWhile_eq_nil_iff.mp hnil a ha

theorem marked_or_padded (p : α → Bool) (l : List α) :
    (∀ a ∈ l, p a = true) ∨ ∃ lead core trail, l = lead ++ core ++ trail ∧ Padded p lead core trail := by
  by_cases hl : ∀ a ∈ l, p a = true
  · exact .inl hl
  · refine .inr ⟨_, _, _, ?_, padded_strip hl⟩
    rw [strip, List.append_assoc, List.rdropWhile_append_rtakeWhile, List.takeWhile_append_dropWhile]

end Boostander.Library.Strip
