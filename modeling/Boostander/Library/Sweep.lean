import Mathlib

/-! One pass over a list of keyed states that applies a function to each and
stops at the first that fails. The states after that one are not touched. -/
namespace Boostander.Library.Sweep
variable {κ σ φ : Type*}

def sweep (f : σ → σ × Option φ) : List (κ × σ) → List (κ × σ) × Option φ
  | [] => ([], none)
  | (k, s) :: rest =>
    match f s with
    | (s', some e) => ((k, s') :: rest, some e)
    | (s', none) => ((k, s') :: (sweep f rest).1, (sweep f rest).2)

def before [DecidableEq κ] (l : List (κ × σ)) (k : κ) : List (κ × σ) := l.takeWhile (·.1 ≠ k)

def lookup [DecidableEq κ] (l : List (κ × σ)) (k : κ) : Option σ :=
  (l.find? (·.1 = k)).map (·.2)

variable {f : σ → σ × Option φ}

theorem sweep_cons_none {k : κ} {s : σ} {rest : List (κ × σ)} (h : (f s).2 = none) :
    sweep f ((k, s) :: rest) = ((k, (f s).1) :: (sweep f rest).1, (sweep f rest).2) := by
  obtain ⟨s', hs⟩ : ∃ s', f s = (s', none) := ⟨(f s).1, Prod.ext rfl h⟩
  simp [sweep, hs]

theorem sweep_cons_some {k : κ} {s : σ} {rest : List (κ × σ)} {e : φ} (h : (f s).2 = some e) :
    sweep f ((k, s) :: rest) = ((k, (f s).1) :: rest, some e) := by
  obtain ⟨s', hs⟩ : ∃ s', f s = (s', some e) := ⟨(f s).1, Prod.ext rfl h⟩
  simp [sweep, hs]

theorem keys_sweep (f : σ → σ × Option φ) (l : List (κ × σ)) :
    (sweep f l).1.map (·.1) = l.map (·.1) := by
  induction l with
  | nil => rfl
  | cons e rest ih =>
    obtain ⟨k, s⟩ := e
    cases hf : (f s).2 with
    | none => simp [sweep_cons_none hf, ih]
    | some e => simp [sweep_cons_some hf]

theorem forall_sweep {p : σ → Prop} (hf : ∀ s, p s → p (f s).1) {l : List (κ × σ)}
    (hl : ∀ e ∈ l, p e.2) : ∀ e ∈ (sweep f l).1, p e.2 := by
  induction l with
  | nil => exact hl
  | cons e rest ih =>
    obtain ⟨k, s⟩ := e
    obtain ⟨hs, hrest⟩ := List.forall_mem_cons.mp hl
    cases hfs : (f s).2 with
    | none =>
      rw [sweep_cons_none hfs]
      exact List.forall_mem_cons.mpr ⟨hf s hs, ih hrest⟩
    | some e =>
      rw [sweep_cons_some hfs]
      exact List.forall_mem_cons.mpr ⟨hf s hs, hrest⟩

variable [DecidableEq κ] {pre post : List (κ × σ)} {k : κ} {s : σ}

@[simp] theorem lookup_cons_self : lookup ((k, s) :: post) k = some s := by simp [lookup]

@[simp] theorem lookup_cons_ne {j : κ} (h : j ≠ k) : lookup ((j, s) :: post) k = lookup post k := by
  simp [lookup, h]

private theorem lookup_append_cons (hpre : ∀ e ∈ pre, e.1 ≠ k) :
    lookup (pre ++ (k, s) :: post) k = some s := by
  induction pre with
  | nil => exact lookup_cons_self
  | cons e pre ih =>
    obtain ⟨hne, hpre⟩ := List.forall_mem_cons.mp hpre
    exact (lookup_cons_ne hne).trans (ih hpre)

private theorem before_append_cons (hpre : ∀ e ∈ pre, e.1 ≠ k) :
    before (pre ++ (k, s) :: post) k = pre := by
  unfold before
  rw [List.takeWhile_append_of_pos (by simpa using hpre)]
  simp

theorem lookup_sweep_of_clear (hpre : ∀ e ∈ pre, e.1 ≠ k) (hclear : ∀ e ∈ pre, (f e.2).2 = none) :
    lookup (sweep f (pre ++ (k, s) :: post)).1 k = some (f s).1 := by
  induction pre with
  | nil =>
    cases hf : (f s).2 with
    | none => simp [sweep_cons_none hf]
    | some e => simp [sweep_cons_some hf]
  | cons e pre ih =>
    obtain ⟨j, t⟩ := e
    obtain ⟨hne, hpre⟩ := List.forall_mem_cons.mp hpre
    obtain ⟨hnone, hclear⟩ := List.forall_mem_cons.mp hclear
    rw [List.cons_append, sweep_cons_none hnone]
    exact (lookup_cons_ne hne).trans (ih hpre hclear)

theorem lookup_sweep_of_stop (hpre : ∀ e ∈ pre, e.1 ≠ k) (hstop : ∃ e ∈ pre, (f e.2).2 ≠ none) :
    lookup (sweep f (pre ++ (k, s) :: post)).1 k = some s := by
  induction pre with
  | nil => simp at hstop
  | cons e pre ih =>
    obtain ⟨j, t⟩ := e
    obtain ⟨hne, hpre⟩ := List.forall_mem_cons.mp hpre
    cases hf : (f t).2 with
    | some e =>
      rw [List.cons_append, sweep_cons_some hf]
      exact (lookup_cons_ne hne).trans (lookup_append_cons hpre)
    | none =>
      have hrest : ∃ e ∈ pre, (f e.2).2 ≠ none := by simpa [hf] using hstop
      rw [List.cons_append, sweep_cons_none hf]
      exact (lookup_cons_ne hne).trans (ih hpre hrest)

theorem split_of_mem {l : List (κ × σ)} (hnodup : (l.map (·.1)).Nodup) (hmem : (k, s) ∈ l) :
    ∃ post, l = before l k ++ (k, s) :: post ∧ ∀ e ∈ before l k, e.1 ≠ k := by
  obtain ⟨pre, post, rfl⟩ := List.append_of_mem hmem
  have hpre : ∀ e ∈ pre, e.1 ≠ k := by
    intro e he heq
    rw [List.map_append, List.nodup_append] at hnodup
    exact hnodup.2.2 e.1 (List.mem_map_of_mem he) k (by simp) heq
  rw [before_append_cons hpre]
  exact ⟨post, rfl, hpre⟩

end Boostander.Library.Sweep
