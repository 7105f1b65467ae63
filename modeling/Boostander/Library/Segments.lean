import Mathlib

/-! Cutting a list at marked elements. `splitOnP` of the core library drops the marked
elements; `cutAfter` keeps each of them at the end of its piece and drops what
follows the last one. Every notion here grows by one element at the right end. -/
namespace Boostander.Library.Segments
variable {α : Type*} (p q : α → Bool)

/-- The pieces that end with a marked element, each with that element. -/
def cutAfter : List α → List (List α)
  | [] => []
  | a :: l => if p a then [a] :: cutAfter l else (cutAfter l).modifyHead (a :: ·)

/-- What follows the last marked element. -/
def openTail (l : List α) : List α := l.rtakeWhile (fun a => !p a)

/-- The maximal unmarked runs that are followed by a marked element. -/
def closedRuns (l : List α) : List (List α) := (l.splitOnP p).dropLast

/-- The maximal unmarked run at the end. -/
def openRun (l : List α) : List α := (l.splitOnP p).getLast (List.splitOnP_ne_nil p l)

@[simp] theorem openTail_nil : openTail p [] = [] := rfl
@[simp] theorem closedRuns_nil : closedRuns p [] = [] := rfl
@[simp] theorem openRun_nil : openRun p [] = [] := rfl

theorem splitOnP_eq_runs (l : List α) : l.splitOnP p = closedRuns p l ++ [openRun p l] :=
  (List.dropLast_append_getLast (List.splitOnP_ne_nil p l)).symm

variable {p q}

private theorem runs_of_splitOnP {l : List α} (runs : List (List α)) (r : List α)
    (h : l.splitOnP p = runs ++ [r]) : closedRuns p l = runs ∧ openRun p l = r := by
  simp [closedRuns, openRun, h]

private theorem splitOnP_concat_marked (l : List α) {a : α} (h : p a = true) :
    (l ++ [a]).splitOnP p = l.splitOnP p ++ [[]] := by
  simpa using List.splitOnP_append_cons l [] h

private theorem splitOnP_concat (l : List α) {a : α} (h : p a = false) :
    (l ++ [a]).splitOnP p = closedRuns p l ++ [openRun p l ++ [a]] := by
  induction l with
  | nil => simp [List.splitOnP_cons_eq_if_modifyHead, h]
  | cons b l ih =>
    rw [List.cons_append, List.splitOnP_cons_eq_if_modifyHead, ih]
    have hl := List.splitOnP_cons_eq_if_modifyHead (p := p) b l
    rw [splitOnP_eq_runs p l] at hl
    by_cases hb : p b = true
    · rw [if_pos hb] at hl ⊢
      obtain ⟨hc, ho⟩ := runs_of_splitOnP ([] :: closedRuns p l) _ hl
      rw [hc, ho]
      rfl
    · rw [if_neg hb] at hl ⊢
      cases hk : closedRuns p l with
      | nil =>
        obtain ⟨hc, ho⟩ := runs_of_splitOnP [] (b :: openRun p l) (by simpa [hk] using hl)
        simp [hc, ho]
      | cons c k =>
        obtain ⟨hc, ho⟩ := runs_of_splitOnP ((b :: c) :: k) _ (by simpa [hk] using hl)
        simp [hc, ho]

theorem closedRuns_concat_marked (l : List α) {a : α} (h : p a = true) :
    closedRuns p (l ++ [a]) = closedRuns p l ++ [openRun p l] := by
  rw [← splitOnP_eq_runs]
  exact (runs_of_splitOnP _ _ (splitOnP_concat_marked l h)).1

@[simp] theorem openRun_concat_marked (l : List α) {a : α} (h : p a = true) :
    openRun p (l ++ [a]) = [] :=
  (runs_of_splitOnP _ _ (splitOnP_concat_marked l h)).2

@[simp] theorem closedRuns_concat (l : List α) {a : α} (h : p a = false) :
    closedRuns p (l ++ [a]) = closedRuns p l :=
  (runs_of_splitOnP _ _ (splitOnP_concat l h)).1

@[simp] theorem openRun_concat (l : List α) {a : α} (h : p a = false) :
    openRun p (l ++ [a]) = openRun p l ++ [a] :=
  (runs_of_splitOnP _ _ (splitOnP_concat l h)).2

@[simp] theorem openTail_concat_marked (l : List α) {a : α} (h : p a = true) :
    openTail p (l ++ [a]) = [] := by
  simp [openTail, h]

@[simp] theorem openTail_concat (l : List α) {a : α} (h : p a = false) :
    openTail p (l ++ [a]) = openTail p l ++ [a] := by
  simp [openTail, h]

theorem cutAfter_eq_nil_iff {l : List α} : cutAfter p l = [] ↔ ∀ b ∈ l, p b = false := by
  induction l with
  | nil => simp [cutAfter]
  | cons b l ih =>
    by_cases hb : p b = true
    · simp [cutAfter, hb]
    · simp [cutAfter, hb, ih]

private theorem openTail_cons {b : α} {l : List α} (h : ∃ c ∈ b :: l, p c = true) :
    openTail p (b :: l) = openTail p l := by
  induction l using List.reverseRecOn with
  | nil =>
    obtain ⟨c, hc, hp⟩ := h
    rw [List.mem_singleton.mp hc] at hp
    exact openTail_concat_marked [] hp
  | append_singleton l c ih =>
    rw [← List.cons_append]
    by_cases hc : p c = true
    · rw [openTail_concat_marked _ hc, openTail_concat_marked _ hc]
    · rw [Bool.not_eq_true] at hc
      rw [openTail_concat _ hc, openTail_concat _ hc, ih]
      obtain ⟨x, hx, hp⟩ := h
      rw [← List.cons_append, List.mem_append, List.mem_singleton] at hx
      rcases hx with hx | rfl
      · exact ⟨x, hx, hp⟩
      · simp [hp] at hc

theorem openTail_eq_self {l : List α} (hl : ∀ b ∈ l, p b = false) : openTail p l = l := by
  rw [openTail, List.rtakeWhile_eq_self_iff]
  intro b hb
  simp [hl b hb]

private theorem openTail_append (l k : List α) :
    openTail p (l ++ k) = openTail p (openTail p l ++ k) := by
  induction k using List.reverseRecOn with
  | nil =>
    rw [List.append_nil, List.append_nil]
    exact (List.rtakeWhile_idempotent _ l).symm
  | append_singleton k a ih =>
    rw [← List.append_assoc, ← List.append_assoc]
    by_cases ha : p a = true
    · rw [openTail_concat_marked _ ha, openTail_concat_marked _ ha]
    · rw [Bool.not_eq_true] at ha
      rw [openTail_concat _ ha, openTail_concat _ ha, ih]

/-- Growing by a marked element closes the open tail; growing by another changes no piece. -/
theorem cutAfter_concat (l : List α) (a : α) :
    cutAfter p (l ++ [a]) = if p a then cutAfter p l ++ [openTail p l ++ [a]] else cutAfter p l := by
  induction l with
  | nil => by_cases h : p a = true <;> simp [cutAfter, h]
  | cons b l ih =>
    rw [List.cons_append, cutAfter, cutAfter, ih]
    by_cases hb : p b = true
    · rw [openTail_cons ⟨b, by simp, hb⟩]
      by_cases ha : p a = true <;> simp [ha, hb]
    · by_cases ha : p a = true
      · cases hk : cutAfter p l with
        | nil =>
          have hl := cutAfter_eq_nil_iff.mp hk
          rw [openTail_eq_self hl, openTail_eq_self (by simpa [hb] using hl)]
          simp [ha, hb]
        | cons piece k =>
          have hm : ∃ c ∈ b :: l, p c = true := by
            by_contra hn
            have hnil : cutAfter p l = [] := cutAfter_eq_nil_iff.mpr
              (fun c hc => by simpa using fun hp => hn ⟨c, by simp [hc], hp⟩)
            simp [hk] at hnil
          simp [openTail_cons hm, ha, hb]
      · simp [ha, hb]

theorem cutAfter_append (l k : List α) :
    cutAfter p (l ++ k) = cutAfter p l ++ cutAfter p (openTail p l ++ k) := by
  induction k using List.reverseRecOn with
  | nil =>
    have hfree : ∀ a ∈ openTail p l, p a = false := by
      intro a ha
      simpa using List.mem_rtakeWhile_imp ha
    simp [cutAfter_eq_nil_iff.mpr hfree]
  | append_singleton k a ih =>
    rw [← List.append_assoc, ← List.append_assoc, cutAfter_concat, cutAfter_concat, ih]
    by_cases ha : p a = true
    · rw [if_pos ha, if_pos ha, openTail_append, List.append_assoc]
    · rw [if_neg ha, if_neg ha]

theorem cutAfter_append_cons {l : List α} (hl : ∀ b ∈ l, p b = false) {a : α} (h : p a = true)
    (k : List α) : cutAfter p (l ++ a :: k) = (l ++ [a]) :: cutAfter p k := by
  induction l with
  | nil => simp [cutAfter, h]
  | cons b l ih =>
    have hb := hl b (by simp)
    simp [cutAfter, hb, ih (fun c hc => hl c (by simp [hc]))]

/-- When `q` marks fewer elements, the last `p`-run lies inside the open `q`-tail. -/
theorem openRun_openTail (hqp : ∀ a, q a = true → p a = true) (l : List α) :
    openRun p (openTail q l) = openRun p l := by
  induction l using List.reverseRecOn with
  | nil => rfl
  | append_singleton l a ih =>
    by_cases hq : q a = true
    · rw [openTail_concat_marked l hq, openRun_concat_marked l (hqp a hq), openRun_nil]
    · rw [Bool.not_eq_true] at hq
      rw [openTail_concat l hq]
      by_cases hp : p a = true
      · rw [openRun_concat_marked _ hp, openRun_concat_marked _ hp]
      · rw [Bool.not_eq_true] at hp
        rw [openRun_concat _ hp, openRun_concat _ hp, ih]

theorem splitOnP_intercalate {a : α} (ha : p a = true) {ls : List (List α)} (hls : ls ≠ [])
    (hfree : ∀ l ∈ ls, ∀ b ∈ l, p b = false) : ([a].intercalate ls).splitOnP p = ls := by
  induction ls with
  | nil => exact absurd rfl hls
  | cons l ls ih =>
    have hl := hfree l (by simp)
    cases ls with
    | nil => simpa using List.splitOnP_eq_singleton hl
    | cons k ls =>
      rw [List.intercalate_cons_cons, List.append_assoc, List.singleton_append,
        List.splitOnP_append_cons_of_forall_mem hl a ha,
        ih (by simp) (fun m hm => hfree m (List.mem_cons_of_mem _ hm))]

theorem length_cutAfter_le (l : List α) : (cutAfter p l).length ≤ l.length := by
  induction l with
  | nil => exact le_refl _
  | cons a l ih =>
    rw [cutAfter]
    split <;> simp only [List.length_cons, List.length_modifyHead] <;> omega

theorem length_le_of_mem_cutAfter {l piece : List α} (h : piece ∈ cutAfter p l) :
    piece.length ≤ l.length := by
  induction l generalizing piece with
  | nil => simp [cutAfter] at h
  | cons a l ih =>
    rw [cutAfter] at h
    split at h
    · rcases List.mem_cons.mp h with rfl | h
      · simp
      · exact (ih h).trans (Nat.le_succ _)
    · cases hk : cutAfter p l with
      | nil => simp [hk] at h
      | cons b k =>
        rw [hk, List.modifyHead_cons] at h
        rcases List.mem_cons.mp h with rfl | h
        · exact Nat.succ_le_succ (ih (by simp [hk]))
        · exact (ih (by simp [hk, h])).trans (Nat.le_succ _)

theorem length_filter_splitOnP_le [DecidableEq α] (l : List α) :
    ((l.splitOnP p).filter (· ≠ [])).length ≤ l.length := by
  have hconcat (k : List α) : ((k.splitOnP p).filter (· ≠ [])).length =
      ((closedRuns p k).filter (· ≠ [])).length + if openRun p k = [] then 0 else 1 := by
    rw [splitOnP_eq_runs, List.filter_append, List.length_append]
    split <;> simp [*]
  induction l using List.reverseRecOn with
  | nil => simp
  | append_singleton l a ih =>
    rw [hconcat] at ih ⊢
    by_cases ha : p a = true
    · rw [closedRuns_concat_marked l ha, openRun_concat_marked l ha, ← splitOnP_eq_runs, hconcat]
      simp only [if_true, List.length_append, List.length_singleton]
      omega
    · rw [Bool.not_eq_true] at ha
      rw [closedRuns_concat l ha, openRun_concat l ha]
      simp only [List.append_eq_nil_iff, List.cons_ne_self, and_false, if_false, List.length_append,
        List.length_singleton]
      omega

end Boostander.Library.Segments
