import Boostander.Net.Analysis

/-! Which row the result of an analysis belongs to. The loop starts at the epoch and
keeps its last quotient when a later row has a denominator that it does not divide by. -/
namespace Boostander.Net
open Algo Algo.CSV

section
variable {δ : Type} (cv : Conversions δ)

def numbersOf (row : Row) : Option (δ × δ) := do
  let d1 ← cv.lexicalCast (← row[1]?)
  let d2 ← cv.lexicalCast (← row[2]?)
  return (d1, d2)

def quotientOf (row : Row) : δ :=
  match numbersOf cv row with
  | some (d1, d2) => cv.div d1 d2
  | none => cv.zero

/-- The denominator of the row passes the test of the loop. -/
def divides (row : Row) : Bool :=
  (numbersOf cv row).any fun d => !cv.isInf d.2 && !cv.isZero d.2

/-- The denominator of the row is finite and not zero. -/
def finiteNonzero (isNan : δ → Bool) (row : Row) : Bool :=
  (numbersOf cv row).any fun d => !cv.isInf d.2 && !isNan d.2 && !cv.isZero d.2

/-- The first of the rows with the greatest date. -/
noncomputable def latest (rows : List Row) : Option Row := rows.argmax (dateOf cv)

/-- Row `i` of the table is later than the epoch and than all rows before it, and
its denominator passes the test of the loop. -/
structure Divided (rows : List Row) (i : Nat) (row : Row) : Prop where
  at_index : rows[i]? = some row
  newest : Newest cv (rows.take i) row
  divides : divides cv row = true

/-- The last such row of the table. -/
def LastDivided (rows : List Row) (row : Row) : Prop :=
  ∃ i, Divided cv rows i row ∧ ∀ k, i < k → ∀ r, ¬ Divided cv rows k r

def roundOf (a : Analysis δ) (row : Row) : Analysis δ :=
  if a.maxDate < dateOf cv row then
    ⟨dateOf cv row, if divides cv row then quotientOf cv row else a.delim⟩
  else a

/-- The analysis ends with the greatest date, and with the quotient of the first
row of that date, or zero where the denominator of that row is not finite or zero. -/
def BelongsToLatest (isNan : δ → Bool) (rows : List Row) : Prop :=
  ∃ a row, analize cv (ofTable 44 0 rows) = .ok a ∧ latest cv rows = some row ∧
    a.maxDate = dateOf cv row ∧
    a.delim = if finiteNonzero cv isNan row then quotientOf cv row else cv.zero

variable {cv}

private theorem numbersOf_numeric {row : Row} (h : Numeric cv row) :
    ∃ f1 f2 d1 d2, row[1]? = some f1 ∧ row[2]? = some f2 ∧ cv.lexicalCast f1 = some d1 ∧
      cv.lexicalCast f2 = some d2 ∧ numbersOf cv row = some (d1, d2) := by
  obtain ⟨f1, f2, hf1, hf2, hd1, hd2⟩ := h
  obtain ⟨d1, hd1⟩ := Option.isSome_iff_exists.mp hd1
  obtain ⟨d2, hd2⟩ := Option.isSome_iff_exists.mp hd2
  exact ⟨f1, f2, d1, d2, hf1, hf2, hd1, hd2, by simp [numbersOf, hf1, hf2, hd1, hd2]⟩

private theorem analizeCells_numeric {cols : Nat} {row : Row} (a : Analysis δ) (hcols : 3 ≤ cols)
    (h : Numeric cv row) : analizeCells cv (fieldAt cols row) a = .ok (roundOf cv a row) := by
  obtain ⟨f1, f2, d1, d2, hf1, hf2, hd1, hd2, hnumbers⟩ := numbersOf_numeric h
  have hrow : row ≠ [] := by
    intro hnil
    rw [hnil] at hf1
    cases hf1
  by_cases hdate : a.maxDate < dateOf cv row
  · apply (analizeCells_of_gt (by omega) hrow hdate).mpr
    refine ⟨f1, f2, d1, d2, ⟨by omega, hf1⟩, ⟨by omega, hf2⟩, hd1, hd2, ?_⟩
    simp [roundOf, hdate, divides, quotientOf, hnumbers]
  · rw [analizeCells_of_le (by omega) hrow (Int.not_lt.mp hdate), roundOf, if_neg hdate]

private theorem foldlM_numeric {cols : Nat} (rows : List Row) (a : Analysis δ) (hcols : 3 ≤ cols)
    (h : ∀ row ∈ rows, Numeric cv row) :
    rows.foldlM (fun a row => analizeCells cv (fieldAt cols row) a) a =
      .ok (rows.foldl (roundOf cv) a) := by
  induction rows generalizing a with
  | nil => rfl
  | cons row rows ih =>
    obtain ⟨hrow, hrows⟩ := List.forall_mem_cons.mp h
    rw [List.foldlM_cons, analizeCells_numeric a hcols hrow]
    exact ih _ hrows

theorem analize_numeric {rows : List Row} (h : ∀ row ∈ rows, Numeric cv row) :
    analize cv (ofTable 44 0 rows) = .ok (rows.foldl (roundOf cv) ⟨0, cv.zero⟩) := by
  rw [analize_ofTable]
  cases rows with
  | nil => rfl
  | cons row rows =>
    obtain ⟨f1, f2, -, -, -, hf2, -⟩ := numbersOf_numeric (h row List.mem_cons_self)
    have hcols : 3 ≤ row.length := (List.getElem?_eq_some_iff.mp hf2).1
    exact foldlM_numeric _ _ hcols h

private theorem Divided.lt {rows : List Row} {i : Nat} {row : Row} (h : Divided cv rows i row) :
    i < rows.length := (List.getElem?_eq_some_iff.mp h.at_index).1

private theorem divided_concat {rows : List Row} {i : Nat} {row r : Row} :
    Divided cv (rows ++ [row]) i r ↔
      Divided cv rows i r ∨ i = rows.length ∧ r = row ∧ Newest cv rows row ∧ divides cv row = true := by
  rcases Nat.lt_trichotomy i rows.length with hi | hi | hi
  · have htake : (rows ++ [row]).take i = rows.take i := List.take_append_of_le_length hi.le
    have hget : (rows ++ [row])[i]? = rows[i]? := List.getElem?_append_left hi
    constructor
    · intro h
      exact .inl ⟨hget ▸ h.at_index, htake ▸ h.newest, h.divides⟩
    · intro h
      obtain h | ⟨heq, -⟩ := h
      · exact ⟨hget.trans h.at_index, htake.symm ▸ h.newest, h.divides⟩
      · omega
  · subst hi
    have hget : (rows ++ [row])[rows.length]? = some row := List.getElem?_concat_length
    constructor
    · intro h
      obtain rfl := Option.some.inj (hget.symm.trans h.at_index)
      have hnewest := h.newest
      rw [List.take_left] at hnewest
      exact .inr ⟨rfl, rfl, hnewest, h.divides⟩
    · intro h
      obtain h | ⟨-, rfl, hnewest, hdivides⟩ := h
      · exact absurd h.lt (Nat.lt_irrefl _)
      · exact ⟨hget, by rwa [List.take_left], hdivides⟩
  · constructor
    · intro h
      have hlt := h.lt
      rw [List.length_append, List.length_singleton] at hlt
      omega
    · intro h
      obtain h | ⟨heq, -⟩ := h
      · have hlt := h.lt
        omega
      · omega

private theorem lastDivided_concat {rows : List Row} {row r : Row} :
    LastDivided cv (rows ++ [row]) r ↔
      (r = row ∧ Newest cv rows row ∧ divides cv row = true) ∨
        LastDivided cv rows r ∧ ¬ (Newest cv rows row ∧ divides cv row = true) := by
  constructor
  · intro h
    obtain ⟨i, hi, hlast⟩ := h
    obtain hi | ⟨-, hrow⟩ := divided_concat.mp hi
    · refine .inr ⟨⟨i, hi, fun k hk r' hk' => hlast k hk r' (divided_concat.mpr (.inl hk'))⟩, ?_⟩
      intro hrow
      exact hlast _ hi.lt row (divided_concat.mpr (.inr ⟨rfl, rfl, hrow⟩))
    · exact .inl hrow
  · intro h
    obtain ⟨rfl, hrow⟩ | ⟨⟨i, hi, hlast⟩, hrow⟩ := h
    · refine ⟨rows.length, divided_concat.mpr (.inr ⟨rfl, rfl, hrow⟩), ?_⟩
      intro k hk r' hk'
      have hlt := hk'.lt
      rw [List.length_append, List.length_singleton] at hlt
      omega
    · refine ⟨i, divided_concat.mpr (.inl hi), ?_⟩
      intro k hk r' hk'
      obtain hk' | ⟨-, -, hrow'⟩ := divided_concat.mp hk'
      · exact hlast k hk r' hk'
      · exact hrow hrow'

private theorem delim_roundOf {a : Analysis δ} {row : Row} :
    (roundOf cv a row).delim =
      if a.maxDate < dateOf cv row ∧ divides cv row = true then quotientOf cv row else a.delim := by
  unfold roundOf
  by_cases hdate : a.maxDate < dateOf cv row
  · simp only [hdate, if_true, true_and]
  · simp [hdate]

private theorem maxDate_roundOf {a : Analysis δ} {row : Row} :
    (roundOf cv a row).maxDate = max a.maxDate (dateOf cv row) := by
  unfold roundOf
  by_cases hdate : a.maxDate < dateOf cv row
  · rw [if_pos hdate]
    exact (Int.max_eq_right hdate.le).symm
  · rw [if_neg hdate]
    exact (Int.max_eq_left (Int.not_lt.mp hdate)).symm

private theorem maxDate_lt_iff (cv : Conversions δ) (rows : List Row) (row : Row) :
    (rows.foldl (roundOf cv) ⟨0, cv.zero⟩).maxDate < dateOf cv row ↔ Newest cv rows row := by
  induction rows using List.reverseRecOn generalizing row with
  | nil => simp [Newest]
  | append_singleton rows r ih =>
    have hsplit : Newest cv (rows ++ [r]) row ↔ Newest cv rows row ∧ dateOf cv r < dateOf cv row := by
      simp only [Newest, List.mem_append, List.mem_singleton, or_imp, forall_and, forall_eq, and_assoc]
    rw [hsplit, ← ih row, List.foldl_concat, maxDate_roundOf]
    exact Int.max_lt

private theorem delim_eq (cv : Conversions δ) (rows : List Row) :
    (∀ r, LastDivided cv rows r → (rows.foldl (roundOf cv) ⟨0, cv.zero⟩).delim = quotientOf cv r) ∧
      ((∀ r, ¬ LastDivided cv rows r) → (rows.foldl (roundOf cv) ⟨0, cv.zero⟩).delim = cv.zero) := by
  induction rows using List.reverseRecOn with
  | nil =>
    refine ⟨?_, fun _ => rfl⟩
    intro r h
    obtain ⟨i, hi, -⟩ := h
    exact absurd hi.lt (Nat.not_lt_zero i)
  | append_singleton rows row ih =>
    have hround := maxDate_lt_iff cv rows row
    rw [List.foldl_concat, delim_roundOf]
    simp only [lastDivided_concat]
    by_cases hrow : Newest cv rows row ∧ divides cv row = true
    · rw [if_pos ⟨hround.mpr hrow.1, hrow.2⟩]
      simp [hrow]
    · rw [if_neg fun h => hrow ⟨hround.mp h.1, h.2⟩]
      simpa [hrow] using ih

private theorem delim_eq_zero_iff (rows : List Row) :
    (rows.foldl (roundOf cv) ⟨0, cv.zero⟩).delim = cv.zero ↔
      ∀ r, LastDivided cv rows r → quotientOf cv r = cv.zero := by
  obtain ⟨hlast, hnone⟩ := delim_eq cv rows
  constructor
  · intro hzero r hr
    rw [← hlast r hr, hzero]
  · intro hall
    by_cases hex : ∃ r, LastDivided cv rows r
    · obtain ⟨r, hr⟩ := hex
      rw [hlast r hr, hall r hr]
    · exact hnone (not_exists.mp hex)

private theorem latest_concat {rows : List Row} {r row : Row}
    (h : latest cv (rows ++ [r]) = some row) :
    (rows = [] ∧ row = r) ∨
      ∃ c, latest cv rows = some c ∧
        (dateOf cv c < dateOf cv r ∧ row = r ∨ dateOf cv r ≤ dateOf cv c ∧ row = c) := by
  rw [latest, List.argmax_concat] at h
  cases hl : rows.argmax (dateOf cv) with
  | none =>
    rw [hl] at h
    exact .inl ⟨List.argmax_eq_none.mp hl, (Option.some.inj h).symm⟩
  | some c =>
    rw [hl] at h
    simp only at h
    refine .inr ⟨c, hl, ?_⟩
    by_cases hlt : dateOf cv c < dateOf cv r
    · rw [if_pos hlt] at h
      exact .inl ⟨hlt, (Option.some.inj h).symm⟩
    · rw [if_neg hlt] at h
      exact .inr ⟨Int.not_lt.mp hlt, (Option.some.inj h).symm⟩

private theorem lastDivided_latest {rows : List Row} {row : Row} (h : latest cv rows = some row)
    (hdate : 0 < dateOf cv row) (hdivides : divides cv row = true) : LastDivided cv rows row := by
  induction rows using List.reverseRecOn with
  | nil => cases h
  | append_singleton rows r ih =>
    apply lastDivided_concat.mpr
    obtain ⟨rfl, rfl⟩ | ⟨c, hc, ⟨hlt, rfl⟩ | ⟨hle, rfl⟩⟩ := latest_concat h
    · exact .inl ⟨rfl, ⟨hdate, by simp⟩, hdivides⟩
    · refine .inl ⟨rfl, ⟨hdate, ?_⟩, hdivides⟩
      intro r' hr'
      exact (List.le_of_mem_argmax hr' hc).trans_lt hlt
    · refine .inr ⟨ih hc, ?_⟩
      intro hr
      exact absurd (hr.1.2 _ (List.argmax_mem hc)) (Int.not_lt.mpr hle)

private theorem maxDate_latest {rows : List Row} {row : Row} (h : latest cv rows = some row) :
    (rows.foldl (roundOf cv) ⟨0, cv.zero⟩).maxDate = max 0 (dateOf cv row) := by
  induction rows using List.reverseRecOn generalizing row with
  | nil => cases h
  | append_singleton rows r ih =>
    rw [List.foldl_concat, maxDate_roundOf]
    obtain ⟨rfl, rfl⟩ | ⟨c, hc, ⟨hlt, rfl⟩ | ⟨hle, rfl⟩⟩ := latest_concat h
    · rfl
    · rw [ih hc]
      omega
    · rw [ih hc]
      omega

private theorem not_lastDivided {rows : List Row} {row r : Row} (h : latest cv rows = some row)
    (hdate : dateOf cv row ≤ 0) : ¬ LastDivided cv rows r := by
  intro hr
  obtain ⟨i, hi, -⟩ := hr
  have hle : dateOf cv r ≤ dateOf cv row := List.le_of_mem_argmax (List.mem_of_getElem? hi.at_index) h
  have hpos := hi.newest.1
  omega

private theorem divides_of_finiteNonzero {isNan : δ → Bool} {row : Row}
    (h : finiteNonzero cv isNan row = true) :
    divides cv row = true := by
  unfold finiteNonzero at h
  unfold divides
  cases hn : numbersOf cv row with
  | none =>
    rw [hn] at h
    cases h
  | some d =>
    rw [hn] at h
    simp only [Option.any_some, Bool.and_eq_true] at h ⊢
    exact ⟨h.1.1, h.2⟩

/-- The result belongs to the latest row exactly when that row is not before the
epoch, is later than the epoch if it has a quotient other than zero, and, if it has no
finite nonzero denominator, no row divided before it has left a quotient. -/
theorem belongsToLatest_iff (cv : Conversions δ) (isNan : δ → Bool) (rows : List Row)
    (hrows : ∀ row ∈ rows, Numeric cv row) :
    BelongsToLatest cv isNan rows ↔
      ∃ row, latest cv rows = some row ∧ 0 ≤ dateOf cv row ∧
        (finiteNonzero cv isNan row = true → 0 < dateOf cv row ∨ quotientOf cv row = cv.zero) ∧
        (finiteNonzero cv isNan row = false →
          ∀ r, LastDivided cv rows r → quotientOf cv r = cv.zero) := by
  have hanalize := analize_numeric hrows
  constructor
  · intro h
    obtain ⟨a, row, ha, hlatest, hdate, hdelim⟩ := h
    obtain rfl := Except.ok.inj (hanalize.symm.trans ha)
    rw [maxDate_latest hlatest] at hdate
    refine ⟨row, hlatest, by omega, ?_, ?_⟩
    · intro hfinite
      rw [if_pos hfinite] at hdelim
      by_cases hpos : 0 < dateOf cv row
      · exact .inl hpos
      · refine .inr (hdelim ▸ (delim_eq cv rows).2 fun r => not_lastDivided hlatest (by omega))
    · intro hfinite
      rw [hfinite] at hdelim
      exact (delim_eq_zero_iff rows).mp hdelim
  · intro h
    obtain ⟨row, hlatest, hepoch, hquotient, hleft⟩ := h
    refine ⟨_, row, hanalize, hlatest, ?_, ?_⟩
    · rw [maxDate_latest hlatest]
      omega
    · cases hfinite : finiteNonzero cv isNan row with
      | false => exact (delim_eq_zero_iff rows).mpr (hleft hfinite)
      | true =>
        rw [if_pos rfl]
        by_cases hpos : 0 < dateOf cv row
        · exact (delim_eq cv rows).1 row
            (lastDivided_latest hlatest hpos (divides_of_finiteNonzero hfinite))
        · rw [(hquotient hfinite).resolve_left hpos]
          exact (delim_eq cv rows).2 fun r => not_lastDivided hlatest (by omega)

end

/-- The text `28.02.2019 10:18:06`. -/
def laterDate : Bytes := [50, 56, 46, 48, 50, 46, 50, 48, 49, 57, 32, 49, 48, 58, 49, 56, 58, 48, 54]

/-- The text `28.02.1969 10:18:05`. -/
def earlyDate : Bytes := [50, 56, 46, 48, 50, 46, 49, 57, 54, 57, 32, 49, 48, 58, 49, 56, 58, 48, 53]

/-- Whole numbers, and these three dates in UTC. -/
def datedConversions : Conversions Nat :=
  { wholeConversions with
    dateTimeFromStr := fun s =>
      if s = someDate then 1551349085 * 10^9
      else if s = laterDate then 1551349086 * 10^9
      else if s = earlyDate then -26487715 * 10^9 else 0 }

/-- A later row with a denominator that is finite and not zero. -/
theorem belongsToLatest_iff_later :
    BelongsToLatest datedConversions (fun _ => false) [[someDate, [56], [50]], [laterDate, [57], [51]]] := by
  apply (belongsToLatest_iff datedConversions (fun _ => false)
    [[someDate, [56], [50]], [laterDate, [57], [51]]] (by simp [Numeric]; decide)).mpr
  exact ⟨[laterDate, [57], [51]], by rfl, by decide, fun _ => .inl (by decide),
    fun h => absurd h (by decide)⟩

/-- The latest row divides by zero and the quotient is that of the row before it; a
single row of 1969 leaves the epoch as the greatest date. -/
theorem belongsToLatest_zero_fails :
    ¬ BelongsToLatest datedConversions (fun _ => false)
      [[someDate, [56], [50]], [laterDate, [56], [48]]] ∧
    ¬ BelongsToLatest datedConversions (fun _ => false) [[earlyDate, [56], [50]]] := by
  constructor
  · intro h
    obtain ⟨a, row, ha, hlatest, -, hdelim⟩ := h
    obtain rfl : _ = a := Except.ok.inj ha
    obtain rfl : [laterDate, [56], [48]] = row := Option.some.inj hlatest
    exact absurd hdelim (by decide)
  · intro h
    obtain ⟨a, row, ha, hlatest, hdate, -⟩ := h
    obtain rfl : _ = a := Except.ok.inj ha
    obtain rfl : [earlyDate, [56], [50]] = row := Option.some.inj hlatest
    exact absurd hdate (by decide)

end Boostander.Net
