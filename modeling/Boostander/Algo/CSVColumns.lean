import Boostander.Algo.CSVSave

/-! Whether a field is found again in the column it was written to. A field ends at
every separator, but an empty one is never stored, so what follows it moves up. -/
namespace Boostander.Algo.CSV
open Library Library.Segments

/-- Each row joined by the delimiter and followed by a line end. -/
def textOf (d : Byte) (rows : List Row) : Bytes := rows.flatMap fun row => joinRow d row ++ [lf]

/-- Loaded into a fresh CSV, component `j` of row `i` is stored in row `i` and column `j`. -/
def KeepsColumns (d : Byte) (n : Nat) (rows : List Row) : Prop :=
  ∃ csv, loadFromMemory (create d 0 0) (textOf d rows) = .ok csv ∧
    ∀ i j, (hi : i < rows.length) → j < n → (csv.rowsDeque[i]?).bind (·[j]?) = rows[i][j]?

/-- Rows of `n` components that hold no separator and are short enough. -/
def FreeRows (d : Byte) (n : Nat) (rows : List Row) : Prop :=
  ∀ row ∈ rows, row.length = n ∧ ∀ field ∈ row, field.length ≤ 1024 ∧
    ∀ c ∈ field, c ≠ d ∧ c ≠ lf ∧ c ≠ cr

variable {d : Byte} {n : Nat} {rows : List Row}

private theorem FreeRows.free (h : FreeRows d n rows) (hn : 0 < n) {row : Row} (hrow : row ∈ rows) :
    FreeRow d row := by
  obtain ⟨hlen, hfields⟩ := h row hrow
  refine ⟨List.ne_nil_of_length_pos (hlen ▸ hn), ?_⟩
  intro field hf
  obtain ⟨hshort, hfree⟩ := hfields field hf
  refine ⟨hshort, ?_⟩
  intro c hc
  simpa [isSeparator, and_assoc] using hfree c hc

private theorem table_textOf (hd : d ≠ lf) (h : ∀ row ∈ rows, FreeRow d row) :
    table d (textOf d rows) = (rows.map (·.filter (· ≠ []))).filter (· ≠ []) ∧
      FitsBuffer d (textOf d rows) := by
  induction rows with
  | nil => exact ⟨rfl, by simp [textOf, FitsBuffer]⟩
  | cons row rows ih =>
    obtain ⟨hrow, hrows⟩ := List.forall_mem_cons.mp h
    obtain ⟨htable, hfits⟩ := ih hrows
    have htext : textOf d (row :: rows) = joinRow d row ++ lf :: textOf d rows := by
      simp [textOf]
    rw [htext, table_freeLine hd hrow, htable, fitsBuffer_append_cons _ _ isSeparator_lf,
      ← List.filter_append, List.singleton_append]
    exact ⟨rfl, fitsBuffer_joinRow hrow, hfits⟩

private theorem field_ne_nil {s : Bytes} {row : Row} {field : Bytes} (hrow : row ∈ table d s)
    (hf : field ∈ row) : field ≠ [] := by
  obtain ⟨piece, -, rfl⟩ := List.mem_map.mp (List.mem_filter.mp hrow).1
  simpa using (List.mem_filter.mp hf).2

/-- Columns keep their position exactly if no component is empty and the text is
short enough for its load to end. -/
theorem keepsColumns_iff (hd : d ≠ cr ∧ d ≠ lf) (hn : 2 ≤ n) (h : FreeRows d n rows) :
    KeepsColumns d n rows ↔
      (∀ row ∈ rows, ∀ field ∈ row, field ≠ []) ∧ (textOf d rows).length ≤ 2^32 - 2048 := by
  have hfree : ∀ row ∈ rows, FreeRow d row := fun row hrow => h.free (by omega) hrow
  obtain ⟨htable, hfits⟩ := table_textOf hd.2 hfree
  constructor
  · intro hkeeps
    obtain ⟨csv, hload, hcells⟩ := hkeeps
    obtain ⟨hlen, -, rfl⟩ := (loadFromMemory_fresh_eq_ok d 0 _ csv).mp hload
    refine ⟨?_, hlen⟩
    intro row hrow field hf
    obtain ⟨i, hi, rfl⟩ := List.mem_iff_getElem.mp hrow
    obtain ⟨j, hj, rfl⟩ := List.mem_iff_getElem.mp hf
    have hcell := hcells i j hi ((h _ hrow).1 ▸ hj)
    rw [List.getElem?_eq_getElem hj] at hcell
    obtain ⟨stored, hstored, hfield⟩ := Option.bind_eq_some_iff.mp hcell
    exact field_ne_nil (List.mem_of_getElem? hstored) (List.mem_of_getElem? hfield)
  · intro hboth
    obtain ⟨hne, hlen⟩ := hboth
    refine ⟨_, (loadFromMemory_fresh_eq_ok d 0 _ _).mpr ⟨hlen, hfits, rfl⟩, ?_⟩
    have hsame : (rows.map (·.filter (· ≠ []))).filter (· ≠ []) = rows := by
      have hrow : ∀ row ∈ rows, row.filter (· ≠ []) = row := by
        intro row hrow
        apply List.filter_eq_self.mpr
        intro field hf
        simpa using hne row hrow field hf
      rw [List.map_congr_left hrow, List.map_id', List.filter_eq_self]
      intro row hrow
      simpa using (hfree row hrow).1
    intro i j hi hj
    have hrows : (ofTable d 0 (table d (textOf d rows))).rowsDeque = rows := htable.trans hsame
    rw [hrows, List.getElem?_eq_getElem hi]
    rfl

theorem keepsColumns_iff_full :
    KeepsColumns 44 2 [[[49], [50]], [[51], [52]]] ↔
      (∀ row ∈ ([[[49], [50]], [[51], [52]]] : List Row), ∀ field ∈ row, field ≠ []) ∧
        (textOf 44 [[[49], [50]], [[51], [52]]]).length ≤ 2^32 - 2048 :=
  keepsColumns_iff (by decide) (le_refl 2) (by simp [FreeRows, lf, cr])

/-- The first field of the row is empty, so the second one is stored in its column. -/
theorem keepsColumns_empty_fails : ¬KeepsColumns 44 2 [[[], [50]]] := by
  intro h
  obtain ⟨csv, hload, hcells⟩ := h
  obtain rfl : (⟨44, 1, 1, [[[50]]]⟩ : CSV) = csv := Except.ok.inj hload
  exact absurd (hcells 0 0 (by decide) (by decide)) (by decide)

end Boostander.Algo.CSV
