import Boostander.Algo.CSVLoad
import Boostander.Library.IndexLoop

/-! Writing a table with `saveToFile` and loading the bytes written. The writer
ends no row with a line end of its own after the last one, and the parser keeps
no row without a line end. -/
namespace Boostander.Algo.CSV
open Library Library.Segments

def joinRow (d : Byte) (row : Row) : Bytes := [d].intercalate row

private theorem foldlM_saveField (csv : CSV) {row : Row} (hrow : row.length = csv.colsCount)
    (out : Bytes) :
    (List.range csv.colsCount).foldlM (csv.saveField row) out =
      .ok (out ++ joinRow csv.delimiter row) := by
  have happ : IndexLoop.Appends (csv.saveField row) [csv.delimiter] row := by
    intro out j hj
    simp only [saveField, List.getElem?_eq_getElem hj, hrow]
  rw [← hrow]
  exact IndexLoop.foldlM_range happ out

private theorem saveToFile_eq (csv : CSV) (hrect : ∀ row ∈ csv.rowsDeque, row.length = csv.colsCount)
    (hcols : 0 < csv.colsCount) (hrows : 0 < csv.rowsCount)
    (hcount : csv.rowsCount ≤ csv.rowsDeque.length) :
    csv.saveToFile true =
      .ok ([lf].intercalate ((csv.rowsDeque.take csv.rowsCount).map (joinRow csv.delimiter))) := by
  have hlen : ((csv.rowsDeque.take csv.rowsCount).map (joinRow csv.delimiter)).length = csv.rowsCount := by
    simp [hcount]
  have happ : IndexLoop.Appends csv.saveRow [lf]
      ((csv.rowsDeque.take csv.rowsCount).map (joinRow csv.delimiter)) := by
    intro out i hi
    have hi' : i < csv.rowsDeque.length := by omega
    have hsave := foldlM_saveField csv (hrect _ (List.getElem_mem hi')) out
    rw [hlen]
    simp only [saveRow, List.getElem?_eq_getElem hi', hsave, List.getElem_map, List.getElem_take]
    rfl
  have hloop := IndexLoop.foldlM_range happ []
  rw [hlen] at hloop
  rw [saveToFile, if_neg (by omega), if_neg (by omega)]
  simpa using hloop

/-- A table that the format can hold: at least one row and one column, no
ragged row, and no field that is empty, too long or holds a separator. -/
structure PlainTable where
  delimiter : Byte
  cols : Nat
  rows : List Row
  delimiter_plain : delimiter ≠ cr ∧ delimiter ≠ lf
  rows_nonempty : rows ≠ []
  cols_pos : 0 < cols
  rectangular : ∀ row ∈ rows, row.length = cols
  fields_plain : ∀ row ∈ rows, ∀ field ∈ row, field ≠ [] ∧ field.length ≤ 1024 ∧
    ∀ c ∈ field, c ≠ delimiter ∧ c ≠ lf ∧ c ≠ cr

/-- Saving `csv` and loading the bytes written into a fresh CSV with the same
delimiter gives back `rows`, with the counts that belong to them. -/
def SaveLoads (csv : CSV) (rows : List Row) (cols : Nat) : Prop :=
  ∃ bytes csv', csv.saveToFile true = .ok bytes ∧
    loadFromMemory ⟨csv.delimiter, 0, 0, []⟩ bytes = .ok csv' ∧
    csv'.rowsDeque = rows ∧ csv'.rowsCount = rows.length ∧ csv'.colsCount = cols

section Lines
variable {d : Byte}

/-- A row whose fields the format can hold. -/
def PlainRow (d : Byte) (row : Row) : Prop :=
  row ≠ [] ∧ ∀ field ∈ row, field ≠ [] ∧ field.length ≤ 1024 ∧ ∀ c ∈ field, isSeparator d c = false

/-- A row whose fields hold no separator and are short enough; they may be empty. -/
def FreeRow (d : Byte) (row : Row) : Prop :=
  row ≠ [] ∧ ∀ field ∈ row, field.length ≤ 1024 ∧ ∀ c ∈ field, isSeparator d c = false

private theorem PlainRow.free {row : Row} (h : PlainRow d row) : FreeRow d row :=
  ⟨h.1, fun field hf => (h.2 field hf).2⟩

private theorem splitOnP_joinRow {row : Row} (h : FreeRow d row) :
    (joinRow d row).splitOnP (isSeparator d) = row :=
  splitOnP_intercalate (by simp [isSeparator]) h.1 (fun f hf => (h.2 f hf).2)

private theorem isRowEnd_joinRow {row : Row} (h : FreeRow d row) :
    ∀ c ∈ joinRow d row, isRowEnd d c = false := by
  intro c hc
  rcases IndexLoop.mem_of_mem_intercalate hc with rfl | ⟨field, hf, hc⟩
  · simp [isRowEnd]
  · have hfree := (h.2 field hf).2 c hc
    simp only [isSeparator, isRowEnd, Bool.or_eq_false_iff, Bool.and_eq_false_iff] at hfree ⊢
    exact .inl ⟨hfree.1.2, hfree.2⟩

private theorem isRowEnd_lf (hd : d ≠ lf) : isRowEnd d lf = true := by
  simp [isRowEnd, hd.symm]

theorem isSeparator_lf : isSeparator d lf = true := by
  simp [isSeparator]

private theorem fieldsOf_line {row : Row} (h : FreeRow d row) :
    fieldsOf d (joinRow d row ++ [lf]) = row.filter (· ≠ []) := by
  rw [fieldsOf, List.splitOnP_append_cons _ _ isSeparator_lf, splitOnP_joinRow h,
    List.filter_append]
  simp

theorem table_freeLine (hd : d ≠ lf) {row : Row} (h : FreeRow d row) (rest : Bytes) :
    table d (joinRow d row ++ lf :: rest) =
      [row.filter (· ≠ [])].filter (· ≠ []) ++ table d rest := by
  rw [table, cutAfter_append_cons (isRowEnd_joinRow h) (isRowEnd_lf hd), List.map_cons,
    fieldsOf_line h, ← List.singleton_append, List.filter_append]
  rfl

private theorem table_line (hd : d ≠ lf) {row : Row} (h : PlainRow d row) (rest : Bytes) :
    table d (joinRow d row ++ lf :: rest) = row :: table d rest := by
  have hfields : row.filter (· ≠ []) = row := by
    apply List.filter_eq_self.mpr
    intro field hf
    simpa using (h.2 field hf).1
  rw [table_freeLine hd h.free, hfields, List.filter_cons_of_pos (by simpa using h.1)]
  rfl

private theorem table_blank (hd : d ≠ lf) (rest : Bytes) : table d (lf :: rest) = table d rest := by
  have hcut := cutAfter_append_cons (l := []) (by simp) (isRowEnd_lf hd) rest
  rw [List.nil_append] at hcut
  rw [table, hcut, List.map_cons, List.filter_cons_of_neg]
  · rfl
  · have hnil : fieldsOf d ([] ++ [lf]) = [] := by
      rw [fieldsOf, List.splitOnP_append_cons _ _ isSeparator_lf]
      simp
    simpa using hnil

private theorem table_unterminated {row : Row} (h : PlainRow d row) :
    table d (joinRow d row) = [] := by
  rw [table, cutAfter_eq_nil_iff.mpr (isRowEnd_joinRow h.free)]
  rfl

theorem fitsBuffer_append_cons (s t : Bytes) {c : Byte} (h : isSeparator d c = true) :
    FitsBuffer d (s ++ c :: t) ↔ FitsBuffer d s ∧ FitsBuffer d t := by
  simp only [FitsBuffer, List.splitOnP_append_cons s t h, List.mem_append, or_imp, forall_and]

theorem fitsBuffer_joinRow {row : Row} (h : FreeRow d row) : FitsBuffer d (joinRow d row) := by
  intro run hrun
  rw [splitOnP_joinRow h] at hrun
  exact (h.2 run hrun).1

private theorem table_joined (hd : d ≠ lf) {rows : List Row} (h : ∀ row ∈ rows, PlainRow d row) :
    table d ([lf].intercalate (rows.map (joinRow d))) = rows.dropLast ∧
      FitsBuffer d ([lf].intercalate (rows.map (joinRow d))) := by
  induction rows with
  | nil => exact ⟨rfl, by simp [FitsBuffer]⟩
  | cons row rows ih =>
    have hrow := h row (by simp)
    have ih := ih (fun r hr => h r (List.mem_cons_of_mem _ hr))
    cases rows with
    | nil => simpa using ⟨table_unterminated hrow, fitsBuffer_joinRow hrow.free⟩
    | cons next rows =>
      rw [List.map_cons, List.intercalate_cons_of_ne_nil (by simp), List.append_assoc,
        List.singleton_append, table_line hd hrow, ih.1, fitsBuffer_append_cons _ _ isSeparator_lf]
      exact ⟨rfl, fitsBuffer_joinRow hrow.free, ih.2⟩

private theorem table_lines (hd : d ≠ lf) {rows : List Row} (h : ∀ row ∈ rows, PlainRow d row) :
    table d ([lf].intercalate (rows.map fun row => joinRow d row ++ [lf])) = rows ∧
      FitsBuffer d ([lf].intercalate (rows.map fun row => joinRow d row ++ [lf])) := by
  induction rows with
  | nil => exact ⟨rfl, by simp [FitsBuffer]⟩
  | cons row rows ih =>
    have hrow := h row (by simp)
    have ih := ih (fun r hr => h r (List.mem_cons_of_mem _ hr))
    cases rows with
    | nil =>
      rw [List.map_singleton, List.intercalate_singleton, table_line hd hrow,
        fitsBuffer_append_cons _ _ isSeparator_lf]
      exact ⟨rfl, fitsBuffer_joinRow hrow.free, by simp [FitsBuffer]⟩
    | cons next rows =>
      rw [List.map_cons, List.intercalate_cons_of_ne_nil (by simp), List.append_assoc,
        List.append_assoc, List.singleton_append, List.singleton_append,
        table_line hd hrow, table_blank hd, ih.1, fitsBuffer_append_cons _ _ isSeparator_lf]
      exact ⟨rfl, fitsBuffer_joinRow hrow.free,
        (fitsBuffer_append_cons [] _ isSeparator_lf).mpr ⟨by simp [FitsBuffer], ih.2⟩⟩

end Lines

namespace PlainTable
variable (t : PlainTable)

def toCSV : CSV := ⟨t.delimiter, t.rows.length, t.cols, t.rows⟩

private theorem plainRow {row : Row} (h : row ∈ t.rows) : PlainRow t.delimiter row := by
  refine ⟨?_, ?_⟩
  · rw [← List.length_pos_iff, t.rectangular row h]
    exact t.cols_pos
  · intro field hf
    obtain ⟨hne, hsize, hfree⟩ := t.fields_plain row h field hf
    exact ⟨hne, hsize, fun c hc => by simpa [isSeparator, and_assoc] using hfree c hc⟩

private theorem rows_length_pos : 0 < t.rows.length := List.length_pos_iff.mpr t.rows_nonempty

private theorem saveToFile_toCSV :
    t.toCSV.saveToFile true = .ok ([lf].intercalate (t.rows.map (joinRow t.delimiter))) := by
  rw [saveToFile_eq t.toCSV t.rectangular t.cols_pos t.rows_length_pos (Nat.le_refl _)]
  simp only [toCSV, List.take_length]

/-- No table comes back whole: the last row has no line end, so it is not read. -/
theorem saveLoads_never : ¬ SaveLoads t.toCSV t.rows t.cols := by
  rintro ⟨bytes, csv, hsave, hload, hrows, -⟩
  obtain rfl := Except.ok.inj (t.saveToFile_toCSV.symm.trans hsave)
  obtain ⟨-, -, rfl⟩ := (loadFromMemory_fresh_eq_ok _ _ _ _).mp hload
  have hlost := (table_joined t.delimiter_plain.2 (fun row => t.plainRow)).1.symm.trans hrows
  have hlen := congrArg List.length hlost
  have hpos := t.rows_length_pos
  rw [List.length_dropLast] at hlen
  omega

/-- The table of one row with the one field `a`. -/
def single : PlainTable where
  delimiter := 44
  cols := 1
  rows := [[[97]]]
  delimiter_plain := by decide
  rows_nonempty := List.cons_ne_nil _ _
  cols_pos := Nat.one_pos
  rectangular := by simp
  fields_plain := by simp [lf, cr]

/-- The single row is saved as the one byte `a`, and loading that gives no row. -/
theorem saveLoads_single_fails : ¬ SaveLoads single.toCSV single.rows single.cols := by
  rintro ⟨bytes, csv, hsave, hload, hrows, -⟩
  obtain rfl : [97] = bytes := Except.ok.inj hsave
  obtain rfl : ⟨44, 0, 0, []⟩ = csv := Except.ok.inj hload
  cases hrows

/-- A row with a line end appended to its last field. -/
def endLine (row : Row) : Row := row.dropLast ++ [row.getLastD [] ++ [lf]]

/-- The generator workflow: a CSV with the table's column count and no row is
filled by appending the rows, each with a line end in its last field. -/
def generated : CSV := (t.rows.map endLine).foldl appendRow ⟨t.delimiter, 0, t.cols, []⟩

/-- The size of the text the workflow writes: one byte after each field, and one
between the rows. -/
def generatedSize : Nat := (t.rows.map fun row => (row.map fun f => f.length + 1).sum + 1).sum - 1

private theorem foldl_appendRow (d : Byte) (cols : Nat) (done rows : List Row)
    (h : ∀ row ∈ rows, row.length = cols) :
    rows.foldl appendRow ⟨d, toUnsigned done.length, cols, done⟩ =
      ⟨d, toUnsigned (done ++ rows).length, cols, done ++ rows⟩ := by
  induction rows generalizing done with
  | nil => simp
  | cons row rows ih =>
    have hrest := ih (done ++ [row]) (fun r hr => h r (List.mem_cons_of_mem _ hr))
    rw [List.append_assoc, List.singleton_append] at hrest
    rw [List.foldl_cons, appendRow, if_neg (by simpa using h row (by simp))]
    exact hrest

private theorem length_endLine {row : Row} (h : row ≠ []) : (endLine row).length = row.length := by
  have hpos := List.length_pos_iff.mpr h
  simp only [endLine, List.length_append, List.length_dropLast, List.length_singleton]
  omega

private theorem generated_eq :
    t.generated = ⟨t.delimiter, toUnsigned t.rows.length, t.cols, t.rows.map endLine⟩ := by
  have hfill := foldl_appendRow t.delimiter t.cols [] (t.rows.map endLine) (by
    intro row hrow
    obtain ⟨r, hr, rfl⟩ := List.mem_map.mp hrow
    rw [length_endLine (t.plainRow hr).1, t.rectangular r hr])
  rw [List.nil_append, List.length_map] at hfill
  exact hfill

private theorem joinRow_endLine (d : Byte) {row : Row} (h : row ≠ []) :
    joinRow d (endLine row) = joinRow d row ++ [lf] := by
  induction row with
  | nil => exact absurd rfl h
  | cons field row ih =>
    cases row with
    | nil => simp [endLine, joinRow]
    | cons next row =>
      have hrest := ih (by simp)
      have hend : endLine (field :: next :: row) = field :: endLine (next :: row) := by
        simp [endLine]
      have hne : endLine (next :: row) ≠ [] := by simp [endLine]
      simp only [joinRow] at hrest ⊢
      rw [hend, List.intercalate_cons_of_ne_nil hne, hrest, List.intercalate_cons_cons,
        List.append_assoc _ _ [lf]]

def generatedText : Bytes := [lf].intercalate (t.rows.map fun row => joinRow t.delimiter row ++ [lf])

private theorem length_generatedText : t.generatedText.length = t.generatedSize := by
  have hlines : t.rows.map (fun row => joinRow t.delimiter row ++ [lf]) ≠ [] := by
    simpa using t.rows_nonempty
  have hrow : ∀ row ∈ t.rows, (joinRow t.delimiter row ++ [lf]).length =
      (row.map fun f => f.length + 1).sum := by
    intro row hr
    rw [List.length_append, List.length_singleton]
    exact IndexLoop.length_intercalate (t.plainRow hr).1
  have hsizes : (t.rows.map fun row => joinRow t.delimiter row ++ [lf]).map (fun l => l.length + 1) =
      t.rows.map fun row => (row.map fun f => f.length + 1).sum + 1 := by
    rw [List.map_map]
    exact List.map_congr_left fun row hr => congrArg (· + 1) (hrow row hr)
  have hlen := IndexLoop.length_intercalate (a := lf) hlines
  rw [hsizes] at hlen
  rw [generatedSize, ← hlen]
  rfl

private theorem saveToFile_generated (h : t.rows.length < 2^32) :
    t.generated.saveToFile true = .ok t.generatedText := by
  have hrect : ∀ row ∈ t.rows.map endLine, row.length = t.cols := by
    intro row hrow
    obtain ⟨r, hr, rfl⟩ := List.mem_map.mp hrow
    rw [length_endLine (t.plainRow hr).1, t.rectangular r hr]
  have hjoin : (t.rows.map endLine).map (joinRow t.delimiter) =
      t.rows.map fun row => joinRow t.delimiter row ++ [lf] := by
    rw [List.map_map]
    exact List.map_congr_left fun row hr => joinRow_endLine _ (t.plainRow hr).1
  rw [generated_eq, toUnsigned_of_lt h, saveToFile_eq _ hrect t.cols_pos t.rows_length_pos (by simp),
    List.take_of_length_le (by simp), hjoin, generatedText]

private theorem generatedSize_le (h : SaveLoads t.generated t.rows t.cols) :
    t.generatedSize ≤ maxLoadSize := by
  obtain ⟨bytes, csv, hsave, hload, -, hcount, -⟩ := h
  obtain ⟨hlen, -, rfl⟩ := (loadFromMemory_fresh_eq_ok _ _ _ _).mp hload
  have hbound : maxLoadSize < 2^32 := by decide
  have htable := length_table_le t.generated.delimiter bytes
  have hrows : t.rows.length < 2^32 := by
    change (table _ bytes).length = _ at hcount
    omega
  obtain rfl := Except.ok.inj ((t.saveToFile_generated hrows).symm.trans hsave)
  rw [← length_generatedText]
  exact hlen

private theorem rows_length_le : t.rows.length ≤ t.generatedSize + 1 := by
  have hle := List.length_le_sum_of_one_le
    (t.rows.map fun row => (row.map fun f => f.length + 1).sum + 1) (by simp)
  rw [List.length_map] at hle
  rw [generatedSize]
  omega

private theorem saveLoads_of_size_le (h : t.generatedSize ≤ maxLoadSize) :
    SaveLoads t.generated t.rows t.cols := by
  have hbound : maxLoadSize + 1 < 2^32 := by decide
  have hrows : t.rows.length < 2^32 := by have := t.rows_length_le; omega
  have hlen : t.generatedText.length ≤ maxLoadSize := by rwa [length_generatedText]
  obtain ⟨htable, hfit⟩ := table_lines t.delimiter_plain.2 (fun row => t.plainRow)
  change table t.delimiter t.generatedText = t.rows at htable
  change FitsBuffer t.delimiter t.generatedText at hfit
  have hload : loadFromMemory ⟨t.generated.delimiter, 0, 0, []⟩ t.generatedText =
      .ok (ofTable t.delimiter 0 (table t.delimiter t.generatedText)) := by
    rw [generated_eq]
    exact (loadFromMemory_fresh_eq_ok _ _ _ _).mpr ⟨hlen, hfit, rfl⟩
  refine ⟨t.generatedText, _, t.saveToFile_generated hrows, hload, ?_⟩
  rw [htable]
  refine ⟨rfl, rfl, ?_⟩
  obtain ⟨row, rest, hcons⟩ := List.exists_cons_of_ne_nil t.rows_nonempty
  change (if t.rows = [] then 0 else (t.rows.headD []).length) = t.cols
  rw [if_neg t.rows_nonempty, hcons]
  exact t.rectangular row (by simp [hcons])

/-- The generator workflow gives back the table, without the line ends it put
into the last fields, exactly when the text it writes can be loaded at all. -/
theorem saveLoads_generated_iff :
    SaveLoads t.generated t.rows t.cols ↔ t.generatedSize ≤ 2^32 - 2048 :=
  ⟨t.generatedSize_le, t.saveLoads_of_size_le⟩

/-- `m` rows of one field of `k` bytes. -/
def uniform (m k : Nat) (hm : 0 < m) (hk : 0 < k ∧ k ≤ 1024) : PlainTable where
  delimiter := 44
  cols := 1
  rows := List.replicate m [List.replicate k 97]
  delimiter_plain := by decide
  rows_nonempty := fun h => by simp [Nat.ne_of_gt hm] at h
  cols_pos := Nat.one_pos
  rectangular := by
    intro row hrow
    rw [List.eq_of_mem_replicate hrow]
    rfl
  fields_plain := by
    intro row hrow field hfield
    rw [List.eq_of_mem_replicate hrow] at hfield
    rw [List.mem_singleton.mp hfield, List.length_replicate]
    refine ⟨fun h => by simp [Nat.ne_of_gt hk.1] at h, hk.2, ?_⟩
    intro c hc
    rw [List.eq_of_mem_replicate hc]
    decide

private theorem generatedSize_uniform (m k : Nat) (hm : 0 < m) (hk : 0 < k ∧ k ≤ 1024) :
    (uniform m k hm hk).generatedSize = m * (k + 2) - 1 := by
  simp [generatedSize, uniform, List.map_replicate]

/-- Four million rows of one 1024-byte field, more than 4 GiB of text. -/
def huge : PlainTable := uniform (2^22) 1024 (Nat.two_pow_pos 22) (by decide)

/-- The text of the huge table is never loaded to the end. -/
theorem saveLoads_huge_fails : ¬ SaveLoads huge.generated huge.rows huge.cols := by
  intro h
  have hle := generatedSize_le _ h
  rw [huge, generatedSize_uniform, maxLoadSize, readBlockSize] at hle
  omega

end PlainTable
end Boostander.Algo.CSV
