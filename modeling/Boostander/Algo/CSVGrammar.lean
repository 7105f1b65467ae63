import Boostander.Algo.CSV
import Boostander.Library.Segments

/-! The language the parser accepts, stated without its loop, and the proof that
`parseData` computes it from every CSV state and for every split into blocks. -/
namespace Boostander.Algo.CSV
open Library.Segments

/-- A byte that ends a field. -/
def isSeparator (d c : Byte) : Bool := c == d || c == lf || c == cr

/-- A byte that ends a row: CR or LF, unless it is the delimiter. -/
def isRowEnd (d c : Byte) : Bool := (c == lf || c == cr) && c != d

/-- The non-empty runs between separators. -/
def fieldsOf (d : Byte) (piece : Bytes) : Row :=
  (piece.splitOnP (isSeparator d)).filter (· ≠ [])

/-- The table of a text: cut after each row end, drop the unterminated rest,
split every piece into its fields and drop the pieces without any. -/
def table (d : Byte) (s : Bytes) : List Row :=
  ((cutAfter (isRowEnd d) s).map (fieldsOf d)).filter (· ≠ [])

/-- No maximal separator-free run is longer than the field buffer. -/
def FitsBuffer (d : Byte) (s : Bytes) : Prop :=
  ∀ run ∈ s.splitOnP (isSeparator d), run.length ≤ maxFieldSize

instance (d : Byte) (s : Bytes) : Decidable (FitsBuffer d s) :=
  inferInstanceAs (Decidable (∀ run ∈ s.splitOnP (isSeparator d), run.length ≤ maxFieldSize))

/-- The rows committed when each row starts with `n` empty strings. -/
def committed (n : Nat) (d : Byte) (s : Bytes) : List Row :=
  ((cutAfter (isRowEnd d) s).map (fun piece => emptyRow n ++ fieldsOf d piece)).filter (· ≠ [])

/-- `k` rows overwritten from the front, with the slots pushed for them. -/
def overwrite (old rows : List Row) (slots : Nat) : List Row :=
  rows ++ (old ++ List.replicate slots []).drop rows.length

/-- The parser's locals after the text `s`, in terms of the text alone. -/
def stateAfter (csv : CSV) (s : Bytes) : ParseState :=
  let d := csv.delimiter
  let rows := committed csv.rowsCount d s
  { curField := openRun (isSeparator d) s
    rw := emptyRow csv.rowsCount ++
      (closedRuns (isSeparator d) (openTail (isRowEnd d) s)).filter (· ≠ [])
    rowsDeque := overwrite csv.rowsDeque rows (rows.length + 1)
    curCol := rows.length }

/-- The rows a load of the text commits can be counted by the `int` that is their index. -/
def RowsFit (csv : CSV) (s : Bytes) : Prop := (committed csv.rowsCount csv.delimiter s).length < 2^31

instance (csv : CSV) (s : Bytes) : Decidable (RowsFit csv s) :=
  inferInstanceAs (Decidable ((committed csv.rowsCount csv.delimiter s).length < 2^31))

/-- The lines that end after the first `n` bytes of a text. -/
def linesAfter (d : Byte) (n : Nat) (s : Bytes) : List Bytes :=
  cutAfter (isRowEnd d) (openTail (isRowEnd d) (s.take n) ++ s.drop n)

theorem table_append (d : Byte) (s t : Bytes) :
    table d (s ++ t) = table d s ++ table d (openTail (isRowEnd d) s ++ t) := by
  simp only [table, cutAfter_append s t, List.map_append, List.filter_append]

theorem table_eq_nil_iff (d : Byte) (s : Bytes) :
    table d s = [] ↔ ∀ line ∈ cutAfter (isRowEnd d) s, fieldsOf d line = [] := by
  simp [table, List.filter_eq_nil_iff]

/-- A text and its beginning have the same rows exactly if the lines that end later are blank. -/
theorem table_take_iff (d : Byte) (n : Nat) (s : Bytes) :
    table d (s.take n) = table d s ↔ ∀ line ∈ linesAfter d n s, fieldsOf d line = [] := by
  have hsplit := table_append d (s.take n) (s.drop n)
  rw [List.take_append_drop] at hsplit
  rw [hsplit, List.self_eq_append_right, table_eq_nil_iff]
  rfl

theorem committed_zero (d : Byte) (s : Bytes) : committed 0 d s = table d s := by
  simp [committed, table, emptyRow]

theorem isSeparator_of_isRowEnd {d c : Byte} (h : isRowEnd d c = true) :
    isSeparator d c = true := by
  simp only [isRowEnd, Bool.and_eq_true] at h
  simp only [isSeparator, Bool.or_assoc, Bool.or_eq_true] at h ⊢
  exact .inr (by simpa using h.1)

private theorem isRowEnd_iff {d c : Byte} (h : isSeparator d c = true) :
    isRowEnd d c = true ↔ c ≠ d := by
  simp only [isSeparator, isRowEnd, Bool.or_eq_true, beq_iff_eq, Bool.and_eq_true, bne_iff_ne] at h ⊢
  tauto

private theorem not_separator_iff {d c : Byte} :
    (c ≠ d ∧ c ≠ lf ∧ c ≠ cr) ↔ isSeparator d c = false := by
  simp [isSeparator, and_assoc]

theorem fitsBuffer_concat_separator (d : Byte) (s : Bytes) {c : Byte} (h : isSeparator d c = true) :
    FitsBuffer d (s ++ [c]) ↔ FitsBuffer d s := by
  simp only [FitsBuffer, splitOnP_eq_runs, closedRuns_concat_marked s h, openRun_concat_marked s h]
  simp [or_imp, forall_and]

theorem fitsBuffer_concat (d : Byte) (s : Bytes) {c : Byte} (h : isSeparator d c = false) :
    FitsBuffer d (s ++ [c]) ↔
      FitsBuffer d s ∧ (openRun (isSeparator d) s).length < maxFieldSize := by
  simp only [FitsBuffer, splitOnP_eq_runs, closedRuns_concat s h, openRun_concat s h,
    List.mem_append, List.mem_singleton, or_imp, forall_and, forall_eq, List.length_append]
  simp only [List.length_singleton]
  constructor
  · rintro ⟨h₁, h₂⟩
    exact ⟨⟨h₁, by omega⟩, by omega⟩
  · rintro ⟨⟨h₁, _⟩, h₂⟩
    exact ⟨h₁, by omega⟩

theorem committed_concat_rowEnd (n : Nat) (d : Byte) (s : Bytes) {c : Byte}
    (h : isRowEnd d c = true) :
    committed n d (s ++ [c]) =
      committed n d s ++
        [emptyRow n ++ fieldsOf d (openTail (isRowEnd d) s ++ [c])].filter (· ≠ []) := by
  simp only [committed, cutAfter_concat, h, if_true, List.map_append, List.filter_append,
    List.map_singleton]

private theorem committed_concat (n : Nat) (d : Byte) (s : Bytes) {c : Byte}
    (h : isRowEnd d c = false) : committed n d (s ++ [c]) = committed n d s := by
  simp [committed, cutAfter_concat, h]

private theorem fieldsOf_concat_separator (d : Byte) (piece : Bytes) {c : Byte}
    (h : isSeparator d c = true) :
    fieldsOf d (piece ++ [c]) =
      (closedRuns (isSeparator d) piece).filter (· ≠ []) ++
        [openRun (isSeparator d) piece].filter (· ≠ []) := by
  rw [fieldsOf, splitOnP_eq_runs, closedRuns_concat_marked piece h, openRun_concat_marked piece h]
  simp [List.filter_cons]

private theorem fieldsOf_ended (d : Byte) (piece : Bytes) {c : Byte} (h : isSeparator d c = true) :
    fieldsOf d (piece ++ [c]) = fieldsOf d piece := by
  rw [fieldsOf_concat_separator d piece h, ← List.filter_append, ← splitOnP_eq_runs]
  rfl

theorem fieldsOf_concat_ne_nil (d : Byte) (piece : Bytes) {c : Byte} (h : isSeparator d c = false) :
    fieldsOf d (piece ++ [c]) ≠ [] := by
  rw [fieldsOf, splitOnP_eq_runs, openRun_concat piece h, List.filter_append]
  simp

private theorem fieldsOf_ne_nil_of_mem {d : Byte} {piece : Bytes} {c : Byte} (hc : c ∈ piece)
    (h : isSeparator d c = false) : fieldsOf d piece ≠ [] := by
  induction piece using List.reverseRecOn with
  | nil => exact absurd hc List.not_mem_nil
  | append_singleton piece a ih =>
    cases ha : isSeparator d a with
    | false => exact fieldsOf_concat_ne_nil d piece ha
    | true =>
      rw [fieldsOf_ended d piece ha]
      rcases List.mem_append.mp hc with hc | hc
      · exact ih hc
      · rw [List.mem_singleton.mp hc, ha] at h
        cases h

theorem openRun_of_blank {d : Byte} {s : Bytes} (h : fieldsOf d (openTail (isRowEnd d) s) = []) :
    openRun (isSeparator d) s = [] := by
  rw [fieldsOf, splitOnP_eq_runs, openRun_openTail (fun c => isSeparator_of_isRowEnd)] at h
  by_contra hne
  simp [hne] at h

theorem table_concat_rowEnd (d : Byte) (s : Bytes) {c : Byte} (h : isRowEnd d c = true) :
    table d (s ++ [c]) = table d s ++ [fieldsOf d (openTail (isRowEnd d) s)].filter (· ≠ []) := by
  rw [← fieldsOf_ended d _ (isSeparator_of_isRowEnd h)]
  simp only [table, cutAfter_concat, h, if_true, List.map_append, List.filter_append,
    List.map_singleton]

theorem table_concat (d : Byte) (s : Bytes) {c : Byte} (h : isRowEnd d c = false) :
    table d (s ++ [c]) = table d s := by
  simp [table, cutAfter_concat, h]

/-- Behind a byte of a field, the first row end closes a line that is not blank. -/
theorem table_eq_nil_of_field {d : Byte} {piece : Bytes} {c : Byte} (hc : c ∈ piece)
    (hfield : isSeparator d c = false) (hpiece : ∀ b ∈ piece, isRowEnd d b = false) (t : Bytes) :
    table d (piece ++ t) = [] ↔ ∀ b ∈ t, isRowEnd d b = false := by
  induction t using List.reverseRecOn with
  | nil =>
    rw [List.append_nil, table_eq_nil_iff, cutAfter_eq_nil_iff.mpr hpiece]
    simp
  | append_singleton t a ih =>
    rw [← List.append_assoc]
    cases ha : isRowEnd d a with
    | false =>
      rw [table_concat d _ ha, ih, List.forall_mem_append]
      simp [ha]
    | true =>
      refine iff_of_false ?_ fun hall => absurd ((hall a (by simp)).symm.trans ha) (by decide)
      rw [table_concat_rowEnd d _ ha]
      intro hnil
      obtain ⟨hrows, hline⟩ := List.append_eq_nil_iff.mp hnil
      rw [openTail_eq_self (List.forall_mem_append.mpr ⟨hpiece, ih.mp hrows⟩)] at hline
      have hne := fieldsOf_ne_nil_of_mem (List.mem_append_left t hc) hfield
      simp [hne] at hline

theorem fitsBuffer_of_append (d : Byte) {s t : Bytes} (h : FitsBuffer d (s ++ t)) : FitsBuffer d s := by
  induction t using List.reverseRecOn with
  | nil => simpa using h
  | append_singleton t c ih =>
    rw [← List.append_assoc] at h
    cases hc : isSeparator d c with
    | true => exact ih ((fitsBuffer_concat_separator d _ hc).mp h)
    | false => exact ih ((fitsBuffer_concat d _ hc).mp h).1

private theorem parseByte_field (csv : CSV) (s : Bytes) {c : Byte}
    (h : isSeparator csv.delimiter c = false)
    (hroom : (openRun (isSeparator csv.delimiter) s).length < maxFieldSize) :
    parseByte csv.delimiter csv.rowsCount (stateAfter csv s) c = .ok (stateAfter csv (s ++ [c])) := by
  have hend : isRowEnd csv.delimiter c = false := by
    cases hc : isRowEnd csv.delimiter c with
    | false => rfl
    | true => simp [isSeparator_of_isRowEnd hc] at h
  rw [parseByte, if_pos (not_separator_iff.mpr h),
    if_pos (show (stateAfter csv s).curField.length < maxFieldSize from hroom)]
  simp only [stateAfter, committed_concat _ _ s hend, openRun_concat s h,
    openTail_concat s hend, closedRuns_concat _ h]

private theorem parseByte_overflow (csv : CSV) (s : Bytes) {c : Byte}
    (h : isSeparator csv.delimiter c = false)
    (hfull : ¬ (openRun (isSeparator csv.delimiter) s).length < maxFieldSize) :
    parseByte csv.delimiter csv.rowsCount (stateAfter csv s) c = .error .fieldOverflow := by
  rw [parseByte, if_pos (not_separator_iff.mpr h),
    if_neg (show ¬ (stateAfter csv s).curField.length < maxFieldSize from hfull)]

private theorem newField_stateAfter (csv : CSV) (s : Bytes) {c : Byte}
    (h : isSeparator csv.delimiter c = true) :
    newField (stateAfter csv s) =
      { stateAfter csv s with
        curField := []
        rw := emptyRow csv.rowsCount ++
          fieldsOf csv.delimiter (openTail (isRowEnd csv.delimiter) s ++ [c]) } := by
  have hrun := openRun_openTail (fun c => isSeparator_of_isRowEnd (d := csv.delimiter) (c := c)) s
  rw [fieldsOf_concat_separator _ _ h, hrun, newField]
  by_cases ho : openRun (isSeparator csv.delimiter) s = []
  · simp [stateAfter, ho]
  · rw [if_pos (show (stateAfter csv s).curField.length > 0 from List.length_pos_iff.mpr ho)]
    simp [stateAfter, ho]

private theorem parseByte_delimiter (csv : CSV) (s : Bytes) :
    parseByte csv.delimiter csv.rowsCount (stateAfter csv s) csv.delimiter =
      .ok (stateAfter csv (s ++ [csv.delimiter])) := by
  have hsep : isSeparator csv.delimiter csv.delimiter = true := by simp [isSeparator]
  have hend : isRowEnd csv.delimiter csv.delimiter = false := by simp [isRowEnd]
  have hrun := openRun_openTail (fun c => isSeparator_of_isRowEnd (d := csv.delimiter) (c := c)) s
  rw [parseByte, if_neg (by simp), if_neg (by simp), newField_stateAfter csv s hsep,
    fieldsOf_concat_separator _ _ hsep]
  simp only [stateAfter, committed_concat _ _ s hend, openRun_concat_marked s hsep,
    openTail_concat s hend, closedRuns_concat_marked _ hsep, List.filter_append]

private theorem overwrite_commit (old rows : List Row) (row : Row) :
    (overwrite old rows (rows.length + 1) ++ [[]]).set rows.length row =
      overwrite old (rows ++ [row]) ((rows ++ [row]).length + 1) := by
  have hlen : rows.length < (old ++ List.replicate (rows.length + 1) ([] : Row)).length := by
    simp only [List.length_append, List.length_replicate]
    omega
  rw [overwrite, List.drop_eq_getElem_cons hlen, List.append_assoc, List.cons_append,
    List.set_append_right _ _ (le_refl _), Nat.sub_self, List.set_cons_zero, overwrite]
  simp only [List.length_append, List.length_singleton, List.append_assoc, List.singleton_append]
  congr 2
  rw [List.replicate_succ' (n := rows.length + 1), ← List.append_assoc]
  exact (List.drop_append_of_le_length hlen).symm

private theorem newRow_commit (n : Nat) {st : ParseState} (hrow : st.rw ≠ [])
    (hindex : st.curCol + 1 < 2^31) :
    newRow n st = .ok { st with
      rowsDeque := (st.rowsDeque ++ [[]]).set st.curCol st.rw
      curCol := st.curCol + 1
      rw := emptyRow n } := by
  rw [newRow, if_pos (List.length_pos_iff.mpr hrow), if_pos hindex]

private theorem newRow_blank (n : Nat) {st : ParseState} (hrow : st.rw = []) :
    newRow n st = .ok st := by
  rw [newRow, if_neg (by simp [hrow])]

private theorem newRow_overflow (n : Nat) {st : ParseState} (hrow : st.rw ≠ [])
    (hindex : ¬st.curCol + 1 < 2^31) : newRow n st = .error .intOverflow := by
  rw [newRow, if_pos (List.length_pos_iff.mpr hrow), if_neg hindex]

private theorem parseByte_rowEnd (csv : CSV) (s : Bytes) {c : Byte}
    (h : isRowEnd csv.delimiter c = true) (hrows : RowsFit csv (s ++ [c])) :
    parseByte csv.delimiter csv.rowsCount (stateAfter csv s) c = .ok (stateAfter csv (s ++ [c])) := by
  have hsep := isSeparator_of_isRowEnd h
  have hne : c ≠ csv.delimiter := (isRowEnd_iff hsep).mp h
  rw [parseByte, if_neg (by rw [not_separator_iff, hsep]; simp), if_pos hne,
    newField_stateAfter csv s hsep]
  generalize hrow : emptyRow csv.rowsCount ++
    fieldsOf csv.delimiter (openTail (isRowEnd csv.delimiter) s ++ [c]) = row
  have hcommit := committed_concat_rowEnd csv.rowsCount csv.delimiter s h
  rw [hrow] at hcommit
  by_cases hr : row = []
  · have hz : emptyRow csv.rowsCount = [] := (List.append_eq_nil_iff.mp (hrow.trans hr)).1
    rw [newRow_blank _ hr]
    simp [stateAfter, hcommit, openRun_concat_marked s hsep, openTail_concat_marked s h, hr, hz]
  · have hindex : (committed csv.rowsCount csv.delimiter s).length + 1 < 2^31 := by
      simpa [RowsFit, hcommit, hr] using hrows
    rw [newRow_commit _ hr hindex]
    simp [stateAfter, hcommit, openRun_concat_marked s hsep, openTail_concat_marked s h, hr,
      overwrite_commit]

private theorem rowsFit_of_concat {csv : CSV} {s : Bytes} {c : Byte} (h : RowsFit csv (s ++ [c])) :
    RowsFit csv s := by
  unfold RowsFit at *
  cases hc : isRowEnd csv.delimiter c with
  | false => rwa [committed_concat _ _ s hc] at h
  | true =>
    rw [committed_concat_rowEnd _ _ s hc, List.length_append] at h
    omega

private theorem parseByte_intOverflow (csv : CSV) (s : Bytes) {c : Byte} (hrows : RowsFit csv s)
    (hmany : ¬RowsFit csv (s ++ [c])) :
    parseByte csv.delimiter csv.rowsCount (stateAfter csv s) c = .error .intOverflow := by
  unfold RowsFit at hrows hmany
  cases hend : isRowEnd csv.delimiter c with
  | false => exact absurd hrows (by rwa [committed_concat _ _ s hend] at hmany)
  | true =>
    have hsep := isSeparator_of_isRowEnd hend
    have hne : c ≠ csv.delimiter := (isRowEnd_iff hsep).mp hend
    rw [committed_concat_rowEnd _ _ s hend, List.length_append] at hmany
    rw [parseByte, if_neg (by rw [not_separator_iff, hsep]; simp), if_pos hne,
      newField_stateAfter csv s hsep]
    generalize emptyRow csv.rowsCount ++
      fieldsOf csv.delimiter (openTail (isRowEnd csv.delimiter) s ++ [c]) = row at hmany ⊢
    have hr : row ≠ [] := by
      rintro rfl
      exact hmany hrows
    have hindex : ¬(committed csv.rowsCount csv.delimiter s).length + 1 < 2^31 := by
      simpa [hr] using hmany
    exact newRow_overflow _ hr hindex

private theorem stateAfter_nil (csv : CSV) : stateAfter csv [] = parseStart csv := by
  simp [stateAfter, parseStart, committed, cutAfter, overwrite]

private theorem fitsBuffer_nil (d : Byte) : FitsBuffer d [] := by
  simp [FitsBuffer]

private theorem foldlM_one (d : Byte) (n : Nat) (st : ParseState) (c : Byte) :
    [c].foldlM (parseByte d n) st = parseByte d n st c := by
  simp only [List.foldlM_cons, List.foldlM_nil, bind_pure]

/-- The inner loop over a whole text whose rows can be counted: it overruns the buffer
exactly when the text does not fit it, and otherwise ends in the state the text determines. -/
theorem foldlM_parseByte (csv : CSV) (s : Bytes) (hrows : RowsFit csv s) :
    s.foldlM (parseByte csv.delimiter csv.rowsCount) (parseStart csv) =
      if FitsBuffer csv.delimiter s then .ok (stateAfter csv s) else .error .fieldOverflow := by
  induction s using List.reverseRecOn with
  | nil =>
    rw [if_pos (fitsBuffer_nil _), stateAfter_nil]
    rfl
  | append_singleton s c ih =>
    have hone := foldlM_one csv.delimiter csv.rowsCount (stateAfter csv s) c
    rw [List.foldlM_append, ih (rowsFit_of_concat hrows)]
    cases hsep : isSeparator csv.delimiter c with
    | true =>
      rw [if_congr (fitsBuffer_concat_separator _ s hsep) rfl rfl]
      split
      · apply hone.trans
        by_cases hc : c = csv.delimiter
        · rw [hc]
          exact parseByte_delimiter csv s
        · exact parseByte_rowEnd csv s ((isRowEnd_iff hsep).mpr hc) hrows
      · rfl
    | false =>
      rw [if_congr (fitsBuffer_concat _ s hsep) rfl rfl]
      by_cases hfit : FitsBuffer csv.delimiter s
      · rw [if_pos hfit]
        apply hone.trans
        by_cases hroom : (openRun (isSeparator csv.delimiter) s).length < maxFieldSize
        · rw [if_pos ⟨hfit, hroom⟩]
          exact parseByte_field csv s hsep hroom
        · rw [if_neg (fun h => hroom h.2)]
          exact parseByte_overflow csv s hsep hroom
      · rw [if_neg hfit, if_neg (fun h => hfit h.1)]
        rfl

private theorem foldlM_parseByte_of_not_rowsFit (csv : CSV) {s : Bytes} (hmany : ¬RowsFit csv s) :
    ∃ f, s.foldlM (parseByte csv.delimiter csv.rowsCount) (parseStart csv) = .error f := by
  induction s using List.reverseRecOn with
  | nil => exact absurd (by decide : 0 < 2^31) hmany
  | append_singleton s c ih =>
    rw [List.foldlM_append]
    by_cases hrows : RowsFit csv s
    · rw [foldlM_parseByte csv s hrows]
      split
      · exact ⟨_, (foldlM_one _ _ _ c).trans (parseByte_intOverflow csv s hrows hmany)⟩
      · exact ⟨_, rfl⟩
    · obtain ⟨f, hf⟩ := ih hrows
      exact ⟨f, by rw [hf]; rfl⟩

private theorem foldlM_parseBlock (d : Byte) (n : Nat) (st : ParseState) (blocks : List Bytes) :
    blocks.foldlM (parseBlock d n) st = (blocks.flatMap blockBytes).foldlM (parseByte d n) st := by
  induction blocks generalizing st with
  | nil => rfl
  | cons str blocks ih =>
    rw [List.foldlM_cons, List.flatMap_cons, List.foldlM_append]
    exact bind_congr ih

/-- The CSV that loading the text `s` leaves. -/
def loaded (csv : CSV) (s : Bytes) : CSV := parseFinish csv (stateAfter csv s)

theorem parseData_eq (csv : CSV) (blocks : List Bytes) :
    parseData csv blocks =
      ((blocks.flatMap blockBytes).foldlM (parseByte csv.delimiter csv.rowsCount) (parseStart csv)).map
        (parseFinish csv) := by
  rw [parseData, foldlM_parseBlock]

/-- A text is parsed to its end exactly if its fields fit the buffer and its rows the index. -/
theorem parseData_eq_ok (csv csv' : CSV) (blocks : List Bytes) :
    parseData csv blocks = .ok csv' ↔
      FitsBuffer csv.delimiter (blocks.flatMap blockBytes) ∧
        RowsFit csv (blocks.flatMap blockBytes) ∧ loaded csv (blocks.flatMap blockBytes) = csv' := by
  rw [parseData_eq]
  by_cases hrows : RowsFit csv (blocks.flatMap blockBytes)
  · rw [foldlM_parseByte csv _ hrows]
    by_cases hfit : FitsBuffer csv.delimiter (blocks.flatMap blockBytes)
    · simp [hfit, hrows, loaded, Except.map]
    · simp [hfit, Except.map]
  · obtain ⟨f, hf⟩ := foldlM_parseByte_of_not_rowsFit csv hrows
    simp [hf, hrows, Except.map]

end Boostander.Algo.CSV
