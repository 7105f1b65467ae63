import Boostander.Algo.CSVGrammar

/-! Loading a text held in memory: the splitting loop with its wrapping index, the
stores into the field buffer, and the table a load leaves. -/
namespace Boostander.Algo.CSV
open Library.Segments

/-- The longest text whose splitting loop ends. -/
def maxLoadSize : Nat := 2^32 - readBlockSize

private theorem readBlocks_spec {data : Bytes} (hlen : data.length ≤ maxLoadSize) (fuel i : Nat)
    (hi : i < data.length + readBlockSize)
    (hfuel : data.length + readBlockSize ≤ i + fuel * readBlockSize) :
    ∃ blocks, readBlocks data fuel i = some blocks ∧ blocks.flatten = data.drop i ∧
      ∀ str ∈ blocks, str.length ≤ readBlockSize := by
  induction fuel generalizing i with
  | zero => omega
  | succ fuel ih =>
    rw [readBlocks]
    split
    · rename_i hin
      have hnext : toUnsigned (i + readBlockSize) = i + readBlockSize := by
        apply toUnsigned_of_lt
        simp only [maxLoadSize, readBlockSize] at *
        omega
      obtain ⟨blocks, hb, hflat, hsize⟩ := ih (i + readBlockSize) (by omega)
        (by rw [Nat.succ_mul] at hfuel; omega)
      refine ⟨(data.drop i).take readBlockSize :: blocks, by rw [hnext, hb]; rfl, ?_, ?_⟩
      · rw [List.flatten_cons, hflat, ← List.drop_drop, List.take_append_drop]
      · intro str hstr
        rcases List.mem_cons.mp hstr with rfl | hstr
        · exact List.length_take_le _ _
        · exact hsize str hstr
    · exact ⟨[], rfl, by rw [List.drop_eq_nil_of_le (by omega)]; rfl, by simp⟩

private theorem readBlocks_endless {data : Bytes} (hlen : maxLoadSize < data.length) (fuel i : Nat)
    (hdvd : readBlockSize ∣ i) (hi : i < 2^32) : readBlocks data fuel i = none := by
  induction fuel generalizing i with
  | zero => rfl
  | succ fuel ih =>
    obtain ⟨k, rfl⟩ := hdvd
    have hin : readBlockSize * k < data.length := by
      simp only [maxLoadSize, readBlockSize] at *
      omega
    have hnext : readBlockSize ∣ toUnsigned (readBlockSize * k + readBlockSize) :=
      (Nat.dvd_mod_iff (by decide)).mpr (Nat.dvd_add (Nat.dvd_mul_right _ _) (Nat.dvd_refl _))
    rw [readBlocks, if_pos hin, ih _ hnext (Nat.mod_lt _ (Nat.two_pow_pos 32))]
    rfl

private theorem readBlocks_indexCount {data : Bytes} (hlen : data.length ≤ maxLoadSize) :
    ∃ blocks, readBlocks data indexCount 0 = some blocks ∧ blocks.flatten = data ∧
      ∀ str ∈ blocks, str.length ≤ readBlockSize := by
  apply readBlocks_spec hlen indexCount 0
  · exact Nat.add_pos_right _ (by decide)
  · simp only [maxLoadSize, indexCount, readBlockSize] at *
    omega

/-- The splitting loop ends, and the blocks it has pushed are the text. -/
def Splits (data : Bytes) : Prop :=
  ∃ fuel blocks, readBlocks data fuel 0 = some blocks ∧ blocks.flatten = data

private theorem not_splits_of_long {data : Bytes} (hlong : maxLoadSize < data.length) :
    ¬ Splits data := by
  intro h
  obtain ⟨fuel, blocks, hread, -⟩ := h
  rw [readBlocks_endless hlong fuel 0 (Nat.dvd_zero _) (Nat.two_pow_pos 32)] at hread
  cases hread

/-- A text is split exactly if its length leaves room for one block below `2^32`. -/
theorem splits_iff (data : Bytes) : Splits data ↔ data.length ≤ 2^32 - 2048 := by
  constructor
  · intro h
    by_contra hlong
    exact not_splits_of_long (Nat.lt_of_not_le hlong) h
  · intro hlen
    obtain ⟨blocks, hread, hflat, -⟩ := readBlocks_indexCount hlen
    exact ⟨indexCount, blocks, hread, hflat⟩

/-- One byte more than that, and the index comes back to zero. -/
theorem splits_long_fails :
    (List.replicate (2^32 - 2047) (97 : Byte)).length < 2^63 ∧
      ¬ Splits (List.replicate (2^32 - 2047) 97) := by
  constructor
  · rw [List.length_replicate]
    norm_num
  · apply not_splits_of_long
    rw [List.length_replicate]
    decide

private theorem blockBytes_of_short {str : Bytes} (h : str.length < 2^31) : blockBytes str = str := by
  rw [blockBytes, toInt_of_lt h]
  simp

theorem flatMap_blockBytes {blocks : List Bytes} (h : ∀ str ∈ blocks, str.length < 2^31) :
    blocks.flatMap blockBytes = blocks.flatten := by
  rw [List.flatMap, List.map_congr_left (fun str hs => blockBytes_of_short (h str hs)), List.map_id']

/-- What loading a text does when it succeeds, from every CSV state. -/
theorem loadFromMemory_eq_ok (csv csv' : CSV) (data : Bytes) :
    loadFromMemory csv data = .ok csv' ↔
      data.length ≤ maxLoadSize ∧ FitsBuffer csv.delimiter data ∧ RowsFit csv data ∧
        loaded csv data = csv' := by
  rw [loadFromMemory]
  by_cases hlen : data.length ≤ maxLoadSize
  · obtain ⟨blocks, hb, hflat, hsize⟩ := readBlocks_indexCount hlen
    have hshort : ∀ str ∈ blocks, str.length < 2^31 :=
      fun str hs => (hsize str hs).trans_lt (by decide)
    simp only [hb, parseData_eq_ok, flatMap_blockBytes hshort, hflat, hlen, true_and]
  · rw [readBlocks_endless (by omega) _ _ (Nat.dvd_zero _) (Nat.two_pow_pos 32)]
    simp [hlen]

/-- The index of the store a byte makes into `cur_field`, if it makes one. -/
def storeIndex (d : Byte) (st : ParseState) (c : Byte) : Option Nat :=
  if c ≠ d ∧ c ≠ lf ∧ c ≠ cr then some st.curField.length else none

/-- The indices of all stores into `cur_field` while a text is read. A store
outside the buffer is the last one recorded: it leaves the run undefined. -/
def storeIndices (d : Byte) (n : Nat) : ParseState → Bytes → List Nat
  | _, [] => []
  | st, c :: s =>
    (storeIndex d st c).toList ++
      match parseByte d n st c with
      | .ok st' => storeIndices d n st' s
      | .error _ => []

/-- The stores of a whole call of `parseData`. -/
def fieldWrites (csv : CSV) (readedData : List Bytes) : List Nat :=
  storeIndices csv.delimiter csv.rowsCount (parseStart csv) (readedData.flatMap blockBytes)

private theorem newRow_ne_fieldOverflow (n : Nat) (st : ParseState) :
    newRow n st ≠ .error .fieldOverflow := by
  unfold newRow
  split
  · split <;> simp
  · simp

private theorem storeIndex_lt_iff (d : Byte) (n : Nat) (st : ParseState) (c : Byte) :
    (∀ i ∈ (storeIndex d st c).toList, i < maxFieldSize) ↔
      parseByte d n st c ≠ .error .fieldOverflow := by
  unfold parseByte storeIndex
  split
  · by_cases hroom : st.curField.length < maxFieldSize <;> simp [hroom]
  · split
    · simp [newRow_ne_fieldOverflow]
    · simp

private theorem storeIndices_lt_iff (d : Byte) (n : Nat) (st : ParseState) (s : Bytes) :
    (∀ i ∈ storeIndices d n st s, i < maxFieldSize) ↔
      s.foldlM (parseByte d n) st ≠ .error .fieldOverflow := by
  induction s generalizing st with
  | nil => simp [storeIndices, pure, Except.pure]
  | cons c s ih =>
    rw [storeIndices, List.foldlM_cons, List.forall_mem_append, storeIndex_lt_iff d n]
    cases hc : parseByte d n st c with
    | error f => simp [Bind.bind, Except.bind]
    | ok st' => simpa [Bind.bind, Except.bind] using ih st'

private theorem fieldWrites_lt_iff (csv : CSV) (blocks : List Bytes)
    (hrows : RowsFit csv (blocks.flatMap blockBytes)) :
    (∀ i ∈ fieldWrites csv blocks, i < maxFieldSize) ↔
      FitsBuffer csv.delimiter (blocks.flatMap blockBytes) := by
  rw [fieldWrites, storeIndices_lt_iff, foldlM_parseByte csv _ hrows]
  split <;> simp_all

private theorem length_committed_le (n : Nat) (d : Byte) (s : Bytes) :
    (committed n d s).length ≤ s.length := by
  calc (committed n d s).length
    _ ≤ ((cutAfter (isRowEnd d) s).map fun piece => emptyRow n ++ fieldsOf d piece).length :=
      List.length_filter_le _ _
    _ ≤ s.length := by rw [List.length_map]; exact length_cutAfter_le s

private theorem rowsFit_of_lt (csv : CSV) {s : Bytes} (hlen : s.length < 2^31) : RowsFit csv s :=
  (length_committed_le csv.rowsCount csv.delimiter s).trans_lt hlen

/-- Whatever the split of a client's text into blocks, the parser's stores stay
inside `cur_field` exactly when no separator-free run of the text exceeds it. -/
theorem fieldWrites_safe_iff (csv : CSV) (data : Bytes) (blocks : List Bytes)
    (hsplit : blocks.flatten = data) (hlen : data.length ≤ readMessageMax) :
    (∀ i ∈ fieldWrites csv blocks, i < maxFieldSize) ↔
      ∀ run ∈ data.splitOnP (isSeparator csv.delimiter), run.length ≤ maxFieldSize := by
  have hshort : ∀ str ∈ blocks, str.length < 2^31 := by
    intro str hs
    have hle : str.length ≤ blocks.flatten.length := (List.sublist_flatten_of_mem hs).length_le
    rw [hsplit] at hle
    exact (hle.trans hlen).trans_lt (by decide)
  have hrows : RowsFit csv (blocks.flatMap blockBytes) := by
    rw [flatMap_blockBytes hshort, hsplit]
    exact rowsFit_of_lt csv (hlen.trans_lt (by decide))
  rw [fieldWrites_lt_iff csv blocks hrows, flatMap_blockBytes hshort, hsplit]
  rfl

private theorem not_fitsBuffer_of_long {d : Byte} {s : Bytes}
    (hfree : ∀ c ∈ s, isSeparator d c = false)
    (hlong : maxFieldSize < s.length) : ¬ FitsBuffer d s := by
  intro hfit
  have hrun := hfit s (by rw [List.splitOnP_eq_singleton hfree]; exact List.mem_singleton_self s)
  omega

/-- One field of 1025 bytes in one block: its last store is outside the buffer. -/
theorem fieldWrites_overflow :
    ¬ ∀ i ∈ fieldWrites {} [List.replicate 1025 97], i < maxFieldSize := by
  intro hsafe
  have hlength : (List.replicate 1025 (97 : Byte)).length = 1025 := List.length_replicate
  have hbytes : [List.replicate 1025 (97 : Byte)].flatMap blockBytes = List.replicate 1025 97 := by
    rw [List.flatMap_singleton, blockBytes_of_short (by rw [hlength]; decide)]
  rw [fieldWrites_lt_iff _ _ (by rw [hbytes]; exact rowsFit_of_lt _ (by rw [hlength]; decide)),
    hbytes] at hsafe
  refine not_fitsBuffer_of_long ?_ (by rw [hlength]; decide) hsafe
  intro c hc
  rw [List.eq_of_mem_replicate hc]
  rfl

theorem fieldWrites_safe_iff_short :
    (∀ i ∈ fieldWrites {} [[49, 44], [50, 10]], i < maxFieldSize) ↔
      ∀ run ∈ ([49, 44, 50, 10] : Bytes).splitOnP (isSeparator 44), run.length ≤ maxFieldSize :=
  fieldWrites_safe_iff {} [49, 44, 50, 10] [[49, 44], [50, 10]] rfl (by decide)

theorem length_table_le (d : Byte) (s : Bytes) : (table d s).length ≤ s.length := by
  calc (table d s).length ≤ ((cutAfter (isRowEnd d) s).map (fieldsOf d)).length := List.length_filter_le _ _
    _ ≤ s.length := by rw [List.length_map]; exact length_cutAfter_le s

private theorem length_row_le {d : Byte} {s : Bytes} {row : Row} (h : row ∈ table d s) :
    row.length ≤ s.length := by
  obtain ⟨piece, hp, rfl⟩ := List.mem_map.mp (List.mem_filter.mp h).1
  exact (length_filter_splitOnP_le piece).trans (length_le_of_mem_cutAfter hp)

/-- The CSV that holds `rows` with their counts; without rows the column count is `cols`. -/
def ofTable (d : Byte) (cols : Nat) (rows : List Row) : CSV :=
  ⟨d, rows.length, if rows = [] then cols else (rows.headD []).length, rows⟩

theorem loaded_fresh (d : Byte) (cols : Nat) {s : Bytes} (hlen : s.length ≤ maxLoadSize) :
    loaded ⟨d, 0, cols, []⟩ s = ofTable d cols (table d s) := by
  have hbound : maxLoadSize < 2^32 := by decide
  have hrows : (stateAfter ⟨d, 0, cols, []⟩ s).rowsDeque.dropLast = table d s := by
    simp [stateAfter, overwrite, committed_zero]
  have hcount : toUnsigned (table d s).length = (table d s).length :=
    toUnsigned_of_lt (by have := length_table_le d s; omega)
  rw [loaded, parseFinish, ofTable]
  simp only [hrows, hcount]
  cases ht : table d s with
  | nil => simp
  | cons row rows =>
    have hrow : row.length ≤ s.length := length_row_le (d := d) (by simp [ht])
    simp [toUnsigned_of_lt (hrow.trans_lt (hlen.trans_lt hbound))]

private theorem two_length_table_le (d : Byte) (s : Bytes) :
    2 * (table d s).length + (openTail (isRowEnd d) s).length ≤ s.length := by
  induction s using List.reverseRecOn with
  | nil => simp [table, cutAfter]
  | append_singleton s c ih =>
    rw [List.length_append, List.length_singleton]
    cases hend : isRowEnd d c with
    | false =>
      rw [table_concat d s hend, openTail_concat s hend, List.length_append, List.length_singleton]
      omega
    | true =>
      rw [table_concat_rowEnd d s hend, openTail_concat_marked s hend, List.length_append]
      cases hopen : openTail (isRowEnd d) s with
      | nil =>
        rw [hopen] at ih
        simpa [fieldsOf] using Nat.le_succ_of_le ih
      | cons b rest =>
        rw [hopen, List.length_cons] at ih
        have hone := List.length_filter_le (· ≠ []) [fieldsOf d (b :: rest)]
        rw [List.length_singleton] at hone
        simp only [List.length_nil]
        omega

theorem rowsFit_fresh (d : Byte) (cols : Nat) {s : Bytes} (hlen : s.length ≤ maxLoadSize) :
    RowsFit ⟨d, 0, cols, []⟩ s := by
  have htwo := two_length_table_le d s
  have hbound : maxLoadSize < 2 * 2^31 := by decide
  rw [RowsFit, committed_zero]
  change (table d s).length < 2^31
  omega

/-- Loading into a CSV without rows succeeds with the table of the text or not at all. -/
theorem loadFromMemory_fresh_eq_ok (d : Byte) (cols : Nat) (s : Bytes) (csv : CSV) :
    loadFromMemory ⟨d, 0, cols, []⟩ s = .ok csv ↔
      s.length ≤ maxLoadSize ∧ FitsBuffer d s ∧ ofTable d cols (table d s) = csv := by
  rw [loadFromMemory_eq_ok]
  by_cases hlen : s.length ≤ maxLoadSize
  · simp [hlen, rowsFit_fresh d cols hlen, loaded_fresh d cols hlen]
  · simp [hlen]

/-- The exact language of the parser: a text that fits the buffer loads into a
fresh CSV as the table its row ends and separators cut out. -/
theorem loadFromMemory_fresh (d : Byte) (cols : Nat) (s : Bytes) (hlen : s.length ≤ 2^32 - 2048)
    (hruns : ∀ run ∈ s.splitOnP (isSeparator d), run.length ≤ 1024) :
    ∃ csv, loadFromMemory ⟨d, 0, cols, []⟩ s = .ok csv ∧
      csv.rowsDeque = table d s ∧ csv.rowsCount = (table d s).length ∧
      (0 < csv.rowsCount → csv.colsCount = ((table d s).headD []).length) := by
  refine ⟨_, (loadFromMemory_fresh_eq_ok d cols s _).mpr ⟨hlen, hruns, rfl⟩, rfl, rfl, ?_⟩
  intro hpos
  exact if_neg (List.length_pos_iff.mp hpos)

/-- Doubled separators, CRLF, a blank line and an unterminated tail in one text. -/
theorem loadFromMemory_fresh_mixed :
    ∃ csv, loadFromMemory ⟨44, 0, 0, []⟩ [49, 44, 44, 50, 13, 10, 10, 51, 10, 52] = .ok csv ∧
      csv.rowsDeque = table 44 [49, 44, 44, 50, 13, 10, 10, 51, 10, 52] ∧
      csv.rowsCount = (table 44 [49, 44, 44, 50, 13, 10, 10, 51, 10, 52]).length ∧
      (0 < csv.rowsCount →
        csv.colsCount = ((table 44 [49, 44, 44, 50, 13, 10, 10, 51, 10, 52]).headD []).length) :=
  loadFromMemory_fresh 44 0 [49, 44, 44, 50, 13, 10, 10, 51, 10, 52] (by decide) (by decide)

example : table 44 [49, 44, 44, 50, 13, 10, 10, 51, 10, 52] = [[[49], [50]], [[51]]] := by decide

end Boostander.Algo.CSV
