import Boostander.Algo.CSVLoad

/-! The parser takes its text in blocks. It reads them as one text, except that
the length of a block and the number of rows have to be an `int`. -/
namespace Boostander.Algo.CSV
open Library.Segments

/-- Where the text is cut into blocks does not matter, whatever the CSV held before
and whatever straddles a cut, as long as the length of each block is an `int`. The
call returns exactly if the number of rows it commits is an `int` as well. -/
theorem parseData_blocks (csv : CSV) {blocks blocks' : List Bytes}
    (hsame : blocks.flatten = blocks'.flatten) (hshort : ∀ str ∈ blocks, str.length < 2^31)
    (hshort' : ∀ str ∈ blocks', str.length < 2^31)
    (hruns : ∀ run ∈ blocks.flatten.splitOnP (isSeparator csv.delimiter), run.length ≤ 1024) :
    parseData csv blocks = parseData csv blocks' ∧
      ((∃ csv', parseData csv blocks = .ok csv') ↔
        (committed csv.rowsCount csv.delimiter blocks.flatten).length < 2^31) := by
  have hfit : FitsBuffer csv.delimiter blocks.flatten := hruns
  constructor
  · rw [parseData_eq, parseData_eq, flatMap_blockBytes hshort, flatMap_blockBytes hshort', hsame]
  · simp only [parseData_eq_ok, flatMap_blockBytes hshort, hfit, true_and]
    exact ⟨fun ⟨_, hrows, _⟩ => hrows, fun hrows => ⟨_, hrows, rfl⟩⟩

/-- A CSV with a row, a field and a CRLF cut in two, and empty blocks. -/
theorem parseData_blocks_straddling : ∃ csv',
    parseData ⟨44, 1, 1, [[[48]]]⟩ [[49], [], [50, 13], [10, 51, 10]] = .ok csv' ∧
      parseData ⟨44, 1, 1, [[[48]]]⟩ [[49, 50, 13, 10], [51], [10], []] = .ok csv' := by
  have hsame : ([[49], [], [50, 13], [10, 51, 10]] : List Bytes).flatten =
      [[49, 50, 13, 10], [51], [10], []].flatten := rfl
  have hfour : 4 < 2^31 := by norm_num
  have hshort : ∀ str ∈ ([[49], [], [50, 13], [10, 51, 10]] : List Bytes), str.length ≤ 4 := by decide
  have hshort' : ∀ str ∈ ([[49, 50, 13, 10], [51], [10], []] : List Bytes), str.length ≤ 4 := by decide
  obtain ⟨heq, hok⟩ := parseData_blocks ⟨44, 1, 1, [[[48]]]⟩ hsame
    (fun str hs => (hshort str hs).trans_lt hfour) (fun str hs => (hshort' str hs).trans_lt hfour)
    (by decide)
  obtain ⟨csv', hcsv⟩ := hok.mpr (by decide)
  exact ⟨csv', hcsv, heq.symm.trans hcsv⟩

private theorem blockBytes_of_negative {str : Bytes} (hlong : 2^31 ≤ str.length)
    (hlt : str.length < 2^32) : blockBytes str = [] := by
  have hneg : toInt str.length < 0 := by
    unfold toInt Int.bmod
    simp only
    split <;> omega
  rw [blockBytes, Int.toNat_of_nonpos hneg.le, List.take_zero]

private theorem fitsBuffer_replicate_lf (n : Nat) :
    FitsBuffer 44 ([49, lf] ++ List.replicate n lf) := by
  induction n with
  | zero => exact (by decide : FitsBuffer 44 [49, lf])
  | succ n ih =>
    rw [List.replicate_succ', ← List.append_assoc]
    exact (fitsBuffer_concat_separator 44 _ rfl).mpr ih

private theorem table_replicate_lf (n : Nat) :
    table 44 ([49, lf] ++ List.replicate n lf) = [[[49]]] := by
  induction n with
  | zero => decide
  | succ n ih =>
    have hend : isRowEnd 44 lf = true := rfl
    have hopen : openTail (isRowEnd 44) ([49, lf] ++ List.replicate n lf) = [] := by
      cases n with
      | zero => rfl
      | succ n =>
        rw [List.replicate_succ', ← List.append_assoc]
        exact openTail_concat_marked _ hend
    rw [List.replicate_succ', ← List.append_assoc, table_concat_rowEnd 44 _ hend, ih, hopen]
    rfl

private theorem parseData_negative {n : Nat} (hn : n = 2147483646) :
    parseData {} [[49, lf] ++ List.replicate n lf] = .ok {} := by
  have hlength : ([49, lf] ++ List.replicate n lf).length = 2^31 := by
    rw [List.length_append, List.length_replicate, hn]
    rfl
  have hbytes : [[49, lf] ++ List.replicate n lf].flatMap blockBytes = [] := by
    rw [List.flatMap_singleton, blockBytes_of_negative hlength.ge (by omega)]
  rw [parseData_eq_ok, hbytes]
  exact ⟨by decide, by decide, rfl⟩

private theorem parseData_twoBlocks {n : Nat} (hn : n = 2147483646) :
    parseData {} [[49, lf], List.replicate n lf] = .ok ⟨44, 1, 1, [[[49]]]⟩ := by
  have hshort : ∀ str ∈ [[49, lf], List.replicate n lf], str.length < 2^31 := by
    intro str hstr
    rcases List.mem_pair.mp hstr with rfl | rfl
    · exact (by decide : 2 < 2^31)
    · rw [List.length_replicate]
      omega
  have hflat : [[49, lf], List.replicate n lf].flatten = [49, lf] ++ List.replicate n lf := by
    simp only [List.flatten_cons, List.flatten_nil, List.append_nil]
  have hlen : ([49, lf] ++ List.replicate n lf).length ≤ maxLoadSize := by
    rw [List.length_append, List.length_replicate, hn]
    decide
  rw [parseData_eq_ok, flatMap_blockBytes hshort, hflat]
  refine ⟨fitsBuffer_replicate_lf n, rowsFit_fresh 44 0 hlen, ?_⟩
  rw [loaded_fresh 44 0 hlen, table_replicate_lf n]
  rfl

private theorem length_committed_replicate_lf (n : Nat) :
    (committed 1 44 (List.replicate n lf)).length = n := by
  induction n with
  | zero => rfl
  | succ n ih =>
    rw [List.replicate_succ', committed_concat_rowEnd 1 44 _ rfl, List.length_append, ih]
    simp [emptyRow]

private theorem parseData_manyRows {n : Nat} (hn : n = 1073741824) (csv' : CSV) :
    parseData ⟨44, 1, 1, [[[48]]]⟩ [List.replicate n lf, List.replicate n lf] ≠ .ok csv' := by
  have hshort : ∀ str ∈ [List.replicate n lf, List.replicate n lf], str.length < 2^31 := by
    intro str hstr
    rcases List.mem_pair.mp hstr with rfl | rfl <;> rw [List.length_replicate] <;> omega
  have hflat : [List.replicate n lf, List.replicate n lf].flatten = List.replicate (n + n) lf := by
    simp only [List.flatten_cons, List.flatten_nil, List.append_nil, List.replicate_append_replicate]
  rw [Ne, parseData_eq_ok, flatMap_blockBytes hshort, hflat]
  rintro ⟨-, hrows, -⟩
  rw [RowsFit, length_committed_replicate_lf] at hrows
  omega

/-- One block of `2^31` bytes, a row and line ends, against the same bytes in two blocks;
and `2^31` line ends for a CSV that has a row, which no call gets to the end of. -/
theorem parseData_blocks_long_fails :
    [[49, lf] ++ List.replicate 2147483646 lf].flatten =
        [[49, lf], List.replicate 2147483646 lf].flatten ∧
      FitsBuffer 44 [[49, lf] ++ List.replicate 2147483646 lf].flatten ∧
      parseData {} [[49, lf] ++ List.replicate 2147483646 lf] = .ok {} ∧
      parseData {} [[49, lf], List.replicate 2147483646 lf] = .ok ⟨44, 1, 1, [[[49]]]⟩ ∧
      ∀ csv', parseData ⟨44, 1, 1, [[[48]]]⟩
        [List.replicate 1073741824 lf, List.replicate 1073741824 lf] ≠ .ok csv' := by
  refine ⟨?_, ?_, parseData_negative rfl, parseData_twoBlocks rfl, parseData_manyRows rfl⟩
  · simp only [List.flatten_cons, List.flatten_nil, List.append_nil]
  · rw [List.flatten_singleton]
    exact fitsBuffer_replicate_lf _

end Boostander.Algo.CSV
