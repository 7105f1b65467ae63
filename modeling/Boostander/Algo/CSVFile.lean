import Boostander.Algo.CSVLoad

/-! Loading a file. `loadFile` takes the size of the file at its beginning, so it
always reads one block and pushes the whole buffer, whatever the file holds. -/
namespace Boostander.Algo.CSV
open Library.Segments

/-- The one block `loadFile` pushes: the first bytes of the file, and what the buffer
happens to hold beyond them. -/
def fileBlock (s : Bytes) (junk : Nat → Byte) : Bytes :=
  s.take readBlockSize ++
    (List.range' (s.take readBlockSize).length (readBlockSize - (s.take readBlockSize).length)).map junk

private theorem loadFile_eq (s : Bytes) (junk : Nat → Nat → Byte) :
    loadFile (some s) junk = [fileBlock s (junk 0)] := by
  have hrounds : ((Int.tdiv 0 readBlockSize).bmod (2^32) + 1).toNat = 1 := by decide
  have hsize : ((⟨some s, 0⟩ : FStream).seekg 0).tellg = 0 := rfl
  simp only [loadFile, hsize, hrounds, readFile]
  rfl

private theorem length_fileBlock (s : Bytes) (junk : Nat → Byte) :
    (fileBlock s junk).length = readBlockSize := by
  have hle := List.length_take_le readBlockSize s
  simp only [fileBlock, List.length_append, List.length_map, List.length_range']
  omega

private theorem fileBlock_of_le {s : Bytes} (h : readBlockSize ≤ s.length) (junk : Nat → Byte) :
    fileBlock s junk = s.take readBlockSize := by
  simp [fileBlock, h]

private theorem fileBlock_of_lt {s : Bytes} (h : s.length ≤ readBlockSize) (junk : Nat → Byte) :
    fileBlock s junk = s ++ (List.range' s.length (readBlockSize - s.length)).map junk := by
  rw [fileBlock, List.take_of_length_le h]

private theorem loadFromFile_fresh (d : Byte) (s : Bytes) (junk : Nat → Nat → Byte) (csv : CSV) :
    loadFromFile ⟨d, 0, 0, []⟩ (some s) junk = .ok csv ↔
      FitsBuffer d (fileBlock s (junk 0)) ∧ ofTable d 0 (table d (fileBlock s (junk 0))) = csv := by
  have hlen := length_fileBlock s (junk 0)
  have hshort : ∀ str ∈ [fileBlock s (junk 0)], str.length < 2^31 := by
    intro str hstr
    rw [List.mem_singleton.mp hstr, hlen]
    decide
  have hload : (fileBlock s (junk 0)).length ≤ maxLoadSize := by rw [hlen]; decide
  rw [loadFromFile, loadFile_eq, parseData_eq_ok, flatMap_blockBytes hshort, List.flatten_singleton,
    loaded_fresh d 0 hload]
  simp [rowsFit_fresh d 0 hload]

/-- The contents of a file load into a fresh CSV as the same text held in memory
does, whatever the buffer holds beyond the bytes read. -/
def LoadsAsMemory (d : Byte) (s : Bytes) : Prop :=
  ∀ junk, ∃ csv, loadFromFile ⟨d, 0, 0, []⟩ (some s) junk = .ok csv ∧
    loadFromMemory ⟨d, 0, 0, []⟩ s = .ok csv

private theorem ofTable_inj {d : Byte} {rows rows' : List Row}
    (h : ofTable d 0 rows = ofTable d 0 rows') : rows = rows' :=
  congrArg CSV.rowsDeque h

private theorem loadsAsMemory_iff_table {d : Byte} {s : Bytes} (hfit : FitsBuffer d s) :
    LoadsAsMemory d s ↔ s.length ≤ maxLoadSize ∧
      ∀ junk, FitsBuffer d (fileBlock s junk) ∧ table d (fileBlock s junk) = table d s := by
  constructor
  · intro h
    obtain ⟨csv, -, hmem⟩ := h fun _ _ => 0
    obtain ⟨hlen, -, -⟩ := (loadFromMemory_fresh_eq_ok d 0 s csv).mp hmem
    refine ⟨hlen, fun junk => ?_⟩
    obtain ⟨csv, hfile, hmem⟩ := h fun _ => junk
    obtain ⟨-, -, rfl⟩ := (loadFromMemory_fresh_eq_ok d 0 s csv).mp hmem
    obtain ⟨hblock, hrows⟩ := (loadFromFile_fresh d s _ _).mp hfile
    exact ⟨hblock, ofTable_inj hrows⟩
  · rintro ⟨hlen, h⟩ junk
    obtain ⟨hblock, htable⟩ := h (junk 0)
    refine ⟨_, ?_, (loadFromMemory_fresh_eq_ok d 0 s _).mpr ⟨hlen, hfit, rfl⟩⟩
    rw [loadFromFile_fresh, htable]
    exact ⟨hblock, rfl⟩

/-- A byte that ends a row, and one that belongs to a field. -/
def rowEndByte (d : Byte) : Byte := if d = lf then cr else lf

private theorem isRowEnd_rowEndByte (d : Byte) : isRowEnd d (rowEndByte d) = true := by
  by_cases h : d = lf
  · subst h
    decide
  · simp [rowEndByte, h, isRowEnd, Ne.symm h]

def fieldByte (d : Byte) : Byte := if d = 48 then 49 else 48

private theorem isSeparator_fieldByte (d : Byte) : isSeparator d (fieldByte d) = false := by
  by_cases h : d = 48
  · subst h
    decide
  · simp only [fieldByte, if_neg h, isSeparator, Bool.or_eq_false_iff, beq_eq_false_iff_ne]
    exact ⟨⟨Ne.symm h, by decide⟩, by decide⟩

private theorem isRowEnd_fieldByte (d : Byte) : isRowEnd d (fieldByte d) = false := by
  have h := isSeparator_fieldByte d
  simp only [isSeparator, Bool.or_eq_false_iff] at h
  simp [isRowEnd, h.1.2, h.2]

private theorem not_loadsAsMemory_of_short {d : Byte} {s : Bytes} (hfit : FitsBuffer d s)
    (hshort : s.length + 1 < readBlockSize) : ¬LoadsAsMemory d s := by
  rw [loadsAsMemory_iff_table hfit]
  rintro ⟨-, h⟩
  obtain ⟨-, htable⟩ := h fun j => if j = s.length then fieldByte d else rowEndByte d
  obtain ⟨k, hk⟩ : ∃ k, readBlockSize - s.length = k + 2 := ⟨readBlockSize - s.length - 2, by omega⟩
  rw [fileBlock_of_lt (by omega), hk, List.range'_succ, List.range'_succ, List.map_cons, List.map_cons,
    if_pos rfl, if_neg (by omega), List.append_cons, List.append_cons, table_append,
    table_concat_rowEnd d _ (isRowEnd_rowEndByte d), table_concat d s (isRowEnd_fieldByte d),
    openTail_concat s (isRowEnd_fieldByte d)] at htable
  have hrow := fieldsOf_concat_ne_nil d (openTail (isRowEnd d) s) (isSeparator_fieldByte d)
  have hlength := congrArg List.length htable
  simp [hrow] at hlength

private theorem loadsAsMemory_of_one_less {d : Byte} {s : Bytes} (hfit : FitsBuffer d s)
    (hlength : s.length + 1 = readBlockSize) :
    LoadsAsMemory d s ↔ fieldsOf d (openTail (isRowEnd d) s) = [] := by
  have hblock (junk : Nat → Byte) : fileBlock s junk = s ++ [junk s.length] := by
    rw [fileBlock_of_lt (by omega), show readBlockSize - s.length = 1 by omega]
    rfl
  have hlen : s.length ≤ maxLoadSize := by
    have hbound : readBlockSize ≤ maxLoadSize := by decide
    omega
  rw [loadsAsMemory_iff_table hfit, and_iff_right hlen]
  constructor
  · intro h
    obtain ⟨-, htable⟩ := h fun _ => rowEndByte d
    rw [hblock, table_concat_rowEnd d s (isRowEnd_rowEndByte d), List.append_right_eq_self] at htable
    simpa using htable
  · intro hblank junk
    rw [hblock]
    cases hc : isSeparator d (junk s.length) with
    | true =>
      refine ⟨(fitsBuffer_concat_separator d s hc).mpr hfit, ?_⟩
      cases hend : isRowEnd d (junk s.length) with
      | true => simp [table_concat_rowEnd d s hend, hblank]
      | false => exact table_concat d s hend
    | false =>
      have hend : isRowEnd d (junk s.length) = false := by
        cases hend : isRowEnd d (junk s.length) with
        | false => rfl
        | true => exact absurd (hc.symm.trans (isSeparator_of_isRowEnd hend)) (by decide)
      refine ⟨(fitsBuffer_concat d s hc).mpr ⟨hfit, ?_⟩, table_concat d s hend⟩
      rw [openRun_of_blank hblank]
      decide

private theorem loadsAsMemory_of_block {d : Byte} {s : Bytes} (hfit : FitsBuffer d s)
    (hlength : readBlockSize ≤ s.length) :
    LoadsAsMemory d s ↔ s.length ≤ maxLoadSize ∧
      ∀ line ∈ linesAfter d readBlockSize s, fieldsOf d line = [] := by
  have hblock : FitsBuffer d (s.take readBlockSize) := by
    apply fitsBuffer_of_append d (t := s.drop readBlockSize)
    rwa [List.take_append_drop]
  rw [loadsAsMemory_iff_table hfit, ← table_take_iff]
  simp only [fileBlock_of_le hlength, hblock, true_and, forall_const]

/-- A file loads as its contents do exactly if it fills a block and every line that
ends beyond that block is blank, or if it is one byte shorter than a block and its
unterminated last line is blank. -/
theorem loadsAsMemory_iff (d : Byte) (s : Bytes)
    (hruns : ∀ run ∈ s.splitOnP (isSeparator d), run.length ≤ 1024) :
    LoadsAsMemory d s ↔
      2048 ≤ s.length ∧ s.length ≤ 2^32 - 2048 ∧
          (∀ line ∈ linesAfter d 2048 s, fieldsOf d line = []) ∨
        s.length = 2047 ∧ fieldsOf d (openTail (isRowEnd d) s) = [] := by
  have hfit : FitsBuffer d s := hruns
  have hsize : readBlockSize = 2048 := rfl
  rcases Nat.lt_trichotomy (s.length + 1) readBlockSize with hshort | hone | hlong
  · refine iff_of_false (not_loadsAsMemory_of_short hfit hshort) ?_
    rintro (⟨hlength, -⟩ | ⟨hlength, -⟩) <;> omega
  · rw [loadsAsMemory_of_one_less hfit hone]
    constructor
    · exact fun hblank => Or.inr ⟨by omega, hblank⟩
    · rintro (⟨hlength, -⟩ | ⟨-, hblank⟩)
      · omega
      · exact hblank
  · rw [loadsAsMemory_of_block hfit (by omega)]
    constructor
    · rintro ⟨hlen, hblank⟩
      exact Or.inl ⟨by omega, hlen, hblank⟩
    · rintro (⟨-, hlen, hblank⟩ | ⟨hlength, -⟩)
      · exact ⟨hlen, hblank⟩
      · omega

theorem loadsAsMemory_iff_two :
    LoadsAsMemory 44 [49, 10] ↔
      2048 ≤ ([49, 10] : Bytes).length ∧ ([49, 10] : Bytes).length ≤ 2^32 - 2048 ∧
          (∀ line ∈ linesAfter 44 2048 [49, 10], fieldsOf 44 line = []) ∨
        ([49, 10] : Bytes).length = 2047 ∧ fieldsOf 44 (openTail (isRowEnd 44) [49, 10]) = [] :=
  loadsAsMemory_iff 44 [49, 10] (by decide)

/-- A file with one row of one field: the rest of the buffer may hold another row. -/
theorem loadsAsMemory_two_fails : ¬LoadsAsMemory 44 [49, 10] :=
  not_loadsAsMemory_of_short (by decide) (by decide)

end Boostander.Algo.CSV
