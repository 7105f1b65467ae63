import Boostander.Algo.CSVHistory

/-! Whether a load forgets what the CSV held before. The parser never clears the
rows, so it does only where there are none. -/
namespace Boostander.Algo.CSV
open Library Library.Segments

/-- Loading the text leaves what it leaves in a fresh CSV with the same delimiter. -/
def LoadsAsFresh (csv : CSV) (s : Bytes) : Prop :=
  ∃ t t₀, csv.loadFromMemory s = .ok t ∧ (create csv.delimiter 0 0).loadFromMemory s = .ok t₀ ∧
    t.rowsDeque = t₀.rowsDeque ∧ t.rowsCount = t₀.rowsCount ∧ t.colsCount = t₀.colsCount

variable {csv : CSV} {d : Byte} {s : Bytes}

private theorem length_table_le_committed (n : Nat) (d : Byte) (s : Bytes) :
    (table d s).length ≤ (committed n d s).length := by
  simp only [table, committed, List.filter_map, List.length_map]
  apply List.Sublist.length_le
  apply List.monotone_filter_right
  intro piece hpiece
  simp only [Function.comp, decide_eq_true_eq] at hpiece ⊢
  exact fun hnil => hpiece (List.append_eq_nil_iff.mp hnil).2

private theorem loadsAsFresh_of_counted (hcounted : Counted d csv) (hfit : FitsBuffer d s)
    (hline : table d s ≠ []) :
    LoadsAsFresh csv s ↔ csv.rowsDeque = [] ∧ s.length ≤ maxLoadSize := by
  obtain rfl := hcounted.delimiter
  constructor
  · rintro ⟨t, t₀, ht, ht₀, hrows, -, -⟩
    obtain ⟨hlen, -, rfl⟩ := (loadFromMemory_fresh_eq_ok csv.delimiter 0 s t₀).mp ht₀
    obtain ⟨-, -, -, rfl⟩ := (loadFromMemory_eq_ok csv t s).mp ht
    have hlength : (csv.loadedRows s).length = (table csv.delimiter s).length := by
      rw [loaded_eq] at hrows
      exact congrArg List.length hrows
    have hmore := length_table_le_committed csv.rowsCount csv.delimiter s
    rw [length_loadedRows] at hlength
    exact ⟨List.eq_nil_of_length_eq_zero (by omega), hlen⟩
  · rintro ⟨hdeque, hlen⟩
    have hfresh : csv = ⟨csv.delimiter, 0, csv.colsCount, []⟩ := by
      have hcount : csv.rowsCount = 0 := by rw [hcounted.rowsCount, hdeque]; rfl
      rw [← hcount, ← hdeque]
    refine ⟨ofTable csv.delimiter csv.colsCount (table csv.delimiter s),
      ofTable csv.delimiter 0 (table csv.delimiter s), ?_, ?_, rfl, rfl, ?_⟩
    · rw [hfresh]
      exact (loadFromMemory_fresh_eq_ok csv.delimiter csv.colsCount s _).mpr ⟨hlen, hfit, rfl⟩
    · exact (loadFromMemory_fresh_eq_ok csv.delimiter 0 s _).mpr ⟨hlen, hfit, rfl⟩
    · simp [ofTable, hline]

/-- After any calls, a text with a terminated line that is not blank loads as into a
fresh CSV exactly if the CSV holds no rows. -/
theorem loadsAsFresh_iff {rows cols : UInt32} {h : List CSVOperation}
    (hr : operationMachine.run h (create d rows.toNat cols.toNat) = some csv)
    (hruns : ∀ run ∈ s.splitOnP (isSeparator d), run.length ≤ 1024)
    (hline : ∃ line ∈ cutAfter (isRowEnd d) s, fieldsOf d line ≠ []) :
    LoadsAsFresh csv s ↔ csv.rowsDeque = [] ∧ s.length ≤ 2^32 - 2048 := by
  apply loadsAsFresh_of_counted (counted_of_run hr) hruns
  rw [Ne, table_eq_nil_iff]
  obtain ⟨line, hmem, hfields⟩ := hline
  exact fun hall => hfields (hall line hmem)

theorem loadsAsFresh_iff_once : ∃ csv,
    operationMachine.run [.loadFromMemory [44]] (create 44 (0 : UInt32).toNat (3 : UInt32).toNat) =
      some csv ∧
    (LoadsAsFresh csv [49, 10] ↔ csv.rowsDeque = [] ∧ ([49, 10] : Bytes).length ≤ 2^32 - 2048) := by
  obtain ⟨csv, hr⟩ : ∃ csv, operationMachine.run [.loadFromMemory [44]]
      (create 44 (0 : UInt32).toNat (3 : UInt32).toNat) = some csv := ⟨_, rfl⟩
  exact ⟨csv, hr, loadsAsFresh_iff hr (by decide) ⟨[49, 10], by decide, by decide⟩⟩

/-- The same row loaded twice becomes one row behind an empty field and one row
without any. -/
theorem loadsAsFresh_twice_fails : ∃ csv,
    operationMachine.run [.loadFromMemory [49, 10]] (create 44 0 0) = some csv ∧
      csv.loadFromMemory [49, 10] = .ok ⟨44, 2, 2, [[[], [49]], []]⟩ ∧ ¬LoadsAsFresh csv [49, 10] := by
  refine ⟨⟨44, 1, 1, [[[49]]]⟩, rfl, rfl, ?_⟩
  rintro ⟨t, t₀, ht, ht₀, hrows, -⟩
  obtain rfl : (⟨44, 2, 2, [[[], [49]], []]⟩ : CSV) = t := Except.ok.inj ht
  obtain rfl : (⟨44, 1, 1, [[[49]]]⟩ : CSV) = t₀ := Except.ok.inj ht₀
  exact absurd hrows (by decide)

end Boostander.Algo.CSV
