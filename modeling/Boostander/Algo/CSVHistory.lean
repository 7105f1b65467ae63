import Boostander.Algo.CSVLoad
import Boostander.Library.EventMachine

/-! A CSV object over the public calls made on it. The counts are cached, and every
check of an index trusts them. -/
namespace Boostander.Algo
open Library

/-- The public calls that change a CSV. -/
inductive CSVOperation where
  | loadFromMemory (data : Bytes)
  | appendRow (strVec : Row)
  | setAt (rowN colN : Nat) (data : Bytes)
  deriving DecidableEq, Repr

namespace CSV
open Library.Segments

/-- A call that does not return has no successor. -/
def operationStep : CSVOperation → CSV → Option CSV
  | .loadFromMemory data, csv => (csv.loadFromMemory data).toOption
  | .appendRow strVec, csv => some (csv.appendRow strVec)
  | .setAt rowN colN data, csv => ((csv.setAt rowN colN data).map (·.1)).toOption

def operationMachine : EventMachine CSV CSVOperation := ⟨operationStep⟩

/-- The rows a load leaves. The rows of the text overwrite the first ones that were
there, and an empty row was pushed for each of them. -/
def loadedRows (csv : CSV) (s : Bytes) : List Row :=
  overwrite csv.rowsDeque (committed csv.rowsCount csv.delimiter s)
    (committed csv.rowsCount csv.delimiter s).length

variable {csv csv' : CSV}

theorem loaded_eq (csv : CSV) (s : Bytes) :
    loaded csv s =
      ⟨csv.delimiter, toUnsigned (csv.loadedRows s).length,
        if toUnsigned (csv.loadedRows s).length > 0 then toUnsigned ((csv.loadedRows s).headD []).length
        else csv.colsCount,
        csv.loadedRows s⟩ := by
  have hrows : (stateAfter csv s).rowsDeque.dropLast = csv.loadedRows s := by
    simp only [stateAfter, loadedRows, overwrite, List.replicate_succ', ← List.append_assoc]
    rw [List.drop_append_of_le_length (by simp), ← List.append_assoc, List.dropLast_concat]
  rw [loaded, parseFinish, hrows]

theorem length_loadedRows (csv : CSV) (s : Bytes) :
    (csv.loadedRows s).length =
      csv.rowsDeque.length + (committed csv.rowsCount csv.delimiter s).length := by
  simp only [loadedRows, overwrite, List.length_append, List.length_drop, List.length_replicate]
  omega

private theorem step_loadFromMemory {data : Bytes}
    (h : operationStep (.loadFromMemory data) csv = some csv') :
    data.length ≤ maxLoadSize ∧ FitsBuffer csv.delimiter data ∧ csv' = loaded csv data := by
  simp only [operationStep] at h
  cases hload : csv.loadFromMemory data with
  | error f => simp [hload, Except.toOption] at h
  | ok csv'' =>
    obtain ⟨hlen, hfit, -, rfl⟩ := (loadFromMemory_eq_ok csv csv'' data).mp hload
    refine ⟨hlen, hfit, ?_⟩
    simpa [hload, Except.toOption, eq_comm] using h

private theorem step_setAt {rowN colN : Nat} {data : Bytes}
    (h : operationStep (.setAt rowN colN data) csv = some csv') :
    csv' = { csv with rowsDeque := csv.rowsDeque.modify rowN (·.set colN data) } := by
  simp only [operationStep, setAt] at h
  cases hget : csv.getAtRef rowN colN with
  | error f => simp [hget, Bind.bind, Except.bind, Except.map, Except.toOption] at h
  | ok field =>
    simpa [hget, Bind.bind, Except.bind, Except.map, Except.toOption, pure, Except.pure, eq_comm] using h

/-- The counts are values of `unsigned`, and the one of the rows is their number as an `unsigned`. -/
structure Counted (d : Byte) (csv : CSV) : Prop where
  delimiter : csv.delimiter = d
  rowsCount : csv.rowsCount = toUnsigned csv.rowsDeque.length
  colsCount : csv.colsCount < 2^32

private theorem toUnsigned_lt (n : Nat) : toUnsigned n < 2^32 := Nat.mod_lt n (Nat.two_pow_pos 32)

private theorem counted_create (d : Byte) (rows cols : UInt32) :
    Counted d (create d rows.toNat cols.toNat) where
  delimiter := rfl
  rowsCount := by
    simp only [create, List.length_replicate]
    exact (toUnsigned_of_lt rows.toNat_lt).symm
  colsCount := cols.toNat_lt

private theorem Counted.step {d : Byte} {op : CSVOperation} (h : Counted d csv)
    (hs : operationStep op csv = some csv') : Counted d csv' := by
  cases op with
  | loadFromMemory data =>
    obtain ⟨-, -, rfl⟩ := step_loadFromMemory hs
    rw [loaded_eq]
    refine ⟨h.delimiter, rfl, ?_⟩
    dsimp only
    split
    · exact toUnsigned_lt _
    · exact h.colsCount
  | appendRow strVec =>
    obtain rfl := Option.some.inj hs
    rw [appendRow]
    split
    · exact h
    · exact ⟨h.delimiter, rfl, h.colsCount⟩
  | setAt rowN colN data =>
    obtain rfl := step_setAt hs
    refine ⟨h.delimiter, ?_, h.colsCount⟩
    simpa using h.rowsCount

theorem counted_of_run {d : Byte} {rows cols : UInt32} {h : List CSVOperation}
    (hr : operationMachine.run h (create d rows.toNat cols.toNat) = some csv) : Counted d csv := by
  have hpath := EventMachine.reaches_of_run hr
  apply hpath.invariant (fun _ csv => Counted d csv) (counted_create d rows cols)
  intro _ u v op hu _ hs
  exact hu.step hs

/-- The number of rows is their count, and each row has as many fields as the count of columns. -/
structure Consistent (csv : CSV) : Prop where
  rowsCount : csv.rowsCount = csv.rowsDeque.length
  colsCount : ∀ row ∈ csv.rowsDeque, row.length = csv.colsCount

/-- Every pair of indices that passes the checks of `getAtRef` is inside the stored row. -/
def Accessible (csv : CSV) : Prop :=
  ∀ rowN colN, rowN < csv.rowsCount → colN < csv.colsCount → ∃ field, csv.getAtRef rowN colN = .ok field

private theorem Consistent.accessible (h : csv.Consistent) : csv.Accessible := by
  intro rowN colN hrow hcol
  have hrow' : rowN < csv.rowsDeque.length := h.rowsCount ▸ hrow
  have hcol' : colN < csv.rowsDeque[rowN].length := by
    rw [h.colsCount _ (List.getElem_mem hrow')]
    exact hcol
  have href : csv.getRowRef rowN = .ok csv.rowsDeque[rowN] := by
    simp [getRowRef, Nat.not_le.mpr hrow, List.getElem?_eq_getElem hrow']
  refine ⟨csv.rowsDeque[rowN][colN], ?_⟩
  simp [getAtRef, href, Bind.bind, Except.bind, Nat.not_le.mpr hcol, List.getElem?_eq_getElem hcol']

/-- All rows have as many fields as the first one. -/
def Rectangular (rows : List Row) : Prop := ∀ row ∈ rows, row.length = (rows.headD []).length

/-- The calls after which the counts still are what they should be: a load of a
rectangular table into a CSV without rows or of a text without any row end, and
an append that does not make the number of rows overflow. -/
def Keeps (csv : CSV) : CSVOperation → Prop
  | .loadFromMemory data =>
    csv.rowsDeque = [] ∧ Rectangular (table csv.delimiter data) ∨
      ∀ c ∈ data, isRowEnd csv.delimiter c = false
  | .appendRow strVec => strVec.length = csv.colsCount → csv.rowsCount + 1 < 2^32
  | .setAt _ _ _ => True

private theorem committed_of_no_rowEnd (n : Nat) {d : Byte} {s : Bytes}
    (h : ∀ c ∈ s, isRowEnd d c = false) :
    committed n d s = [] := by
  simp [committed, cutAfter_eq_nil_iff.mpr h]

private theorem committed_of_rowEnd {n : Nat} {d : Byte} {s : Bytes} (hn : 0 < n)
    (h : ¬∀ c ∈ s, isRowEnd d c = false) :
    ∃ row rows, committed n d s = row :: rows ∧ n ≤ row.length := by
  have hne : emptyRow n ≠ [] := List.ne_nil_of_length_pos (by simpa [emptyRow] using hn)
  cases hcut : cutAfter (isRowEnd d) s with
  | nil => exact absurd (cutAfter_eq_nil_iff.mp hcut) h
  | cons piece pieces =>
    refine ⟨emptyRow n ++ fieldsOf d piece, _, by simp [committed, hcut, hne]; rfl, ?_⟩
    simp [emptyRow]

private theorem loaded_of_no_rowEnd {d : Byte} {s : Bytes} (hcounted : Counted d csv)
    (hc : csv.Consistent)
    (h : ∀ c ∈ s, isRowEnd csv.delimiter c = false) : loaded csv s = csv := by
  have hrows : csv.loadedRows s = csv.rowsDeque := by
    simp [loadedRows, committed_of_no_rowEnd csv.rowsCount h, overwrite]
  have hcols : (if toUnsigned csv.rowsDeque.length > 0 then toUnsigned (csv.rowsDeque.headD []).length
      else csv.colsCount) = csv.colsCount := by
    cases hdeque : csv.rowsDeque with
    | nil => rfl
    | cons row rows =>
      rw [List.headD_cons, hc.colsCount row (by simp [hdeque]), toUnsigned_of_lt hcounted.colsCount,
        ite_self]
  rw [loaded_eq, hrows, hcols, ← hcounted.rowsCount]

private theorem consistent_ofTable (d : Byte) (cols : Nat) (rows : List Row) :
    (ofTable d cols rows).Consistent ↔ Rectangular rows := by
  cases rows with
  | nil => exact iff_of_true ⟨rfl, by simp [ofTable]⟩ (by simp [Rectangular])
  | cons row rows =>
    constructor
    · intro h r hr
      exact h.colsCount r hr
    · exact fun h => ⟨rfl, h⟩

private theorem not_consistent_of_rows {s : Bytes} (hc : csv.Consistent) (hdeque : csv.rowsDeque ≠ [])
    (hend : ¬∀ c ∈ s, isRowEnd csv.delimiter c = false) : ¬(loaded csv s).Consistent := by
  have hpos : 0 < csv.rowsCount := hc.rowsCount ▸ List.length_pos_iff.mpr hdeque
  obtain ⟨row, rows, hcommitted, hrow⟩ := committed_of_rowEnd hpos hend
  rw [loaded_eq]
  rintro ⟨-, hcols⟩
  have hfirst : row ∈ csv.loadedRows s := by
    simp [loadedRows, overwrite, hcommitted]
  have hempty : ([] : Row) ∈ csv.loadedRows s := by
    have hle : rows.length + 1 ≤ (csv.rowsDeque ++ List.replicate rows.length []).length := by
      rw [List.length_append, List.length_replicate]
      have := List.length_pos_iff.mpr hdeque
      omega
    rw [loadedRows, overwrite, hcommitted, List.length_cons, List.replicate_succ', ← List.append_assoc,
      List.drop_append_of_le_length hle]
    simp
  have hzero := (hcols row hfirst).trans (hcols [] hempty).symm
  rw [List.length_nil] at hzero
  omega

private theorem consistent_loaded_iff {d : Byte} {s : Bytes} (hcounted : Counted d csv)
    (hc : csv.Consistent)
    (hlen : s.length ≤ maxLoadSize) :
    (loaded csv s).Consistent ↔ csv.Keeps (.loadFromMemory s) := by
  by_cases hend : ∀ c ∈ s, isRowEnd csv.delimiter c = false
  · rw [loaded_of_no_rowEnd hcounted hc hend]
    exact iff_of_true hc (Or.inr hend)
  by_cases hdeque : csv.rowsDeque = []
  · have hfresh : csv = ⟨csv.delimiter, 0, csv.colsCount, []⟩ := by
      have hcount : csv.rowsCount = 0 := by rw [hc.rowsCount, hdeque, List.length_nil]
      rw [← hcount, ← hdeque]
    have hloaded : loaded csv s = ofTable csv.delimiter csv.colsCount (table csv.delimiter s) := by
      rw [hfresh]
      exact loaded_fresh csv.delimiter csv.colsCount hlen
    rw [hloaded, consistent_ofTable]
    constructor
    · exact fun hrect => Or.inl ⟨hdeque, hrect⟩
    · rintro (⟨-, hrect⟩ | hno)
      · exact hrect
      · exact absurd hno hend
  · refine iff_of_false (not_consistent_of_rows hc hdeque hend) ?_
    rintro (⟨hnil, -⟩ | hno)
    · exact hdeque hnil
    · exact hend hno

theorem consistent_appendRow_iff (hc : csv.Consistent) (strVec : Row) :
    (csv.appendRow strVec).Consistent ↔ csv.Keeps (.appendRow strVec) := by
  by_cases hlen : strVec.length = csv.colsCount
  · have hcount : (csv.rowsDeque ++ [strVec]).length = csv.rowsCount + 1 := by
      rw [List.length_append, List.length_singleton, hc.rowsCount]
    rw [appendRow, if_neg (not_not.mpr hlen)]
    constructor
    · rintro ⟨hrows, -⟩ -
      rw [← hcount]
      exact hrows ▸ toUnsigned_lt _
    · intro hkeeps
      refine ⟨toUnsigned_of_lt (hcount ▸ hkeeps hlen), ?_⟩
      intro row hrow
      rcases List.mem_append.mp hrow with hrow | hrow
      · exact hc.colsCount row hrow
      · exact List.mem_singleton.mp hrow ▸ hlen
  · rw [appendRow, if_pos hlen]
    exact iff_of_true hc fun h => absurd h hlen

theorem Consistent.setAt (hc : csv.Consistent) (rowN colN : Nat) (data : Bytes) :
    Consistent { csv with rowsDeque := csv.rowsDeque.modify rowN (·.set colN data) } where
  rowsCount := by simpa using hc.rowsCount
  colsCount := by
    intro row hrow
    obtain ⟨i, hi, rfl⟩ := List.mem_iff_getElem.mp hrow
    have hi' : i < csv.rowsDeque.length := by simpa using hi
    rw [List.getElem_modify]
    split
    · rw [List.length_set]
      exact hc.colsCount _ (List.getElem_mem hi')
    · exact hc.colsCount _ (List.getElem_mem hi')

/-- The cached counts are right, and every access they admit is safe, all along a
sequence of calls exactly if each of the calls keeps them right. -/
theorem consistent_iff {d : Byte} {rows cols : UInt32} {h : List CSVOperation}
    (hr : operationMachine.run h (create d rows.toNat cols.toNat) = some csv) :
    (∀ k u, k <+: h → operationMachine.run k (create d rows.toNat cols.toNat) = some u →
        u.Consistent ∧ u.Accessible) ↔
      ∀ k op u, k ++ [op] <+: h →
        operationMachine.run k (create d rows.toNat cols.toNat) = some u → u.Keeps op := by
  apply EventMachine.forall_prefix_iff hr
  · have hcreate : (create d rows.toNat cols.toNat).Consistent :=
      ⟨by simp [create], by simp +contextual [create]⟩
    exact ⟨hcreate, hcreate.accessible⟩
  · rintro k op u v - hu ⟨hc, -⟩ hs
    have hiff : v.Consistent ↔ u.Keeps op := by
      cases op with
      | loadFromMemory data =>
        obtain ⟨hlen, -, rfl⟩ := step_loadFromMemory hs
        exact consistent_loaded_iff (counted_of_run hu) hc hlen
      | appendRow strVec =>
        obtain rfl := Option.some.inj hs
        exact consistent_appendRow_iff hc strVec
      | setAt rowN colN data =>
        obtain rfl := step_setAt hs
        exact iff_of_true (hc.setAt rowN colN data) trivial
    rw [← hiff]
    exact ⟨fun h => h.1, fun h => ⟨h, h.accessible⟩⟩

/-- Two rows of two fields, a third one, and a change in it. -/
def tidyCalls : List CSVOperation :=
  [.loadFromMemory [49, 44, 50, 10, 51, 44, 52, 10], .appendRow [[53], [54]], .setAt 2 1 [55]]

theorem consistent_iff_tidy :
    (∀ k u, k <+: tidyCalls →
        operationMachine.run k (create 44 (0 : UInt32).toNat (0 : UInt32).toNat) = some u →
        u.Consistent ∧ u.Accessible) ↔
      ∀ k op u, k ++ [op] <+: tidyCalls →
        operationMachine.run k (create 44 (0 : UInt32).toNat (0 : UInt32).toNat) = some u →
        u.Keeps op := by
  obtain ⟨csv, hr⟩ : ∃ csv,
      operationMachine.run tidyCalls (create 44 (0 : UInt32).toNat (0 : UInt32).toNat) = some csv :=
    ⟨_, rfl⟩
  exact consistent_iff hr

/-- A second row with one field only: an access that passes the checks is outside of it. -/
theorem consistent_ragged_fails : ∃ csv,
    operationMachine.run [.loadFromMemory [49, 44, 50, 10, 51, 10]] (create 44 0 0) = some csv ∧
      ¬(csv.Consistent ∧ csv.Accessible) ∧ csv.getAtRef 1 1 = .error .badIndex := by
  refine ⟨⟨44, 2, 2, [[[49], [50]], [[51]]]⟩, rfl, ?_, rfl⟩
  rintro ⟨hc, -⟩
  exact absurd (hc.colsCount [[51]] (by decide)) (by decide)

end CSV
end Boostander.Algo
