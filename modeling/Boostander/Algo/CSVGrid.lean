import Boostander.Algo.CSVHistory

/-! A CSV as a store of cells. The rows with their cached counts represent a grid in
which a write changes one cell and an append adds a row below. -/
namespace Boostander.Algo
open Library

/-- What the store is for: a number of rows and a value for each cell. -/
structure Grid where
  rows : Nat
  cell : Nat → Nat → Bytes

namespace Grid

/-- An append and a write on a grid with `c` columns. -/
def apply (c : Nat) (g : Grid) : CSVOperation → Grid
  | .loadFromMemory _ => g
  | .appendRow strVec =>
    if strVec.length = c then
      ⟨g.rows + 1, Function.update g.cell g.rows fun j => strVec.getD j []⟩
    else g
  | .setAt rowN colN data =>
    { g with cell := Function.update g.cell rowN (Function.update (g.cell rowN) colN data) }

/-- The grid after a history that starts with `r` rows of empty strings. -/
def after (r c : Nat) (h : List CSVOperation) : Grid := h.foldl (apply c) ⟨r, fun _ _ => []⟩

end Grid

namespace CSV

def accepted (c : Nat) (h : List CSVOperation) : List Row :=
  h.filterMap fun
    | .appendRow strVec => if strVec.length = c then some strVec else none
    | _ => none

def created (r c : Nat) (h : List CSVOperation) : List Row :=
  List.replicate r (List.replicate c []) ++ accepted c h

/-- The value an operation writes to a cell. -/
def writes (rowN colN : Nat) : CSVOperation → Option Bytes
  | .setAt i j data => if i = rowN ∧ j = colN then some data else none
  | _ => none

def lastWrite (rowN colN : Nat) (h : List CSVOperation) : Option Bytes :=
  (h.filterMap (writes rowN colN)).getLast?

/-- The CSV holds the grid `g` with `c` columns. -/
structure Represents (c : Nat) (csv : CSV) (g : Grid) : Prop where
  consistent : csv.Consistent
  colsCount : csv.colsCount = c
  rowsCount : csv.rowsCount = g.rows
  cell : ∀ i j, i < g.rows → j < c → csv.getAt i j = .ok (g.cell i j)

/-- Each write of the history is inside the grid it changes. -/
def Inside (r c : Nat) (h : List CSVOperation) : Prop :=
  ∀ k i j data, k ++ [.setAt i j data] <+: h → i < (Grid.after r c k).rows ∧ j < c

variable {csv csv' : CSV} {g : Grid} {r c : Nat} {h : List CSVOperation}

private theorem getAt_eq_ok {i j : Nat} {field : Bytes} :
    csv.getAt i j = .ok field ↔
      i < csv.rowsCount ∧ j < csv.colsCount ∧
        ∃ row, csv.rowsDeque[i]? = some row ∧ row[j]? = some field := by
  unfold getAt getAtRef getRowRef
  by_cases hi : i < csv.rowsCount
  · rw [if_neg (Nat.not_le.mpr hi)]
    cases hrow : csv.rowsDeque[i]? with
    | none => simp [Bind.bind, Except.bind]
    | some row =>
      by_cases hj : j < csv.colsCount
      · cases hfield : row[j]? <;> simp [Bind.bind, Except.bind, hi, hj, Nat.not_le.mpr hj, hfield]
      · simp [Bind.bind, Except.bind, hj, Nat.not_lt.mp hj]
  · rw [if_pos (Nat.not_lt.mp hi)]
    simp [Bind.bind, Except.bind, hi]

private theorem Consistent.getAt_outside (hc : csv.Consistent) {i j : Nat}
    (h : ¬(i < csv.rowsCount ∧ j < csv.colsCount)) : csv.getAt i j = .error .bareThrow := by
  unfold getAt getAtRef getRowRef
  by_cases hi : i < csv.rowsCount
  · have hj : csv.colsCount ≤ j := Nat.not_lt.mp fun hj => h ⟨hi, hj⟩
    obtain ⟨row, hrow⟩ : ∃ row, csv.rowsDeque[i]? = some row :=
      ⟨_, List.getElem?_eq_getElem (hc.rowsCount ▸ hi)⟩
    simp [Nat.not_le.mpr hi, hrow, Bind.bind, Except.bind, hj]
  · simp [Nat.not_lt.mp hi, Bind.bind, Except.bind]

private theorem cell_setAt (g : Grid) (rowN colN : Nat) (data : Bytes) (i j : Nat) :
    (g.apply c (.setAt rowN colN data)).cell i j =
      (writes i j (.setAt rowN colN data)).getD (g.cell i j) := by
  rw [Grid.apply, writes]
  dsimp only
  by_cases hi : rowN = i
  · subst hi
    by_cases hj : colN = j
    · subst hj
      simp
    · simp [hj, Function.update_of_ne (Ne.symm hj)]
  · simp [hi, Function.update_of_ne (Ne.symm hi)]

private theorem represents_create (d : Byte) (rows cols : Nat) :
    Represents cols (create d rows cols) ⟨rows, fun _ _ => []⟩ where
  consistent := ⟨by simp [create], by simp +contextual [create]⟩
  colsCount := rfl
  rowsCount := rfl
  cell := by
    intro i j hi hj
    apply getAt_eq_ok.mpr
    refine ⟨hi, hj, List.replicate cols [], ?_, ?_⟩
    · exact List.getElem?_replicate_of_lt hi
    · exact List.getElem?_replicate_of_lt hj

private theorem Represents.appendRow (hr : Represents c csv g) (strVec : Row)
    (hroom : strVec.length = c → g.rows + 1 < 2^32) :
    Represents c (csv.appendRow strVec) (g.apply c (.appendRow strVec)) := by
  by_cases hlen : strVec.length = c
  · have hconsistent : (csv.appendRow strVec).Consistent :=
      (consistent_appendRow_iff hr.consistent strVec).mpr fun _ => hr.rowsCount ▸ hroom hlen
    have hcount : csv.rowsDeque.length = g.rows := hr.consistent.rowsCount ▸ hr.rowsCount
    have happend : csv.appendRow strVec =
        { csv with rowsDeque := csv.rowsDeque ++ [strVec], rowsCount := g.rows + 1 } := by
      rw [CSV.appendRow, if_neg (by rw [hr.colsCount]; exact not_not.mpr hlen)]
      simp only [List.length_append, List.length_singleton, hcount, toUnsigned_of_lt (hroom hlen)]
    rw [Grid.apply, if_pos hlen]
    rw [happend] at hconsistent ⊢
    refine ⟨hconsistent, hr.colsCount, rfl, ?_⟩
    intro i j hi hj
    dsimp only at hi ⊢
    apply getAt_eq_ok.mpr
    refine ⟨hi, hr.colsCount ▸ hj, ?_⟩
    by_cases hlast : i = g.rows
    · subst hlast
      refine ⟨strVec, by rw [← hcount, List.getElem?_concat_length], ?_⟩
      rw [Function.update_self, List.getD_eq_getElem?_getD, List.getElem?_eq_getElem (hlen ▸ hj)]
      rfl
    · have hold : i < g.rows := by omega
      obtain ⟨-, -, row, hrow, hfield⟩ := getAt_eq_ok.mp (hr.cell i j hold hj)
      refine ⟨row, by rw [List.getElem?_append_left (hcount ▸ hold), hrow], ?_⟩
      rw [hfield, Function.update_of_ne hlast]
  · rw [Grid.apply, if_neg hlen, CSV.appendRow, if_pos (hr.colsCount ▸ hlen)]
    exact hr

private theorem Represents.setAt (hr : Represents c csv g) {i j : Nat} (data : Bytes)
    (hi : i < g.rows)
    (hj : j < c) :
    ∃ csv', csv.setAt i j data = .ok (csv', data) ∧
      Represents c csv' (g.apply c (.setAt i j data)) := by
  have hget : csv.getAtRef i j = .ok (g.cell i j) := hr.cell i j hi hj
  refine ⟨_, by rw [CSV.setAt, hget]; rfl, hr.consistent.setAt i j data, hr.colsCount, hr.rowsCount, ?_⟩
  intro i' j' hi' hj'
  obtain ⟨hrows, hcols, row, hrow, hfield⟩ := getAt_eq_ok.mp (hr.cell i' j' hi' hj')
  apply getAt_eq_ok.mpr
  refine ⟨hrows, hcols, ?_⟩
  rw [List.getElem?_modify, hrow, cell_setAt, writes]
  by_cases hii : i = i'
  · refine ⟨row.set j data, by simp [hii], ?_⟩
    rw [List.getElem?_set]
    by_cases hjj : j = j'
    · have hlt := (List.getElem?_eq_some_iff.mp hfield).1
      simp [hii, hjj, hlt]
    · simp [hii, hjj, hfield]
  · exact ⟨row, by simp [hii], by simp [hii, hfield]⟩

private theorem Represents.getAt_eq (hr : Represents c csv g) (i j : Nat) :
    csv.getAt i j = if i < g.rows ∧ j < c then .ok (g.cell i j) else .error .bareThrow := by
  by_cases hin : i < g.rows ∧ j < c
  · rw [if_pos hin, hr.cell i j hin.1 hin.2]
  · rw [if_neg hin, hr.consistent.getAt_outside (by rwa [hr.rowsCount, hr.colsCount])]

private theorem after_concat (r c : Nat) (h : List CSVOperation) (op : CSVOperation) :
    Grid.after r c (h ++ [op]) = (Grid.after r c h).apply c op := by
  simp [Grid.after]

private theorem rows_after (r c : Nat) (h : List CSVOperation) :
    (Grid.after r c h).rows = r + (accepted c h).length := by
  induction h using List.reverseRecOn with
  | nil => rfl
  | append_singleton h op ih =>
    rw [after_concat, accepted, List.filterMap_append, List.length_append, ← Nat.add_assoc]
    change _ = r + (accepted c h).length + _
    rw [← ih]
    cases op with
    | loadFromMemory data => rfl
    | appendRow strVec =>
      by_cases hlen : strVec.length = c
      · simp [Grid.apply, hlen]
      · simp [Grid.apply, hlen]
    | setAt rowN colN data => rfl

private theorem lastWrite_concat (rowN colN : Nat) (h : List CSVOperation) (op : CSVOperation) :
    lastWrite rowN colN (h ++ [op]) = (writes rowN colN op).or (lastWrite rowN colN h) := by
  cases hw : writes rowN colN op with
  | none => simp [lastWrite, hw]
  | some data => simp [lastWrite, hw]

private theorem Inside.init {op : CSVOperation} (hin : Inside r c (h ++ [op])) : Inside r c h := by
  intro k i j data hk
  exact hin k i j data (hk.trans (List.prefix_append _ _))

private theorem lastWrite_eq_none (hin : Inside r c h) {i : Nat} (hi : (Grid.after r c h).rows ≤ i)
    (j : Nat) :
    lastWrite i j h = none := by
  induction h using List.reverseRecOn with
  | nil => rfl
  | append_singleton h op ih =>
    have hle : (Grid.after r c h).rows ≤ (Grid.after r c (h ++ [op])).rows := by
      rw [rows_after, rows_after, accepted, accepted, List.filterMap_append, List.length_append]
      omega
    rw [lastWrite_concat, ih hin.init (by omega), Option.or_none]
    cases op with
    | loadFromMemory data => rfl
    | appendRow strVec => rfl
    | setAt rowN colN data =>
      have hrow := (hin h rowN colN data (List.prefix_refl _)).1
      rw [writes, if_neg (by omega)]

private theorem getD_concat_of_ne {rows : List Row} {row : Row} {i : Nat} (hi : i ≠ rows.length) :
    (rows ++ [row]).getD i [] = rows.getD i [] := by
  by_cases hlt : i < rows.length
  · exact List.getD_append _ _ _ _ hlt
  · rw [List.getD_eq_default rows [] (Nat.not_lt.mp hlt), List.getD_eq_default]
    rw [List.length_append, List.length_singleton]
    omega

private theorem created_concat (r c : Nat) (h : List CSVOperation) (op : CSVOperation) :
    created r c (h ++ [op]) = created r c h ++ accepted c [op] := by
  simp [created, accepted]

private theorem length_created (r c : Nat) (h : List CSVOperation) :
    (created r c h).length = (Grid.after r c h).rows := by
  rw [rows_after, created, List.length_append, List.length_replicate]

private theorem cell_appendRow {strVec : Row} (hlen : strVec.length = c) (hin : Inside r c h)
    (ih : ∀ i j, (Grid.after r c h).cell i j =
      (lastWrite i j h).getD (((created r c h).getD i []).getD j [])) (i j : Nat) :
    ((Grid.after r c h).apply c (.appendRow strVec)).cell i j =
      (lastWrite i j h).getD (((created r c h ++ [strVec]).getD i []).getD j []) := by
  rw [Grid.apply, if_pos hlen]
  dsimp only
  by_cases hi : i = (created r c h).length
  · rw [hi, length_created, Function.update_self, lastWrite_eq_none hin (le_refl _), Option.getD_none,
      ← length_created]
    simp
  · rw [getD_concat_of_ne hi, ← ih i j]
    rw [length_created] at hi
    rw [Function.update_of_ne hi]

private theorem cell_after (hin : Inside r c h) (i j : Nat) :
    (Grid.after r c h).cell i j = (lastWrite i j h).getD (((created r c h).getD i []).getD j []) := by
  induction h using List.reverseRecOn generalizing i j with
  | nil =>
    by_cases hi : i < r
    · by_cases hj : j < c
      · simp [Grid.after, lastWrite, created, accepted, hi, hj]
      · simp [Grid.after, lastWrite, created, accepted, hi, hj]
    · simp [Grid.after, lastWrite, created, accepted, hi]
  | append_singleton h op ih =>
    rw [after_concat, lastWrite_concat, created_concat]
    cases op with
    | loadFromMemory data =>
      rw [Grid.apply, ih hin.init]
      simp [accepted, writes]
    | appendRow strVec =>
      have hwrites : writes i j (.appendRow strVec) = none := rfl
      rw [hwrites, Option.none_or]
      by_cases hlen : strVec.length = c
      · have haccepted : accepted c [.appendRow strVec] = [strVec] := by simp [accepted, hlen]
        rw [haccepted]
        exact cell_appendRow hlen hin.init (ih hin.init) i j
      · rw [Grid.apply, if_neg hlen, ih hin.init]
        simp [accepted, hlen]
    | setAt rowN colN data =>
      have haccepted : accepted c [.setAt rowN colN data] = [] := rfl
      rw [cell_setAt, ih hin.init, haccepted, List.append_nil]
      cases writes i j (.setAt rowN colN data) with
      | none => rfl
      | some value => rfl

/-- The calls of a history are appends, and writes inside the counts they find. -/
structure WithinCounts (d : Byte) (r c : Nat) (h : List CSVOperation) : Prop where
  no_load : ∀ data, .loadFromMemory data ∉ h
  inside : ∀ k i j data u, k ++ [.setAt i j data] <+: h →
    operationMachine.run k (create d r c) = some u → i < u.rowsCount ∧ j < u.colsCount

private theorem WithinCounts.of_prefix {d : Byte} {k : List CSVOperation} (hh : WithinCounts d r c h)
    (hk : k <+: h) : WithinCounts d r c k where
  no_load := fun data hmem => hh.no_load data (hk.subset hmem)
  inside := fun l i j data u hl hu => hh.inside l i j data u (hl.trans hk) hu

private theorem length_accepted_le {k : List CSVOperation} (c : Nat) (hk : k <+: h) :
    (accepted c k).length ≤ (accepted c h).length := (hk.filterMap _).length_le

private theorem run_represents {d : Byte} (hh : WithinCounts d r c h)
    (hroom : r + (accepted c h).length < 2^32) :
    ∃ csv, operationMachine.run h (create d r c) = some csv ∧ Represents c csv (Grid.after r c h) := by
  induction h using List.reverseRecOn with
  | nil => exact ⟨_, rfl, represents_create d r c⟩
  | append_singleton h op ih =>
    have hle := length_accepted_le c (List.prefix_append h [op])
    obtain ⟨csv, hrun, hrep⟩ := ih (hh.of_prefix (List.prefix_append _ _)) (by omega)
    rw [after_concat]
    cases op with
    | loadFromMemory data => exact absurd (List.mem_append_right h List.mem_cons_self) (hh.no_load data)
    | appendRow strVec =>
      refine ⟨csv.appendRow strVec, EventMachine.run_concat.mpr ⟨csv, hrun, rfl⟩, ?_⟩
      apply hrep.appendRow
      intro hlen
      rw [rows_after]
      simp only [accepted, List.filterMap_append, List.filterMap_cons, hlen, if_true, List.filterMap_nil,
        List.length_append, List.length_singleton] at hroom ⊢
      omega
    | setAt rowN colN data =>
      obtain ⟨hrow, hcol⟩ := hh.inside h rowN colN data csv (List.prefix_refl _) hrun
      obtain ⟨csv', hset, hrep'⟩ :=
        hrep.setAt data (hrep.rowsCount ▸ hrow) (hrep.colsCount ▸ hcol)
      refine ⟨csv', EventMachine.run_concat.mpr ⟨csv, hrun, ?_⟩, hrep'⟩
      simp only [operationMachine, operationStep, hset]
      rfl

private theorem WithinCounts.toInside {d : Byte} (hh : WithinCounts d r c h)
    (hroom : r + (accepted c h).length < 2^32) : Inside r c h := by
  intro k i j data hk
  have hk' := (List.prefix_append k [.setAt i j data]).trans hk
  have hle := length_accepted_le c hk'
  obtain ⟨csv, hrun, hrep⟩ := run_represents (hh.of_prefix hk') (by omega)
  obtain ⟨hrow, hcol⟩ := hh.inside k i j data csv hk hrun
  exact ⟨hrep.rowsCount ▸ hrow, hrep.colsCount ▸ hcol⟩

/-- As long as the rows can be counted, a CSV keeps as many columns as it was created
with, counts the rows it was created with and those it accepted, and each cell holds
what was written to it last. -/
theorem cellStore (d : Byte) (r c : UInt32) (h : List CSVOperation)
    (hh : WithinCounts d r.toNat c.toNat h)
    (hroom : r.toNat + (accepted c.toNat h).length < 2^32) :
    ∃ csv, operationMachine.run h (create d r.toNat c.toNat) = some csv ∧ csv.Consistent ∧
      csv.colsCount = c.toNat ∧ csv.rowsCount = r.toNat + (accepted c.toNat h).length ∧
      (∀ strVec, strVec.length ≠ c.toNat → csv.appendRow strVec = csv) ∧
      (∀ i j, i < csv.rowsCount → j < c.toNat →
        csv.getAt i j = .ok ((lastWrite i j h).getD
          (((created r.toNat c.toNat h).getD i []).getD j []))) ∧
      (∀ i j data, i < csv.rowsCount → j < c.toNat →
        ∃ csv', csv.setAt i j data = .ok (csv', data) ∧ csv'.getAt i j = .ok data ∧
          ∀ i' j', ¬(i' = i ∧ j' = j) → csv'.getAt i' j' = csv.getAt i' j') := by
  obtain ⟨csv, hrun, hrep⟩ := run_represents hh hroom
  refine ⟨csv, hrun, hrep.consistent, hrep.colsCount, ?_, ?_, ?_, ?_⟩
  · rw [hrep.rowsCount, rows_after]
  · intro strVec hlen
    rw [appendRow, if_pos (hrep.colsCount ▸ hlen)]
  · intro i j hi hj
    rw [hrep.cell i j (hrep.rowsCount ▸ hi) hj, cell_after (hh.toInside hroom)]
  · intro i j data hi hj
    rw [hrep.rowsCount] at hi
    obtain ⟨csv', hset, hrep'⟩ := hrep.setAt data hi hj
    refine ⟨csv', hset, ?_, ?_⟩
    · rw [hrep'.cell i j hi hj, cell_setAt, writes, if_pos ⟨rfl, rfl⟩]
      rfl
    · intro i' j' hother
      have hwrites : writes i' j' (.setAt i j data) = none :=
        if_neg fun hsame => hother ⟨hsame.1.symm, hsame.2.symm⟩
      rw [hrep.getAt_eq, hrep'.getAt_eq, cell_setAt, hwrites]
      rfl

/-- Two rows of one column, a row that is refused and one that is accepted, and two
writes to the cell of the second row. -/
def gridCalls : List CSVOperation :=
  [.setAt 1 0 [49], .appendRow [[50], [51]], .appendRow [[52]], .setAt 1 0 [53]]

private theorem withinCounts_gridCalls :
    WithinCounts 44 (2 : UInt32).toNat (1 : UInt32).toNat gridCalls where
  no_load := by simp [gridCalls]
  inside := by
    intro k i j data u hk hu
    obtain ⟨l, hl⟩ := hk
    rcases k with _ | ⟨a, _ | ⟨b, _ | ⟨c, _ | ⟨e, k⟩⟩⟩⟩
    · obtain ⟨⟨rfl, rfl, rfl⟩, -⟩ : (i = 1 ∧ j = 0 ∧ data = [49]) ∧ _ := by simpa [gridCalls] using hl
      obtain rfl := Option.some.inj hu
      decide
    · simp [gridCalls] at hl
    · simp [gridCalls] at hl
    · obtain ⟨rfl, rfl, rfl, ⟨rfl, rfl, rfl⟩, -⟩ : a = .setAt 1 0 [49] ∧ b = .appendRow [[50], [51]] ∧
          c = .appendRow [[52]] ∧ (i = 1 ∧ j = 0 ∧ data = [53]) ∧ _ := by
        simpa [gridCalls] using hl
      obtain rfl := Option.some.inj hu
      decide
    · simp [gridCalls] at hl

theorem cellStore_four : ∃ csv,
    operationMachine.run gridCalls (create 44 (2 : UInt32).toNat (1 : UInt32).toNat) = some csv ∧
      csv.rowsCount = 3 ∧ csv.getAt 0 0 = .ok [] ∧ csv.getAt 1 0 = .ok [53] ∧
      csv.getAt 2 0 = .ok [52] := by
  obtain ⟨csv, hrun, -, -, hrows, -, hcell, -⟩ :=
    cellStore 44 2 1 gridCalls withinCounts_gridCalls (by decide)
  have hcount : csv.rowsCount = 3 := hrows
  refine ⟨csv, hrun, hcount, ?_, ?_, ?_⟩
  · exact hcell 0 0 (by omega) (by decide)
  · exact hcell 1 0 (by omega) (by decide)
  · exact hcell 2 0 (by omega) (by decide)

private theorem run_appendRow_empty (d : Byte) (n : Nat) :
    operationMachine.run [.appendRow []] (create d n 0) = some ((create d n 0).appendRow []) ∧
      ((create d n 0).appendRow []).rowsCount = toUnsigned (n + 1) := by
  refine ⟨rfl, ?_⟩
  simp [appendRow, create]

/-- The append that makes the number of rows overflow: the count is zero. -/
theorem cellStore_overflow_fails : ∃ csv,
    operationMachine.run [.appendRow []]
      (create 44 (4294967295 : UInt32).toNat (0 : UInt32).toNat) = some csv ∧
      csv.rowsCount ≠ (4294967295 : UInt32).toNat +
        (accepted (0 : UInt32).toNat [.appendRow []]).length := by
  obtain ⟨hrun, hcount⟩ := run_appendRow_empty 44 (4294967295 : UInt32).toNat
  refine ⟨_, hrun, ?_⟩
  rw [hcount]
  decide

end CSV
end Boostander.Algo
