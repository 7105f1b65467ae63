import Boostander.Net.Callbacks

/-! When an analysis request is answered. Only the rows whose date exceeds every
date before them are converted, so only those rows have to be numeric. -/
namespace Boostander.Net
open Algo Algo.CSV

section
variable {δ : Type} (cv : Conversions δ)

/-- Field `j` of a row of a table with `cols` columns, as `getAt` reads it. -/
def fieldAt (cols : Nat) (row : Row) (j : Nat) : Except Fault Bytes :=
  if j ≥ cols then .error .bareThrow
  else match row[j]? with
    | none => .error .badIndex
    | some field => .ok field

/-- The date of a row: its first field. -/
def dateOf (row : Row) : Int := cv.dateTimeFromStr (row.headD [])

/-- The second and third field of a row convert to numbers. -/
def Numeric (row : Row) : Prop :=
  ∃ f1 f2, row[1]? = some f1 ∧ row[2]? = some f2 ∧
    (cv.lexicalCast f1).isSome ∧ (cv.lexicalCast f2).isSome

/-- The row that follows `pre` is later than the epoch and than all of `pre`. -/
def Newest (pre : List Row) (row : Row) : Prop :=
  0 < dateOf cv row ∧ ∀ r ∈ pre, dateOf cv r < dateOf cv row

/-- The payloads that are analysed to the end. -/
structure Analyzable (payload : Bytes) : Prop where
  loads : payload.length ≤ 2^32 - 2048
  fits : ∀ run ∈ payload.splitOnP (isSeparator 44), run.length ≤ 1024
  numeric : ∀ pre row post, table 44 payload = pre ++ row :: post → Newest cv pre row →
    3 ≤ ((table 44 payload).headD []).length ∧ Numeric cv row

variable {cv}

private theorem bind_ok {α β : Type} {x : Except Fault α} {f : α → Except Fault β} {b : β} :
    (x >>= f) = .ok b ↔ ∃ a, x = .ok a ∧ f a = .ok b := by
  cases x with
  | error e => simp [Bind.bind, Except.bind]
  | ok a => simp [Bind.bind, Except.bind]

private theorem getAt_ofTable {d : Byte} {rows : List Row} {i : Nat} (hi : i < rows.length)
    (j : Nat) :
    (ofTable d 0 rows).getAt i j = fieldAt (rows.headD []).length rows[i] j := by
  have hne : rows ≠ [] := List.ne_nil_of_length_pos (Nat.zero_lt_of_lt hi)
  have hrow : (ofTable d 0 rows).getRowRef i = .ok rows[i] := by
    simp [getRowRef, ofTable, Nat.not_le.mpr hi, List.getElem?_eq_getElem hi]
  have hcols : (ofTable d 0 rows).colsCount = (rows.headD []).length := if_neg hne
  simp only [getAt, getAtRef, hrow, hcols, fieldAt]
  rfl

private theorem analizeRow_ofTable {d : Byte} {rows : List Row} (a : Analysis δ) {i : Nat}
    (hi : i < rows.length) :
    analizeRow cv (ofTable d 0 rows) a i =
      analizeCells cv (fieldAt (rows.headD []).length rows[i]) a :=
  congrArg (analizeCells cv · a) (funext (getAt_ofTable hi))

/-- The analysis of a loaded table is a loop over its rows. -/
theorem analize_ofTable (d : Byte) (rows : List Row) :
    analize cv (ofTable d 0 rows) =
      rows.foldlM (fun a row => analizeCells cv (fieldAt (rows.headD []).length row) a) ⟨0, cv.zero⟩ :=
  Library.IndexLoop.foldlM_range_getElem (fun a _ hi => analizeRow_ofTable a hi) _

private theorem fieldAt_ok {cols : Nat} {row : Row} {j : Nat} {f : Bytes} :
    fieldAt cols row j = .ok f ↔ j < cols ∧ row[j]? = some f := by
  unfold fieldAt
  split
  · rename_i hj
    simp [Nat.not_lt.mpr hj]
  · rename_i hj
    cases hf : row[j]? <;> simp [Nat.lt_of_not_le hj]

private theorem toDouble_ok {f : Bytes} {x : δ} :
    toDouble cv f = .ok x ↔ cv.lexicalCast f = some x := by
  unfold toDouble
  cases cv.lexicalCast f <;> simp

private theorem fieldAt_zero {cols : Nat} {row : Row} (hcols : 0 < cols) (hrow : row ≠ []) :
    fieldAt cols row 0 = .ok (row.headD []) := by
  obtain ⟨f, rest, rfl⟩ := List.exists_cons_of_ne_nil hrow
  exact fieldAt_ok.mpr ⟨hcols, rfl⟩

theorem analizeCells_of_le {cols : Nat} {row : Row} {a : Analysis δ} (hcols : 0 < cols)
    (hrow : row ≠ []) (h : dateOf cv row ≤ a.maxDate) :
    analizeCells cv (fieldAt cols row) a = .ok a := by
  unfold analizeCells
  rw [fieldAt_zero hcols hrow]
  exact if_neg (Int.not_lt.mpr h)

theorem analizeCells_of_gt {cols : Nat} {row : Row} {a b : Analysis δ} (hcols : 0 < cols)
    (hrow : row ≠ []) (h : a.maxDate < dateOf cv row) :
    analizeCells cv (fieldAt cols row) a = .ok b ↔
      ∃ f1 f2 d1 d2, (1 < cols ∧ row[1]? = some f1) ∧ (2 < cols ∧ row[2]? = some f2) ∧
        cv.lexicalCast f1 = some d1 ∧ cv.lexicalCast f2 = some d2 ∧
        b = ⟨dateOf cv row, if !cv.isInf d2 && !cv.isZero d2 then cv.div d1 d2 else a.delim⟩ := by
  have hlast (d1 d2 : δ) :
      ((if !cv.isInf d2 && !cv.isZero d2 then pure ⟨dateOf cv row, cv.div d1 d2⟩
        else pure ⟨dateOf cv row, a.delim⟩ : Except Fault (Analysis δ)) = .ok b) ↔
        b = ⟨dateOf cv row, if !cv.isInf d2 && !cv.isZero d2 then cv.div d1 d2 else a.delim⟩ := by
    split <;> simp [pure, Except.pure, eq_comm]
  unfold analizeCells
  rw [fieldAt_zero hcols hrow]
  change (if dateOf cv row > a.maxDate then _ else _) = _ ↔ _
  rw [if_pos h]
  simp only [bind_ok, fieldAt_ok, toDouble_ok]
  constructor
  · rintro ⟨f1, hf1, d1, hd1, f2, hf2, d2, hd2, hb⟩
    exact ⟨f1, f2, d1, d2, hf1, hf2, hd1, hd2, (hlast d1 d2).mp hb⟩
  · rintro ⟨f1, f2, d1, d2, hf1, hf2, hd1, hd2, hb⟩
    exact ⟨f1, hf1, d1, hd1, f2, hf2, d2, hd2, (hlast d1 d2).mpr hb⟩

private theorem analizeCells_ok {cols : Nat} {row : Row} (a : Analysis δ) (hcols : 0 < cols)
    (hrow : row ≠ []) :
    (∃ b, analizeCells cv (fieldAt cols row) a = .ok b) ↔
      (a.maxDate < dateOf cv row → 3 ≤ cols ∧ Numeric cv row) := by
  by_cases h : a.maxDate < dateOf cv row
  · simp only [analizeCells_of_gt hcols hrow h, h, forall_const]
    constructor
    · rintro ⟨b, f1, f2, d1, d2, ⟨-, hf1⟩, ⟨hcols, hf2⟩, hd1, hd2, -⟩
      exact ⟨hcols, f1, f2, hf1, hf2, by simp [hd1], by simp [hd2]⟩
    · rintro ⟨hcols, f1, f2, hf1, hf2, hd1, hd2⟩
      obtain ⟨d1, hd1⟩ := Option.isSome_iff_exists.mp hd1
      obtain ⟨d2, hd2⟩ := Option.isSome_iff_exists.mp hd2
      exact ⟨_, f1, f2, d1, d2, ⟨by omega, hf1⟩, ⟨hcols, hf2⟩, hd1, hd2, rfl⟩
  · simp [analizeCells_of_le hcols hrow (Int.not_lt.mp h), h]

private theorem maxDate_analizeCells {cols : Nat} {row : Row} {a b : Analysis δ} (hcols : 0 < cols)
    (hrow : row ≠ []) (hb : analizeCells cv (fieldAt cols row) a = .ok b) :
    b.maxDate = max a.maxDate (dateOf cv row) := by
  by_cases h : a.maxDate < dateOf cv row
  · obtain ⟨f1, f2, d1, d2, -, -, -, -, rfl⟩ := (analizeCells_of_gt hcols hrow h).mp hb
    exact (Int.max_eq_right (Int.le_of_lt h)).symm
  · have hle := Int.not_lt.mp h
    obtain rfl := Except.ok.inj ((analizeCells_of_le hcols hrow hle).symm.trans hb)
    exact (Int.max_eq_left hle).symm

private theorem foldlM_analizeCells_ok {cols : Nat} (rows : List Row) (a : Analysis δ)
    (hcols : 0 < cols) (hrows : ∀ row ∈ rows, row ≠ []) :
    (∃ b, rows.foldlM (fun a row => analizeCells cv (fieldAt cols row) a) a = .ok b) ↔
      ∀ pre row post, rows = pre ++ row :: post →
        (a.maxDate < dateOf cv row ∧ ∀ r ∈ pre, dateOf cv r < dateOf cv row) →
        3 ≤ cols ∧ Numeric cv row := by
  induction rows generalizing a with
  | nil => simp [pure, Except.pure]
  | cons row rows ih =>
    obtain ⟨hrow, hrows⟩ := List.forall_mem_cons.mp hrows
    simp only [List.foldlM_cons, bind_ok]
    constructor
    · rintro ⟨b, c, hc, hb⟩ pre r post hsplit ⟨hmax, hpre⟩
      cases pre with
      | nil =>
        obtain ⟨rfl, rfl⟩ := List.cons.inj hsplit
        exact (analizeCells_ok a hcols hrow).mp ⟨c, hc⟩ hmax
      | cons r' pre =>
        obtain ⟨rfl, rfl⟩ := List.cons.inj hsplit
        obtain ⟨hfirst, hpre⟩ := List.forall_mem_cons.mp hpre
        refine (ih c hrows).mp ⟨b, hb⟩ pre r post rfl ⟨?_, hpre⟩
        rw [maxDate_analizeCells hcols hrow hc]
        exact Int.max_lt.mpr ⟨hmax, hfirst⟩
    · intro h
      obtain ⟨c, hc⟩ := (analizeCells_ok a hcols hrow).mpr
        fun hmax => h [] row rows rfl ⟨hmax, by simp⟩
      have hrest : ∃ b, rows.foldlM (fun a row => analizeCells cv (fieldAt cols row) a) c = .ok b := by
        refine (ih c hrows).mpr ?_
        rintro pre r post rfl ⟨hmax, hpre⟩
        rw [maxDate_analizeCells hcols hrow hc] at hmax
        obtain ⟨hmax, hfirst⟩ := Int.max_lt.mp hmax
        exact h (row :: pre) r post rfl ⟨hmax, List.forall_mem_cons.mpr ⟨hfirst, hpre⟩⟩
      obtain ⟨b, hb⟩ := hrest
      exact ⟨b, c, hc, hb⟩

private theorem analize_ok (payload : Bytes) :
    (∃ b, analize cv (ofTable 44 0 (table 44 payload)) = .ok b) ↔
      ∀ pre row post, table 44 payload = pre ++ row :: post → Newest cv pre row →
        3 ≤ ((table 44 payload).headD []).length ∧ Numeric cv row := by
  have hrows : ∀ row ∈ table 44 payload, row ≠ [] := by
    intro row hrow
    simpa using (List.mem_filter.mp hrow).2
  rw [analize_ofTable]
  cases ht : table 44 payload with
  | nil => simp [pure, Except.pure]
  | cons row rows =>
    rw [ht] at hrows
    exact foldlM_analizeCells_ok (row :: rows) ⟨0, cv.zero⟩
      (List.length_pos_iff.mpr (hrows row (by simp))) hrows

theorem csvAnalizeCallback_ok {messageBuffer : Bytes} (hne : messageBuffer ≠ [])
    {calls : List SendCall} :
    csvAnalizeCallback cv messageBuffer = .ok calls ↔
      Analyzable cv messageBuffer.tail ∧ calls =
        [.str (opcodeToStr .csvAnswer ++ stdToString (table 44 messageBuffer.tail).length)] := by
  simp only [csvAnalizeCallback, substr_tail hne, bind_ok]
  constructor
  · rintro ⟨payload, hpayload, csv, hload, b, hb, hcalls⟩
    obtain rfl := Except.ok.inj hpayload
    obtain ⟨hlen, hfit, rfl⟩ := (loadFromMemory_fresh_eq_ok 44 0 _ csv).mp hload
    exact ⟨⟨hlen, hfit, (analize_ok _).mp ⟨b, hb⟩⟩, (Except.ok.inj hcalls).symm⟩
  · rintro ⟨⟨hlen, hfit, hnumeric⟩, rfl⟩
    obtain ⟨b, hb⟩ := (analize_ok _).mpr hnumeric
    exact ⟨_, rfl, _, (loadFromMemory_fresh_eq_ok 44 0 _ _).mpr ⟨hlen, hfit, rfl⟩, b, hb, rfl⟩

/-- The message with this payload is answered, with the number of its rows. -/
def Answers (cv : Conversions δ) (payload : Bytes) : Prop :=
  ∃ csv, loadFromMemory {} payload = .ok csv ∧
    csvAnalizeCallback cv (opcodeToStr .csvAnalize ++ payload) =
      .ok [.str (opcodeToStr .csvAnswer ++ stdToString csv.rowsCount)]

/-- An analysis request is answered exactly when its payload can be loaded and
every row that is later than all before it is numeric. -/
theorem answers_iff (cv : Conversions δ) (payload : Bytes) :
    Answers cv payload ↔ Analyzable cv payload := by
  have hne : opcodeToStr .csvAnalize ++ payload ≠ [] := List.cons_ne_nil _ _
  constructor
  · rintro ⟨csv, -, hcall⟩
    exact ((csvAnalizeCallback_ok hne).mp hcall).1
  · intro h
    have hload := (loadFromMemory_fresh_eq_ok 44 0 payload _).mpr ⟨h.loads, h.fits, rfl⟩
    exact ⟨_, hload, (csvAnalizeCallback_ok hne).mpr ⟨h, rfl⟩⟩

end

/-- The text `28.02.2019 10:18:05`. -/
def someDate : Bytes := [50, 56, 46, 48, 50, 46, 50, 48, 49, 57, 32, 49, 48, 58, 49, 56, 58, 48, 53]

/-- Whole numbers, and that one date in UTC. -/
def wholeConversions : Conversions Nat where
  lexicalCast s :=
    if s ≠ [] ∧ s.all (fun c => 48 ≤ c && c ≤ 57) then
      some (s.foldl (fun n c => 10 * n + (c.toNat - 48)) 0)
    else none
  isInf _ := false
  isZero d := d == 0
  div d1 d2 := d1 / d2
  zero := 0
  dateTimeFromStr s := if s = someDate then 1551349085 * 10^9 else 0

/-- A single column with a date: the access to the second column throws. -/
theorem answers_oneColumn_fails : ¬ Answers wholeConversions (someDate ++ [lf]) := by
  rintro ⟨csv, -, hcall⟩
  obtain ⟨h, -⟩ := (csvAnalizeCallback_ok (List.cons_ne_nil _ _)).mp hcall
  obtain ⟨hcols, -⟩ := h.numeric [] [someDate] [] (by decide) ⟨by decide, by simp⟩
  exact absurd hcols (by decide)

example : csvAnalizeCallback wholeConversions
    (opcodeToStr .csvAnalize ++ someDate ++ [lf]) = .error .bareThrow := by rfl

example : csvAnalizeCallback wholeConversions
    (opcodeToStr .csvAnalize ++ someDate ++ [44, 56, 44, 50, lf]) = .ok [.str [50, 49]] := by rfl

end Boostander.Net
