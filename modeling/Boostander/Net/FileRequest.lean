import Boostander.Net.RowCount

/-! The file of the client, `getFileContents` of `storage/path.cpp`. The buffer is as long as
the file and full of spaces, so what cannot be read of the file is sent as spaces. -/
namespace Boostander.Storage
open Algo Algo.CSV Library.Segments

/-- What a path names: `size` is what `file_size` returns, and `contents` what the stream
can read, if it opens. -/
inductive PathState where
  | empty
  | missing
  | file (size : Nat) (contents : Option Bytes)

def getFileContents : PathState → Bytes
  | .empty => []
  | .missing => []
  | .file size contents =>
    let f : FStream := { contents := contents }
    (f.read size fun _ => 32).1

namespace PathState

def bytesRead : PathState → Bytes
  | .file size contents => (contents.getD []).take size
  | _ => []

def size : PathState → Nat
  | .file size _ => size
  | _ => 0

/-- The spaces that are left behind them. -/
def padding (path : PathState) : Nat := path.size - path.bytesRead.length

private theorem length_bytesRead_le (path : PathState) : path.bytesRead.length ≤ path.size := by
  cases path with
  | file size contents => exact List.length_take_le size (contents.getD [])
  | _ => rfl

end PathState

private theorem getFileContents_eq (path : PathState) :
    getFileContents path = path.bytesRead ++ List.replicate path.padding 32 := by
  cases path with
  | file size contents =>
    simp [getFileContents, FStream.read, PathState.bytesRead, PathState.padding, PathState.size,
      List.map_const']
  | _ => rfl

private theorem length_getFileContents (path : PathState) :
    (getFileContents path).length = path.size := by
  have hle := path.length_bytesRead_le
  rw [getFileContents_eq, List.length_append, List.length_replicate, PathState.padding]
  omega

private theorem table_spaces (s : Bytes) (n : Nat) :
    table 44 (s ++ List.replicate n 32) = table 44 s := by
  induction n with
  | zero => rw [List.replicate_zero, List.append_nil]
  | succ n ih =>
    rw [List.replicate_succ', ← List.append_assoc, table_concat 44 _ (by decide), ih]

private theorem openRun_spaces (s : Bytes) (n : Nat) :
    (openRun (isSeparator 44) (s ++ List.replicate n 32)).length =
      (openRun (isSeparator 44) s).length + n := by
  induction n with
  | zero => rw [List.replicate_zero, List.append_nil, Nat.add_zero]
  | succ n ih =>
    rw [List.replicate_succ', ← List.append_assoc, openRun_concat _ (by decide), List.length_append,
      ih, List.length_singleton, Nat.add_assoc]

private theorem openRun_le {s : Bytes} (h : FitsBuffer 44 s) :
    (openRun (isSeparator 44) s).length ≤ maxFieldSize := by
  apply h
  rw [splitOnP_eq_runs]
  exact List.mem_append_right _ (List.mem_singleton_self _)

private theorem fitsBuffer_spaces (s : Bytes) (n : Nat) :
    FitsBuffer 44 (s ++ List.replicate n 32) ↔
      FitsBuffer 44 s ∧ (openRun (isSeparator 44) s).length + n ≤ maxFieldSize := by
  induction n with
  | zero =>
    rw [List.replicate_zero, List.append_nil, Nat.add_zero]
    exact ⟨fun h => ⟨h, openRun_le h⟩, And.left⟩
  | succ n ih =>
    rw [List.replicate_succ', ← List.append_assoc, fitsBuffer_concat 44 _ (by decide), ih,
      openRun_spaces]
    constructor
    · rintro ⟨⟨hfit, -⟩, hroom⟩
      exact ⟨hfit, by omega⟩
    · rintro ⟨hfit, hroom⟩
      exact ⟨⟨hfit, by omega⟩, by omega⟩

/-- The client's check of a file it may not have read as a whole: the spaces make no row,
but they lengthen the field that is open where the reading stopped, and the check
overruns its buffer if that or another field has more than 1024 bytes. -/
theorem fileCheck_iff (path : PathState) (csv : CSV) :
    CSV.loadFromMemory {} (getFileContents path) = .ok csv ↔
      path.size ≤ 2^32 - 2048 ∧
        (∀ run ∈ path.bytesRead.splitOnP (isSeparator 44), run.length ≤ 1024) ∧
        (openRun (isSeparator 44) path.bytesRead).length + path.padding ≤ 1024 ∧
        ofTable 44 0 (table 44 path.bytesRead) = csv := by
  have hload := loadFromMemory_fresh_eq_ok 44 0 (getFileContents path) csv
  rw [length_getFileContents, getFileContents_eq, fitsBuffer_spaces, table_spaces, and_assoc] at hload
  rw [getFileContents_eq]
  exact hload

/-- A file of two bytes that cannot be read loads as no rows. -/
example : CSV.loadFromMemory {} (getFileContents (.file 2 none)) = .ok {} := by decide

private theorem table_cStr_spaces (s : Bytes) (n : Nat) :
    table 44 (cStr (s ++ List.replicate n 32)) = table 44 (cStr s) := by
  by_cases hnul : 0 ∈ s
  · have hcut : cStr (s ++ List.replicate n 32) = cStr s := by
      rw [cStr, cStr, List.takeWhile_append, if_neg]
      intro hall
      have hself := (List.takeWhile_prefix _).eq_of_length hall
      have hzero := List.takeWhile_eq_self_iff.mp hself 0 hnul
      cases hzero
    rw [hcut]
  · have hspaces : 0 ∉ s ++ List.replicate n 32 := by
      rw [List.mem_append, not_or]
      refine ⟨hnul, fun hmem => ?_⟩
      cases List.eq_of_mem_replicate hmem
    rw [cStr_eq_self hspaces, cStr_eq_self hnul, table_spaces]

end Boostander.Storage

namespace Boostander.Net
open Algo Algo.CSV Library Storage

section
variable {δ : Type} {cv : Conversions δ} {path : PathState}
  {s₀ client server server' : WsSession ServerCallback} {m : Bytes} {b : Bound ServerCallback}
  {calls : List SendCall}

/-- From the file to the answer: the server reports the rows that end within the bytes
the client could read of its file and before their first NUL, whatever the size of the
file and however much of it was left unread. -/
theorem file_rows_answered {h : List (SessionEvent ServerCallback)} (h₀ : s₀.Reading)
    (hr : (sessionMachine operationCallbacks (Bound.call cv)).run h s₀ = some server)
    (hstart : ∀ e ∈ h, ¬e.Starts)
    (hserved : RequestServed cv (getFileContents path) client server server' m b calls) :
    calls = [.str (opcodeToStr .csvAnswer ++
      stdToString (table 44 (cStr path.bytesRead)).length)] := by
  have hserver := atMostOnce_of_run h₀ hstart List.prefix_rfl hr
  rw [hserved.answer hserver, getFileContents_eq, table_cStr_spaces]

end

/-- A file that is cut to its first row, of one field, after its size was taken. -/
def shrunkFile : PathState := .file 4 (some [65, lf])

theorem file_rows_answered_shrunk : ∃ server' m b calls,
    RequestServed wholeConversions (getFileContents shrunkFile) clientSession serverSession server' m b
      calls ∧
    calls = [.str (opcodeToStr .csvAnswer ++
      stdToString (table 44 (cStr shrunkFile.bytesRead)).length)] := by
  have hcontents : getFileContents shrunkFile = [65, lf, 32, 32] := rfl
  have hcall : csvAnalizeCallback wholeConversions [49, 65, lf, 32, 32] = .ok [.str [50, 49]] := by rfl
  obtain ⟨server', m, b, calls, hserved⟩ : ∃ server' m b calls, RequestServed wholeConversions
      [65, lf, 32, 32] clientSession serverSession server' m b calls :=
    ⟨_, [49, 65, lf, 32, 32], ⟨.csvAnalize, [49, 65, lf, 32, 32], by decide⟩, [.str [50, 49]],
      rfl, rfl, rfl, rfl, hcall⟩
  rw [← hcontents] at hserved
  exact ⟨server', m, b, calls, hserved,
    file_rows_answered (h := []) ⟨rfl, rfl, rfl⟩ rfl (by simp) hserved⟩

end Boostander.Net
