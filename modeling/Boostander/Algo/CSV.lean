import Boostander.Algo.Text

/-! The CSV table of `algo/CSV.cpp`: its parser, its writer and its cell accessors.
Cached counts are separate from the rows, as in the source, so nothing here
assumes that they agree. -/
namespace Boostander.Algo

abbrev Row := List Bytes

/-- A CSV object. `unparsedBuffer_` is never used by the source and is left out. -/
structure CSV where
  delimiter : Byte := 44
  rowsCount : Nat := 0
  colsCount : Nat := 0
  rowsDeque : List Row := []
  deriving DecidableEq, Repr

namespace CSV

def maxFieldSize : Nat := 1024
def readBlockSize : Nat := 2048

/-- The constructor: `rows` rows of `cols` empty strings. -/
def create (delim : Byte) (rows cols : Nat) : CSV :=
  ⟨delim, rows, cols, List.replicate rows (List.replicate cols [])⟩

/-- The splitting loop of `loadFromMemory` from index `i`. The index is an
`unsigned`, so the increment wraps. Without fuel left the loop has not ended. -/
def readBlocks (data : Bytes) : Nat → Nat → Option (List Bytes)
  | 0, _ => none
  | fuel + 1, i =>
    if i < data.length then
      (readBlocks data fuel (toUnsigned (i + readBlockSize))).map
        ((data.drop i).take readBlockSize :: ·)
    else some []

/-- The number of values the loop index can take. -/
def indexCount : Nat := 2^32 / readBlockSize

/-- The part of a block the parser reads: the loop bound is `int sz = str.size()`. -/
def blockBytes (str : Bytes) : Bytes := str.take (toInt str.length).toNat

/-- The locals of `parseData`, with the rows it writes to. `curField` is the
first `cur_field_size` bytes of the buffer. -/
structure ParseState where
  curField : Bytes
  rw : Row
  rowsDeque : List Row
  curCol : Nat
  deriving DecidableEq, Repr

/-- `new row(rowsCount_)`: a row that already holds `rowsCount_` empty strings. -/
def emptyRow (rowsCount : Nat) : Row := List.replicate rowsCount []

def newField (st : ParseState) : ParseState :=
  if st.curField.length > 0 then { st with rw := st.rw ++ [st.curField], curField := [] } else st

/-- The row is stored at `cur_col`, which is an `int`: the increment that leaves its
range is a fault. -/
def newRow (rowsCount : Nat) (st : ParseState) : Except Fault ParseState :=
  if st.rw.length > 0 then
    if st.curCol + 1 < 2^31 then
      .ok { st with
        rowsDeque := (st.rowsDeque ++ [[]]).set st.curCol st.rw
        curCol := st.curCol + 1
        rw := emptyRow rowsCount }
    else .error .intOverflow
  else .ok st

/-- The body of the inner loop of `parseData`. A store into a full `cur_field` is a fault. -/
def parseByte (d : Byte) (rowsCount : Nat) (st : ParseState) (c : Byte) : Except Fault ParseState :=
  if c ≠ d ∧ c ≠ lf ∧ c ≠ cr then
    if st.curField.length < maxFieldSize then .ok { st with curField := st.curField ++ [c] }
    else .error .fieldOverflow
  else if c ≠ d then newRow rowsCount (newField st)
  else .ok (newField st)

def parseBlock (d : Byte) (rowsCount : Nat) (st : ParseState) (str : Bytes) :
    Except Fault ParseState :=
  (blockBytes str).foldlM (parseByte d rowsCount) st

/-- The state on entry of the outer loop: a placeholder row has been pushed. -/
def parseStart (csv : CSV) : ParseState :=
  ⟨[], emptyRow csv.rowsCount, csv.rowsDeque ++ [[]], 0⟩

/-- The end of `parseData`: the placeholder is popped and the counts are set. -/
def parseFinish (csv : CSV) (st : ParseState) : CSV :=
  let rows := st.rowsDeque.dropLast
  let rowsCount := toUnsigned rows.length
  { csv with
    rowsDeque := rows
    rowsCount := rowsCount
    colsCount := if rowsCount > 0 then toUnsigned (rows.headD []).length else csv.colsCount }

def parseData (csv : CSV) (readedData : List Bytes) : Except Fault CSV :=
  (readedData.foldlM (parseBlock csv.delimiter csv.rowsCount) (parseStart csv)).map (parseFinish csv)

def loadFromMemory (csv : CSV) (data : Bytes) : Except Fault CSV :=
  match readBlocks data indexCount 0 with
  | none => .error .endless
  | some readedData => parseData csv readedData

/-- An `fstream` open for reading; `contents` is `none` when the file could not be opened. -/
structure FStream where
  contents : Option Bytes
  pos : Nat := 0

namespace FStream

def seekg (f : FStream) (k : Nat) : FStream := { f with pos := k }

def tellg (f : FStream) : Int := if f.contents.isSome then f.pos else -1

/-- `read(buffer, n)` stores the bytes that are available; `rest` is what the buffer
holds from there on. -/
def read (f : FStream) (n : Nat) (rest : Nat → Byte) : Bytes × FStream :=
  let chunk := ((f.contents.getD []).drop f.pos).take n
  (chunk ++ (List.range' chunk.length (n - chunk.length)).map rest,
    { f with pos := f.pos + chunk.length })

end FStream

/-- `rounds` rounds of the reading loop of `loadFile`, from round `i` on. Each pushes
the whole buffer; `junk i` is what it holds beyond the bytes read in round `i`. -/
def readFile (junk : Nat → Nat → Byte) : Nat → Nat → FStream → List Bytes
  | 0, _, _ => []
  | rounds + 1, i, csvFile =>
    (csvFile.read readBlockSize (junk i)).1 ::
      readFile junk rounds (i + 1) (csvFile.read readBlockSize (junk i)).2

/-- The position is meant to be the end of the file where `fileSize` is taken; the
source seeks to the beginning. -/
def loadFile (file : Option Bytes) (junk : Nat → Nat → Byte) : List Bytes :=
  let csvFile : FStream := { contents := file }
  let csvFile := csvFile.seekg 0
  let fileSize := csvFile.tellg
  let csvFile := csvFile.seekg 0
  let blocksCount := (fileSize.tdiv readBlockSize).bmod (2^32)
  readFile junk (blocksCount + 1).toNat 0 csvFile

def loadFromFile (csv : CSV) (file : Option Bytes) (junk : Nat → Nat → Byte) : Except Fault CSV :=
  parseData csv (loadFile file junk)

def appendRow (csv : CSV) (strVec : Row) : CSV :=
  if strVec.length ≠ csv.colsCount then csv
  else
    let rows := csv.rowsDeque ++ [strVec]
    { csv with rowsDeque := rows, rowsCount := toUnsigned rows.length }

def setRowNum (csv : CSV) (num : Nat) : CSV := { csv with rowsCount := num }
def setColNum (csv : CSV) (num : Nat) : CSV := { csv with colsCount := num }

/-- One round of the inner loop of `saveToFile`, on column `j` of the row `rw`. -/
def saveField (csv : CSV) (rw : Row) (out : Bytes) (j : Nat) : Except Fault Bytes :=
  match rw[j]? with
  | none => .error .badIndex
  | some field =>
    .ok (out ++ field ++ if j < csv.colsCount - 1 then [csv.delimiter] else [])

/-- One round of the outer loop of `saveToFile`, on row `i`. -/
def saveRow (csv : CSV) (out : Bytes) (i : Nat) : Except Fault Bytes :=
  match csv.rowsDeque[i]? with
  | none => .error .badIndex
  | some rw => do
    let out ← (List.range csv.colsCount).foldlM (csv.saveField rw) out
    return out ++ if i < csv.rowsCount - 1 then [lf] else []

/-- The bytes `saveToFile` writes; `opened` says whether the file could be created. -/
def saveToFile (csv : CSV) (opened : Bool) : Except Fault Bytes :=
  if csv.colsCount = 0 then .error .bareThrow
  else if csv.rowsCount = 0 then .error .bareThrow
  else if !opened then .error .bareThrow
  else (List.range csv.rowsCount).foldlM csv.saveRow []

def getRowRef (csv : CSV) (rowN : Nat) : Except Fault Row :=
  if rowN ≥ csv.rowsCount then .error .bareThrow
  else match csv.rowsDeque[rowN]? with
    | none => .error .badIndex
    | some rw => .ok rw

def getAtRef (csv : CSV) (rowN colN : Nat) : Except Fault Bytes := do
  let rw ← csv.getRowRef rowN
  if colN ≥ csv.colsCount then .error .bareThrow
  else match rw[colN]? with
    | none => .error .badIndex
    | some field => .ok field

def getAt (csv : CSV) (rowN colN : Nat) : Except Fault Bytes := csv.getAtRef rowN colN

/-- Assign through `getAtRef`; the value stored is also the value returned. -/
def setAt (csv : CSV) (rowN colN : Nat) (data : Bytes) : Except Fault (CSV × Bytes) := do
  let _ ← csv.getAtRef rowN colN
  return ({ csv with rowsDeque := csv.rowsDeque.modify rowN (·.set colN data) }, data)

end CSV
end Boostander.Algo
