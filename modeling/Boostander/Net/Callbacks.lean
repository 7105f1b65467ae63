import Boostander.Algo.CSVLoad
import Boostander.Library.IndexLoop
import Boostander.Net.WsSession

/-! The callbacks of `net/websockets/WsServer.cpp` and the table the server
registers them in. A callback sends only as its last act, so it either makes all
its calls of `send` or ends in a fault before the first. -/
namespace Boostander.Net
open Algo

/-- What the analysis takes from libraries: `boost::lexical_cast<double>`,
undefined where it throws, the operations on `double`, and `dateTimeFromStr` in
ticks of the system clock. -/
structure Conversions (δ : Type) where
  lexicalCast : Bytes → Option δ
  isInf : δ → Bool
  isZero : δ → Bool
  div : δ → δ → δ
  zero : δ
  dateTimeFromStr : Bytes → Int

/-- The locals of the analysis loop. -/
structure Analysis (δ : Type) where
  maxDate : Int
  delim : δ
  deriving DecidableEq, Repr

section
variable {δ : Type} (cv : Conversions δ)

def toDouble (s : Bytes) : Except Fault δ :=
  match cv.lexicalCast s with
  | some d => .ok d
  | none => .error .badLexicalCast

/-- One round of the analysis loop, on a row whose fields `cell` reads. -/
def analizeCells (cell : Nat → Except Fault Bytes) (a : Analysis δ) : Except Fault (Analysis δ) := do
  let dt := cv.dateTimeFromStr (← cell 0)
  if dt > a.maxDate then
    let d1 ← toDouble cv (← cell 1)
    let d2 ← toDouble cv (← cell 2)
    if !cv.isInf d2 && !cv.isZero d2 then return ⟨dt, cv.div d1 d2⟩
    else return ⟨dt, a.delim⟩
  else return a

def analizeRow (csv : CSV) (a : Analysis δ) (i : Nat) : Except Fault (Analysis δ) :=
  analizeCells cv (csv.getAt i) a

/-- The analysis loop. A default constructed `time_point` is the epoch. -/
def analize (csv : CSV) : Except Fault (Analysis δ) :=
  (List.range csv.rowsCount).foldlM (analizeRow cv csv) ⟨0, cv.zero⟩

def pingCallback (messageBuffer : Bytes) : Except Fault (List SendCall) :=
  .ok [.shared messageBuffer]

def csvAnalizeCallback (messageBuffer : Bytes) : Except Fault (List SendCall) := do
  let payload ← substr messageBuffer 1 (messageBuffer.length - 1)
  let csv ← CSV.loadFromMemory {} payload
  let _ ← analize cv csv
  return [.str (opcodeToStr .csvAnswer ++ stdToString csv.rowsCount)]

def csvAnswerCallback (messageBuffer : Bytes) : Except Fault (List SendCall) := do
  let _ ← substr messageBuffer 1 (messageBuffer.length - 1)
  return []

end

/-- The functions the server registers. -/
inductive ServerCallback where
  | ping
  | csvAnalize
  | csvAnswer
  deriving DecidableEq, Repr

def Bound.call {δ : Type} (cv : Conversions δ) (b : Bound ServerCallback) :
    Except Fault (List SendCall) :=
  match b.callback with
  | .ping => pingCallback b.message
  | .csvAnalize => csvAnalizeCallback cv b.message
  | .csvAnswer => csvAnswerCallback b.message

/-- The table filled by the constructor of `WSServer`. -/
def operationCallbacks : WSInputCallbacks ServerCallback :=
  WSInputCallbacks.addCallback
    (WSInputCallbacks.addCallback
      (WSInputCallbacks.addCallback {} ⟨.ping, opcodeToStr .ping⟩ .ping)
      ⟨.csvAnalize, opcodeToStr .csvAnalize⟩ .csvAnalize)
    ⟨.csvAnswer, opcodeToStr .csvAnswer⟩ .csvAnswer

end Boostander.Net
