import Boostander.Algo.Text

/-! Operation codes of `algo/NetworkOperation.hpp` and the callback table of
`algo/CallbackManager.hpp`, a `std::map` ordered by operation code alone. -/
namespace Boostander.Algo

/-- `WS_OPCODE`. A cast from `char` gives any value of the underlying type,
not only the enumerators. -/
abbrev WsOpcode := UInt32

namespace WsOpcode

def ping : WsOpcode := 48
def csvAnalize : WsOpcode := 49
def csvAnswer : WsOpcode := 50

end WsOpcode

/-- One character: the low byte of the code. -/
def opcodeToStr (code : WsOpcode) : Bytes := [code.toUInt8]

/-- The first character, sign extended; `str[0]` of an empty string is NUL. -/
def wsOpcodeFromStr (str : Bytes) : WsOpcode := (str.headD 0).toInt8.toInt32.toUInt32

/-- An operation. Its name serves logging only and may be empty; nothing reads its
`operationCodeStr_`. -/
structure NetworkOperation where
  operationCode : WsOpcode
  operationName : Bytes := []
  deriving DecidableEq, Repr

namespace NetworkOperation

def lt (lhs rhs : NetworkOperation) : Bool := lhs.operationCode < rhs.operationCode

end NetworkOperation

/-- The table of callbacks, in the order of its keys. -/
structure WSInputCallbacks (γ : Type*) where
  operationCallbacks : List (NetworkOperation × γ) := []

namespace WSInputCallbacks
variable {γ : Type*}

/-- `map[op] = cb`: an equivalent key keeps its place and its name. -/
def assign (op : NetworkOperation) (cb : γ) :
    List (NetworkOperation × γ) → List (NetworkOperation × γ)
  | [] => [(op, cb)]
  | (key, old) :: rest =>
    if op.lt key then (op, cb) :: (key, old) :: rest
    else if key.lt op then (key, old) :: assign op cb rest
    else (key, cb) :: rest

def addCallback (t : WSInputCallbacks γ) (op : NetworkOperation) (cb : γ) : WSInputCallbacks γ :=
  ⟨assign op cb t.operationCallbacks⟩

def find (t : WSInputCallbacks γ) (op : NetworkOperation) : Option γ :=
  (t.operationCallbacks.find? fun e => !e.1.lt op && !op.lt e.1).map (·.2)

def ofRegistrations (regs : List (NetworkOperation × γ)) : WSInputCallbacks γ :=
  regs.foldl (fun t reg => t.addCallback reg.1 reg.2) {}

/-- The callback registered last for a code. -/
def latest (regs : List (NetworkOperation × γ)) (code : WsOpcode) : Option γ :=
  (regs.reverse.find? (·.1.operationCode = code)).map (·.2)

private theorem equivalent_iff (op op' : NetworkOperation) :
    (!op.lt op' && !op'.lt op) = decide (op.operationCode = op'.operationCode) := by
  rw [Bool.eq_iff_iff]
  simp only [NetworkOperation.lt, Bool.and_eq_true, Bool.not_eq_true', decide_eq_false_iff_not,
    decide_eq_true_eq, UInt32.not_lt]
  constructor
  · intro h
    exact UInt32.le_antisymm h.2 h.1
  · intro h
    rw [h]
    exact ⟨UInt32.le_refl _, UInt32.le_refl _⟩

private theorem find_eq (t : WSInputCallbacks γ) (op : NetworkOperation) :
    t.find op =
      (t.operationCallbacks.find? (·.1.operationCode = op.operationCode)).map (·.2) := by
  rw [find]
  congr 2
  funext e
  exact equivalent_iff e.1 op

private theorem find_addCallback (t : WSInputCallbacks γ) (op op' : NetworkOperation) (cb : γ) :
    (t.addCallback op cb).find op' =
      if op.operationCode = op'.operationCode then some cb else t.find op' := by
  obtain ⟨l⟩ := t
  simp only [find_eq, addCallback]
  induction l with
  | nil => by_cases h : op.operationCode = op'.operationCode <;> simp [assign, h]
  | cons entry rest ih =>
    obtain ⟨key, old⟩ := entry
    rw [assign]
    split
    · by_cases h : op.operationCode = op'.operationCode <;> simp [h]
    split
    · rename_i hgt
      have hne : key.operationCode ≠ op.operationCode := UInt32.ne_of_lt (of_decide_eq_true hgt)
      by_cases hkey : key.operationCode = op'.operationCode
      · have hop : op.operationCode ≠ op'.operationCode := fun h => hne (hkey.trans h.symm)
        simp [hkey, hop]
      · simpa [hkey] using ih
    · rename_i hlt hgt
      have hkey := equivalent_iff key op
      simp only [hlt, hgt, Bool.not_false, Bool.and_true, Bool.true_eq, decide_eq_true_eq] at hkey
      by_cases h : op.operationCode = op'.operationCode <;> simp [hkey, h]

/-- A lookup finds what was registered last. -/
theorem find_ofRegistrations (regs : List (NetworkOperation × γ)) (op : NetworkOperation) :
    (ofRegistrations regs).find op = latest regs op.operationCode := by
  induction regs using List.reverseRecOn with
  | nil => rfl
  | append_singleton regs reg ih =>
    rw [ofRegistrations, List.foldl_append, List.foldl_cons, List.foldl_nil, find_addCallback]
    by_cases h : reg.1.operationCode = op.operationCode
    · simp [latest, h]
    · rw [if_neg h]
      simpa [latest, ofRegistrations, h] using ih

theorem isSome_find (t : WSInputCallbacks γ) (op : NetworkOperation) :
    (t.find op).isSome ↔ ∃ e ∈ t.operationCallbacks, e.1.operationCode = op.operationCode := by
  simp [find_eq]

end WSInputCallbacks
end Boostander.Algo
