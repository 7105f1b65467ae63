import Mathlib

/-! Bytes, the parts of `std::string` the program calls, and the ways a call of
the program leaves other than by returning. -/
namespace Boostander.Algo

abbrev Byte := UInt8

/-- A `std::string`: any bytes, NUL included. -/
abbrev Bytes := List Byte

def lf : Byte := 10
def cr : Byte := 13

/-- How a call ends when it does not return. The index fault and the two overflows
are undefined behaviour, after which nothing more is said of the run. -/
inductive Fault where
  /-- `boost::bad_lexical_cast` leaves the call. -/
  | badLexicalCast
  /-- `throw;` with no active exception, that is `std::terminate`. -/
  | bareThrow
  /-- `std::out_of_range`, thrown by `std::string::substr`. -/
  | outOfRange
  /-- `operator[]` past the end of a row or of the deque of rows. -/
  | badIndex
  /-- A store past the end of `cur_field`. -/
  | fieldOverflow
  /-- An `int` is incremented past the largest one. -/
  | intOverflow
  /-- A loop never ends, as that of `loadFromMemory` on a text that is too long. -/
  | endless
  /-- A `BOOST_ASSERT` fails. -/
  | assertFailed
  deriving DecidableEq, Repr

/-- `read_message_max` of the stream of a session: a longer message is a protocol failure. -/
def readMessageMax : Nat := 64 * 1024 * 1024

def toUnsigned (n : Nat) : Nat := n % 2^32

def toInt (n : Nat) : Int := Int.bmod n (2^32)

/-- The string a `const char*` conversion of `s` gives: up to the first NUL. -/
def cStr (s : Bytes) : Bytes := s.takeWhile (· ≠ 0)

def substr (s : Bytes) (pos n : Nat) : Except Fault Bytes :=
  if s.length < pos then .error .outOfRange else .ok ((s.drop pos).take n)

def stdToString (n : Nat) : Bytes := (Nat.toDigits 10 n).map (fun c => c.toNat.toUInt8)

theorem cStr_eq_self {s : Bytes} (h : 0 ∉ s) : cStr s = s := by
  rw [cStr, List.takeWhile_eq_self_iff]
  intro c hc
  simpa using fun h0 : c = 0 => h (h0 ▸ hc)

private theorem map_stdToString (n : Nat) :
    (stdToString n).map (fun b => Char.ofNat b.toNat) = Nat.toDigits 10 n := by
  rw [stdToString, List.map_map]
  conv_rhs => rw [← List.map_id (Nat.toDigits 10 n)]
  apply List.map_congr_left
  intro c hc
  have hdigit : c.isDigit = true := Nat.isDigit_of_mem_toDigits (by decide) (by decide) hc
  have hsmall : c.toNat < 256 := by
    simp only [Char.isDigit, Bool.and_eq_true, decide_eq_true_eq] at hdigit
    exact Nat.lt_of_le_of_lt (UInt32.le_iff_toNat_le.mp hdigit.2) (by decide)
  simp [Nat.mod_eq_of_lt hsmall]

theorem stdToString_injective : Function.Injective stdToString := by
  intro n m h
  rw [← Nat.ofDigitChars_ten_toDigits (n := n), ← Nat.ofDigitChars_ten_toDigits (n := m),
    ← map_stdToString n, ← map_stdToString m, h]

theorem substr_tail {s : Bytes} (h : s ≠ []) : substr s 1 (s.length - 1) = .ok s.tail := by
  cases s with
  | nil => exact absurd rfl h
  | cons c s => simp [substr]

theorem toUnsigned_of_lt {n : Nat} (h : n < 2^32) : toUnsigned n = n := Nat.mod_eq_of_lt h

theorem toInt_of_lt {n : Nat} (h : n < 2^31) : toInt n = n := by
  unfold toInt
  rw [Int.bmod_eq_of_le] <;> omega

end Boostander.Algo
