import Boostander.Algo.Text
import Boostander.Library.Strip

/-! The trimming of `algo/StringUtils.cpp`. The length it passes to `substr` is counted
from the beginning of the string, so white space at the beginning lets as much of that
at the end through. -/
namespace Boostander.Algo
open Library.Strip

/-- `find_first_not_of`; `none` is `npos`. -/
def findFirstNotOf (str set : Bytes) : Option Nat := str.findIdx? fun c => !set.contains c

def findLastNotOf (str set : Bytes) : Option Nat :=
  (str.reverse.findIdx? fun c => !set.contains c).map fun i => str.length - 1 - i

/-- Space, tab, form feed, vertical tab, LF and CR. -/
def whitespace : Bytes := [32, 9, 12, 11, 10, 13]

def trimWhitespace (str : Bytes) : Except Fault Bytes :=
  match findFirstNotOf str whitespace, findLastNotOf str whitespace with
  | some start, some stop => substr str start (stop + 1)
  | _, _ => .ok []

def isWhitespace (c : Byte) : Bool := whitespace.contains c

/-- The call returns the string without the white space at its ends, which therefore has
none there, and another call changes nothing. -/
structure Trims (str : Bytes) : Prop where
  exact_strip : trimWhitespace str = .ok (strip isWhitespace str)
  bare : ∀ t, trimWhitespace str = .ok t → Bare isWhitespace t
  idempotent : (trimWhitespace str >>= trimWhitespace) = trimWhitespace str

variable {lead core trail str : Bytes}

private theorem trimWhitespace_marked (h : ∀ c ∈ str, isWhitespace c = true) :
    trimWhitespace str = .ok [] := by
  have hfirst : findFirstNotOf str whitespace = none := by
    apply List.findIdx?_eq_none_iff.mpr
    intro c hc
    simpa [isWhitespace] using h c hc
  rw [trimWhitespace, hfirst]

private theorem findLastNotOf_padded (h : Padded isWhitespace lead core trail) :
    findLastNotOf (lead ++ core ++ trail) whitespace = some (lead.length + core.length - 1) := by
  have hback := findIdx?_padded h.reverse
  rw [reverse_append_append, List.length_reverse] at hback
  change Option.map _ ((lead ++ core ++ trail).reverse.findIdx? fun c => !isWhitespace c) = _
  rw [hback, Option.map_some, List.length_append, List.length_append]
  congr 1
  omega

private theorem trimWhitespace_padded (h : Padded isWhitespace lead core trail) :
    trimWhitespace (lead ++ core ++ trail) = .ok (core ++ trail.take lead.length) := by
  have hpos := List.length_pos_iff.mpr h.ne_nil
  have hfirst : findFirstNotOf (lead ++ core ++ trail) whitespace = some lead.length :=
    findIdx?_padded h
  have hcount : lead.length + core.length - 1 + 1 = core.length + lead.length := by omega
  have hinside : ¬ (lead ++ core ++ trail).length < lead.length := by
    rw [List.length_append, List.length_append]
    omega
  simp only [trimWhitespace, hfirst, findLastNotOf_padded h, hcount, substr]
  rw [if_neg hinside, List.append_assoc, List.drop_left, List.take_length_add_append]

private theorem trimWhitespace_eq_core_iff (h : Padded isWhitespace lead core trail) :
    trimWhitespace (lead ++ core ++ trail) = .ok core ↔ lead = [] ∨ trail = [] := by
  rw [trimWhitespace_padded h, Except.ok.injEq, List.append_right_eq_self, List.take_eq_nil_iff,
    List.length_eq_zero_iff]

private theorem trimWhitespace_bare (h : Bare isWhitespace str) : trimWhitespace str = .ok str := by
  by_cases hne : str = []
  · rw [hne]
    rfl
  · have hpadded : Padded isWhitespace [] str [] := ⟨by simp, h, by simp, hne⟩
    have hcore := (trimWhitespace_eq_core_iff hpadded).mpr (.inl rfl)
    rwa [List.nil_append, List.append_nil] at hcore

private theorem Trims.of_strip (h : trimWhitespace str = .ok (strip isWhitespace str)) :
    Trims str where
  exact_strip := h
  bare := by
    intro t ht
    obtain rfl := Except.ok.inj (h.symm.trans ht)
    exact bare_strip isWhitespace str
  idempotent := by
    rw [h]
    exact trimWhitespace_bare (bare_strip isWhitespace str)

/-- A string is trimmed exactly if it is white space only, or has none at its beginning,
or has none at its end. -/
theorem trims_iff (str : Bytes) :
    Trims str ↔
      (∀ c ∈ str, isWhitespace c = true) ∨ (∀ c ∈ str.head?, isWhitespace c = false) ∨
        ∀ c ∈ str.getLast?, isWhitespace c = false := by
  obtain hmarked | ⟨lead, core, trail, rfl, h⟩ := marked_or_padded isWhitespace str
  · refine iff_of_true (Trims.of_strip ?_) (.inl hmarked)
    rw [trimWhitespace_marked hmarked, strip_marked hmarked]
  · have hnot : ¬ ∀ c ∈ lead ++ core ++ trail, isWhitespace c = true := by
      obtain ⟨c, rest, rfl, hc⟩ := h.exists_cons
      intro hall
      rw [hall c (by simp)] at hc
      cases hc
    rw [head_padded h, last_padded h, or_iff_right hnot, ← trimWhitespace_eq_core_iff h]
    constructor
    · intro htrims
      rw [htrims.exact_strip, strip_padded h]
    · intro hcore
      apply Trims.of_strip
      rw [hcore, strip_padded h]

/-- For `" a "` the space at the end is returned. -/
theorem trims_both_fails : ¬ Trims [32, 97, 32] := by
  intro h
  have hexact := h.exact_strip
  exact absurd hexact (by decide)

example : trimWhitespace [32, 32, 97, 9, 10, 13] = .ok [97, 9, 10] := by rfl

end Boostander.Algo
