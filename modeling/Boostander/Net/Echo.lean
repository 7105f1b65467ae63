import Boostander.Net.Callbacks
import Boostander.Net.SendQueue

/-! The two overloads of `send`. The one for shared strings hands on a C string, so
what it sends ends before the first NUL, and so does the echo of a ping. -/
namespace Boostander.Net
open Algo

private theorem cStr_eq_self_iff (ss : Bytes) : cStr ss = ss ↔ 0 ∉ ss := by
  constructor
  · intro h hmem
    rw [← h] at hmem
    simpa using List.mem_takeWhile_imp hmem
  · exact cStr_eq_self

section
variable {γ : Type*}

/-- `send` refuses the text. -/
def Refused (ss : Bytes) : Prop := ss = [] ∨ WsSession.maxSendMsgSize < ss.length

private theorem not_sendable_iff (ss : Bytes) : ¬Sendable ss ↔ Refused ss := by
  rw [Sendable, Refused, Classical.not_and_iff_not_or_not, not_not, Nat.not_le]

private theorem appended_inj {a b : Bytes}
    (h : (if Sendable a then [a] else []) = if Sendable b then [b] else []) :
    a = b ∨ ¬Sendable a ∧ ¬Sendable b := by
  by_cases ha : Sendable a
  · rw [if_pos ha] at h
    split at h
    · exact Or.inl (List.singleton_inj.mp h)
    · cases h
  · rw [if_neg ha] at h
    split at h
    · cases h
    · rename_i hb
      exact Or.inr ⟨ha, hb⟩

private theorem overloads_agree (s : WsSession γ) (ss : Bytes) :
    (s.sendShared ss).sendView = (s.send ss).sendView ↔
      0 ∉ ss ∨ Refused (cStr ss) ∧ Refused ss := by
  rw [WsSession.sendShared, ← cStr_eq_self_iff, ← not_sendable_iff, ← not_sendable_iff]
  constructor
  · intro h
    have hqueue : (s.send (cStr ss)).sendQueue = (s.send ss).sendQueue := congrArg Prod.fst h
    rw [WsSession.sendQueue_send, WsSession.sendQueue_send] at hqueue
    exact appended_inj (List.append_cancel_left hqueue)
  · intro h
    rcases h with h | ⟨hc, hs⟩
    · rw [h]
    · rw [WsSession.send_of_not_sendable s hc, WsSession.send_of_not_sendable s hs]

/-- The ping callback queues the message it was given, byte for byte. -/
def Echoes (s : WsSession γ) (m : Bytes) : Prop :=
  ∃ calls, pingCallback m = .ok calls ∧
    (calls.foldl WsSession.sendCall s).sendQueue = s.sendQueue ++ [m]

private theorem echoes_iff (s : WsSession γ) {m : Bytes} (hlong : 2 ≤ m.length)
    (hshort : m.length ≤ readMessageMax) : Echoes s m ↔ 0 ∉ m := by
  have hqueue : (s.sendCall (.shared m)).sendQueue =
      s.sendQueue ++ if Sendable (cStr m) then [cStr m] else [] := WsSession.sendQueue_send s (cStr m)
  rw [← cStr_eq_self_iff]
  constructor
  · intro h
    obtain ⟨calls, hcalls, hsent⟩ := h
    obtain rfl := Except.ok.inj hcalls
    rw [List.foldl_cons, List.foldl_nil, hqueue] at hsent
    have htext := List.append_cancel_left hsent
    split at htext
    · exact List.singleton_inj.mp htext
    · cases htext
  · intro h
    have hsendable : Sendable m := by
      refine ⟨List.ne_nil_of_length_pos (by omega), hshort.trans ?_⟩
      decide
    refine ⟨[.shared m], rfl, ?_⟩
    rw [List.foldl_cons, List.foldl_nil, hqueue, h, if_pos hsendable]

/-- The overloads agree exactly on the texts without a NUL, apart from those that
both of them refuse, and a ping is echoed exactly if it holds no NUL. -/
theorem overloads_agree_iff (s : WsSession γ) (ss : Bytes) :
    ((s.sendShared ss).sendView = (s.send ss).sendView ↔
        0 ∉ ss ∨ Refused (cStr ss) ∧ Refused ss) ∧
      ∀ m, 2 ≤ m.length → m.length ≤ readMessageMax → (Echoes s m ↔ 0 ∉ m) := by
  refine ⟨overloads_agree s ss, ?_⟩
  intro m hlong hshort
  exact echoes_iff s hlong hshort

/-- The message `0`, NUL, `1`: one overload queues it, the other one its first byte
only, and that is what the ping callback answers. -/
theorem overloads_nul_fails :
    (WsSession.sendShared { id := [] } [48, 0, 49] : WsSession Unit).sendQueue = [[48]] ∧
      (WsSession.send { id := [] } [48, 0, 49] : WsSession Unit).sendQueue = [[48, 0, 49]] ∧
      ¬Echoes ({ id := [] } : WsSession Unit) [48, 0, 49] := by
  refine ⟨rfl, rfl, ?_⟩
  intro h
  obtain ⟨calls, hcalls, hsent⟩ := h
  obtain rfl := Except.ok.inj hcalls
  exact absurd hsent (by decide)

end
end Boostander.Net
