import Boostander.Net.WsSession

/-! Which callback a message is handed to. The first byte is the operation code; it
is a signed character, so a byte above 127 selects one of the codes next to `2^32`. -/
namespace Boostander.Net
open Algo

def opcodeOf (c : Byte) : WsOpcode := c.toInt8.toInt32.toUInt32

private theorem wsOpcodeFromStr_cStr (message : Bytes) :
    wsOpcodeFromStr (cStr message) = opcodeOf (message.headD 0) := by
  cases message with
  | nil => rfl
  | cons c message =>
    by_cases hc : c = 0
    · subst hc
      rfl
    · simp [wsOpcodeFromStr, opcodeOf, cStr, hc]

private theorem opcodeOf_small : ∀ n : Fin 128,
    opcodeOf (UInt32.ofNat n).toUInt8 = UInt32.ofNat n := by decide

private theorem opcodeOf_toUInt8 {code : WsOpcode} (h : code ≤ 127) :
    opcodeOf code.toUInt8 = code := by
  have hcode : code.toNat < 128 := Nat.lt_succ_of_le (UInt32.le_iff_toNat_le.mp h)
  simpa using opcodeOf_small ⟨code.toNat, hcode⟩

section
variable {γ : Type*} (regs : List (NetworkOperation × γ)) (s : WsSession γ) (m : Bytes)

/-- The message carries an operation code that the table has an entry for. -/
def Registered : Prop :=
  2 ≤ m.length ∧ ∃ e ∈ (WSInputCallbacks.ofRegistrations regs).operationCallbacks,
    e.1.operationCode = opcodeOf (m.headD 0)

/-- What `handleIncomingData` returns when it puts `b` at the end of the queue. -/
def queued (b : Bound γ) : Bool × WsSession γ :=
  (true, { s with receivedMessagesQueue := { s.receivedMessagesQueue with
    callbacksQueue := s.receivedMessagesQueue.callbacksQueue ++ [b] } })

variable {regs s m}

private theorem registered_iff : Registered regs m ↔
    2 ≤ m.length ∧ ∃ callback, WSInputCallbacks.latest regs (opcodeOf (m.headD 0)) = some callback := by
  have hsome := WSInputCallbacks.isSome_find (WSInputCallbacks.ofRegistrations regs)
    { operationCode := opcodeOf (m.headD 0) }
  rw [WSInputCallbacks.find_ofRegistrations, Option.isSome_iff_exists] at hsome
  rw [Registered, hsome]

private theorem handleIncomingData_of_latest {callback : γ} (hlong : 2 ≤ m.length)
    (h : WSInputCallbacks.latest regs (opcodeOf (m.headD 0)) = some callback) :
    s.handleIncomingData (.ofRegistrations regs) m = queued s ⟨callback, m, hlong⟩ := by
  rw [WsSession.handleIncomingData, dif_neg (Nat.not_lt.mpr hlong),
    WSInputCallbacks.find_ofRegistrations, wsOpcodeFromStr_cStr, h]
  rfl

private theorem handleIncomingData_of_not_registered (h : ¬Registered regs m) :
    s.handleIncomingData (.ofRegistrations regs) m = (false, s) := by
  rw [WsSession.handleIncomingData]
  by_cases hshort : m.length < 2
  · rw [dif_pos hshort]
  · rw [dif_neg hshort, WSInputCallbacks.find_ofRegistrations, wsOpcodeFromStr_cStr]
    cases hlatest : WSInputCallbacks.latest regs (opcodeOf (m.headD 0)) with
    | none => rfl
    | some callback =>
      exact absurd (registered_iff.mpr ⟨Nat.le_of_not_lt hshort, callback, hlatest⟩) h

private theorem handleIncomingData_opcode {code : WsOpcode} {callback : γ} (hcode : code ≤ 127)
    (h : WSInputCallbacks.latest regs code = some callback) {payload : Bytes} (hne : payload ≠ []) :
    ∃ hlong, s.handleIncomingData (.ofRegistrations regs) (opcodeToStr code ++ payload) =
        queued s ⟨callback, opcodeToStr code ++ payload, hlong⟩ ∧
      substr (opcodeToStr code ++ payload) 1 ((opcodeToStr code ++ payload).length - 1) =
        .ok payload := by
  have hlong : 2 ≤ (opcodeToStr code ++ payload).length := by
    have hpos := List.length_pos_iff.mpr hne
    simp only [opcodeToStr, List.singleton_append, List.length_cons]
    omega
  refine ⟨hlong, handleIncomingData_of_latest hlong ?_, substr_tail (List.cons_ne_nil _ _)⟩
  rw [← h]
  exact congrArg _ (opcodeOf_toUInt8 hcode)

/-- A message is queued exactly if it has a payload and its first byte selects an
entry of the table, then for the callback registered last, and it is dropped otherwise. -/
theorem handleIncomingData_exact (regs : List (NetworkOperation × γ)) (s : WsSession γ) (m : Bytes) :
    ((∃ b, s.handleIncomingData (.ofRegistrations regs) m = queued s b) ↔ Registered regs m) ∧
      (∀ b, s.handleIncomingData (.ofRegistrations regs) m = queued s b →
        b.message = m ∧
          WSInputCallbacks.latest regs (opcodeOf (m.headD 0)) = some b.callback) ∧
      (¬Registered regs m → s.handleIncomingData (.ofRegistrations regs) m = (false, s)) ∧
      ∀ code callback payload, code ≤ 127 → WSInputCallbacks.latest regs code = some callback →
        payload ≠ [] →
        ∃ hlong, s.handleIncomingData (.ofRegistrations regs) (opcodeToStr code ++ payload) =
            queued s ⟨callback, opcodeToStr code ++ payload, hlong⟩ ∧
          substr (opcodeToStr code ++ payload) 1 ((opcodeToStr code ++ payload).length - 1) =
            .ok payload := by
  have hdrop : ¬Registered regs m → ∀ b, s.handleIncomingData (.ofRegistrations regs) m ≠ queued s b := by
    intro hnot b hb
    have hflag := congrArg Prod.fst ((handleIncomingData_of_not_registered hnot).symm.trans hb)
    exact absurd hflag Bool.false_ne_true
  refine ⟨⟨?_, ?_⟩, ?_, handleIncomingData_of_not_registered, ?_⟩
  · intro h
    obtain ⟨b, hb⟩ := h
    by_contra hnot
    exact hdrop hnot b hb
  · intro h
    obtain ⟨hlong, callback, hlatest⟩ := registered_iff.mp h
    exact ⟨_, handleIncomingData_of_latest hlong hlatest⟩
  · intro b hb
    by_cases h : Registered regs m
    · obtain ⟨hlong, callback, hlatest⟩ := registered_iff.mp h
      have hsame := congrArg (fun r => r.2.receivedMessagesQueue.callbacksQueue)
        ((handleIncomingData_of_latest (s := s) hlong hlatest).symm.trans hb)
      obtain rfl := List.singleton_inj.mp (List.append_cancel_left hsame)
      exact ⟨rfl, hlatest⟩
    · exact absurd hb (hdrop h b)
  · intro code callback payload hcode hlatest hne
    exact handleIncomingData_opcode hcode hlatest hne

end

/-- The second registration for a code replaces the first, and a byte above 127
selects a code next to `2^32`. -/
example : (WsSession.handleIncomingData
    (.ofRegistrations [(⟨48, []⟩, 1), (⟨0xffffffff, []⟩, 2), (⟨48, []⟩, 3)]) { id := [] }
    [255, 48]).2.receivedMessagesQueue.callbacksQueue.map (·.callback) = [2] := by rfl

end Boostander.Net
