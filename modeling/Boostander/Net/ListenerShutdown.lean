import Boostander.Net.WsListener

/-! The shutdown of a listener. Its closure may run between the completion of an
accept and the handler of it; `needClose_` is what the handlers then go by. -/
namespace Boostander.Net
open Algo Library

namespace WsListener

def isCompletion : ListenerEvent → Bool
  | .completed _ => true
  | _ => false

variable {l l' : WsListener}

private theorem accepts_doAccept_le (l : WsListener) : l.doAccept.accepts ≤ l.accepts + 1 := by
  rw [doAccept]
  split
  · exact Nat.le_succ _
  · exact Nat.le_refl _

private theorem completed_doAccept (l : WsListener) : l.doAccept.completed = l.completed := by
  rw [doAccept]
  split
  · rfl
  · rfl

/-- The accepts that are outstanding or have their handler pending. -/
def inFlight (l : WsListener) : Nat := l.accepts + l.completed.length

private theorem inFlight_doAccept_le (l : WsListener) : l.doAccept.inFlight ≤ l.inFlight + 1 := by
  have haccepts := accepts_doAccept_le l
  rw [inFlight, inFlight, completed_doAccept]
  omega

private theorem inFlight_run_le (l : WsListener) : l.run.inFlight ≤ l.inFlight + 1 := by
  rw [run]
  split
  · exact Nat.le_succ _
  · exact inFlight_doAccept_le l

private theorem inFlight_onAccept_le (l : WsListener) (ec : Option ErrorCode) (newSessId : Bytes) :
    (l.onAccept ec newSessId).inFlight ≤ l.inFlight + 1 := by
  rw [WsListener.onAccept]
  split
  · exact Nat.le_succ _
  split
  · exact inFlight_doAccept_le l
  · exact inFlight_doAccept_le (l.addSession newSessId)

private theorem inFlight_step {e : ListenerEvent} (hs : listenerStep e l = some l') :
    l'.inFlight ≤ l.inFlight + [e].count .run := by
  cases listenerMove_of_step hs with
  | run => exact inFlight_run_le l
  | completed ec hpos =>
    simp only [inFlight, acceptDone, List.length_append, List.length_singleton]
    omega
  | onAccept ec newSessId hmem =>
    have hlength := List.length_erase_of_mem hmem
    have hpos := List.length_pos_of_mem hmem
    have hle := inFlight_onAccept_le (l.handlerDone ec) ec newSessId
    simp only [inFlight, handlerDone, hlength] at hle ⊢
    omega
  | addClientSession newSessId =>
    rw [WsListener.addClientSession]
    split
    · exact Nat.le_add_right _ _
    · exact Nat.le_add_right _ _
  | stop => exact Nat.le_add_right _ _
  | stopped hpos => exact Nat.le_add_right _ _

private theorem inFlight_le {b : Bool} {h : List ListenerEvent}
    (hr : listenerMachine.run h { acceptorOpen := b } = some l) : l.inFlight ≤ h.count .run := by
  apply (EventMachine.reaches_of_run hr).invariant fun h l => l.inFlight ≤ h.count .run
  · exact Nat.le_refl 0
  · intro h u v e hu _ hs
    have hstep := inFlight_step hs
    rw [List.count_append]
    omega

private theorem needClose_step {e : ListenerEvent} (hs : listenerStep e l = some l') :
    l'.needClose = true ↔ l.needClose = true ∨ e = .stopped := by
  have of_flags (hflags : l'.flags = l.flags) (he : e ≠ .stopped) :
      l'.needClose = true ↔ l.needClose = true ∨ e = .stopped := by
    rw [(Prod.mk.inj hflags).2]
    simp [he]
  cases listenerMove_of_step hs with
  | run => exact of_flags (flags_run l) ListenerEvent.noConfusion
  | completed ec hpos => exact of_flags rfl ListenerEvent.noConfusion
  | onAccept ec newSessId hmem =>
    exact of_flags (flags_onAccept (l.handlerDone ec) ec newSessId) ListenerEvent.noConfusion
  | addClientSession newSessId =>
    exact of_flags (flags_addClientSession l newSessId) ListenerEvent.noConfusion
  | stop => exact of_flags rfl ListenerEvent.noConfusion
  | stopped hpos => exact iff_of_true rfl (Or.inr rfl)

private theorem needClose_iff {b : Bool} {h : List ListenerEvent}
    (hr : listenerMachine.run h { acceptorOpen := b } = some l) : l.needClose = true ↔ .stopped ∈ h := by
  apply (EventMachine.reaches_of_run hr).invariant fun h l => l.needClose = true ↔ .stopped ∈ h
  · simp
  · intro h u v e hu _ hs
    rw [needClose_step hs, hu, List.mem_append, List.mem_singleton, eq_comm (a := e)]

private theorem closed_step {e : ListenerEvent} (hclose : l.needClose = true)
    (hs : listenerStep e l = some l') :
    l'.added = l.added ∧ l'.accepts + [e].countP isCompletion = l.accepts := by
  cases listenerMove_of_step hs with
  | run => simp [run, hclose, isCompletion]
  | completed ec hpos => exact ⟨rfl, Nat.sub_add_cancel hpos⟩
  | onAccept ec newSessId hmem => simp [WsListener.onAccept, handlerDone, hclose, isCompletion]
  | addClientSession newSessId => simp [WsListener.addClientSession, hclose, isCompletion]
  | stop => exact ⟨rfl, rfl⟩
  | stopped hpos => exact ⟨rfl, rfl⟩

private theorem closed_run {k : List ListenerEvent} (hclose : l.needClose = true)
    (hr : listenerMachine.run k l = some l') :
    l'.added = l.added ∧ l'.accepts + k.countP isCompletion = l.accepts := by
  have hall : l'.needClose = true ∧ l'.added = l.added ∧
      l'.accepts + k.countP isCompletion = l.accepts := by
    apply (EventMachine.reaches_of_run hr).invariant fun k u => u.needClose = true ∧
      u.added = l.added ∧ u.accepts + k.countP isCompletion = l.accepts
    · exact ⟨hclose, rfl, rfl⟩
    · intro k u v e hu _ hs
      obtain ⟨hclose, hadded, haccepts⟩ := hu
      obtain ⟨hadded', haccepts'⟩ := closed_step hclose hs
      refine ⟨(needClose_step hs).mpr (.inl hclose), hadded'.trans hadded, ?_⟩
      rw [List.countP_append]
      omega
  exact hall.2

private theorem added_onAccept {newSessId : Bytes} (hclose : l.needClose = false)
    (hsocket : l.socketOpen = true) (hopen : l.acceptorOpen = true)
    (hs : listenerStep (.onAccept none newSessId) l = some l') : l'.added = l.added ++ [newSessId] := by
  cases listenerMove_of_step hs
  simp [WsListener.onAccept, handlerDone, isAccepting, addSession, doAccept, hclose, hsocket, hopen]

/-- In every run with one call of `run` at most one accept is outstanding; before the
closure of `stop` the handler of a successful accept adds one session, and after it
no session is added and the outstanding accepts only complete. -/
theorem shutdown_clean (b : Bool) (h : List ListenerEvent) (l : WsListener)
    (hr : listenerMachine.run h { acceptorOpen := b } = some l) (hrun : h.count .run ≤ 1) :
    l.accepts ≤ 1 ∧
    (.stopped ∉ h → ∀ newSessId l', listenerStep (.onAccept none newSessId) l = some l' →
      l.socketOpen = true → l.acceptorOpen = true → l'.added = l.added ++ [newSessId]) ∧
    (.stopped ∈ h → ∀ k l', listenerMachine.run k l = some l' →
      l'.added = l.added ∧ l'.accepts + k.countP isCompletion = l.accepts) := by
  refine ⟨?_, ?_, ?_⟩
  · have hle := inFlight_le hr
    rw [inFlight] at hle
    omega
  · intro hstopped newSessId l' hs hsocket hopen
    have hclose : l.needClose = false :=
      Bool.eq_false_iff.mpr fun hclose => hstopped ((needClose_iff hr).mp hclose)
    exact added_onAccept hclose hsocket hopen hs
  · intro hstopped k l' hr'
    exact closed_run ((needClose_iff hr).mpr hstopped) hr'

/-- The closure runs between the completion of an accept and the handler of it. -/
theorem shutdown_clean_queued : ∃ l l',
    listenerMachine.run [.run, .completed none, .stop, .stopped] { acceptorOpen := true } = some l ∧
    listenerMachine.run [.onAccept none [1], .addClientSession [2], .run] l = some l' ∧
    l'.added = l.added ∧ l'.accepts = 0 := by
  obtain ⟨l, hr⟩ : ∃ l, listenerMachine.run [.run, .completed none, .stop, .stopped]
      { acceptorOpen := true } = some l := ⟨_, rfl⟩
  obtain ⟨hone, -, hclosed⟩ := shutdown_clean true _ l hr (by decide)
  obtain rfl := Option.some.inj hr
  obtain ⟨l', hr'⟩ : ∃ l', listenerMachine.run [.onAccept none [1], .addClientSession [2], .run]
      (stopped (stop (acceptDone (run { acceptorOpen := true }) none))) = some l' := ⟨_, rfl⟩
  obtain ⟨hadded, haccepts⟩ := hclosed (by decide) _ l' hr'
  exact ⟨_, l', hr, hr', hadded, haccepts⟩

end WsListener
end Boostander.Net
