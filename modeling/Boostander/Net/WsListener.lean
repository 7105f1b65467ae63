import Boostander.Library.EventMachine
import Boostander.Net.WsSession

/-! The accepting side of the server, `net/websockets/WsListener.cpp`: one
acceptor, and one socket that every accept and `addClientSession` share. -/
namespace Boostander.Net
open Algo Library

/-- A listener. `accepts` counts the outstanding calls of `async_accept`,
`completed` holds the results whose handler has still to run, `stops` counts the
closures posted by `stop`, and `added` lists the sessions given to the server. -/
structure WsListener where
  socketOpen : Bool := false
  acceptorOpen : Bool := false
  needClose : Bool := false
  accepts : Nat := 0
  completed : List (Option ErrorCode) := []
  stops : Nat := 0
  added : List Bytes := []
  deriving DecidableEq, Repr

namespace WsListener

def isAccepting (l : WsListener) : Bool := l.acceptorOpen

def doAccept (l : WsListener) : WsListener :=
  if l.needClose then l else { l with accepts := l.accepts + 1 }

def run (l : WsListener) : WsListener :=
  if !l.isAccepting || l.needClose then l else l.doAccept

/-- A session takes the socket over; a moved-from socket is not open. -/
def addSession (l : WsListener) (newSessId : Bytes) : WsListener :=
  { l with socketOpen := false, added := l.added ++ [newSessId] }

def addClientSession (l : WsListener) (newSessId : Bytes) : WsListener :=
  if l.needClose then l else l.addSession newSessId

/-- The handler of a completed accept. The new identifier is drawn at random. -/
def onAccept (l : WsListener) (ec : Option ErrorCode) (newSessId : Bytes) : WsListener :=
  if !l.isAccepting || !l.socketOpen || l.needClose then l
  else if ec.isSome then l.doAccept
  else (l.addSession newSessId).doAccept

/-- `stop` posts its closure to the strand. -/
def stop (l : WsListener) : WsListener := { l with stops := l.stops + 1 }

/-- The closure posted by `stop`, run without an exception. -/
def stopped (l : WsListener) : WsListener :=
  { l with socketOpen := false, acceptorOpen := false, needClose := true, stops := l.stops - 1 }

/-- An accept completes: a successful one has stored the connection in the
socket, a failed one leaves the socket not open. -/
def acceptDone (l : WsListener) (ec : Option ErrorCode) : WsListener :=
  { l with socketOpen := ec.isNone, accepts := l.accepts - 1, completed := l.completed ++ [ec] }

def handlerDone (l : WsListener) (ec : Option ErrorCode) : WsListener :=
  { l with completed := l.completed.erase ec }

end WsListener

/-- What can happen to a listener. -/
inductive ListenerEvent where
  | run
  | completed (ec : Option ErrorCode)
  | onAccept (ec : Option ErrorCode) (newSessId : Bytes)
  | addClientSession (newSessId : Bytes)
  | stop
  | stopped
  deriving DecidableEq, Repr

def listenerStep : ListenerEvent → WsListener → Option WsListener
  | .run, l => some l.run
  | .completed ec, l => if 0 < l.accepts then some (l.acceptDone ec) else none
  | .onAccept ec newSessId, l =>
    if l.completed.contains ec then some ((l.handlerDone ec).onAccept ec newSessId) else none
  | .addClientSession newSessId, l => some (l.addClientSession newSessId)
  | .stop, l => some l.stop
  | .stopped, l => if 0 < l.stops then some l.stopped else none

def listenerMachine : EventMachine WsListener ListenerEvent := ⟨listenerStep⟩

/-- What the steps can do, with their guards. -/
inductive ListenerMove (l : WsListener) : ListenerEvent → WsListener → Prop where
  | run : ListenerMove l .run l.run
  | completed (ec : Option ErrorCode) (hpos : 0 < l.accepts) :
      ListenerMove l (.completed ec) (l.acceptDone ec)
  | onAccept (ec : Option ErrorCode) (newSessId : Bytes) (hmem : ec ∈ l.completed) :
      ListenerMove l (.onAccept ec newSessId) ((l.handlerDone ec).onAccept ec newSessId)
  | addClientSession (newSessId : Bytes) :
      ListenerMove l (.addClientSession newSessId) (l.addClientSession newSessId)
  | stop : ListenerMove l .stop l.stop
  | stopped (hpos : 0 < l.stops) : ListenerMove l .stopped l.stopped

theorem listenerMove_of_step {l l' : WsListener} {e : ListenerEvent} (hs : listenerStep e l = some l') :
    ListenerMove l e l' := by
  cases e with
  | run => exact Option.some.inj hs ▸ .run
  | completed ec =>
    obtain ⟨hpos, hs⟩ := Option.ite_none_right_eq_some.mp hs
    exact Option.some.inj hs ▸ .completed ec hpos
  | onAccept ec newSessId =>
    obtain ⟨hmem, hs⟩ := Option.ite_none_right_eq_some.mp hs
    exact Option.some.inj hs ▸ .onAccept ec newSessId (List.contains_iff_mem.mp hmem)
  | addClientSession newSessId => exact Option.some.inj hs ▸ .addClientSession newSessId
  | stop => exact Option.some.inj hs ▸ .stop
  | stopped =>
    obtain ⟨hpos, hs⟩ := Option.ite_none_right_eq_some.mp hs
    exact Option.some.inj hs ▸ .stopped hpos

/-- A listener on an open acceptor, after its one call of `run`. -/
def WsListener.running : WsListener := WsListener.run { acceptorOpen := true }

namespace WsListener

def Stopped (l : WsListener) : Prop := l.acceptorOpen = false ∨ l.needClose = true

instance (l : WsListener) : Decidable l.Stopped := inferInstanceAs (Decidable (_ ∨ _))

/-- The events that leave the accept loop whole: an accept succeeds, and
`addClientSession` does not take the socket of an accept whose handler has still
to run. After a stop both may happen. `run` is called once, before. -/
def Unbroken (l : WsListener) : ListenerEvent → Prop
  | .run => False
  | .completed ec => ec = none ∨ l.Stopped
  | .addClientSession _ => l.completed = [] ∨ l.Stopped
  | _ => True

/-- One accept is outstanding, or it has succeeded, its connection is in the
socket and its handler is pending. -/
inductive Waiting (l : WsListener) : Prop where
  | outstanding : l.accepts = 1 → l.completed = [] → Waiting l
  | pending : l.accepts = 0 → l.completed = [none] → l.socketOpen = true → Waiting l

variable {l l' : WsListener}

private theorem Waiting.count (h : l.Waiting) : l.accepts + l.completed.length = 1 := by
  cases h with
  | outstanding haccepts hcompleted => simp [haccepts, hcompleted]
  | pending haccepts hcompleted _ => simp [haccepts, hcompleted]

private theorem Waiting.acceptDone (h : l.Waiting) (hpos : 0 < l.accepts) :
    (l.acceptDone none).Waiting := by
  cases h with
  | outstanding haccepts hcompleted =>
    exact .pending (by simp [WsListener.acceptDone, haccepts])
      (by simp [WsListener.acceptDone, hcompleted]) rfl
  | pending haccepts _ _ => exact absurd haccepts (Nat.ne_of_gt hpos)

private theorem Waiting.onAccept (h : l.Waiting) (hl : ¬l.Stopped) {ec : Option ErrorCode}
    (hec : ec ∈ l.completed) (newSessId : Bytes) :
    ((l.handlerDone ec).onAccept ec newSessId).Waiting := by
  cases h with
  | outstanding _ hcompleted => simp [hcompleted] at hec
  | pending haccepts hcompleted hsocket =>
    obtain rfl : ec = none := by simpa [hcompleted] using hec
    simp only [Stopped, not_or, Bool.not_eq_false, Bool.not_eq_true] at hl
    obtain ⟨hopen, hclose⟩ := hl
    apply Waiting.outstanding <;>
      simp [WsListener.onAccept, handlerDone, isAccepting, addSession, doAccept, hopen, hclose,
        hsocket, haccepts, hcompleted]

private theorem Waiting.addClientSession (h : l.Waiting) (hcompleted : l.completed = [])
    (newSessId : Bytes) : (l.addClientSession newSessId).Waiting := by
  cases h with
  | outstanding haccepts _ =>
    rw [WsListener.addClientSession]
    split
    · exact .outstanding haccepts hcompleted
    · exact .outstanding haccepts hcompleted
  | pending _ hpending _ => simp [hcompleted] at hpending

/-- What only the closure of `stop` changes. -/
def flags (l : WsListener) : Bool × Bool := (l.acceptorOpen, l.needClose)

private theorem flags_doAccept (l : WsListener) : l.doAccept.flags = l.flags := by
  rw [doAccept]
  split <;> rfl

theorem flags_run (l : WsListener) : l.run.flags = l.flags := by
  rw [run]
  split
  · rfl
  · exact flags_doAccept l

theorem flags_addClientSession (l : WsListener) (newSessId : Bytes) :
    (l.addClientSession newSessId).flags = l.flags := by
  rw [WsListener.addClientSession]
  split <;> rfl

theorem flags_onAccept (l : WsListener) (ec : Option ErrorCode) (newSessId : Bytes) :
    (l.onAccept ec newSessId).flags = l.flags := by
  rw [WsListener.onAccept]
  split
  · rfl
  split
  · exact flags_doAccept l
  · exact flags_doAccept (l.addSession newSessId)

private theorem Stopped.congr (h : l.Stopped) (hflags : l'.flags = l.flags) : l'.Stopped := by
  obtain ⟨hopen, hclose⟩ := Prod.mk.inj hflags
  exact h.imp hopen.trans hclose.trans

private theorem Stopped.step {e : ListenerEvent} (h : l.Stopped) (hs : listenerStep e l = some l') :
    l'.Stopped := by
  cases listenerMove_of_step hs with
  | run => exact h.congr (flags_run l)
  | completed ec hpos => exact h
  | onAccept ec newSessId hmem => exact h.congr (flags_onAccept (l.handlerDone ec) ec newSessId)
  | addClientSession newSessId => exact h.congr (flags_addClientSession l newSessId)
  | stop => exact h
  | stopped hpos => exact Or.inl rfl

private theorem waiting_step {e : ListenerEvent} (h : ¬l.Stopped → l.Waiting) (he : l.Unbroken e)
    (hs : listenerStep e l = some l') (hl' : ¬l'.Stopped) : l'.Waiting := by
  have hl : ¬l.Stopped := fun hstop => hl' (hstop.step hs)
  have hw := h hl
  cases listenerMove_of_step hs with
  | run => exact absurd he id
  | completed ec hpos =>
    obtain rfl : ec = none := he.resolve_right hl
    exact hw.acceptDone hpos
  | onAccept ec newSessId hmem => exact hw.onAccept hl hmem newSessId
  | addClientSession newSessId => exact hw.addClientSession (he.resolve_right hl) newSessId
  | stop =>
    cases hw with
    | outstanding haccepts hcompleted => exact .outstanding haccepts hcompleted
    | pending haccepts hcompleted hsocket => exact .pending haccepts hcompleted hsocket
  | stopped hpos => exact absurd (Or.inl rfl) hl'

/-- In a run whose events all leave the loop whole, exactly one accept is
outstanding or has its handler pending until the listener is stopped. -/
theorem accepts_of_unbroken {h : List ListenerEvent}
    (hp : listenerMachine.Path Unbroken running h l) (hopen : l.acceptorOpen = true)
    (hclose : l.needClose = false) : l.accepts + l.completed.length = 1 := by
  have hwait : ¬l.Stopped → l.Waiting := by
    refine hp.invariant (fun _ l => ¬l.Stopped → l.Waiting) (fun _ => .outstanding rfl rfl) ?_
    intro _ l l' e hw he hs
    exact waiting_step hw he hs
  exact (hwait (by simp [Stopped, hopen, hclose])).count

/-- Two connections, with a client session between them. -/
theorem accepts_of_unbroken_two : ∃ l,
    listenerMachine.Path Unbroken running
      [.completed none, .onAccept none [1], .addClientSession [2], .completed none] l ∧
    l.acceptorOpen = true ∧ l.needClose = false ∧ l.accepts + l.completed.length = 1 := by
  have hsecond : listenerMachine.step (.onAccept none [1]) ⟨true, true, false, 0, [none], 0, []⟩ =
      some ⟨false, true, false, 1, [], 0, [[1]]⟩ := rfl
  have hthird : listenerMachine.step (.addClientSession [2]) ⟨false, true, false, 1, [], 0, [[1]]⟩ =
      some ⟨false, true, false, 1, [], 0, [[1], [2]]⟩ := rfl
  have hlast : listenerMachine.step (.completed none) ⟨false, true, false, 1, [], 0, [[1], [2]]⟩ =
      some ⟨true, true, false, 0, [none], 0, [[1], [2]]⟩ := rfl
  have hpath : listenerMachine.Path Unbroken running [.completed none]
      ⟨true, true, false, 0, [none], 0, []⟩ := .next (h := []) .start (Or.inl rfl) rfl
  have hpath := hpath.next (e := ListenerEvent.onAccept none [1]) trivial hsecond
  have hpath := hpath.next (e := ListenerEvent.addClientSession [2]) (Or.inl rfl) hthird
  have hpath := hpath.next (e := ListenerEvent.completed none) (Or.inl rfl) hlast
  exact ⟨_, hpath, rfl, rfl, accepts_of_unbroken hpath rfl rfl⟩

/-- One accept fails for want of file descriptors, and its handler returns
without starting another. -/
theorem accepts_failed_dies : ∃ l,
    listenerMachine.run [.completed (some (.other 24)), .onAccept (some (.other 24)) [1]] running =
      some l ∧
    l.acceptorOpen = true ∧ l.needClose = false ∧ l.accepts + l.completed.length = 0 :=
  ⟨_, rfl, rfl, rfl, rfl⟩

end WsListener
end Boostander.Net
