import Boostander.Net.Exchange
import Boostander.Net.ReadLoop

/-! A client asks a server to analyse a text, `client/main.cpp`. Both count the rows
of the text, the client of what it holds and the server of what it receives. -/
namespace Boostander.Net
open Algo Algo.CSV Library Library.Segments

/-- The message the client sends for the contents of its file. -/
def clientRequest (csvContents : Bytes) : Bytes := opcodeToStr .csvAnalize ++ csvContents

/-- The client sends its request on an open session, the stream delivers `m` as it
was written, the server binds it to the callback `b`, and that makes the calls
`calls` of `send` and returns. -/
structure RequestServed {δ : Type} (cv : Conversions δ) (csvContents : Bytes)
    (client server server' : WsSession ServerCallback) (m : Bytes) (b : Bound ServerCallback)
    (calls : List SendCall) : Prop where
  isOpen : client.ws.isOpen = true
  sent : (client.sendCall (.shared (clientRequest csvContents))).sendQueue = client.sendQueue ++ [m]
  received : sessionStep operationCallbacks (Bound.call cv) (.received none m) server = some server'
  bound : server'.receivedMessagesQueue.callbacksQueue =
    server.receivedMessagesQueue.callbacksQueue ++ [b]
  returned : b.call cv = .ok calls

section
variable {δ : Type} {cv : Conversions δ} {csvContents : Bytes}
  {s₀ client server server' : WsSession ServerCallback} {m : Bytes} {b : Bound ServerCallback}
  {calls : List SendCall}

private theorem RequestServed.message
    (h : RequestServed cv csvContents client server server' m b calls) :
    m = 49 :: cStr csvContents := by
  have hsent := h.sent
  rw [show client.sendCall (.shared (clientRequest csvContents)) =
    client.send (cStr (clientRequest csvContents)) from rfl, WsSession.sendQueue_send] at hsent
  have htext : [m] = if Sendable (cStr (clientRequest csvContents)) then
      [cStr (clientRequest csvContents)] else [] := (List.append_cancel_left hsent).symm
  split at htext
  · rw [List.singleton_inj.mp htext]
    simp [clientRequest, opcodeToStr, WsOpcode.csvAnalize, cStr]
  · cases htext

/-- A message that was read is queued as its route says, whether or not the stream is open. -/
theorem callbacksQueue_processBuffer {s : WsSession ServerCallback} (hne : s.recievedBuffer ≠ [])
    (hlen : s.recievedBuffer.length ≤ WsSession.maxReceiveMsgSize) :
    (s.processBuffer operationCallbacks).receivedMessagesQueue.callbacksQueue =
      s.receivedMessagesQueue.callbacksQueue ++ (route s.recievedBuffer).toList := by
  rw [WsSession.processBuffer, if_neg hne, if_neg (Nat.not_lt.mpr hlen), handleIncomingData_eq]
  dsimp only
  split <;> rfl

private theorem RequestServed.route (h : RequestServed cv csvContents client server server' m b calls)
    (hserver : server.ReadsAtMostOnce) : route m = some b := by
  obtain ⟨⟨hreads, hlen⟩, heq⟩ := step_received h.received
  have hempty := (hserver.reading hreads).recievedBuffer
  have hbuffer : (server.readDone m).recievedBuffer = m := by simp [WsSession.readDone, hempty]
  have hne : m ≠ [] := by
    rw [h.message]
    exact List.cons_ne_nil _ _
  have hqueue : server'.receivedMessagesQueue.callbacksQueue =
      server.receivedMessagesQueue.callbacksQueue ++ (Net.route m).toList := by
    have hread := callbacksQueue_processBuffer (s := server.readDone m) (hbuffer.symm ▸ hne)
      (hbuffer.symm ▸ Nat.le_trans hlen (by decide))
    rw [hbuffer] at hread
    rw [heq]
    exact hread
  have hlist : (Net.route m).toList = [b] := List.append_cancel_left (hqueue.symm.trans h.bound)
  cases hroute : Net.route m with
  | none => simp [hroute] at hlist
  | some c => simpa [hroute] using hlist

theorem RequestServed.answer (h : RequestServed cv csvContents client server server' m b calls)
    (hserver : server.ReadsAtMostOnce) :
    calls = [.str (opcodeToStr .csvAnswer ++ stdToString (table 44 (cStr csvContents)).length)] := by
  obtain ⟨hmessage, hregistered⟩ := route_eq_some (h.route hserver)
  have hm := h.message
  have hreturned := h.returned
  obtain ⟨callback, message, long⟩ := b
  obtain rfl : message = m := hmessage
  have hhead : message.headD 0 = 49 := by
    rw [hm]
    rfl
  obtain rfl : ServerCallback.csvAnalize = callback := by
    rw [hhead] at hregistered
    exact Option.some.inj hregistered
  have hne : message ≠ [] := by
    rw [hm]
    exact List.cons_ne_nil _ _
  obtain ⟨-, hcalls⟩ := (csvAnalizeCallback_ok hne).mp hreturned
  rw [hcalls, hm]
  rfl

end

private theorem isRowEnd_comma (c : Byte) : isRowEnd 44 c = false ↔ c ≠ lf ∧ c ≠ cr := by
  constructor
  · intro h
    constructor
    · rintro rfl
      exact absurd h (by decide)
    · rintro rfl
      exact absurd h (by decide)
  · rintro ⟨hlf, hcr⟩
    simp [isRowEnd, hlf, hcr]

private theorem length_table_cStr_iff (s : Bytes) :
    (table 44 (cStr s)).length = (table 44 s).length ↔
      ∀ c ∈ s.dropWhile (· ≠ 0), c ≠ lf ∧ c ≠ cr := by
  have hsplit : s = cStr s ++ s.dropWhile (· ≠ 0) := List.takeWhile_append_dropWhile.symm
  have htable : table 44 s =
      table 44 (cStr s) ++ table 44 (openTail (isRowEnd 44) (cStr s) ++ s.dropWhile (· ≠ 0)) := by
    rw [← table_append, ← hsplit]
  have hsame : (table 44 (cStr s)).length = (table 44 s).length ↔
      table 44 (openTail (isRowEnd 44) (cStr s) ++ s.dropWhile (· ≠ 0)) = [] := by
    rw [htable, List.length_append, ← List.length_eq_zero_iff]
    omega
  have hopen : ∀ b ∈ openTail (isRowEnd 44) (cStr s), isRowEnd 44 b = false := by
    intro b hb
    simpa using List.mem_rtakeWhile_imp hb
  rw [hsame]
  cases hrest : s.dropWhile (· ≠ 0) with
  | nil =>
    rw [List.append_nil, table_eq_nil_iff, cutAfter_eq_nil_iff.mpr hopen]
    simp
  | cons c t =>
    have hnul : c = 0 := by
      have hhead := List.head?_dropWhile_not (fun b : Byte => decide (b ≠ 0)) s
      rw [hrest] at hhead
      simpa using hhead
    subst hnul
    rw [List.append_cons]
    have hend : isRowEnd 44 0 = false := rfl
    have hpiece : ∀ b ∈ openTail (isRowEnd 44) (cStr s) ++ [0], isRowEnd 44 b = false :=
      List.forall_mem_append.mpr ⟨hopen, List.forall_mem_singleton.mpr hend⟩
    have hmem : (0 : Byte) ∈ openTail (isRowEnd 44) (cStr s) ++ [0] := by simp
    have hfield : isSeparator 44 (0 : Byte) = false := rfl
    rw [table_eq_nil_of_field hmem hfield hpiece, List.forall_mem_cons]
    simp only [isRowEnd_comma]
    rw [and_iff_right ((isRowEnd_comma 0).mp hend)]

section
variable {δ : Type} {cv : Conversions δ} {csvContents : Bytes}
  {s₀ client server server' : WsSession ServerCallback} {m : Bytes} {b : Bound ServerCallback}
  {calls : List SendCall}

/-- Client and server count the same rows exactly if no CR and no LF follows the
first NUL of the contents. -/
theorem rows_agree_iff (_hne : csvContents ≠ []) (hsize : csvContents.length < 64 * 1024 * 1024)
    (hruns : ∀ run ∈ csvContents.splitOnP (isSeparator 44), run.length ≤ 1024)
    {h : List (SessionEvent ServerCallback)} (h₀ : s₀.Reading)
    (hr : (sessionMachine operationCallbacks (Bound.call cv)).run h s₀ = some server)
    (hstart : ∀ e ∈ h, ¬e.Starts)
    (hserved : RequestServed cv csvContents client server server' m b calls) :
    (∃ csv, CSV.loadFromMemory {} csvContents = .ok csv ∧
        calls = [.str (opcodeToStr .csvAnswer ++ stdToString csv.rowsCount)]) ↔
      ∀ c ∈ csvContents.dropWhile (· ≠ 0), c ≠ lf ∧ c ≠ cr := by
  have hserver := atMostOnce_of_run h₀ hstart List.prefix_rfl hr
  have hlen : csvContents.length ≤ maxLoadSize := by
    have hbound : 64 * 1024 * 1024 ≤ maxLoadSize := by decide
    omega
  have hload : CSV.loadFromMemory {} csvContents = .ok (ofTable 44 0 (table 44 csvContents)) :=
    (loadFromMemory_fresh_eq_ok 44 0 csvContents _).mpr ⟨hlen, hruns, rfl⟩
  rw [← length_table_cStr_iff, hserved.answer hserver]
  constructor
  · rintro ⟨csv, hcsv, hcalls⟩
    obtain rfl := Except.ok.inj (hload.symm.trans hcsv)
    have htext := SendCall.str.inj (List.singleton_inj.mp hcalls)
    exact stdToString_injective (List.append_cancel_left htext)
  · intro hsame
    exact ⟨_, hload, by rw [hsame]; rfl⟩

end

/-- A client that has connected and runs. -/
def clientSession : WsSession ServerCallback :=
  (WsSession.setOpen { id := [] } true).runAsClient 0

/-- One row, `28.02.2019 10:18:05,8,2`. -/
def datedContents : Bytes := someDate ++ [44, 56, 44, 50, lf]

theorem rows_agree_iff_dated : ∃ server' b calls,
    RequestServed wholeConversions datedContents clientSession serverSession server'
      (49 :: datedContents) b calls ∧
    ((∃ csv, CSV.loadFromMemory {} datedContents = .ok csv ∧
        calls = [.str (opcodeToStr .csvAnswer ++ stdToString csv.rowsCount)]) ↔
      ∀ c ∈ datedContents.dropWhile (· ≠ 0), c ≠ lf ∧ c ≠ cr) := by
  have hserved : RequestServed wholeConversions datedContents clientSession serverSession _
      (49 :: datedContents) ⟨.csvAnalize, 49 :: datedContents, by decide⟩ [.str [50, 49]] :=
    ⟨rfl, rfl, rfl, rfl, rfl⟩
  exact ⟨_, _, _, hserved, rows_agree_iff (by decide) (by decide) (by decide)
    (h := []) ⟨rfl, rfl, rfl⟩ rfl (by simp) hserved⟩

/-- Behind a NUL the client still counts a row, which the server never gets. -/
theorem rows_agree_nul_fails : ∃ server' b calls,
    RequestServed wholeConversions (datedContents ++ [0, lf]) clientSession serverSession server'
      (49 :: datedContents) b calls ∧
    ¬∃ csv, CSV.loadFromMemory {} (datedContents ++ [0, lf]) = .ok csv ∧
      calls = [.str (opcodeToStr .csvAnswer ++ stdToString csv.rowsCount)] := by
  have hserved : RequestServed wholeConversions (datedContents ++ [0, lf]) clientSession
      serverSession _ (49 :: datedContents) ⟨.csvAnalize, 49 :: datedContents, by decide⟩
      [.str [50, 49]] := ⟨rfl, rfl, rfl, rfl, rfl⟩
  refine ⟨_, _, _, hserved, ?_⟩
  rintro ⟨csv, hcsv, hcalls⟩
  have hload : CSV.loadFromMemory {} (datedContents ++ [0, lf]) =
      .ok ⟨44, 2, 3, [[someDate, [56], [50]], [[0]]]⟩ := rfl
  obtain rfl := Except.ok.inj (hload.symm.trans hcsv)
  exact absurd hcalls (by decide)

end Boostander.Net
