import Megatron.Socket.Control

/-!
# How a connect is resolved

`on_AddToConnectTCP` registers the socket for reading and writing, adds it to
`MS` and calls `::connect`.  A connect in progress is resolved by the worker:
`EPOLLOUT` leads to `Connected`, after which `inConnection` is reset, and a
`closeSocket` before that emits `ConnectFailed`.

A connect that `::connect` resolves at once is resolved a second time: after an
immediate error `closeSocket` emits `ConnectFailed` and the caller emits it
again, and after an immediate success `inConnection` stays set, so that the
worker emits another `Connected`.  And as the socket is registered before
`::connect`, the worker may see the unconnected socket, take its `EPOLLOUT`,
and stop the writing that should tell it of the connection.

## Main results

* `connect_resolved` — exactly one report, under the condition.
* `Sock.due_pass` — a connect that is not reported yet is due: one pass of the
  worker reports it.
* `connect_failed_twice` — without the condition, not.
-/

namespace Megatron.Socket

open Megatron.Corelib
open Megatron.Lib

namespace Sock

/-- How often the connect has been reported. -/
def reports (s : Sock) : Nat :=
  s.emitted.count .connected + s.emitted.count .connectFailed

/-- `::connect` answers `EINPROGRESS`; the connecting branch of `onEPOLLOUT`
stops the writing when the kernel has resolved the connect; and nobody closes
the socket before the connect has been reported. -/
def connectInOrder (s : Sock) (a : Action) : Prop :=
  match a, s.worker with
  | .creator c, _ => s.creator = .connect → c = .inProgress
  | .worker _, .connStop _ => s.transfers
  | .close, _ => s.fdOpen → s.reports ≠ 0
  | _, _ => True

instance (s : Sock) (a : Action) : Decidable (connectInOrder s a) := by
  unfold connectInOrder
  generalize s.worker = pc
  apply @Action.casesOn _ a <;> intros
  case worker => apply @WorkerPc.casesOn _ pc <;> intros <;> infer_instance
  all_goals infer_instance

/-- The writing is stopped, the names are being asked for. -/
def stopped (s : Sock) : Bool :=
  match s.worker with
  | .connNames _ | .connEmit _ => true
  | _ => false

/-- The worker has just reported the connect, and not yet noted it. -/
def noting (s : Sock) : Bool :=
  match s.worker with
  | .connDone _ | .closeRemove _ | .closeShut _ => true
  | _ => false

/-! ## Before and after the report -/

/-- Nothing has been reported, and `EPOLLOUT` or `EPOLLERR` will tell. -/
structure Unreported (s : Sock) : Prop where
  none : s.reports = 0
  fdOpen : s.fdOpen
  inConnection : s.inConnection
  creator : s.creator.unconnected ∨ s.creator = .done
  kernel : s.creator = .done → s.kernel ≠ .fresh
  registered : s.creator ≠ .register → s.registered
  inMS : s.creator.early = false → s.inMS
  armed : s.creator ≠ .register → s.kernel ≠ .broken → s.armed ∨ s.kernel = .up ∧ s.stopped
  worker : s.noting = false ∧ s.worker.sending = false ∧ s.worker ≠ .terminated

/-- The connect has been reported once, and is noted, or being noted, as
resolved. -/
structure Reported (s : Sock) : Prop where
  once : s.reports = 1
  creator : s.creator = .done
  worker : s.worker.connecting = false
  noted : s.inConnection → s.fdOpen = false ∨ s.noting

/-- The connect of a connector socket is in one of the two phases. -/
def ConnectPhase (s : Sock) : Prop :=
  s.mStreamType = .connected → s.Unreported ∨ s.Reported

theorem connectPhase_fresh (st : StreamType) (own : Bool) : (fresh st own).ConnectPhase := by
  intro hType
  left
  cases st
  · simp [fresh] at hType
  · constructor <;> simp [fresh, reports, CreatorPc.unconnected, CreatorPc.early, noting,
      WorkerPc.sending]

/-! ## The steps -/

theorem reports_append {s t : Sock} {es : List SocketEvent} (h : t.emitted = s.emitted ++ es) :
    t.reports = s.reports + es.count .connected + es.count .connectFailed := by
  unfold reports
  rw [h, List.count_append, List.count_append]
  omega

/-- A step that emits no report. -/
theorem reports_of_not_mem {s t : Sock} {es : List SocketEvent} (h : t.emitted = s.emitted ++ es)
    (hConn : .connected ∉ es) (hFailed : .connectFailed ∉ es) : t.reports = s.reports := by
  rw [reports_append h, List.count_eq_zero_of_not_mem hConn,
    List.count_eq_zero_of_not_mem hFailed]
  rfl

theorem unreported_creatorStep {s : Sock} (hType : s.mStreamType = .connected)
    (hGr : s.Grounded) (h : s.Unreported) {c : ConnectRes}
    (hGuard : connectInOrder s (.creator c)) : (s.creatorStep c).Unreported := by
  have hFresh : s.creator = .connect → s.kernel = .fresh := fun hPc =>
    (hGr.unconnected hType (by simp [hPc, CreatorPc.unconnected])).1
  obtain ⟨hNone, hOpen, hIn, hCreator, hKernel, hReg, hMS, hArmed, hWorker⟩ := h
  cases hPc : s.creator with
  | register =>
      simp only [creatorStep, hPc, hType]
      exact ⟨hNone, hOpen, hIn, Or.inl rfl, by simp, fun _ => rfl, by simp [CreatorPc.early],
        fun _ _ => Or.inl rfl, hWorker⟩
  | add =>
      simp only [creatorStep, hPc, hType]
      exact ⟨hNone, hOpen, hIn, Or.inl rfl, by simp, fun _ => hReg (by simp [hPc]), fun _ => rfl,
        fun _ => hArmed (by simp [hPc]), hWorker⟩
  | connect =>
      obtain rfl : c = .inProgress := hGuard hPc
      simp only [creatorStep, hPc]
      refine ⟨hNone, hOpen, hIn, Or.inr rfl, by simp, fun _ => hReg (by simp [hPc]), fun _ => ?_,
        fun _ _ => ?_, hWorker⟩
      · exact hMS (by simp [hPc, CreatorPc.early])
      · -- the writing was not stopped before `::connect`
        rcases hArmed (by simp [hPc]) (by simp [hFresh hPc]) with hOld | ⟨hUp, -⟩
        · exact Or.inl hOld
        · simp [hFresh hPc] at hUp
  | done =>
      simp only [creatorStep, hPc]
      exact ⟨hNone, hOpen, hIn, hCreator, hKernel, hReg, hMS, hArmed, hWorker⟩
  | _ => simp [hPc, CreatorPc.unconnected] at hCreator

theorem noting_eq (s : Sock) :
    s.noting = (s.worker.noted || s.worker.unremoved || s.worker.removed) := by
  unfold noting
  cases s.worker <;> rfl

/-- The worker reports the connect: established, or over. -/
theorem reported_of_emits {s : Sock} (hType : s.mStreamType = .connected)
    (hGr : s.Grounded) (h : s.Unreported) {io : Io}
    (hPc : s.worker.reporting ∧ s.worker.noted = false ∨ s.worker.closing) :
    (s.workerStep io).Reported := by
  obtain ⟨hNone, hOpen, hIn, hCreator, -⟩ := h
  -- the kernel has answered, so `::connect` has been called
  have hDone : s.creator = .done := by
    refine hCreator.resolve_left fun hUnconn => ?_
    have hFresh := (hGr.unconnected hType hUnconn).1
    rcases hPc with ⟨hRep, -⟩ | hClosing
    · exact hGr.reporting hRep hFresh
    · simp [hGr.closing hType hClosing hIn] at hFresh
  cases hAt : s.worker with
  | connEmit f =>
      have hReports := reports_append (s.emitted_workerStep io)
      simp only [workerEvents, workerStep, hAt, hNone] at hReports ⊢
      exact ⟨hReports, hDone, rfl, fun _ => Or.inr rfl⟩
  | closeEmit f =>
      have hEvent : s.closeEvent = .connectFailed := closeEvent_eq_connectFailed.2 ⟨hType, hIn⟩
      have hReports := reports_append (s.emitted_workerStep io)
      simp only [workerEvents, workerStep, hAt, hNone, hOpen, if_true, hEvent] at hReports ⊢
      exact ⟨hReports, hDone, rfl, fun _ => Or.inr rfl⟩
  | _ => simp [hAt, WorkerPc.reporting, WorkerPc.noted, WorkerPc.closing] at hPc

theorem unreported_workerStep {s : Sock} (hType : s.mStreamType = .connected)
    (hGr : s.Grounded) (h : s.Unreported) {io : Io} (hGuard : connectInOrder s (.worker io)) :
    (s.workerStep io).Unreported ∨ (s.workerStep io).Reported := by
  by_cases hEmits : s.worker.reporting ∧ s.worker.noted = false ∨ s.worker.closing
  · exact Or.inr (reported_of_emits hType hGr h hEmits)
  left
  obtain ⟨hNone, hOpen, hIn, hCreator, hKernel, hReg, hMS, hArmed, hNoting, hSending, hGoes⟩ := h
  have hMoves := moves_workerStep s io
  have hSame := s.sameCreator_workerStep io
  have hEmitted := s.emitted_workerStep io
  obtain ⟨hNotEmit, hNotClose⟩ := not_or.1 hEmits
  rw [noting_eq, Bool.or_eq_false_iff, Bool.or_eq_false_iff] at hNoting
  obtain ⟨⟨hNoted, hUn⟩, hRemoved⟩ := hNoting
  have hRep : s.worker.reporting = false := by
    by_contra hRep
    exact hNotEmit ⟨by simpa using hRep, hNoted⟩
  have hClosing : s.worker.closing = false := by simpa using hNotClose
  constructor
  · rw [reports_of_not_mem hEmitted, hNone]
    · exact fun hMem => hNotEmit (reporting_of_connected hMem)
    · exact fun hMem => hNotClose (closing_of_connectFailed hMem).1
  · simp [hMoves.fdOpen, hOpen, hRemoved]
  · simp [hMoves.inConnection, hIn, hNoted]
  · rw [hSame.creator]
    exact hCreator
  · rw [hSame.creator, hMoves.kernel]
    exact hKernel
  · rw [hSame.creator]
    exact fun hPc => hMoves.registered (hReg hPc) hRemoved
  · rw [hSame.creator]
    intro hLate
    simp [hMoves.inMS, hMS hLate, hUn]
  · rw [hSame.creator, hMoves.kernel]
    intro hPc hWhole
    have hOld := hArmed hPc hWhole
    cases hAt : s.worker with
    | connStop f =>
        -- the writing is stopped when the kernel has resolved the connect
        have hResolved : s.kernel = .up ∨ s.kernel = .broken := by
          simpa [connectInOrder, hAt, transfers] using hGuard
        refine Or.inr ⟨hResolved.resolve_right hWhole, ?_⟩
        simp [workerStep, hAt, stopped, goto]
    | connNames f =>
        by_cases hUp : s.kernel = .up
        · exact Or.inr ⟨hUp, by simp [workerStep, hAt, hOpen, hUp, stopped, goto]⟩
        · refine Or.inl ?_
          rw [hMoves.armed hSending hRemoved (by simp [hAt])]
          exact hOld.resolve_right fun h => hUp h.1
    | connEmit f => simp [hAt, WorkerPc.reporting] at hRep
    | _ =>
        refine Or.inl ?_
        rw [hMoves.armed hSending hRemoved (by simp [hAt])]
        simpa [stopped, hAt] using hOld
  · refine ⟨?_, ?_, ?_⟩
    · simp [noting_eq, hMoves.noted, hMoves.unremoved, hMoves.removed, hRep, hClosing, hUn]
    · by_contra hNow
      simp [hMoves.sending (by simpa using hNow) hSending] at hIn
    · intro hNow
      rcases hMoves.terminated hNow with hEnd | hClosed
      · exact hGoes hEnd
      · simp [hOpen] at hClosed

theorem reported_workerStep {s : Sock} (h : s.Reported) (io : Io) :
    (s.workerStep io).Reported := by
  obtain ⟨hOnce, hCreator, hWorker, hNoted⟩ := h
  have hMoves := moves_workerStep s io
  have hSame := s.sameCreator_workerStep io
  constructor
  · rw [reports_of_not_mem (s.emitted_workerStep io), hOnce]
    · intro hMem
      obtain ⟨hRep, hNot⟩ := reporting_of_connected hMem
      cases hPc : s.worker <;>
        simp [hPc, WorkerPc.reporting, WorkerPc.noted, WorkerPc.connecting] at hRep hNot hWorker
    · intro hMem
      obtain ⟨hClosing, hOpen, -, hIn⟩ := closing_of_connectFailed hMem
      rcases hNoted hIn with hClosed | hNoting
      · simp [hOpen] at hClosed
      · cases hPc : s.worker <;> simp [hPc, WorkerPc.closing, noting] at hClosing hNoting
  · rw [hSame.creator]
    exact hCreator
  · by_contra hNow
    obtain ⟨hOpen, hIn, -⟩ := hMoves.connecting (by simpa using hNow) hWorker
    rcases hNoted hIn with hClosed | hNoting
    · simp [hOpen] at hClosed
    · cases hPc : s.worker <;>
        simp [hPc, noting, workerStep, goto, WorkerPc.connecting] at hNow hNoting
  · intro hIn
    rw [hMoves.inConnection, Bool.and_eq_true] at hIn
    rw [hMoves.fdOpen, noting_eq, hMoves.unremoved, hMoves.removed]
    rcases hNoted hIn.1 with hClosed | hNoting
    · simp [hClosed]
    · rw [noting_eq] at hNoting
      have hNot : s.worker.noted = false := by simpa using hIn.2
      rw [hNot, Bool.false_or, Bool.or_eq_true] at hNoting
      rcases hNoting with hUn | hRemoved
      · simp [hUn]
      · simp [hRemoved]

/-- The steps of the kernel, of `epoll_wait` and of the holders, before the
report. -/
theorem unreported_others {s : Sock} (h : s.Unreported) {a : Action}
    (hCreator : ∀ c, a ≠ .creator c) (hWorker : ∀ io, a ≠ .worker io)
    (hEn : socket.enabled s a) (hGuard : connectInOrder s a) :
    (socket.apply s a).Unreported := by
  obtain ⟨hNone, hOpen, hIn, hPc, hKernel, hReg, hMS, hArmed, hQuiet⟩ := h
  cases a with
  | creator c => exact absurd rfl (hCreator c)
  | worker io => exact absurd rfl (hWorker io)
  | close => exact absurd hNone (hGuard hOpen)
  | mark => exact ⟨hNone, hOpen, hIn, hPc, hKernel, hReg, hMS, hArmed, hQuiet⟩
  | append data =>
      simp only [socket, append, sockStartWrite, hOpen, if_true]
      exact ⟨hNone, rfl, hIn, hPc, hKernel, fun _ => rfl, hMS, fun _ _ => Or.inl rfl, hQuiet⟩
  | poll f =>
      have hIdle : s.worker = .idle := hEn.1
      refine ⟨hNone, hOpen, hIn, hPc, hKernel, hReg, hMS, fun hPast hWhole => Or.inl ?_,
        ⟨rfl, rfl, fun hEnd => by cases hEnd⟩⟩
      have hStill : s.armed := by simpa [stopped, hIdle] using hArmed hPast hWhole
      exact hStill
  | kernelUp =>
      have hConnecting : s.kernel = .connecting := hEn
      refine ⟨hNone, hOpen, hIn, hPc, fun _ hFresh => (by cases hFresh), hReg, hMS,
        fun hPast _ => Or.inl ?_, hQuiet⟩
      have hStill : s.armed := by simpa [hConnecting] using hArmed hPast
      exact hStill
  | kernelBroken =>
      exact ⟨hNone, hOpen, hIn, hPc, fun _ hFresh => (by cases hFresh), hReg, hMS,
        fun _ hWhole => absurd rfl hWhole, hQuiet⟩

/-- `Reported` is kept by whoever is neither the creator nor a worker. -/
theorem reported_others {s : Sock} (h : s.Reported) {a : Action}
    (hCreator : ∀ c, a ≠ .creator c) (hWorker : ∀ io, a ≠ .worker io)
    (hEn : socket.enabled s a) : (socket.apply s a).Reported := by
  obtain ⟨hOnce, hDone, hPast, hNoted⟩ := h
  cases a with
  | creator c => exact absurd rfl (hCreator c)
  | worker io => exact absurd rfl (hWorker io)
  | append data =>
      obtain ⟨-, hOpen, hIn, -, -, hPc, hAt, -, hEmitted, -⟩ := s.sameControl_append data
      constructor <;> simp only [socket, reports, noting, hOpen, hIn, hPc, hAt, hEmitted]
      · exact hOnce
      · exact hDone
      · exact hPast
      · exact hNoted
  | close => exact ⟨hOnce, hDone, hPast, fun _ => Or.inl rfl⟩
  | poll f =>
      have hIdle : s.worker = .idle := hEn.1
      refine ⟨hOnce, hDone, rfl, fun hIn => Or.inl ?_⟩
      have hClosed : s.fdOpen = false := by simpa [noting, hIdle] using hNoted hIn
      exact hClosed
  | _ => exact ⟨hOnce, hDone, hPast, hNoted⟩

theorem connectPhase_apply (s : Sock) (a : Action) (hGr : s.Grounded) (h : s.ConnectPhase)
    (hEn : (socket.guarded connectInOrder).enabled s a) : (socket.apply s a).ConnectPhase := by
  intro hType
  rw [mStreamType_apply] at hType
  obtain ⟨hEnabled, hGuard⟩ := hEn
  rcases h hType with hUn | hRep
  · cases a with
    | creator c => exact .inl (unreported_creatorStep hType hGr hUn hGuard)
    | worker io => exact unreported_workerStep hType hGr hUn hGuard
    | _ => exact .inl (unreported_others hUn (by simp) (by simp) hEnabled hGuard)
  · cases a with
    | creator c => exact absurd hRep.creator hEnabled
    | worker io => exact .inr (reported_workerStep hRep io)
    | _ => exact .inr (reported_others hRep (by simp) (by simp) hEnabled)

theorem connectPhase_reachable {s : Sock} (h : (socket.guarded connectInOrder).Reachable s) :
    s.Grounded ∧ s.ConnectPhase := by
  apply Machine.Reachable.invariant _ _ h
  · rintro s ⟨st, own, rfl⟩
    exact ⟨grounded_fresh st own, connectPhase_fresh st own⟩
  · intro s a hInv hEn
    exact ⟨grounded_apply hInv.1 hEn.1, connectPhase_apply s a hInv.1 hInv.2 hEn⟩

/-! ## The report is due -/

/-- `epoll_wait` reports the socket, and the worker will find it in `MS`:
`EPOLLERR` for a broken connection, `EPOLLOUT` for an established one. -/
structure Due (s : Sock) : Prop where
  registered : s.registered
  inMS : s.inMS
  fdOpen : s.fdOpen
  inConnection : s.inConnection
  flag : s.kernel = .broken ∨ s.kernel = .up ∧ s.armed

theorem Unreported.due {s : Sock} (h : s.Unreported) (hQuiet : s.Quiet)
    (hResolved : s.transfers) : s.Due where
  registered := h.registered (by simp [hQuiet.1])
  inMS := h.inMS (by simp [hQuiet.1, CreatorPc.early])
  fdOpen := h.fdOpen
  inConnection := h.inConnection
  flag := by
    have hArmed := h.armed (by simp [hQuiet.1])
    rcases hResolved with hUp | hBroken
    · exact Or.inr ⟨hUp, by simpa [hUp, stopped, hQuiet.2] using hArmed⟩
    · exact Or.inl hBroken

/-- The pass of the worker over the event that is due. -/
def duePass (s : Sock) : List Action :=
  if s.kernel = .broken then .poll ⟨true, false, false⟩ :: List.replicate 3 (.worker .none)
  else .poll ⟨false, false, true⟩ ::
    List.replicate (if s.mOutBuffer = [] then 7 else 6) (.worker .none)

/-- A pass over a socket whose connect is due is a run, and it reports the connect. -/
theorem due_pass {s : Sock} (hType : s.mStreamType = .connected) (hDue : s.Due)
    (hQuiet : s.Quiet) :
    (socket.guarded connectInOrder).Path s s.duePass ∧
      (socket.exec s s.duePass).reports = s.reports + 1 := by
  obtain ⟨hReg, hMS, hOpen, hIn, hFlag⟩ := hDue
  obtain ⟨hDone, hIdle⟩ := hQuiet
  unfold duePass
  by_cases hBroken : s.kernel = .broken
  · simp [hBroken, List.replicate, Machine.Path, Machine.guarded, socket, goto, workerStep,
      dispatchStep, ioFits, connectInOrder, emit, closeEvent, reports, hReg, hMS, hOpen, hIn,
      hDone, hIdle, hType]
    omega
  · obtain ⟨hUp, hArmed⟩ := hFlag.resolve_left hBroken
    by_cases hEmpty : s.mOutBuffer = [] <;>
    · simp [hUp, hEmpty, List.replicate, Machine.Path, Machine.guarded, socket, goto, workerStep,
        dispatchStep, ioFits, connectInOrder, transfers, sockStopWrite, emit, reports, hReg, hMS,
        hOpen, hIn, hDone, hIdle, hArmed]
      omega

end Sock

open Sock

/-- The condition under which a connect is resolved as it should be at a point
where its socket is `s`: not twice, and, when the kernel has resolved it and no
handler is running, either once or to be so by the next pass of the worker. -/
def Sock.ResolvedOnce (s : Sock) : Prop :=
  s.reports ≤ 1 ∧
    (s.transfers → s.Quiet → s.reports = 1 ∨
      s.Due ∧ socket.Path s s.duePass ∧ (socket.exec s s.duePass).reports = 1)

/--
**Every connect is resolved once**, in every run in which `::connect` answers
`EINPROGRESS`, the connecting branch of `onEPOLLOUT` stops the writing only
when the kernel has resolved the connect, and nobody closes the socket before
the report.
-/
theorem connect_resolved {sockets : SocketId → Sock}
    (h : (service connectInOrder).Reachable sockets) (id : SocketId)
    (hType : (sockets id).mStreamType = .connected) : (sockets id).ResolvedOnce := by
  obtain ⟨_, hPhase⟩ := connectPhase_reachable (Machine.family_reachable h id)
  cases hPhase hType with
  | inl hUn =>
      have hNone := hUn.none
      refine ⟨by omega, fun hResolved hQuiet => .inr ?_⟩
      have hDue := hUn.due hQuiet hResolved
      have hPass := due_pass hType hDue hQuiet
      exact ⟨hDue, hPass.1.of_guarded, by omega⟩
  | inr hRep =>
      have hOnce := hRep.once
      exact ⟨by omega, fun _ _ => .inl hOnce⟩

/-- A connect in progress that succeeds, and the pass of the worker. -/
def connectUp : List Action :=
  [.creator .ok, .creator .ok, .creator .inProgress, .kernelUp,
    .poll ⟨false, false, true⟩] ++ List.replicate 9 (.worker .none)

theorem connectUp_resolved :
    (socket.exec (Sock.fresh .connected false) connectUp).emitted = [.connected] ∧
      (socket.exec (Sock.fresh .connected false) connectUp).ResolvedOnce := by
  have hReach := reachable_run connectInOrder .connected false 7
    (show Machine.Path _ _ connectUp by decide)
  exact ⟨by decide, connect_resolved hReach 7 (by decide)⟩

/-- `::connect` fails at once: `closeSocket` emits `ConnectFailed`, and so does
`on_AddToConnectTCP` behind it. -/
theorem connect_failed_twice :
    ¬ ∀ sockets : SocketId → Sock, (service anyStep).Reachable sockets → ∀ id,
      (sockets id).mStreamType = .connected → (sockets id).ResolvedOnce := by
  intro h
  have hReach := reachable_run anyStep .connected false 7
    (show Machine.Path _ _ ([.creator .ok, .creator .ok, .creator .error] ++
      List.replicate 4 (.creator .ok)) by decide)
  have hOnce := (h _ hReach 7 (by decide)).1
  exact absurd hOnce (by decide)

-- `::connect` succeeds at once: the caller emits `Connected`, then the worker.
example :
    (socket.exec (Sock.fresh .connected false)
      (List.replicate 4 (.creator .ok) ++ [.poll ⟨false, false, true⟩] ++
        List.replicate 7 (.worker .none))).emitted = [.connected, .connected] := by decide

-- The worker sees the socket before `::connect` and stops the writing: the
-- connection is established, and nothing will tell.
example :
    let s := socket.exec (Sock.fresh .connected false)
      ([.creator .ok, .creator .ok, .poll ⟨false, false, true⟩] ++
        List.replicate 7 (.worker .none) ++ [.creator .inProgress, .kernelUp])
    s.Quiet ∧ s.kernel = .up ∧ s.emitted = [] ∧ s.armed = false := by decide

end Megatron.Socket
