import Megatron.Socket.Control

/-!
# Accounting of connections

`closeSocket` emits the event that takes a connection back, removes the socket
from `MS` and closes the descriptor.  A connection that ends there is accounted
for.  Three things go past it: `epoll_socket_info::close` called directly
resets `m_id`, so that the entry stays in `MS` and no event is emitted; the
errno branches of `recv` return before `if(needClose)`; and a connection that
`on_AddToConnectTCP` has announced itself still counts as `inConnection`, so
that `closeSocket` emits `ConnectFailed` for it.

The proof keeps a ledger for the sockets on which `ConnectFailed` has been
emitted neither by the creator nor by the worker; those on which it has been
never announce a connection.

## Main results

* `lifecycle_accounted` — exactly one `Disaccepted` (`Disconnected`) and no
  entry in `MS`, in every run that meets the condition.
* `closed_directly` — without it, not.
-/

namespace Megatron.Socket

open Megatron.Corelib
open Megatron.Lib

/-- The event that announces a connection. -/
def StreamType.openEvent : StreamType → SocketEvent
  | .accepted => .accepted
  | .connected => .connected

/-- The event that takes it back. -/
def StreamType.lostEvent : StreamType → SocketEvent
  | .accepted => .disaccepted
  | .connected => .disconnected

/-- A socket in `MS` is closed by `closeSocket` only; no `recv` fails with an
errno that means a lost connection; and `closeSocket` finds `inConnection` set
only where no `Connected` has been, or is about to be, emitted. -/
def closesThroughService (s : Sock) (a : Action) : Prop :=
  match a, s.worker with
  | .close, _ => s.fdOpen → s.inMS = false
  | .worker (.recvFail lost), _ => lost = false
  | .worker _, .closeEmit _ =>
      s.mStreamType = .connected → s.inConnection →
        .connected ∉ s.emitted ∧ s.creator ≠ .emit
  | _, _ => True

instance (s : Sock) (a : Action) : Decidable (closesThroughService s a) := by
  unfold closesThroughService
  generalize s.worker = pc
  apply @Action.casesOn _ a <;> intros
  case worker io =>
    apply @Sock.Io.casesOn _ io <;> intros <;> apply @WorkerPc.casesOn _ pc <;> intros <;> infer_instance
  all_goals infer_instance

/-- A connection that was announced is taken back at most once, exactly once
when its descriptor is closed, which it is when the connection was reported
lost and no handler is running; and a closed socket is not in `MS`. -/
structure Sock.Accounted (s : Sock) : Prop where
  once : s.emitted.count s.mStreamType.lostEvent ≤ 1
  closed : s.fdOpen = false →
    s.emitted.count s.mStreamType.lostEvent = 1 ∧ s.inMS = false
  lost : s.told → s.Quiet → s.fdOpen = false

namespace Sock

/-! ## Sockets whose connect has failed -/

/-- `ConnectFailed` has been emitted, or the creator is about to. -/
def Failing (s : Sock) : Prop :=
  s.creator.failing ∨ .connectFailed ∈ s.emitted

/-- Such a socket never announces a connection. -/
structure Failed (s : Sock) : Prop where
  ofConnected : s.mStreamType = .connected
  kernel : s.kernel = .broken
  silent : .connected ∉ s.emitted
  creator : s.creator ≠ .emit ∧ s.creator.unconnected = false
  worker : s.worker.reporting = false

theorem failing_workerStep {s : Sock} (h : s.Failing) (io : Io) :
    (s.workerStep io).Failing := by
  unfold Failing
  rw [(s.sameCreator_workerStep io).creator, s.emitted_workerStep io]
  exact h.imp_right (List.mem_append_left _)

theorem failing_creatorStep {s : Sock} (h : s.Failing) (c : ConnectRes) :
    (s.creatorStep c).Failing := by
  unfold Failing
  rw [(moves_creatorStep s c).failing, s.emitted_creatorStep c]
  rcases h with hPc | hMem
  · by_cases hLast : s.creator = .failAgain
    · exact Or.inr (by simp [creatorEvents, hLast])
    · exact Or.inl (by rw [hPc]; simp [hLast])
  · exact Or.inr (List.mem_append_left _ hMem)

/-- The worker begins to fail a socket in `closeSocket` only. -/
theorem failing_of_workerStep {s : Sock} {io : Io} (h : (s.workerStep io).Failing)
    (hOld : ¬ s.Failing) :
    s.worker.closing ∧ s.fdOpen ∧ s.mStreamType = .connected ∧ s.inConnection := by
  obtain ⟨hCalm, hNone⟩ := not_or.1 hOld
  unfold Failing at h
  rw [(s.sameCreator_workerStep io).creator, s.emitted_workerStep io, List.mem_append] at h
  exact closing_of_connectFailed ((h.resolve_left hCalm).resolve_left hNone)

/-- The creator begins to fail a socket when `::connect` fails only. -/
theorem failing_of_creatorStep {s : Sock} {c : ConnectRes} (h : (s.creatorStep c).Failing)
    (hOld : ¬ s.Failing) : s.creator = .connect ∧ c = .error := by
  obtain ⟨hCalm, hNone⟩ := not_or.1 hOld
  unfold Failing at h
  rw [(moves_creatorStep s c).failing, s.emitted_creatorStep c, List.mem_append] at h
  rcases h with hPc | hMem
  · simpa only [Bool.not_eq_true _ ▸ hCalm, Bool.false_and, Bool.false_or,
      decide_eq_true_eq] using hPc
  · exact absurd (failing_of_connectFailed (hMem.resolve_left hNone)) hCalm

theorem failed_creatorStep {s : Sock} (hGr : s.Grounded) (h : s.Failing → s.Failed)
    (c : ConnectRes) (hF : (s.creatorStep c).Failing) : (s.creatorStep c).Failed := by
  have hMoves := moves_creatorStep s c
  have hSame := s.sameWorker_creatorStep c
  have hEmitted := s.emitted_creatorStep c
  by_cases hOld : s.Failing
  · obtain ⟨hType, hKernel, hSilent, ⟨hEmit, hUnconn⟩, hWorker⟩ := h hOld
    have hPast : s.creator ≠ .connect := by
      intro hPc
      simp [hPc, CreatorPc.unconnected] at hUnconn
    refine ⟨hSame.mStreamType.trans hType, (hMoves.kernel hPast).trans hKernel, ?_, ⟨?_, ?_⟩,
      by rw [hSame.worker]; exact hWorker⟩
    · rw [hEmitted, List.mem_append]
      rintro (hMem | hMem)
      · exact hSilent hMem
      · exact hEmit (emit_of_connected hMem)
    · intro hPc
      have hBefore := hMoves.emit hPc
      rw [hUnconn] at hBefore
      cases hBefore
    · by_contra hAgain
      have hEarly := hMoves.unconnected (by simpa using hAgain)
      cases hPc : s.creator <;> simp_all [CreatorPc.early, CreatorPc.unconnected]
  · obtain ⟨hPc, rfl⟩ := failing_of_creatorStep hF hOld
    have hType : s.mStreamType = .connected := by
      cases hType : s.mStreamType with
      | accepted => exact absurd hPc (hGr.ofAccepted hType).2.1
      | connected => rfl
    obtain ⟨hFresh, hSilent⟩ := hGr.unconnected hType (by simp [hPc, CreatorPc.unconnected])
    have hWorker : s.worker.reporting = false := by
      by_contra hRep
      exact hGr.reporting (by simpa using hRep) hFresh
    simp only [creatorStep, hPc]
    exact ⟨hType, rfl, hSilent, ⟨by simp, rfl⟩, hWorker⟩

theorem failed_workerStep {s : Sock} (hGr : s.Grounded) (h : s.Failing → s.Failed) {io : Io}
    (hFits : s.ioFits io) (hGuard : closesThroughService s (.worker io))
    (hF : (s.workerStep io).Failing) : (s.workerStep io).Failed := by
  have hMoves := moves_workerStep s io
  have hSame := s.sameCreator_workerStep io
  have hEmitted := s.emitted_workerStep io
  obtain ⟨hType, hKernel, hSilent, hCreator, hWorker⟩ : s.Failed := by
    by_cases hOld : s.Failing
    · exact h hOld
    obtain ⟨hClosing, hOpen, hType, hIn⟩ := failing_of_workerStep hF hOld
    obtain ⟨f, hPc⟩ : ∃ f, s.worker = .closeEmit f := by
      cases hPc : s.worker <;> simp_all [WorkerPc.closing]
    have hIo : io = .none := by simpa only [ioFits, hPc] using hFits
    simp only [closesThroughService, hPc, hIo] at hGuard
    have hKernel := hGr.closing hType hClosing hIn
    refine ⟨hType, hKernel, (hGuard hType hIn).1, ⟨(hGuard hType hIn).2, ?_⟩,
      by simp [hPc, WorkerPc.reporting]⟩
    by_contra hUnconn
    have hFresh := (hGr.unconnected hType (by simpa using hUnconn)).1
    simp [hKernel] at hFresh
  refine ⟨hSame.mStreamType.trans hType, hMoves.kernel.trans hKernel, ?_, ?_, ?_⟩
  · rw [hEmitted, List.mem_append]
    rintro (hMem | hMem)
    · exact hSilent hMem
    · have hRep := (reporting_of_connected hMem).1
      rw [hWorker] at hRep
      cases hRep
  · rw [hSame.creator]
    exact hCreator
  · by_contra hRep
    have hUp := hMoves.reporting (by simpa using hRep) hWorker
    rw [hKernel] at hUp
    cases hUp

/-! ## The ledger -/

/-- How often the connection has been taken back. -/
def lostCount (s : Sock) : Nat := s.emitted.count s.mStreamType.lostEvent

/-- The books of a socket that is not failing, at every point of
`closeSocket`. -/
structure Ledger (s : Sock) : Prop where
  count : s.lostCount =
    if s.fdOpen ∧ s.worker.unremoved = false ∧ s.worker.removed = false then 0 else 1
  present : s.fdOpen → s.creator.early = false → s.worker.removed = false → s.inMS
  absent : s.fdOpen = false ∨ s.worker.removed → s.inMS = false
  unremoved : s.worker.unremoved → s.fdOpen
  told : s.told →
    s.fdOpen = false ∨ s.worker.closing ∨ s.worker.unremoved ∨ s.worker.removed

theorem lostCount_append {s t : Sock} {es : List SocketEvent}
    (hType : t.mStreamType = s.mStreamType) (hEmitted : t.emitted = s.emitted ++ es) :
    t.lostCount = s.lostCount + es.count s.mStreamType.lostEvent := by
  unfold lostCount
  rw [hType, hEmitted, List.count_append]

/-- The worker takes a connection back in `closeSocket` only. -/
theorem count_workerEvents {s : Sock} :
    s.workerEvents.count s.mStreamType.lostEvent =
      if s.worker.closing ∧ s.fdOpen ∧ s.closeEvent = s.mStreamType.lostEvent then 1 else 0 := by
  unfold workerEvents
  cases hPc : s.worker
  case closeEmit f =>
    by_cases hOpen : s.fdOpen <;> by_cases hEvent : s.closeEvent = s.mStreamType.lostEvent <;>
      simp [hOpen, hEvent, WorkerPc.closing]
  all_goals cases hType : s.mStreamType <;>
    simp [StreamType.lostEvent, WorkerPc.closing, apply_ite]

/-- The creator takes it back in its `closeSocket` only. -/
theorem count_creatorEvents {s : Sock} (h : s.creator = .closeEmit → s.fdOpen = false) :
    s.creatorEvents.count s.mStreamType.lostEvent = 0 := by
  unfold creatorEvents
  cases hPc : s.creator <;> cases hType : s.mStreamType <;> simp_all [StreamType.lostEvent]

/-- What a socket that is not failing emits in `closeSocket`. -/
theorem closeEvent_of_not_failing {s : Sock} {io : Io} (hF : ¬ (s.workerStep io).Failing)
    (hClosing : s.worker.closing) (hOpen : s.fdOpen) :
    s.closeEvent = s.mStreamType.lostEvent := by
  have hNot : s.closeEvent ≠ .connectFailed := by
    intro hEvent
    refine hF (Or.inr ?_)
    rw [s.emitted_workerStep io, List.mem_append]
    cases hPc : s.worker <;> simp_all [workerEvents, WorkerPc.closing]
  unfold closeEvent at hNot ⊢
  cases hType : s.mStreamType <;> simp_all [StreamType.lostEvent]

theorem ledger_creatorStep {s : Sock} (hGr : s.Grounded) (h : ¬ s.Failing → s.Ledger)
    (c : ConnectRes) (hF : ¬ (s.creatorStep c).Failing) : (s.creatorStep c).Ledger := by
  have hMoves := moves_creatorStep s c
  have hSame := s.sameWorker_creatorStep c
  have hOld : ¬ s.Failing := fun hFailing => hF (failing_creatorStep hFailing c)
  have hCalm : s.creator.failing = false := by simpa using (not_or.1 hOld).1
  obtain ⟨hCount, hPresent, hAbsent, hUnremoved, hTold⟩ := h hOld
  have hNext := lostCount_append hSame.mStreamType (s.emitted_creatorStep c)
  have hBefore : s.creator = .closeEmit → s.fdOpen = false := by
    intro hPc
    simp [hPc, CreatorPc.failing] at hCalm
  rw [count_creatorEvents hBefore, Nat.add_zero] at hNext
  have hKeeps : (s.creatorStep c).told = s.told := by
    by_cases hPc : s.creator = .connect
    · cases c with
      | error => exact absurd (Or.inl (by simp [creatorStep, hPc, CreatorPc.failing])) hF
      | _ => simp [creatorStep, hPc]
    · exact hMoves.told hPc
  constructor
  · rw [hNext, hMoves.fdOpen hCalm, hSame.worker]
    exact hCount
  · intro hOpen hLate hRemoved
    rw [hMoves.fdOpen hCalm] at hOpen
    rw [hSame.worker] at hRemoved
    rw [hMoves.inMS hCalm]
    by_cases hPc : s.creator = .add
    · simp [hPc]
    · have hPast : s.creator.early = false := by
        cases hBefore : s.creator <;> cases hType : s.mStreamType <;>
          simp_all [creatorStep, sockAddReadOnNew, sockAddRWOnNew, CreatorPc.early]
      simp [hPresent hOpen hPast hRemoved]
  · intro hGone
    rw [hMoves.fdOpen hCalm, hSame.worker] at hGone
    rw [hMoves.inMS hCalm, hAbsent hGone]
    -- a socket that is being added is open, and the worker does not know it
    have hNot : s.creator ≠ .add := by
      intro hPc
      obtain ⟨-, hOpen, -, hWaiting, -⟩ := hGr.early (by simp [hPc, CreatorPc.early])
      rcases hGone with hClosed | hRemoved
      · simp [hOpen] at hClosed
      · cases hWorker : s.worker <;> simp_all [WorkerPc.waiting, WorkerPc.removed]
    simp [hNot]
  · rw [hSame.worker, hMoves.fdOpen hCalm]
    exact hUnremoved
  · rw [hKeeps, hSame.worker, hMoves.fdOpen hCalm]
    exact hTold

theorem ledger_workerStep {s : Sock} (h : ¬ s.Failing → s.Ledger) {io : Io}
    (hGuard : closesThroughService s (.worker io)) (hF : ¬ (s.workerStep io).Failing) : (s.workerStep io).Ledger := by
  have hMoves := moves_workerStep s io
  have hSame := s.sameCreator_workerStep io
  have hOld : ¬ s.Failing := fun hFailing => hF (failing_workerStep hFailing io)
  obtain ⟨hCount, hPresent, hAbsent, hUnremoved, hTold⟩ := h hOld
  have hNext := lostCount_append hSame.mStreamType (s.emitted_workerStep io)
  rw [count_workerEvents] at hNext
  -- the worker is at one place of `closeSocket` at most
  have hPlace : s.worker.closing → s.worker.unremoved = false ∧ s.worker.removed = false := by
    cases s.worker <;> simp [WorkerPc.closing, WorkerPc.unremoved, WorkerPc.removed]
  have hPlace' : s.worker.unremoved → s.worker.removed = false := by
    cases s.worker <;> simp [WorkerPc.unremoved, WorkerPc.removed]
  constructor
  · rw [hMoves.fdOpen, hMoves.unremoved, hMoves.removed]
    by_cases hClosing : s.worker.closing ∧ s.fdOpen
    · obtain ⟨hClosing, hOpen⟩ := hClosing
      rw [hNext, hCount]
      simp [hClosing, hOpen, hPlace hClosing, closeEvent_of_not_failing hF hClosing hOpen]
    · have hNone : (s.worker.closing && s.fdOpen) = false := by simpa using hClosing
      rw [if_neg fun h => hClosing ⟨h.1, h.2.1⟩, hCount] at hNext
      rw [hNext, hNone]
      cases s.fdOpen <;> cases s.worker.unremoved <;> cases s.worker.removed <;> simp
  · intro hOpen hLate hRemoved
    rw [hMoves.fdOpen, Bool.and_eq_true] at hOpen
    rw [hSame.creator] at hLate
    rw [hMoves.removed] at hRemoved
    simp [hMoves.inMS, hRemoved, hPresent hOpen.1 hLate (by simpa using hOpen.2)]
  · intro hGone
    rw [hMoves.fdOpen, hMoves.removed, Bool.and_eq_false_iff] at hGone
    rw [hMoves.inMS]
    rcases hGone with (hClosed | hRemoved) | hUn
    · simp [hAbsent (Or.inl hClosed)]
    · simp [hAbsent (Or.inr (by simpa using hRemoved))]
    · simp [hUn, hUnremoved hUn]
  · intro hNow
    rw [hMoves.unremoved, Bool.and_eq_true] at hNow
    simp [hMoves.fdOpen, hNow.2, hPlace hNow.1]
  · intro hNow
    rw [hMoves.fdOpen, hMoves.unremoved, hMoves.removed]
    cases hClosing : (s.workerStep io).worker.closing with
    | true => simp
    | false =>
        have hIo : io ≠ .recvFail true := by
          rintro rfl
          exact absurd hGuard (by simp [closesThroughService])
        rw [hMoves.told hClosing hIo] at hNow
        rcases hTold hNow with hClosed | hAt | hUn | hRemoved
        · simp [hClosed]
        · cases hOpen : s.fdOpen <;> simp [hAt]
        · simp [hUn]
        · simp [hRemoved]

/-- A descriptor closed directly is closed already, or about to be. -/
theorem ledger_close {s : Sock} (hGr : s.Grounded) (h : s.Ledger) (hEn : s.emitted ≠ [])
    (hGuard : s.fdOpen → s.inMS = false) : s.close.Ledger := by
  obtain ⟨hCount, hPresent, hAbsent, hUnremoved, -⟩ := h
  have hLate : s.creator.early = false := by
    by_contra hEarly
    exact hEn (hGr.early (by simpa using hEarly)).2.2.1
  have hThere : s.fdOpen → s.worker.removed := by
    intro hOpen
    by_contra hRemoved
    have hMS := hPresent hOpen hLate (by simpa using hRemoved)
    rw [hGuard hOpen] at hMS
    cases hMS
  have hOnce : s.lostCount = 1 := by
    rw [hCount, if_neg]
    intro hBefore
    rw [hThere hBefore.1] at hBefore
    cases hBefore.2.2
  refine ⟨?_, fun hOpen => (by cases hOpen), ?_, ?_, fun _ => Or.inl rfl⟩
  · simpa [close, lostCount] using hOnce
  · intro _
    cases hOpen : s.fdOpen with
    | true => exact hGuard hOpen
    | false => exact hAbsent (Or.inl hOpen)
  · intro hUn
    have hRemoved := hThere (hUnremoved hUn)
    simp only [close] at hUn
    cases hPc : s.worker <;> simp [hPc, WorkerPc.unremoved, WorkerPc.removed] at hUn hRemoved

theorem Ledger.congr {s t : Sock} (h : s.Ledger) (hSame : SameControl s t) : t.Ledger := by
  obtain ⟨hType, hOpen, -, hMS, -, hCreator, hWorker, hTold, hEmitted, -⟩ := hSame
  constructor <;> simp only [lostCount, hType, hOpen, hMS, hCreator, hWorker, hTold, hEmitted]
  · exact h.count
  · exact h.present
  · exact h.absent
  · exact h.unremoved
  · exact h.told

theorem Failed.congr {s t : Sock} (h : s.Failed) (hSame : SameControl s t) : t.Failed := by
  obtain ⟨hType, -, -, -, hKernel, hCreator, hWorker, -, hEmitted, -⟩ := hSame
  constructor <;> simp only [hType, hKernel, hCreator, hWorker, hEmitted]
  · exact h.ofConnected
  · exact h.kernel
  · exact h.silent
  · exact h.creator
  · exact h.worker

end Sock

/-! ## Every run -/

/-- Failing sockets announce nothing, the others are in the books. -/
structure Sock.Booked (s : Sock) : Prop where
  grounded : s.Grounded
  failed : s.Failing → s.Failed
  ledger : ¬ s.Failing → s.Ledger

theorem Sock.booked_fresh (st : StreamType) (own : Bool) : (Sock.fresh st own).Booked where
  grounded := Sock.grounded_fresh st own
  failed := fun h => by simp [Failing, fresh, CreatorPc.failing] at h
  ledger := fun _ => by
    cases st <;> constructor <;> simp [lostCount, fresh, CreatorPc.early, WorkerPc.unremoved,
      WorkerPc.removed]

theorem Sock.booked_apply (s : Sock) (a : Action) (h : s.Booked)
    (hEn : (socket.guarded closesThroughService).enabled s a) : (socket.apply s a).Booked := by
  obtain ⟨hGr, hFailed, hLedger⟩ := h
  obtain ⟨hEnabled, hGuard⟩ := hEn
  have hNext := Sock.grounded_apply hGr hEnabled
  cases a with
  | creator c =>
      exact ⟨hNext, Sock.failed_creatorStep hGr hFailed c, Sock.ledger_creatorStep hGr hLedger c⟩
  | worker io =>
      have hFits : s.ioFits io := hEnabled.2.2
      exact ⟨hNext, Sock.failed_workerStep hGr hFailed hFits hGuard,
        Sock.ledger_workerStep hLedger hGuard⟩
  | append data =>
      have hSame := s.sameControl_append data
      refine ⟨hNext, fun hF => (hFailed ?_).congr hSame, fun hF => (hLedger ?_).congr hSame⟩
      · simpa [socket, Sock.Failing, hSame.creator, hSame.emitted] using hF
      · simpa [socket, Sock.Failing, hSame.creator, hSame.emitted] using hF
  | mark =>
      -- nothing of what is booked changes
      refine ⟨hNext, fun hF => ?_, fun hF => ?_⟩
      · obtain ⟨hType, hKernel, hSilent, hCreator, hWorker⟩ := hFailed hF
        exact ⟨hType, hKernel, hSilent, hCreator, hWorker⟩
      · obtain ⟨hCount, hPresent, hAbsent, hUnremoved, hTold⟩ := hLedger hF
        exact ⟨hCount, hPresent, hAbsent, hUnremoved, hTold⟩
  | close =>
      refine ⟨hNext, fun hF => ?_, fun hF => Sock.ledger_close hGr (hLedger hF) hEnabled hGuard⟩
      obtain ⟨hType, hKernel, hSilent, hCreator, hWorker⟩ := hFailed hF
      exact ⟨hType, hKernel, hSilent, hCreator, hWorker⟩
  | poll f =>
      have hIdle : s.worker = .idle := hEnabled.1
      refine ⟨hNext, fun hF => ?_, fun hF => ?_⟩
      · obtain ⟨hType, hKernel, hSilent, hCreator, -⟩ := hFailed hF
        exact ⟨hType, hKernel, hSilent, hCreator, rfl⟩
      · obtain ⟨hCount, hPresent, hAbsent, hUnremoved, hTold⟩ := hLedger hF
        rw [hIdle] at hCount hPresent hAbsent hUnremoved hTold
        exact ⟨hCount, hPresent, hAbsent, hUnremoved, hTold⟩
  | kernelUp =>
      have hConnecting : s.kernel = .connecting := hEnabled
      refine ⟨hNext, fun hF => ?_, fun hF => ?_⟩
      · have hBroken := (hFailed hF).kernel
        rw [hConnecting] at hBroken
        cases hBroken
      · obtain ⟨hCount, hPresent, hAbsent, hUnremoved, hTold⟩ := hLedger hF
        exact ⟨hCount, hPresent, hAbsent, hUnremoved, hTold⟩
  | kernelBroken =>
      refine ⟨hNext, fun hF => ?_, fun hF => ?_⟩
      · obtain ⟨hType, -, hSilent, hCreator, hWorker⟩ := hFailed hF
        exact ⟨hType, rfl, hSilent, hCreator, hWorker⟩
      · obtain ⟨hCount, hPresent, hAbsent, hUnremoved, hTold⟩ := hLedger hF
        exact ⟨hCount, hPresent, hAbsent, hUnremoved, hTold⟩

theorem Sock.Booked.accounted {s : Sock} (h : s.Booked)
    (hOpen : s.mStreamType.openEvent ∈ s.emitted) : s.Accounted := by
  have hHealthy : ¬ s.Failing := by
    intro hFailing
    have hFailed := h.failed hFailing
    rw [hFailed.ofConnected] at hOpen
    exact hFailed.silent hOpen
  have hLedger := h.ledger hHealthy
  have hCount := hLedger.count
  unfold lostCount at hCount
  constructor
  · rw [hCount]
    split <;> decide
  · intro hClosed
    exact ⟨by simpa [hClosed] using hCount, hLedger.absent (.inl hClosed)⟩
  · intro hTold hQuiet
    simpa [hQuiet.2, WorkerPc.closing, WorkerPc.unremoved, WorkerPc.removed] using
      hLedger.told hTold

/--
**Accounting of connections.** In every run in which every socket of `MS` is
closed by `closeSocket`, no `recv` fails for good and no connection announced
by `on_AddToConnectTCP` itself is closed as one still being made: a socket that
has been announced is taken back at most once, exactly once when its descriptor
is closed, and then it is not in `MS`; and its descriptor is closed when the
loss of the connection was reported and no handler is running.
-/
theorem lifecycle_accounted {sockets : SocketId → Sock}
    (h : (service closesThroughService).Reachable sockets) (id : SocketId)
    (hOpen : (sockets id).mStreamType.openEvent ∈ (sockets id).emitted) :
    (sockets id).Accounted := by
  apply Sock.Booked.accounted _ hOpen
  apply Machine.Reachable.invariant _ Sock.booked_apply (Machine.family_reachable h id)
  rintro s ⟨st, own, rfl⟩
  exact Sock.booked_fresh st own

/-- Accepted, served once, then reset by the peer: the worker closes it. -/
def acceptedThenReset : List Action :=
  [.creator .ok, .creator .ok, .creator .ok, .kernelBroken, .poll ⟨true, false, false⟩] ++
    List.replicate 6 (.worker .none)

theorem acceptedThenReset_accounted :
    let s := socket.exec (Sock.fresh .accepted false) acceptedThenReset
    s.emitted = [.accepted, .disaccepted] ∧ s.told ∧ s.Quiet ∧ s.fdOpen = false ∧ s.inMS = false := by
  have hReach := reachable_run closesThroughService .accepted false 7
    (show Machine.Path _ _ acceptedThenReset by decide)
  have hAccounted := lifecycle_accounted hReach 7 (by decide)
  have hClosed := hAccounted.lost (by decide) (by decide)
  exact ⟨by decide, by decide, by decide, hClosed, (hAccounted.closed hClosed).2⟩

/-! ## A descriptor closed directly -/

/-- Once the descriptor is closed, nothing takes the connection back or removes
the socket from `MS` any more. -/
theorem Sock.closed_apply {s : Sock} (h : s.fdOpen = false) (a : Action) :
    (socket.apply s a).fdOpen = false ∧ (socket.apply s a).lostCount = s.lostCount ∧
      (s.inMS → (socket.apply s a).inMS) := by
  cases a with
  | creator c =>
      have hMoves := moves_creatorStep s c
      have hCount := lostCount_append (s.sameWorker_creatorStep c).mStreamType
        (s.emitted_creatorStep c)
      rw [count_creatorEvents fun _ => h] at hCount
      exact ⟨(hMoves.closed h).1, hCount, (hMoves.closed h).2⟩
  | worker io =>
      have hMoves := moves_workerStep s io
      have hCount := lostCount_append (s.sameCreator_workerStep io).mStreamType
        (s.emitted_workerStep io)
      rw [count_workerEvents, if_neg (by simp [h])] at hCount
      refine ⟨?_, hCount, fun hIn => ?_⟩
      · simp [socket, hMoves.fdOpen, h]
      · simp [socket, hMoves.inMS, h, hIn]
  | append data =>
      have hSame := s.sameControl_append data
      exact ⟨hSame.fdOpen.trans h, by simp [socket, lostCount, hSame.mStreamType],
        fun hIn => hSame.inMS.trans hIn⟩
  | close => exact ⟨rfl, rfl, id⟩
  | _ => exact ⟨h, rfl, id⟩

theorem Sock.closed_forever {s : Sock} (h : s.fdOpen = false) (hIn : s.inMS)
    (acts : List Action) :
    (socket.exec s acts).lostCount = s.lostCount ∧ (socket.exec s acts).inMS := by
  induction acts generalizing s with
  | nil => exact ⟨rfl, hIn⟩
  | cons a acts ih =>
      obtain ⟨hClosed, hCount, hKept⟩ := Sock.closed_apply h a
      have hRest := ih hClosed (hKept hIn)
      exact ⟨hRest.1.trans hCount, hRest.2⟩

/-- Accepted, then closed by whoever got the `Accepted`. -/
def closedByHolder : List Action := List.replicate 3 (.creator .ok) ++ [.close]

/-- An accepted socket that its holder closes stays in `MS` without a
`Disaccepted`, whatever happens later. -/
theorem closed_directly :
    ¬ ∀ sockets : SocketId → Sock, (service anyStep).Reachable sockets → ∀ id,
      (sockets id).mStreamType.openEvent ∈ (sockets id).emitted →
      (sockets id).fdOpen = false →
      ∃ acts, socket.Path (sockets id) acts ∧
        (socket.exec (sockets id) acts).lostCount = 1 ∧
        (socket.exec (sockets id) acts).inMS = false := by
  intro h
  have hReach := reachable_run anyStep .accepted false 7
    (show Machine.Path _ _ closedByHolder by decide)
  obtain ⟨acts, _, _, hGone⟩ := h _ hReach 7 (by decide) (by decide)
  rw [Function.update_self] at hGone
  have hClosed : (socket.exec (Sock.fresh .accepted false) closedByHolder).fdOpen = false := by
    decide
  have hKept := (Sock.closed_forever hClosed (by decide) acts).2
  rw [hGone] at hKept
  exact absurd hKept (by decide)

end Megatron.Socket
