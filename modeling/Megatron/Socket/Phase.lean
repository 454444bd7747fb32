import Megatron.Socket.Control

/-!
# A connector socket as its session sees it

The RPC service hears of a connector socket through three events.  Behind them
stands an automaton with three phases: the connect is pending, the connection
is established, the socket is gone.  As long as `epoll_socket_info::close` is
called by `closeSocket` only, every step of the socket either keeps the phase
and tells nothing, or changes the phase and tells it by one event.

## Main results

* `connectCall_reachable` — an uninterrupted `on_AddToConnectTCP` is a run.
* `phase_apply` — the socket refines the automaton.
-/

namespace Megatron.Socket

open Megatron.Lib

/-- What the session of a connector socket has to know. -/
inductive Phase where
  | pending
  | established
  | gone
  deriving DecidableEq, Repr

/-- In the connecting branch of `onEPOLLOUT`, the connect not yet noted. -/
def WorkerPc.inBranch : WorkerPc → Bool
  | .connSize _ | .connStop _ | .connNames _ | .connEmit _ | .connDone _ => true
  | _ => false

namespace Sock

/-! ## `on_AddToConnectTCP` -/

/-- The steps `on_AddToConnectTCP` takes when `::connect` answers `c`. -/
def connectSteps (c : ConnectRes) : List Action :=
  match c with
  | .ok => List.replicate 4 (.creator .ok)
  | .inProgress => List.replicate 3 (.creator .inProgress)
  | .error => List.replicate 7 (.creator .error)

/-- The socket when `on_AddToConnectTCP` returns, no other thread having got
in. -/
def connectCall (own : Bool) (c : ConnectRes) : Sock :=
  socket.exec (fresh .connected own) (connectSteps c)

theorem connectCall_reachable (own : Bool) (c : ConnectRes) :
    socket.Reachable (connectCall own c) ∧ (connectCall own c).Quiet := by
  constructor
  · have hInit : socket.Reachable (fresh .connected own) := .init ⟨.connected, own, rfl⟩
    apply hInit.path
    cases own <;> cases c <;> decide
  · cases own <;> cases c <;> decide

/-! ## The phases -/

/-- `closeSocket` has told that the connection is over. -/
def gone (s : Sock) : Bool := !s.fdOpen || s.worker.unremoved || s.worker.removed

/-- `onEPOLLOUT` has told that the connection is there. -/
def announced (s : Sock) : Bool :=
  match s.worker with
  | .connDone _ => true
  | _ => !s.inConnection

def phase (s : Sock) : Phase :=
  if s.gone then .gone else if s.announced then .established else .pending

/-- `epoll_socket_info::close` is called on a socket that is gone, by
`closeSocket` or after it. -/
def closedByService (s : Sock) (a : Action) : Prop :=
  match a with
  | .close => s.gone
  | _ => True

instance (s : Sock) (a : Action) : Decidable (closedByService s a) := by
  unfold closedByService
  apply @Action.casesOn _ a <;> intros <;> infer_instance

/-- A connector socket after `on_AddToConnectTCP`; in the connecting branch of
`onEPOLLOUT` the connect is open and not noted. -/
structure Steady (s : Sock) : Prop where
  ofConnected : s.mStreamType = .connected
  done : s.creator = .done
  branch : s.worker.inBranch → s.fdOpen ∧ s.inConnection

theorem steady_connectCall (own : Bool) (c : ConnectRes) : (connectCall own c).Steady := by
  constructor <;> cases own <;> cases c <;> decide

/-- A `closeSocket` that was not interrupted, or a connect that failed. -/
theorem phase_connectCall (own : Bool) (c : ConnectRes) :
    (connectCall own c).phase = if c = .error then .gone else .pending := by
  cases own <;> cases c <;> decide

/-! ## The steps -/

/-- An event no session hears of. -/
def silent (e : SocketEvent) : Prop := e = .streamRead ∨ e = .notifyOutBufferEmpty

theorem inBranch_eq (pc : WorkerPc) : pc.inBranch = (pc.connecting || pc.noted) := by
  cases pc <;> rfl

theorem announced_eq (s : Sock) : s.announced = (s.worker.noted || !s.inConnection) := by
  unfold announced
  cases s.worker <;> simp [WorkerPc.noted]

theorem fdOpen_of_phase {s : Sock} (h : s.phase ≠ .gone) : s.fdOpen := by
  by_contra hClosed
  exact h (by simp [phase, gone, hClosed])

theorem inConnection_of_phase {s : Sock} (h : s.phase ≠ .gone) (h' : s.phase ≠ .established) :
    s.inConnection := by
  by_contra hNot
  have hAnnounced : s.announced := by simp [announced_eq, Bool.eq_false_iff.2 hNot]
  cases hGone : s.gone with
  | true => exact h (by simp [phase, hGone])
  | false => exact h' (by simp [phase, hGone, hAnnounced])

theorem steady_apply {s : Sock} (h : s.Steady) {a : Action} (hEn : socket.enabled s a)
    (hGuard : closedByService s a) : (socket.apply s a).Steady := by
  obtain ⟨hType, hDone, hBranch⟩ := h
  cases a with
  | creator c => exact absurd hDone hEn
  | worker io =>
      have hMoves := moves_workerStep s io
      have hSame := s.sameCreator_workerStep io
      refine ⟨hSame.mStreamType.trans hType, hSame.creator.trans hDone, fun hIn => ?_⟩
      simp only [socket, inBranch_eq, hMoves.noted, Bool.or_eq_true, Bool.and_eq_true] at hIn
      -- the worker was in the branch before the step, or enters it now
      have hBefore : s.fdOpen ∧ s.inConnection ∧ s.worker.removed = false ∧
          s.worker.noted = false := by
        cases hConn : s.worker.connecting || s.worker.reporting && !s.worker.noted with
        | true =>
            obtain ⟨hOpen, hConn'⟩ := hBranch (by
              cases hPc : s.worker <;>
                simp [hPc, WorkerPc.inBranch, WorkerPc.connecting, WorkerPc.reporting,
                  WorkerPc.noted] at hConn ⊢)
            refine ⟨hOpen, hConn', ?_⟩
            cases hPc : s.worker <;>
              simp [hPc, WorkerPc.connecting, WorkerPc.reporting, WorkerPc.noted,
                WorkerPc.removed] at hConn ⊢
        | false =>
            rw [Bool.or_eq_false_iff] at hConn
            obtain ⟨hOpen, hConn', f, hPc⟩ := hMoves.connecting
              (hIn.resolve_right (by simpa using hConn.2)) hConn.1
            exact ⟨hOpen, hConn', by simp [hPc, WorkerPc.removed], by simp [hPc, WorkerPc.noted]⟩
      simp [socket, hMoves.fdOpen, hMoves.inConnection, hBefore]
  | append data =>
      obtain ⟨hType', hOpen, hIn, -, -, hPc, hAt, -⟩ := s.sameControl_append data
      refine ⟨hType'.trans hType, hPc.trans hDone, ?_⟩
      simp only [socket, hOpen, hIn, hAt]
      exact hBranch
  | close =>
      refine ⟨hType, hDone, fun hIn => ?_⟩
      obtain ⟨hOpen, -⟩ := hBranch hIn
      have hGone : s.gone := hGuard
      cases hPc : s.worker <;>
        simp [gone, hOpen, hPc, WorkerPc.unremoved, WorkerPc.removed] at hGone <;>
        simp [socket, close, hPc, WorkerPc.inBranch] at hIn
  | poll f => exact ⟨hType, hDone, fun hIn => by cases hIn⟩
  | _ => exact ⟨hType, hDone, hBranch⟩

/-- What a step of the worker does to the phase. -/
theorem phase_workerStep {s : Sock} (h : s.Steady) (io : Io) :
    ((s.workerStep io).phase = s.phase ∧ ∀ e ∈ s.workerEvents, silent e) ∨
      (s.phase = .pending ∧ (s.workerStep io).phase = .established ∧
        s.workerEvents = [.connected]) ∨
      (s.phase ≠ .gone ∧ (s.workerStep io).phase = .gone ∧
        (s.workerEvents = [.connectFailed] ∨ s.workerEvents = [.disconnected])) := by
  obtain ⟨hType, hDone, hBranch⟩ := h
  have hMoves := moves_workerStep s io
  by_cases hCloses : s.worker.closing ∧ s.fdOpen
  · -- `closeSocket` tells, whatever was told before
    obtain ⟨hClosing, hOpen⟩ := hCloses
    obtain ⟨f, hPc⟩ : ∃ f, s.worker = .closeEmit f := by
      cases hPc : s.worker <;> simp [hPc, WorkerPc.closing] at hClosing ⊢
    right; right
    refine ⟨?_, ?_, ?_⟩
    · simp [phase, gone, hOpen, hPc, WorkerPc.unremoved, WorkerPc.removed]
      split <;> decide
    · simp [phase, gone, hMoves.unremoved, hClosing, hOpen]
    · cases hIn : s.inConnection <;> simp [workerEvents, hPc, hOpen, closeEvent, hType, hIn]
  by_cases hEmits : ∃ f, s.worker = .connEmit f
  · obtain ⟨f, hPc⟩ := hEmits
    obtain ⟨hOpen, hIn⟩ := hBranch (by simp [hPc, WorkerPc.inBranch])
    right; left
    refine ⟨?_, ?_, by simp [workerEvents, hPc]⟩
    · simp [phase, gone, announced, hPc, hOpen, hIn, WorkerPc.unremoved, WorkerPc.removed]
    · simp [workerStep, hPc, phase, gone, announced, goto, emit, hOpen, WorkerPc.unremoved,
        WorkerPc.removed]
  left
  have hNoted : (s.workerStep io).worker.noted = false := by
    rw [hMoves.noted]
    cases hPc : s.worker with
    | connEmit f => exact absurd ⟨f, hPc⟩ hEmits
    | _ => rfl
  have hUn : (s.workerStep io).worker.unremoved = false := by
    rw [hMoves.unremoved]
    simpa using hCloses
  refine ⟨?_, ?_⟩
  · have hGone : (s.workerStep io).gone = s.gone := by
      simp only [gone, hUn, hMoves.fdOpen, hMoves.removed, Bool.not_and, Bool.not_not,
        Bool.or_false]
      cases s.worker.removed <;> simp
    have hTold : (s.workerStep io).announced = s.announced := by
      rw [announced_eq, announced_eq, hNoted, hMoves.inConnection]
      cases s.worker.noted <;> simp
    rw [phase, phase, hGone, hTold]
  · intro e he
    unfold workerEvents at he
    cases hPc : s.worker with
    | connEmit f => exact absurd ⟨f, hPc⟩ hEmits
    | closeEmit f =>
        have hClosed : s.fdOpen = false := by
          simpa [hPc, WorkerPc.closing] using hCloses
        simp [hPc, hClosed] at he
    | _ => simp_all [silent]

/--
**The socket refines its phases.** A step keeps the phase and emits nothing the
session hears of, or it is one of: pending to established with `Connected`, and
not gone to gone with `ConnectFailed` or `Disconnected`.
-/
theorem phase_apply {s : Sock} (h : s.Steady) {a : Action} (hEn : socket.enabled s a)
    (hGuard : closedByService s a) :
    ((socket.apply s a).phase = s.phase ∧ ∀ e ∈ s.events a, silent e) ∨
      (s.phase = .pending ∧ (socket.apply s a).phase = .established ∧
        s.events a = [.connected]) ∨
      (s.phase ≠ .gone ∧ (socket.apply s a).phase = .gone ∧
        (s.events a = [.connectFailed] ∨ s.events a = [.disconnected])) := by
  have hNothing : ∀ e ∈ ([] : List SocketEvent), silent e := fun e he => by cases he
  cases a with
  | creator c => exact absurd h.done hEn
  | worker io => exact phase_workerStep h io
  | append data =>
      obtain ⟨-, hOpen, hIn, -, -, -, hAt, -⟩ := s.sameControl_append data
      refine Or.inl ⟨?_, hNothing⟩
      simp only [socket, phase, gone, announced_eq, hOpen, hIn, hAt]
  | close =>
      have hGone : s.gone := hGuard
      have hNow : (socket.apply s .close).gone := rfl
      refine Or.inl ⟨?_, hNothing⟩
      rw [phase, phase, if_pos hNow, if_pos hGone]
  | poll f =>
      have hIdle : s.worker = .idle := hEn.1
      refine Or.inl ⟨?_, hNothing⟩
      simp [socket, phase, gone, announced, goto, hIdle, WorkerPc.unremoved, WorkerPc.removed]
  | _ => exact Or.inl ⟨rfl, hNothing⟩

end Sock

end Megatron.Socket
