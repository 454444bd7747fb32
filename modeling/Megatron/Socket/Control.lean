import Megatron.Socket.Service

/-!
# Where the two threads of a socket can be

Facts that hold in every interleaving, with no condition on the steps: what is
still untouched while the creator has not added the socket to `MS`, what the
kernel has answered when the creator or the worker stands at a certain place.
The classes of program counters below name these places.

## Main results

* `Sock.moves_creatorStep`, `Sock.moves_workerStep` — what a step of either
  thread can do.
* `Sock.Grounded` — the facts.
* `grounded_reachable` — they hold in every run.
-/

namespace Megatron.Socket

open Megatron.Corelib
open Megatron.Lib

namespace CreatorPc

/-- The socket is not in `MS` yet. -/
def early : CreatorPc → Bool
  | .register | .add => true
  | _ => false

/-- `::connect` has not been called yet. -/
def unconnected : CreatorPc → Bool
  | .register | .add | .connect => true
  | _ => false

/-- `::connect` has failed at once. -/
def failing : CreatorPc → Bool
  | .closeEmit | .closeRemove | .closeShut | .failAgain => true
  | _ => false

end CreatorPc

namespace WorkerPc

/-- The worker has not got hold of the socket. -/
def waiting : WorkerPc → Bool
  | .idle | .lookup _ => true
  | _ => false

/-- `EPOLLERR` is still to be handled. -/
def err : WorkerPc → Bool
  | .idle | .terminated => false
  | .lookup f | .dispatch f | .recv f | .streamRead f | .out f | .connSize f | .connStop f
  | .connNames f | .connEmit f | .connDone f | .send f | .sent _ f | .notify _ _ f
  | .finish _ _ f | .closeEmit f | .closeRemove f | .closeShut f => f.err

/-- In the connecting branch of `onEPOLLOUT`. -/
def connecting : WorkerPc → Bool
  | .connSize _ | .connStop _ | .connNames _ | .connEmit _ => true
  | _ => false

/-- Past `getpeername` in the connecting branch. -/
def reporting : WorkerPc → Bool
  | .connEmit _ | .connDone _ => true
  | _ => false

/-- `Connected` emitted, `inConnection` still to be reset. -/
def noted : WorkerPc → Bool
  | .connDone _ => true
  | _ => false

/-- In the sending branch of `onEPOLLOUT`. -/
def sending : WorkerPc → Bool
  | .send _ | .sent _ _ | .notify _ _ _ | .finish _ _ _ => true
  | _ => false

/-- About to enter `closeSocket`. -/
def closing : WorkerPc → Bool
  | .closeEmit _ => true
  | _ => false

/-- In `closeSocket`, the event emitted. -/
def unremoved : WorkerPc → Bool
  | .closeRemove _ => true
  | _ => false

/-- In `closeSocket`, the socket removed from `MS`. -/
def removed : WorkerPc → Bool
  | .closeShut _ => true
  | _ => false

end WorkerPc

namespace Sock

/-! ## What a step can do -/

attribute [local simp] CreatorPc.early CreatorPc.unconnected CreatorPc.failing WorkerPc.waiting
  WorkerPc.err WorkerPc.connecting WorkerPc.reporting WorkerPc.noted WorkerPc.sending
  WorkerPc.closing WorkerPc.unremoved WorkerPc.removed

/-- What the buffers and the multiplexor leave alone; they register, and never
take out of the epoll set. -/
structure SameControl (s t : Sock) : Prop where
  mStreamType : t.mStreamType = s.mStreamType
  fdOpen : t.fdOpen = s.fdOpen
  inConnection : t.inConnection = s.inConnection
  inMS : t.inMS = s.inMS
  kernel : t.kernel = s.kernel
  creator : t.creator = s.creator
  worker : t.worker = s.worker
  told : t.told = s.told
  emitted : t.emitted = s.emitted
  registered : s.registered → t.registered

theorem sameControl_sockStartWrite (s : Sock) : SameControl s s.sockStartWrite := by
  unfold sockStartWrite
  split <;> constructor <;> simp

theorem sameControl_sockStopWrite (s : Sock) : SameControl s s.sockStopWrite := by
  unfold sockStopWrite
  split <;> constructor <;> simp

theorem SameControl.trans {s t u : Sock} (h : SameControl s t) (h' : SameControl t u) :
    SameControl s u where
  mStreamType := h'.mStreamType.trans h.mStreamType
  fdOpen := h'.fdOpen.trans h.fdOpen
  inConnection := h'.inConnection.trans h.inConnection
  inMS := h'.inMS.trans h.inMS
  kernel := h'.kernel.trans h.kernel
  creator := h'.creator.trans h.creator
  worker := h'.worker.trans h.worker
  told := h'.told.trans h.told
  emitted := h'.emitted.trans h.emitted
  registered := fun hReg => h'.registered (h.registered hReg)

theorem sameControl_append (s : Sock) (data : Bytes) : SameControl s (s.append data) := by
  unfold append
  apply SameControl.trans _ (sameControl_sockStartWrite _)
  constructor <;> simp

theorem sameControl_sendTook (s : Sock) (k : Nat) : SameControl s (s.sendTook k) := by
  unfold sendTook
  simp only
  split
  · apply SameControl.trans _ (sameControl_sockStopWrite _)
    constructor <;> simp
  · constructor <;> simp

/-- What a step of the worker does. -/
structure WorkerMoves (s : Sock) (io : Io) (t : Sock) : Prop where
  kernel : t.kernel = s.kernel
  fdOpen : t.fdOpen = (s.fdOpen && !s.worker.removed)
  inMS : t.inMS = (s.inMS && !(s.worker.unremoved && s.fdOpen))
  inConnection : t.inConnection = (s.inConnection && !s.worker.noted)
  told : t.worker.closing = false → io ≠ .recvFail true → t.told = s.told
  registered : s.registered → s.worker.removed = false → t.registered
  armed : s.worker.sending = false → s.worker.removed = false →
    (∀ f, s.worker ≠ .connStop f) → t.armed = s.armed
  waiting : s.worker.waiting → s.inMS = false → t.worker.waiting
  err : t.worker.err → s.worker.err
  connecting : t.worker.connecting → s.worker.connecting = false →
    s.fdOpen ∧ s.inConnection ∧ ∃ f, s.worker = .out f
  reporting : t.worker.reporting → s.worker.reporting = false → s.kernel = .up
  noted : t.worker.noted = (s.worker.reporting && !s.worker.noted)
  sending : t.worker.sending → s.worker.sending = false → s.inConnection = false
  closing : t.worker.closing → s.worker.err = false → s.worker.sending = false →
    io = .eof ∧ s.fdOpen ∧ ∃ f, s.worker = .recv f
  unremoved : t.worker.unremoved = (s.worker.closing && s.fdOpen)
  removed : t.worker.removed = s.worker.unremoved
  terminated : t.worker = .terminated → s.worker = .terminated ∨ s.fdOpen = false

theorem moves_recvStep {s : Sock} {io : Io} {f : Flags} (hPc : s.worker = .recv f) :
    WorkerMoves s io (s.recvStep f io) := by
  unfold recvStep
  split
  · cases io <;> constructor <;> simp_all [goto]
  · constructor <;> simp_all [goto]

theorem moves_sendStep {s : Sock} {io : Io} {f : Flags} (hPc : s.worker = .send f) :
    WorkerMoves s io (s.sendStep f io) := by
  -- whatever the send does to the buffer, the worker goes on in its branch
  have hSent : ∀ (u : Sock) (res : SendRes), SameControl s u →
      WorkerMoves s io (u.goto (.sent res f)) := by
    intro u res hSame
    constructor <;> simp [goto, hPc, hSame.kernel, hSame.fdOpen, hSame.inMS, hSame.inConnection,
      hSame.told]
    exact hSame.registered
  unfold sendStep
  split_ifs
  · exact hSent _ _ (sameControl_sockStopWrite s)
  · cases io with
    | took k => exact hSent _ _ (sameControl_sendTook s k)
    | again => exact hSent s _ ⟨rfl, rfl, rfl, rfl, rfl, rfl, rfl, rfl, rfl, id⟩
    | sendFail => exact hSent s _ ⟨rfl, rfl, rfl, rfl, rfl, rfl, rfl, rfl, rfl, id⟩
    | _ => constructor <;> simp [hPc]
  · constructor <;> simp_all [goto]

theorem moves_dispatchStep {s : Sock} {io : Io} {f : Flags} (hPc : s.worker = .dispatch f) :
    WorkerMoves s io (s.dispatchStep f) := by
  unfold dispatchStep
  split_ifs <;> constructor <;> simp_all [goto]

theorem moves_workerStep (s : Sock) (io : Io) : WorkerMoves s io (s.workerStep io) := by
  unfold workerStep
  cases hPc : s.worker with
  | dispatch f => exact moves_dispatchStep hPc
  | recv f => exact moves_recvStep hPc
  | send f => exact moves_sendStep hPc
  | out f =>
      simp only
      split_ifs <;> constructor <;> simp_all [goto]
  | connStop f =>
      have hSame := sameControl_sockStopWrite s
      constructor <;> simp [goto, hPc, hSame.kernel, hSame.fdOpen, hSame.inMS,
        hSame.inConnection, hSame.told]
      exact hSame.registered
  | _ =>
      simp only [removeMS]
      repeat' split
      all_goals constructor <;> simp +contextual [*, goto, emit, close]

/-- What a step of the creator does. -/
structure CreatorMoves (s : Sock) (c : ConnectRes) (t : Sock) : Prop where
  inConnection : t.inConnection = s.inConnection
  kernel : s.creator ≠ .connect → t.kernel = s.kernel
  connect : s.creator = .connect → t.kernel ≠ .fresh
  told : s.creator ≠ .connect → t.told = s.told
  fdOpen : s.creator.failing = false → t.fdOpen = s.fdOpen
  inMS : s.creator.failing = false → t.inMS = (s.inMS || s.creator = .add)
  closed : s.fdOpen = false → t.fdOpen = false ∧ (s.inMS → t.inMS)
  early : t.creator.early → s.creator = .register
  unconnected : t.creator.unconnected → s.creator.early
  ofConnected : t.creator = .connect → s.mStreamType = .connected
  emit : t.creator = .emit → s.creator.unconnected
  failing : t.creator.failing = (s.creator.failing && s.creator ≠ .failAgain ||
    s.creator = .connect ∧ c = .error)

theorem moves_creatorStep (s : Sock) (c : ConnectRes) : CreatorMoves s c (s.creatorStep c) := by
  unfold creatorStep
  cases hPc : s.creator with
  | connect => cases c <;> constructor <;> simp [hPc]
  | register => cases hType : s.mStreamType <;> constructor <;>
      simp [hPc, hType, sockAddReadOnNew, sockAddRWOnNew]
  | add => cases hType : s.mStreamType <;> constructor <;> simp [hPc, hType]
  | emit => cases hType : s.mStreamType <;> constructor <;> simp [hPc, Sock.emit]
  | closeEmit => simp only; split <;> constructor <;> simp [hPc, Sock.emit]
  | closeRemove => simp only [removeMS]; split <;> constructor <;> simp [*]
  | _ => constructor <;> simp [hPc, Sock.emit, close]

/-! ## Which events there can be -/

section Events

variable {s : Sock}

theorem closeEvent_eq_connectFailed :
    s.closeEvent = .connectFailed ↔ s.mStreamType = .connected ∧ s.inConnection := by
  unfold closeEvent
  split
  · split <;> simp_all
  · simp_all

theorem closeEvent_ne_connected : s.closeEvent ≠ .connected := by
  unfold closeEvent
  split
  · split <;> decide
  · decide

/-- Where the worker emits `Connected`. -/
theorem reporting_of_connected (h : .connected ∈ s.workerEvents) :
    s.worker.reporting ∧ s.worker.noted = false := by
  unfold workerEvents at h
  split at h <;> simp_all [closeEvent_ne_connected.symm]

/-- Where the worker emits `ConnectFailed`. -/
theorem closing_of_connectFailed (h : .connectFailed ∈ s.workerEvents) :
    s.worker.closing ∧ s.fdOpen ∧ s.mStreamType = .connected ∧ s.inConnection := by
  unfold workerEvents at h
  split at h
  case h_4 f hPc =>
    simp only [List.mem_ite_nil_right, List.mem_singleton] at h
    exact ⟨by simp [hPc], h.1, closeEvent_eq_connectFailed.1 h.2.symm⟩
  all_goals simp_all

/-- Where the creator emits `Connected`. -/
theorem emit_of_connected (h : .connected ∈ s.creatorEvents) : s.creator = .emit := by
  unfold creatorEvents at h
  split at h <;> simp_all [closeEvent_ne_connected.symm]

/-- Where the creator emits `ConnectFailed`. -/
theorem failing_of_connectFailed (h : .connectFailed ∈ s.creatorEvents) :
    s.creator.failing := by
  unfold creatorEvents at h
  split at h
  case h_1 => cases hType : s.mStreamType <;> simp [hType] at h
  all_goals simp_all

theorem creatorEvents_of_unconnected (h : s.creator.unconnected) : s.creatorEvents = [] := by
  unfold creatorEvents
  split <;> simp_all

end Events

/-! ## What holds in every interleaving -/

/-- What holds in every interleaving. -/
structure Grounded (s : Sock) : Prop where
  early : s.creator.early →
    s.inMS = false ∧ s.fdOpen ∧ s.emitted = [] ∧ s.worker.waiting ∧ s.told = false
  ofAccepted : s.mStreamType = .accepted →
    s.creator.failing = false ∧ s.creator ≠ .connect ∧ .connectFailed ∉ s.emitted
  unconnected : s.mStreamType = .connected → s.creator.unconnected →
    s.kernel = .fresh ∧ .connected ∉ s.emitted
  err : s.worker.err → s.kernel = .broken
  reporting : s.worker.reporting → s.kernel ≠ .fresh
  sending : s.mStreamType = .connected → s.worker.sending → s.inConnection = false
  closing : s.mStreamType = .connected → s.worker.closing → s.inConnection →
    s.kernel = .broken

theorem grounded_fresh (st : StreamType) (own : Bool) : (fresh st own).Grounded := by
  cases st <;> constructor <;> simp [fresh]

theorem grounded_creatorStep {s : Sock} (h : s.Grounded) (c : ConnectRes) :
    (s.creatorStep c).Grounded := by
  have hMoves := moves_creatorStep s c
  have hSame := s.sameWorker_creatorStep c
  have hEmitted := s.emitted_creatorStep c
  generalize s.creatorStep c = t at hMoves hSame hEmitted
  -- at `::connect` the kernel has not answered anything yet
  have hFresh : s.creator = .connect → s.kernel = .fresh := by
    intro hPc
    cases hType : s.mStreamType with
    | accepted => exact absurd hPc (h.ofAccepted hType).2.1
    | connected => exact (h.unconnected hType (by simp [hPc])).1
  constructor
  · intro hEarly
    have hPc := hMoves.early hEarly
    obtain ⟨hMS, hOpen, hNone, hWaiting, hTold⟩ := h.early (by simp [hPc])
    refine ⟨?_, ?_, ?_, ?_, ?_⟩
    · simp [hMoves.inMS (by simp [hPc]), hMS, hPc]
    · rw [hMoves.fdOpen (by simp [hPc])]
      exact hOpen
    · rw [hEmitted, hNone, creatorEvents_of_unconnected (by simp [hPc])]
      rfl
    · rw [hSame.worker]
      exact hWaiting
    · rw [hMoves.told (by simp [hPc])]
      exact hTold
  · intro hType
    rw [hSame.mStreamType] at hType
    obtain ⟨hCalm, hConnect, hNone⟩ := h.ofAccepted hType
    refine ⟨by rw [hMoves.failing, hCalm]; simp [hConnect], ?_, ?_⟩
    · intro hPc
      simp [hMoves.ofConnected hPc] at hType
    · intro hMem
      rw [hEmitted, List.mem_append] at hMem
      have hFailing := failing_of_connectFailed (hMem.resolve_left hNone)
      rw [hCalm] at hFailing
      cases hFailing
  · intro hType hUnconn
    rw [hSame.mStreamType] at hType
    have hEarly := hMoves.unconnected hUnconn
    have hPast : s.creator ≠ .connect := by
      intro hPc
      simp [hPc] at hEarly
    have hBefore : s.creator.unconnected := by
      cases hPc : s.creator <;> simp_all
    rw [hMoves.kernel hPast, hEmitted, creatorEvents_of_unconnected hBefore, List.append_nil]
    exact h.unconnected hType hBefore
  · intro hErr
    rw [hSame.worker] at hErr
    have hBroken := h.err hErr
    rwa [hMoves.kernel fun hPc => by simp [hFresh hPc] at hBroken]
  · intro hRep
    rw [hSame.worker] at hRep
    by_cases hPc : s.creator = .connect
    · exact hMoves.connect hPc
    · rw [hMoves.kernel hPc]
      exact h.reporting hRep
  · intro hType hSending
    rw [hSame.mStreamType] at hType
    rw [hSame.worker] at hSending
    rw [hMoves.inConnection]
    exact h.sending hType hSending
  · intro hType hClosing hIn
    rw [hSame.mStreamType] at hType
    rw [hSame.worker] at hClosing
    rw [hMoves.inConnection] at hIn
    have hBroken := h.closing hType hClosing hIn
    rwa [hMoves.kernel fun hPc => by simp [hFresh hPc] at hBroken]

theorem grounded_workerStep {s : Sock} (h : s.Grounded) {io : Io} (hFits : s.ioFits io)
    (hRunning : s.worker ≠ .idle) : (s.workerStep io).Grounded := by
  have hMoves := moves_workerStep s io
  have hSame := s.sameCreator_workerStep io
  have hEmitted := s.emitted_workerStep io
  constructor
  · intro hEarly
    rw [hSame.creator] at hEarly
    obtain ⟨hMS, hOpen, hNone, hWaiting, hTold⟩ := h.early hEarly
    -- the worker looks the socket up, and does not find it
    obtain ⟨f, hPc⟩ : ∃ f, s.worker = .lookup f := by
      cases hPc : s.worker <;> simp_all
    simp [workerStep, hPc, hMS, goto, hOpen, hNone, hTold]
  · intro hType
    rw [hSame.mStreamType] at hType
    obtain ⟨hCalm, hConnect, hNone⟩ := h.ofAccepted hType
    rw [hSame.creator, hEmitted, List.mem_append]
    refine ⟨hCalm, hConnect, fun hMem => ?_⟩
    have hFailed := closing_of_connectFailed (hMem.resolve_left hNone)
    simp [hType] at hFailed
  · intro hType hUnconn
    rw [hSame.mStreamType] at hType
    rw [hSame.creator] at hUnconn
    obtain ⟨hFresh, hNone⟩ := h.unconnected hType hUnconn
    rw [hMoves.kernel, hEmitted, List.mem_append]
    refine ⟨hFresh, fun hMem => ?_⟩
    exact h.reporting (reporting_of_connected (hMem.resolve_left hNone)).1 hFresh
  · intro hErr
    rw [hMoves.kernel]
    exact h.err (hMoves.err hErr)
  · intro hRep
    rw [hMoves.kernel]
    cases hBefore : s.worker.reporting with
    | true => exact h.reporting hBefore
    | false => simp [hMoves.reporting hRep hBefore]
  · intro hType hSending
    rw [hSame.mStreamType] at hType
    have hNot : s.inConnection = false := by
      cases hBefore : s.worker.sending with
      | true => exact h.sending hType hBefore
      | false => exact hMoves.sending hSending hBefore
    simp [hMoves.inConnection, hNot]
  · intro hType hClosing hIn
    rw [hSame.mStreamType] at hType
    rw [hMoves.inConnection, Bool.and_eq_true] at hIn
    rw [hMoves.kernel]
    cases hErr : s.worker.err with
    | true => exact h.err hErr
    | false =>
        have hCalm : s.worker.sending = false := by
          by_contra hSending
          simp [h.sending hType (by simpa using hSending)] at hIn
        obtain ⟨rfl, hOpen, f, hPc⟩ := hMoves.closing hClosing hErr hCalm
        simpa [ioFits, hPc, hOpen] using hFits

/-- Nothing of what is said here is in the buffers or the epoll set. -/
theorem Grounded.congr {s t : Sock} (h : s.Grounded) (hSame : SameControl s t) : t.Grounded := by
  obtain ⟨hType, hOpen, hIn, hMS, hKernel, hCreator, hWorker, hTold, hEmitted, -⟩ := hSame
  constructor <;> simp only [hType, hOpen, hIn, hMS, hKernel, hCreator, hWorker, hTold, hEmitted]
  · exact h.early
  · exact h.ofAccepted
  · exact h.unconnected
  · exact h.err
  · exact h.reporting
  · exact h.sending
  · exact h.closing

theorem grounded_apply {s : Sock} (h : s.Grounded) {a : Action} (hEn : socket.enabled s a) :
    (socket.apply s a).Grounded := by
  cases a with
  | creator c => exact grounded_creatorStep h c
  | worker io => exact grounded_workerStep h hEn.2.2 hEn.1
  | append data => exact h.congr (s.sameControl_append data)
  | mark =>
      exact ⟨h.early, h.ofAccepted, h.unconnected, h.err, h.reporting, h.sending, h.closing⟩
  | close =>
      refine ⟨?_, h.ofAccepted, h.unconnected, h.err, h.reporting, h.sending, h.closing⟩
      exact fun hEarly => absurd (h.early hEarly).2.2.1 hEn
  | poll f =>
      refine ⟨?_, h.ofAccepted, h.unconnected, ?_, ?_, ?_, ?_⟩
      · intro hEarly
        obtain ⟨hMS, hOpen, hNone, -, hTold⟩ := h.early hEarly
        exact ⟨hMS, hOpen, hNone, rfl, hTold⟩
      · exact hEn.2.2.2.1
      all_goals simp [socket, goto]
  | kernelUp =>
      have hConnecting : s.kernel = .connecting := hEn
      refine ⟨h.early, h.ofAccepted, ?_, ?_, ?_, h.sending, ?_⟩
      · intro hType hUnconn
        simp [(h.unconnected hType hUnconn).1] at hConnecting
      · intro hErr
        simp [h.err hErr] at hConnecting
      · exact fun _ => by simp [socket]
      · intro hType hClosing hIn
        simp [h.closing hType hClosing hIn] at hConnecting
  | kernelBroken =>
      refine ⟨h.early, h.ofAccepted, ?_, fun _ => rfl, fun _ => by simp [socket], h.sending,
        fun _ _ _ => rfl⟩
      intro hType hUnconn
      have hKernel : s.kernel = .connecting ∨ s.kernel = .up := hEn
      simp [(h.unconnected hType hUnconn).1] at hKernel

end Sock

theorem grounded_reachable {s : Sock} (h : socket.Reachable s) : s.Grounded := by
  apply Machine.Reachable.invariant _ (fun _ _ hGr hEn => Sock.grounded_apply hGr hEn) h
  rintro s ⟨st, own, rfl⟩
  exact Sock.grounded_fresh st own

end Megatron.Socket
