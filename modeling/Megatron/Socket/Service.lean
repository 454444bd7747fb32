import Megatron.Corelib.Route
import Megatron.Lib.Machine

/-!
# One socket of the SocketIO service

A socket is worked on by several threads.  Its *creator* (the acceptor's
thread, or the caller of `AddToConnectTCP`) registers it in the multiplexor,
adds it to the container `MS` and emits its first event; from the moment it is
registered and in `MS` the *worker* of its container may poll it and run
`onEPOLLERR`, `onEPOLLIN` and `onEPOLLOUT`; and whoever an event has given the
`epoll_socket_info` to may append to its out buffer, mark it or close it.

The machine below interleaves them.  A step is what runs between two places
where another thread can get in: a locked section, a system call, the emission
of an event (a synchronous call), an unlocked read or write of a shared field.
What the kernel decides is in the labels.

## Main definitions

* `Sock` — the socket, its registration, the program counters of its creator
  and its worker, and the histories (`emitted`, `appended`, `sent`).
* `socket` — the machine.
* `service` — all sockets of the service, each under a condition on its steps.
-/

namespace Megatron.Socket

open Megatron.Corelib
open Megatron.Lib

/-! ## State -/

/-- `epoll_socket_info::STREAMTYPE`, for the sockets that carry a stream. -/
inductive StreamType where
  | accepted
  | connected
  deriving DecidableEq, Repr

/-- The events the service emits for a stream socket. -/
inductive SocketEvent where
  | accepted
  | connected
  | connectFailed
  | disconnected
  | disaccepted
  | streamRead
  | notifyOutBufferEmpty
  deriving DecidableEq, Repr

/-- The connection as the kernel has it: no `connect` yet, in progress,
established, or failed, reset or shut by the peer. -/
inductive Kernel where
  | fresh
  | connecting
  | up
  | broken
  deriving DecidableEq, Repr

/-- The event mask of one `epoll_event`. -/
structure Flags where
  err : Bool
  inn : Bool
  out : Bool
  deriving DecidableEq, Repr

/-- Where the creator is, in `handle_accepted1` or `on_AddToConnectTCP`. -/
inductive CreatorPc where
  | register
  | add
  | connect
  | emit
  | closeEmit
  | closeRemove
  | closeShut
  | failAgain
  | done
  deriving DecidableEq, Repr

/-- What a send of `onEPOLLOUT` returned: a positive count, `-1` with
`EAGAIN` or `ENOBUFS`, `-1` with another errno, or nothing to send. -/
inductive SendRes where
  | took
  | again
  | fail
  | nothing
  deriving DecidableEq, Repr

/-- Where the worker is, with the flags it has still to look at. -/
inductive WorkerPc where
  | idle
  | lookup (f : Flags)
  | dispatch (f : Flags)
  | recv (f : Flags)
  | streamRead (f : Flags)
  | out (f : Flags)
  | connSize (f : Flags)
  | connStop (f : Flags)
  | connNames (f : Flags)
  | connEmit (f : Flags)
  | connDone (f : Flags)
  | send (f : Flags)
  | sent (res : SendRes) (f : Flags)
  | notify (res : SendRes) (needToClose : Bool) (f : Flags)
  | finish (res : SendRes) (needToClose : Bool) (f : Flags)
  | closeEmit (f : Flags)
  | closeRemove (f : Flags)
  | closeShut (f : Flags)
  | terminated
  deriving DecidableEq, Repr

/-- A socket. `close()` resets `m_id` together with `m_fd`, so `fdOpen` also
says whether `m_id` is the key of the socket in `MS`. `ownPoller` says that
`getPoller` chose the container of the creator's own thread, and `told` that a
poll or a system call has reported the connection lost. -/
structure Sock where
  mStreamType : StreamType
  ownPoller : Bool
  fdOpen : Bool
  inConnection : Bool
  markedToDestroyOnSend : Bool
  mInBuffer : Bytes
  mOutBuffer : Bytes
  registered : Bool
  armed : Bool
  inMS : Bool
  kernel : Kernel
  creator : CreatorPc
  worker : WorkerPc
  told : Bool
  emitted : List SocketEvent
  appended : Bytes
  sent : Bytes
  deriving DecidableEq, Repr

/-- A socket as its constructor leaves it; `on_AddToConnectTCP` has set
`inConnection`. -/
def Sock.fresh (st : StreamType) (ownPoller : Bool) : Sock where
  mStreamType := st
  ownPoller := ownPoller
  fdOpen := true
  inConnection := st = .connected
  markedToDestroyOnSend := false
  mInBuffer := []
  mOutBuffer := []
  registered := false
  armed := false
  inMS := false
  kernel := if st = .connected then .fresh else .up
  creator := .register
  worker := .idle
  told := false
  emitted := []
  appended := []
  sent := []

namespace Sock

/-! ## `epoll_socket_info` and `NetworkMultiplexor` -/

def emit (s : Sock) (e : SocketEvent) : Sock := { s with emitted := s.emitted ++ [e] }

def sockAddReadOnNew (s : Sock) : Sock := { s with registered := true, armed := false }

def sockAddRWOnNew (s : Sock) : Sock := { s with registered := true, armed := true }

def sockStartWrite (s : Sock) : Sock :=
  if s.fdOpen then { s with registered := true, armed := true } else s

def sockStopWrite (s : Sock) : Sock :=
  if s.fdOpen then { s with registered := true, armed := false } else s

/-- `socketBuffersOut::append`, under the lock of the buffer. -/
def append (s : Sock) (data : Bytes) : Sock :=
  { s with mOutBuffer := s.mOutBuffer ++ data, appended := s.appended ++ data }.sockStartWrite

/-- `socketBuffersOut::send`, under the lock of the buffer, when `::send`
takes `k` bytes. -/
def sendTook (s : Sock) (k : Nat) : Sock :=
  let s := { s with
    mOutBuffer := s.mOutBuffer.drop k, sent := s.sent ++ s.mOutBuffer.take k }
  if s.mOutBuffer = [] then s.sockStopWrite else s

/-- `epoll_socket_info::close`; a closed descriptor leaves the epoll set. -/
def close (s : Sock) : Sock :=
  { s with fdOpen := false, registered := false, armed := false }

/-! ## `closeSocket` -/

/-- The event `closeSocket` emits. -/
def closeEvent (s : Sock) : SocketEvent :=
  match s.mStreamType with
  | .connected => if s.inConnection then .connectFailed else .disconnected
  | .accepted => .disaccepted

/-- `MS->remove(esi->m_id)`: after a `close` the id is `-1`, and the entry
stays. -/
def removeMS (s : Sock) : Sock := if s.fdOpen then { s with inMS := false } else s

/-- `closeSocket` without an interruption. -/
def closeSocket (s : Sock) : Sock :=
  if s.fdOpen then (s.emit s.closeEvent).removeMS.close else s

/-! ## The creator -/

/-- The result of `::connect`. -/
inductive ConnectRes where
  | ok
  | inProgress
  | error
  deriving DecidableEq, Repr

/-- One step of `handle_accepted1` or `on_AddToConnectTCP`. -/
def creatorStep (s : Sock) (c : ConnectRes) : Sock :=
  match s.creator with
  | .register =>
      match s.mStreamType with
      | .accepted => { s.sockAddReadOnNew with creator := .add }
      | .connected => { s.sockAddRWOnNew with creator := .add }
  | .add =>
      match s.mStreamType with
      | .accepted => { s with inMS := true, creator := .emit }
      | .connected => { s with inMS := true, creator := .connect }
  | .connect =>
      match c with
      | .ok => { s with kernel := .up, creator := .emit }
      | .inProgress => { s with kernel := .connecting, creator := .done }
      | .error => { s with kernel := .broken, told := true, creator := .closeEmit }
  | .emit =>
      match s.mStreamType with
      | .accepted => { s.emit .accepted with creator := .done }
      | .connected => { s.emit .connected with creator := .done }
  | .closeEmit =>
      if s.fdOpen then { s.emit s.closeEvent with creator := .closeRemove }
      else { s with creator := .failAgain }
  | .closeRemove => { s.removeMS with creator := .closeShut }
  | .closeShut => { s.close with creator := .failAgain }
  | .failAgain => { s.emit .connectFailed with creator := .done }
  | .done => s

/-! ## The worker -/

/-- What a system call of the worker returns: data, the end of the stream, a
failed `recv` (`lost` unless the errno says to try again), or the result of
`::send`. -/
inductive Io where
  | none
  | data (buf : Bytes)
  | eof
  | recvFail (lost : Bool)
  | took (k : Nat)
  | again
  | sendFail
  deriving DecidableEq, Repr

def goto (s : Sock) (pc : WorkerPc) : Sock := { s with worker := pc }

/-- The next handler of the flags of one event: `onEPOLLERR`, `onEPOLLIN`,
`onEPOLLOUT`. -/
def dispatchStep (s : Sock) (f : Flags) : Sock :=
  if f.err then { s with told := true }.goto (.closeEmit { f with err := false })
  else if f.inn then s.goto (.recv { f with inn := false })
  else if f.out then s.goto (.out { f with out := false })
  else s.goto .idle

/-- `onEPOLLIN` up to the append. Every branch of the errno `switch` returns
before the `if(needClose)` behind it. -/
def recvStep (s : Sock) (f : Flags) (io : Io) : Sock :=
  if s.fdOpen then
    match io with
    | .data buf => { s with mInBuffer := s.mInBuffer ++ buf }.goto (.streamRead f)
    | .eof => { s with told := true }.goto (.closeEmit f)
    | .recvFail lost => { s with told := s.told || lost }.goto (.dispatch f)
    | _ => s
  else s.goto (.dispatch f)

/-- The send of `onEPOLLOUT`. -/
def sendStep (s : Sock) (f : Flags) (io : Io) : Sock :=
  if s.fdOpen then
    if s.mOutBuffer = [] then s.sockStopWrite.goto (.sent .nothing f)
    else
      match io with
      | .took k => (s.sendTook k).goto (.sent .took f)
      | .again => s.goto (.sent .again f)
      | .sendFail => s.goto (.sent .fail f)
      | _ => s
  else s.goto (.dispatch f)

/-- One step of the worker. -/
def workerStep (s : Sock) (io : Io) : Sock :=
  match s.worker with
  | .idle => s
  | .lookup f => if s.inMS then s.goto (.dispatch f) else s.goto .idle
  | .dispatch f => s.dispatchStep f
  | .recv f => s.recvStep f io
  | .streamRead f => (s.emit .streamRead).goto (.dispatch f)
  | .out f =>
      if s.inConnection then
        if s.fdOpen && s.inMS then s.goto (.connSize f) else s.goto (.dispatch f)
      else s.goto (.send f)
  | .connSize f => if s.mOutBuffer = [] then s.goto (.connStop f) else s.goto (.connNames f)
  | .connStop f => s.sockStopWrite.goto (.connNames f)
  | .connNames f =>
      if s.fdOpen then
        if s.kernel = .up then s.goto (.connEmit f) else s.goto (.dispatch f)
      else s.goto .terminated
  | .connEmit f => (s.emit .connected).goto (.connDone f)
  | .connDone f => { s with inConnection := false }.goto (.dispatch f)
  | .send f => s.sendStep f io
  | .sent res f =>
      s.goto (.notify res (res = .took ∧ s.mOutBuffer = [] ∧ s.markedToDestroyOnSend) f)
  | .notify res needToClose f =>
      if s.mOutBuffer = [] then (s.emit .notifyOutBufferEmpty).goto (.finish res needToClose f)
      else s.goto (.finish res needToClose f)
  | .finish res needToClose f =>
      if needToClose then s.goto (.closeEmit f)
      else if res = .fail then { s with told := true }.goto (.closeEmit f)
      else s.goto (.dispatch f)
  | .closeEmit f =>
      if s.fdOpen then (s.emit s.closeEvent).goto (.closeRemove f) else s.goto (.dispatch f)
  | .closeRemove f => s.removeMS.goto (.closeShut f)
  | .closeShut f => s.close.goto (.dispatch f)
  | .terminated => s

/-- The connection is, or has been, established. -/
def transfers (s : Sock) : Prop := s.kernel = .up ∨ s.kernel = .broken

instance (s : Sock) : Decidable s.transfers := by unfold transfers; infer_instance

/-- The results a system call of the worker can have: bytes only over a
connection that was established, the end of the stream only when the peer has
shut it. -/
def ioFits (s : Sock) (io : Io) : Prop :=
  match s.worker with
  | .recv _ =>
      if s.fdOpen then
        match io with
        | .data buf => buf ≠ [] ∧ s.transfers
        | .eof => s.kernel = .broken
        | .recvFail _ => True
        | _ => False
      else io = .none
  | .send _ =>
      if s.fdOpen ∧ s.mOutBuffer ≠ [] then
        match io with
        | .took k => 0 < k ∧ k ≤ s.mOutBuffer.length ∧ s.transfers
        | .again => True
        | .sendFail => True
        | _ => False
      else io = .none
  | _ => io = .none

instance (s : Sock) (io : Io) : Decidable (s.ioFits io) := by
  unfold ioFits
  split
  · split
    · split <;> infer_instance
    · infer_instance
  · split
    · split <;> infer_instance
    · infer_instance
  · infer_instance

end Sock

/-! ## The machine -/

/-- A step of one of the threads, or of the kernel. -/
inductive Action where
  | creator (c : Sock.ConnectRes)
  | poll (f : Flags)
  | worker (io : Sock.Io)
  | append (data : Bytes)
  | close
  | mark
  | kernelUp
  | kernelBroken
  deriving DecidableEq, Repr

/-- A socket under any interleaving. `epoll_wait` reports a registered socket,
`EPOLLOUT` only while it is armed and no `connect` is in progress (an
unconnected socket counts as writable), `EPOLLERR` only for a broken
connection; a worker whose own thread is the creator polls when the creator
has returned. Nobody has the socket before an event has carried it. -/
def socket : Machine Sock Action where
  init s := ∃ st own, s = Sock.fresh st own
  enabled s
    | .creator _ => s.creator ≠ .done
    | .poll f =>
        s.worker = .idle ∧ s.registered ∧ (f.out → s.armed ∧ s.kernel ≠ .connecting) ∧
          (f.err → s.kernel = .broken) ∧ (s.ownPoller → s.creator = .done)
    | .worker io => s.worker ≠ .idle ∧ s.worker ≠ .terminated ∧ s.ioFits io
    | .append _ => s.emitted ≠ []
    | .close => s.emitted ≠ []
    | .mark => s.emitted ≠ []
    | .kernelUp => s.kernel = .connecting
    | .kernelBroken => s.kernel = .connecting ∨ s.kernel = .up
  apply s
    | .creator c => s.creatorStep c
    | .poll f => s.goto (.lookup f)
    | .worker io => s.workerStep io
    | .append data => s.append data
    | .close => s.close
    | .mark => { s with markedToDestroyOnSend := true }
    | .kernelUp => { s with kernel := .up }
    | .kernelBroken => { s with kernel := .broken }

instance (s : Sock) (a : Action) : Decidable (socket.enabled s a) := by
  cases a <;> unfold socket <;> infer_instance

/-- All sockets of the service in any interleaving, every step of each of them
meeting the condition `g`. -/
def service (g : Sock → Action → Prop) : Machine (SocketId → Sock) (SocketId × Action) :=
  (socket.guarded g).family

/-- No condition. -/
def anyStep (_ : Sock) (_ : Action) : Prop := True

instance (s : Sock) (a : Action) : Decidable (anyStep s a) := .isTrue trivial

/-- A run of one fresh socket is a run of the service. -/
theorem reachable_run (g : Sock → Action → Prop) (st : StreamType) (own : Bool)
    (id : SocketId) {acts : List Action}
    (hPath : (socket.guarded g).Path (Sock.fresh st own) acts) :
    (service g).Reachable
      (Function.update (fun _ => Sock.fresh st own) id (socket.exec (Sock.fresh st own) acts)) := by
  have hInit : (service g).init (fun _ => Sock.fresh st own) := fun _ => ⟨st, own, rfl⟩
  have hRun := Machine.reachable_family_update (Machine.Reachable.init hInit) id hPath
  rwa [Machine.exec_guarded] at hRun

/-- No handler of the socket is running. -/
def Sock.Quiet (s : Sock) : Prop := s.creator = .done ∧ s.worker = .idle

instance (s : Sock) : Decidable s.Quiet := inferInstanceAs (Decidable (_ ∧ _))

/-! ## What a step can emit and what it leaves alone -/

namespace Sock

section Fields

variable (s : Sock)

@[simp] theorem sockStartWrite_emitted : s.sockStartWrite.emitted = s.emitted := by
  unfold sockStartWrite; split <;> rfl

@[simp] theorem sockStopWrite_emitted : s.sockStopWrite.emitted = s.emitted := by
  unfold sockStopWrite; split <;> rfl

@[simp] theorem removeMS_emitted : s.removeMS.emitted = s.emitted := by
  unfold removeMS; split <;> rfl

@[simp] theorem sendTook_emitted (k : Nat) : (s.sendTook k).emitted = s.emitted := by
  unfold sendTook; simp only; split <;> simp

@[simp] theorem append_emitted (data : Bytes) : (s.append data).emitted = s.emitted := by
  simp [append]

end Fields

/-- What belongs to the creator and never changes behind its back. -/
structure SameCreator (s t : Sock) : Prop where
  mStreamType : t.mStreamType = s.mStreamType
  ownPoller : t.ownPoller = s.ownPoller
  creator : t.creator = s.creator

theorem sameCreator_sockStartWrite (s : Sock) : SameCreator s s.sockStartWrite := by
  unfold sockStartWrite
  split <;> constructor <;> rfl

theorem sameCreator_sockStopWrite (s : Sock) : SameCreator s s.sockStopWrite := by
  unfold sockStopWrite
  split <;> constructor <;> rfl

theorem SameCreator.trans {s t u : Sock} (h : SameCreator s t) (h' : SameCreator t u) :
    SameCreator s u where
  mStreamType := h'.mStreamType.trans h.mStreamType
  ownPoller := h'.ownPoller.trans h.ownPoller
  creator := h'.creator.trans h.creator

theorem sameCreator_removeMS (s : Sock) : SameCreator s s.removeMS := by
  unfold removeMS
  split <;> constructor <;> rfl

theorem sameCreator_sendTook (s : Sock) (k : Nat) : SameCreator s (s.sendTook k) := by
  unfold sendTook
  simp only
  split
  · apply SameCreator.trans _ (sameCreator_sockStopWrite _)
    constructor <;> rfl
  · constructor <;> rfl

theorem sameCreator_append (s : Sock) (data : Bytes) : SameCreator s (s.append data) := by
  unfold append
  apply SameCreator.trans _ (sameCreator_sockStartWrite _)
  constructor <;> rfl

theorem sameCreator_goto {s t : Sock} (h : SameCreator s t) (pc : WorkerPc) :
    SameCreator s (t.goto pc) := h.trans ⟨rfl, rfl, rfl⟩

theorem sameCreator_dispatchStep (s : Sock) (f : Flags) : SameCreator s (s.dispatchStep f) := by
  unfold dispatchStep
  split_ifs <;> constructor <;> rfl

theorem sameCreator_recvStep (s : Sock) (f : Flags) (io : Io) :
    SameCreator s (s.recvStep f io) := by
  unfold recvStep
  split
  · cases io <;> constructor <;> rfl
  · constructor <;> rfl

theorem sameCreator_sendStep (s : Sock) (f : Flags) (io : Io) :
    SameCreator s (s.sendStep f io) := by
  unfold sendStep
  split_ifs
  · exact sameCreator_goto (sameCreator_sockStopWrite s) _
  · cases io with
    | took k => exact sameCreator_goto (sameCreator_sendTook s k) _
    | _ => constructor <;> rfl
  · constructor <;> rfl

theorem sameCreator_workerStep (s : Sock) (io : Io) : SameCreator s (s.workerStep io) := by
  unfold workerStep
  cases s.worker with
  | dispatch f => exact sameCreator_dispatchStep s f
  | recv f => exact sameCreator_recvStep s f io
  | send f => exact sameCreator_sendStep s f io
  | connStop f => exact sameCreator_goto (sameCreator_sockStopWrite s) _
  | closeRemove f => exact sameCreator_goto (sameCreator_removeMS s) _
  | _ =>
      dsimp only
      repeat' split
      all_goals constructor <;> rfl

/-- What the creator never changes. -/
structure SameWorker (s t : Sock) : Prop where
  mStreamType : t.mStreamType = s.mStreamType
  ownPoller : t.ownPoller = s.ownPoller
  worker : t.worker = s.worker

theorem sameWorker_creatorStep (s : Sock) (c : ConnectRes) :
    SameWorker s (s.creatorStep c) := by
  unfold creatorStep
  cases s.creator with
  | closeRemove =>
      dsimp only [removeMS]
      split <;> constructor <;> rfl
  | _ =>
      dsimp only
      repeat' split
      all_goals constructor <;> rfl

/-- The events the next step of the creator emits. -/
def creatorEvents (s : Sock) : List SocketEvent :=
  match s.creator with
  | .emit => match s.mStreamType with
      | .accepted => [.accepted]
      | .connected => [.connected]
  | .closeEmit => if s.fdOpen then [s.closeEvent] else []
  | .failAgain => [.connectFailed]
  | _ => []

/-- The events the next step of the worker emits. -/
def workerEvents (s : Sock) : List SocketEvent :=
  match s.worker with
  | .streamRead _ => [.streamRead]
  | .connEmit _ => [.connected]
  | .notify _ _ _ => if s.mOutBuffer = [] then [.notifyOutBufferEmpty] else []
  | .closeEmit _ => if s.fdOpen then [s.closeEvent] else []
  | _ => []

theorem emitted_creatorStep (s : Sock) (c : ConnectRes) :
    (s.creatorStep c).emitted = s.emitted ++ s.creatorEvents := by
  unfold creatorStep creatorEvents
  cases s.creator <;> cases s.mStreamType <;> cases c <;>
    simp [sockAddReadOnNew, sockAddRWOnNew, emit, close, apply_ite]

theorem emitted_dispatchStep (s : Sock) (f : Flags) :
    (s.dispatchStep f).emitted = s.emitted := by
  unfold dispatchStep
  split_ifs <;> rfl

theorem emitted_recvStep (s : Sock) (f : Flags) (io : Io) :
    (s.recvStep f io).emitted = s.emitted := by
  unfold recvStep
  split
  · cases io <;> rfl
  · rfl

theorem emitted_sendStep (s : Sock) (f : Flags) (io : Io) :
    (s.sendStep f io).emitted = s.emitted := by
  unfold sendStep
  split_ifs
  · simp [goto]
  · cases io <;> simp [goto]
  · rfl

theorem emitted_workerStep (s : Sock) (io : Io) :
    (s.workerStep io).emitted = s.emitted ++ s.workerEvents := by
  unfold workerStep workerEvents
  cases s.worker with
  | dispatch f => simp [emitted_dispatchStep]
  | recv f => simp [emitted_recvStep]
  | send f => simp [emitted_sendStep]
  | _ => simp [goto, emit, close, apply_ite Sock.emitted, apply_ite (s.emitted ++ ·)]

/-- The events a step emits. -/
def events (s : Sock) (a : Action) : List SocketEvent :=
  match a with
  | .creator _ => s.creatorEvents
  | .worker _ => s.workerEvents
  | _ => []

theorem emitted_apply (s : Sock) (a : Action) :
    (socket.apply s a).emitted = s.emitted ++ s.events a := by
  cases a with
  | creator c => exact s.emitted_creatorStep c
  | worker io => exact s.emitted_workerStep io
  | append data => simp [socket, events]
  | _ => exact (List.append_nil _).symm

end Sock

theorem mStreamType_apply (s : Sock) (a : Action) :
    (socket.apply s a).mStreamType = s.mStreamType := by
  cases a with
  | creator c => exact (s.sameWorker_creatorStep c).mStreamType
  | worker io => exact (s.sameCreator_workerStep io).mStreamType
  | append data => exact (s.sameCreator_append data).mStreamType
  | _ => rfl

theorem ownPoller_apply (s : Sock) (a : Action) :
    (socket.apply s a).ownPoller = s.ownPoller := by
  cases a with
  | creator c => exact (s.sameWorker_creatorStep c).ownPoller
  | worker io => exact (s.sameCreator_workerStep io).ownPoller
  | append data => exact (s.sameCreator_append data).ownPoller
  | _ => rfl

end Megatron.Socket
