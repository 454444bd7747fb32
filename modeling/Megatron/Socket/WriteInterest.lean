import Megatron.Socket.Service

/-!
# The out buffer and the write interest

Every append and every send holds the lock of the out buffer, so the bytes
sent followed by the bytes queued are the bytes appended, in any interleaving.
The interest in `EPOLLOUT` is kept under the same lock too, with one exception:
the connecting branch of `onEPOLLOUT` looks at the size, lets go of the lock
and then stops the writing.  A buffer appended in between stays unarmed.

## Main results

* `stream_and_interest` — integrity of the stream, and `EPOLLOUT` armed for
  every open socket with a non-empty queue, in every run in which the
  connecting branch stops the writing of empty queues only.
* `appended_in_between` — without the condition the wake-up is lost.
-/

namespace Megatron.Socket

open Megatron.Corelib
open Megatron.Lib

/-- The connecting branch of `onEPOLLOUT` stops the writing of an empty queue
only: nothing was appended since it looked at the size. -/
def stopsEmpty (s : Sock) (a : Action) : Prop :=
  match a, s.worker with
  | .worker _, .connStop _ => s.mOutBuffer = []
  | _, _ => True

instance (s : Sock) (a : Action) : Decidable (stopsEmpty s a) := by
  unfold stopsEmpty
  generalize s.worker = pc
  apply @Action.casesOn _ a <;> intros
  case worker => apply @WorkerPc.casesOn _ pc <;> intros <;> infer_instance
  all_goals infer_instance

namespace Sock

/-! ## The stream -/

/-- Sent, then queued: what has been appended so far. -/
def StreamKept (s : Sock) : Prop := s.sent ++ s.mOutBuffer = s.appended

/-- A step that leaves the queue and its histories alone. -/
structure SameStream (s t : Sock) : Prop where
  mOutBuffer : t.mOutBuffer = s.mOutBuffer
  sent : t.sent = s.sent
  appended : t.appended = s.appended

theorem SameStream.streamKept {s t : Sock} (h : SameStream s t) (hKept : s.StreamKept) :
    t.StreamKept := by
  unfold StreamKept
  rw [h.sent, h.mOutBuffer, h.appended]
  exact hKept

theorem sameStream_sockStopWrite (s : Sock) : SameStream s s.sockStopWrite := by
  unfold sockStopWrite
  split <;> constructor <;> rfl

theorem sameStream_sockStartWrite (s : Sock) : SameStream s s.sockStartWrite := by
  unfold sockStartWrite
  split <;> constructor <;> rfl

theorem sameStream_creatorStep (s : Sock) (c : ConnectRes) :
    SameStream s (s.creatorStep c) := by
  unfold creatorStep
  cases s.creator with
  | closeRemove =>
      dsimp only [removeMS]
      split <;> constructor <;> rfl
  | _ =>
      dsimp only
      repeat' split
      all_goals constructor <;> rfl

theorem streamKept_append {s : Sock} (h : s.StreamKept) (data : Bytes) :
    (s.append data).StreamKept := by
  apply (sameStream_sockStartWrite _).streamKept
  simp only [StreamKept, ← List.append_assoc]
  rw [h]

/-- A partial send moves a prefix of the queue to the bytes sent. -/
theorem streamKept_sendTook {s : Sock} (h : s.StreamKept) (k : Nat) :
    (s.sendTook k).StreamKept := by
  have hMoved : StreamKept { s with
      mOutBuffer := s.mOutBuffer.drop k, sent := s.sent ++ s.mOutBuffer.take k } := by
    simp only [StreamKept, List.append_assoc, List.take_append_drop]
    exact h
  unfold sendTook
  dsimp only
  split
  · exact (sameStream_sockStopWrite _).streamKept hMoved
  · exact hMoved

theorem streamKept_sendStep {s : Sock} (h : s.StreamKept) (f : Flags) (io : Io) :
    (s.sendStep f io).StreamKept := by
  unfold sendStep
  split_ifs
  · exact (sameStream_sockStopWrite s).streamKept h
  · cases io with
    | took k => exact streamKept_sendTook h k
    | _ => exact h
  · exact h

theorem streamKept_workerStep {s : Sock} (h : s.StreamKept) (io : Io) :
    (s.workerStep io).StreamKept := by
  unfold workerStep
  cases s.worker with
  | dispatch f =>
      dsimp only [dispatchStep]
      split_ifs <;> exact h
  | recv f =>
      dsimp only [recvStep]
      split
      · cases io <;> exact h
      · exact h
  | send f => exact streamKept_sendStep h f io
  | connStop f => exact (sameStream_sockStopWrite s).streamKept h
  | closeRemove f =>
      dsimp only [removeMS]
      split <;> exact h
  | _ =>
      dsimp only
      repeat' split
      all_goals exact h

theorem streamKept_apply {s : Sock} (h : s.StreamKept) (a : Action) :
    (socket.apply s a).StreamKept := by
  cases a with
  | creator c => exact (s.sameStream_creatorStep c).streamKept h
  | worker io => exact streamKept_workerStep h io
  | append data => exact streamKept_append h data
  | _ => exact h

/-! ## The interest -/

/-- An open socket with a non-empty queue waits for `EPOLLOUT`. -/
def Interested (s : Sock) : Prop := s.fdOpen → s.mOutBuffer ≠ [] → s.armed

/-- Nobody has appended to a socket that is not registered. -/
def Unborn (s : Sock) : Prop :=
  s.creator = .register → s.registered = false ∧ s.worker = .idle ∧ s.emitted = [] ∧
    s.mOutBuffer = []

theorem interested_of_empty {s : Sock} (h : s.mOutBuffer = []) : s.Interested :=
  fun _ hNe => absurd h hNe

theorem interested_of_closed {s : Sock} (h : s.fdOpen = false) : s.Interested :=
  fun hOpen => by simp [h] at hOpen

theorem interested_sockStartWrite (s : Sock) : s.sockStartWrite.Interested := by
  unfold sockStartWrite
  split
  · exact fun _ _ => rfl
  · exact fun hOpen => absurd hOpen (by assumption)

theorem interested_sockStopWrite {s : Sock} (h : s.mOutBuffer = []) :
    s.sockStopWrite.Interested :=
  interested_of_empty ((s.sameStream_sockStopWrite).mOutBuffer.trans h)

/-- `socketBuffersOut::send` stops the writing under the lock, when it has
emptied the queue; a queue it has shortened was not empty before. -/
theorem interested_sendTook {s : Sock} (h : s.Interested) (k : Nat) :
    (s.sendTook k).Interested := by
  unfold sendTook
  dsimp only
  split
  · exact interested_sockStopWrite (by assumption)
  · intro hOpen hRest
    apply h hOpen
    intro hEmpty
    simp [hEmpty] at hRest

theorem interested_sendStep {s : Sock} (h : s.Interested) (f : Flags) (io : Io) :
    (s.sendStep f io).Interested := by
  unfold sendStep
  split_ifs with hOpen hEmpty
  · exact interested_sockStopWrite hEmpty
  · cases io with
    | took k => exact interested_sendTook h k
    | _ => exact h
  · exact h

theorem interested_creatorStep {s : Sock} (h : s.Interested) (hUnborn : s.Unborn)
    (c : ConnectRes) : (s.creatorStep c).Interested := by
  cases hPc : s.creator with
  | register =>
      apply interested_of_empty
      rw [(s.sameStream_creatorStep c).mOutBuffer]
      exact (hUnborn hPc).2.2.2
  | closeRemove =>
      simp only [creatorStep, hPc, removeMS]
      split <;> exact h
  | closeShut =>
      simp only [creatorStep, hPc]
      exact interested_of_closed rfl
  | _ =>
      simp only [creatorStep, hPc]
      repeat' split
      all_goals exact h

theorem interested_workerStep {s : Sock} (h : s.Interested) {io : Io}
    (hGuard : stopsEmpty s (.worker io)) : (s.workerStep io).Interested := by
  unfold workerStep
  cases hPc : s.worker with
  | dispatch f =>
      dsimp only [dispatchStep]
      split_ifs <;> exact h
  | recv f =>
      dsimp only [recvStep]
      split
      · cases io <;> exact h
      · exact h
  | send f => exact interested_sendStep h f io
  | connStop f =>
      have hEmpty : s.mOutBuffer = [] := by simpa [stopsEmpty, hPc] using hGuard
      exact interested_sockStopWrite hEmpty
  | closeRemove f =>
      dsimp only [removeMS]
      split <;> exact h
  | closeShut f => exact interested_of_closed rfl
  | _ =>
      dsimp only
      repeat' split
      all_goals exact h

theorem creatorStep_ne_register (s : Sock) (c : ConnectRes) :
    s.creator ≠ .done → (s.creatorStep c).creator ≠ .register := by
  intro hBusy
  unfold creatorStep
  cases hPc : s.creator with
  | done => exact absurd hPc hBusy
  | _ =>
      dsimp only
      repeat' split
      all_goals simp

theorem unborn_apply {s : Sock} (h : s.Unborn) {a : Action} (hEn : socket.enabled s a) :
    (socket.apply s a).Unborn := by
  intro hPc
  cases a with
  | creator c => exact absurd hPc (s.creatorStep_ne_register c hEn)
  | worker io =>
      have hSame : s.creator = .register := (s.sameCreator_workerStep io).creator ▸ hPc
      exact absurd (h hSame).2.1 hEn.1
  | append data =>
      have hSame : s.creator = .register := (s.sameCreator_append data).creator ▸ hPc
      exact absurd (h hSame).2.2.1 hEn
  | poll f =>
      have hRegistered : s.registered := hEn.2.1
      simp [(h hPc).1] at hRegistered
  | close => exact absurd (h hPc).2.2.1 hEn
  | _ => exact h hPc

theorem interested_apply {s : Sock} (h : s.Interested) (hUnborn : s.Unborn) {a : Action}
    (hGuard : stopsEmpty s a) : (socket.apply s a).Interested := by
  cases a with
  | creator c => exact interested_creatorStep h hUnborn c
  | worker io => exact interested_workerStep h hGuard
  | append data => exact interested_sockStartWrite _
  | close => exact interested_of_closed rfl
  | _ => exact h

end Sock

/-! ## Every run -/

theorem writeInterest_reachable {s : Sock} (h : (socket.guarded stopsEmpty).Reachable s) :
    s.StreamKept ∧ s.Unborn ∧ s.Interested := by
  apply Machine.Reachable.invariant _ _ h
  · rintro s ⟨st, own, rfl⟩
    refine ⟨rfl, fun _ => ⟨rfl, rfl, rfl, rfl⟩, Sock.interested_of_empty rfl⟩
  · intro s a hInv hEn
    obtain ⟨hKept, hUnborn, hInterested⟩ := hInv
    refine ⟨Sock.streamKept_apply hKept a, Sock.unborn_apply hUnborn hEn.1, ?_⟩
    exact Sock.interested_apply hInterested hUnborn hEn.2

/-- The stream alone needs no condition. -/
theorem stream_kept {sockets : SocketId → Sock} (h : (service anyStep).Reachable sockets)
    (id : SocketId) : (sockets id).sent ++ (sockets id).mOutBuffer = (sockets id).appended := by
  have hKept : (sockets id).StreamKept := by
    apply Machine.Reachable.invariant _ _ (Machine.family_reachable h id)
    · rintro s ⟨st, own, rfl⟩
      rfl
    · intro s a hKept _
      exact Sock.streamKept_apply hKept a
  exact hKept

/--
**Integrity and interest.** In every run in which the connecting branch stops
the writing of empty queues only, the bytes sent followed by the bytes queued
are the bytes appended, and an open socket with a non-empty queue on which no
handler is running has `EPOLLOUT` armed.
-/
theorem stream_and_interest {sockets : SocketId → Sock}
    (h : (service stopsEmpty).Reachable sockets) (id : SocketId) :
    (sockets id).sent ++ (sockets id).mOutBuffer = (sockets id).appended ∧
      ((sockets id).Quiet → (sockets id).fdOpen → (sockets id).mOutBuffer ≠ [] →
        (sockets id).armed) := by
  have hInv := writeInterest_reachable (Machine.family_reachable h id)
  exact ⟨hInv.1, fun _ => hInv.2.2⟩

/-- A connect that is in progress and succeeds; then one poll with `flags`. -/
def connectThenPoll (flags : Flags) : List Action :=
  [.creator .ok, .creator .ok, .creator .inProgress, .kernelUp, .poll flags,
    .worker .none, .worker .none]

/-- Connected by the worker; three bytes are queued, the kernel takes two. -/
def partialSend : List Action :=
  connectThenPoll ⟨false, false, true⟩ ++ List.replicate 7 (.worker .none) ++
    [.append [1, 2, 3], .poll ⟨false, false, true⟩, .worker .none, .worker .none,
      .worker .none, .worker (.took 2)] ++ List.replicate 4 (.worker .none)

theorem partialSend_armed :
    let s := socket.exec (Sock.fresh .connected false) partialSend
    s.Quiet ∧ s.fdOpen ∧ s.sent = [1, 2] ∧ s.mOutBuffer = [3] ∧ s.armed := by
  have hReach := reachable_run stopsEmpty .connected false 7
    (show Machine.Path _ _ partialSend by decide)
  have hBoth := stream_and_interest hReach 7
  refine ⟨by decide, by decide, by decide, by decide, ?_⟩
  exact hBoth.2 (by decide) (by decide) (by decide)

/-- The poll finds data and a finished connect. The `StreamRead` lets another
thread append between the look at the size and `sockStopWrite`. -/
def appendBeforeStop : List Action :=
  connectThenPoll ⟨false, true, true⟩ ++
    [.worker (.data [104]), .worker .none, .worker .none, .worker .none, .worker .none,
      .append [1]] ++ List.replicate 5 (.worker .none)

/-- Afterwards no handler is running, the byte is queued, and nothing will wake
the worker to send it. -/
theorem appended_in_between :
    ¬ ∀ sockets : SocketId → Sock, (service anyStep).Reachable sockets → ∀ id,
      (sockets id).sent ++ (sockets id).mOutBuffer = (sockets id).appended ∧
        ((sockets id).Quiet → (sockets id).fdOpen → (sockets id).mOutBuffer ≠ [] →
          (sockets id).armed) := by
  intro h
  have hReach := reachable_run anyStep .connected false 7
    (show Machine.Path _ _ appendBeforeStop by decide)
  have hArmed := (h _ hReach 7).2 (by decide) (by decide) (by decide)
  exact absurd hArmed (by decide)

end Megatron.Socket
