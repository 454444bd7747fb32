import Megatron.Socket.Service

/-!
# The first event of an accepted socket

`handle_accepted1` registers the new socket, adds it to `MS` and only then
emits `Accepted`.  A worker that polls the container in between finds the
socket, and may emit any other event of it first.

The life of an accepted socket has two phases, *before* and *after* its
`Accepted`.  When no lookup finds the socket before, no step of its worker but
the poll and the lookup is made before, and `Accepted` stands first in the
history.  A socket in the container of the thread that accepted it needs no
condition: that thread polls when `handle_accepted1` has returned.

## Main results

* `accepted_first` — under the condition, every event of an accepted socket
  comes after its `Accepted`.
* `read_before_accepted` — without it, `StreamRead` can come first.
* `accepted_first_ownPoller` — the condition is met by itself when `getPoller`
  chose the container of the accepting thread.
-/

namespace Megatron.Socket

open Megatron.Lib
open Megatron.Corelib

/-- Every other event of the history has `Accepted` before it. -/
def AcceptedFirst (history : List SocketEvent) : Prop :=
  ∀ earlier e later, history = earlier ++ e :: later → e ≠ .accepted →
    .accepted ∈ earlier

theorem acceptedFirst_nil : AcceptedFirst [] := by
  intro earlier e later h
  simp at h

theorem acceptedFirst_cons (history : List SocketEvent) :
    AcceptedFirst (.accepted :: history) := by
  intro earlier e later h hNe
  cases earlier with
  | nil =>
      have hHead : SocketEvent.accepted = e := (List.cons.inj h).1
      exact absurd hHead.symm hNe
  | cons x earlier =>
      have hHead : SocketEvent.accepted = x := (List.cons.inj h).1
      simp [← hHead]

/-- `MS->getOrNull` finds an accepted socket only when its `Accepted` has been
emitted. -/
def foundAfterAccepted (s : Sock) (a : Action) : Prop :=
  match a, s.worker with
  | .worker _, .lookup _ =>
      s.mStreamType = .accepted → s.inMS → .accepted ∈ s.emitted
  | _, _ => True

instance (s : Sock) (a : Action) : Decidable (foundAfterAccepted s a) := by
  unfold foundAfterAccepted
  generalize s.worker = pc
  apply @Action.casesOn _ a <;> intros
  case worker => apply @WorkerPc.casesOn _ pc <;> intros <;> infer_instance
  all_goals infer_instance

namespace Sock

/-! ## The two phases -/

/-- Nothing has been emitted, and the worker has not got hold of the socket. -/
def BeforeAccepted (s : Sock) : Prop :=
  s.emitted = [] ∧ (s.creator = .register ∨ s.creator = .add ∨ s.creator = .emit) ∧
    (s.worker = .idle ∨ ∃ f, s.worker = .lookup f)

/-- The creator has returned, and `Accepted` stands first. -/
def AfterAccepted (s : Sock) : Prop :=
  s.creator = .done ∧ ∃ history, s.emitted = .accepted :: history

def AcceptPhase (s : Sock) : Prop :=
  s.mStreamType = .accepted → s.BeforeAccepted ∨ s.AfterAccepted

theorem acceptPhase_fresh (st : StreamType) (own : Bool) : (fresh st own).AcceptPhase := by
  intro _
  left
  simp [BeforeAccepted, fresh]

/-- A step that keeps the creator and adds to the history stays after. -/
theorem AfterAccepted.of_append {s t : Sock} (h : s.AfterAccepted)
    (hCreator : t.creator = s.creator) (es : List SocketEvent)
    (hEmitted : t.emitted = s.emitted ++ es) : t.AfterAccepted := by
  obtain ⟨hDone, history, hHead⟩ := h
  refine ⟨hCreator.trans hDone, history ++ es, ?_⟩
  rw [hEmitted, hHead, List.cons_append]

/-! ## What a step does in each phase -/

theorem acceptPhase_creatorStep {s : Sock} (hAcc : s.mStreamType = .accepted)
    (h : s.BeforeAccepted) (c : ConnectRes) :
    (s.creatorStep c).BeforeAccepted ∨ (s.creatorStep c).AfterAccepted := by
  obtain ⟨hSilent, hCreator, hWorker⟩ := h
  rcases hCreator with hPc | hPc | hPc
  · left
    simp [creatorStep, hPc, hAcc, BeforeAccepted, sockAddReadOnNew, hSilent, hWorker]
  · left
    simp [creatorStep, hPc, hAcc, BeforeAccepted, hSilent, hWorker]
  · right
    simp [creatorStep, hPc, hAcc, AfterAccepted, emit, hSilent]

/-- Before `Accepted` the worker can only miss the socket. -/
theorem acceptPhase_workerStep {s : Sock} (hAcc : s.mStreamType = .accepted)
    (h : s.BeforeAccepted) {io : Io} (hBusy : s.worker ≠ .idle)
    (hGuard : foundAfterAccepted s (.worker io)) : (s.workerStep io).BeforeAccepted := by
  obtain ⟨hSilent, hCreator, hWorker⟩ := h
  rcases hWorker with hIdle | ⟨f, hLookup⟩
  · exact absurd hIdle hBusy
  · have hMissed : s.inMS = false := by
      by_contra hIn
      simp [foundAfterAccepted, hLookup, hAcc, hIn, hSilent] at hGuard
    simp [workerStep, hLookup, hMissed, BeforeAccepted, goto, hSilent, hCreator]

end Sock

open Sock

/-- What holds after `Accepted` does not depend on the condition. -/
theorem afterAccepted_step {s : Sock} {a : Action} (h : s.AfterAccepted)
    (hEn : socket.enabled s a) : (socket.apply s a).AfterAccepted := by
  cases a with
  | creator c => exact absurd h.1 hEn
  | worker io =>
      exact h.of_append (s.sameCreator_workerStep io).creator s.workerEvents
        (s.emitted_workerStep io)
  | append data =>
      apply h.of_append (s.sameCreator_append data).creator []
      simp
  | _ => exact h

theorem acceptPhase_step (s : Sock) (a : Action) (hInv : s.AcceptPhase)
    (hEn : (socket.guarded foundAfterAccepted).enabled s a) :
    (socket.apply s a).AcceptPhase := by
  intro hType
  rw [mStreamType_apply] at hType
  obtain ⟨hEnabled, hGuard⟩ := hEn
  cases hInv hType with
  | inl hBefore =>
      cases a with
      | creator c => exact acceptPhase_creatorStep hType hBefore c
      | poll f =>
          left
          exact ⟨hBefore.1, hBefore.2.1, .inr ⟨f, rfl⟩⟩
      | worker io =>
          left
          exact acceptPhase_workerStep hType hBefore hEnabled.1 hGuard
      | append data => exact absurd hBefore.1 hEnabled
      | close => exact absurd hBefore.1 hEnabled
      | mark => exact absurd hBefore.1 hEnabled
      | kernelUp => exact .inl hBefore
      | kernelBroken => exact .inl hBefore
  | inr hAfter => exact .inr (afterAccepted_step hAfter hEnabled)

theorem acceptPhase_reachable {s : Sock}
    (h : (socket.guarded foundAfterAccepted).Reachable s) : s.AcceptPhase := by
  apply Machine.Reachable.invariant _ acceptPhase_step h
  rintro s ⟨st, own, rfl⟩
  exact acceptPhase_fresh st own

theorem Sock.AcceptPhase.acceptedFirst {s : Sock} (h : s.AcceptPhase)
    (hType : s.mStreamType = .accepted) : AcceptedFirst s.emitted := by
  cases h hType with
  | inl hBefore =>
      rw [hBefore.1]
      exact acceptedFirst_nil
  | inr hAfter =>
      obtain ⟨_, history, hHead⟩ := hAfter
      rw [hHead]
      exact acceptedFirst_cons history

/--
**`Accepted` comes first**, in every run of the service in which no worker's
lookup finds an accepted socket before its `Accepted` was emitted.
-/
theorem accepted_first {sockets : SocketId → Sock}
    (h : (service foundAfterAccepted).Reachable sockets) (id : SocketId)
    (hType : (sockets id).mStreamType = .accepted) :
    AcceptedFirst (sockets id).emitted :=
  (acceptPhase_reachable (Machine.family_reachable h id)).acceptedFirst hType

/-- One round of the worker that reads `buf`. -/
def readRound (buf : Bytes) : List Action :=
  [.poll ⟨false, true, false⟩, .worker .none, .worker .none, .worker (.data buf),
    .worker .none, .worker .none]

theorem accepted_first_read :
    let acts := List.replicate 3 (.creator .ok) ++ readRound [104]
    (socket.exec (Sock.fresh .accepted false) acts).emitted = [.accepted, .streamRead] ∧
      AcceptedFirst [.accepted, .streamRead] := by
  have hReach := reachable_run foundAfterAccepted .accepted false 7
    (show Machine.Path _ _ (List.replicate 3 (.creator .ok) ++ readRound [104]) by decide)
  exact ⟨by decide, accepted_first hReach 7 (by decide)⟩

/-- `handle_accepted1` has added the socket to `MS`; before it emits `Accepted`
the worker of the container polls the socket, reads and emits `StreamRead`. -/
theorem read_before_accepted :
    ¬ ∀ sockets : SocketId → Sock, (service anyStep).Reachable sockets →
      ∀ id, (sockets id).mStreamType = .accepted → AcceptedFirst (sockets id).emitted := by
  intro h
  have hReach := reachable_run anyStep .accepted false 7
    (show Machine.Path _ _ (List.replicate 2 (.creator .ok) ++ readRound [104]) by decide)
  have hFirst := h _ hReach 7 (by decide)
  have hRead := hFirst [] .streamRead [] (by decide) (by decide)
  simp at hRead

/-! ## A socket in the container of the accepting thread -/

/-- The accepting thread does not poll before it has emitted `Accepted`. -/
def Sock.OwnPhase (s : Sock) : Prop :=
  s.mStreamType = .accepted → s.ownPoller →
    (s.BeforeAccepted ∧ s.worker = .idle) ∨ s.AfterAccepted

theorem ownPhase_step (s : Sock) (a : Action) (hInv : s.OwnPhase)
    (hEn : socket.enabled s a) : (socket.apply s a).OwnPhase := by
  intro hType hOwn
  rw [mStreamType_apply] at hType
  rw [ownPoller_apply] at hOwn
  rcases hInv hType hOwn with ⟨hBefore, hIdle⟩ | hAfter
  · cases a with
    | creator c =>
        have hWorker := (s.sameWorker_creatorStep c).worker
        exact (acceptPhase_creatorStep hType hBefore c).imp_left (⟨·, hWorker.trans hIdle⟩)
    | poll f =>
        have hDone : s.creator = .done := hEn.2.2.2.2 hOwn
        simp [BeforeAccepted, hDone] at hBefore
    | worker io => exact absurd hIdle hEn.1
    | append data => exact absurd hBefore.1 hEn
    | close => exact absurd hBefore.1 hEn
    | mark => exact absurd hBefore.1 hEn
    | kernelUp => exact .inl ⟨hBefore, hIdle⟩
    | kernelBroken => exact .inl ⟨hBefore, hIdle⟩
  · exact .inr (afterAccepted_step hAfter hEn)

/-- Without any condition: where `getPoller` chose the container of the
accepting thread (always with one worker), `Accepted` comes first. -/
theorem accepted_first_ownPoller {sockets : SocketId → Sock}
    (h : (service anyStep).Reachable sockets) (id : SocketId)
    (hType : (sockets id).mStreamType = .accepted) (hOwn : (sockets id).ownPoller) :
    AcceptedFirst (sockets id).emitted := by
  have hPhase : (sockets id).OwnPhase := by
    apply Machine.Reachable.invariant _ ownPhase_step (Machine.family_reachable h id).of_guarded
    rintro s ⟨st, own, rfl⟩ _ _
    left
    simp [BeforeAccepted, fresh]
  exact Sock.AcceptPhase.acceptedFirst (fun _ => (hPhase hType hOwn).imp_left And.left) hType

end Megatron.Socket
