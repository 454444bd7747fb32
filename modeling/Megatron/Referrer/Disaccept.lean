import Megatron.Referrer.Run
import Megatron.Socket.Lifecycle

/-!
# Closed downlinks

`closeSocket` emits `Disaccepted` and closes the socket, which sets its `m_id`
to -1.  The event carries the socket and not the id: Oscar and RPC pass it on,
and `on_deleteDownlink` takes the id by reference, so that the referrer reads
`m_id` on its own thread when it searches the downlink, when it erases it and
for every notification.

The socket takes its steps under any interleaving with the referrer, which
handles other inputs until it comes to the event.

## Main results

* `handled_as_one` — while `m_id` stays, the steps are those of
  `onDeleteDownlink`.
* `downlink_forgotten` — a run ends with the downlink forgotten and every
  subscriber told once, exactly when `m_id` stays until its last reading.
* `closed_downlink_kept` — a run where it does not.
-/

namespace Megatron.Referrer

open Megatron.Corelib Megatron.Lib

variable {Addr : Type} [LinearOrder Addr]

/-! ## The system -/

/-- Where `on_deleteDownlink` is; it is done when nobody is left to tell. -/
inductive Deletion where
  | waiting
  | finding
  | erasing
  | notifying (left : List BackRoute)
  deriving DecidableEq

/-- The accepted socket, whether its `Disaccepted` has come to the referrer,
the data of the referrer, what they were when it took the event, how far it
has come and what it has sent since. -/
structure Closing (Addr : Type) [LinearOrder Addr] where
  sock : Socket.Sock
  arrived : Bool
  rd : Rd Addr
  before : Rd Addr
  deletion : Deletion
  sent : List (Sent Addr)

/-- What can happen next. -/
inductive Closing.Action (Addr : Type) [LinearOrder Addr] where
  | socket (a : Socket.Action)
  | relay
  | handle (now : Int) (i : Input Addr)
  | take
  | delete
  deriving DecidableEq

namespace Closing

/-- What a reading of `m_id` gives. -/
def mId (sid : SocketId) (c : Closing Addr) : SocketId := if c.sock.fdOpen then sid else -1

/-- The next step of `on_deleteDownlink`: one reading of `m_id` each. -/
def deleteStep (sid : SocketId) (c : Closing Addr) : Closing Addr :=
  match c.deletion with
  | .waiting => c
  | .finding =>
      if c.rd.HasDownlink (c.mId sid) then { c with deletion := .erasing }
      else { c with deletion := .notifying [] }
  | .erasing =>
      { c with
        rd := { c.rd with urirefs := c.rd.urirefs.filter (·.1 ≠ c.mId sid) }
        deletion := .notifying c.rd.mReadyNotificationBackroutes }
  | .notifying [] => c
  | .notifying (r :: left) =>
      { c with
        deletion := .notifying left
        sent := c.sent ++ [.notify r (.downlinkDisconnected (c.mId sid))] }

def enabled (c : Closing Addr) : Action Addr → Prop
  | .socket a => Socket.socket.enabled c.sock a
  | .relay => .disaccepted ∈ c.sock.emitted ∧ c.arrived = false
  | .handle _ _ => c.deletion = .waiting
  | .take => c.arrived = true ∧ c.deletion = .waiting
  | .delete => c.deletion ≠ .waiting ∧ c.deletion ≠ .notifying []

instance decidableEnabled (c : Closing Addr) : ∀ a, Decidable (c.enabled a)
  | .socket a => inferInstanceAs (Decidable (Socket.socket.enabled c.sock a))
  | .relay => inferInstanceAs (Decidable (_ ∧ _))
  | .handle _ _ => inferInstanceAs (Decidable (c.deletion = .waiting))
  | .take => inferInstanceAs (Decidable (_ ∧ _))
  | .delete => inferInstanceAs (Decidable (_ ∧ _))

def apply (inst : Instance Addr) (sid : SocketId) (c : Closing Addr) : Action Addr → Closing Addr
  | .socket a => { c with sock := Socket.socket.apply c.sock a }
  | .relay => { c with arrived := true }
  | .handle now i => { c with rd := (c.rd.handleEvent inst now i).1 }
  | .take => { c with before := c.rd, deletion := .finding }
  | .delete => c.deleteStep sid

/-- A new accepted socket, and a referrer that has been started. -/
def fresh (own : Bool) (rd : Rd Addr) : Closing Addr where
  sock := Socket.Sock.fresh .accepted own
  arrived := false
  rd := rd
  before := rd
  deletion := .waiting
  sent := []

/-- The accepted socket `sid` and the referrer. -/
def machine (inst : Instance Addr) (sid : SocketId) : Machine (Closing Addr) (Action Addr) where
  init c := ∃ own now rd, Constructed rd ∧ c = fresh own (rd.onStartService inst now).1
  enabled := enabled
  apply := apply inst sid

instance decidableMachineEnabled (inst : Instance Addr) (sid : SocketId) (c : Closing Addr)
    (a : Action Addr) : Decidable ((machine inst sid).enabled c a) :=
  inferInstanceAs (Decidable (c.enabled a))

/-- `Disaccepted` has been handled. -/
def Handled (c : Closing Addr) : Prop := c.deletion = .notifying []

instance decidableHandled (c : Closing Addr) : Decidable c.Handled :=
  inferInstanceAs (Decidable (c.deletion = .notifying []))

/-- No entry is left, and every subscriber has been told exactly once. -/
structure Forgotten (sid : SocketId) (c : Closing Addr) : Prop where
  entry : ¬ c.rd.HasDownlink sid
  told : ∀ r ∈ c.rd.mReadyNotificationBackroutes,
    c.sent.count (.notify r (.downlinkDisconnected sid)) = 1

/-- `m_id` is reset only after its last reading. -/
def KeepsId (c : Closing Addr) : Action Addr → Prop
  | .socket a => (Socket.socket.apply c.sock a).fdOpen = true ∨ c.Handled
  | _ => True

instance decidableKeepsId (c : Closing Addr) : ∀ a, Decidable (c.KeepsId a)
  | .socket _ => inferInstanceAs (Decidable (_ ∨ _))
  | .relay | .handle _ _ | .take | .delete => .isTrue trivial

end Closing

/-! ## The subscribers -/

/-- A turn keeps the subscribers, or adds one. -/
theorem Effect.subscribers {inst : Instance Addr} {now : Int} {rd : Rd Addr} {i : Input Addr}
    {t : Turn Addr} (h : Effect inst now rd i t) :
    t.1.mReadyNotificationBackroutes = rd.mReadyNotificationBackroutes ∨
      ∃ r, t.1.mReadyNotificationBackroutes = rd.mReadyNotificationBackroutes.insert r := by
  have hStart : ∀ rd : Rd Addr,
      (rd.stageD2PingNeighboursStart inst now).1.mReadyNotificationBackroutes =
        rd.mReadyNotificationBackroutes := by
    intro rd
    obtain ⟨stage, neighbours, -, hRd⟩ := Rd.fst_stageD2PingNeighboursStart inst now rd
    rw [hRd]
  cases h with
  | timedOut => exact Or.inl (hStart rd)
  | pongTimedOut => exact Or.inl (hStart rd)
  | lost => exact Or.inl (hStart { rd with urirefs := [] })
  | pongAsked e esi =>
      rw [Rd.fst_stageD3GetReferrersStart]
      exact Or.inl rfl
  | pinged e route esi mId =>
      simp only [Rd.onIncomingOnAcceptor, Rd.onPing]
      split_ifs <;> exact Or.inl rfl
  | subscribed route => exact Or.inr ⟨route, rfl⟩
  | _ => exact Or.inl rfl

/-- Nobody is subscribed twice. -/
theorem nodup_handleEvent {inst : Instance Addr} {now : Int} {rd : Rd Addr} (i : Input Addr)
    (h : rd.mReadyNotificationBackroutes.Nodup) :
    (rd.handleEvent inst now i).1.mReadyNotificationBackroutes.Nodup := by
  rcases (Rd.effect_handleEvent inst now rd i).subscribers with hSame | ⟨r, hNew⟩
  · rw [hSame]
    exact h
  · rw [hNew]
    exact h.insert

theorem subscribers_onStartService {inst : Instance Addr} {now : Int} {rd : Rd Addr}
    (h : Constructed rd) : (rd.onStartService inst now).1.mReadyNotificationBackroutes = [] := by
  simp only [Rd.onStartService]
  split
  · exact h.mReadyNotificationBackroutes
  · obtain ⟨stage, neighbours, -, hRd⟩ := Rd.fst_stageD2PingNeighboursStart inst now rd
    rw [hRd]
    exact h.mReadyNotificationBackroutes

namespace Rd

/-- The data after a downlink has been erased. -/
abbrev erased (rd : Rd Addr) (sid : SocketId) : Rd Addr :=
  { rd with urirefs := rd.urirefs.filter (·.1 ≠ sid) }

theorem not_hasDownlink_erased (rd : Rd Addr) (sid : SocketId) :
    ¬ (rd.erased sid).HasDownlink sid := by
  rw [hasDownlink_iff]
  rintro ⟨x, hx, hEq⟩
  simp [hEq] at hx

/-- No other downlink is. -/
theorem hasDownlink_erased {rd : Rd Addr} {sid other : SocketId} (hOther : other ≠ sid)
    (h : rd.HasDownlink other) : (rd.erased sid).HasDownlink other := by
  obtain ⟨x, hx, rfl⟩ := hasDownlink_iff.1 h
  exact hasDownlink_iff.2 ⟨x, List.mem_filter.2 ⟨hx, by simpa using hOther⟩, rfl⟩

theorem onDeleteDownlink_of_hasDownlink {rd : Rd Addr} {sid : SocketId} (h : rd.HasDownlink sid) :
    rd.onDeleteDownlink sid = (rd.erased sid, rd.notifyAll (.downlinkDisconnected sid)) :=
  if_pos h

theorem onDeleteDownlink_of_not {rd : Rd Addr} {sid : SocketId} (h : ¬ rd.HasDownlink sid) :
    rd.onDeleteDownlink sid = (rd, []) := if_neg h

/-- Nobody is told twice. -/
theorem nodup_notifyAll (rd : Rd Addr) (h : rd.mReadyNotificationBackroutes.Nodup)
    (n : Notify Addr) : (rd.notifyAll n).Nodup :=
  h.map fun _ _ hEq => (Sent.notify.inj hEq).1

end Rd

/-! ## The invariants -/

namespace Closing

variable {inst : Instance Addr} {sid : SocketId} {c : Closing Addr}

/-- How far `onDeleteDownlink` has come: what is left to send completes it. -/
def Progress (sid : SocketId) (c : Closing Addr) : Prop :=
  match c.deletion with
  | .waiting => c.sent = []
  | .finding => c.sent = [] ∧ c.rd = c.before
  | .erasing => c.sent = [] ∧ c.rd = c.before ∧ c.before.HasDownlink sid
  | .notifying left =>
      (c.rd, c.sent ++ left.map (.notify · (.downlinkDisconnected sid))) =
        c.before.onDeleteDownlink sid

/-- Every reading so far gave the id. -/
structure OnTime (sid : SocketId) (c : Closing Addr) : Prop where
  nodup : c.rd.mReadyNotificationBackroutes.Nodup
  id : c.sock.fdOpen = true ∨ c.Handled
  progress : c.Progress sid

/-- `m_id` was reset before its last reading. -/
structure TooLate (sid : SocketId) (c : Closing Addr) : Prop where
  id : c.sock.fdOpen = false
  misses : match c.deletion with
    | .waiting => True
    | .finding => c.rd = c.before
    | .erasing => c.rd = c.before
    | .notifying _ => c.before.HasDownlink sid → c.rd.HasDownlink sid ∨
        ∃ r ∈ c.rd.mReadyNotificationBackroutes, .notify r (.downlinkDisconnected sid) ∉ c.sent

theorem onTime_init {c : Closing Addr} (h : (machine inst sid).init c) : c.OnTime sid := by
  obtain ⟨own, now, rd, hNew, rfl⟩ := h
  have hNone : (fresh own (rd.onStartService inst now).1).rd.mReadyNotificationBackroutes = [] :=
    subscribers_onStartService hNew
  refine ⟨?_, Or.inl rfl, rfl⟩
  rw [hNone]
  exact List.nodup_nil

/-- While `m_id` stays, a step of the deletion is one of `onDeleteDownlink`'s. -/
theorem onTime_deleteStep (h : c.OnTime sid) (hOpen : c.sock.fdOpen = true) :
    (c.deleteStep sid).OnTime sid := by
  have hId : c.mId sid = sid := if_pos hOpen
  have hProgress := h.progress
  rw [Progress] at hProgress
  rw [deleteStep]
  split
  · exact h
  · rename_i hAt
    rw [hAt] at hProgress
    obtain ⟨hSent, hRd⟩ := hProgress
    rw [hId]
    split
    · rename_i hDown
      exact ⟨h.nodup, Or.inl hOpen, hSent, hRd, hRd ▸ hDown⟩
    · rename_i hDown
      refine ⟨h.nodup, Or.inl hOpen, ?_⟩
      rw [hRd] at hDown
      simp [Progress, Rd.onDeleteDownlink_of_not hDown, hSent, hRd]
  · rename_i hAt
    rw [hAt] at hProgress
    obtain ⟨hSent, hRd, hDown⟩ := hProgress
    refine ⟨h.nodup, Or.inl hOpen, ?_⟩
    rw [hId]
    simp [Progress, Rd.onDeleteDownlink_of_hasDownlink hDown, hSent, hRd, Rd.notifyAll]
  · exact h
  · rename_i r left hAt
    rw [hAt] at hProgress
    refine ⟨h.nodup, Or.inl hOpen, ?_⟩
    rw [hId]
    simpa [Progress] using hProgress

/-- After the reset a step of the deletion misses the downlink. -/
theorem tooLate_deleteStep (hSid : sid ≠ -1) (h : c.TooLate sid) : (c.deleteStep sid).TooLate sid := by
  have hId : c.mId sid = -1 := if_neg (by simp [h.id])
  have hMisses := h.misses
  rw [deleteStep]
  split
  · exact h
  · rename_i hAt
    rw [hAt] at hMisses
    split
    · exact ⟨h.id, hMisses⟩
    · exact ⟨h.id, fun hDown => Or.inl (hMisses ▸ hDown)⟩
  · rename_i hAt
    rw [hAt] at hMisses
    refine ⟨h.id, fun hDown => Or.inl ?_⟩
    rw [hId]
    exact Rd.hasDownlink_erased hSid (hMisses ▸ hDown)
  · exact h
  · rename_i r left hAt
    rw [hAt] at hMisses
    refine ⟨h.id, fun hDown => (hMisses hDown).imp_right ?_⟩
    rintro ⟨r', hMem, hNot⟩
    refine ⟨r', hMem, ?_⟩
    rw [hId]
    simp [hNot, hSid]

/-- A reset before the last reading. -/
theorem tooLate_of_closed (h : c.OnTime sid) (hHandled : ¬ c.Handled) {sock : Socket.Sock}
    (hClosed : sock.fdOpen = false) : { c with sock := sock }.TooLate sid := by
  refine ⟨hClosed, ?_⟩
  have hProgress := h.progress
  rw [Progress] at hProgress
  cases hAt : c.deletion with
  | waiting => trivial
  | finding =>
      rw [hAt] at hProgress
      exact hProgress.2
  | erasing =>
      rw [hAt] at hProgress
      exact hProgress.2.1
  | notifying left =>
      rw [hAt] at hProgress
      intro hDown
      cases left with
      | nil => exact absurd hAt hHandled
      | cons r left =>
          simp only [Rd.onDeleteDownlink_of_hasDownlink hDown, Prod.mk.injEq] at hProgress
          obtain ⟨hRd, hSent⟩ := hProgress
          have hNodup := h.nodup
          rw [hRd] at hNodup ⊢
          have hAll := c.before.nodup_notifyAll hNodup (.downlinkDisconnected sid)
          rw [← hSent] at hAll
          refine Or.inr ⟨r, ?_, ?_⟩
          · have hMem : Sent.notify r (.downlinkDisconnected sid) ∈
                c.before.notifyAll (.downlinkDisconnected sid) := by
              rw [← hSent]
              simp
            simpa [Rd.notifyAll] using hMem
          · intro hMem
            exact List.disjoint_of_nodup_append hAll hMem (by simp)

/-! ## Runs -/

/-- Only a step of the deletion and the socket touch what counts. -/
theorem onTime_apply {a : Action Addr} (h : c.OnTime sid) (hEn : c.enabled a)
    (hKeeps : c.KeepsId a) : (c.apply inst sid a).OnTime sid := by
  cases a with
  | socket a => exact ⟨h.nodup, hKeeps, h.progress⟩
  | relay => exact ⟨h.nodup, h.id, h.progress⟩
  | handle now i =>
      have hWaiting : c.deletion = .waiting := hEn
      refine ⟨nodup_handleEvent i h.nodup, h.id, ?_⟩
      have hProgress := h.progress
      rw [Progress, hWaiting] at hProgress
      simpa [Progress, apply, hWaiting] using hProgress
  | take =>
      have hWaiting : c.deletion = .waiting := hEn.2
      have hProgress := h.progress
      rw [Progress, hWaiting] at hProgress
      refine ⟨h.nodup, Or.inl (h.id.resolve_right ?_), hProgress, rfl⟩
      rw [Handled, hWaiting]
      simp
  | delete => exact onTime_deleteStep h (h.id.resolve_right hEn.2)

theorem tooLate_apply (hSid : sid ≠ -1) {a : Action Addr} (h : c.TooLate sid) (hEn : c.enabled a) :
    (c.apply inst sid a).TooLate sid := by
  cases a with
  | socket a => exact ⟨(Socket.Sock.closed_apply h.id a).1, h.misses⟩
  | relay => exact ⟨h.id, h.misses⟩
  | handle now i =>
      have hWaiting : c.deletion = .waiting := hEn
      refine ⟨h.id, ?_⟩
      simp [apply, hWaiting]
  | take => exact ⟨h.id, rfl⟩
  | delete => exact tooLate_deleteStep hSid h

/-- Once the readings are over, nothing the socket does matters. -/
theorem tooLate_of_not_keepsId {a : Action Addr} (h : c.OnTime sid) (hKeeps : ¬ c.KeepsId a) :
    (c.apply inst sid a).TooLate sid := by
  cases a with
  | socket a =>
      obtain ⟨hOpen, hHandled⟩ := not_or.1 hKeeps
      exact tooLate_of_closed h hHandled (Bool.eq_false_iff.2 hOpen)
  | _ => exact absurd trivial hKeeps

/-- **While `m_id` stays** until the event has been handled, the steps are
those of `onDeleteDownlink`. -/
theorem handled_as_one (h : c.OnTime sid) (hHandled : c.Handled) :
    (c.rd, c.sent) = c.before.onDeleteDownlink sid := by
  have hProgress := h.progress
  rw [Progress, show c.deletion = .notifying [] from hHandled] at hProgress
  simpa using hProgress

theorem forgotten_of_onTime (h : c.OnTime sid) (hHandled : c.Handled)
    (hDown : c.before.HasDownlink sid) : c.Forgotten sid := by
  have hOne := handled_as_one h hHandled
  rw [Rd.onDeleteDownlink_of_hasDownlink hDown, Prod.mk.injEq] at hOne
  obtain ⟨hRd, hSent⟩ := hOne
  have hNodup := h.nodup
  constructor
  · rw [hRd]
    exact c.before.not_hasDownlink_erased sid
  · intro r hr
    rw [hRd] at hr hNodup
    rw [hSent]
    exact List.count_eq_one_of_mem (c.before.nodup_notifyAll hNodup _)
      (List.mem_map.2 ⟨r, hr, rfl⟩)

theorem not_forgotten_of_tooLate (h : c.TooLate sid) (hHandled : c.Handled)
    (hDown : c.before.HasDownlink sid) : ¬ c.Forgotten sid := by
  intro hForgotten
  have hMisses := h.misses
  rw [show c.deletion = .notifying [] from hHandled] at hMisses
  rcases hMisses hDown with hEntry | ⟨r, hr, hNot⟩
  · exact hForgotten.entry hEntry
  · have hOnce := hForgotten.told r hr
    rw [List.count_eq_zero_of_not_mem hNot] at hOnce
    cases hOnce

/--
**Closed downlinks are forgotten.** Under any interleaving of the socket with
the referrer: when the referrer has handled the `Disaccepted` of a downlink, no
entry of it is left and every subscriber has been told exactly once, if and only
if `m_id` was not reset before its last reading.
-/
theorem downlink_forgotten (hSid : 0 < sid) {c₀ : Closing Addr} {acts : List (Action Addr)}
    (h0 : (machine inst sid).init c₀) (hPath : (machine inst sid).Path c₀ acts)
    (hHandled : ((machine inst sid).exec c₀ acts).Handled)
    (hDown : ((machine inst sid).exec c₀ acts).before.HasDownlink sid) :
    ((machine inst sid).exec c₀ acts).Forgotten sid ↔
      ((machine inst sid).guarded KeepsId).Path c₀ acts := by
  have hId : sid ≠ -1 := by
    rintro rfl
    exact absurd hSid (by decide)
  rcases Machine.path_guarded_or_left (m := machine inst sid) (I := OnTime sid)
      (B := TooLate sid) (g := KeepsId) (fun c a h hEn hKeeps => onTime_apply h hEn hKeeps)
      (fun c a h _ hKeeps => tooLate_of_not_keepsId h hKeeps)
      (fun c a h hEn => tooLate_apply hId h hEn) acts c₀ (onTime_init h0) hPath with
    ⟨hGuarded, hEnd⟩ | ⟨hGuarded, hEnd⟩
  · exact ⟨fun _ => hGuarded, fun _ => forgotten_of_onTime hEnd hHandled hDown⟩
  · exact ⟨fun h => absurd h (not_forgotten_of_tooLate hEnd hHandled hDown),
      fun h => absurd h hGuarded⟩

/-! ## Examples -/

/-- The top server becomes the uplink, somebody subscribes, and the node below
becomes a downlink through socket 4. -/
def serves : List (Action Nat) :=
  [.handle 1 (pongFrom .ptCached 0 9 0 0 1), .handle 2 (.getReferrersRSP 1 []),
    .handle 3 (.subscribeNotifications aSubscriber), .handle 4 childPings]

/-- The socket is accepted and reset by the peer: the worker emits `Disaccepted`. -/
def reset : List (Action Nat) :=
  [.socket (.creator .ok), .socket (.creator .ok), .socket (.creator .ok), .socket .kernelBroken,
    .socket (.poll ⟨true, false, false⟩), .socket (.worker .none), .socket (.worker .none),
    .socket (.worker .none)]

/-- What the worker does then: it removes the socket and closes it. -/
def closes : List (Action Nat) := [.socket (.worker .none), .socket (.worker .none)]

/-- The event overtakes the worker. -/
theorem overtaken_forgotten :
    ((machine oneCaps 4).exec (fresh false (Referrer.fresh.onStartService oneCaps 0).1)
      (serves ++ reset ++ [.relay, .take, .delete, .delete, .delete] ++ closes)).Forgotten 4 :=
  (downlink_forgotten (by decide) ⟨false, 0, Referrer.fresh, ⟨rfl, rfl, rfl, rfl⟩, rfl⟩
    (by decide) (by decide) (by decide)).2 (by decide)

/-- The worker closes the socket at once: the downlink stays, and nobody is
told. -/
theorem closed_downlink_kept : ∃ c, (machine oneCaps 4).Reachable c ∧ c.Handled ∧
    c.before.HasDownlink 4 ∧ c.rd.HasDownlink 4 ∧ c.sent = [] ∧ ¬ c.Forgotten 4 := by
  refine ⟨(machine oneCaps 4).exec (fresh false (Referrer.fresh.onStartService oneCaps 0).1)
    (serves ++ reset ++ closes ++ [.relay, .take, .delete]),
    ⟨_, _, ⟨false, 0, Referrer.fresh, ⟨rfl, rfl, rfl, rfl⟩, rfl⟩, ?_, rfl⟩,
    by decide, by decide, by decide, by decide, ?_⟩
  · decide
  · intro h
    exact h.entry (by decide)

end Closing

end Megatron.Referrer
