import Megatron.Lib.Machine
import Megatron.Rpc.Service

/-!
# Delivery, one handler at a time

Packets enter a session's cache when they are accepted and leave it when they
are handed to Oscar.  Three things flush a cache (the `Connected` of its
socket, `NotifyBindAddress` over the sessions of both maps, and every later
send), and a session sits in either of two maps; the books below do not depend
on which of them runs when.

* `Booked` holds after every step of a handler: for each session, the packets
  handed and the packets waiting are the packets accepted.
* `Flushed` holds between handlers only: a connected session has nothing
  waiting.

## Main results

* `delivery_atomic` — both, in every state any sequence of events reaches.
* `accepted_handle` — what a handler accepts, and for which session.
-/

namespace Megatron.Rpc

open Megatron.Corelib
open Megatron.Lib
open State

variable {Addr : Type} {Ev : Type}

/-! ## What the steps do to the packets -/

theorem acceptedFor_pushBack (s : State Addr) (r r' : SessionRef) (p : Bytes) :
    (s.pushBack r p).acceptedFor r' = s.acceptedFor r' ++ if r = r' then [p] else [] := by
  by_cases hr : r = r' <;> simp [pushBack, acceptedFor, forSession, hr]

theorem cache_pushBack (s : State Addr) (r r' : SessionRef) (p : Bytes) :
    (s.pushBack r p).cache r' = s.cache r' ++ if r = r' then [p] else [] := by
  by_cases hr : r = r'
  · subst hr
    simp [pushBack, setSession, cache]
  · simp [pushBack, setSession, cache, Function.update_of_ne (Ne.symm hr), hr]

theorem esi_pushBack (s : State Addr) (r r' : SessionRef) (p : Bytes) :
    ((s.pushBack r p).heap r').esi = (s.heap r').esi := by
  by_cases hr : r' = r
  · subst hr
    simp [pushBack, setSession]
  · simp [pushBack, setSession, hr]

theorem esi_setEsi (s : State Addr) (r : SessionRef) (esi : Esi Addr) :
    ((s.setEsi r esi).heap r).esi = some esi := by
  simp [setEsi, setSession]

theorem esi_setEsi_of_ne (s : State Addr) {r r' : SessionRef} (hr : r' ≠ r)
    (esi : Esi Addr) : (s.setEsi r esi).heap r' = s.heap r' := by
  simp [setEsi, setSession, hr]

theorem cache_setEsi (s : State Addr) (r r' : SessionRef) (esi : Esi Addr) :
    (s.setEsi r esi).cache r' = s.cache r' := by
  by_cases hr : r' = r
  · subst hr
    simp [setEsi, setSession, cache]
  · simp [setEsi, setSession, cache, hr]

/-! ## Nothing waiting on a connected session -/

/-- A connected session has nothing waiting. -/
def Flushed (s : State Addr) : Prop := ∀ r, (s.heap r).esi.isSome → s.cache r = []

theorem Flushed.sends {s s' : State Addr} (h : Flushed s) (hs : Sends s s') : Flushed s' := by
  intro r hEsi
  rw [hs.esi] at hEsi
  have hSuffix := hs.suffix r
  rw [h r hEsi] at hSuffix
  exact List.suffix_nil.1 hSuffix

theorem Flushed.newSession {s : State Addr} (h : Flushed s) (sockId : SocketId)
    (esi : Option (Esi Addr)) : Flushed (s.newSession sockId esi) := by
  intro r hEsi
  by_cases hr : r = s.nextRef
  · subst hr
    simp [State.newSession, setSession, cache]
  · simp only [State.newSession, setSession, cache, Function.update_of_ne hr] at hEsi ⊢
    exact h r hEsi

theorem Flushed.emplaceId {s : State Addr} (h : Flushed s) (sockId : SocketId)
    (r : SessionRef) : Flushed (s.emplaceId sockId r) := by
  unfold State.emplaceId
  split <;> exact h

/-- Flushing the one session that may have something waiting. -/
theorem flushed_doSend {s : State Addr} {r : SessionRef}
    (h : ∀ r', r' ≠ r → (s.heap r').esi.isSome → s.cache r' = []) : Flushed (s.doSend r) := by
  have hs := sends_doSend s r
  intro r' hEsi
  rw [hs.esi] at hEsi
  by_cases hr : r' = r
  · subst hr
    exact cache_doSend hEsi
  · have hSuffix := hs.suffix r'
    rw [h r' hr hEsi] at hSuffix
    exact List.suffix_nil.1 hSuffix

theorem sends_addSendPacket (s : State Addr) (r : SessionRef) (p : Bytes) :
    Sends (s.pushBack r p) (s.addSendPacket r p) := by
  unfold addSendPacket
  dsimp only
  split
  · exact sends_doSend _ r
  · exact Sends.refl _

theorem Flushed.addSendPacket {s : State Addr} (h : Flushed s) (r : SessionRef)
    (p : Bytes) : Flushed (s.addSendPacket r p) := by
  have hOthers : ∀ r', r' ≠ r → ((s.pushBack r p).heap r').esi.isSome →
      (s.pushBack r p).cache r' = [] := by
    intro r' hr hEsi
    rw [esi_pushBack] at hEsi
    rw [cache_pushBack, if_neg (Ne.symm hr), List.append_nil]
    exact h r' hEsi
  unfold State.addSendPacket
  dsimp only
  split
  · exact flushed_doSend hOthers
  · rename_i hNone
    intro r' hEsi
    by_cases hr : r' = r
    · subst hr
      exact absurd hEsi hNone
    · exact hOthers r' hr hEsi

theorem Flushed.eraseId {s : State Addr} (h : Flushed s) (sockId : SocketId) :
    Flushed (s.eraseId sockId) := h

theorem flushed_packAndAdd {s : State Addr} (h : Flushed s) (r : SessionRef)
    (packed : Except CommonError Bytes) : Flushed (s.packAndAdd r packed) := by
  cases packed with
  | ok p => exact h.addSendPacket r p
  | error e => exact h.sends (sends_emit s (by simp))

theorem accepted_packAndAdd (s : State Addr) (r : SessionRef)
    (packed : Except CommonError Bytes) :
    (s.packAndAdd r packed).accepted = s.accepted ++
      match packed with
      | .ok p => [(r, p)]
      | .error _ => [] := by
  cases packed with
  | ok p => exact (sends_addSendPacket s r p).accepted
  | error e => simp [packAndAdd, emit]

/-! ## The books -/

variable [DecidableEq Addr]

theorem Flushed.emplaceSa {s : State Addr} (h : Flushed s) (addr : Addr) (r : SessionRef) :
    Flushed (s.emplaceSa addr r) := by
  unfold State.emplaceSa
  split <;> exact h

theorem Flushed.eraseSa {s : State Addr} (h : Flushed s) (addr : Addr) :
    Flushed (s.eraseSa addr) := h

/-- The packets of every session are accounted for, and the maps lead to
sessions that exist. -/
structure Booked (s : State Addr) : Prop where
  ledger : ∀ r, s.handed r ++ s.cache r = s.acceptedFor r
  unborn : ∀ r, s.nextRef ≤ r → s.acceptedFor r = []
  sa_lt : ∀ a r, s.mxSa2Session.lookup a = some r → r < s.nextRef
  id_lt : ∀ i r, s.mxSocketId2session.lookup i = some r → r < s.nextRef

theorem booked_initial : Booked (initial : State Addr) where
  ledger _ := rfl
  unborn _ _ := rfl
  sa_lt _ _ h := by simp [initial] at h
  id_lt _ _ h := by simp [initial] at h

theorem Booked.sends {s s' : State Addr} (h : Booked s) (hs : Sends s s') : Booked s' where
  ledger r := by rw [hs.packets, h.ledger, acceptedFor, acceptedFor, hs.accepted]
  unborn r hr := by
    rw [hs.nextRef] at hr
    rw [acceptedFor, hs.accepted]
    exact h.unborn r hr
  sa_lt a r hr := by
    rw [hs.mxSa2Session] at hr
    rw [hs.nextRef]
    exact h.sa_lt a r hr
  id_lt i r hr := by
    rw [hs.mxSocketId2session] at hr
    rw [hs.nextRef]
    exact h.id_lt i r hr

/-! ### A new session -/

theorem Booked.newSession {s : State Addr} (h : Booked s) (sockId : SocketId)
    (esi : Option (Esi Addr)) : Booked (s.newSession sockId esi) where
  ledger r := by
    by_cases hr : r = s.nextRef
    · -- nothing was ever accepted for a session that did not exist
      have hEmpty := h.unborn s.nextRef (Nat.le_refl _)
      have hBoth := h.ledger s.nextRef
      rw [hEmpty, List.append_eq_nil_iff] at hBoth
      subst hr
      show s.handed s.nextRef ++ _ = s.acceptedFor s.nextRef
      rw [hEmpty, hBoth.1]
      simp [State.newSession, setSession, cache]
    · show s.handed r ++ _ = s.acceptedFor r
      rw [← h.ledger r]
      simp [State.newSession, setSession, cache, hr]
  unborn r hr := h.unborn r (Nat.le_of_succ_le hr)
  sa_lt a r hr := Nat.lt_succ_of_lt (h.sa_lt a r hr)
  id_lt i r hr := Nat.lt_succ_of_lt (h.id_lt i r hr)

/-! ### The maps -/

theorem Booked.emplaceSa {s : State Addr} (h : Booked s) (addr : Addr) {r : SessionRef}
    (hr : r < s.nextRef) : Booked (s.emplaceSa addr r) := by
  unfold State.emplaceSa
  split
  · exact h
  · refine ⟨h.ledger, h.unborn, fun a r' ha => ?_, h.id_lt⟩
    by_cases hAddr : a = addr
    · subst hAddr
      obtain rfl : r = r' := by simpa using ha
      exact hr
    · exact h.sa_lt a r' (by simpa [AList.lookup_insert_ne hAddr] using ha)

theorem Booked.emplaceId {s : State Addr} (h : Booked s) (sockId : SocketId) {r : SessionRef}
    (hr : r < s.nextRef) : Booked (s.emplaceId sockId r) := by
  unfold State.emplaceId
  split
  · exact h
  · refine ⟨h.ledger, h.unborn, h.sa_lt, fun i r' hi => ?_⟩
    by_cases hId : i = sockId
    · subst hId
      obtain rfl : r = r' := by simpa using hi
      exact hr
    · exact h.id_lt i r' (by simpa [AList.lookup_insert_ne hId] using hi)

theorem Booked.eraseSa {s : State Addr} (h : Booked s) (addr : Addr) :
    Booked (s.eraseSa addr) := by
  refine ⟨h.ledger, h.unborn, fun a r ha => ?_, h.id_lt⟩
  by_cases hAddr : a = addr
  · subst hAddr
    simp [State.eraseSa] at ha
  · exact h.sa_lt a r (by simpa [State.eraseSa, AList.lookup_erase_ne hAddr] using ha)

theorem Booked.eraseId {s : State Addr} (h : Booked s) (sockId : SocketId) :
    Booked (s.eraseId sockId) := by
  refine ⟨h.ledger, h.unborn, h.sa_lt, fun i r hi => ?_⟩
  by_cases hId : i = sockId
  · subst hId
    simp [State.eraseId] at hi
  · exact h.id_lt i r (by simpa [State.eraseId, AList.lookup_erase_ne hId] using hi)

/-! ### The cache -/

/-- A packet enters the accepted list and the cache together. -/
theorem Booked.pushBack {s : State Addr} (h : Booked s) {r : SessionRef} (p : Bytes)
    (hr : r < s.nextRef) : Booked (s.pushBack r p) where
  ledger r' := by
    rw [cache_pushBack, acceptedFor_pushBack, ← h.ledger r', List.append_assoc]
    rfl
  unborn r' hr' := by
    have hNe : r ≠ r' := fun hEq => absurd hr (Nat.not_lt.2 (hEq ▸ hr'))
    rw [acceptedFor_pushBack, if_neg hNe, List.append_nil]
    exact h.unborn r' hr'
  sa_lt := h.sa_lt
  id_lt := h.id_lt

theorem Booked.setEsi {s : State Addr} (h : Booked s) (r : SessionRef) (esi : Esi Addr) :
    Booked (s.setEsi r esi) where
  ledger r' := by
    rw [cache_setEsi]
    exact h.ledger r'
  unborn := h.unborn
  sa_lt := h.sa_lt
  id_lt := h.id_lt

/-! ## The events, handled one at a time -/

/-- An event for the service, with what its handler does not decide itself:
the id `getSocketId` returns, and the order of the set `doSendAll` collects. -/
inductive Call (Addr Ev : Type) where
  | sendPacket (sockId : SocketId) (addressTo : Addr) (destination : ServiceId) (ev : Ev)
  | passPacket (socketIdTo : SocketId) (ev : Ev)
  | notifyBindAddress (order : List SessionRef)
  | connected (esi : Esi Addr)
  | connectFailed (esi : Esi Addr) (addr : Addr)
  | disconnected (esi : Esi Addr) (reason : String)
  | accepted (esi : Esi Addr)
  | disaccepted (esi : Esi Addr) (reason : String)
  | subscribeNotifications (route : RouteT)
  | unsubscribeNotifications (route : RouteT)

variable (packEvent : Ev → Except CommonError Bytes)

/-- `handleEvent`; Oscar's answers to a `Connect` arrive as later events. -/
def handle (s : State Addr) : Call Addr Ev → State Addr
  | .sendPacket sockId addressTo destination ev =>
      s.onSendPacket packEvent id sockId addressTo destination ev
  | .passPacket socketIdTo ev => s.onPassPacket packEvent socketIdTo ev
  | .notifyBindAddress order => s.onNotifyBindAddress order
  | .connected esi => s.onConnected esi
  | .connectFailed esi addr => s.onConnectFailed esi addr
  | .disconnected esi reason => s.onDisconnected esi reason
  | .accepted esi => s.onAccepted esi
  | .disaccepted esi reason => s.onDisaccepted esi reason
  | .subscribeNotifications route => s.onSubscribeNotifications route
  | .unsubscribeNotifications route => s.onUnsubscribeNotifications route

/-- The service under any sequence of events. -/
def service : Machine (State Addr) (Call Addr Ev) where
  init s := s = initial
  enabled s
    | .notifyBindAddress order => order.Nodup ∧ ∀ r, r ∈ order ↔ r ∈ s.registered
    | _ => True
  apply := handle packEvent

theorem booked_packAndAdd {s : State Addr} (h : Booked s) {r : SessionRef}
    (hr : r < s.nextRef) (packed : Except CommonError Bytes) :
    Booked (s.packAndAdd r packed) := by
  cases packed with
  | ok p => exact (h.pushBack p hr).sends (sends_addSendPacket s r p)
  | error e => exact h.sends (sends_emit s (by simp))

theorem booked_handle {s : State Addr} (h : Booked s) (c : Call Addr Ev) :
    Booked (handle packEvent s c) := by
  cases c with
  | sendPacket sockId addressTo destination ev =>
      simp only [handle, onSendPacket]
      split
      · rename_i r hr
        exact booked_packAndAdd h (h.sa_lt _ r hr) _
      · have hNew : Booked ((s.newSession sockId none).emit (.connect sockId addressTo)) :=
          (h.newSession sockId none).sends (sends_emit _ (by simp))
        have hPlaced := hNew.emplaceSa addressTo (Nat.lt_succ_self s.nextRef)
        refine booked_packAndAdd hPlaced ?_ _
        unfold State.emplaceSa
        split <;> exact Nat.lt_succ_self s.nextRef
  | passPacket socketIdTo ev =>
      simp only [handle, onPassPacket]
      split
      · exact h.sends (sends_emit s (by simp))
      split
      · exact h.sends (sends_emit s (by simp))
      · rename_i r hr
        exact (h.pushBack _ (h.id_lt _ r hr)).sends (sends_addSendPacket s r _)
  | notifyBindAddress order =>
      exact Booked.sends (s := { s with networkInitialized := true }) ⟨h.1, h.2, h.3, h.4⟩
        (sends_doSendAll order _)
  | connected esi =>
      simp only [handle, onConnected]
      split
      · exact h
      split
      · exact h.sends (sends_emit s (by simp))
      · exact ((h.sends (sends_notifySubscribers s _)).setEsi _ _).sends (sends_doSend _ _)
  | connectFailed esi addr =>
      simp only [handle, onConnectFailed]
      split
      · exact h.sends (sends_emit s (by simp))
      · exact (h.eraseSa _).sends (sends_notifySubscribers _ _)
  | disconnected esi reason =>
      simp only [handle, onDisconnected]
      split
      · exact h.sends (sends_emit s (by simp))
      · exact (h.sends (sends_notifySubscribers s _)).eraseSa _
  | accepted esi =>
      have hPlaced := (h.newSession esi.mId (some esi)).emplaceId esi.mId
        (Nat.lt_succ_self s.nextRef)
      exact hPlaced.sends (sends_notifySubscribers _ _)
  | disaccepted esi reason =>
      exact (h.sends (sends_notifySubscribers s _)).eraseId _
  | subscribeNotifications route => exact ⟨h.1, h.2, h.3, h.4⟩
  | unsubscribeNotifications route => exact ⟨h.1, h.2, h.3, h.4⟩

theorem flushed_handle {s : State Addr} (h : Flushed s) (c : Call Addr Ev) :
    Flushed (handle packEvent s c) := by
  cases c with
  | sendPacket sockId addressTo destination ev =>
      simp only [handle, onSendPacket]
      split
      · exact flushed_packAndAdd h _ _
      · exact flushed_packAndAdd
          (((h.newSession sockId none).sends (sends_emit _ (by simp))).emplaceSa _ _) _ _
  | passPacket socketIdTo ev =>
      simp only [handle, onPassPacket]
      split
      · exact h.sends (sends_emit s (by simp))
      split
      · exact h.sends (sends_emit s (by simp))
      · exact h.addSendPacket _ _
  | notifyBindAddress order =>
      exact Flushed.sends (s := { s with networkInitialized := true }) h
        (sends_doSendAll order _)
  | connected esi =>
      simp only [handle, onConnected]
      split
      · exact h
      split
      · exact h.sends (sends_emit s (by simp))
      · rename_i r _
        have hNotified := h.sends (sends_notifySubscribers s (.connected esi))
        refine flushed_doSend fun r' hr hEsi => ?_
        rw [esi_setEsi_of_ne _ hr] at hEsi
        rw [cache_setEsi]
        exact hNotified r' hEsi
  | connectFailed esi addr =>
      simp only [handle, onConnectFailed]
      split
      · exact h.sends (sends_emit s (by simp))
      · exact (h.eraseSa _).sends (sends_notifySubscribers _ _)
  | disconnected esi reason =>
      simp only [handle, onDisconnected]
      split
      · exact h.sends (sends_emit s (by simp))
      · exact (h.sends (sends_notifySubscribers s _)).eraseSa _
  | accepted esi =>
      exact ((h.newSession esi.mId (some esi)).emplaceId _ _).sends
        (sends_notifySubscribers _ _)
  | disaccepted esi reason =>
      exact Flushed.eraseId (h.sends (sends_notifySubscribers s _)) _
  | subscribeNotifications route => exact h
  | unsubscribeNotifications route => exact h

/-! ## What is accepted -/

/-- The packets an event makes the service accept, and for which session: the
one its address or socket leads to, or the one it creates. -/
def acceptedBy (s : State Addr) : Call Addr Ev → List (SessionRef × Bytes)
  | .sendPacket _ addressTo destination ev =>
      match packSend packEvent destination ev with
      | .ok p => [((s.mxSa2Session.lookup addressTo).getD s.nextRef, p)]
      | .error _ => []
  | .passPacket socketIdTo ev =>
      match packPass packEvent ev, s.mxSocketId2session.lookup socketIdTo with
      | .ok p, some r => [(r, p)]
      | _, _ => []
  | _ => []

/-- The packets accepted along a run. -/
def acceptedAlong : State Addr → List (Call Addr Ev) → List (SessionRef × Bytes)
  | _, [] => []
  | s, c :: calls => acceptedBy packEvent s c ++ acceptedAlong (handle packEvent s c) calls

theorem accepted_handle (s : State Addr) (c : Call Addr Ev) :
    (handle packEvent s c).accepted = s.accepted ++ acceptedBy packEvent s c := by
  cases c with
  | sendPacket sockId addressTo destination ev =>
      simp only [handle, onSendPacket, acceptedBy]
      cases hFound : s.mxSa2Session.lookup addressTo with
      | some r =>
          rw [accepted_packAndAdd]
          rfl
      | none =>
          dsimp only
          rw [accepted_packAndAdd]
          unfold State.emplaceSa
          split <;> rfl
  | passPacket socketIdTo ev =>
      simp only [handle, onPassPacket, acceptedBy]
      cases packPass packEvent ev with
      | error e => simp [emit]
      | ok p =>
          cases s.mxSocketId2session.lookup socketIdTo with
          | none => simp [emit]
          | some r => exact (sends_addSendPacket s r p).accepted
  | notifyBindAddress order =>
      simp only [acceptedBy, List.append_nil]
      exact (sends_doSendAll order { s with networkInitialized := true }).accepted
  | connected esi =>
      simp only [handle, onConnected, acceptedBy, List.append_nil]
      split
      · rfl
      split
      · rfl
      · rw [(sends_doSend _ _).accepted]
        exact (sends_notifySubscribers s _).accepted
  | connectFailed esi addr =>
      simp only [handle, onConnectFailed, acceptedBy, List.append_nil]
      split
      · rfl
      · exact (sends_notifySubscribers _ _).accepted
  | disconnected esi reason =>
      simp only [handle, onDisconnected, acceptedBy, List.append_nil]
      split
      · rfl
      · exact (sends_notifySubscribers s _).accepted
  | accepted esi =>
      simp only [handle, onAccepted, acceptedBy, List.append_nil]
      rw [(sends_notifySubscribers _ _).accepted]
      unfold State.emplaceId
      split <;> rfl
  | disaccepted esi reason =>
      simp only [acceptedBy, List.append_nil]
      exact (sends_notifySubscribers s _).accepted
  | subscribeNotifications route => simp [handle, onSubscribeNotifications, acceptedBy]
  | unsubscribeNotifications route => simp [handle, onUnsubscribeNotifications, acceptedBy]

theorem accepted_exec (calls : List (Call Addr Ev)) :
    ∀ s : State Addr, ((service packEvent).exec s calls).accepted =
      s.accepted ++ acceptedAlong packEvent s calls := by
  induction calls with
  | nil => intro s; exact (List.append_nil _).symm
  | cons c calls ih =>
      intro s
      rw [Machine.exec_cons, ih, show (service packEvent).apply s c = handle packEvent s c from rfl,
        accepted_handle, acceptedAlong, List.append_assoc]

/--
**Delivery, handlers atomic.**  After any sequence of events, the packets
handed to Oscar for a session and the packets left in its cache are the
packets accepted for it along the run, in order; a connected session has
none left.
-/
theorem delivery_atomic (calls : List (Call Addr Ev))
    (hRun : (service packEvent).Path initial calls) (r : SessionRef) :
    let s := (service packEvent).exec initial calls
    s.handed r ++ s.cache r = forSession (acceptedAlong packEvent initial calls) r ∧
      ((s.heap r).esi.isSome → s.cache r = []) := by
  intro s
  have hBooked : Booked s := Machine.path_invariant (service packEvent) (I := Booked)
    (fun _ c h _ => booked_handle packEvent h c) calls initial booked_initial hRun
  have hFlushed : Flushed s := Machine.path_invariant (service packEvent) (I := Flushed)
    (fun _ c h _ => flushed_handle packEvent h c) calls initial (fun _ _ => rfl) hRun
  have hAccepted : s.accepted = acceptedAlong packEvent initial calls :=
    accepted_exec packEvent calls initial
  rw [hBooked.ledger r, acceptedFor, hAccepted]
  exact ⟨rfl, hFlushed r⟩

/-- Two packets before the connection and one after it. -/
theorem delivery_around_connected :
    let packEvent : Bytes → Except CommonError Bytes := .ok
    let calls : List (Call Nat Bytes) :=
      [.sendPacket 5 80 [0x64] [1], .sendPacket 6 80 [0x64] [2], .connected ⟨5, some 80⟩,
        .sendPacket 7 80 [0x64] [3]]
    let s := (service packEvent).exec initial calls
    s.handed 0 ++ s.cache 0 = forSession (acceptedAlong packEvent initial calls) 0 ∧
      ((s.heap 0).esi.isSome → s.cache 0 = []) :=
  delivery_atomic .ok
    [.sendPacket 5 80 [0x64] [1], .sendPacket 6 80 [0x64] [2], .connected ⟨5, some 80⟩,
      .sendPacket 7 80 [0x64] [3]]
    ⟨trivial, trivial, trivial, trivial, trivial⟩ 0

end Megatron.Rpc
