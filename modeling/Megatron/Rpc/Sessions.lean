import Megatron.Rpc.Delivery
import Megatron.Socket.Phase

/-!
# Sessions over sockets

The RPC service above the sockets it has opened.  A `SendPacket` for an address
without a session runs `on_AddToConnectTCP` inside the synchronous `Connect`,
so what the connect emits at once reaches the service before the session is in
`mx_sa2Session`; every later event of the socket reaches it through Oscar when
the socket makes the step that emits it.  The steps of different sockets, and
the events of the RPC service, come in any order.

Two things leave a session whose socket is gone in the map: a connect that
fails inside the `Connect`, whose `ConnectFailed` finds nothing to erase, and a
direct `epoll_socket_info::close`, which emits nothing.

## Main results

* `sessions_live` — otherwise every entry of the map leads to a pending connect
  or to an open socket with an empty cache.
* `connect_failed_inside` — the session that is dead when it is entered.
-/

namespace Megatron.Rpc

open Megatron.Corelib
open Megatron.Lib
open Megatron.Socket
open State

variable {Addr : Type} {Ev : Type}

/-! ## The world -/

/-- A socket the service has opened, and the address of its
`request_for_connect`. -/
structure Conn (Addr : Type) where
  addr : Addr
  sock : Sock

/-- The service and its sockets. -/
structure World (Addr : Type) where
  rpc : State Addr
  conns : SocketId → Option (Conn Addr)

/-- What comes in: an event for the service, a `SendPacket` with the outcome of
the connect it may cause (`none` if `::socket` fails), or a step of a socket
with the reason of its `closeSocket`. -/
inductive Incoming (Addr Ev : Type) where
  | call (c : Call Addr Ev)
  | sendPacket (sockId : SocketId) (own : Bool) (outcome : Option Sock.ConnectRes)
      (addressTo : Addr) (destination : ServiceId) (ev : Ev)
  | socket (id : SocketId) (a : Socket.Action) (reason : String)

variable [DecidableEq Addr]

/-- Oscar passes an event of a connector socket on to the service. `StreamRead`
and `NotifyOutBufferEmpty` do not reach the sessions. -/
def deliver (id : SocketId) (addr : Addr) (reason : String) (s : State Addr)
    (e : SocketEvent) : State Addr :=
  match e with
  | .connected => s.onConnected ⟨id, some addr⟩
  | .connectFailed => s.onConnectFailed ⟨id, some addr⟩ addr
  | .disconnected => s.onDisconnected ⟨id, some addr⟩ reason
  | _ => s

/-- The socket `on_AddToConnectTCP` makes. -/
def opened (own : Bool) (outcome : Option Sock.ConnectRes) : Option Sock :=
  outcome.map (Sock.connectCall own)

/-- What `on_AddToConnectTCP` emits before it returns. -/
def atOnce (own : Bool) (outcome : Option Sock.ConnectRes) : List SocketEvent :=
  match opened own outcome with
  | some sock => sock.emitted
  | none => []

variable (packEvent : Ev → Except CommonError Bytes)

/-- The events that come in by themselves: those of the sockets come with the
steps of the sockets, and no accepted socket has a request. -/
def byItself (s : State Addr) : Call Addr Ev → Prop
  | .passPacket _ _ => True
  | .notifyBindAddress order => order.Nodup ∧ ∀ r, r ∈ order ↔ r ∈ s.registered
  | .accepted esi => esi.requestForConnect = none
  | .disaccepted esi _ => esi.requestForConnect = none
  | .subscribeNotifications _ => True
  | .unsubscribeNotifications _ => True
  | _ => False

/-- The service over its sockets. `getSocketId` returns fresh ids. -/
def world : Machine (World Addr) (Incoming Addr Ev) where
  init w := w.rpc = initial ∧ ∀ id, w.conns id = none
  enabled w
    | .call c => byItself w.rpc c
    | .sendPacket sockId _ _ _ _ _ => w.conns sockId = none
    | .socket id a _ => ∃ c, w.conns id = some c ∧ socket.enabled c.sock a
  apply w
    | .call c => { w with rpc := handle packEvent w.rpc c }
    | .sendPacket sockId own outcome addressTo destination ev =>
        { rpc := w.rpc.onSendPacket packEvent
            (fun s => (atOnce own outcome).foldl (deliver sockId addressTo "connect") s)
            sockId addressTo destination ev
          conns :=
            if w.rpc.mxSa2Session.lookup addressTo = none then
              Function.update w.conns sockId ((opened own outcome).map (Conn.mk addressTo))
            else w.conns }
    | .socket id a reason =>
        match w.conns id with
        | none => w
        | some c =>
            { rpc := (c.sock.events a).foldl (deliver id c.addr reason) w.rpc
              conns := Function.update w.conns id
                (some { c with sock := Socket.socket.apply c.sock a }) }

/-- A `SendPacket` that opens a connection does not see it fail inside the
call, and no holder closes a socket that `closeSocket` has not closed. -/
def connectsLater (w : World Addr) (x : Incoming Addr Ev) : Prop :=
  match x with
  | .call _ => True
  | .sendPacket _ _ outcome addressTo _ _ =>
      w.rpc.mxSa2Session.lookup addressTo = none →
        outcome = some .ok ∨ outcome = some .inProgress
  | .socket id a _ => ∀ c, w.conns id = some c → Sock.closedByService c.sock a

/-! ## What is to hold -/

/-- The socket of a session in the map. -/
inductive Leads (w : World Addr) (a : Addr) (r : SessionRef) : Prop where
  /-- The connect is unresolved: an open socket still in connection. -/
  | pending (id : SocketId) (c : Conn Addr) (hConn : w.conns id = some c) (hAddr : c.addr = a)
      (hOpen : c.sock.fdOpen) (hPending : c.sock.inConnection)
      (hEsi : (w.rpc.heap r).esi = none)
  /-- `S->esi` is valid, its socket is open, and nothing waits. -/
  | connected (esi : Esi Addr) (c : Conn Addr) (hEsi : (w.rpc.heap r).esi = some esi)
      (hConn : w.conns esi.mId = some c) (hAddr : c.addr = a) (hOpen : c.sock.fdOpen)
      (hFlushed : w.rpc.cache r = [])

/-- Every entry of the map leads to a pending connect or an open socket; what
was accepted for it has been handed over or waits; and a packet for an address
without an entry opens a connection. -/
structure World.Live (w : World Addr) : Prop where
  leads : ∀ a r, w.rpc.mxSa2Session.lookup a = some r → Leads w a r
  ledger : ∀ r, w.rpc.handed r ++ w.rpc.cache r = w.rpc.acceptedFor r
  opens : ∀ a, w.rpc.mxSa2Session.lookup a = none → ∀ sockId own outcome destination ev,
    .connect sockId a ∈
      ((world packEvent).apply w (.sendPacket sockId own outcome a destination ev)).rpc.trace

/-! ## Steps that leave the entries alone -/

/-- The entries, and the `esi` of their sessions, are the same. -/
structure SameEntries (s s' : State Addr) : Prop where
  mxSa2Session : s'.mxSa2Session = s.mxSa2Session
  esi : ∀ a r, s.mxSa2Session.lookup a = some r → (s'.heap r).esi = (s.heap r).esi

theorem SameEntries.trans {s s' s'' : State Addr} (h : SameEntries s s')
    (h' : SameEntries s' s'') : SameEntries s s'' where
  mxSa2Session := h'.mxSa2Session.trans h.mxSa2Session
  esi a r hr := by
    have hr' : s'.mxSa2Session.lookup a = some r := by rw [h.mxSa2Session]; exact hr
    exact (h'.esi a r hr').trans (h.esi a r hr)

theorem sameEntries_of_sends {s s' : State Addr} (h : Sends s s') : SameEntries s s' where
  mxSa2Session := h.mxSa2Session
  esi _ r _ := h.esi r

theorem sameEntries_addSendPacket (s : State Addr) (r : SessionRef) (p : Bytes) :
    SameEntries s (s.addSendPacket r p) := by
  have hPush : SameEntries s (s.pushBack r p) := ⟨rfl, fun _ r' _ => esi_pushBack s r r' p⟩
  exact hPush.trans (sameEntries_of_sends (sends_addSendPacket s r p))

theorem sameEntries_packAndAdd (s : State Addr) (r : SessionRef)
    (packed : Except CommonError Bytes) : SameEntries s (s.packAndAdd r packed) := by
  cases packed with
  | ok p => exact sameEntries_addSendPacket s r p
  | error e => exact sameEntries_of_sends (sends_emit s (by simp))

/-- A new session is none of the old ones. -/
theorem sameEntries_newSession {s : State Addr} (h : Booked s) (sockId : SocketId)
    (esi : Option (Esi Addr)) : SameEntries s (s.newSession sockId esi) where
  mxSa2Session := rfl
  esi a r hr := by
    have hNe : r ≠ s.nextRef := Nat.ne_of_lt (h.sa_lt a r hr)
    simp [State.newSession, setSession, hNe]

theorem sameEntries_call {s : State Addr} (h : Booked s) {c : Call Addr Ev}
    (hCall : byItself s c) : SameEntries s (handle packEvent s c) := by
  cases c with
  | passPacket socketIdTo ev =>
      simp only [handle, onPassPacket]
      split
      · exact sameEntries_of_sends (sends_emit s (by simp))
      split
      · exact sameEntries_of_sends (sends_emit s (by simp))
      · exact sameEntries_addSendPacket s _ _
  | notifyBindAddress order =>
      have hSet : SameEntries s { s with networkInitialized := true } := ⟨rfl, fun _ _ _ => rfl⟩
      exact hSet.trans (sameEntries_of_sends (sends_doSendAll order _))
  | accepted esi =>
      have hPlaced : SameEntries (s.newSession esi.mId (some esi))
          ((s.newSession esi.mId (some esi)).emplaceId esi.mId s.nextRef) := by
        unfold State.emplaceId
        split <;> exact ⟨rfl, fun _ _ _ => rfl⟩
      exact (sameEntries_newSession h esi.mId (some esi)).trans
        (hPlaced.trans (sameEntries_of_sends (sends_notifySubscribers _ _)))
  | disaccepted esi reason =>
      have hNotified := sameEntries_of_sends (sends_notifySubscribers s (.disaccepted esi reason))
      exact hNotified.trans ⟨rfl, fun _ _ _ => rfl⟩
  | subscribeNotifications route => exact ⟨rfl, fun _ _ _ => rfl⟩
  | unsubscribeNotifications route => exact ⟨rfl, fun _ _ _ => rfl⟩
  | _ => exact hCall.elim

/-! ## What the events of a socket do to the entries -/

theorem booked_deliver {s : State Addr} (h : Booked s) (id : SocketId) (addr : Addr)
    (reason : String) (e : SocketEvent) : Booked (deliver id addr reason s e) := by
  cases e with
  | connected => exact booked_handle (fun _ : Unit => .ok []) h (.connected _)
  | connectFailed => exact booked_handle (fun _ : Unit => .ok []) h (.connectFailed _ _)
  | disconnected => exact booked_handle (fun _ : Unit => .ok []) h (.disconnected _ _)
  | _ => exact h

theorem flushed_deliver {s : State Addr} (h : Flushed s) (id : SocketId) (addr : Addr)
    (reason : String) (e : SocketEvent) : Flushed (deliver id addr reason s e) := by
  cases e with
  | connected => exact flushed_handle (fun _ : Unit => .ok []) h (.connected _)
  | connectFailed => exact flushed_handle (fun _ : Unit => .ok []) h (.connectFailed _ _)
  | disconnected => exact flushed_handle (fun _ : Unit => .ok []) h (.disconnected _ _)
  | _ => exact h

theorem foldl_deliver_silent (id : SocketId) (addr : Addr) (reason : String)
    {es : List SocketEvent} (h : ∀ e ∈ es, Sock.silent e) (s : State Addr) :
    es.foldl (deliver id addr reason) s = s := by
  induction es generalizing s with
  | nil => rfl
  | cons e es ih =>
      have hSame : deliver id addr reason s e = s := by
        rcases h e List.mem_cons_self with rfl | rfl <;> rfl
      rw [List.foldl_cons, hSame]
      exact ih (fun e' he' => h e' (List.mem_cons_of_mem e he')) s

/-- `Connected` for an address with an entry: its session gets the socket. -/
theorem deliver_connected {s : State Addr} {addr : Addr} {r : SessionRef}
    (h : s.mxSa2Session.lookup addr = some r) (id : SocketId) (reason : String) :
    (deliver id addr reason s .connected).mxSa2Session = s.mxSa2Session ∧
      ((deliver id addr reason s .connected).heap r).esi = some ⟨id, some addr⟩ ∧
      ∀ r', r' ≠ r → ((deliver id addr reason s .connected).heap r').esi = (s.heap r').esi := by
  let esi : Esi Addr := ⟨id, some addr⟩
  have hNotified := sends_notifySubscribers s (.connected esi)
  have hSent := sends_doSend ((s.notifySubscribers (.connected esi)).setEsi r esi) r
  have hStep : deliver id addr reason s .connected =
      ((s.notifySubscribers (.connected esi)).setEsi r esi).doSend r := by
    simp [deliver, onConnected, h, esi]
  rw [hStep]
  refine ⟨hSent.mxSa2Session.trans hNotified.mxSa2Session, ?_, fun r' hr => ?_⟩
  · rw [hSent.esi, esi_setEsi]
  · rw [hSent.esi, esi_setEsi_of_ne _ hr, hNotified.esi]

/-- `Connected` for an address without an entry is an error. -/
theorem sends_deliver_connected {s : State Addr} {addr : Addr}
    (h : s.mxSa2Session.lookup addr = none) (id : SocketId) (reason : String) :
    Sends s (deliver id addr reason s .connected) := by
  have hStep : deliver id addr reason s .connected =
      s.emit (.commonError .onConnected "2cannot find RPC session on connected") := by
    simp [deliver, onConnected, h]
  rw [hStep]
  exact sends_emit s (by simp)

/-- `ConnectFailed` and `Disconnected` erase the entry. -/
theorem deliver_lost {s : State Addr} (id : SocketId) (addr : Addr) (reason : String)
    {e : SocketEvent} (h : e = .connectFailed ∨ e = .disconnected) :
    (deliver id addr reason s e).mxSa2Session = s.mxSa2Session.erase addr ∧
      ∀ r, ((deliver id addr reason s e).heap r).esi = (s.heap r).esi := by
  rcases h with rfl | rfl
  · have hSent := sends_notifySubscribers (s.eraseSa addr) (.connectFailed addr)
    exact ⟨hSent.mxSa2Session, hSent.esi⟩
  · have hSent := sends_notifySubscribers s (.disconnected ⟨id, some addr⟩ addr reason)
    refine ⟨?_, hSent.esi⟩
    show ((s.notifySubscribers _).mxSa2Session).erase addr = _
    rw [hSent.mxSa2Session]

/-! ## Entries and phases -/

/-- What the service could know of its sockets: address and phase. -/
abbrev View (Addr : Type) := SocketId → Option (Addr × Phase)

/-- The entries and the sockets that are not gone belong together. -/
structure Consistent (s : State Addr) (view : View Addr) : Prop where
  bound : ∀ id a p, view id = some (a, p) → p ≠ .gone →
    ∃ r, s.mxSa2Session.lookup a = some r ∧
      (s.heap r).esi = if p = .established then some ⟨id, some a⟩ else none
  live : ∀ a r, s.mxSa2Session.lookup a = some r → ∃ id p, view id = some (a, p) ∧ p ≠ .gone
  unique : ∀ id id' a p p', view id = some (a, p) → view id' = some (a, p') →
    p ≠ .gone → p' ≠ .gone → id = id'
  inj : ∀ a a' r, s.mxSa2Session.lookup a = some r → s.mxSa2Session.lookup a' = some r → a = a'

theorem consistent_initial : Consistent (initial : State Addr) fun _ => none := by
  constructor <;> simp [initial]

/-- A step of the service that leaves the entries alone. -/
theorem Consistent.of_sameEntries {s s' : State Addr} {view : View Addr}
    (h : Consistent s view) (hSame : SameEntries s s') : Consistent s' view := by
  have hMap := hSame.mxSa2Session
  constructor
  · intro id a p hView hPhase
    obtain ⟨r, hr, hEsi⟩ := h.bound id a p hView hPhase
    exact ⟨r, by rw [hMap]; exact hr, (hSame.esi a r hr).trans hEsi⟩
  · rw [hMap]
    exact h.live
  · exact h.unique
  · rw [hMap]
    exact h.inj

omit [DecidableEq Addr] in
/-- An entry of the view after an update: the new one, or an old one. -/
theorem view_update {view : View Addr} {id id' : SocketId} {v : Addr × Phase}
    {a : Addr} {p : Phase} (h : Function.update view id (some v) id' = some (a, p)) :
    (id' = id ∧ v = (a, p)) ∨ (id' ≠ id ∧ view id' = some (a, p)) := by
  by_cases hId : id' = id
  · subst hId
    left
    simpa using h
  · right
    exact ⟨hId, by simpa [hId] using h⟩

/-- The connect of a socket is told. -/
theorem Consistent.established {s : State Addr} {view : View Addr} (h : Consistent s view)
    {id : SocketId} {a : Addr} (hView : view id = some (a, .pending)) (reason : String) :
    Consistent (deliver id a reason s .connected)
      (Function.update view id (some (a, .established))) := by
  obtain ⟨r, hr, _⟩ := h.bound id a .pending hView (by decide)
  obtain ⟨hMap, hEsi, hOthers⟩ := deliver_connected hr id reason
  constructor
  · intro id' a' p' hView' hPhase'
    rcases view_update hView' with ⟨rfl, hEq⟩ | ⟨hId, hOld⟩
    · cases hEq
      exact ⟨r, by rw [hMap]; exact hr, hEsi⟩
    · obtain ⟨r', hr', hEsi'⟩ := h.bound id' a' p' hOld hPhase'
      -- another socket that is not gone has another address, and another session
      have hAddr : a' ≠ a := fun hEq =>
        hId (h.unique id' id a' p' .pending hOld (hEq ▸ hView) hPhase' (by decide))
      have hNe : r' ≠ r := fun hEq => hAddr (h.inj a' a r' hr' (hEq ▸ hr))
      exact ⟨r', by rw [hMap]; exact hr', (hOthers r' hNe).trans hEsi'⟩
  · intro a' r' hr'
    rw [hMap] at hr'
    obtain ⟨id', p', hOld, hPhase'⟩ := h.live a' r' hr'
    by_cases hId : id' = id
    · subst hId
      cases hView.symm.trans hOld
      exact ⟨id', .established, by simp, by decide⟩
    · exact ⟨id', p', by simpa [hId] using hOld, hPhase'⟩
  · intro id₁ id₂ a' p₁ p₂ h₁ h₂ hp₁ hp₂
    rcases view_update h₁ with ⟨rfl, hEq₁⟩ | ⟨hId₁, hOld₁⟩ <;>
      rcases view_update h₂ with ⟨rfl, hEq₂⟩ | ⟨hId₂, hOld₂⟩
    · rfl
    · cases hEq₁
      exact h.unique _ _ _ _ _ hView hOld₂ (by decide) hp₂
    · cases hEq₂
      exact h.unique _ _ _ _ _ hOld₁ hView hp₁ (by decide)
    · exact h.unique _ _ _ _ _ hOld₁ hOld₂ hp₁ hp₂
  · rw [hMap]
    exact h.inj

/-- The loss of a socket is told. -/
theorem Consistent.lost {s : State Addr} {view : View Addr} (h : Consistent s view)
    {id : SocketId} {a : Addr} {p : Phase} (hView : view id = some (a, p)) (hPhase : p ≠ .gone)
    (reason : String) {e : SocketEvent} (he : e = .connectFailed ∨ e = .disconnected) :
    Consistent (deliver id a reason s e) (Function.update view id (some (a, .gone))) := by
  obtain ⟨hMap, hEsi⟩ := deliver_lost (s := s) id a reason he
  have hLookup : ∀ a', a' ≠ a →
      (deliver id a reason s e).mxSa2Session.lookup a' = s.mxSa2Session.lookup a' := by
    intro a' hNe
    rw [hMap, AList.lookup_erase_ne hNe]
  have hErased : (deliver id a reason s e).mxSa2Session.lookup a = none := by
    rw [hMap, AList.lookup_erase]
  have hOther : ∀ a' r', (deliver id a reason s e).mxSa2Session.lookup a' = some r' →
      a' ≠ a ∧ s.mxSa2Session.lookup a' = some r' := by
    intro a' r' hr'
    have hNe : a' ≠ a := by
      rintro rfl
      rw [hErased] at hr'
      cases hr'
    exact ⟨hNe, by rw [← hLookup a' hNe]; exact hr'⟩
  constructor
  · intro id' a' p' hView' hPhase'
    rcases view_update hView' with ⟨rfl, hEq⟩ | ⟨hId, hOld⟩
    · cases hEq
      exact absurd rfl hPhase'
    · have hAddr : a' ≠ a := fun hEq =>
        hId (h.unique id' id a' p' p hOld (hEq ▸ hView) hPhase' hPhase)
      obtain ⟨r', hr', hEsi'⟩ := h.bound id' a' p' hOld hPhase'
      exact ⟨r', by rw [hLookup a' hAddr]; exact hr', (hEsi r').trans hEsi'⟩
  · intro a' r' hr'
    obtain ⟨hNe, hOld⟩ := hOther a' r' hr'
    obtain ⟨id', p', hLive, hPhase'⟩ := h.live a' r' hOld
    have hId : id' ≠ id := by
      rintro rfl
      rw [hView] at hLive
      cases hLive
      exact hNe rfl
    exact ⟨id', p', by simpa [hId] using hLive, hPhase'⟩
  · intro id₁ id₂ a' p₁ p₂ h₁ h₂ hp₁ hp₂
    rcases view_update h₁ with ⟨rfl, hEq₁⟩ | ⟨hId₁, hOld₁⟩
    · cases hEq₁
      exact absurd rfl hp₁
    rcases view_update h₂ with ⟨rfl, hEq₂⟩ | ⟨hId₂, hOld₂⟩
    · cases hEq₂
      exact absurd rfl hp₂
    exact h.unique _ _ _ _ _ hOld₁ hOld₂ hp₁ hp₂
  · intro a₁ a₂ r' h₁ h₂
    exact h.inj a₁ a₂ r' (hOther a₁ r' h₁).2 (hOther a₂ r' h₂).2

/-- `s'` is `s` with a new session, not connected, entered for `a`. -/
structure Entered (s s' : State Addr) (a : Addr) : Prop where
  map : s'.mxSa2Session = s.mxSa2Session.insert a s.nextRef
  new : (s'.heap s.nextRef).esi = none
  old : ∀ r, r < s.nextRef → (s'.heap r).esi = (s.heap r).esi

/-- A connect is issued, and its session entered. -/
theorem Consistent.opened {s s' : State Addr} {view : View Addr} (h : Consistent s view)
    (hBooked : Booked s) {a : Addr} (hNone : s.mxSa2Session.lookup a = none)
    (hEntered : Entered s s' a) {id : SocketId} (hFresh : view id = none) :
    Consistent s' (Function.update view id (some (a, .pending))) := by
  obtain ⟨hMap, hNew, hOld⟩ := hEntered
  have hLookup : ∀ a', a' ≠ a → s'.mxSa2Session.lookup a' = s.mxSa2Session.lookup a' := by
    intro a' hNe
    rw [hMap, AList.lookup_insert_ne hNe]
  have hEntry : s'.mxSa2Session.lookup a = some s.nextRef := by
    rw [hMap, AList.lookup_insert]
  have hNeOf : ∀ a' r', s.mxSa2Session.lookup a' = some r' → a' ≠ a := by
    rintro a' r' hr' rfl
    rw [hNone] at hr'
    cases hr'
  constructor
  · intro id' a' p' hView' hPhase'
    rcases view_update hView' with ⟨rfl, hEq⟩ | ⟨_, hView⟩
    · cases hEq
      exact ⟨s.nextRef, hEntry, hNew⟩
    · obtain ⟨r', hr', hEsi'⟩ := h.bound id' a' p' hView hPhase'
      have hEsiSame := hOld r' (hBooked.sa_lt a' r' hr')
      exact ⟨r', by rw [hLookup a' (hNeOf a' r' hr')]; exact hr', hEsiSame.trans hEsi'⟩
  · intro a' r' hr'
    by_cases hAddr : a' = a
    · subst hAddr
      exact ⟨id, .pending, by simp, by decide⟩
    · rw [hLookup a' hAddr] at hr'
      obtain ⟨id', p', hView, hPhase'⟩ := h.live a' r' hr'
      have hId : id' ≠ id := by
        rintro rfl
        rw [hFresh] at hView
        cases hView
      exact ⟨id', p', by simpa [hId] using hView, hPhase'⟩
  · intro id₁ id₂ a' p₁ p₂ h₁ h₂ hp₁ hp₂
    -- no socket for `a` that is not gone was there: it would have had an entry
    have hNobody : ∀ id' p', view id' = some (a, p') → p' = .gone := by
      intro id' p' hView
      by_contra hPhase'
      obtain ⟨r', hr', _⟩ := h.bound id' a p' hView hPhase'
      exact hNeOf a r' hr' rfl
    rcases view_update h₁ with ⟨rfl, hEq₁⟩ | ⟨_, hView₁⟩ <;>
      rcases view_update h₂ with ⟨rfl, hEq₂⟩ | ⟨_, hView₂⟩
    · rfl
    · cases hEq₁
      exact absurd (hNobody id₂ p₂ hView₂) hp₂
    · cases hEq₂
      exact absurd (hNobody id₁ p₁ hView₁) hp₁
    · exact h.unique _ _ _ _ _ hView₁ hView₂ hp₁ hp₂
  · intro a₁ a₂ r' h₁ h₂
    by_cases hAddr₁ : a₁ = a <;> by_cases hAddr₂ : a₂ = a
    · rw [hAddr₁, hAddr₂]
    · subst hAddr₁
      rw [hEntry] at h₁
      rw [hLookup a₂ hAddr₂] at h₂
      cases h₁
      exact absurd (hBooked.sa_lt a₂ _ h₂) (Nat.lt_irrefl _)
    · subst hAddr₂
      rw [hEntry] at h₂
      rw [hLookup a₁ hAddr₁] at h₁
      cases h₂
      exact absurd (hBooked.sa_lt a₁ _ h₁) (Nat.lt_irrefl _)
    · rw [hLookup a₁ hAddr₁] at h₁
      rw [hLookup a₂ hAddr₂] at h₂
      exact h.inj a₁ a₂ r' h₁ h₂

/-! ## A `SendPacket` that opens a connection -/

omit [DecidableEq Addr] in
theorem esi_packAndAdd (s : State Addr) (r r' : SessionRef)
    (packed : Except CommonError Bytes) :
    ((s.packAndAdd r packed).heap r').esi = (s.heap r').esi := by
  cases packed with
  | ok p => exact ((sends_addSendPacket s r p).esi r').trans (esi_pushBack s r r' p)
  | error e => exact (sends_emit s (by simp)).esi r'

theorem Entered.packAndAdd {s s' : State Addr} {a : Addr} (h : Entered s s' a)
    (r : SessionRef) (packed : Except CommonError Bytes) :
    Entered s (s'.packAndAdd r packed) a where
  map := (sameEntries_packAndAdd s' r packed).mxSa2Session.trans h.map
  new := (esi_packAndAdd s' r _ packed).trans h.new
  old r' hr' := (esi_packAndAdd s' r r' packed).trans (h.old r' hr')

/-- The service when the session of a new connection has been entered. -/
def enter (reply : State Addr → State Addr) (s : State Addr) (sockId : SocketId)
    (addressTo : Addr) : State Addr :=
  (reply ((s.newSession sockId none).emit (.connect sockId addressTo))).emplaceSa addressTo
    s.nextRef

theorem onSendPacket_of_none {s : State Addr} {addressTo : Addr}
    (hNone : s.mxSa2Session.lookup addressTo = none) (reply : State Addr → State Addr)
    (sockId : SocketId) (destination : ServiceId) (ev : Ev) :
    s.onSendPacket packEvent reply sockId addressTo destination ev =
      (enter reply s sockId addressTo).packAndAdd s.nextRef
        (packSend packEvent destination ev) := by
  simp only [onSendPacket, hNone, enter]

section Enter

variable {s : State Addr} {addressTo : Addr} {reply : State Addr → State Addr}

/-- What the `Connect` tells at once finds no session to change. -/
theorem entered_enter (hNone : s.mxSa2Session.lookup addressTo = none)
    (hReply : ∀ t : State Addr, t.mxSa2Session.lookup addressTo = none → Sends t (reply t))
    (sockId : SocketId) : Entered s (enter reply s sockId addressTo) addressTo := by
  have hSent := hReply ((s.newSession sockId none).emit (.connect sockId addressTo)) hNone
  have hMiss := (congrArg (·.lookup addressTo) hSent.mxSa2Session).trans hNone
  constructor
  · simp only [enter, State.emplaceSa, hMiss, Option.isSome_none, Bool.false_eq_true, if_false]
    rw [hSent.mxSa2Session]
    rfl
  · simp only [enter, State.emplaceSa, hMiss, Option.isSome_none, Bool.false_eq_true, if_false]
    rw [hSent.esi]
    simp [State.newSession, setSession, emit]
  · intro r hr
    have hNe : r ≠ s.nextRef := Nat.ne_of_lt hr
    simp only [enter, State.emplaceSa, hMiss, Option.isSome_none, Bool.false_eq_true, if_false]
    rw [hSent.esi]
    simp [State.newSession, setSession, emit, hNe]

theorem booked_enter (hBooked : Booked s) (hNone : s.mxSa2Session.lookup addressTo = none)
    (hReply : ∀ t : State Addr, t.mxSa2Session.lookup addressTo = none → Sends t (reply t))
    (sockId : SocketId) :
    Booked (enter reply s sockId addressTo) ∧
      s.nextRef < (enter reply s sockId addressTo).nextRef := by
  have hSent := hReply ((s.newSession sockId none).emit (.connect sockId addressTo)) hNone
  have hNew : Booked ((s.newSession sockId none).emit (.connect sockId addressTo)) :=
    (hBooked.newSession sockId none).sends (sends_emit _ (by simp))
  have hLt : s.nextRef <
      (reply ((s.newSession sockId none).emit (.connect sockId addressTo))).nextRef := by
    rw [hSent.nextRef]
    exact Nat.lt_succ_self s.nextRef
  refine ⟨(hNew.sends hSent).emplaceSa addressTo hLt, ?_⟩
  unfold enter State.emplaceSa
  split <;> exact hLt

theorem flushed_enter (hFlushed : Flushed s) (hNone : s.mxSa2Session.lookup addressTo = none)
    (hReply : ∀ t : State Addr, t.mxSa2Session.lookup addressTo = none → Sends t (reply t))
    (sockId : SocketId) : Flushed (enter reply s sockId addressTo) := by
  have hSent := hReply ((s.newSession sockId none).emit (.connect sockId addressTo)) hNone
  have hNew : Flushed ((s.newSession sockId none).emit (.connect sockId addressTo)) :=
    (hFlushed.newSession sockId none).sends (sends_emit _ (by simp))
  exact (hNew.sends hSent).emplaceSa addressTo s.nextRef

end Enter

/-- A connect that did not fail has told at most `Connected`. -/
theorem sends_atOnce {outcome : Option Sock.ConnectRes}
    (h : outcome = some .ok ∨ outcome = some .inProgress) (own : Bool) (id : SocketId)
    (addr : Addr) (reason : String) (t : State Addr) (hNone : t.mxSa2Session.lookup addr = none) :
    Sends t ((atOnce own outcome).foldl (deliver id addr reason) t) := by
  rcases h with rfl | rfl
  · have hEvents : atOnce own (some .ok) = [.connected] := by cases own <;> decide
    rw [hEvents]
    exact sends_deliver_connected hNone id reason
  · have hEvents : atOnce own (some .inProgress) = [] := by cases own <;> decide
    rw [hEvents]
    exact Sends.refl t

/-! ## The invariant of the world -/

/-- The sockets as the sessions see them. -/
def World.view (w : World Addr) : View Addr :=
  fun id => (w.conns id).map fun c => (c.addr, c.sock.phase)

/-- The books are kept, the sockets are past their `on_AddToConnectTCP`, and
entries and phases are consistent. -/
structure Sound (w : World Addr) : Prop where
  booked : Booked w.rpc
  flushed : Flushed w.rpc
  steady : ∀ id c, w.conns id = some c → c.sock.Steady
  consistent : Consistent w.rpc w.view

theorem sound_init {w : World Addr} (h : (world packEvent).init w) : Sound w := by
  obtain ⟨hRpc, hConns⟩ := h
  have hView : w.view = fun _ => none := by
    funext id
    simp [World.view, hConns]
  constructor
  · rw [hRpc]
    exact booked_initial
  · rw [hRpc]
    intro r hEsi
    simp [initial] at hEsi
  · intro id c hc
    simp [hConns] at hc
  · rw [hRpc, hView]
    exact consistent_initial

omit [DecidableEq Addr] in
theorem view_update_conns (w : World Addr) (s : State Addr) (id : SocketId) (c : Conn Addr) :
    World.view ⟨s, Function.update w.conns id (some c)⟩ =
      Function.update w.view id (some (c.addr, c.sock.phase)) := by
  funext id'
  by_cases hId : id' = id
  · subst hId
    simp [World.view]
  · simp [World.view, hId]

omit [DecidableEq Addr] in
theorem steady_update_conns {w : World Addr} (h : ∀ id c, w.conns id = some c → c.sock.Steady)
    {id : SocketId} {c : Conn Addr} (hc : c.sock.Steady) (id' : SocketId) (c' : Conn Addr)
    (hConn : Function.update w.conns id (some c) id' = some c') : c'.sock.Steady := by
  by_cases hId : id' = id
  · subst hId
    obtain rfl : c = c' := by simpa using hConn
    exact hc
  · exact h id' c' (by simpa [hId] using hConn)

/-! ## The steps of the world -/

theorem sound_call {w : World Addr} (h : Sound w) {c : Call Addr Ev} (hCall : byItself w.rpc c) :
    Sound ((world packEvent).apply w (.call c)) where
  booked := booked_handle packEvent h.booked c
  flushed := flushed_handle packEvent h.flushed c
  steady := h.steady
  consistent := h.consistent.of_sameEntries (sameEntries_call packEvent h.booked hCall)

theorem sound_sendPacket {w : World Addr} (h : Sound w) {sockId : SocketId} {own : Bool}
    {outcome : Option Sock.ConnectRes} {addressTo : Addr} {destination : ServiceId} {ev : Ev}
    (hFresh : w.conns sockId = none)
    (hGuard : connectsLater w
      (.sendPacket sockId own outcome addressTo destination ev : Incoming Addr Ev)) :
    Sound ((world packEvent).apply w
      (.sendPacket sockId own outcome addressTo destination ev)) := by
  cases hEntry : w.rpc.mxSa2Session.lookup addressTo with
  | some r =>
      have hStep : (world packEvent).apply w
          (.sendPacket sockId own outcome addressTo destination ev) =
          { w with rpc := w.rpc.packAndAdd r (packSend packEvent destination ev) } := by
        simp [world, onSendPacket, hEntry]
      rw [hStep]
      exact ⟨booked_packAndAdd h.booked (h.booked.sa_lt _ r hEntry) _,
        flushed_packAndAdd h.flushed r _, h.steady,
        h.consistent.of_sameEntries (sameEntries_packAndAdd w.rpc r _)⟩
  | none =>
      have hOutcome := hGuard hEntry
      have hReply := sends_atOnce hOutcome own sockId addressTo "connect"
      have hEntered := entered_enter hEntry hReply sockId
      have hBooked := booked_enter h.booked hEntry hReply sockId
      have hFlushed := flushed_enter h.flushed hEntry hReply sockId
      obtain ⟨res, hRes, hOk⟩ : ∃ res, outcome = some res ∧ res ≠ .error := by
        rcases hOutcome with rfl | rfl <;> exact ⟨_, rfl, by decide⟩
      let c : Conn Addr := ⟨addressTo, Sock.connectCall own res⟩
      have hPhase : c.sock.phase = .pending := by
        rw [Sock.phase_connectCall, if_neg hOk]
      have hStep : (world packEvent).apply w
          (.sendPacket sockId own outcome addressTo destination ev) =
          ⟨(enter (fun s => (atOnce own outcome).foldl (deliver sockId addressTo "connect") s)
              w.rpc sockId addressTo).packAndAdd w.rpc.nextRef (packSend packEvent destination ev),
            Function.update w.conns sockId (some c)⟩ := by
        simp only [world, onSendPacket_of_none packEvent hEntry, hEntry, if_true]
        rw [hRes]
        rfl
      rw [hStep]
      constructor
      · exact booked_packAndAdd hBooked.1 hBooked.2 _
      · exact flushed_packAndAdd hFlushed _ _
      · exact steady_update_conns h.steady (Sock.steady_connectCall own res)
      · rw [view_update_conns, hPhase]
        exact h.consistent.opened h.booked hEntry (hEntered.packAndAdd _ _)
          (by simp [World.view, hFresh])

theorem sound_socket {w : World Addr} (h : Sound w) {id : SocketId} {c : Conn Addr}
    (hConn : w.conns id = some c) {a : Socket.Action} (reason : String)
    (hEn : socket.enabled c.sock a) (hGuard : Sock.closedByService c.sock a) :
    Sound ((world packEvent).apply w (.socket id a reason)) := by
  have hSteady := Sock.steady_apply (h.steady id c hConn) hEn hGuard
  have hView : w.view id = some (c.addr, c.sock.phase) := by simp [World.view, hConn]
  have hStep : (world packEvent).apply w (.socket id a reason) =
      ⟨(c.sock.events a).foldl (deliver id c.addr reason) w.rpc,
        Function.update w.conns id (some ⟨c.addr, socket.apply c.sock a⟩)⟩ := by
    simp [world, hConn]
  rw [hStep]
  have hConns : ∀ id' c', Function.update w.conns id
      (some ⟨c.addr, socket.apply c.sock a⟩) id' = some c' → c'.sock.Steady :=
    steady_update_conns h.steady hSteady
  rcases Sock.phase_apply (h.steady id c hConn) hEn hGuard with
    ⟨hPhase, hSilent⟩ | ⟨hPending, hPhase, hEvents⟩ | ⟨hThere, hPhase, hEvents⟩
  · -- nothing told, the same phase
    rw [foldl_deliver_silent id c.addr reason hSilent]
    refine ⟨h.booked, h.flushed, hConns, ?_⟩
    rw [view_update_conns, hPhase, ← hView, Function.update_eq_self]
    exact h.consistent
  · rw [hEvents]
    refine ⟨booked_deliver h.booked id c.addr reason .connected,
      flushed_deliver h.flushed id c.addr reason .connected, hConns, ?_⟩
    rw [view_update_conns, hPhase]
    exact h.consistent.established (hPending ▸ hView) reason
  · obtain ⟨e, hEvent, hLost⟩ : ∃ e, c.sock.events a = [e] ∧
        (e = .connectFailed ∨ e = .disconnected) := by
      rcases hEvents with hEvent | hEvent
      · exact ⟨_, hEvent, .inl rfl⟩
      · exact ⟨_, hEvent, .inr rfl⟩
    rw [hEvent]
    refine ⟨booked_deliver h.booked id c.addr reason e,
      flushed_deliver h.flushed id c.addr reason e, hConns, ?_⟩
    rw [view_update_conns, hPhase]
    exact h.consistent.lost hView hThere reason hLost

theorem sound_apply (w : World Addr) (x : Incoming Addr Ev) (h : Sound w)
    (hEn : ((world packEvent).guarded connectsLater).enabled w x) :
    Sound ((world packEvent).apply w x) := by
  obtain ⟨hEnabled, hGuard⟩ := hEn
  cases x with
  | call c => exact sound_call packEvent h hEnabled
  | sendPacket sockId own outcome addressTo destination ev =>
      exact sound_sendPacket packEvent h hEnabled hGuard
  | socket id a reason =>
      obtain ⟨c, hConn, hStep⟩ := hEnabled
      exact sound_socket packEvent h hConn reason hStep (hGuard c hConn)

/-! ## The trace only grows -/

/-- What has been put out stays in the trace. -/
def Grows (s s' : State Addr) : Prop := s.trace <+: s'.trace

omit [DecidableEq Addr] in
theorem grows_emit (s : State Addr) (o : Output Addr) : Grows s (s.emit o) :=
  List.prefix_append s.trace [o]

omit [DecidableEq Addr] in
theorem grows_notifySubscribers (s : State Addr) (e : Notification Addr) :
    Grows s (s.notifySubscribers e) := by
  have key : ∀ (subs : List RouteT) (s : State Addr),
      Grows s (subs.foldl (fun s i => s.emit (.passEvent e i.tail)) s) := by
    intro subs
    induction subs with
    | nil => exact fun s => List.prefix_refl _
    | cons i subs ih => exact fun s => (grows_emit s _).trans (ih _)
  exact key s.mxSubscribers s

omit [DecidableEq Addr] in
theorem grows_doSend (s : State Addr) (r : SessionRef) : Grows s (s.doSend r) := by
  have key : ∀ (n : Nat) (s : State Addr), Grows s (doSendLoop r n s) := by
    intro n
    induction n with
    | zero => exact fun s => List.prefix_refl _
    | succ n ih =>
        intro s
        have hFront : Grows s (s.sendFront r) := by
          rcases trace_sendFront s r with hTrace | ⟨esi, p, hTrace⟩ <;> simp [Grows, hTrace]
        exact hFront.trans (ih _)
  unfold doSend
  split
  · exact key _ s
  · exact List.prefix_refl _

omit [DecidableEq Addr] in
theorem grows_packAndAdd (s : State Addr) (r : SessionRef) (packed : Except CommonError Bytes) :
    Grows s (s.packAndAdd r packed) := by
  cases packed with
  | ok p =>
      unfold packAndAdd addSendPacket
      dsimp only
      split
      · exact grows_doSend (s.pushBack r p) r
      · exact List.prefix_refl _
  | error e => exact grows_emit s _

theorem grows_deliver (id : SocketId) (addr : Addr) (reason : String) (s : State Addr)
    (e : SocketEvent) : Grows s (deliver id addr reason s e) := by
  cases e with
  | connected =>
      simp only [deliver, onConnected]
      split
      · exact grows_emit s _
      · rename_i r _
        exact (grows_notifySubscribers s (.connected ⟨id, some addr⟩)).trans
          (grows_doSend (setEsi _ r ⟨id, some addr⟩) r)
  | connectFailed => exact grows_notifySubscribers (s.eraseSa addr) _
  | disconnected => exact grows_notifySubscribers s _
  | _ => exact List.prefix_refl _

theorem grows_foldl_deliver (id : SocketId) (addr : Addr) (reason : String)
    (es : List SocketEvent) (s : State Addr) :
    Grows s (es.foldl (deliver id addr reason) s) := by
  induction es generalizing s with
  | nil => exact List.prefix_refl _
  | cons e es ih => exact (grows_deliver id addr reason s e).trans (ih _)

/-- A packet for an address without an entry opens a connection, whatever
becomes of it. -/
theorem sendPacket_connects {w : World Addr} {a : Addr}
    (h : w.rpc.mxSa2Session.lookup a = none) (sockId : SocketId) (own : Bool)
    (outcome : Option Sock.ConnectRes) (destination : ServiceId) (ev : Ev) :
    .connect sockId a ∈ ((world packEvent).apply w
      (.sendPacket sockId own outcome a destination ev)).rpc.trace := by
  let s₀ := (w.rpc.newSession sockId none).emit (.connect sockId a)
  have hConnect : .connect sockId a ∈ s₀.trace := List.mem_append_right _ List.mem_cons_self
  have hReply := grows_foldl_deliver sockId a "connect" (atOnce own outcome) s₀
  have hEnter : Grows s₀ (enter (fun s => (atOnce own outcome).foldl
      (deliver sockId a "connect") s) w.rpc sockId a) := by
    unfold enter State.emplaceSa
    split <;> exact hReply
  simp only [world, onSendPacket_of_none packEvent h]
  exact (hEnter.trans (grows_packAndAdd _ _ _)).subset hConnect

/-! ## Every run -/

theorem Sound.live {w : World Addr} (h : Sound w) : w.Live packEvent where
  leads a r hr := by
    obtain ⟨id, p, hView, hPhase⟩ := h.consistent.live a r hr
    obtain ⟨r', hr', hEsi⟩ := h.consistent.bound id a p hView hPhase
    obtain rfl : r = r' := by
      rw [hr] at hr'
      exact Option.some.inj hr'
    obtain ⟨c, hConn, hPair⟩ : ∃ c, w.conns id = some c ∧ (c.addr, c.sock.phase) = (a, p) := by
      simpa [World.view] using hView
    obtain ⟨hAddr, rfl⟩ := Prod.mk.inj hPair
    have hOpen : c.sock.fdOpen := Sock.fdOpen_of_phase hPhase
    by_cases hEst : c.sock.phase = .established
    · rw [if_pos hEst] at hEsi
      exact .connected ⟨id, some a⟩ c hEsi hConn hAddr hOpen
        (h.flushed r (by rw [hEsi]; rfl))
    · rw [if_neg hEst] at hEsi
      have hPending : c.sock.inConnection := Sock.inConnection_of_phase hPhase hEst
      exact .pending id c hConn hAddr hOpen hPending hEsi
  ledger := h.booked.ledger
  opens _ ha sockId own outcome destination ev :=
    sendPacket_connects packEvent ha sockId own outcome destination ev

/--
**The session invariant.** In every run in which no connect fails inside the
`Connect` and nobody closes a socket past `closeSocket`: every entry of
`mx_sa2Session` leads to a pending connect or to a valid `esi` with an open
socket and nothing waiting, every accepted packet has been handed over or waits
in its cache, and a packet for any other address opens a connection.
-/
theorem sessions_live {w : World Addr}
    (h : ((world packEvent).guarded connectsLater).Reachable w) : w.Live packEvent := by
  apply Sound.live
  apply Machine.Reachable.invariant _ _ h
  · exact fun w hInit => sound_init packEvent hInit
  · exact fun w x hSound hEn => sound_apply packEvent w x hSound hEn

/-- The world before anything has happened. -/
def World.start : World Nat := ⟨initial, fun _ => none⟩

/-- A packet opens a connection; the connect succeeds, and the worker tells. -/
def sendThenConnected : List (Incoming Nat Bytes) :=
  .sendPacket 5 false (some .inProgress) 80 [0x64] [1] :: .socket 5 .kernelUp "" ::
    .socket 5 (.poll ⟨false, false, true⟩) "" ::
    List.replicate 7 (.socket 5 (.worker .none) "")

theorem sendThenConnected_live :
    let w := (world Except.ok).exec World.start sendThenConnected
    w.rpc.mxSa2Session.lookup 80 = some 0 ∧ w.rpc.handed 0 = [[0x73, 0x01, 0x64, 0x01]] ∧
      w.Live Except.ok := by
  have hPath : ((world Except.ok).guarded connectsLater).Path World.start
      sendThenConnected := by
    refine ⟨⟨rfl, fun _ => .inr rfl⟩, ?_⟩
    iterate 9
      refine ⟨⟨⟨_, rfl, by decide⟩, fun c _ => trivial⟩, ?_⟩
    trivial
  have hStart : ((world Except.ok).guarded connectsLater).Reachable World.start :=
    .init ⟨rfl, fun _ => rfl⟩
  have hReach := hStart.path hPath
  rw [Machine.exec_guarded] at hReach
  exact ⟨by decide, by decide, sessions_live Except.ok hReach⟩

/-- The connect fails inside the `Connect`: the session is entered behind its
`ConnectFailed`, and every packet for the address will wait in it. -/
theorem connect_failed_inside :
    ¬ ∀ w : World Nat, (world (Except.ok : Bytes → _)).Reachable w → w.Live Except.ok := by
  intro h
  let x : Incoming Nat Bytes := .sendPacket 5 false (some .error) 80 [0x64] [1]
  have hStart : (world (Except.ok : Bytes → _)).Reachable World.start :=
    .init ⟨rfl, fun _ => rfl⟩
  have hReach := hStart.step (show (world Except.ok).enabled World.start x from rfl)
  have hClosed : ∀ id c, ((world Except.ok).apply World.start x).conns id = some c →
      c.sock.fdOpen = false := by
    intro id c hConn
    have hConns : ((world Except.ok).apply World.start x).conns =
        Function.update (fun _ => none) 5 (some ⟨80, Sock.connectCall false .error⟩) := rfl
    rw [hConns] at hConn
    by_cases hId : id = 5
    · subst hId
      obtain rfl : _ = c := by simpa using hConn
      decide
    · simp [hId] at hConn
  cases (h _ hReach).leads 80 0 (by decide) with
  | pending id c hConn hAddr hOpen hPending hEsi => simp [hClosed id c hConn] at hOpen
  | connected esi c hEsi hConn hAddr hOpen hFlushed => simp [hClosed esi.mId c hConn] at hOpen

end Megatron.Rpc
