import Mathlib.Data.List.AList
import Megatron.Corelib.Route

/-!
# The RPC service

The RPC service keeps one session per peer: those it accepted are found by
their socket, those it opened by the address they were opened for.  A packet
for an address without a session opens one; until Oscar reports the
connection its packets wait in `m_OutEventCache`, and `S->esi` stays invalid.

The handlers run on the caller's thread, so this module gives each of them as
a function of the state, cut at the places where it leaves the service: the
lookup, the `Connect` it sends (a synchronous call, during which Oscar may
call back), the `emplace`, and the packets it hands to Oscar.  A
`CommonError` that leaves a handler is caught and logged by
`ListenerSimple::listenToEvent`; it appears in the trace.

Two histories are kept along: `trace`, what the service did, and `accepted`,
the packets that entered a cache.

## Main results

* `sends_doSend` — the sending loop moves packets from the front of a cache
  into the trace and changes nothing else.
* `cache_doSend` — it empties the cache of a connected session.
-/

namespace Megatron.Rpc

open Megatron.Corelib

/-- A session object, by its place in the order of allocation. -/
abbrev SessionRef := Nat

variable {Addr : Type}

/-- What the service reads of an `epoll_socket_info`: its id, and the address
of `request_for_connect` for a socket that was opened by a request. -/
structure Esi (Addr : Type) where
  mId : SocketId
  requestForConnect : Option Addr
  deriving DecidableEq

/-- `RPC::Session`. -/
structure Session (Addr : Type) where
  socketId : SocketId
  mOutEventCache : List Bytes
  esi : Option (Esi Addr)
  deriving DecidableEq

/-- The events passed to the subscribers. The address of `Connected` is a
local of the handler that is never assigned, so it carries none. -/
inductive Notification (Addr : Type) where
  | connected (esi : Esi Addr)
  | connectFailed (addr : Addr)
  | disconnected (esi : Esi Addr) (addr : Addr) (reason : String)
  | accepted (esi : Esi Addr)
  | disaccepted (esi : Esi Addr) (reason : String)
  deriving DecidableEq

/-- The handlers a `CommonError` can leave. -/
inductive Handler where
  | onSendPacket
  | onPassPacket
  | onConnected
  | onConnectFailed
  | onDisconnected
  deriving DecidableEq

/-- What the service does to the outside, and the errors that end a handler. -/
inductive Output (Addr : Type) where
  | connect (socketId : SocketId) (addr : Addr)
  | sendPacket (session : SessionRef) (esi : Esi Addr) (buf : Bytes)
  | passEvent (e : Notification Addr) (route : RouteT)
  | commonError (handler : Handler) (what : String)
  deriving DecidableEq

/-- The service: `__sessions`, the session objects, and the histories. -/
structure State (Addr : Type) where
  heap : SessionRef → Session Addr
  nextRef : SessionRef
  mxSocketId2session : AList fun _ : SocketId => SessionRef
  mxSa2Session : AList fun _ : Addr => SessionRef
  mxSubscribers : List RouteT
  networkInitialized : Bool
  trace : List (Output Addr)
  accepted : List (SessionRef × Bytes)

/-- The service after its constructor. -/
def State.initial : State Addr where
  heap _ := ⟨0, [], none⟩
  nextRef := 0
  mxSocketId2session := ∅
  mxSa2Session := ∅
  mxSubscribers := []
  networkInitialized := false
  trace := []
  accepted := []

namespace State

variable [DecidableEq Addr]

/-! ## The steps the handlers are made of -/

def emit (s : State Addr) (o : Output Addr) : State Addr :=
  { s with trace := s.trace ++ [o] }

def setSession (s : State Addr) (r : SessionRef) (S : Session Addr) : State Addr :=
  { s with heap := Function.update s.heap r S }

/-- `new Session(sockId, esi)`; the new object is `s.nextRef`. -/
def newSession (s : State Addr) (sockId : SocketId) (esi : Option (Esi Addr)) : State Addr :=
  { s.setSession s.nextRef ⟨sockId, [], esi⟩ with nextRef := s.nextRef + 1 }

/-- `mx_sa2Session.emplace`: an entry that is there stays. -/
def emplaceSa (s : State Addr) (addr : Addr) (r : SessionRef) : State Addr :=
  if (s.mxSa2Session.lookup addr).isSome then s
  else { s with mxSa2Session := s.mxSa2Session.insert addr r }

/-- `mx_socketId2session.emplace`. -/
def emplaceId (s : State Addr) (sockId : SocketId) (r : SessionRef) : State Addr :=
  if (s.mxSocketId2session.lookup sockId).isSome then s
  else { s with mxSocketId2session := s.mxSocketId2session.insert sockId r }

def eraseSa (s : State Addr) (addr : Addr) : State Addr :=
  { s with mxSa2Session := s.mxSa2Session.erase addr }

def eraseId (s : State Addr) (sockId : SocketId) : State Addr :=
  { s with mxSocketId2session := s.mxSocketId2session.erase sockId }

/-- `S->esi = E->esi`. -/
def setEsi (s : State Addr) (r : SessionRef) (esi : Esi Addr) : State Addr :=
  s.setSession r { s.heap r with esi := some esi }

/-- `S->m_OutEventCache.push_back(P)`. -/
def pushBack (s : State Addr) (r : SessionRef) (p : Bytes) : State Addr :=
  { s.setSession r
      { s.heap r with mOutEventCache := (s.heap r).mOutEventCache ++ [p] } with
    accepted := s.accepted ++ [(r, p)] }

/-- One iteration of `doSend`: `d[0]` is popped and handed to Oscar. -/
def sendFront (s : State Addr) (r : SessionRef) : State Addr :=
  match (s.heap r).esi, (s.heap r).mOutEventCache with
  | some esi, p :: d =>
      (s.setSession r { s.heap r with mOutEventCache := d }).emit (.sendPacket r esi p)
  | _, _ => s

/-- The loop of `doSend`; every iteration takes a packet off the cache. -/
def doSendLoop (r : SessionRef) : Nat → State Addr → State Addr
  | 0, s => s
  | n + 1, s => doSendLoop r n (s.sendFront r)

/-- `doSend`. -/
def doSend (s : State Addr) (r : SessionRef) : State Addr :=
  if (s.heap r).esi.isSome then doSendLoop r (s.heap r).mOutEventCache.length s else s

/-- `addSendPacket`. -/
def addSendPacket (s : State Addr) (r : SessionRef) (p : Bytes) : State Addr :=
  let s := s.pushBack r p
  if (s.heap r).esi.isSome then s.doSend r else s

/-- The loops over the subscribers: each gets the event with the front of its
route popped. -/
def notifySubscribers (s : State Addr) (e : Notification Addr) : State Addr :=
  s.mxSubscribers.foldl (fun s i => s.emit (.passEvent e i.tail)) s

/-- The set `doSendAll` collects: the sessions of both maps. -/
def registered (s : State Addr) : List SessionRef :=
  s.mxSocketId2session.entries.map Sigma.snd ++ s.mxSa2Session.entries.map Sigma.snd

/-! ## The handlers -/

variable {Ev : Type} (packEvent : Ev → Except CommonError Bytes)

/-- The packet of a `SendPacket`: `'s'`, the destination, the event. -/
def packSend (destination : ServiceId) (ev : Ev) : Except CommonError Bytes := do
  let e ← packEvent ev
  return putPN 0x73 ++ putPSTR destination ++ e

/-- The packet of a `PassPacket`: `'p'`, the event. -/
def packPass (ev : Ev) : Except CommonError Bytes := do
  let e ← packEvent ev
  return putPN 0x70 ++ e

/-- The end of `on_SendPacket`, with the session found or made. -/
def packAndAdd (s : State Addr) (r : SessionRef) (packed : Except CommonError Bytes) :
    State Addr :=
  match packed with
  | .ok p => s.addSendPacket r p
  | .error e => s.emit (.commonError .onSendPacket e.what)

/-- `on_SendPacket`. `sockId` is what `iUtils->getSocketId()` returns, and
`reply` what the synchronous `Connect` does to the service before it
returns. -/
def onSendPacket (reply : State Addr → State Addr) (s : State Addr) (sockId : SocketId)
    (addressTo : Addr) (destination : ServiceId) (ev : Ev) : State Addr :=
  match s.mxSa2Session.lookup addressTo with
  | some r => s.packAndAdd r (packSend packEvent destination ev)
  | none =>
      let r := s.nextRef
      let s := reply ((s.newSession sockId none).emit (.connect sockId addressTo))
      (s.emplaceSa addressTo r).packAndAdd r (packSend packEvent destination ev)

/-- `on_PassPacket`; the event is packed before the session is looked up. -/
def onPassPacket (s : State Addr) (socketIdTo : SocketId) (ev : Ev) : State Addr :=
  match packPass packEvent ev with
  | .error e => s.emit (.commonError .onPassPacket e.what)
  | .ok p =>
      match s.mxSocketId2session.lookup socketIdTo with
      | none => s.emit (.commonError .onPassPacket "Session not found")
      | some r => s.addSendPacket r p

/-- `on_Connected`. A socket without a request never gets this event; the
source dereferences its `request_for_connect` unchecked. -/
def onConnected (s : State Addr) (esi : Esi Addr) : State Addr :=
  match esi.requestForConnect with
  | none => s
  | some addr =>
      match s.mxSa2Session.lookup addr with
      | none => s.emit
          (.commonError .onConnected "2cannot find RPC session on connected")
      | some r => ((s.notifySubscribers (.connected esi)).setEsi r esi).doSend r

/-- `doSendAll`, over the collected sessions in the order of the set. -/
def doSendAll (s : State Addr) (order : List SessionRef) : State Addr :=
  order.foldl doSend s

/-- `on_NotifyBindAddress`. -/
def onNotifyBindAddress (s : State Addr) (order : List SessionRef) : State Addr :=
  { s with networkInitialized := true }.doSendAll order

/-- `on_Accepted`. -/
def onAccepted (s : State Addr) (esi : Esi Addr) : State Addr :=
  let r := s.nextRef
  ((s.newSession esi.mId (some esi)).emplaceId esi.mId r).notifySubscribers (.accepted esi)

/-- `on_ConnectFailed`; `addr` is the address in the event. -/
def onConnectFailed (s : State Addr) (esi : Esi Addr) (addr : Addr) : State Addr :=
  match esi.requestForConnect with
  | none => s.emit (.commonError .onConnectFailed "if(!e->esi->request_for_connect.valid())")
  | some requested => (s.eraseSa requested).notifySubscribers (.connectFailed addr)

/-- `on_Disconnected`; the request is checked in the loop over the
subscribers. -/
def onDisconnected (s : State Addr) (esi : Esi Addr) (reason : String) : State Addr :=
  match esi.requestForConnect with
  | none => s.emit (.commonError .onDisconnected "if(!e->esi->request_for_connect.valid())")
  | some addr => (s.notifySubscribers (.disconnected esi addr reason)).eraseSa addr

/-- `on_Disaccepted`. -/
def onDisaccepted (s : State Addr) (esi : Esi Addr) (reason : String) : State Addr :=
  (s.notifySubscribers (.disaccepted esi reason)).eraseId esi.mId

def onSubscribeNotifications (s : State Addr) (route : RouteT) : State Addr :=
  { s with mxSubscribers := s.mxSubscribers.insert route }

def onUnsubscribeNotifications (s : State Addr) (route : RouteT) : State Addr :=
  { s with mxSubscribers := s.mxSubscribers.filter (· ≠ route) }

/-! ## Packets handed, packets waiting, packets accepted -/

omit [DecidableEq Addr]

/-- The packets handed to Oscar for a session. -/
def handed (s : State Addr) (r : SessionRef) : List Bytes :=
  s.trace.filterMap fun
    | .sendPacket r' _ p => if r' = r then some p else none
    | _ => none

/-- The packets waiting in the cache of a session. -/
def cache (s : State Addr) (r : SessionRef) : List Bytes := (s.heap r).mOutEventCache

/-- The packets of one session out of a list. -/
def forSession (l : List (SessionRef × Bytes)) (r : SessionRef) : List Bytes :=
  l.filterMap fun a => if a.1 = r then some a.2 else none

/-- The packets accepted for a session. -/
def acceptedFor (s : State Addr) (r : SessionRef) : List Bytes := forSession s.accepted r

/-- `s'` is `s` after packets have moved from the fronts of caches into the
trace. -/
structure Sends (s s' : State Addr) : Prop where
  nextRef : s'.nextRef = s.nextRef
  mxSocketId2session : s'.mxSocketId2session = s.mxSocketId2session
  mxSa2Session : s'.mxSa2Session = s.mxSa2Session
  accepted : s'.accepted = s.accepted
  socketId : ∀ r, (s'.heap r).socketId = (s.heap r).socketId
  esi : ∀ r, (s'.heap r).esi = (s.heap r).esi
  packets : ∀ r, s'.handed r ++ s'.cache r = s.handed r ++ s.cache r
  suffix : ∀ r, s'.cache r <:+ s.cache r

theorem Sends.refl (s : State Addr) : Sends s s :=
  ⟨rfl, rfl, rfl, rfl, fun _ => rfl, fun _ => rfl, fun _ => rfl, fun _ => List.suffix_refl _⟩

theorem Sends.trans {s s' s'' : State Addr} (h : Sends s s') (h' : Sends s' s'') :
    Sends s s'' where
  nextRef := h'.nextRef.trans h.nextRef
  mxSocketId2session := h'.mxSocketId2session.trans h.mxSocketId2session
  mxSa2Session := h'.mxSa2Session.trans h.mxSa2Session
  accepted := h'.accepted.trans h.accepted
  socketId r := (h'.socketId r).trans (h.socketId r)
  esi r := (h'.esi r).trans (h.esi r)
  packets r := (h'.packets r).trans (h.packets r)
  suffix r := (h'.suffix r).trans (h.suffix r)

/-- An output that is no packet. -/
theorem sends_emit (s : State Addr) {o : Output Addr}
    (ho : ∀ r esi p, o ≠ .sendPacket r esi p) : Sends s (s.emit o) := by
  refine ⟨rfl, rfl, rfl, rfl, fun _ => rfl, fun _ => rfl, fun r => ?_,
    fun _ => List.suffix_refl _⟩
  have hHanded : (s.emit o).handed r = s.handed r := by
    cases o with
    | sendPacket r' esi p => exact absurd rfl (ho r' esi p)
    | _ => simp [handed, emit]
  rw [hHanded]
  rfl

theorem sends_notifySubscribers (s : State Addr) (e : Notification Addr) :
    Sends s (s.notifySubscribers e) := by
  have key : ∀ (subs : List RouteT) (s : State Addr),
      Sends s (subs.foldl (fun s i => s.emit (.passEvent e i.tail)) s) := by
    intro subs
    induction subs with
    | nil => exact fun s => Sends.refl s
    | cons i subs ih => exact fun s => (sends_emit s (by simp)).trans (ih _)
  exact key s.mxSubscribers s

/-- A front packet is there to be sent: it moves into the trace. -/
theorem sendFront_cons {s : State Addr} {r : SessionRef} {esi : Esi Addr} {p : Bytes}
    {d : List Bytes} (hEsi : (s.heap r).esi = some esi) (hCache : s.cache r = p :: d) :
    s.sendFront r = (s.setSession r { s.heap r with mOutEventCache := d }).emit
      (.sendPacket r esi p) := by
  unfold sendFront
  rw [hEsi, show (s.heap r).mOutEventCache = p :: d from hCache]

theorem sendFront_nil {s : State Addr} {r : SessionRef}
    (h : (s.heap r).esi = none ∨ s.cache r = []) : s.sendFront r = s := by
  unfold sendFront
  split
  · rename_i esi p d hEsi hCache
    rcases h with h | h
    · rw [hEsi] at h
      cases h
    · rw [cache, hCache] at h
      cases h
  · rfl

theorem sends_sendFront (s : State Addr) (r : SessionRef) : Sends s (s.sendFront r) := by
  cases hEsi : (s.heap r).esi with
  | none => rw [sendFront_nil (.inl hEsi)]; exact Sends.refl s
  | some esi =>
      cases hCache : s.cache r with
      | nil => rw [sendFront_nil (.inr hCache)]; exact Sends.refl s
      | cons p d =>
          rw [sendFront_cons hEsi hCache]
          rw [cache] at hCache
          refine ⟨rfl, rfl, rfl, rfl, fun r' => ?_, fun r' => ?_, fun r' => ?_, fun r' => ?_⟩
          all_goals by_cases hr : r' = r
          all_goals simp [emit, setSession, handed, cache, hr, hCache]
          · exact Ne.symm hr

theorem trace_sendFront (s : State Addr) (r : SessionRef) :
    (s.sendFront r).trace = s.trace ∨
      ∃ esi p, (s.sendFront r).trace = s.trace ++ [.sendPacket r esi p] := by
  unfold sendFront
  split
  · exact .inr ⟨_, _, rfl⟩
  · exact .inl rfl

theorem cache_sendFront (s : State Addr) (r : SessionRef) (h : (s.heap r).esi.isSome) :
    (s.sendFront r).cache r = (s.cache r).tail := by
  obtain ⟨esi, hEsi⟩ := Option.isSome_iff_exists.1 h
  cases hCache : s.cache r with
  | nil => rw [sendFront_nil (.inr hCache), hCache]; rfl
  | cons p d =>
      rw [sendFront_cons hEsi hCache]
      simp [emit, setSession, cache]

theorem sends_doSendLoop (r : SessionRef) :
    ∀ (n : Nat) (s : State Addr), Sends s (doSendLoop r n s) := by
  intro n
  induction n with
  | zero => exact fun s => Sends.refl s
  | succ n ih => exact fun s => (sends_sendFront s r).trans (ih _)

/-- The loop runs as often as there are packets, so none is left. -/
theorem cache_doSendLoop (r : SessionRef) :
    ∀ (n : Nat) (s : State Addr), (s.heap r).esi.isSome → (s.cache r).length ≤ n →
      (doSendLoop r n s).cache r = [] := by
  intro n
  induction n with
  | zero => exact fun s _ hLen => List.length_eq_zero_iff.1 (Nat.le_zero.1 hLen)
  | succ n ih =>
      intro s hEsi hLen
      refine ih _ ?_ ?_
      · rw [(sends_sendFront s r).esi]
        exact hEsi
      · rw [cache_sendFront s r hEsi, List.length_tail]
        omega

theorem sends_doSend (s : State Addr) (r : SessionRef) : Sends s (s.doSend r) := by
  unfold doSend
  split
  · exact sends_doSendLoop r _ s
  · exact Sends.refl s

/-- `doSend` leaves no packet in the cache of a connected session. -/
theorem cache_doSend {s : State Addr} {r : SessionRef} (h : (s.heap r).esi.isSome) :
    (s.doSend r).cache r = [] := by
  rw [doSend, if_pos h]
  exact cache_doSendLoop r _ s h (Nat.le_refl _)

theorem sends_doSendAll (order : List SessionRef) :
    ∀ s : State Addr, Sends s (s.doSendAll order) := by
  induction order with
  | nil => exact fun s => Sends.refl s
  | cons r order ih => exact fun s => (sends_doSend s r).trans (ih _)

end State

end Megatron.Rpc
