import Megatron.Dfs.Event
import Megatron.Rpc.Service

/-!
# Nodes of the cloud: instance, RPC packets, `dfsReferrer`, `dfsCaps`

Every node runs an instance that hands events to its services, the RPC
service, and the referrer, which keeps one uplink; the top server has none and
runs the services requests are for, `dfsCaps` first.

This module gives the functions an event passes through on its way, each as
the messages it hands on.  An exception ends a handler before it hands on
anything; a `CommonError` is caught and logged by the listener's loop.

A route is pushed and popped by several hands: `sendEvent` pushes the service,
`passEvent` pops what it passes to, the receiver of an `'s'` packet pushes the
socket and the service, the receiver of a `'p'` packet pops the service, and
whoever answers pops one more by hand (`poppedFrontRoute`).
-/

namespace Megatron.Dfs

open Megatron.Corelib Megatron.Rpc

/-! ## Places and messages -/

namespace ServiceEnum

def rpc : ServiceId := ascii "RPC"

def objectProxyPolled : ServiceId := ascii "ObjectProxyPolled"

def objectProxyThreaded : ServiceId := ascii "ObjectProxyThreaded"

def dfsReferrer : ServiceId := ascii "DFSReferrer"

def dfsCaps : ServiceId := ascii "DFSCaps"

end ServiceEnum

/-- What can be on its way inside a node: an event for a service, one of the
events that wrap another, a packet Oscar has received, an event for a
listener, or the order to close a socket. -/
inductive Content (Addr B : Type) where
  | event (svs : ServiceId) (e : Event Addr B)
  | sendPacket (addressTo : Addr) (destination : ServiceId) (ev : Event Addr B)
  | passPacket (socketIdTo : SocketId) (e : Event Addr B)
  | packetOnAcceptor (esi : Esi Addr) (buf : Bytes)
  | packetOnConnector (esi : Esi Addr) (buf : Bytes)
  | incomingOnAcceptor (svs : ServiceId) (esi : Esi Addr) (e : Event Addr B)
  | incomingOnConnector (svs : ServiceId) (esi : Esi Addr) (addr : Addr) (e : Event Addr B)
  | listenToEvent (id : Nat) (e : Event Addr B)
  | close (esi : Esi Addr) (reason : String)
  deriving DecidableEq

variable {Addr B : Type}

/-! ## `CInstance` -/

/-- `passEvent`. -/
def passEvent (e : Event Addr B) : Except CommonError (Content Addr B) :=
  match e.route with
  | [] => .error ⟨"route_t::pop_front: m_container.size()==0 %s"⟩
  | .localService id :: route => .ok (.event id { e with route := route })
  | .listener id :: route => .ok (.listenToEvent id { e with route := route })
  | .objectHandlerPolled _ :: _ => .ok (.event ServiceEnum.objectProxyPolled e)
  | .objectHandlerThreaded _ :: _ => .ok (.event ServiceEnum.objectProxyThreaded e)
  | .remoteAddr addr :: route => .ok (.passPacket addr { e with route := route })
  | .socketRoute _ :: _ => .error ⟨"passEvent: invalid route type %d"⟩
  | .thread _ :: _ => .error ⟨"passEvent: invalid route type %d"⟩

/-- `e->route.push_front(r)`. -/
def Event.pushFront (e : Event Addr B) (r : Route) : Event Addr B :=
  { e with route := r :: e.route }

/-- `sendEvent` to a service of the same node. -/
def sendEvent (svs : ServiceId) (e : Event Addr B) : Content Addr B :=
  .event svs (e.pushFront (.localService svs))

/-- `sendEvent` to a service of another node. -/
def sendEventTo (addr : Addr) (svs : ServiceId) (e : Event Addr B) : Content Addr B :=
  .sendPacket addr svs e

def poppedFrontRoute : RouteT → Except CommonError RouteT
  | [] => .error ⟨"route_t::pop_front: m_container.size()==0 %s"⟩
  | _ :: route => .ok route

variable [LinearOrder Addr] (c : Codec Addr B)

/-! ## RPC: packets received -/

/-- The common part of `on_PacketOnAcceptor` and `on_PacketOnConnector`:
`incoming` is the event each of them sends to the service, `what` its error
for an event that is not for a service. -/
def onPacket (incoming : ServiceId → Event Addr B → Except CommonError (Content Addr B))
    (what : String) (esi : Esi Addr) : Reader (List (Content Addr B)) := do
  let direction := (← getPN).toInt64.toInt32
  if direction = 0x70 then do
    let e ← unpackEvent c
    match e.route with
    | [] => throw ⟨"route_t::pop_front: m_container.size()==0 %s"⟩
    | .localService id :: route => do return [← incoming id { e with route := route }]
    | _ :: _ => throw ⟨what⟩
  else if direction = 0x73 then do
    let dst ← getPSTR
    let e ← unpackEvent c
    let e := (e.pushFront (.remoteAddr esi.mId)).pushFront (.localService dst)
    return [← incoming dst e]
  else return []

/-- The result of reading a packet. -/
def readPacket (p : Reader (List (Content Addr B))) (buf : Bytes) :
    Except CommonError (List (Content Addr B)) := do
  let (out, _) ← p (.ofBytes buf)
  return out

/-- `on_PacketOnAcceptor`. -/
def onPacketOnAcceptor (esi : Esi Addr) (buf : Bytes) :
    Except CommonError (List (Content Addr B)) :=
  readPacket (onPacket c (fun svs e => .ok (.incomingOnAcceptor svs esi e))
    "!(r->type==Route::LOCALSERVICE) %s" esi) buf

/-- `on_PacketOnConnector`. -/
def onPacketOnConnector (esi : Esi Addr) (buf : Bytes) :
    Except CommonError (List (Content Addr B)) :=
  readPacket (onPacket c (fun svs e =>
    match esi.requestForConnect with
    | none => .error ⟨"if(!E->esi->request_for_connect.valid())"⟩
    | some addr => .ok (.incomingOnConnector svs esi addr e))
    "!(r->type==Route::LOCALSERVICE %d) %s %s %s %s " esi) buf

/-! ## `ToplinkDeliverREQ` and `ToplinkDeliverRSP` -/

/-- `ToplinkDeliverREQ`, with its route. -/
structure ToplinkDeliverREQ where
  route : RouteT
  destinationService : ServiceId
  eventData : Bytes
  uuid : Finset GlobalCookie

/-- The request as an event. -/
def ToplinkDeliverREQ.event (e : ToplinkDeliverREQ) : Event Addr B :=
  ⟨e.route, .toplinkDeliverREQ e.destinationService e.eventData e.uuid⟩

/-- `getEvent`. -/
def getEvent (eventData : Bytes) : Except CommonError (Event Addr B) := do
  let (e, _) ← unpackEvent c (.ofBytes eventData)
  return e

/-- The constructor of `ToplinkDeliverREQ`. -/
def newToplinkDeliverREQ (destinationService : ServiceId) (e : Event Addr B) (r : RouteT) :
    Except CommonError ToplinkDeliverREQ := do
  let eventData ← packEvent c e
  return ⟨r, destinationService, eventData, ∅⟩

/-- The constructor of `ToplinkDeliverRSP`. -/
def newToplinkDeliverRSP (e : Event Addr B) (r : RouteT) :
    Except CommonError (Event Addr B) := do
  let eventData ← packEvent c e
  return ⟨r, .toplinkDeliverRSP eventData⟩

/-! ## `dfsReferrer` -/

/-- What the referrer reads of its node: the cookie of the instance, eight
random bytes, whether it is the top server, and its uplink when it has one. -/
structure Node (Addr : Type) where
  globalCookie : GlobalCookie
  length_globalCookie : globalCookie.length = 8
  mIsTopServer : Bool
  uplink : Option Addr

/-- `sendToplinkReq`. On the top server a request for the referrer itself is
sent a second time, its route longer by one. -/
def sendToplinkReq (n : Node Addr) (uplink : Addr) (ee : ToplinkDeliverREQ) :
    List (Content Addr B) :=
  if n.mIsTopServer then
    if ee.destinationService = ServiceEnum.dfsReferrer then
      let e : Event Addr B := ee.event.pushFront (.localService ee.destinationService)
      [.event ee.destinationService e, sendEvent ee.destinationService e]
    else if ee.destinationService = ServiceEnum.dfsCaps then
      [sendEvent ServiceEnum.dfsCaps ee.event]
    else [sendEvent ee.destinationService ee.event]
  else
    let ee := { ee with uuid := insert n.globalCookie ee.uuid }
    [sendEventTo uplink ServiceEnum.dfsReferrer ee.event]

/-- `on_ToplinkDeliverRSP`. -/
def onToplinkDeliverRSP (route : RouteT) (eventData : Bytes) :
    Except CommonError (List (Content Addr B)) :=
  if route ≠ [] then do return [← passEvent ⟨route, .toplinkDeliverRSP eventData⟩]
  else do
    let e ← getEvent c eventData
    return [← passEvent e]

/-- `on_ToplinkDeliverREQ`; `acc` is the socket of a request that came on an
acceptor. A carried event for the referrer of the top server is handled in
place by `handleEvent`; here it has a turn of its own. -/
def onToplinkDeliverREQ (n : Node Addr) (eToplink : ToplinkDeliverREQ)
    (acc : Option (Esi Addr)) : Except CommonError (List (Content Addr B)) :=
  if n.mIsTopServer then
    if eToplink.destinationService = ServiceEnum.dfsCaps then
      .ok [sendEvent ServiceEnum.dfsCaps eToplink.event]
    else if eToplink.destinationService = ServiceEnum.dfsReferrer then do
      let z ← getEvent c eToplink.eventData
      return [.event ServiceEnum.dfsReferrer z]
    else .ok [sendEvent eToplink.destinationService eToplink.event]
  else
    let forward : Except CommonError (List (Content Addr B)) :=
      let eToplink := { eToplink with uuid := insert n.globalCookie eToplink.uuid }
      match n.uplink with
      | some uplink => .ok (sendToplinkReq n uplink eToplink)
      | none => .error ⟨"%s !if(hasUL()) %s %d"⟩
    match acc with
    | some esi =>
        if n.globalCookie ∈ eToplink.uuid then .ok [.close esi "ciclic uuid"] else forward
    | none =>
        if eToplink.uuid ≠ ∅ then .error ⟨"if(ee->uuid.size()) "⟩ else forward

namespace DfsReferrer

/-- `handleEvent`, for the two events of the toplink. -/
def handleEvent (n : Node Addr) (e : Event Addr B) :
    Except CommonError (List (Content Addr B)) :=
  match e.body with
  | .toplinkDeliverRSP eventData => onToplinkDeliverRSP c e.route eventData
  | .toplinkDeliverREQ destinationService eventData uuid =>
      onToplinkDeliverREQ c n ⟨e.route, destinationService, eventData, uuid⟩ none
  | _ => .ok []

/-- `on_IncomingOnConnector`. -/
def onIncomingOnConnector (e : Event Addr B) : Except CommonError (List (Content Addr B)) :=
  match e.body with
  | .toplinkDeliverRSP eventData => onToplinkDeliverRSP c e.route eventData
  | _ => .ok []

/-- `on_IncomingOnAcceptor`. -/
def onIncomingOnAcceptor (n : Node Addr) (esi : Esi Addr) (e : Event Addr B) :
    Except CommonError (List (Content Addr B)) :=
  match e.body with
  | .toplinkDeliverRSP _ => do return [← passEvent e]
  | .toplinkDeliverREQ destinationService eventData uuid =>
      onToplinkDeliverREQ c n ⟨e.route, destinationService, eventData, uuid⟩ (some esi)
  | _ => .ok []

end DfsReferrer

/-! ## The services that answer requests -/

/-- The two tables of `dfsCaps`, as the referrers found near an address. -/
structure Caps (Addr : Type) where
  referrerNodes : Addr → List Addr
  cloudRoots : Addr → List Addr

/-- Where `on_GetReferrersREQ` and `on_GetCloudRootsREQ` end: the answer
carries the route of the carried event, and travels on the route of the
request, popped once. -/
def answerToplink (answer : Event Addr B) (eToplink : ToplinkDeliverREQ) :
    Except CommonError (List (Content Addr B)) := do
  let rsp ← newToplinkDeliverRSP c answer (← poppedFrontRoute eToplink.route)
  return [← passEvent rsp]

namespace DfsCaps

/-- `on_GetReferrersREQ`, the body of its answer: every referrer once. -/
def onGetReferrersREQ (caps : Caps Addr) (externalListenAddr : Finset Addr) :
    Option (Body Addr B) :=
  if externalListenAddr = ∅ then none
  else
    let sv := (walk externalListenAddr).flatMap caps.referrerNodes
    some (.getReferrersRSP sv.eraseDups)

/-- `on_GetCloudRootsREQ`, the body of its answer. -/
def onGetCloudRootsREQ (caps : Caps Addr) (externalListenAddr : Finset Addr) :
    Option (Body Addr B) :=
  if externalListenAddr = ∅ then none
  else
    let sv := (walk externalListenAddr).flatMap caps.cloudRoots
    some (.getCloudRootsRSP sv)

/-- The dispatch of `on_ToplinkDeliverREQ`; the registrations are not
answered. -/
def answer (caps : Caps Addr) : Body Addr B → Option (Body Addr B)
  | .getReferrersREQ addrs => onGetReferrersREQ caps addrs
  | .getCloudRootsREQ addrs => onGetCloudRootsREQ caps addrs
  | _ => none

end DfsCaps

/-- `on_ToplinkDeliverREQ` of a service that answers bodies by `answer`. -/
def serveToplink (answer : Body Addr B → Option (Body Addr B)) (eToplink : ToplinkDeliverREQ) :
    Except CommonError (List (Content Addr B)) := do
  let z ← getEvent c eToplink.eventData
  match answer z.body with
  | none => return []
  | some b => answerToplink c ⟨z.route, b⟩ eToplink

/-! ## Packets read -/

omit [LinearOrder Addr] in
theorem readPacket_front {p : Reader (List (Content Addr B))} {buf : Bytes}
    {out : List (Content Addr B)} (h : Front p buf out) : readPacket p buf = .ok out := by
  obtain ⟨b, hRun⟩ := h (.ofBytes buf) (InBuffer.rest_ofBytes buf)
  simp only [readPacket, hRun]
  rfl

/-- The receiver of an `'s'` packet pushes its socket and the service. -/
theorem front_onPacket_send {incoming : ServiceId → Event Addr B → Except CommonError
      (Content Addr B)} {what : String} {esi : Esi Addr} {dst : ServiceId} {enc : Bytes}
    {e : Event Addr B} {out : Content Addr B} (hDst : dst.length < 2 ^ 64)
    (hEvent : Front (unpackEvent c) enc e)
    (hOut : incoming dst ((e.pushFront (.remoteAddr esi.mId)).pushFront (.localService dst)) =
      .ok out) :
    Front (onPacket c incoming what esi) (putPN 0x73 ++ putPSTR dst ++ enc) [out] := by
  rw [List.append_assoc]
  refine (reads_getPN 0x73).bindFront ?_
  have hS : (0x73 : UInt64).toInt64.toInt32 = 0x73 := by decide
  simp only [hS, if_true]
  refine (reads_getPSTR hDst).bindFront ?_
  intro b hb
  obtain ⟨b', hRun⟩ := hEvent b hb
  refine ⟨b', ?_⟩
  show (unpackEvent c b).bind _ = _
  rw [hRun]
  simp only [Except.bind, hOut]
  rfl

/-- The receiver of a `'p'` packet pops the service. -/
theorem front_onPacket_pass {incoming : ServiceId → Event Addr B → Except CommonError
      (Content Addr B)} {what : String} {esi : Esi Addr} {svs : ServiceId} {enc : Bytes}
    {route : RouteT} {body : Body Addr B} {out : Content Addr B}
    (hEvent : Front (unpackEvent c) enc ⟨.localService svs :: route, body⟩)
    (hOut : incoming svs ⟨route, body⟩ = .ok out) :
    Front (onPacket c incoming what esi) (putPN 0x70 ++ enc) [out] := by
  refine (reads_getPN 0x70).bindFront ?_
  have hP : (0x70 : UInt64).toInt64.toInt32 = 0x70 := by decide
  simp only [hP, if_true]
  intro b hb
  obtain ⟨b', hRun⟩ := hEvent b hb
  refine ⟨b', ?_⟩
  show (unpackEvent c b).bind _ = _
  rw [hRun]
  simp only [Except.bind, hOut]
  rfl

end Megatron.Dfs
