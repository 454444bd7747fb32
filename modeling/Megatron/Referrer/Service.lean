import Mathlib.Data.Prod.Lex
import Megatron.Dfs.Service
import Megatron.Lib.OrdSet

/-!
# `dfsReferrer`: the connection procedure

A referrer that is not a top server looks for one uplink and keeps it: it pings
its neighbours, else the top servers of its configuration (D2, D21), asks who
answers first for referrers near it (D3), pings those (D3_1), and takes one of
the peers that ponged as its uplink (D4, D6).  Alarms watch every stage.  In D6
pings and pongs keep the connection, whose loss restarts the procedure under a
new `connection_sequence_id`.  Nodes that ping in their turn become downlinks.

A handler is a function from the service's data `Rd` to a `Turn`: the data it
leaves and what it sends, in order.  Set aside are the web report, the telnet
commands and the configuration database.  An exception stands as the last entry
of what is sent: what the handler did before it stays done.  A handler reads
the clock once, as `now`.
-/

namespace Megatron.Referrer

open Megatron.Corelib Megatron.Lib
open Megatron.Dfs (GlobalCookie)

/-! ## Data of the events -/

/-- The `pingType` of pings and pongs. -/
inductive PingType where
  | ptCached
  | ptMasterShort
  | ptMasterLong
  | ptCapsShort
  | ptCapsLong
  | undef (n : Int)
  deriving DecidableEq

/-- The pings that make their sender a downlink. -/
def PingType.IsLink : PingType → Prop
  | .ptCapsLong | .ptCapsShort | .ptMasterLong | .ptMasterShort => True
  | _ => False

instance PingType.decidableIsLink : ∀ t, Decidable (PingType.IsLink t)
  | .ptCapsLong | .ptCapsShort | .ptMasterLong | .ptMasterShort => .isTrue trivial
  | .ptCached => .isFalse id
  | .undef _ => .isFalse id

/-- `Ping::ClientType`. -/
inductive ClientType where
  | ctNode
  | ctClient
  | undef (n : Int)
  deriving DecidableEq

/-- `dfsReferrerEvent::Ping`. -/
structure Ping (Addr : Type) [LinearOrder Addr] where
  pingType : PingType
  globalCookieOfSender : GlobalCookie
  externalListenPort : UInt16
  internalListenAddr : OrdSet Addr
  pingTime : Int
  connectionSequenceId : Int
  clientType : ClientType
  deriving DecidableEq

/-- `dfsReferrerEvent::Pong`. -/
structure Pong (Addr : Type) where
  pingType : PingType
  visibleNameOfPinger : Addr
  globalCookieOfResponder : GlobalCookie
  nodeLevelInHierarhy : Int
  pingTime : Int
  connectionSequenceId : Int
  deriving DecidableEq

/-- `epoll_socket_info`: the address of the object and its `remote_name`, which
never changes; `m_id` does, so events give it as the handler reads it. -/
structure Esi (Addr : Type) where
  ref : Nat
  remoteName : Addr
  deriving DecidableEq

/-- The places `passEvent` can pass to. -/
def passable : Route → Bool
  | .socketRoute _ => false
  | .thread _ => false
  | _ => true

/-- The route of an event that came by `sendEvent`: in front the service
itself, behind it the place an answer goes to. -/
structure BackRoute where
  service : ServiceId
  next : Route
  rest : RouteT
  passable : passable next = true
  deriving DecidableEq

/-- The route as a list. -/
def BackRoute.toRoute (r : BackRoute) : RouteT := .localService r.service :: r.next :: r.rest

/-- `poppedFrontRoute`, where answers are passed to. -/
def BackRoute.popped (r : BackRoute) : RouteT := r.next :: r.rest

/-- Passing an answer on never throws. -/
theorem BackRoute.passEvent_popped {Addr B : Type} (r : BackRoute) (b : Dfs.Body Addr B) :
    Dfs.poppedFrontRoute r.toRoute = .ok r.popped ∧
      ∃ content, Dfs.passEvent ⟨r.popped, b⟩ = .ok content := by
  refine ⟨rfl, ?_⟩
  have hPass := r.passable
  rw [BackRoute.popped]
  cases hNext : r.next with
  | socketRoute id => simp [hNext, Referrer.passable] at hPass
  | thread id => simp [hNext, Referrer.passable] at hPass
  | _ => exact ⟨_, rfl⟩

/-- The alarms, with their data. -/
inductive Alarm (Addr : Type) where
  | t001CommonConnectFailed
  | t002D3CapsGetServiceRequestIsTimedOut
  | t007D6ResendPingCapsShort (sa : Addr)
  | t008D6ResendPingCapsLong (sa : Addr)
  | t009PongTimedOutCapsLong (sa : Addr)
  | t011DownlinkPingTimedOut (sid : SocketId) (sa : Addr)
  | t012ReregisterReferrer
  | t020D31WaitAfterSendPtCache
  | t040D2CachePongTimedOutFromNeighbours
  deriving DecidableEq

/-- The three notifications of `NotifyReferrer.h`. -/
inductive Notify (Addr : Type) where
  | uplinkIsConnected (sa : Addr)
  | uplinkIsDisconnected (sa : Addr)
  | downlinkDisconnected (socketId : SocketId)
  deriving DecidableEq

/-- The requests to `dfsCaps` that go up in a `ToplinkDeliverREQ`. -/
inductive CapsRequest (Addr : Type) [LinearOrder Addr] where
  | getReferrersREQ (externalListenAddr : OrdSet Addr)
  | registerMyRefferrerNodeREQ (externalListenAddr : OrdSet Addr) (uplink : Addr)
      (downlinksCount : Nat)
  deriving DecidableEq

/-- What a handler does to the world, in order. -/
inductive Sent (Addr : Type) [LinearOrder Addr] where
  | ping (sa : Addr) (e : Ping Addr)
  | pong (route : RouteT) (e : Pong Addr)
  | toplink (uplink : Addr) (uuid : GlobalCookie) (req : CapsRequest Addr)
  | localCaps (req : CapsRequest Addr)
  | resetAlarm (a : Alarm Addr) (cookie : Int)
  | stopAlarm (a : Alarm Addr)
  | notify (route : BackRoute) (n : Notify Addr)
  | updateConfigRSP (route : RouteT) (bod : Bytes)
  | close (esi : Esi Addr) (reason : String)
  | switchMode (esi : Esi Addr)
  | error (what : String)
  deriving DecidableEq

/-- What the handlers are called with. The answer `getReferrersRSP` also says
under which `connection_sequence_id` its request was sent, which no handler
reads. -/
inductive Input (Addr : Type) [LinearOrder Addr] where
  | tickAlarm (tid : Alarm Addr) (cookie : Int)
  | getReferrersRSP (issued : Int) (referrerAddresses : List Addr)
  | connected (destinationAddr : Addr)
  | connectFailed (destinationAddr : Addr)
  | disconnected (destinationAddr : Addr)
  | disaccepted (mId : SocketId)
  | ping (e : Ping Addr) (route : BackRoute) (esi : Esi Addr) (mId : SocketId)
  | pong (e : Pong Addr) (esi : Esi Addr)
  | subscribeNotifications (route : BackRoute)
  | updateConfigREQ (bod : Bytes)
  | updateConfigRSP (bod : Bytes)
  deriving DecidableEq

/-! ## Data of the service -/

/-- `_stage`. -/
inductive Stage where
  | d2PingNeighbours
  | d21PingCaps
  | d3GetReferrers
  | d31SendPingToRespondedReferrers
  | d4MaintainConnection
  | d5CheckExternal
  | d6MaintainConnection
  deriving DecidableEq

/-- An element of `ponged_all`: the round-trip time, the socket and the name it
saw the pinger under. -/
structure Ponged (Addr : Type) where
  time : Int
  esi : Esi Addr
  visibleName : Addr
  deriving DecidableEq

section

variable {Addr : Type} [LinearOrder Addr]

/-- `ponged_all` is walked by time, then by socket, then by name. -/
def Ponged.key (x : Ponged Addr) : Int ×ₗ Nat ×ₗ Addr ×ₗ Addr :=
  toLex (x.time, toLex (x.esi.ref, toLex (x.esi.remoteName, x.visibleName)))

omit [LinearOrder Addr] in
theorem Ponged.key_injective : Function.Injective (@Ponged.key Addr) := by
  rintro ⟨t, ⟨r, a⟩, v⟩ ⟨t', ⟨r', a'⟩, v'⟩ h
  simpa [Ponged.key, and_assoc] using h

instance Ponged.linearOrder : LinearOrder (Ponged Addr) :=
  LinearOrder.lift' Ponged.key Ponged.key_injective

/-- Who comes first was not slower. -/
theorem Ponged.time_le_of_le {x y : Ponged Addr} (h : x ≤ y) : x.time ≤ y.time := by
  rcases Prod.Lex.toLex_le_toLex.1 (show x.key ≤ y.key from h) with h | h
  · exact le_of_lt h
  · exact le_of_eq h.1

end

/-- `_uplinkConnectionState`. -/
structure UplinkConnectionState (Addr : Type) [LinearOrder Addr] where
  mIsTopServer : Bool
  saCapsFromConfig : OrdSet Addr
  connectionEstablished : Bool
  uplink : OrdSet Addr
  nodeLevelInHierarhy : Int
  pongedForCleanupSockets : List (Esi Addr)
  pongedAll : OrdSet (Ponged Addr)

/-- `linkInfoDownReferrer`. -/
structure LinkInfo (Addr : Type) [LinearOrder Addr] where
  esi : Esi Addr
  externalAddr : Addr
  internalAddrs : OrdSet Addr
  backRoute : BackRoute
  deriving DecidableEq

/-- `_dfsReferrerData`, with the external addresses the instance knows.
`connection_sequence_id` counts the starts of the procedure. -/
structure Rd (Addr : Type) [LinearOrder Addr] where
  uplinkConnectionState : UplinkConnectionState Addr
  urirefs : List (SocketId × LinkInfo Addr)
  mReadyNotificationBackroutes : List BackRoute
  configBod : Bytes
  connectionSequenceId : Int
  neighbours : OrdSet Addr
  stage : Stage
  myExternalAddresses : OrdSet Addr

/-- What the service reads of its instance. -/
structure Instance (Addr : Type) [LinearOrder Addr] where
  globalCookie : GlobalCookie
  rpcExternalListenPortMain : UInt16
  rpcInternalListenAddrs : OrdSet Addr
  setPort : Addr → UInt16 → Addr

/-- The data a handler leaves, and what it sent. -/
abbrev Turn (Addr : Type) [LinearOrder Addr] := Rd Addr × List (Sent Addr)

variable {Addr : Type} [LinearOrder Addr] (inst : Instance Addr) (now : Int)

/-- The constructor of `_uplinkConnectionState`. -/
def UplinkConnectionState.new (isTopServer : Bool) (saCaps : OrdSet Addr) :
    UplinkConnectionState Addr where
  mIsTopServer := isTopServer
  saCapsFromConfig := saCaps
  connectionEstablished := false
  uplink := ∅
  nodeLevelInHierarhy := 0
  pongedForCleanupSockets := []
  pongedAll := ∅

namespace Rd

/-! ## Small functions -/

/-- `isTopServer`. -/
def IsTopServer (rd : Rd Addr) (sa : Addr) : Prop :=
  sa ∈ rd.uplinkConnectionState.saCapsFromConfig

instance decidableIsTopServer (rd : Rd Addr) (sa : Addr) : Decidable (rd.IsTopServer sa) :=
  inferInstanceAs (Decidable (sa ∈ rd.uplinkConnectionState.saCapsFromConfig))

/-- `hasUL` and `getUL`. -/
def getUL (rd : Rd Addr) : Option Addr := rd.uplinkConnectionState.uplink.first?

/-- A ping of this node. -/
def sendPing (rd : Rd Addr) (sa : Addr) (pingType : PingType) : Sent Addr :=
  .ping sa
    { pingType := pingType
      globalCookieOfSender := inst.globalCookie
      externalListenPort := inst.rpcExternalListenPortMain
      internalListenAddr := inst.rpcInternalListenAddrs
      pingTime := now
      connectionSequenceId := rd.connectionSequenceId
      clientType := .ctNode }

/-- `_reset_alarm`. -/
def resetAlarm (rd : Rd Addr) (a : Alarm Addr) : Sent Addr :=
  .resetAlarm a rd.connectionSequenceId

/-- A notification to every subscriber. -/
def notifyAll (rd : Rd Addr) (n : Notify Addr) : List (Sent Addr) :=
  rd.mReadyNotificationBackroutes.map (.notify · n)

/-- `UpdateConfigRSP` to every downlink. -/
def updateDownlinks (rd : Rd Addr) (bod : Bytes) : List (Sent Addr) :=
  rd.urirefs.map fun x => .updateConfigRSP x.2.backRoute.popped bod

/-- `countInDownlinks`. -/
def HasDownlink (rd : Rd Addr) (sid : SocketId) : Prop := (rd.urirefs.lookup sid).isSome

instance decidableHasDownlink (rd : Rd Addr) (sid : SocketId) : Decidable (rd.HasDownlink sid) :=
  inferInstanceAs (Decidable ((rd.urirefs.lookup sid).isSome))

/-- `sendToplinkReq`, for a request to `dfsCaps`. -/
def sendToplinkReq (rd : Rd Addr) (uplink : Addr) (req : CapsRequest Addr) : Sent Addr :=
  if rd.uplinkConnectionState.mIsTopServer then .localCaps req
  else .toplink uplink inst.globalCookie req

/-- `registerReferrer`. -/
def registerReferrer (rd : Rd Addr) (destination : Addr) : List (Sent Addr) :=
  [rd.sendToplinkReq inst destination
      (.registerMyRefferrerNodeREQ rd.myExternalAddresses destination rd.urirefs.length),
    rd.resetAlarm .t012ReregisterReferrer]

/-! ## The stages -/

/-- `STAGE_D21_PING_CAPS_start`. -/
def stageD21PingCapsStart (rd : Rd Addr) : Turn Addr :=
  let rd := { rd with stage := .d21PingCaps }
  (rd, rd.uplinkConnectionState.saCapsFromConfig.toList.map
      (fun caps => rd.sendPing inst now caps .ptCached) ++
    [rd.resetAlarm .t001CommonConnectFailed])

/-- `STAGE_D2_PING_NEIGHBOURS_start`. -/
def stageD2PingNeighboursStart (rd : Rd Addr) : Turn Addr :=
  let rd := { rd with
    connectionSequenceId := rd.connectionSequenceId + 1
    stage := .d2PingNeighbours
    uplinkConnectionState := .new rd.uplinkConnectionState.mIsTopServer
      rd.uplinkConnectionState.saCapsFromConfig }
  if rd.uplinkConnectionState.mIsTopServer then (rd, [])
  else
    let reset := rd.resetAlarm .t001CommonConnectFailed
    let s := rd.neighbours.toList
    let rd := { rd with neighbours := ∅ }
    if s ≠ [] then
      (rd, reset :: (s.filter (fun i => ¬ rd.IsTopServer i)).map
          (fun i => rd.sendPing inst now i .ptCached) ++
        [rd.resetAlarm .t040D2CachePongTimedOutFromNeighbours])
    else
      let t := rd.stageD21PingCapsStart inst now
      (t.1, reset :: t.2)

/-- `STAGE_D3_GET_GEFERRERS_start`. -/
def stageD3GetReferrersStart (rd : Rd Addr) (sa : Addr) : Turn Addr :=
  let rd := { rd with stage := .d3GetReferrers }
  if rd.myExternalAddresses = ∅ then (rd, [.error "if(sas.size()==0)"])
  else
    (rd, [rd.sendToplinkReq inst sa (.getReferrersREQ rd.myExternalAddresses),
      rd.resetAlarm .t002D3CapsGetServiceRequestIsTimedOut,
      rd.resetAlarm .t001CommonConnectFailed])

/-- `d6_start`. -/
def d6Start (rd : Rd Addr) (sa : Addr) : Turn Addr :=
  let rd := { rd with stage := .d6MaintainConnection }
  (rd, [rd.sendPing inst now sa .ptCapsShort, rd.resetAlarm (.t007D6ResendPingCapsShort sa)])

/-- `on_connectionEstablished`. -/
def onConnectionEstablished (rd : Rd Addr) (remoteAddr : Addr) : Turn Addr :=
  let rd := { rd with uplinkConnectionState.connectionEstablished := true }
  let notified := rd.notifyAll (.uplinkIsConnected remoteAddr)
  let rd := { rd with
    uplinkConnectionState.uplink := rd.uplinkConnectionState.uplink.insert remoteAddr }
  let registered := rd.registerReferrer inst remoteAddr
  let closed := (rd.uplinkConnectionState.pongedForCleanupSockets.filter
    (fun z => z.remoteName ≠ remoteAddr)).map (.close · "cleanup unused connections")
  let rd := { rd with uplinkConnectionState.pongedForCleanupSockets := [] }
  let t := rd.d6Start inst now remoteAddr
  (t.1, .stopAlarm .t001CommonConnectFailed :: notified ++ registered ++ closed ++ t.2)

/-- `d4_uplink_mode`. -/
def d4UplinkMode (rd : Rd Addr) (esi : Esi Addr) : Turn Addr :=
  let rd := { rd with stage := .d4MaintainConnection }
  let t := rd.onConnectionEstablished inst now esi.remoteName
  (t.1, .switchMode esi :: t.2)

/-- The two walks over `ponged_all` that three handlers share: the first peer
that saw this node under a name outside the configuration, else the first. -/
def chooseByVisibleName (rd : Rd Addr) : Option (Ponged Addr) :=
  (rd.uplinkConnectionState.pongedAll.find? (fun y => ¬ rd.IsTopServer y.visibleName)).or
    (rd.uplinkConnectionState.pongedAll.find? (fun y => rd.IsTopServer y.visibleName))

/-! ## Disconnection -/

/-- `d6_on_disconnected`. -/
def d6OnDisconnected (rd : Rd Addr) (remoteAddr : Addr) : Turn Addr :=
  if remoteAddr ∈ rd.uplinkConnectionState.uplink then
    let t := rd.stageD2PingNeighboursStart inst now
    (t.1, .stopAlarm (.t007D6ResendPingCapsShort remoteAddr) ::
      .stopAlarm (.t008D6ResendPingCapsLong remoteAddr) ::
      .stopAlarm (.t009PongTimedOutCapsLong remoteAddr) :: t.2)
  else (rd, [])

/-- `d4_on_disconnected`; the downlinks are closed and forgotten. -/
def d4OnDisconnected (rd : Rd Addr) (sa : Addr) : Turn Addr :=
  if sa ∈ rd.uplinkConnectionState.uplink then
    let notified := rd.notifyAll (.uplinkIsDisconnected sa)
    let closed := rd.urirefs.flatMap fun z =>
      .close z.2.esi "uplink disconnected" :: rd.notifyAll (.downlinkDisconnected z.1)
    let t := { rd with urirefs := [] }.stageD2PingNeighboursStart inst now
    (t.1, notified ++ closed ++ t.2)
  else (rd, [])

/-- `on_Disconnected`, and `on_ConnectFailed`, which does the same. -/
def onDisconnected (rd : Rd Addr) (destinationAddr : Addr) : Turn Addr :=
  let t := rd.d4OnDisconnected inst now destinationAddr
  let t' := t.1.d6OnDisconnected inst now destinationAddr
  (t'.1, t.2 ++ t'.2)

/-- `on_deleteDownlink`. -/
def onDeleteDownlink (rd : Rd Addr) (sock : SocketId) : Turn Addr :=
  if rd.HasDownlink sock then
    ({ rd with urirefs := rd.urirefs.filter (·.1 ≠ sock) },
      rd.notifyAll (.downlinkDisconnected sock))
  else (rd, [])

/-! ## Alarms -/

/-- `on_TickAlarm`. -/
def onTickAlarm (rd : Rd Addr) (tid : Alarm Addr) (cookie : Int) : Turn Addr :=
  if cookie ≠ rd.connectionSequenceId then (rd, [])
  else match tid with
    | .t020D31WaitAfterSendPtCache =>
        match rd.chooseByVisibleName with
        | some y => rd.d4UplinkMode inst now y.esi
        | none => (rd, [rd.resetAlarm .t001CommonConnectFailed])
    | .t001CommonConnectFailed => rd.stageD2PingNeighboursStart inst now
    | .t011DownlinkPingTimedOut sid _ => rd.onDeleteDownlink sid
    | .t012ReregisterReferrer =>
        match rd.getUL with
        | some uplink => (rd, rd.registerReferrer inst uplink)
        | none => (rd, [.error "if(uplinkConnectionState->uplink.size()==0) %s"])
    | .t040D2CachePongTimedOutFromNeighbours =>
        if rd.stage ≠ .d2PingNeighbours then (rd, []) else rd.stageD21PingCapsStart inst now
    | .t002D3CapsGetServiceRequestIsTimedOut =>
        if rd.stage = .d3GetReferrers then
          match rd.chooseByVisibleName with
          | some y => rd.d4UplinkMode inst now y.esi
          | none => (rd, [])
        else (rd, [])
    | .t007D6ResendPingCapsShort sa =>
        (rd, [rd.sendPing inst now sa
            (if rd.IsTopServer sa then .ptCapsShort else .ptMasterShort),
          rd.resetAlarm (.t007D6ResendPingCapsShort sa)])
    | .t008D6ResendPingCapsLong sa =>
        if rd.stage = .d6MaintainConnection then
          (rd, [rd.sendPing inst now sa
            (if rd.IsTopServer sa then .ptCapsLong else .ptMasterLong)])
        else (rd, [])
    | .t009PongTimedOutCapsLong sa => rd.d6OnDisconnected inst now sa

/-! ## Answers of the top server -/

/-- The branch of `handleEvent` for `GetReferrersRSP`. -/
def onGetReferrersRSP (rd : Rd Addr) (referrerAddresses : List Addr) : Turn Addr :=
  if rd.stage ≠ .d3GetReferrers then (rd, [])
  else
    let alarms := [.stopAlarm .t002D3CapsGetServiceRequestIsTimedOut,
      rd.resetAlarm .t001CommonConnectFailed]
    if referrerAddresses = [] then
      match rd.chooseByVisibleName with
      | some y =>
          let t := rd.d4UplinkMode inst now y.esi
          (t.1, alarms ++ t.2)
      | none => (rd, alarms)
    else
      ({ rd with stage := .d31SendPingToRespondedReferrers },
        alarms ++ referrerAddresses.map (fun i => rd.sendPing inst now i .ptCached) ++
          [rd.resetAlarm .t020D31WaitAfterSendPtCache])

/-! ## Pongs -/

/-- What every accepted pong leaves behind: the level, the socket, the peer. -/
def pongReceived (rd : Rd Addr) (e : Pong Addr) (esi : Esi Addr) : Rd Addr :=
  { rd with
    uplinkConnectionState.nodeLevelInHierarhy := e.nodeLevelInHierarhy + 1
    uplinkConnectionState.pongedForCleanupSockets :=
      rd.uplinkConnectionState.pongedForCleanupSockets.insert esi
    uplinkConnectionState.pongedAll := rd.uplinkConnectionState.pongedAll.insert
      ⟨now - e.pingTime, esi, e.visibleNameOfPinger⟩ }

/-- The neighbour and the external address learnt from it. -/
def pongLearnt (rd : Rd Addr) (e : Pong Addr) (esi : Esi Addr) : Rd Addr :=
  { rd with
    neighbours := rd.neighbours.insert esi.remoteName
    myExternalAddresses := rd.myExternalAddresses.insert
      (inst.setPort e.visibleNameOfPinger inst.rpcExternalListenPortMain) }

/-- The walks over `ponged_all` at a pong in D3_1: the first peer outside the
configuration that reported the same name; else the first inside it, whose name
has to be the same. -/
def onPongPtCachedD31 (rd : Rd Addr) (visibleNameOfPinger : Addr) : Turn Addr :=
  match rd.uplinkConnectionState.pongedAll.find?
      (fun y => ¬ rd.IsTopServer y.esi.remoteName ∧ y.visibleName = visibleNameOfPinger) with
  | some y =>
      let t := rd.d4UplinkMode inst now y.esi
      (t.1, .stopAlarm .t020D31WaitAfterSendPtCache :: t.2)
  | none =>
      match rd.uplinkConnectionState.pongedAll.find?
          (fun y => rd.IsTopServer y.esi.remoteName) with
      | some y =>
          if y.visibleName ≠ visibleNameOfPinger then
            (rd, [.error "if(y.second!=e->visible_name_of_pinger) %s %s"])
          else
            let t := rd.d4UplinkMode inst now y.esi
            (t.1, .stopAlarm .t020D31WaitAfterSendPtCache :: t.2)
      | none => (rd, [])

/-- The branch of `on_Pong` for `PT_CACHED`. -/
def onPongPtCached (rd : Rd Addr) (e : Pong Addr) (esi : Esi Addr) : Turn Addr :=
  if rd.stage = .d2PingNeighbours ∧ ¬ rd.IsTopServer esi.remoteName ∨
      rd.stage = .d21PingCaps ∧ rd.IsTopServer esi.remoteName then
    rd.stageD3GetReferrersStart inst esi.remoteName
  else if rd.stage = .d31SendPingToRespondedReferrers then
    rd.onPongPtCachedD31 inst now e.visibleNameOfPinger
  else (rd, [])

/-- `d6_on_pong_PT_CAPS_LONG`. -/
def d6OnPongPtCapsLong (rd : Rd Addr) (esi : Esi Addr) : List (Sent Addr) :=
  [rd.resetAlarm (.t008D6ResendPingCapsLong esi.remoteName),
    rd.resetAlarm (.t009PongTimedOutCapsLong esi.remoteName)]

/-- `d6_on_pong_PT_CAPS_SHORT`. -/
def d6OnPongPtCapsShort (rd : Rd Addr) (esi : Esi Addr) : List (Sent Addr) :=
  [.stopAlarm (.t007D6ResendPingCapsShort esi.remoteName),
    .stopAlarm (.t008D6ResendPingCapsLong esi.remoteName),
    .stopAlarm (.t009PongTimedOutCapsLong esi.remoteName),
    rd.resetAlarm (.t008D6ResendPingCapsLong esi.remoteName),
    rd.resetAlarm (.t009PongTimedOutCapsLong esi.remoteName)]

/-- The two tests in front of `on_Pong`. -/
def Accepts (rd : Rd Addr) (e : Pong Addr) : Prop :=
  e.globalCookieOfResponder ≠ inst.globalCookie ∧
    e.connectionSequenceId = rd.connectionSequenceId

instance decidableAccepts (rd : Rd Addr) (e : Pong Addr) : Decidable (rd.Accepts inst e) :=
  inferInstanceAs (Decidable (_ ∧ _))

/-- `on_Pong`. -/
def onPong (rd : Rd Addr) (e : Pong Addr) (esi : Esi Addr) : Turn Addr :=
  if ¬ rd.Accepts inst e then (rd, [])
  else
    let rd := rd.pongReceived now e esi
    if rd.uplinkConnectionState.mIsTopServer ∧
        rd.uplinkConnectionState.nodeLevelInHierarhy ≠ 0 then
      (rd, [.error
        "if(uplinkConnectionState->m_isTopServer && uplinkConnectionState->nodeLevelInHierarhy!=0)"])
    else
      let rd := rd.pongLearnt inst e esi
      match e.pingType with
      | .ptCached => rd.onPongPtCached inst now e esi
      | .ptCapsShort => (rd, rd.d6OnPongPtCapsShort esi)
      | .ptMasterShort => (rd, rd.d6OnPongPtCapsShort esi)
      | .ptCapsLong => (rd, rd.d6OnPongPtCapsLong esi)
      | .ptMasterLong => (rd, rd.d6OnPongPtCapsLong esi)
      | .undef _ => (rd, [])

/-! ## Pings -/

/-- `getDownlinkOrCreate`: the downlinks, and whether the link is to be told
the configuration. -/
def getDownlinkOrCreate (rd : Rd Addr) (mId : SocketId) (l : LinkInfo Addr) :
    List (SocketId × LinkInfo Addr) × Bool :=
  match rd.urirefs.lookup mId with
  | some known =>
      (rd.urirefs.map fun x =>
          if x.1 = mId then (mId, { l with esi := known.esi }) else x,
        known.backRoute ≠ l.backRoute ∨ known.externalAddr ≠ l.externalAddr ∨
          known.internalAddrs ≠ l.internalAddrs)
  | none => (rd.urirefs ++ [(mId, l)], true)

/-- The sender of a ping as a downlink. -/
def newLink (e : Ping Addr) (route : BackRoute) (esi : Esi Addr) : LinkInfo Addr :=
  ⟨esi, inst.setPort esi.remoteName e.externalListenPort, e.internalListenAddr, route⟩

/-- The answer to a ping. -/
def sendPong (rd : Rd Addr) (e : Ping Addr) (route : BackRoute) (esi : Esi Addr) : Sent Addr :=
  .pong route.popped
    { pingType := e.pingType
      visibleNameOfPinger := esi.remoteName
      globalCookieOfResponder := inst.globalCookie
      nodeLevelInHierarhy := rd.uplinkConnectionState.nodeLevelInHierarhy
      pingTime := e.pingTime
      connectionSequenceId := e.connectionSequenceId }

/-- A node answers pings when it has an uplink or is a top server. -/
def Answers (rd : Rd Addr) : Prop :=
  (rd.uplinkConnectionState.connectionEstablished ∧
      rd.uplinkConnectionState.uplink ≠ ∅) ∨
    rd.uplinkConnectionState.mIsTopServer

instance decidableAnswers (rd : Rd Addr) : Decidable rd.Answers :=
  inferInstanceAs (Decidable ((_ ∧ _) ∨ _))

/-- `on_Ping`. -/
def onPing (rd : Rd Addr) (e : Ping Addr) (route : BackRoute) (esi : Esi Addr)
    (mId : SocketId) : Turn Addr :=
  if rd.uplinkConnectionState.mIsTopServer ∧ e.clientType = .ctClient then (rd, [])
  else if ¬ rd.Answers then (rd, [.close esi "no uplink"])
  else if e.globalCookieOfSender ≠ [] ∧ e.globalCookieOfSender = inst.globalCookie then
    (rd, [.close esi "same globalCookie"])
  else if e.pingType.IsLink then
    let (urirefs, created) := rd.getDownlinkOrCreate mId (newLink inst e route esi)
    let rd := { rd with urirefs := urirefs }
    let told := if created then [.updateConfigRSP route.popped rd.configBod] else []
    (rd, told ++ [rd.sendPong inst e route esi])
  else (rd, [rd.sendPong inst e route esi])

/-- `on_IncomingOnAcceptor`, for a ping: a downlink that is known has its alarm
put off. -/
def onIncomingOnAcceptor (rd : Rd Addr) (e : Ping Addr) (route : BackRoute) (esi : Esi Addr)
    (mId : SocketId) : Turn Addr :=
  let alarm := if rd.HasDownlink mId then
    [rd.resetAlarm (.t011DownlinkPingTimedOut mId esi.remoteName)] else []
  let t := rd.onPing inst e route esi mId
  (t.1, alarm ++ t.2)

/-! ## Subscriptions and configuration -/

/-- `on_SubscribeNotifications`. -/
def onSubscribeNotifications (rd : Rd Addr) (route : BackRoute) : Turn Addr :=
  ({ rd with mReadyNotificationBackroutes := rd.mReadyNotificationBackroutes.insert route },
    match rd.getUL with
    | some uplink => [.notify route (.uplinkIsConnected uplink)]
    | none => [])

/-- `on_UpdateConfigREQ`. -/
def onUpdateConfigREQ (rd : Rd Addr) (bod : Bytes) : Turn Addr :=
  ({ rd with configBod := bod }, rd.updateDownlinks bod)

/-- `on_UpdateConfigRSP`. -/
def onUpdateConfigRSP (rd : Rd Addr) (bod : Bytes) : Turn Addr :=
  let rd := { rd with configBod := bod }
  (rd, rd.updateDownlinks bod)

/-! ## Dispatch -/

/-- `handleEvent`, with the dispatch of the two `IncomingOn...` events. -/
def handleEvent (rd : Rd Addr) : Input Addr → Turn Addr
  | .tickAlarm tid cookie => rd.onTickAlarm inst now tid cookie
  | .getReferrersRSP _ referrerAddresses => rd.onGetReferrersRSP inst now referrerAddresses
  | .connected _ => (rd, [])
  | .connectFailed destinationAddr => rd.onDisconnected inst now destinationAddr
  | .disconnected destinationAddr => rd.onDisconnected inst now destinationAddr
  | .disaccepted mId => rd.onDeleteDownlink mId
  | .ping e route esi mId => rd.onIncomingOnAcceptor inst e route esi mId
  | .pong e esi => rd.onPong inst now e esi
  | .subscribeNotifications route => rd.onSubscribeNotifications route
  | .updateConfigREQ bod => rd.onUpdateConfigREQ bod
  | .updateConfigRSP bod => rd.onUpdateConfigRSP bod

/-- `on_startService`. -/
def onStartService (rd : Rd Addr) : Turn Addr :=
  if rd.uplinkConnectionState.mIsTopServer then (rd, [])
  else rd.stageD2PingNeighboursStart inst now

end Rd

end Megatron.Referrer
