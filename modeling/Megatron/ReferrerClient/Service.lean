import Megatron.Referrer.Service

/-!
# `referrerClient`: the connection procedure of a client

A client goes through the stages of a node, `dfsReferrer`, without downlinks
and without being asked: it pings its neighbours, else the top servers it was
given (D2, D21), asks who answers first for referrers (D3), and takes one of
the peers that ponged as its uplink (D4, D6).

What it knows about its connection is an object that `InitClient` makes; until
then the reference is null, and so it is a matter of the handler whether it
asks.  `stage` is not initialised by the constructor.  A handler is a function
from the service's data to a `Turn`: the data it leaves, what it sends, in
order, and how it ends.  An exception ends a handler, and what it did before
stays done; going through a null reference ends the program.

The events of the two services are the same classes.  Set aside are the web
report, the telnet commands and the configuration database.
-/

namespace Megatron.ReferrerClient

open Megatron.Corelib Megatron.Lib
open Megatron.Dfs (GlobalCookie ToplinkDeliverREQ)
open Megatron.Referrer (Alarm BackRoute Esi Notify Ping PingType Ponged Pong Stage)

/-! ## Data -/

/-- What a handler does to the world, in order. -/
inductive Sent (Addr : Type) [LinearOrder Addr] where
  | subscribeNotifications
  | ping (sa : Addr) (e : Ping Addr)
  | getReferrersREQ (uplink : Addr) (uuid : GlobalCookie) (externalListenAddr : OrdSet Addr)
  | toplink (uplink : Addr) (e : ToplinkDeliverREQ)
  | pass (route : RouteT) (eventData : Bytes)
  | resetAlarm (a : Alarm Addr) (cookie : Int)
  | stopAlarm (a : Alarm Addr)
  | notify (route : BackRoute) (n : Notify Addr)
  | updateConfigRSP (route : BackRoute) (bod : Bytes)
  | close (esi : Esi Addr) (reason : String)

/-- What the handlers are called with.  `other` stands for the events that
touch nothing of the connection: web requests, telnet commands, ticks of timers
and what is not handled. -/
inductive Input (Addr : Type) [LinearOrder Addr] where
  | startService
  | initClient (caps : OrdSet Addr)
  | tickAlarm (tid : Alarm Addr) (cookie : Int)
  | getReferrersRSP (referrerAddresses : List Addr)
  | connected (destinationAddr : Addr)
  | connectFailed (destinationAddr : Addr)
  | disconnected (destinationAddr : Addr)
  | pong (e : Pong Addr) (esi : Esi Addr)
  | subscribeNotifications (route : BackRoute)
  | updateConfigRSP (bod : Bytes)
  | updateConfigRSPOnConnector (bod : Bytes)
  | toplinkDeliverREQ (e : ToplinkDeliverREQ)
  | toplinkDeliverRSP (route : RouteT) (eventData : Bytes)
  | other

/-- `_uplinkConnectionState`. -/
structure UplinkConnectionState (Addr : Type) [LinearOrder Addr] where
  saCapsFromConfig : OrdSet Addr
  connectionEstablished : Bool
  uplink : OrdSet Addr
  nodeLevelInHierarhy : Int
  pongedForCleanupSockets : List (Esi Addr)
  pongedAll : OrdSet (Ponged Addr)

/-- The data of `Service`, with the external addresses the instance knows;
`none` is a null reference. -/
structure Client (Addr : Type) [LinearOrder Addr] where
  uplinkConnectionState : Option (UplinkConnectionState Addr)
  mReadyNotificationBackroutes : List BackRoute
  configBod : Bytes
  connectionSequenceId : Int
  neighbours : OrdSet Addr
  stage : Stage
  myExternalAddresses : OrdSet Addr

/-- What the service reads of its instance, and the text of an address. -/
structure Instance (Addr : Type) where
  globalCookie : GlobalCookie
  getStringAddr : Addr → Bytes

/-- How a handler ends. -/
inductive Ending where
  | returned
  | thrown (what : String)
  | null
  deriving DecidableEq

structure Turn (Addr : Type) [LinearOrder Addr] where
  state : Client Addr
  sent : List (Sent Addr)
  ending : Ending

variable {Addr : Type} [LinearOrder Addr] (inst : Instance Addr) (now : Int)

/-- One call after the other; the second is not made where the first did not
return. -/
def Turn.andThen (t : Turn Addr) (f : Client Addr → Turn Addr) : Turn Addr :=
  if t.ending = .returned then
    let t' := f t.state
    { t' with sent := t.sent ++ t'.sent }
  else t

/-- What was sent before. -/
def Turn.after (t : Turn Addr) (sent : List (Sent Addr)) : Turn Addr :=
  { t with sent := sent ++ t.sent }

/-- The constructor of `_uplinkConnectionState`. -/
def UplinkConnectionState.new (saCaps : OrdSet Addr) : UplinkConnectionState Addr where
  saCapsFromConfig := saCaps
  connectionEstablished := false
  uplink := ∅
  nodeLevelInHierarhy := 0
  pongedForCleanupSockets := []
  pongedAll := ∅

namespace Client

/-- `uplinkConnectionState->`. -/
def arrow (s : Client Addr) (f : UplinkConnectionState Addr → Turn Addr) : Turn Addr :=
  match s.uplinkConnectionState with
  | some u => f u
  | none => ⟨s, [], .null⟩

/-- A ping of this client. -/
def sendPing (s : Client Addr) (sa : Addr) (pingType : PingType) : Sent Addr :=
  .ping sa
    { pingType := pingType
      globalCookieOfSender := inst.globalCookie
      externalListenPort := 0
      internalListenAddr := ∅
      pingTime := now
      connectionSequenceId := s.connectionSequenceId
      clientType := .ctClient }

/-- `_reset_alarm`. -/
def resetAlarm (s : Client Addr) (a : Alarm Addr) : Sent Addr :=
  .resetAlarm a s.connectionSequenceId

/-- A notification to every subscriber. -/
def notifyAll (s : Client Addr) (n : Notify Addr) : List (Sent Addr) :=
  s.mReadyNotificationBackroutes.map (.notify · n)

/-! ## The stages -/

/-- `STAGE_D21_PING_CAPS_start`. -/
def stageD21PingCapsStart (s : Client Addr) : Turn Addr :=
  let s := { s with stage := .d21PingCaps }
  s.arrow fun u =>
    ⟨s, u.saCapsFromConfig.toList.map (fun caps => s.sendPing inst now caps .ptCached) ++
      [s.resetAlarm .t001CommonConnectFailed], .returned⟩

/-- `STAGE_D2_PING_NEIGHBOURS_start`. -/
def stageD2PingNeighboursStart (s : Client Addr) : Turn Addr :=
  let s := { s with
    connectionSequenceId := s.connectionSequenceId + 1
    stage := .d2PingNeighbours }
  match s.uplinkConnectionState with
  | none => ⟨s, [], .thrown "if(!uplinkConnectionState.valid())"⟩
  | some u =>
      let s := { s with uplinkConnectionState := some (.new u.saCapsFromConfig) }
      let reset := s.resetAlarm .t001CommonConnectFailed
      let neighbours := s.neighbours.toList
      let s := { s with neighbours := ∅ }
      if neighbours ≠ [] then
        ⟨s, reset :: neighbours.map (fun i => s.sendPing inst now i .ptCached) ++
          [s.resetAlarm .t040D2CachePongTimedOutFromNeighbours], .returned⟩
      else (s.stageD21PingCapsStart inst now).after [reset]

/-- `STAGE_D3_GET_GEFERRERS_start`. -/
def stageD3GetReferrersStart (s : Client Addr) (sa : Addr) : Turn Addr :=
  let s := { s with stage := .d3GetReferrers }
  if s.myExternalAddresses = ∅ then ⟨s, [], .thrown "if(sas.size()==0)"⟩
  else
    ⟨s, [.getReferrersREQ sa inst.globalCookie s.myExternalAddresses,
      s.resetAlarm .t002D3CapsGetServiceRequestIsTimedOut,
      s.resetAlarm .t001CommonConnectFailed], .returned⟩

/-- `d6_start`. -/
def d6Start (s : Client Addr) (sa : Addr) : Turn Addr :=
  let s := { s with stage := .d6MaintainConnection }
  ⟨s, [s.sendPing inst now sa .ptCapsShort, s.resetAlarm (.t007D6ResendPingCapsShort sa)],
    .returned⟩

/-- `on_connectionEstablished`. -/
def onConnectionEstablished (s : Client Addr) (remoteAddr : Addr) : Turn Addr :=
  (s.arrow fun u =>
    let closed := (u.pongedForCleanupSockets.filter (fun z => z.remoteName ≠ remoteAddr)).map
      (.close · "cleanup unused connections")
    let u := { u with
      connectionEstablished := true
      uplink := u.uplink.insert remoteAddr
      pongedForCleanupSockets := [] }
    let t := { s with uplinkConnectionState := some u }.d6Start inst now remoteAddr
    t.after (s.notifyAll (.uplinkIsConnected remoteAddr) ++ closed)).after
      [.stopAlarm .t001CommonConnectFailed]

/-- `d4_uplink_mode`. -/
def d4UplinkMode (s : Client Addr) (esi : Esi Addr) : Turn Addr :=
  { s with stage := .d4MaintainConnection }.onConnectionEstablished inst now esi.remoteName

/-- The two walks over `ponged_all` that three handlers share.  Both take the
first peer there is, so the second comes to nothing where the first did. -/
def firstPonged (s : Client Addr) (f : Turn Addr) : Turn Addr :=
  s.arrow fun u =>
    match u.pongedAll.first? with
    | some y => s.d4UplinkMode inst now y.esi
    | none => f

/-! ## Disconnection -/

/-- `d6_on_disconnected`. -/
def d6OnDisconnected (s : Client Addr) (remoteAddr : Addr) : Turn Addr :=
  s.arrow fun u =>
    if remoteAddr ∈ u.uplink then
      (s.stageD2PingNeighboursStart inst now).after
        [.stopAlarm (.t007D6ResendPingCapsShort remoteAddr),
          .stopAlarm (.t008D6ResendPingCapsLong remoteAddr),
          .stopAlarm (.t009PongTimedOutCapsLong remoteAddr)]
    else ⟨s, [], .returned⟩

/-- `d4_on_disconnected`. -/
def d4OnDisconnected (s : Client Addr) (sa : Addr) : Turn Addr :=
  s.arrow fun u =>
    if sa ∈ u.uplink then
      (s.stageD2PingNeighboursStart inst now).after (s.notifyAll (.uplinkIsDisconnected sa))
    else ⟨s, [], .returned⟩

/-- `on_Disconnected`, and `on_ConnectFailed`, which does the same. -/
def onDisconnected (s : Client Addr) (destinationAddr : Addr) : Turn Addr :=
  (s.d4OnDisconnected inst now destinationAddr).andThen fun s =>
    s.d6OnDisconnected inst now destinationAddr

/-! ## Alarms -/

/-- `on_TickAlarm`. -/
def onTickAlarm (s : Client Addr) (tid : Alarm Addr) (cookie : Int) : Turn Addr :=
  if cookie ≠ s.connectionSequenceId then ⟨s, [], .returned⟩
  else match tid with
    | .t020D31WaitAfterSendPtCache =>
        s.firstPonged inst now ⟨s, [s.resetAlarm .t001CommonConnectFailed], .returned⟩
    | .t001CommonConnectFailed => s.stageD2PingNeighboursStart inst now
    | .t040D2CachePongTimedOutFromNeighbours =>
        if s.stage ≠ .d2PingNeighbours then ⟨s, [], .returned⟩
        else s.stageD21PingCapsStart inst now
    | .t002D3CapsGetServiceRequestIsTimedOut =>
        if s.stage = .d3GetReferrers then s.firstPonged inst now ⟨s, [], .returned⟩
        else ⟨s, [], .returned⟩
    | .t007D6ResendPingCapsShort sa =>
        ⟨s, [s.sendPing inst now sa .ptMasterShort, s.resetAlarm (.t007D6ResendPingCapsShort sa)],
          .returned⟩
    | .t008D6ResendPingCapsLong sa =>
        if s.stage = .d6MaintainConnection then
          ⟨s, [s.sendPing inst now sa .ptMasterLong], .returned⟩
        else ⟨s, [], .returned⟩
    | .t009PongTimedOutCapsLong sa => s.d6OnDisconnected inst now sa
    | .t011DownlinkPingTimedOut _ _ => ⟨s, [], .returned⟩
    | .t012ReregisterReferrer => ⟨s, [], .returned⟩

/-! ## Answers of the top server -/

/-- The branch of `handleEvent` for `GetReferrersRSP`.  The addresses are not
copied into `sas`, over which the loop goes. -/
def onGetReferrersRSP (s : Client Addr) (referrerAddresses : List Addr) : Turn Addr :=
  if s.stage ≠ .d3GetReferrers then ⟨s, [], .returned⟩
  else
    let alarms := [.stopAlarm .t002D3CapsGetServiceRequestIsTimedOut,
      s.resetAlarm .t001CommonConnectFailed]
    let next : Turn Addr := ⟨{ s with stage := .d31SendPingToRespondedReferrers },
      [s.resetAlarm .t020D31WaitAfterSendPtCache], .returned⟩
    if referrerAddresses = [] then (s.firstPonged inst now next).after alarms
    else
      let sas : List Addr := []
      (next.after (sas.map fun i => s.sendPing inst now i .ptCached)).after alarms

/-! ## Pongs -/

/-- What every accepted pong leaves behind. -/
def pongReceived (s : Client Addr) (u : UplinkConnectionState Addr) (e : Pong Addr)
    (esi : Esi Addr) : Client Addr :=
  { s with
    uplinkConnectionState := some { u with
      nodeLevelInHierarhy := e.nodeLevelInHierarhy + 1
      pongedForCleanupSockets := u.pongedForCleanupSockets.insert esi
      pongedAll := u.pongedAll.insert ⟨now - e.pingTime, esi, e.visibleNameOfPinger⟩ }
    neighbours := s.neighbours.insert esi.remoteName
    myExternalAddresses := s.myExternalAddresses.insert e.visibleNameOfPinger }

/-- The walks over `ponged_all` at a pong in D3_1: the first peer, which has to
have seen this client under the same address. -/
def onPongPtCachedD31 (s : Client Addr) (visibleNameOfPinger : Addr) : Turn Addr :=
  s.arrow fun u =>
    match u.pongedAll.first? with
    | some y =>
        if inst.getStringAddr y.visibleName ≠ inst.getStringAddr visibleNameOfPinger then
          ⟨s, [], .thrown "if(y.second!=e->visible_name_of_pinger) %s %s"⟩
        else (s.d4UplinkMode inst now y.esi).after [.stopAlarm .t020D31WaitAfterSendPtCache]
    | none => ⟨s, [], .returned⟩

/-- The branch of `on_Pong` for `PT_CACHED`. -/
def onPongPtCached (s : Client Addr) (e : Pong Addr) (esi : Esi Addr) : Turn Addr :=
  if s.stage = .d2PingNeighbours ∨ s.stage = .d21PingCaps then
    s.stageD3GetReferrersStart inst esi.remoteName
  else if s.stage = .d31SendPingToRespondedReferrers then
    s.onPongPtCachedD31 inst now e.visibleNameOfPinger
  else ⟨s, [], .returned⟩

/-- `d6_on_pong_PT_CAPS_LONG`. -/
def d6OnPongPtCapsLong (s : Client Addr) (esi : Esi Addr) : Turn Addr :=
  ⟨s, [s.resetAlarm (.t008D6ResendPingCapsLong esi.remoteName),
    s.resetAlarm (.t009PongTimedOutCapsLong esi.remoteName)], .returned⟩

/-- `d6_on_pong_PT_CAPS_SHORT`. -/
def d6OnPongPtCapsShort (s : Client Addr) (esi : Esi Addr) : Turn Addr :=
  ⟨s, [.stopAlarm (.t007D6ResendPingCapsShort esi.remoteName),
    .stopAlarm (.t008D6ResendPingCapsLong esi.remoteName),
    .stopAlarm (.t009PongTimedOutCapsLong esi.remoteName),
    s.resetAlarm (.t008D6ResendPingCapsLong esi.remoteName),
    s.resetAlarm (.t009PongTimedOutCapsLong esi.remoteName)], .returned⟩

/-- The two tests in front of `on_Pong`. -/
def Accepts (s : Client Addr) (e : Pong Addr) : Prop :=
  e.globalCookieOfResponder ≠ inst.globalCookie ∧
    e.connectionSequenceId = s.connectionSequenceId

instance decidableAccepts (s : Client Addr) (e : Pong Addr) : Decidable (s.Accepts inst e) :=
  inferInstanceAs (Decidable (_ ∧ _))

/-- `on_Pong`. -/
def onPong (s : Client Addr) (e : Pong Addr) (esi : Esi Addr) : Turn Addr :=
  if ¬ s.Accepts inst e then ⟨s, [], .returned⟩
  else
    s.arrow fun u =>
      let s := s.pongReceived now u e esi
      match e.pingType with
      | .ptCached => s.onPongPtCached inst now e esi
      | .ptCapsShort => s.d6OnPongPtCapsShort esi
      | .ptMasterShort => s.d6OnPongPtCapsShort esi
      | .ptCapsLong => s.d6OnPongPtCapsLong esi
      | .ptMasterLong => s.d6OnPongPtCapsLong esi
      | .undef _ => ⟨s, [], .returned⟩

/-! ## Requests of other services -/

/-- `getUL`, where `hasUL` holds. -/
def getUL (s : Client Addr) : Option Addr :=
  match s.uplinkConnectionState with
  | some u => u.uplink.first?
  | none => none

/-- `on_SubscribeNotifications`. -/
def onSubscribeNotifications (s : Client Addr) (route : BackRoute) : Turn Addr :=
  let s := { s with
    mReadyNotificationBackroutes := s.mReadyNotificationBackroutes.insert route }
  match s.getUL with
  | none => ⟨s, [], .returned⟩
  | some uplink =>
      ⟨s, .notify route (.uplinkIsConnected uplink) ::
        if s.configBod ≠ [] then [.updateConfigRSP route s.configBod] else [], .returned⟩

/-- `on_ToplinkDeliverREQ`. -/
def onToplinkDeliverREQ (s : Client Addr) (e : ToplinkDeliverREQ) : Turn Addr :=
  if e.uuid ≠ ∅ then ⟨s, [], .thrown "if(ee->uuid.size()) "⟩
  else
    match s.getUL with
    | some uplink => ⟨s, [.toplink uplink { e with uuid := {inst.globalCookie} }], .returned⟩
    | none => ⟨s, [], .thrown "!if(hasUL()) %s %d"⟩

/-- `on_InitClient`. -/
def onInitClient (s : Client Addr) (caps : OrdSet Addr) : Turn Addr :=
  ({ s with uplinkConnectionState := some (.new caps) }.stageD2PingNeighboursStart inst now).andThen
    fun s => ⟨s, [.subscribeNotifications], .returned⟩

/-! ## Dispatch -/

/-- `handleEvent`, with the dispatch of `on_IncomingOnConnector`. -/
def handleEvent (s : Client Addr) : Input Addr → Turn Addr
  | .startService => ⟨s, [.subscribeNotifications], .returned⟩
  | .initClient caps => s.onInitClient inst now caps
  | .tickAlarm tid cookie => s.onTickAlarm inst now tid cookie
  | .getReferrersRSP referrerAddresses => s.onGetReferrersRSP inst now referrerAddresses
  | .connected _ => ⟨s, [], .returned⟩
  | .connectFailed destinationAddr => s.onDisconnected inst now destinationAddr
  | .disconnected destinationAddr => s.onDisconnected inst now destinationAddr
  | .pong e esi => s.onPong inst now e esi
  | .subscribeNotifications route => s.onSubscribeNotifications route
  | .updateConfigRSP bod => ⟨{ s with configBod := bod }, [], .returned⟩
  | .updateConfigRSPOnConnector bod =>
      ⟨{ s with configBod := bod },
        s.mReadyNotificationBackroutes.map (.updateConfigRSP · bod), .returned⟩
  | .toplinkDeliverREQ e => s.onToplinkDeliverREQ inst e
  | .toplinkDeliverRSP route eventData => ⟨s, [.pass route eventData], .returned⟩
  | .other => ⟨s, [], .returned⟩

end Client

/-- An instance whose addresses are written in one byte. -/
def oneByte : Instance Nat where
  globalCookie := [1]
  getStringAddr a := [UInt8.ofNat a]

end Megatron.ReferrerClient
