import Megatron.Lib.Machine
import Megatron.Referrer.Service
import Megatron.Timer.Service

/-!
# Runs of the referrer

The referrer, its queue and the timer: events of the network and of other
services arrive in any order, with any content and at any time; the alarms a
handler arms and stops travel to the timer, whose ticks come back through the
queue.  A run begins where `startService` has been handled.

`Effect` says once what the handling of an input can do; the invariants of the
later modules go through its cases.

## Main results

* `effect_handleEvent` — every turn of the service is one of the cases.
* `handle_invariant` — what every turn keeps holds in every reachable state.
-/

namespace Megatron.Referrer

open Megatron.Corelib Megatron.Lib

variable {Addr : Type} [LinearOrder Addr]

/-! ## The system -/

/-- What a handler sends to the timer. -/
def Sent.timerEvent? : Sent Addr → Option (Timer.Event (Alarm Addr))
  | .resetAlarm a cookie => some (.resetAlarm a cookie)
  | .stopAlarm a => some (.stopAlarm a)
  | _ => none

/-- The alarms among what is sent. -/
def timerEvents (out : List (Sent Addr)) : List (Timer.Event (Alarm Addr)) :=
  out.filterMap Sent.timerEvent?

/-- An input that has been handled: on which data, when, and what it was. -/
structure Handled (Addr : Type) [LinearOrder Addr] where
  before : Rd Addr
  now : Int
  input : Input Addr

/-- The service, the timer, the queue of the service, everything sent so far
and everything handled so far. -/
structure State (Addr : Type) [LinearOrder Addr] where
  rd : Rd Addr
  timer : Timer.State (Alarm Addr)
  queue : List (Input Addr)
  trace : List (Sent Addr)
  history : List (Handled Addr)

/-- What can happen next. -/
inductive Action (Addr : Type) [LinearOrder Addr] where
  | timer (a : Timer.Action)
  | arrive (i : Input Addr)
  | handle (now : Int)
  deriving DecidableEq

/-- Ticks come from the timer only. -/
def Input.IsTick : Input Addr → Prop
  | .tickAlarm _ _ => True
  | _ => False

instance Input.decidableIsTick : ∀ i : Input Addr, Decidable i.IsTick
  | .tickAlarm _ _ => .isTrue trivial
  | .getReferrersRSP _ _ | .connected _ | .connectFailed _ | .disconnected _
  | .disaccepted _ | .ping _ _ _ _ | .pong _ _ | .subscribeNotifications _
  | .updateConfigREQ _ | .updateConfigRSP _ => .isFalse id

/-- A task of the timer, as the tick it becomes. -/
def tick (t : Timer.Task (Alarm Addr)) : Input Addr := .tickAlarm t.key t.cookie

namespace State

/-- The turn of input `i`, with the rest of the queue. -/
def turn (inst : Instance Addr) (now : Int) (s : State Addr) (i : Input Addr)
    (queue : List (Input Addr)) : State Addr where
  rd := (s.rd.handleEvent inst now i).1
  timer := s.timer.send (timerEvents (s.rd.handleEvent inst now i).2)
  queue := queue
  trace := s.trace ++ (s.rd.handleEvent inst now i).2
  history := s.history ++ [⟨s.rd, now, i⟩]

def enabled (s : State Addr) : Action Addr → Prop
  | .timer a => s.timer.enabled a
  | .arrive i => ¬ i.IsTick
  | .handle _ => s.queue ≠ []

instance decidableEnabled (s : State Addr) : ∀ a, Decidable (s.enabled a)
  | .timer a => inferInstanceAs (Decidable (s.timer.enabled a))
  | .arrive i => inferInstanceAs (Decidable (¬ i.IsTick))
  | .handle _ => inferInstanceAs (Decidable (s.queue ≠ []))

def apply (inst : Instance Addr) (s : State Addr) : Action Addr → State Addr
  | .timer a =>
      { s with
        timer := (s.timer.step a).1
        queue := s.queue ++ (s.timer.step a).2.map tick }
  | .arrive i => { s with queue := s.queue ++ [i] }
  | .handle now =>
      match s.queue with
      | [] => s
      | i :: queue => s.turn inst now i queue

end State

/-- The data as the constructor leaves them; `stage` is not initialised. -/
structure Constructed (rd : Rd Addr) : Prop where
  uplinkConnectionState : rd.uplinkConnectionState =
    .new rd.uplinkConnectionState.mIsTopServer rd.uplinkConnectionState.saCapsFromConfig
  urirefs : rd.urirefs = []
  mReadyNotificationBackroutes : rd.mReadyNotificationBackroutes = []
  connectionSequenceId : rd.connectionSequenceId = 0

/-- The system once `startService` has been handled. -/
def started (inst : Instance Addr) (now : Int) (rd : Rd Addr) : State Addr where
  rd := (rd.onStartService inst now).1
  timer := { queue := timerEvents (rd.onStartService inst now).2, all := [], passing := none }
  queue := []
  trace := (rd.onStartService inst now).2
  history := []

/-- The referrer with its timer. -/
def machine (inst : Instance Addr) : Machine (State Addr) (Action Addr) where
  init s := ∃ now rd, Constructed rd ∧ s = started inst now rd
  enabled := State.enabled
  apply := State.apply inst

instance decidableMachineEnabled (inst : Instance Addr) (s : State Addr) (a : Action Addr) :
    Decidable ((machine inst).enabled s a) :=
  inferInstanceAs (Decidable (s.enabled a))

/-! ## What the stages do -/

namespace Rd

variable (inst : Instance Addr) (now : Int)

/-- The start of the procedure: a new number, a new connection state. -/
theorem fst_stageD2PingNeighboursStart (rd : Rd Addr) :
    ∃ stage neighbours, (stage = .d2PingNeighbours ∨ stage = .d21PingCaps) ∧
      (rd.stageD2PingNeighboursStart inst now).1 = { rd with
        connectionSequenceId := rd.connectionSequenceId + 1
        stage := stage
        neighbours := neighbours
        uplinkConnectionState := .new rd.uplinkConnectionState.mIsTopServer
          rd.uplinkConnectionState.saCapsFromConfig } := by
  simp only [stageD2PingNeighboursStart]
  split
  · exact ⟨.d2PingNeighbours, rd.neighbours, Or.inl rfl, rfl⟩
  · split
    · exact ⟨.d2PingNeighbours, ∅, Or.inl rfl, rfl⟩
    · exact ⟨.d21PingCaps, ∅, Or.inr rfl, rfl⟩

/-- What is sent while a stage of pings starts under a number. -/
inductive IsStarting (number : Int) : Sent Addr → Prop
  | ping (sa e) (h : e.connectionSequenceId = number) : IsStarting number (.ping sa e)
  | common : IsStarting number (.resetAlarm .t001CommonConnectFailed number)
  | neighbours : IsStarting number (.resetAlarm .t040D2CachePongTimedOutFromNeighbours number)

theorem snd_stageD21PingCapsStart (rd : Rd Addr) :
    ∀ x ∈ (rd.stageD21PingCapsStart inst now).2, IsStarting rd.connectionSequenceId x := by
  intro x hx
  simp only [stageD21PingCapsStart, List.mem_append, List.mem_map, List.mem_singleton] at hx
  rcases hx with ⟨caps, -, rfl⟩ | rfl
  · exact .ping _ _ rfl
  · exact .common

theorem snd_stageD2PingNeighboursStart (rd : Rd Addr) :
    ∀ x ∈ (rd.stageD2PingNeighboursStart inst now).2,
      IsStarting (rd.connectionSequenceId + 1) x := by
  intro x hx
  simp only [stageD2PingNeighboursStart] at hx
  split at hx
  · cases hx
  · split at hx
    · simp only [List.mem_append, List.mem_cons, List.mem_map, List.not_mem_nil,
        or_false] at hx
      rcases hx with (rfl | ⟨i, -, rfl⟩) | rfl
      · exact .common
      · exact .ping _ _ rfl
      · exact .neighbours
    · rcases List.mem_cons.1 hx with rfl | hx
      · exact .common
      · exact snd_stageD21PingCapsStart inst now _ x hx

/-- Every node but a top server has its common alarm armed. -/
theorem reset_mem_stageD2PingNeighboursStart {rd : Rd Addr}
    (hTop : rd.uplinkConnectionState.mIsTopServer = false) :
    .resetAlarm .t001CommonConnectFailed (rd.connectionSequenceId + 1) ∈
      (rd.stageD2PingNeighboursStart inst now).2 := by
  simp only [stageD2PingNeighboursStart, UplinkConnectionState.new, hTop]
  split
  · contradiction
  · split <;> exact List.mem_cons_self

theorem fst_stageD3GetReferrersStart (rd : Rd Addr) (sa : Addr) :
    (rd.stageD3GetReferrersStart inst sa).1 = { rd with stage := .d3GetReferrers } := by
  simp only [stageD3GetReferrersStart]
  split <;> rfl

/-- An uplink is chosen: the connection state after it. -/
theorem fst_d4UplinkMode (rd : Rd Addr) (esi : Esi Addr) :
    (rd.d4UplinkMode inst now esi).1 = { rd with
      stage := .d6MaintainConnection
      uplinkConnectionState := { rd.uplinkConnectionState with
        connectionEstablished := true
        uplink := rd.uplinkConnectionState.uplink.insert esi.remoteName
        pongedForCleanupSockets := [] } } := rfl

/-- The sockets that are closed when a peer is chosen. -/
def cleanup (rd : Rd Addr) (remoteAddr : Addr) : List (Sent Addr) :=
  (rd.uplinkConnectionState.pongedForCleanupSockets.filter
    (fun z => z.remoteName ≠ remoteAddr)).map (.close · "cleanup unused connections")

/-- An uplink is chosen: what is sent. -/
theorem snd_d4UplinkMode (rd : Rd Addr) (esi : Esi Addr) :
    (rd.d4UplinkMode inst now esi).2 =
      .switchMode esi :: .stopAlarm .t001CommonConnectFailed ::
        rd.notifyAll (.uplinkIsConnected esi.remoteName) ++
        rd.registerReferrer inst esi.remoteName ++ rd.cleanup esi.remoteName ++
        [rd.sendPing inst now esi.remoteName .ptCapsShort,
          rd.resetAlarm (.t007D6ResendPingCapsShort esi.remoteName)] := rfl

end Rd

/-! ## One turn -/

/-- The input changes nothing and sends nothing. -/
def Idle (inst : Instance Addr) (rd : Rd Addr) : Input Addr → Prop
  | .tickAlarm tid cookie => cookie = rd.connectionSequenceId →
      match tid with
      | .t002D3CapsGetServiceRequestIsTimedOut => True
      | .t008D6ResendPingCapsLong _ => True
      | .t040D2CachePongTimedOutFromNeighbours => True
      | .t009PongTimedOutCapsLong sa => sa ∉ rd.uplinkConnectionState.uplink
      | .t011DownlinkPingTimedOut sid _ => ¬ rd.HasDownlink sid
      | _ => False
  | .getReferrersRSP _ _ => rd.stage ≠ .d3GetReferrers
  | .connected _ => True
  | .connectFailed sa => sa ∉ rd.uplinkConnectionState.uplink
  | .disconnected sa => sa ∉ rd.uplinkConnectionState.uplink
  | .disaccepted mId => ¬ rd.HasDownlink mId
  | .pong e _ => ¬ rd.Accepts inst e
  | _ => False

/-- A handler selects by the visible name; `before` is what it sends first. -/
inductive SelectsByVisibleName (rd : Rd Addr) : Input Addr → List (Sent Addr) → Prop
  | tick020 : SelectsByVisibleName rd
      (.tickAlarm .t020D31WaitAfterSendPtCache rd.connectionSequenceId) []
  | tick002 (h : rd.stage = .d3GetReferrers) : SelectsByVisibleName rd
      (.tickAlarm .t002D3CapsGetServiceRequestIsTimedOut rd.connectionSequenceId) []
  | answer (issued : Int) (h : rd.stage = .d3GetReferrers) : SelectsByVisibleName rd
      (.getReferrersRSP issued []) [.stopAlarm .t002D3CapsGetServiceRequestIsTimedOut,
        rd.resetAlarm .t001CommonConnectFailed]

/-- The connection to the uplink is reported lost. -/
inductive Loses (sa : Addr) : Input Addr → Prop
  | connectFailed : Loses sa (.connectFailed sa)
  | disconnected : Loses sa (.disconnected sa)

/-- A downlink is gone, or has not pinged for too long. -/
inductive Drops (cookie : Int) (sid : SocketId) : Input Addr → Prop
  | disaccepted : Drops cookie sid (.disaccepted sid)
  | tick (sa : Addr) : Drops cookie sid (.tickAlarm (.t011DownlinkPingTimedOut sid sa) cookie)

/-- The peer a pong in D3_1 selects. -/
def ChosenAtPong (rd : Rd Addr) (visibleNameOfPinger : Addr) (y : Ponged Addr) : Prop :=
  rd.uplinkConnectionState.pongedAll.find? (fun y => ¬ rd.IsTopServer y.esi.remoteName ∧
      y.visibleName = visibleNameOfPinger) = some y ∨
    rd.uplinkConnectionState.pongedAll.find? (fun y => ¬ rd.IsTopServer y.esi.remoteName ∧
        y.visibleName = visibleNameOfPinger) = none ∧
      rd.uplinkConnectionState.pongedAll.find? (fun y => rd.IsTopServer y.esi.remoteName) =
        some y ∧ y.visibleName = visibleNameOfPinger

/-- The data after an accepted pong, before anything else. -/
def Rd.afterPong (inst : Instance Addr) (now : Int) (rd : Rd Addr) (e : Pong Addr)
    (esi : Esi Addr) : Rd Addr :=
  (rd.pongReceived now e esi).pongLearnt inst e esi

/-- What the handling of an input can do. -/
inductive Effect (inst : Instance Addr) (now : Int) (rd : Rd Addr) :
    Input Addr → Turn Addr → Prop
  | idle {i} (h : Idle inst rd i) : Effect inst now rd i (rd, [])
  | waitOn (h : rd.chooseByVisibleName = none) :
      Effect inst now rd (.tickAlarm .t020D31WaitAfterSendPtCache rd.connectionSequenceId)
        (rd, [rd.resetAlarm .t001CommonConnectFailed])
  | nobody (issued) (hStage : rd.stage = .d3GetReferrers) (h : rd.chooseByVisibleName = none) :
      Effect inst now rd (.getReferrersRSP issued [])
        (rd, [.stopAlarm .t002D3CapsGetServiceRequestIsTimedOut,
          rd.resetAlarm .t001CommonConnectFailed])
  | chosen {i before y} (hSel : SelectsByVisibleName rd i before)
      (h : rd.chooseByVisibleName = some y) :
      Effect inst now rd i ((rd.d4UplinkMode inst now y.esi).1,
        before ++ (rd.d4UplinkMode inst now y.esi).2)
  | pingReferrers (issued addrs) (hStage : rd.stage = .d3GetReferrers) (h : addrs ≠ []) :
      Effect inst now rd (.getReferrersRSP issued addrs)
        ({ rd with stage := .d31SendPingToRespondedReferrers },
          [.stopAlarm .t002D3CapsGetServiceRequestIsTimedOut,
            rd.resetAlarm .t001CommonConnectFailed] ++
            addrs.map (fun i => rd.sendPing inst now i .ptCached) ++
            [rd.resetAlarm .t020D31WaitAfterSendPtCache])
  | timedOut : Effect inst now rd
      (.tickAlarm .t001CommonConnectFailed rd.connectionSequenceId)
      (rd.stageD2PingNeighboursStart inst now)
  | pongTimedOut (sa) (h : sa ∈ rd.uplinkConnectionState.uplink) :
      Effect inst now rd (.tickAlarm (.t009PongTimedOutCapsLong sa) rd.connectionSequenceId)
        ((rd.stageD2PingNeighboursStart inst now).1,
          .stopAlarm (.t007D6ResendPingCapsShort sa) ::
            .stopAlarm (.t008D6ResendPingCapsLong sa) ::
            .stopAlarm (.t009PongTimedOutCapsLong sa) ::
            (rd.stageD2PingNeighboursStart inst now).2)
  | lost {i sa} (hLoses : Loses sa i) (h : sa ∈ rd.uplinkConnectionState.uplink) :
      Effect inst now rd i
        (({ rd with urirefs := [] }.stageD2PingNeighboursStart inst now).1,
          rd.notifyAll (.uplinkIsDisconnected sa) ++
            rd.urirefs.flatMap (fun z => .close z.2.esi "uplink disconnected" ::
              rd.notifyAll (.downlinkDisconnected z.1)) ++
            ({ rd with urirefs := [] }.stageD2PingNeighboursStart inst now).2)
  | noNeighbour (h : rd.stage = .d2PingNeighbours) :
      Effect inst now rd
        (.tickAlarm .t040D2CachePongTimedOutFromNeighbours rd.connectionSequenceId)
        (rd.stageD21PingCapsStart inst now)
  | resendShort (sa) :
      Effect inst now rd (.tickAlarm (.t007D6ResendPingCapsShort sa) rd.connectionSequenceId)
        (rd, [rd.sendPing inst now sa
            (if rd.IsTopServer sa then .ptCapsShort else .ptMasterShort),
          rd.resetAlarm (.t007D6ResendPingCapsShort sa)])
  | resendLong (sa) (h : rd.stage = .d6MaintainConnection) :
      Effect inst now rd (.tickAlarm (.t008D6ResendPingCapsLong sa) rd.connectionSequenceId)
        (rd, [rd.sendPing inst now sa
          (if rd.IsTopServer sa then .ptCapsLong else .ptMasterLong)])
  | reregister {uplink} (h : rd.getUL = some uplink) :
      Effect inst now rd (.tickAlarm .t012ReregisterReferrer rd.connectionSequenceId)
        (rd, rd.registerReferrer inst uplink)
  | noUplink (h : rd.getUL = none) :
      Effect inst now rd (.tickAlarm .t012ReregisterReferrer rd.connectionSequenceId)
        (rd, [.error "if(uplinkConnectionState->uplink.size()==0) %s"])
  | dropped {i sid} (hDrops : Drops rd.connectionSequenceId sid i) (h : rd.HasDownlink sid) :
      Effect inst now rd i ({ rd with urirefs := rd.urirefs.filter (·.1 ≠ sid) },
        rd.notifyAll (.downlinkDisconnected sid))
  | pongAtTop (e esi) (hAcc : rd.Accepts inst e)
      (hTop : rd.uplinkConnectionState.mIsTopServer = true) {what} :
      Effect inst now rd (.pong e esi) (rd.pongReceived now e esi, [.error what])
  | pongNoted (e esi) (hAcc : rd.Accepts inst e) {out}
      (hOut : out = [] ∨ ∃ what, out = [.error what]) :
      Effect inst now rd (.pong e esi) (rd.afterPong inst now e esi, out)
  | pongShort (e esi) (hAcc : rd.Accepts inst e) :
      Effect inst now rd (.pong e esi)
        (rd.afterPong inst now e esi, rd.d6OnPongPtCapsShort esi)
  | pongLong (e esi) (hAcc : rd.Accepts inst e) :
      Effect inst now rd (.pong e esi)
        (rd.afterPong inst now e esi, rd.d6OnPongPtCapsLong esi)
  | pongAsked (e esi) (hAcc : rd.Accepts inst e)
      (hStage : rd.stage = .d2PingNeighbours ∨ rd.stage = .d21PingCaps) :
      Effect inst now rd (.pong e esi)
        ((rd.afterPong inst now e esi).stageD3GetReferrersStart inst esi.remoteName)
  | pongChosen (e esi) (hAcc : rd.Accepts inst e) {y} (hType : e.pingType = .ptCached)
      (hStage : rd.stage = .d31SendPingToRespondedReferrers)
      (h : ChosenAtPong (rd.afterPong inst now e esi) e.visibleNameOfPinger y) :
      Effect inst now rd (.pong e esi)
        (((rd.afterPong inst now e esi).d4UplinkMode inst now y.esi).1,
          .stopAlarm .t020D31WaitAfterSendPtCache ::
            ((rd.afterPong inst now e esi).d4UplinkMode inst now y.esi).2)
  | pinged (e route esi mId) :
      Effect inst now rd (.ping e route esi mId) (rd.onIncomingOnAcceptor inst e route esi mId)
  | subscribed (route) :
      Effect inst now rd (.subscribeNotifications route) (rd.onSubscribeNotifications route)
  | updateREQ (bod) : Effect inst now rd (.updateConfigREQ bod) (rd.onUpdateConfigREQ bod)
  | updateRSP (bod) : Effect inst now rd (.updateConfigRSP bod) (rd.onUpdateConfigRSP bod)

namespace Rd

variable {inst : Instance Addr} {now : Int}

theorem effect_onTickAlarm (rd : Rd Addr) (tid : Alarm Addr) (cookie : Int) :
    Effect inst now rd (.tickAlarm tid cookie) (rd.onTickAlarm inst now tid cookie) := by
  simp only [onTickAlarm]
  split
  · rename_i hCookie
    exact .idle fun h => absurd h hCookie
  · rename_i hCookie
    obtain rfl : cookie = rd.connectionSequenceId := not_not.1 hCookie
    cases tid with
    | t001CommonConnectFailed => exact .timedOut
    | t002D3CapsGetServiceRequestIsTimedOut =>
        by_cases hStage : rd.stage = .d3GetReferrers
        · simp only [hStage, if_true]
          cases hChosen : rd.chooseByVisibleName with
          | none => exact .idle fun _ => trivial
          | some y => exact .chosen (.tick002 hStage) hChosen
        · simp only [hStage, if_false]
          exact .idle fun _ => trivial
    | t007D6ResendPingCapsShort sa => exact .resendShort sa
    | t008D6ResendPingCapsLong sa =>
        by_cases hStage : rd.stage = .d6MaintainConnection
        · simp only [hStage, if_true]
          exact .resendLong sa hStage
        · simp only [hStage, if_false]
          exact .idle fun _ => trivial
    | t009PongTimedOutCapsLong sa =>
        by_cases hUp : sa ∈ rd.uplinkConnectionState.uplink
        · simp only [d6OnDisconnected, hUp, if_true]
          exact .pongTimedOut sa hUp
        · simp only [d6OnDisconnected, hUp, if_false]
          exact .idle fun _ => hUp
    | t011DownlinkPingTimedOut sid sa =>
        by_cases hDown : rd.HasDownlink sid
        · simp only [onDeleteDownlink, hDown, if_true]
          exact .dropped (.tick sa) hDown
        · simp only [onDeleteDownlink, hDown, if_false]
          exact .idle fun _ => hDown
    | t012ReregisterReferrer =>
        cases hUL : rd.getUL with
        | none => exact .noUplink hUL
        | some uplink => exact .reregister hUL
    | t020D31WaitAfterSendPtCache =>
        cases hChosen : rd.chooseByVisibleName with
        | none => exact .waitOn hChosen
        | some y => exact .chosen .tick020 hChosen
    | t040D2CachePongTimedOutFromNeighbours =>
        by_cases hStage : rd.stage = .d2PingNeighbours
        · simp only [hStage, ne_eq, not_true_eq_false, if_false]
          exact .noNeighbour hStage
        · simp only [hStage, ne_eq, not_false_eq_true, if_true]
          exact .idle fun _ => trivial

theorem effect_onGetReferrersRSP (rd : Rd Addr) (issued : Int) (addrs : List Addr) :
    Effect inst now rd (.getReferrersRSP issued addrs) (rd.onGetReferrersRSP inst now addrs) := by
  by_cases hStage : rd.stage = .d3GetReferrers
  · simp only [onGetReferrersRSP, hStage, ne_eq, not_true_eq_false, if_false]
    by_cases hNil : addrs = []
    · subst hNil
      simp only [if_true]
      cases hChosen : rd.chooseByVisibleName with
      | none => exact .nobody issued hStage hChosen
      | some y => exact .chosen (.answer issued hStage) hChosen
    · simp only [hNil, if_false]
      exact .pingReferrers issued addrs hStage hNil
  · simp only [onGetReferrersRSP, hStage, ne_eq, not_false_eq_true, if_true]
    exact .idle hStage

/-- After the procedure has been started again there is no uplink to lose. -/
theorem onDisconnected_of_mem {rd : Rd Addr} {sa : Addr}
    (h : sa ∈ rd.uplinkConnectionState.uplink) :
    rd.onDisconnected inst now sa = rd.d4OnDisconnected inst now sa := by
  obtain ⟨stage, neighbours, -, hRd⟩ :=
    fst_stageD2PingNeighboursStart inst now { rd with urirefs := [] }
  have hNone : sa ∉
      (rd.d4OnDisconnected inst now sa).1.uplinkConnectionState.uplink := by
    simp [d4OnDisconnected, h, hRd, UplinkConnectionState.new]
  simp [onDisconnected, d6OnDisconnected, hNone]

theorem effect_onDisconnected (rd : Rd Addr) {sa : Addr} {i : Input Addr} (hLoses : Loses sa i) :
    Effect inst now rd i (rd.onDisconnected inst now sa) := by
  by_cases hUp : sa ∈ rd.uplinkConnectionState.uplink
  · rw [onDisconnected_of_mem hUp]
    simp only [d4OnDisconnected, hUp, if_true]
    exact .lost hLoses hUp
  · simp only [onDisconnected, d4OnDisconnected, d6OnDisconnected, hUp, if_false,
      List.append_nil]
    cases hLoses <;> exact .idle hUp

theorem effect_onDeleteDownlink (rd : Rd Addr) (sid : SocketId) :
    Effect inst now rd (.disaccepted sid) (rd.onDeleteDownlink sid) := by
  by_cases hDown : rd.HasDownlink sid
  · simp only [onDeleteDownlink, hDown, if_true]
    exact .dropped .disaccepted hDown
  · simp only [onDeleteDownlink, hDown, if_false]
    exact .idle hDown

theorem effect_onPongPtCached {rd : Rd Addr} {e : Pong Addr} (esi : Esi Addr)
    (hAcc : rd.Accepts inst e) (hType : e.pingType = .ptCached) :
    Effect inst now rd (.pong e esi)
      ((rd.afterPong inst now e esi).onPongPtCached inst now e esi) := by
  simp only [onPongPtCached]
  split
  · rename_i hAsk
    refine .pongAsked e esi hAcc ?_
    rcases hAsk with ⟨hStage, -⟩ | ⟨hStage, -⟩
    · exact Or.inl hStage
    · exact Or.inr hStage
  · split
    · rename_i hStage
      simp only [onPongPtCachedD31]
      split
      · rename_i y hFound
        exact .pongChosen e esi hAcc hType hStage (Or.inl hFound)
      · rename_i hPlain
        split
        · rename_i y hFound
          split
          · exact .pongNoted e esi hAcc (Or.inr ⟨_, rfl⟩)
          · rename_i hName
            exact .pongChosen e esi hAcc hType hStage
              (Or.inr ⟨hPlain, hFound, not_not.1 hName⟩)
        · exact .pongNoted e esi hAcc (Or.inl rfl)
    · exact .pongNoted e esi hAcc (Or.inl rfl)

theorem effect_onPong (rd : Rd Addr) (e : Pong Addr) (esi : Esi Addr) :
    Effect inst now rd (.pong e esi) (rd.onPong inst now e esi) := by
  by_cases hAcc : rd.Accepts inst e
  · simp only [onPong, hAcc, not_true_eq_false, if_false]
    split
    · rename_i hTop
      exact .pongAtTop e esi hAcc hTop.1
    · cases hType : e.pingType with
      | ptCached => exact effect_onPongPtCached esi hAcc hType
      | ptMasterShort => exact .pongShort e esi hAcc
      | ptMasterLong => exact .pongLong e esi hAcc
      | ptCapsShort => exact .pongShort e esi hAcc
      | ptCapsLong => exact .pongLong e esi hAcc
      | undef n => exact .pongNoted e esi hAcc (Or.inl rfl)
  · simp only [onPong, hAcc, not_false_eq_true, if_true]
    exact .idle hAcc

/-- **One turn.** -/
theorem effect_handleEvent (inst : Instance Addr) (now : Int) (rd : Rd Addr) (i : Input Addr) :
    Effect inst now rd i (rd.handleEvent inst now i) := by
  cases i with
  | tickAlarm tid cookie => exact effect_onTickAlarm rd tid cookie
  | getReferrersRSP issued addrs => exact effect_onGetReferrersRSP rd issued addrs
  | connected sa => exact .idle trivial
  | connectFailed sa => exact effect_onDisconnected rd .connectFailed
  | disconnected sa => exact effect_onDisconnected rd .disconnected
  | disaccepted mId => exact effect_onDeleteDownlink rd mId
  | ping e route esi mId => exact .pinged e route esi mId
  | pong e esi => exact effect_onPong rd e esi
  | subscribeNotifications route => exact .subscribed route
  | updateConfigREQ bod => exact .updateREQ bod
  | updateConfigRSP bod => exact .updateRSP bod

end Rd

/-! ## Every turn -/

/-- Nothing changes the role of a node or its configuration. -/
theorem Effect.role {inst : Instance Addr} {now : Int} {rd : Rd Addr} {i : Input Addr}
    {t : Turn Addr} (h : Effect inst now rd i t) :
    t.1.uplinkConnectionState.mIsTopServer = rd.uplinkConnectionState.mIsTopServer ∧
      t.1.uplinkConnectionState.saCapsFromConfig =
        rd.uplinkConnectionState.saCapsFromConfig := by
  have hStart : ∀ rd : Rd Addr,
      (rd.stageD2PingNeighboursStart inst now).1.uplinkConnectionState.mIsTopServer =
        rd.uplinkConnectionState.mIsTopServer ∧
      (rd.stageD2PingNeighboursStart inst now).1.uplinkConnectionState.saCapsFromConfig =
        rd.uplinkConnectionState.saCapsFromConfig := by
    intro rd
    obtain ⟨stage, neighbours, -, hRd⟩ := Rd.fst_stageD2PingNeighboursStart inst now rd
    rw [hRd]
    exact ⟨rfl, rfl⟩
  cases h with
  | timedOut => exact hStart rd
  | pongTimedOut => exact hStart rd
  | lost => exact hStart _
  | pongAsked e esi =>
      rw [Rd.fst_stageD3GetReferrersStart]
      exact ⟨rfl, rfl⟩
  | pinged e route esi mId =>
      simp only [Rd.onIncomingOnAcceptor, Rd.onPing]
      split_ifs <;> exact ⟨rfl, rfl⟩
  | _ => exact ⟨rfl, rfl⟩

theorem hasDownlink_iff {rd : Rd Addr} {sid : SocketId} :
    rd.HasDownlink sid ↔ ∃ x ∈ rd.urirefs, x.1 = sid := by
  rw [Rd.HasDownlink, List.lookup_isSome_iff]
  simp only [beq_iff_eq, eq_comm (a := sid)]

/-- The node is not a top server. -/
def Rd.NonTop (rd : Rd Addr) : Prop := rd.uplinkConnectionState.mIsTopServer = false

instance Rd.decidableNonTop (rd : Rd Addr) : Decidable rd.NonTop :=
  inferInstanceAs (Decidable (rd.uplinkConnectionState.mIsTopServer = false))

theorem nonTop_handleEvent {inst : Instance Addr} {now : Int} {rd : Rd Addr} {i : Input Addr} :
    (rd.handleEvent inst now i).1.NonTop ↔ rd.NonTop := by
  rw [Rd.NonTop, (Rd.effect_handleEvent inst now rd i).role.1, Rd.NonTop]

theorem nonTop_onStartService {inst : Instance Addr} {now : Int} {rd : Rd Addr} :
    (rd.onStartService inst now).1.NonTop ↔ rd.NonTop := by
  simp only [Rd.onStartService]
  split
  · exact Iff.rfl
  · obtain ⟨stage, neighbours, -, hRd⟩ := Rd.fst_stageD2PingNeighboursStart inst now rd
    rw [hRd]
    exact Iff.rfl

theorem onStartService_of_nonTop {inst : Instance Addr} {now : Int} {rd : Rd Addr}
    (h : rd.NonTop) : rd.onStartService inst now = rd.stageD2PingNeighboursStart inst now := by
  rw [Rd.onStartService, if_neg]
  rw [show rd.uplinkConnectionState.mIsTopServer = false from h]
  decide

/-- The connection state starts anew. -/
theorem uplinkConnectionState_onStartService {inst : Instance Addr} {now : Int} {rd : Rd Addr}
    (h : Constructed rd) :
    (rd.onStartService inst now).1.uplinkConnectionState =
      .new rd.uplinkConnectionState.mIsTopServer rd.uplinkConnectionState.saCapsFromConfig := by
  simp only [Rd.onStartService]
  split
  · exact h.uplinkConnectionState
  · obtain ⟨stage, neighbours, -, hRd⟩ := Rd.fst_stageD2PingNeighboursStart inst now rd
    rw [hRd]

theorem urirefs_onStartService {inst : Instance Addr} {now : Int} {rd : Rd Addr}
    (h : Constructed rd) : (rd.onStartService inst now).1.urirefs = [] := by
  simp only [Rd.onStartService]
  split
  · exact h.urirefs
  · obtain ⟨stage, neighbours, -, hRd⟩ := Rd.fst_stageD2PingNeighboursStart inst now rd
    rw [hRd]
    exact h.urirefs

/-- A condition on the turns of the service: its data, what it has handled,
the clock and the input. -/
abbrev TurnGuard (Addr : Type) [LinearOrder Addr] :=
  Rd Addr → List (Handled Addr) → Int → Input Addr → Prop

/-- The steps that meet the condition: every step but a turn does. -/
def AtTurn (g : TurnGuard Addr) (s : State Addr) : Action Addr → Prop
  | .handle now => ∀ i ∈ s.queue.head?, g s.rd s.history now i
  | _ => True

instance decidableAtTurn (g : TurnGuard Addr) [∀ rd h now i, Decidable (g rd h now i)]
    (s : State Addr) : ∀ a, Decidable (AtTurn g s a)
  | .handle now => inferInstanceAs (Decidable (∀ i ∈ s.queue.head?, g s.rd s.history now i))
  | .timer _ => .isTrue trivial
  | .arrive _ => .isTrue trivial

namespace State

/-- Only a turn changes the data of the service. -/
theorem apply_cases (inst : Instance Addr) {s : State Addr} {a : Action Addr} (hEn : s.enabled a) :
    (∃ now i queue, a = .handle now ∧ s.queue = i :: queue ∧
        s.apply inst a = s.turn inst now i queue) ∨
      (s.apply inst a).rd = s.rd ∧ (s.apply inst a).trace = s.trace ∧
        (s.apply inst a).history = s.history ∧ ∀ now, a ≠ .handle now := by
  cases a with
  | timer a => exact Or.inr ⟨rfl, rfl, rfl, by simp⟩
  | arrive i => exact Or.inr ⟨rfl, rfl, rfl, by simp⟩
  | handle now =>
      cases hQueue : s.queue with
      | nil => exact absurd hQueue hEn
      | cons i queue =>
          exact Or.inl ⟨now, i, queue, rfl, rfl, by simp [apply, hQueue]⟩

end State

section Invariants

variable {inst : Instance Addr} {g : TurnGuard Addr}
  {I : Rd Addr → List (Sent Addr) → List (Handled Addr) → Prop}

/-- A step keeps what every turn keeps. -/
theorem step_invariant
    (hTurn : ∀ rd trace history now i, I rd trace history → g rd history now i →
      I (rd.handleEvent inst now i).1 (trace ++ (rd.handleEvent inst now i).2)
        (history ++ [⟨rd, now, i⟩]))
    {s : State Addr} {a : Action Addr} (hs : I s.rd s.trace s.history)
    (hEn : s.enabled a) (hGuard : AtTurn g s a) :
    I (s.apply inst a).rd (s.apply inst a).trace (s.apply inst a).history := by
  rcases State.apply_cases inst hEn with ⟨now, i, queue, rfl, hQueue, hApply⟩ |
    ⟨hRd, hTrace, hHistory, -⟩
  · rw [hApply]
    exact hTurn s.rd s.trace s.history now i hs (hGuard i (by simp [hQueue]))
  · rw [hRd, hTrace, hHistory]
    exact hs

/-- **What every turn keeps holds in every reachable state**, of the runs whose
turns meet a condition. -/
theorem handle_invariant_guarded
    (hInit : ∀ now rd, Constructed rd →
      I (rd.onStartService inst now).1 (rd.onStartService inst now).2 [])
    (hTurn : ∀ rd trace history now i, I rd trace history → g rd history now i →
      I (rd.handleEvent inst now i).1 (trace ++ (rd.handleEvent inst now i).2)
        (history ++ [⟨rd, now, i⟩]))
    {s : State Addr} (h : ((machine inst).guarded (AtTurn g)).Reachable s) :
    I s.rd s.trace s.history := by
  refine Machine.Reachable.invariant (I := fun s => I s.rd s.trace s.history) ?_ ?_ h
  · rintro s ⟨now, rd, hNew, rfl⟩
    exact hInit now rd hNew
  · intro s a hs hEn
    exact step_invariant hTurn hs hEn.1 hEn.2

/-- What every turn keeps holds in every state of every run. -/
theorem handle_invariant
    (hInit : ∀ now rd, Constructed rd →
      I (rd.onStartService inst now).1 (rd.onStartService inst now).2 [])
    (hTurn : ∀ rd trace history now i, I rd trace history →
      I (rd.handleEvent inst now i).1 (trace ++ (rd.handleEvent inst now i).2)
        (history ++ [⟨rd, now, i⟩]))
    {s : State Addr} (h : (machine inst).Reachable s) : I s.rd s.trace s.history := by
  have hAll : ∀ (s : State Addr) (a : Action Addr), AtTurn (fun _ _ _ _ => True) s a := by
    intro s a
    cases a <;> simp [AtTurn]
  exact handle_invariant_guarded (g := fun _ _ _ _ => True) hInit
    (fun rd trace history now i hI _ => hTurn rd trace history now i hI)
    (h.to_guarded fun s a _ => hAll s a)

end Invariants

/-! ## A small node

The runs given as examples are those of a node with one top server, 9, in its
configuration; addresses are numbers. -/

def oneCaps : Instance Nat where
  globalCookie := [1]
  rpcExternalListenPortMain := 7
  rpcInternalListenAddrs := ∅
  setPort sa _ := sa

/-- Its data before `startService`. -/
def fresh : Rd Nat where
  uplinkConnectionState := .new false (.ofList [9])
  urirefs := []
  mReadyNotificationBackroutes := []
  configBod := []
  connectionSequenceId := 0
  neighbours := ∅
  stage := .d2PingNeighbours
  myExternalAddresses := ∅

/-- A pong to a ping of procedure `sequenceId`. -/
def pongFrom (pingType : PingType) (ref sa : Nat) (level pingTime sequenceId : Int) : Input Nat :=
  .pong ⟨pingType, 5, [2], level, pingTime, sequenceId⟩ ⟨ref, sa⟩

/-- A subscriber of the same node. -/
def aSubscriber : BackRoute := ⟨[1], .localService [2], [], rfl⟩

/-- A node below pings through socket 4. -/
def childPings : Input Nat :=
  .ping ⟨.ptCapsShort, [3], 7, ∅, 0, 1, .ctNode⟩ aSubscriber ⟨4, 30⟩ 4

theorem init_started : (machine oneCaps).init (started oneCaps 0 fresh) :=
  ⟨0, fresh, ⟨rfl, rfl, rfl, rfl⟩, rfl⟩

/-- The top server pongs, knows no referrer, and becomes the uplink. -/
def connects : List (Action Nat) :=
  [.arrive (pongFrom .ptCached 0 9 0 0 1), .handle 1, .arrive (.getReferrersRSP 1 []), .handle 2]

end Megatron.Referrer
