import Megatron.Lib.Machine
import Megatron.ReferrerClient.Service

/-!
# A client before `InitClient`

`uplinkConnectionState` is null until `InitClient` makes it, and stays an object
from then on.  What comes before depends on the handler: `getUL` and the start
of D2 ask whether there is an object, `on_Disconnected`, `on_Pong` and most of
the ticks do not, and the service subscribes to the notifications of the RPC
service before there is one.

## Main results

* `null_iff` — a handler goes through the null reference exactly where there is
  no object and the input is one of those that do not ask.
* `never_null` — a run never does, exactly when no such input comes before
  `InitClient`.
* `never_null_with_object` — from `InitClient` on every input may come.
* `failed_before_init` — a connection that fails before it.
-/

namespace Megatron.ReferrerClient

open Megatron.Lib
open Megatron.Dfs (GlobalCookie ToplinkDeliverREQ)
open Megatron.Referrer (Alarm BackRoute Esi Pong)

variable {Addr : Type} [LinearOrder Addr]

/-! ## The run -/

/-- The data as the constructor leaves them; `stage` is not initialised. -/
structure Constructed (s : Client Addr) : Prop where
  uplinkConnectionState : s.uplinkConnectionState = none
  mReadyNotificationBackroutes : s.mReadyNotificationBackroutes = []
  configBod : s.configBod = []
  connectionSequenceId : s.connectionSequenceId = 0

/-- The service, and whether the program has ended at a null reference. -/
structure Running (Addr : Type) [LinearOrder Addr] where
  client : Client Addr
  crashed : Bool

/-- Every event may come at any time, until the program has ended. -/
def machine (inst : Instance Addr) : Machine (Running Addr) (Int × Input Addr) where
  init r := Constructed r.client ∧ r.crashed = false
  enabled r _ := r.crashed = false
  apply r a :=
    let t := r.client.handleEvent inst a.1 a.2
    ⟨t.state, t.ending = .null⟩

instance decidableMachineEnabled (inst : Instance Addr) (r : Running Addr)
    (a : Int × Input Addr) : Decidable ((machine inst).enabled r a) :=
  inferInstanceAs (Decidable (r.crashed = false))

/-! ## Inputs that go through the reference -/

/-- The inputs whose handlers do not ask whether there is an object. -/
def Dereferences (inst : Instance Addr) (s : Client Addr) : Input Addr → Prop
  | .connectFailed _ => True
  | .disconnected _ => True
  | .pong e _ => s.Accepts inst e
  | .getReferrersRSP referrerAddresses => s.stage = .d3GetReferrers ∧ referrerAddresses = []
  | .tickAlarm tid cookie =>
      cookie = s.connectionSequenceId ∧
        match tid with
        | .t020D31WaitAfterSendPtCache => True
        | .t009PongTimedOutCapsLong _ => True
        | .t040D2CachePongTimedOutFromNeighbours => s.stage = .d2PingNeighbours
        | .t002D3CapsGetServiceRequestIsTimedOut => s.stage = .d3GetReferrers
        | _ => False
  | _ => False

instance decidableDereferences (inst : Instance Addr) (s : Client Addr) :
    ∀ i, Decidable (Dereferences inst s i)
  | .connectFailed _ => .isTrue trivial
  | .disconnected _ => .isTrue trivial
  | .pong e _ => inferInstanceAs (Decidable (s.Accepts inst e))
  | .getReferrersRSP _ => inferInstanceAs (Decidable (_ ∧ _))
  | .tickAlarm tid _ =>
      @instDecidableAnd _ _ (Int.instDecidableEq _ _) <|
        match tid with
        | .t020D31WaitAfterSendPtCache => .isTrue trivial
        | .t009PongTimedOutCapsLong _ => .isTrue trivial
        | .t040D2CachePongTimedOutFromNeighbours => inferInstanceAs (Decidable (s.stage = _))
        | .t002D3CapsGetServiceRequestIsTimedOut => inferInstanceAs (Decidable (s.stage = _))
        | .t001CommonConnectFailed => .isFalse not_false
        | .t007D6ResendPingCapsShort _ => .isFalse not_false
        | .t008D6ResendPingCapsLong _ => .isFalse not_false
        | .t011DownlinkPingTimedOut _ _ => .isFalse not_false
        | .t012ReregisterReferrer => .isFalse not_false
  | .startService => .isFalse not_false
  | .initClient _ => .isFalse not_false
  | .connected _ => .isFalse not_false
  | .subscribeNotifications _ => .isFalse not_false
  | .updateConfigRSP _ => .isFalse not_false
  | .updateConfigRSPOnConnector _ => .isFalse not_false
  | .toplinkDeliverREQ _ => .isFalse not_false
  | .toplinkDeliverRSP _ _ => .isFalse not_false
  | .other => .isFalse not_false

/-- There is an object, or the handler asks for one. -/
def Guarded (inst : Instance Addr) (r : Running Addr) (a : Int × Input Addr) : Prop :=
  r.client.uplinkConnectionState.isSome ∨ ¬ Dereferences inst r.client a.2

instance decidableGuarded (inst : Instance Addr) (r : Running Addr) (a : Int × Input Addr) :
    Decidable (Guarded inst r a) :=
  inferInstanceAs (Decidable (_ ∨ _))

/-! ## Turns with an object -/

/-- The object is there afterwards, and the reference was followed to it. -/
structure Turn.Lives (t : Turn Addr) : Prop where
  object : t.state.uplinkConnectionState.isSome
  ending : t.ending ≠ .null

namespace Turn

theorem lives_after {t : Turn Addr} (h : t.Lives) (sent : List (Sent Addr)) :
    (t.after sent).Lives :=
  ⟨h.object, h.ending⟩

theorem lives_andThen {t : Turn Addr} (h : t.Lives) {f : Client Addr → Turn Addr}
    (hf : ∀ s, s.uplinkConnectionState.isSome → (f s).Lives) : (t.andThen f).Lives := by
  rw [Turn.andThen]
  split
  · exact ⟨(hf t.state h.object).object, (hf t.state h.object).ending⟩
  · exact h

/-- A handler that keeps the object and returns. -/
theorem lives_returned {t : Turn Addr} (h : t.state.uplinkConnectionState.isSome)
    (hEnding : t.ending = .returned) : t.Lives :=
  ⟨h, by simp [hEnding]⟩

/-- A handler that keeps the object and throws. -/
theorem lives_thrown {t : Turn Addr} {what : String}
    (h : t.state.uplinkConnectionState.isSome) (hEnding : t.ending = .thrown what) : t.Lives :=
  ⟨h, by simp [hEnding]⟩

end Turn

namespace Client

variable (inst : Instance Addr) (now : Int)

theorem lives_arrow {s : Client Addr} (h : s.uplinkConnectionState.isSome)
    {f : UplinkConnectionState Addr → Turn Addr} (hf : ∀ u, (f u).Lives) :
    (s.arrow f).Lives := by
  obtain ⟨u, hu⟩ := Option.isSome_iff_exists.1 h
  rw [arrow, hu]
  exact hf u

theorem arrow_none {s : Client Addr} (h : s.uplinkConnectionState = none)
    (f : UplinkConnectionState Addr → Turn Addr) : s.arrow f = ⟨s, [], .null⟩ := by
  rw [arrow, h]

theorem lives_stageD21PingCapsStart {s : Client Addr} (h : s.uplinkConnectionState.isSome) :
    (s.stageD21PingCapsStart inst now).Lives :=
  lives_arrow (s := { s with stage := .d21PingCaps }) h fun _ => Turn.lives_returned h rfl

theorem lives_stageD2PingNeighboursStart {s : Client Addr}
    (h : s.uplinkConnectionState.isSome) : (s.stageD2PingNeighboursStart inst now).Lives := by
  obtain ⟨u, hu⟩ := Option.isSome_iff_exists.1 h
  simp only [stageD2PingNeighboursStart, hu]
  split
  · exact Turn.lives_returned rfl rfl
  · exact Turn.lives_after (lives_stageD21PingCapsStart inst now rfl) _

/-- The start of D2 asks, also where there is no object. -/
theorem ending_stageD2PingNeighboursStart (s : Client Addr) :
    (s.stageD2PingNeighboursStart inst now).ending ≠ .null := by
  cases hObject : s.uplinkConnectionState with
  | none => simp [stageD2PingNeighboursStart, hObject]
  | some u => exact (lives_stageD2PingNeighboursStart inst now (by simp [hObject])).ending

theorem lives_stageD3GetReferrersStart {s : Client Addr} (h : s.uplinkConnectionState.isSome)
    (sa : Addr) : (s.stageD3GetReferrersStart inst sa).Lives := by
  rw [stageD3GetReferrersStart]
  split
  · exact Turn.lives_thrown h rfl
  · exact Turn.lives_returned h rfl

theorem lives_onConnectionEstablished {s : Client Addr} (h : s.uplinkConnectionState.isSome)
    (remoteAddr : Addr) : (s.onConnectionEstablished inst now remoteAddr).Lives :=
  Turn.lives_after
    (lives_arrow h fun _ => Turn.lives_after (Turn.lives_returned rfl rfl) _) _

theorem lives_d4UplinkMode {s : Client Addr} (h : s.uplinkConnectionState.isSome)
    (esi : Esi Addr) : (s.d4UplinkMode inst now esi).Lives := by
  rw [d4UplinkMode]
  exact lives_onConnectionEstablished inst now (by exact h) esi.remoteName

theorem lives_firstPonged {s : Client Addr} (h : s.uplinkConnectionState.isSome)
    {f : Turn Addr} (hf : f.Lives) : (s.firstPonged inst now f).Lives := by
  refine lives_arrow h fun u => ?_
  split
  · exact lives_d4UplinkMode inst now h _
  · exact hf

theorem lives_d6OnDisconnected {s : Client Addr} (h : s.uplinkConnectionState.isSome)
    (remoteAddr : Addr) : (s.d6OnDisconnected inst now remoteAddr).Lives := by
  refine lives_arrow h fun u => ?_
  split
  · exact Turn.lives_after (lives_stageD2PingNeighboursStart inst now h) _
  · exact Turn.lives_returned h rfl

theorem lives_d4OnDisconnected {s : Client Addr} (h : s.uplinkConnectionState.isSome)
    (sa : Addr) : (s.d4OnDisconnected inst now sa).Lives := by
  refine lives_arrow h fun u => ?_
  split
  · exact Turn.lives_after (lives_stageD2PingNeighboursStart inst now h) _
  · exact Turn.lives_returned h rfl

theorem lives_onDisconnected {s : Client Addr} (h : s.uplinkConnectionState.isSome)
    (destinationAddr : Addr) : (s.onDisconnected inst now destinationAddr).Lives :=
  Turn.lives_andThen (lives_d4OnDisconnected inst now h destinationAddr) fun _ h' =>
    lives_d6OnDisconnected inst now h' destinationAddr

theorem lives_onTickAlarm {s : Client Addr} (h : s.uplinkConnectionState.isSome)
    (tid : Alarm Addr) (cookie : Int) : (s.onTickAlarm inst now tid cookie).Lives := by
  unfold onTickAlarm
  split
  · exact Turn.lives_returned h rfl
  cases tid with
  | t001CommonConnectFailed => exact lives_stageD2PingNeighboursStart inst now h
  | t002D3CapsGetServiceRequestIsTimedOut =>
      show (if _ then _ else _ : Turn Addr).Lives
      split
      · exact lives_firstPonged inst now h (Turn.lives_returned h rfl)
      · exact Turn.lives_returned h rfl
  | t020D31WaitAfterSendPtCache =>
      exact lives_firstPonged inst now h (Turn.lives_returned h rfl)
  | t040D2CachePongTimedOutFromNeighbours =>
      show (if _ then _ else _ : Turn Addr).Lives
      split
      · exact Turn.lives_returned h rfl
      · exact lives_stageD21PingCapsStart inst now h
  | t008D6ResendPingCapsLong sa =>
      show (if _ then _ else _ : Turn Addr).Lives
      split <;> exact Turn.lives_returned h rfl
  | t009PongTimedOutCapsLong sa => exact lives_d6OnDisconnected inst now h sa
  | t007D6ResendPingCapsShort sa => exact Turn.lives_returned h rfl
  | t011DownlinkPingTimedOut sid sa => exact Turn.lives_returned h rfl
  | t012ReregisterReferrer => exact Turn.lives_returned h rfl

theorem lives_onGetReferrersRSP {s : Client Addr} (h : s.uplinkConnectionState.isSome)
    (referrerAddresses : List Addr) : (s.onGetReferrersRSP inst now referrerAddresses).Lives := by
  rw [onGetReferrersRSP]
  split
  · exact Turn.lives_returned h rfl
  · show (if _ then _ else _ : Turn Addr).Lives
    split
    · exact Turn.lives_after (lives_firstPonged inst now h (Turn.lives_returned h rfl)) _
    · exact Turn.lives_after (Turn.lives_after (Turn.lives_returned h rfl) _) _

theorem lives_onPongPtCached {s : Client Addr} (h : s.uplinkConnectionState.isSome)
    (e : Pong Addr) (esi : Esi Addr) : (s.onPongPtCached inst now e esi).Lives := by
  rw [onPongPtCached]
  split
  · exact lives_stageD3GetReferrersStart inst h esi.remoteName
  split
  · refine lives_arrow h fun u => ?_
    split
    · split
      · exact Turn.lives_thrown h rfl
      · exact Turn.lives_after (lives_d4UplinkMode inst now h _) _
    · exact Turn.lives_returned h rfl
  · exact Turn.lives_returned h rfl

theorem lives_onPong {s : Client Addr} (h : s.uplinkConnectionState.isSome) (e : Pong Addr)
    (esi : Esi Addr) : (s.onPong inst now e esi).Lives := by
  rw [onPong]
  split
  · exact Turn.lives_returned h rfl
  · refine lives_arrow h fun u => ?_
    cases e.pingType with
    | ptCached => exact lives_onPongPtCached inst now rfl e esi
    | _ => exact Turn.lives_returned rfl rfl

/-- `InitClient` makes the object, whatever was there. -/
theorem lives_onInitClient (s : Client Addr) (caps : OrdSet Addr) :
    (s.onInitClient inst now caps).Lives := by
  refine Turn.lives_andThen (lives_stageD2PingNeighboursStart inst now rfl) ?_
  intro s' h'
  exact Turn.lives_returned h' rfl

/-- With an object no handler loses it or follows a null reference. -/
theorem lives_handleEvent {s : Client Addr} (h : s.uplinkConnectionState.isSome)
    (i : Input Addr) : (s.handleEvent inst now i).Lives := by
  cases i with
  | initClient caps => exact lives_onInitClient inst now s caps
  | tickAlarm tid cookie => exact lives_onTickAlarm inst now h tid cookie
  | getReferrersRSP addresses => exact lives_onGetReferrersRSP inst now h addresses
  | connectFailed sa => exact lives_onDisconnected inst now h sa
  | disconnected sa => exact lives_onDisconnected inst now h sa
  | pong e esi => exact lives_onPong inst now h e esi
  | subscribeNotifications route =>
      show (onSubscribeNotifications s route).Lives
      rw [onSubscribeNotifications]
      split <;> exact Turn.lives_returned h rfl
  | toplinkDeliverREQ e =>
      show (onToplinkDeliverREQ inst s e).Lives
      rw [onToplinkDeliverREQ]
      split
      · exact Turn.lives_thrown h rfl
      · split
        · exact Turn.lives_returned h rfl
        · exact Turn.lives_thrown h rfl
  | _ => exact Turn.lives_returned h rfl

/-! ## Turns without an object -/

theorem null_onTickAlarm {s : Client Addr} (h : s.uplinkConnectionState = none)
    (tid : Alarm Addr) (cookie : Int) :
    (s.onTickAlarm inst now tid cookie).ending = .null ↔
      Dereferences inst s (.tickAlarm tid cookie) := by
  unfold onTickAlarm
  split
  case isTrue hCookie => simp [Dereferences, hCookie]
  case isFalse hCookie =>
    rw [not_not] at hCookie
    cases tid with
    | t001CommonConnectFailed =>
        simp [Dereferences, ending_stageD2PingNeighboursStart]
    | t002D3CapsGetServiceRequestIsTimedOut =>
        by_cases hStage : s.stage = .d3GetReferrers <;>
          simp [Dereferences, hCookie, hStage, firstPonged, arrow_none h]
    | t020D31WaitAfterSendPtCache =>
        simp [Dereferences, hCookie, firstPonged, arrow_none h]
    | t040D2CachePongTimedOutFromNeighbours =>
        by_cases hStage : s.stage = .d2PingNeighbours <;>
          simp [Dereferences, hCookie, hStage, stageD21PingCapsStart, arrow, h]
    | t008D6ResendPingCapsLong sa =>
        by_cases hStage : s.stage = .d6MaintainConnection <;> simp [Dereferences, hStage]
    | t009PongTimedOutCapsLong sa =>
        simp [Dereferences, hCookie, d6OnDisconnected, arrow_none h]
    | t007D6ResendPingCapsShort sa => simp [Dereferences]
    | t011DownlinkPingTimedOut sid sa => simp [Dereferences]
    | t012ReregisterReferrer => simp [Dereferences]

theorem null_onGetReferrersRSP {s : Client Addr} (h : s.uplinkConnectionState = none)
    (addresses : List Addr) :
    (s.onGetReferrersRSP inst now addresses).ending = .null ↔
      Dereferences inst s (.getReferrersRSP addresses) := by
  rw [onGetReferrersRSP]
  by_cases hStage : s.stage = .d3GetReferrers <;> by_cases hNil : addresses = [] <;>
    simp [Dereferences, hStage, hNil, firstPonged, arrow_none h, Turn.after]

/-- Where there is no object it is the input that decides. -/
theorem null_handleEvent {s : Client Addr} (h : s.uplinkConnectionState = none)
    (i : Input Addr) :
    (s.handleEvent inst now i).ending = .null ↔ Dereferences inst s i := by
  cases i with
  | initClient caps =>
      exact iff_of_false (lives_onInitClient inst now s caps).ending not_false
  | tickAlarm tid cookie => exact null_onTickAlarm inst now h tid cookie
  | getReferrersRSP addresses => exact null_onGetReferrersRSP inst now h addresses
  | connectFailed sa =>
      simp [handleEvent, onDisconnected, d4OnDisconnected, arrow_none h, Turn.andThen,
        Dereferences]
  | disconnected sa =>
      simp [handleEvent, onDisconnected, d4OnDisconnected, arrow_none h, Turn.andThen,
        Dereferences]
  | pong e esi =>
      by_cases hAccepts : s.Accepts inst e <;>
        simp [handleEvent, onPong, hAccepts, arrow_none h, Dereferences]
  | subscribeNotifications route =>
      simp [handleEvent, onSubscribeNotifications, getUL, h, Dereferences]
  | toplinkDeliverREQ e =>
      by_cases hUuid : e.uuid = ∅ <;>
        simp [handleEvent, onToplinkDeliverREQ, getUL, h, hUuid, Dereferences]
  | _ => simp [handleEvent, Dereferences]

/-- A handler follows the reference where it is null if and only if there is no
object and the input is one that does not ask. -/
theorem null_iff (s : Client Addr) (i : Input Addr) :
    (s.handleEvent inst now i).ending = .null ↔
      s.uplinkConnectionState = none ∧ Dereferences inst s i := by
  cases hObject : s.uplinkConnectionState with
  | none => simp [null_handleEvent inst now hObject]
  | some u =>
      have hLives := lives_handleEvent inst now (s := s) (by simp [hObject]) i
      simp [hLives.ending]

end Client

/-! ## Runs -/

/--
**No null reference.** A run goes on without following the reference where it is
null exactly when no input that does not ask comes while there is no object.
-/
theorem never_null (inst : Instance Addr) {r : Running Addr} (h0 : (machine inst).init r)
    {acts : List (Int × Input Addr)} (hPath : (machine inst).Path r acts) :
    (machine inst).Along (fun r => r.crashed = false) r acts ↔
      ((machine inst).guarded (Guarded inst)).Path r acts := by
  refine Machine.along_iff_path_guarded (J := fun _ => True) (fun _ _ _ _ => trivial) ?_
    acts r trivial h0.2 hPath
  intro r a _ _ _
  have hNull := Client.null_iff inst a.1 r.client a.2
  simp only [machine, Guarded, decide_eq_false_iff_not, hNull, not_and_or,
    ← Option.isSome_iff_ne_none]

/-- From `InitClient` on every input may come. -/
theorem never_null_with_object (inst : Instance Addr) (acts : List (Int × Input Addr)) :
    ∀ {r : Running Addr}, r.client.uplinkConnectionState.isSome → r.crashed = false →
      (machine inst).Along (fun r => r.crashed = false) r acts := by
  induction acts with
  | nil => exact fun _ hCrashed => hCrashed
  | cons a acts ih =>
      intro r hObject hCrashed
      have hLives := Client.lives_handleEvent inst a.1 hObject a.2
      exact ⟨hCrashed, ih hLives.object (by simpa [machine] using hLives.ending)⟩

/-! ## Small runs -/

/-- A client that has just been made, in some stage. -/
def madeIn (stage : Referrer.Stage) : Running Nat where
  client :=
    { uplinkConnectionState := none
      mReadyNotificationBackroutes := []
      configBod := []
      connectionSequenceId := 0
      neighbours := ∅
      stage := stage
      myExternalAddresses := ∅ }
  crashed := false

theorem init_madeIn (stage : Referrer.Stage) : (machine oneByte).init (madeIn stage) :=
  ⟨⟨rfl, rfl, rfl, rfl⟩, rfl⟩

theorem never_null_initialised :
    (machine oneByte).Along (fun r => r.crashed = false) (madeIn .d2PingNeighbours)
      [(0, .startService), (0, .initClient ∅), (1, .connectFailed 7)] :=
  (never_null oneByte (init_madeIn .d2PingNeighbours) (by decide)).2 (by decide)

/-- The service has asked for the notifications; the first connection that
fails, whosever it was, ends the program. -/
theorem failed_before_init :
    ∃ r acts, (machine oneByte).init r ∧ (machine oneByte).Path r acts ∧
      acts = [(0, .startService), (1, .connectFailed 7)] ∧
      ((machine oneByte).exec r acts).crashed = true :=
  ⟨madeIn .d2PingNeighbours, _, init_madeIn _, by decide, rfl, by decide⟩

end Megatron.ReferrerClient
