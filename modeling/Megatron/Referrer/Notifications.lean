import Megatron.Referrer.Uplink

/-!
# Notifications about the uplink

Subscribers hear when an uplink is there and when it is gone.  `Disconnected`
and `ConnectFailed` pass through `d4_on_disconnected`, which tells them.  The
pong time-out goes straight to `d6_on_disconnected`, and a tick of T_001 that
was queued before the connection starts the procedure again: neither tells
anybody.  A late tick of T_020 announces an uplink a second time, and so does a
subscription that is made twice.

What a subscriber knows is a state machine over its notifications: no uplink,
or an uplink of that address.

## Main results

* `follows_turn` — a turn that meets the condition keeps every subscriber's
  knowledge right.
* `notifications_alternate` — in the runs whose turns do, every subscriber's
  notifications alternate and end with the present state.
-/

namespace Megatron.Referrer

open Megatron.Corelib Megatron.Lib

variable {Addr : Type} [LinearOrder Addr]

/-! ## What one subscriber hears -/

/-- The notifications about uplinks. -/
def Notify.IsUplink : Notify Addr → Prop
  | .downlinkDisconnected _ => False
  | _ => True

instance Notify.decidableIsUplink : ∀ n : Notify Addr, Decidable n.IsUplink
  | .downlinkDisconnected _ => .isFalse id
  | .uplinkIsConnected _ => .isTrue trivial
  | .uplinkIsDisconnected _ => .isTrue trivial

/-- A notification about an uplink for `r`. -/
def Sent.uplinkNote? (r : BackRoute) : Sent Addr → Option (Notify Addr)
  | .notify route n => if route = r ∧ n.IsUplink then some n else none
  | _ => none

/-- What `r` has been told about uplinks, in order. -/
def notes (r : BackRoute) (trace : List (Sent Addr)) : List (Notify Addr) :=
  trace.filterMap (Sent.uplinkNote? r)

/-- The state machine of a subscriber; `none` where the notifications do not
alternate. -/
def follow : Option Addr → List (Notify Addr) → Option (Option Addr)
  | view, [] => some view
  | none, .uplinkIsConnected sa :: l => follow (some sa) l
  | some sa, .uplinkIsDisconnected sa' :: l => if sa' = sa then follow none l else none
  | _, _ :: _ => none

theorem follow_append (view : Option Addr) (l l' : List (Notify Addr)) :
    follow view (l ++ l') = (follow view l).bind (follow · l') := by
  induction l generalizing view with
  | nil => rfl
  | cons n l ih =>
      cases view with
      | none => cases n <;> simp [follow, ih]
      | some sa =>
          cases n with
          | uplinkIsDisconnected sa' =>
              by_cases h : sa' = sa <;> simp [follow, h, ih]
          | _ => simp [follow]

/-! ## Notes among what is sent -/

section Notes

variable (r : BackRoute)

@[simp] theorem notes_nil : notes r ([] : List (Sent Addr)) = [] := rfl

@[simp] theorem notes_append (l l' : List (Sent Addr)) :
    notes r (l ++ l') = notes r l ++ notes r l' :=
  List.filterMap_append

theorem notes_eq_nil {out : List (Sent Addr)} (h : ∀ x ∈ out, x.uplinkNote? r = none) :
    notes r out = [] :=
  List.filterMap_eq_nil_iff.2 h

/-- Every subscriber is told once. -/
theorem notes_notifyAll {rd : Rd Addr} (hNodup : rd.mReadyNotificationBackroutes.Nodup)
    (n : Notify Addr) (hn : n.IsUplink) :
    notes r (rd.notifyAll n) = if r ∈ rd.mReadyNotificationBackroutes then [n] else [] := by
  rw [Rd.notifyAll]
  revert hNodup
  induction rd.mReadyNotificationBackroutes with
  | nil => exact fun _ => rfl
  | cons r' subs ih =>
      intro hNodup
      have hSplit := List.nodup_cons.1 hNodup
      by_cases hr : r' = r
      · subst hr
        have hRest : notes r' (subs.map (Sent.notify · n)) = [] := by
          rw [ih hSplit.2, if_neg hSplit.1]
        simpa [notes, Sent.uplinkNote?, hn] using hRest
      · have hRest := ih hSplit.2
        simp only [notes] at hRest
        simp [notes, Sent.uplinkNote?, hr, hRest, Ne.symm hr]

theorem notes_notifyAll_downlink (rd : Rd Addr) (sid : SocketId) :
    notes r (rd.notifyAll (.downlinkDisconnected sid)) = [] := by
  refine notes_eq_nil r fun x hx => ?_
  obtain ⟨r', -, rfl⟩ := List.mem_map.1 hx
  simp [Sent.uplinkNote?, Notify.IsUplink]

theorem notes_of_starting {cookie : Int} {out : List (Sent Addr)}
    (h : ∀ x ∈ out, Rd.IsStarting cookie x) : notes r out = [] := by
  refine notes_eq_nil r fun x hx => ?_
  cases h x hx <;> rfl

variable (inst : Instance Addr) (now : Int) (rd : Rd Addr)

@[simp] theorem notes_stageD2PingNeighboursStart :
    notes r (rd.stageD2PingNeighboursStart inst now).2 = [] :=
  notes_of_starting r (Rd.snd_stageD2PingNeighboursStart inst now rd)

theorem notes_registerReferrer (sa : Addr) : notes r (rd.registerReferrer inst sa) = [] := by
  simp only [Rd.registerReferrer, Rd.sendToplinkReq]
  split <;> rfl

/-- A selection tells every subscriber once. -/
theorem notes_d4UplinkMode (hNodup : rd.mReadyNotificationBackroutes.Nodup) (esi : Esi Addr) :
    notes r (rd.d4UplinkMode inst now esi).2 =
      if r ∈ rd.mReadyNotificationBackroutes then
        [.uplinkIsConnected esi.remoteName] else [] := by
  have hClosed : notes r (rd.cleanup esi.remoteName) = [] := by
    refine notes_eq_nil r fun x hx => ?_
    obtain ⟨z, -, rfl⟩ := List.mem_map.1 hx
    rfl
  rw [Rd.snd_d4UplinkMode]
  have hHead : notes r (.switchMode esi :: .stopAlarm .t001CommonConnectFailed ::
      rd.notifyAll (.uplinkIsConnected esi.remoteName)) =
      notes r (rd.notifyAll (.uplinkIsConnected esi.remoteName)) := rfl
  have hTail : notes r [rd.sendPing inst now esi.remoteName .ptCapsShort,
      rd.resetAlarm (.t007D6ResendPingCapsShort esi.remoteName)] = [] := rfl
  rw [notes_append, notes_append, notes_append, hClosed, hTail, notes_registerReferrer]
  simp only [List.append_nil]
  exact hHead.trans (notes_notifyAll r hNodup (.uplinkIsConnected esi.remoteName) trivial)

end Notes

/-! ## The condition -/

/-- Nothing happens to the connection behind the subscribers' backs: with
subscribers no tick of T_001 or T_020 is handled in D6 and no tick of T_009 for
the uplink; and no subscription is repeated while there is an uplink. -/
def NoSilentChange : TurnGuard Addr := fun rd _ _ i =>
  match i with
  | .tickAlarm .t001CommonConnectFailed cookie => cookie = rd.connectionSequenceId →
      rd.stage = .d6MaintainConnection → rd.mReadyNotificationBackroutes = []
  | .tickAlarm (.t009PongTimedOutCapsLong sa) cookie => cookie = rd.connectionSequenceId →
      sa ∈ rd.uplinkConnectionState.uplink → rd.mReadyNotificationBackroutes = []
  | .tickAlarm .t020D31WaitAfterSendPtCache cookie => cookie = rd.connectionSequenceId →
      rd.stage = .d6MaintainConnection → rd.mReadyNotificationBackroutes = [] ∧
        rd.FirstIsUplink
  | .subscribeNotifications route =>
      route ∈ rd.mReadyNotificationBackroutes → rd.uplinkConnectionState.uplink = ∅
  | _ => True

instance decidableNoSilentChange (rd : Rd Addr) (history : List (Handled Addr)) (now : Int)
    (i : Input Addr) : Decidable (NoSilentChange rd history now i) := by
  unfold NoSilentChange
  split <;> infer_instance

/-- The condition of the single uplink is part of it. -/
theorem NoSilentChange.noLateT020 {rd : Rd Addr} {history : List (Handled Addr)} {now : Int}
    {i : Input Addr} (h : NoSilentChange rd history now i) : NoLateT020 rd history now i := by
  rintro rfl hStage
  exact (h rfl hStage).2

/-! ## The invariant -/

/-- What subscriber `r` should know. -/
def Rd.known (rd : Rd Addr) (r : BackRoute) : Option Addr :=
  if r ∈ rd.mReadyNotificationBackroutes then rd.getUL else none

/-- One uplink, everybody subscribed once, and every subscriber's notifications
lead to what it should know. -/
structure Followed (rd : Rd Addr) (trace : List (Sent Addr)) : Prop where
  oneUplink : rd.OneUplink
  nodup : rd.mReadyNotificationBackroutes.Nodup
  known : ∀ r, follow none (notes r trace) = some (rd.known r)

namespace Rd

variable {inst : Instance Addr} {now : Int}

theorem getUL_of_empty {rd : Rd Addr} (h : rd.uplinkConnectionState.uplink = ∅) :
    rd.getUL = none :=
  OrdSet.first?_eq_none.2 h

/-- The only uplink. -/
theorem OneUplink.getUL_of_mem {rd : Rd Addr} (h : rd.OneUplink) {sa : Addr}
    (hMem : sa ∈ rd.uplinkConnectionState.uplink) : rd.getUL = some sa := by
  have hLen := h.atMostOne
  rw [Rd.getUL, OrdSet.first?]
  rw [← OrdSet.mem_toList] at hMem
  cases hList : rd.uplinkConnectionState.uplink.toList with
  | nil =>
      rw [hList] at hMem
      cases hMem
  | cons u rest =>
      cases rest with
      | nil =>
          rw [hList] at hMem
          rw [List.mem_singleton.1 hMem]
          rfl
      | cons v rest =>
          rw [hList] at hLen
          simp at hLen

theorem OneUplink.getUL_eq_none {rd : Rd Addr} (h : rd.OneUplink)
    (hStage : rd.stage ≠ .d6MaintainConnection) : rd.getUL = none := by
  refine getUL_of_empty ?_
  by_contra hne
  exact hStage (h.stage.1 hne)

variable (inst now) in
/-- The procedure has just started: nobody has an uplink. -/
theorem getUL_stageD2PingNeighboursStart (rd : Rd Addr) :
    (rd.stageD2PingNeighboursStart inst now).1.getUL = none ∧
      (rd.stageD2PingNeighboursStart inst now).1.mReadyNotificationBackroutes =
        rd.mReadyNotificationBackroutes := by
  obtain ⟨stage, neighbours, -, hRd⟩ := fst_stageD2PingNeighboursStart inst now rd
  rw [hRd]
  exact ⟨rfl, rfl⟩

/-- What a turn of the condition tells `r`: it takes `r` from what it should
know before to what it should know after. -/
theorem follows_turn {rd : Rd Addr} (hOne : rd.OneUplink)
    (hNodup : rd.mReadyNotificationBackroutes.Nodup) {history : List (Handled Addr)}
    {i : Input Addr} (hGuard : NoSilentChange rd history now i) (r : BackRoute) :
    follow (rd.known r) (notes r (rd.handleEvent inst now i).2) =
      some ((rd.handleEvent inst now i).1.known r) := by
  have hOne' : (rd.handleEvent inst now i).1.OneUplink :=
    (oneUplink_turn hOne i history).2 hGuard.noLateT020
  have hEffect := effect_handleEvent inst now rd i
  generalize rd.handleEvent inst now i = t at hEffect hOne'
  -- nobody is told anything, and the uplink and the subscribers stay
  have hKeeps : ∀ t : Turn Addr, notes r t.2 = [] → t.1.known r = rd.known r →
      follow (rd.known r) (notes r t.2) = some (t.1.known r) := by
    intro t hNotes hKnown
    rw [hNotes, hKnown]
    rfl
  -- the uplink is lost while nobody listens
  have hSilent : ∀ t : Turn Addr, rd.known r = none → notes r t.2 = [] →
      t.1.getUL = none → follow (rd.known r) (notes r t.2) = some (t.1.known r) := by
    intro t hBefore hNotes hNone
    rw [hBefore, hNotes, known, hNone]
    simp [follow]
  have hNobody : rd.mReadyNotificationBackroutes = [] → rd.known r = none := by
    intro h
    simp [known, h]
  -- a first uplink is announced
  have hChosen : ∀ (rd' : Rd Addr) (esi : Esi Addr) (before : List (Sent Addr)),
      rd'.OneUplink → rd'.stage ≠ .d6MaintainConnection → rd'.getUL = rd.getUL →
      rd'.mReadyNotificationBackroutes = rd.mReadyNotificationBackroutes →
      notes r before = [] →
      follow (rd.known r) (notes r (before ++ (rd'.d4UplinkMode inst now esi).2)) =
        some ((rd'.d4UplinkMode inst now esi).1.known r) := by
    intro rd' esi before hOne' hStage hUL hSubs hBefore
    have hNone := hOne'.getUL_eq_none hStage
    have hAfter : (rd'.d4UplinkMode inst now esi).1.getUL = some esi.remoteName :=
      (oneUplink_chosen inst now hOne' hStage esi).getUL_of_mem
        (OrdSet.mem_insert.2 (Or.inl rfl))
    have hSubs' : (rd'.d4UplinkMode inst now esi).1.mReadyNotificationBackroutes =
        rd.mReadyNotificationBackroutes := hSubs
    rw [notes_append, hBefore, List.nil_append, notes_d4UplinkMode r inst now rd'
      (hSubs ▸ hNodup), known, known, hAfter, ← hUL, hNone, hSubs', hSubs]
    split <;> rfl
  cases hEffect with
  | idle => exact hKeeps (rd, []) rfl rfl
  | waitOn => exact hKeeps _ rfl rfl
  | nobody => exact hKeeps _ rfl rfl
  | chosen hSel hFirst =>
      rename_i before y
      cases hSel with
      | tick020 =>
          by_cases hStage : rd.stage = .d6MaintainConnection
          · obtain ⟨hSubs, hUplink⟩ := hGuard rfl hStage
            refine hKeeps _ ?_ ?_
            · rw [List.nil_append, notes_d4UplinkMode r inst now rd hNodup, hSubs]
              rfl
            · rw [known, known, fst_d4UplinkMode, hSubs]
              rfl
          · exact hChosen rd y.esi [] hOne hStage rfl rfl rfl
      | tick002 hStage => exact hChosen rd y.esi [] hOne (by simp [hStage]) rfl rfl rfl
      | answer issued hStage => exact hChosen rd y.esi _ hOne (by simp [hStage]) rfl rfl rfl
  | pingReferrers issued addrs =>
      refine hKeeps _ (notes_eq_nil r fun x hx => ?_) rfl
      simp only [List.cons_append, List.nil_append, List.mem_cons, List.mem_append,
        List.mem_map, List.not_mem_nil, or_false] at hx
      rcases hx with rfl | rfl | ⟨sa, -, rfl⟩ | rfl <;> rfl
  | timedOut =>
      by_cases hStage : rd.stage = .d6MaintainConnection
      · exact hSilent _ (hNobody (hGuard rfl hStage))
          (notes_stageD2PingNeighboursStart r inst now rd) (getUL_stageD2PingNeighboursStart inst now rd).1
      · refine hSilent _ ?_ (notes_stageD2PingNeighboursStart r inst now rd)
          (getUL_stageD2PingNeighboursStart inst now rd).1
        simp [known, hOne.getUL_eq_none hStage]
  | pongTimedOut sa hMem =>
      exact hSilent _ (hNobody (hGuard rfl hMem))
        (notes_stageD2PingNeighboursStart r inst now rd) (getUL_stageD2PingNeighboursStart inst now rd).1
  | lost hLoses hMem =>
      rename_i sa
      have hStart := getUL_stageD2PingNeighboursStart inst now
        { rd with urirefs := [] }
      have hClosed : notes r (rd.urirefs.flatMap fun z => .close z.2.esi "uplink disconnected" ::
          rd.notifyAll (.downlinkDisconnected z.1)) = [] := by
        refine notes_eq_nil r fun x hx => ?_
        obtain ⟨z, -, hx⟩ := List.mem_flatMap.1 hx
        rcases List.mem_cons.1 hx with rfl | hx
        · rfl
        · exact List.filterMap_eq_nil_iff.1 (notes_notifyAll_downlink r rd z.1) x hx
      rw [notes_append, notes_append,
        notes_notifyAll r hNodup (.uplinkIsDisconnected sa) trivial, hClosed,
        notes_stageD2PingNeighboursStart, known, known, hStart.1, hStart.2,
        hOne.getUL_of_mem hMem]
      split <;> simp [follow]
  | noNeighbour =>
      exact hKeeps _ (notes_of_starting r (snd_stageD21PingCapsStart inst now rd)) rfl
  | resendShort sa => exact hKeeps _ rfl rfl
  | resendLong sa => exact hKeeps _ rfl rfl
  | reregister => exact hKeeps _ (notes_registerReferrer r inst rd _) rfl
  | noUplink => exact hKeeps _ rfl rfl
  | dropped => exact hKeeps _ (notes_notifyAll_downlink r rd _) rfl
  | pongAtTop e esi => exact hKeeps _ rfl rfl
  | pongNoted e esi hAcc hOut =>
      refine hKeeps _ ?_ rfl
      rcases hOut with rfl | ⟨what, rfl⟩ <;> rfl
  | pongShort e esi => exact hKeeps _ rfl rfl
  | pongLong e esi => exact hKeeps _ rfl rfl
  | pongAsked e esi hAcc hStage =>
      refine hKeeps _ ?_ ?_
      · simp only [stageD3GetReferrersStart, sendToplinkReq]
        split
        · rfl
        · split <;> rfl
      · rw [fst_stageD3GetReferrersStart]
        rfl
  | pongChosen e esi hAcc hType hStage =>
      rename_i y _
      have hD31 : (rd.afterPong inst now e esi).stage ≠ .d6MaintainConnection := by
        rw [show (rd.afterPong inst now e esi).stage = rd.stage from rfl, hStage]
        simp
      exact hChosen (rd.afterPong inst now e esi) y.esi [.stopAlarm _]
        (oneUplink_afterPong inst now hOne e esi) hD31 rfl rfl rfl
  | pinged e route esi mId =>
      refine hKeeps _ ?_ ?_
      · simp only [onIncomingOnAcceptor, onPing]
        split_ifs <;> rfl
      · simp only [onIncomingOnAcceptor, onPing]
        split_ifs <;> rfl
  | subscribed route =>
      have hGuard' : route ∈ rd.mReadyNotificationBackroutes → rd.getUL = none :=
        fun h => getUL_of_empty (hGuard h)
      simp only [onSubscribeNotifications]
      rw [known, known]
      simp only [List.mem_insert_iff]
      have hUL : getUL { rd with mReadyNotificationBackroutes :=
          rd.mReadyNotificationBackroutes.insert route } = rd.getUL := rfl
      rw [hUL]
      cases hUp : rd.getUL with
      | none => simp [follow]
      | some u =>
          have hNew : route ∉ rd.mReadyNotificationBackroutes := by
            intro h
            rw [hGuard' h] at hUp
            cases hUp
          by_cases hr : r = route
          · subst hr
            simp [hNew, notes, Sent.uplinkNote?, Notify.IsUplink, follow]
          · simp [hr, Ne.symm hr, notes, Sent.uplinkNote?, follow]
  | updateREQ bod =>
      refine hKeeps _ (notes_eq_nil r fun x hx => ?_) rfl
      obtain ⟨z, -, rfl⟩ := List.mem_map.1 hx
      rfl
  | updateRSP bod =>
      refine hKeeps _ (notes_eq_nil r fun x hx => ?_) rfl
      obtain ⟨z, -, rfl⟩ := List.mem_map.1 hx
      rfl

end Rd

/-! ## Runs -/

variable {inst : Instance Addr}

theorem followed_turn {rd : Rd Addr} {trace : List (Sent Addr)} (h : Followed rd trace)
    {history : List (Handled Addr)} {now : Int} {i : Input Addr}
    (hGuard : NoSilentChange rd history now i) :
    Followed (rd.handleEvent inst now i).1 (trace ++ (rd.handleEvent inst now i).2) := by
  refine ⟨(Rd.oneUplink_turn h.oneUplink i history).2 hGuard.noLateT020, ?_, fun r => ?_⟩
  · have hEffect := Rd.effect_handleEvent inst now rd i
    generalize rd.handleEvent inst now i = t at hEffect
    cases hEffect with
    | timedOut => exact (Rd.getUL_stageD2PingNeighboursStart inst now rd).2 ▸ h.nodup
    | pongTimedOut => exact (Rd.getUL_stageD2PingNeighboursStart inst now rd).2 ▸ h.nodup
    | lost =>
        have hSubs := (Rd.getUL_stageD2PingNeighboursStart inst now { rd with urirefs := [] }).2
        exact (congrArg List.Nodup hSubs).mpr h.nodup
    | pongAsked e esi =>
        rw [Rd.fst_stageD3GetReferrersStart]
        exact h.nodup
    | pinged e route esi mId =>
        simp only [Rd.onIncomingOnAcceptor, Rd.onPing]
        split_ifs <;> exact h.nodup
    | subscribed route => exact h.nodup.insert
    | _ => exact h.nodup
  · rw [notes_append, follow_append, h.known r]
    exact Rd.follows_turn h.oneUplink h.nodup hGuard r

/-- Whoever leaves a view has been told so first. -/
theorem follow_leaves {sa : Addr} {l : List (Notify Addr)} {view : Option Addr}
    (h : follow (some sa) l = some view) (hLeft : view ≠ some sa) :
    ∃ rest, l = .uplinkIsDisconnected sa :: rest := by
  cases l with
  | nil => exact absurd (Option.some.inj h).symm hLeft
  | cons n rest =>
      cases n with
      | uplinkIsDisconnected sa' =>
          by_cases hEq : sa' = sa
          · exact ⟨rest, by rw [hEq]⟩
          · simp [follow, hEq] at h
      | _ => cases h

/--
**Notifications alternate.** In the runs of a node that is not a top server
whose turns meet the condition, the notifications of every subscriber alternate
between connected and disconnected with the same address; the last one tells
the present uplink, and a turn that leaves an uplink sends the disconnection.
-/
theorem notifications_alternate {s : State Addr}
    (h : ((machine inst).guarded (AtTurn NoSilentChange)).Reachable s) (hTop : s.rd.NonTop)
    (r : BackRoute) :
    follow none (notes r s.trace) = some (s.rd.known r) ∧
      ∀ now i, NoSilentChange s.rd s.history now i →
        r ∈ s.rd.mReadyNotificationBackroutes → ∀ sa, s.rd.getUL = some sa →
          (s.rd.handleEvent inst now i).1.getUL ≠ some sa →
            ∃ rest, notes r (s.rd.handleEvent inst now i).2 =
              .uplinkIsDisconnected sa :: rest := by
  have hFollowed : s.rd.NonTop → Followed s.rd s.trace := by
    refine handle_invariant_guarded (g := NoSilentChange)
      (I := fun rd trace _ => rd.NonTop → Followed rd trace) ?_ ?_ h
    · intro now rd hNew hTop
      have hTop' := nonTop_onStartService.1 hTop
      have hStart := Rd.getUL_stageD2PingNeighboursStart inst now rd
      refine ⟨oneUplink_onStartService hTop', ?_, fun r => ?_⟩
      · rw [onStartService_of_nonTop hTop', hStart.2, hNew.mReadyNotificationBackroutes]
        exact List.nodup_nil
      · rw [onStartService_of_nonTop hTop', notes_stageD2PingNeighboursStart, Rd.known,
          hStart.2, hNew.mReadyNotificationBackroutes]
        rfl
    · intro rd trace history now i hI hGuard hTop
      exact followed_turn (hI (nonTop_handleEvent.1 hTop)) hGuard
  have hNow := hFollowed hTop
  refine ⟨hNow.known r, ?_⟩
  intro now i hGuard hSub sa hUp hLeft
  have hTurn : follow (s.rd.known r) (notes r (s.rd.handleEvent inst now i).2) = _ :=
    Rd.follows_turn hNow.oneUplink hNow.nodup hGuard r
  rw [Rd.known, if_pos hSub, hUp] at hTurn
  refine follow_leaves hTurn ?_
  rw [Rd.known]
  split
  · exact hLeft
  · simp

/-- A subscriber, and an uplink that is lost and found again. -/
def lostAndFound : List (Action Nat) :=
  [.arrive (.subscribeNotifications aSubscriber), .handle 0] ++ connects ++
    [.arrive (.disconnected 9), .handle 3]

theorem lostAndFound_alternates :
    let s := (machine oneCaps).exec (started oneCaps 0 fresh) lostAndFound
    follow none (notes aSubscriber s.trace) = some none :=
  (@notifications_alternate _ _ oneCaps _ ⟨_, lostAndFound, init_started, by decide, rfl⟩
    (by decide) aSubscriber).1

/-- The uplink stops ponging and T_009 ends the connection; then the same peer
is found again. -/
def silentLoss : List (Action Nat) :=
  [.arrive (.subscribeNotifications aSubscriber), .handle 0] ++ connects ++
    [.arrive (pongFrom .ptCapsShort 0 9 0 2 1), .handle 3] ++
    List.replicate 14 (.timer .handle) ++ [.timer (.fire 0), .timer .pass, .handle 50] ++
    List.replicate 5 (.timer .handle) ++ [.timer (.fire 0), .timer .pass, .handle 53] ++
    [.arrive (pongFrom .ptCached 0 9 0 53 2), .handle 54,
      .arrive (.getReferrersRSP 2 []), .handle 55]

/-- The subscriber hears of two connections in a row. -/
theorem connected_twice : ∃ s, (machine oneCaps).Reachable s ∧ s.rd.NonTop ∧
    notes aSubscriber s.trace = [.uplinkIsConnected 9, .uplinkIsConnected 9] ∧
    follow none (notes aSubscriber s.trace) = none := by
  refine ⟨(machine oneCaps).exec (started oneCaps 0 fresh) silentLoss,
    ⟨_, silentLoss, init_started, ?_, rfl⟩, ?_, ?_, ?_⟩ <;> decide

end Megatron.Referrer
