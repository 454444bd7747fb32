import Megatron.Referrer.Epochs

/-!
# The procedure never gets stuck

An alarm is live when its tick is queued with the present
`connection_sequence_id`, or the timer will still produce it.  Outside D6 the
common alarm T_001 is live, whatever else happens; in D6 one of the two alarms
of an uplink is, T_007 that sends the next ping or T_009 that gives the
connection up.  So a node that hears nothing more still moves.

## Main results

* `live_turn_of_mem`, `live_turn_of_keeps` — how an alarm is live after a turn.
* `never_stuck` — the invariant, in every reachable state.
* `live_ticks` — a live alarm's tick comes.
-/

namespace Megatron.Referrer

open Megatron.Corelib Megatron.Lib

variable {Addr : Type} [LinearOrder Addr]

/-! ## Live alarms -/

/-- The tick of the alarm, with the number in force, is queued or on its way. -/
def State.Live (s : State Addr) (a : Alarm Addr) : Prop :=
  .tickAlarm a s.rd.connectionSequenceId ∈ s.queue ∨
    s.timer.Armed a s.rd.connectionSequenceId

/-- Every alarm a turn arms gets the number in force after it. -/
theorem Effect.cookie {inst : Instance Addr} {now : Int} {rd : Rd Addr} {i : Input Addr}
    {t : Turn Addr} (h : Effect inst now rd i t) {a : Alarm Addr} {cookie : Int}
    (hMem : .resetAlarm a cookie ∈ t.2) : cookie = t.1.connectionSequenceId :=
  h.numbered _ hMem cookie rfl

theorem resetAlarm_mem_timerEvents {a : Alarm Addr} {cookie : Int} {out : List (Sent Addr)} :
    .resetAlarm a cookie ∈ timerEvents out ↔ .resetAlarm a cookie ∈ out := by
  rw [timerEvents, List.mem_filterMap]
  constructor
  · rintro ⟨x, hx, hEvent⟩
    cases x with
    | resetAlarm =>
        obtain ⟨rfl, rfl⟩ := Timer.Event.resetAlarm.inj (Option.some.inj hEvent)
        exact hx
    | _ => cases hEvent
  · exact fun h => ⟨_, h, rfl⟩

theorem stopAlarm_mem_timerEvents {a : Alarm Addr} {out : List (Sent Addr)} :
    .stopAlarm a ∈ timerEvents out ↔ .stopAlarm a ∈ out := by
  rw [timerEvents, List.mem_filterMap]
  constructor
  · rintro ⟨x, hx, hEvent⟩
    cases x with
    | stopAlarm =>
        obtain rfl := Timer.Event.stopAlarm.inj (Option.some.inj hEvent)
        exact hx
    | _ => cases hEvent
  · exact fun h => ⟨_, h, rfl⟩

section Live

variable {inst : Instance Addr} {now : Int} {s : State Addr} {i : Input Addr}
  {queue : List (Input Addr)} {a : Alarm Addr}

/-- Among the events of a turn that does not stop an alarm only its resets with
the new number are about it. -/
theorem eq_reset_of_turn (hStop : .stopAlarm a ∉ (s.rd.handleEvent inst now i).2) :
    ∀ e ∈ timerEvents (s.rd.handleEvent inst now i).2, e.key = a →
      e = .resetAlarm a (s.rd.handleEvent inst now i).1.connectionSequenceId := by
  intro e he hKey
  cases e with
  | resetAlarm key cookie =>
      obtain rfl : key = a := hKey
      rw [(Rd.effect_handleEvent inst now s.rd i).cookie (resetAlarm_mem_timerEvents.1 he)]
  | stopAlarm key =>
      obtain rfl : key = a := hKey
      exact absurd (stopAlarm_mem_timerEvents.1 he) hStop

/-- An alarm that a turn arms and does not stop is live after it. -/
theorem live_turn_of_mem {c : Int}
    (hMem : .resetAlarm a c ∈ (s.rd.handleEvent inst now i).2)
    (hStop : .stopAlarm a ∉ (s.rd.handleEvent inst now i).2) :
    (s.turn inst now i queue).Live a := by
  have hCookie := (Rd.effect_handleEvent inst now s.rd i).cookie hMem
  rw [hCookie] at hMem
  exact Or.inr (Timer.State.armed_send_of_mem s.timer (resetAlarm_mem_timerEvents.2 hMem)
    (eq_reset_of_turn hStop))

/-- An alarm that a turn leaves alone stays live, unless its own tick is being
handled or the number changes. -/
theorem live_turn_of_keeps (hLive : s.Live a) (hQueue : s.queue = i :: queue)
    (hNumber : (s.rd.handleEvent inst now i).1.connectionSequenceId =
      s.rd.connectionSequenceId)
    (hTick : i ≠ .tickAlarm a s.rd.connectionSequenceId)
    (hStop : .stopAlarm a ∉ (s.rd.handleEvent inst now i).2) :
    (s.turn inst now i queue).Live a := by
  have hKeep := eq_reset_of_turn hStop
  rw [hNumber] at hKeep
  rw [State.Live, show (s.turn inst now i queue).rd.connectionSequenceId = _ from hNumber]
  rcases hLive with hLive | hLive
  · rw [hQueue] at hLive
    rcases List.mem_cons.1 hLive with hEq | hLive
    · exact absurd hEq.symm hTick
    · exact Or.inl hLive
  · exact Or.inr (Timer.State.armed_send_of_stops hLive hKeep)

/-- The timer and arrivals lose no live alarm. -/
theorem live_apply {b : Action Addr} (hLive : s.Live a) (hEn : s.enabled b)
    (hTurn : ∀ now, b ≠ .handle now) : (s.apply inst b).Live a := by
  cases b with
  | arrive i =>
      rcases hLive with hLive | hLive
      · exact Or.inl (List.mem_append_left _ hLive)
      · exact Or.inr hLive
  | handle now => exact absurd rfl (hTurn now)
  | timer b =>
      rcases hLive with hLive | hLive
      · exact Or.inl (List.mem_append_left _ hLive)
      · cases b with
        | handle => exact Or.inr (Timer.State.armed_handle hLive)
        | fire i => exact Or.inr (Timer.State.armed_fire hLive hEn)
        | pass =>
            rcases Timer.State.armed_pass hLive with hArmed | hTick
            · exact Or.inr hArmed
            · exact Or.inl (List.mem_append_right _ (List.mem_map.2 ⟨_, hTick, rfl⟩))

end Live

/-! ## The invariant -/

/-- The alarms that keep the procedure going: the common alarm outside D6, and
in D6 those of an uplink. -/
inductive Rd.Watches (rd : Rd Addr) : Alarm Addr → Prop
  | common (h : rd.stage ≠ .d6MaintainConnection) : Watches rd .t001CommonConnectFailed
  | resend {sa} (hStage : rd.stage = .d6MaintainConnection)
      (h : sa ∈ rd.uplinkConnectionState.uplink) : Watches rd (.t007D6ResendPingCapsShort sa)
  | timeout {sa} (hStage : rd.stage = .d6MaintainConnection)
      (h : sa ∈ rd.uplinkConnectionState.uplink) : Watches rd (.t009PongTimedOutCapsLong sa)

/-- One of them is live. -/
def State.NeverStuck (s : State Addr) : Prop := ∃ a, s.rd.Watches a ∧ s.Live a

/-- Only stage and uplinks count. -/
theorem Rd.Watches.congr {rd rd' : Rd Addr} {a : Alarm Addr} (h : rd.Watches a)
    (hStage : rd'.stage = .d6MaintainConnection ↔ rd.stage = .d6MaintainConnection)
    (hUplink : rd'.uplinkConnectionState.uplink = rd.uplinkConnectionState.uplink) :
    rd'.Watches a := by
  cases h with
  | common h => exact .common fun h' => h (hStage.1 h')
  | resend hD6 h => exact .resend (hStage.2 hD6) (hUplink ▸ h)
  | timeout hD6 h => exact .timeout (hStage.2 hD6) (hUplink ▸ h)

section Turns

variable {inst : Instance Addr} {now : Int} {s : State Addr} {i : Input Addr}
  {queue : List (Input Addr)}

/-- A turn that leaves stage, uplinks and number, stops nothing that watches
and is no tick of it. -/
theorem neverStuck_of_keeps (h : s.NeverStuck) (hQueue : s.queue = i :: queue)
    (hNumber : (s.rd.handleEvent inst now i).1.connectionSequenceId =
      s.rd.connectionSequenceId)
    (hStage : (s.rd.handleEvent inst now i).1.stage = .d6MaintainConnection ↔
      s.rd.stage = .d6MaintainConnection)
    (hUplink : (s.rd.handleEvent inst now i).1.uplinkConnectionState.uplink =
      s.rd.uplinkConnectionState.uplink)
    (hTick : ∀ a, s.rd.Watches a → i ≠ .tickAlarm a s.rd.connectionSequenceId)
    (hStop : ∀ a, s.rd.Watches a → .stopAlarm a ∉ (s.rd.handleEvent inst now i).2) :
    (s.turn inst now i queue).NeverStuck := by
  obtain ⟨a, hWatches, hLive⟩ := h
  exact ⟨a, hWatches.congr hStage hUplink,
    live_turn_of_keeps hLive hQueue hNumber (hTick a hWatches) (hStop a hWatches)⟩

/-- A turn that arms the common alarm outside D6. -/
theorem neverStuck_of_common {c : Int}
    (hStage : (s.rd.handleEvent inst now i).1.stage ≠ .d6MaintainConnection)
    (hMem : .resetAlarm .t001CommonConnectFailed c ∈ (s.rd.handleEvent inst now i).2)
    (hStop : .stopAlarm .t001CommonConnectFailed ∉ (s.rd.handleEvent inst now i).2) :
    (s.turn inst now i queue).NeverStuck :=
  ⟨_, .common hStage, live_turn_of_mem hMem hStop⟩

/-- A turn that selects an uplink: its first ping is sent and T_007 armed. -/
theorem neverStuck_of_chosen {rd : Rd Addr} {esi : Esi Addr} (before : List (Sent Addr))
    (hTurn : s.rd.handleEvent inst now i =
      ((rd.d4UplinkMode inst now esi).1, before ++ (rd.d4UplinkMode inst now esi).2))
    (hBefore : ∀ sa, .stopAlarm (.t007D6ResendPingCapsShort sa) ∉ before) :
    (s.turn inst now i queue).NeverStuck := by
  have hMem : .resetAlarm (.t007D6ResendPingCapsShort esi.remoteName) rd.connectionSequenceId ∈
      (s.rd.handleEvent inst now i).2 := by
    rw [hTurn, Rd.snd_d4UplinkMode]
    simp [Rd.resetAlarm]
  have hStop : .stopAlarm (.t007D6ResendPingCapsShort esi.remoteName) ∉
      (s.rd.handleEvent inst now i).2 := by
    rw [hTurn, Rd.snd_d4UplinkMode]
    simp only [List.mem_append, hBefore, false_or, List.cons_append, List.mem_cons,
      Rd.notifyAll, Rd.cleanup, List.mem_map, Rd.registerReferrer, Rd.sendToplinkReq,
      Rd.sendPing, Rd.resetAlarm, reduceCtorEq, and_false, exists_false, or_false,
      List.not_mem_nil, Sent.stopAlarm.injEq]
    split <;> simp
  refine ⟨.t007D6ResendPingCapsShort esi.remoteName, ?_, live_turn_of_mem hMem hStop⟩
  have hRd : (s.turn inst now i queue).rd = (rd.d4UplinkMode inst now esi).1 := by
    rw [State.turn, hTurn]
  rw [hRd, Rd.fst_d4UplinkMode]
  exact .resend rfl (OrdSet.mem_insert.2 (Or.inl rfl))

theorem stopAlarm_notMem_of_starting {cookie : Int} {out : List (Sent Addr)}
    (h : ∀ x ∈ out, Rd.IsStarting cookie x) (a : Alarm Addr) : .stopAlarm a ∉ out := by
  intro hMem
  cases h _ hMem

theorem stopAlarm_notMem_notifyAll (rd : Rd Addr) (n : Notify Addr) (a : Alarm Addr) :
    .stopAlarm a ∉ rd.notifyAll n := by
  simp [Rd.notifyAll]

theorem stopAlarm_notMem_registerReferrer (rd : Rd Addr) (sa : Addr) (a : Alarm Addr) :
    .stopAlarm a ∉ rd.registerReferrer inst sa := by
  simp only [Rd.registerReferrer, Rd.sendToplinkReq, Rd.resetAlarm]
  split <;> simp

/-- A turn that starts the procedure again. -/
theorem neverStuck_of_start (rd : Rd Addr) (before : List (Sent Addr)) (hTop : rd.NonTop)
    (hTurn : s.rd.handleEvent inst now i =
      ((rd.stageD2PingNeighboursStart inst now).1,
        before ++ (rd.stageD2PingNeighboursStart inst now).2))
    (hBefore : .stopAlarm .t001CommonConnectFailed ∉ before) :
    (s.turn inst now i queue).NeverStuck := by
  have hReset := Rd.reset_mem_stageD2PingNeighboursStart inst now hTop
  refine neverStuck_of_common (c := rd.connectionSequenceId + 1) ?_ ?_ ?_
  · obtain ⟨stage, neighbours, hStage, hRd⟩ := Rd.fst_stageD2PingNeighboursStart inst now rd
    rw [hTurn, hRd]
    rcases hStage with rfl | rfl <;> simp
  · rw [hTurn]
    exact List.mem_append_right before hReset
  · rw [hTurn]
    intro hMem
    rcases List.mem_append.1 hMem with hMem | hMem
    · exact hBefore hMem
    · exact stopAlarm_notMem_of_starting (Rd.snd_stageD2PingNeighboursStart inst now rd) _ hMem

/-- **One turn.** -/
theorem neverStuck_turn (h : s.NeverStuck) (hTop : s.rd.NonTop)
    (hQueue : s.queue = i :: queue) : (s.turn inst now i queue).NeverStuck := by
  have hEffect := Rd.effect_handleEvent inst now s.rd i
  generalize hTurn : s.rd.handleEvent inst now i = t at hEffect
  -- turns that leave stage, uplinks and number
  have hKeeps : ∀ t : Turn Addr, s.rd.handleEvent inst now i = t →
      t.1.connectionSequenceId = s.rd.connectionSequenceId →
      (t.1.stage = .d6MaintainConnection ↔ s.rd.stage = .d6MaintainConnection) →
      t.1.uplinkConnectionState.uplink = s.rd.uplinkConnectionState.uplink →
      (∀ a, s.rd.Watches a → i ≠ .tickAlarm a s.rd.connectionSequenceId) →
      (∀ a, s.rd.Watches a → .stopAlarm a ∉ t.2) →
      (s.turn inst now i queue).NeverStuck := by
    rintro t rfl hNumber hStage hUplink hTick hStop
    exact neverStuck_of_keeps h hQueue hNumber hStage hUplink hTick hStop
  cases hEffect with
  | idle hIdle =>
      refine hKeeps _ hTurn rfl Iff.rfl rfl ?_ (by simp)
      rintro a hWatches rfl
      cases hWatches with
      | common => exact hIdle rfl
      | resend => exact hIdle rfl
      | timeout hStage hMem => exact hIdle rfl hMem
  | waitOn =>
      refine hKeeps _ hTurn rfl Iff.rfl rfl ?_ (by simp [Rd.resetAlarm])
      rintro a hWatches hEq
      cases hWatches <;> simp at hEq
  | nobody issued hStage =>
      refine neverStuck_of_common (c := s.rd.connectionSequenceId) ?_ ?_ ?_
      · rw [hTurn, hStage]
        simp
      · rw [hTurn]
        simp [Rd.resetAlarm]
      · rw [hTurn]
        simp [Rd.resetAlarm]
  | chosen hSel =>
      refine neverStuck_of_chosen _ hTurn ?_
      cases hSel <;> simp [Rd.resetAlarm]
  | pingReferrers issued addrs =>
      refine neverStuck_of_common (c := s.rd.connectionSequenceId) ?_ ?_ ?_
      · rw [hTurn]
        simp
      · rw [hTurn]
        simp [Rd.resetAlarm]
      · rw [hTurn]
        simp [Rd.resetAlarm, Rd.sendPing]
  | timedOut => exact neverStuck_of_start s.rd [] hTop hTurn (by simp)
  | pongTimedOut sa =>
      exact neverStuck_of_start s.rd [.stopAlarm _, .stopAlarm _, .stopAlarm _] hTop hTurn
        (by simp)
  | lost =>
      refine neverStuck_of_start { s.rd with urirefs := [] } _ hTop hTurn ?_
      intro hMem
      rcases List.mem_append.1 hMem with hMem | hMem
      · exact stopAlarm_notMem_notifyAll _ _ _ hMem
      · obtain ⟨z, -, hMem⟩ := List.mem_flatMap.1 hMem
        rcases List.mem_cons.1 hMem with hEq | hMem
        · cases hEq
        · exact stopAlarm_notMem_notifyAll _ _ _ hMem
  | noNeighbour =>
      refine neverStuck_of_common (c := s.rd.connectionSequenceId) ?_ ?_ ?_
      · rw [hTurn]
        simp [Rd.stageD21PingCapsStart]
      · rw [hTurn]
        simp [Rd.stageD21PingCapsStart, Rd.resetAlarm]
      · rw [hTurn]
        exact stopAlarm_notMem_of_starting (Rd.snd_stageD21PingCapsStart inst now s.rd) _
  | resendShort sa =>
      by_cases hWatches : s.rd.Watches (.t007D6ResendPingCapsShort sa)
      · -- the tick is used up, the alarm armed again
        refine ⟨.t007D6ResendPingCapsShort sa, ?_, ?_⟩
        · rw [show (s.turn inst now _ queue).rd = s.rd by rw [State.turn, hTurn]]
          exact hWatches
        · refine live_turn_of_mem (c := s.rd.connectionSequenceId) ?_ ?_
          · rw [hTurn]
            simp [Rd.resetAlarm]
          · rw [hTurn]
            simp [Rd.resetAlarm, Rd.sendPing]
      · refine hKeeps _ hTurn rfl Iff.rfl rfl ?_ (by simp [Rd.resetAlarm, Rd.sendPing])
        rintro a hWatches' hEq
        obtain ⟨rfl, -⟩ := Input.tickAlarm.inj hEq
        exact hWatches hWatches'
  | resendLong sa =>
      refine hKeeps _ hTurn rfl Iff.rfl rfl ?_ (by simp [Rd.sendPing])
      rintro a hWatches hEq
      cases hWatches <;> simp at hEq
  | reregister =>
      refine hKeeps _ hTurn rfl Iff.rfl rfl ?_
        fun a _ => stopAlarm_notMem_registerReferrer s.rd _ a
      rintro a hWatches hEq
      cases hWatches <;> simp at hEq
  | noUplink =>
      refine hKeeps _ hTurn rfl Iff.rfl rfl ?_ (by simp)
      rintro a hWatches hEq
      cases hWatches <;> simp at hEq
  | dropped hDrops =>
      refine hKeeps _ hTurn rfl Iff.rfl rfl ?_
        fun a _ => stopAlarm_notMem_notifyAll s.rd _ a
      rintro a hWatches hEq
      cases hWatches <;> cases hDrops <;> simp at hEq
  | pongAtTop e esi => exact hKeeps _ hTurn rfl Iff.rfl rfl (by simp) (by simp)
  | pongNoted e esi hAcc hOut =>
      refine hKeeps _ hTurn rfl Iff.rfl rfl (by simp) ?_
      rcases hOut with rfl | ⟨what, rfl⟩ <;> simp
  | pongShort e esi =>
      by_cases hWatches : s.rd.Watches (.t009PongTimedOutCapsLong esi.remoteName)
      · -- the alarms of the uplink are stopped, and T_009 armed again
        refine ⟨.t009PongTimedOutCapsLong esi.remoteName, ?_, ?_⟩
        · rw [show (s.turn inst now _ queue).rd = s.rd.afterPong inst now e esi by
            rw [State.turn, hTurn]]
          exact hWatches.congr Iff.rfl rfl
        · refine Or.inr ?_
          rw [State.turn, hTurn]
          exact Timer.State.armed_send_reset s.timer _ s.rd.connectionSequenceId
            [.stopAlarm _, .stopAlarm _, .stopAlarm _, .resetAlarm _ _] [] (by simp)
      · refine hKeeps _ hTurn rfl Iff.rfl rfl (by simp) ?_
        intro a hWatches' hMem
        simp only [Rd.d6OnPongPtCapsShort, Rd.resetAlarm, List.mem_cons, reduceCtorEq,
          Sent.stopAlarm.injEq, List.not_mem_nil, or_false] at hMem
        rcases hMem with rfl | rfl | rfl
        · cases hWatches' with
          | resend hStage hMem => exact hWatches (.timeout hStage hMem)
        · cases hWatches'
        · exact hWatches hWatches'
  | pongLong e esi =>
      exact hKeeps _ hTurn rfl Iff.rfl rfl (by simp)
        (by simp [Rd.d6OnPongPtCapsLong, Rd.resetAlarm])
  | pongAsked e esi hAcc hStage =>
      refine hKeeps _ hTurn ?_ ?_ ?_ (by simp) ?_
      · rw [Rd.fst_stageD3GetReferrersStart]
        rfl
      · rw [Rd.fst_stageD3GetReferrersStart]
        rcases hStage with hStage | hStage <;> simp [hStage]
      · rw [Rd.fst_stageD3GetReferrersStart]
        rfl
      · intro a _
        simp only [Rd.stageD3GetReferrersStart, Rd.sendToplinkReq, Rd.resetAlarm]
        split
        · simp
        · split <;> simp
  | pongChosen e esi => exact neverStuck_of_chosen [.stopAlarm _] hTurn (by simp)
  | pinged e route esi mId =>
      refine hKeeps _ hTurn ?_ ?_ ?_ (by simp) ?_
      · simp only [Rd.onIncomingOnAcceptor, Rd.onPing]
        split_ifs <;> rfl
      · simp only [Rd.onIncomingOnAcceptor, Rd.onPing]
        split_ifs <;> exact Iff.rfl
      · simp only [Rd.onIncomingOnAcceptor, Rd.onPing]
        split_ifs <;> rfl
      · intro a _
        simp only [Rd.onIncomingOnAcceptor, Rd.onPing, Rd.sendPong, Rd.resetAlarm]
        split_ifs <;> simp
  | subscribed route =>
      refine hKeeps _ hTurn rfl Iff.rfl rfl (by simp) ?_
      intro a _
      simp only [Rd.onSubscribeNotifications]
      split <;> simp
  | updateREQ bod =>
      exact hKeeps _ hTurn rfl Iff.rfl rfl (by simp)
        (by simp [Rd.onUpdateConfigREQ, Rd.updateDownlinks])
  | updateRSP bod =>
      exact hKeeps _ hTurn rfl Iff.rfl rfl (by simp)
        (by simp [Rd.onUpdateConfigRSP, Rd.updateDownlinks])

end Turns

/-! ## Runs -/

variable {inst : Instance Addr}

theorem neverStuck_started {now : Int} {rd : Rd Addr} (hTop : rd.NonTop) :
    (started inst now rd).NeverStuck := by
  have hStart : rd.onStartService inst now = _ := onStartService_of_nonTop hTop
  obtain ⟨stage, neighbours, hStage, hRd⟩ := Rd.fst_stageD2PingNeighboursStart inst now rd
  refine ⟨.t001CommonConnectFailed, .common ?_, Or.inr ?_⟩
  · rw [started, hStart, hRd]
    rcases hStage with rfl | rfl <;> simp
  · have hNumber : (started inst now rd).rd.connectionSequenceId =
        rd.connectionSequenceId + 1 := by
      rw [started, hStart, hRd]
    have hSent := Rd.snd_stageD2PingNeighboursStart inst now rd
    have hMem := resetAlarm_mem_timerEvents.2
      (Rd.reset_mem_stageD2PingNeighboursStart inst now hTop)
    rw [hNumber, started, hStart]
    refine Timer.State.armed_send_of_mem ⟨[], [], none⟩ hMem ?_
    intro e he hKey
    cases e with
    | resetAlarm key cookie =>
        obtain rfl : key = .t001CommonConnectFailed := hKey
        cases hSent _ (resetAlarm_mem_timerEvents.1 he)
        rfl
    | stopAlarm key =>
        exact absurd (stopAlarm_mem_timerEvents.1 he) (stopAlarm_notMem_of_starting hSent key)

theorem neverStuck_reachable {s : State Addr} (h : (machine inst).Reachable s)
    (hTop : s.rd.NonTop) : s.NeverStuck := by
  refine Machine.Reachable.invariant (I := fun s => s.rd.NonTop → s.NeverStuck) ?_ ?_ h hTop
  · rintro s ⟨now, rd, hNew, rfl⟩ hTop
    exact neverStuck_started (nonTop_onStartService.1 hTop)
  · intro s a hs hEn hTop
    rcases State.apply_cases inst hEn with ⟨now, i, queue, rfl, hQueue, hApply⟩ |
      ⟨hRd, -, -, hTurn⟩
    · have hApply' : (machine inst).apply s (.handle now) = s.turn inst now i queue := hApply
      rw [hApply'] at hTop ⊢
      have hTop' : s.rd.NonTop := nonTop_handleEvent.1 hTop
      exact neverStuck_turn (hs hTop') hTop' hQueue
    · obtain ⟨b, hWatches, hLive⟩ := hs (hRd ▸ hTop)
      exact ⟨b, hRd.symm ▸ hWatches, live_apply hLive hEn hTurn⟩

/--
**Never stuck.** In every reachable state of a node that is not a top server
the common alarm is live outside D6, and in D6 one of the two alarms of an
uplink is.
-/
theorem never_stuck {s : State Addr} (h : (machine inst).Reachable s) (hTop : s.rd.NonTop) :
    (s.rd.stage ≠ .d6MaintainConnection → s.Live .t001CommonConnectFailed) ∧
      (s.rd.stage = .d6MaintainConnection → ∃ sa ∈ s.rd.uplinkConnectionState.uplink,
        s.Live (.t007D6ResendPingCapsShort sa) ∨ s.Live (.t009PongTimedOutCapsLong sa)) := by
  obtain ⟨a, hWatches, hLive⟩ := neverStuck_reachable h hTop
  constructor
  · intro hStage
    cases hWatches with
    | common => exact hLive
    | resend hD6 => exact absurd hD6 hStage
    | timeout hD6 => exact absurd hD6 hStage
  · intro hStage
    cases hWatches with
    | common hD6 => exact absurd hStage hD6
    | resend _ hMem => exact ⟨_, hMem, Or.inl hLive⟩
    | timeout _ hMem => exact ⟨_, hMem, Or.inr hLive⟩

/-- With an uplink found, one of its alarms is live. -/
theorem connects_neverStuck :
    let s := (machine oneCaps).exec (started oneCaps 0 fresh) connects
    s.rd.stage = .d6MaintainConnection ∧ ∃ sa ∈ s.rd.uplinkConnectionState.uplink,
      s.Live (.t007D6ResendPingCapsShort sa) ∨ s.Live (.t009PongTimedOutCapsLong sa) :=
  ⟨by decide,
    (never_stuck ⟨_, connects, init_started, by decide, rfl⟩ (by decide)).2 (by decide)⟩

/-! ## Ticks come -/

/-- With nothing in between a waiting task is turned into its tick. -/
theorem waiting_ticks {s : State Addr} {t : Timer.Task (Alarm Addr)} (hFree : s.timer.passing = none)
    (hMem : t ∈ s.timer.all) :
    ∃ acts, (machine inst).Path s acts ∧ ((machine inst).exec s acts).rd = s.rd ∧
      tick t ∈ ((machine inst).exec s acts).queue := by
  obtain ⟨i, hi, hEq⟩ := List.mem_iff_getElem.1 hMem
  have hTaken : s.timer.all[i]? = some t := by
    rw [List.getElem?_eq_getElem hi, hEq]
  refine ⟨[.timer (.fire i), .timer .pass], ⟨⟨hFree, hi⟩, ?_, trivial⟩, rfl, ?_⟩
  · simp [machine, State.enabled, State.apply, Timer.State.enabled, Timer.State.step, hTaken]
  · simp [machine, State.apply, Timer.State.step, hTaken]

/-- A live alarm's tick comes, whatever the network does not do: the timer
alone brings it. -/
theorem live_ticks {s : State Addr} {a : Alarm Addr} (hLive : s.Live a) :
    ∃ acts, (machine inst).Path s acts ∧ ((machine inst).exec s acts).rd = s.rd ∧
      .tickAlarm a s.rd.connectionSequenceId ∈ ((machine inst).exec s acts).queue := by
  induction hQueue : s.timer.queue generalizing s with
  | cons e rest ih =>
      have hEn : s.enabled (.timer .handle) := by
        simp [State.enabled, Timer.State.enabled, hQueue]
      have hRest : (s.apply inst (.timer .handle)).timer.queue = rest := by
        simp [State.apply, Timer.State.step, hQueue]
      obtain ⟨acts, hPath, hRd, hTick⟩ := ih (live_apply hLive hEn (by simp)) hRest
      exact ⟨.timer .handle :: acts, ⟨hEn, hPath⟩, hRd, hTick⟩
  | nil =>
      rcases hLive with hLive | hLive | hLive
      · exact ⟨[], trivial, rfl, hLive⟩
      · refine ⟨[.timer .pass], ⟨?_, trivial⟩, rfl, ?_⟩
        · simp [machine, State.enabled, Timer.State.enabled, hLive]
        · simp [machine, State.apply, Timer.State.step, hLive, tick]
      · rw [Timer.State.settled, hQueue] at hLive
        cases hPassing : s.timer.passing with
        | none => exact waiting_ticks hPassing hLive
        | some t =>
            -- the worker passes on what it holds first
            have hNext : (s.apply inst (.timer .pass)).timer.passing = none := rfl
            obtain ⟨acts, hPath, hRd, hTick⟩ := waiting_ticks hNext hLive
            refine ⟨.timer .pass :: acts, ⟨?_, hPath⟩, hRd, hTick⟩
            simp [machine, State.enabled, Timer.State.enabled, hPassing]

end Megatron.Referrer
