import Megatron.Referrer.Alarms
import Megatron.Referrer.History

/-!
# The time-out of the downlinks

A downlink that stops pinging is removed by T_011, whose alarm every ping is
meant to put off.  The alarm is armed in `on_IncomingOnAcceptor`, before
`on_Ping` creates the downlink, and only for a downlink that is known: the ping
that creates it arms nothing.  And where T_001 or T_009 starts the procedure
again the downlinks stay, while the new number makes their alarms void.

## Main results

* `downlink_timedOut` — the tick removes the downlink and tells every
  subscriber.
* `watched_turn` — what a turn must not do for every downlink to keep a live
  alarm, exactly.
* `downlinks_watched` — the same of whole runs.
* `unwatched_downlink` — a run that ends with a downlink nothing watches.
-/

namespace Megatron.Referrer

open Megatron.Corelib Megatron.Lib

variable {Addr : Type} [LinearOrder Addr]

/-! ## The numbers in the timer -/

/-- No tick and no task is ahead of the service. -/
structure State.Numbered (s : State Addr) : Prop where
  queue : ∀ a cookie, .tickAlarm a cookie ∈ s.queue → cookie ≤ s.rd.connectionSequenceId
  timer : ∀ t ∈ s.timer.pending, t.cookie ≤ s.rd.connectionSequenceId

theorem numbered_apply {inst : Instance Addr} {s : State Addr} {a : Action Addr}
    (h : s.Numbered) (hEn : s.enabled a) : (s.apply inst a).Numbered := by
  cases a with
  | arrive i =>
      refine ⟨fun a cookie hMem => ?_, h.timer⟩
      rcases List.mem_append.1 hMem with hMem | hMem
      · exact h.queue a cookie hMem
      · rw [← List.mem_singleton.1 hMem] at hEn
        exact absurd trivial hEn
  | timer b =>
      refine ⟨fun a cookie hMem => ?_, fun t ht => ?_⟩
      · rcases List.mem_append.1 hMem with hMem | hMem
        · exact h.queue a cookie hMem
        · obtain ⟨t, ht, hTick⟩ := List.mem_map.1 hMem
          obtain ⟨rfl, rfl⟩ := Input.tickAlarm.inj hTick
          exact h.timer t (Timer.State.pending_step (Or.inr ht))
      · exact h.timer t (Timer.State.pending_step (Or.inl ht))
  | handle now =>
      cases hQueue : s.queue with
      | nil => exact absurd hQueue hEn
      | cons i queue =>
          rw [show s.apply inst (.handle now) = s.turn inst now i queue by
            simp [State.apply, hQueue]]
          have hEffect := Rd.effect_handleEvent inst now s.rd i
          have hLe := hEffect.number_le
          refine ⟨fun a cookie hMem => ?_, fun t ht => ?_⟩
          · refine (h.queue a cookie ?_).trans hLe
            rw [hQueue]
            exact List.mem_cons_of_mem i hMem
          · rcases Timer.State.pending_send ht with ht | ht
            · exact (h.timer t ht).trans hLe
            · exact le_of_eq (hEffect.cookie (resetAlarm_mem_timerEvents.1 ht))

theorem numbered_started (inst : Instance Addr) (now : Int) (rd : Rd Addr) :
    (started inst now rd).Numbered := by
  have hOut : Numbered (rd.onStartService inst now).1.connectionSequenceId
      (rd.onStartService inst now).2 := by
    simp only [Rd.onStartService]
    split
    · exact numbered_nil
    · exact numbered_stageD2PingNeighboursStart inst now rd
  refine ⟨fun a cookie hMem => (List.not_mem_nil hMem).elim, fun t ht => ?_⟩
  rcases Timer.State.mem_pending.1 ht with ht | ht | ht
  · cases ht
  · cases ht
  · exact le_of_eq (hOut _ (resetAlarm_mem_timerEvents.1 ht) _ rfl)

/-! ## The alarm of a downlink -/

/-- The alarm of socket `sid` is live. -/
def State.LiveT011 (s : State Addr) (sid : SocketId) : Prop :=
  ∃ sa, s.Live (.t011DownlinkPingTimedOut sid sa)

/-- Every downlink has a live alarm. -/
def State.Watched (s : State Addr) : Prop := ∀ x ∈ s.rd.urirefs, s.LiveT011 x.1

/-- The tick removes the downlink and tells every subscriber. -/
theorem downlink_timedOut (inst : Instance Addr) (now : Int) (rd : Rd Addr) (sid : SocketId)
    (sa : Addr) (hDown : rd.HasDownlink sid) :
    let t := rd.handleEvent inst now
      (.tickAlarm (.t011DownlinkPingTimedOut sid sa) rd.connectionSequenceId)
    ¬ t.1.HasDownlink sid ∧
      t.2 = rd.mReadyNotificationBackroutes.map (.notify · (.downlinkDisconnected sid)) := by
  simp only [Rd.handleEvent, Rd.onTickAlarm, ne_eq, not_true_eq_false, if_false,
    Rd.onDeleteDownlink, hDown, if_true, Rd.notifyAll]
  refine ⟨?_, trivial⟩
  simp [Rd.HasDownlink]

/-- Nothing ever stops the alarm of a downlink. -/
theorem Effect.stop_t011 {inst : Instance Addr} {now : Int} {rd : Rd Addr} {i : Input Addr}
    {t : Turn Addr} (h : Effect inst now rd i t) (sid : SocketId) (sa : Addr) :
    .stopAlarm (.t011DownlinkPingTimedOut sid sa) ∉ t.2 := by
  have hChosen : ∀ (rd : Rd Addr) (esi : Esi Addr),
      .stopAlarm (.t011DownlinkPingTimedOut sid sa) ∉ (rd.d4UplinkMode inst now esi).2 := by
    intro rd esi
    rw [Rd.snd_d4UplinkMode]
    simp only [List.mem_append, List.mem_cons, Rd.cleanup, List.mem_map, Rd.sendPing,
      Rd.resetAlarm, reduceCtorEq, and_false, exists_false, or_false, List.not_mem_nil,
      Sent.stopAlarm.injEq, stopAlarm_notMem_notifyAll,
      stopAlarm_notMem_registerReferrer, not_false_eq_true]
  cases h with
  | idle => simp
  | waitOn => simp [Rd.resetAlarm]
  | nobody => simp [Rd.resetAlarm]
  | chosen hSel =>
      intro hMem
      rcases List.mem_append.1 hMem with hMem | hMem
      · cases hSel <;> simp [Rd.resetAlarm] at hMem
      · exact hChosen rd _ hMem
  | pingReferrers => simp [Rd.resetAlarm, Rd.sendPing]
  | timedOut =>
      exact stopAlarm_notMem_of_starting (Rd.snd_stageD2PingNeighboursStart inst now rd) _
  | pongTimedOut =>
      simpa using stopAlarm_notMem_of_starting (Rd.snd_stageD2PingNeighboursStart inst now rd) _
  | lost =>
      simpa [stopAlarm_notMem_notifyAll] using stopAlarm_notMem_of_starting
        (Rd.snd_stageD2PingNeighboursStart inst now { rd with urirefs := [] }) _
  | noNeighbour =>
      exact stopAlarm_notMem_of_starting (Rd.snd_stageD21PingCapsStart inst now rd) _
  | resendShort => simp [Rd.resetAlarm, Rd.sendPing]
  | resendLong => simp [Rd.sendPing]
  | reregister => exact stopAlarm_notMem_registerReferrer rd _ _
  | noUplink => simp
  | dropped => exact stopAlarm_notMem_notifyAll rd _ _
  | pongAtTop => simp
  | pongNoted e esi hAcc hOut => rcases hOut with rfl | ⟨what, rfl⟩ <;> simp
  | pongShort e esi => simp [Rd.d6OnPongPtCapsShort, Rd.resetAlarm]
  | pongLong e esi => simp [Rd.d6OnPongPtCapsLong, Rd.resetAlarm]
  | pongAsked e esi =>
      simp only [Rd.stageD3GetReferrersStart, Rd.sendToplinkReq, Rd.resetAlarm]
      split
      · simp
      · split <;> simp
  | pongChosen e esi =>
      intro hMem
      rcases List.mem_cons.1 hMem with hEq | hMem
      · cases hEq
      · exact hChosen (rd.afterPong inst now e esi) _ hMem
  | pinged e route esi mId =>
      simp only [Rd.onIncomingOnAcceptor, Rd.onPing, Rd.sendPong, Rd.resetAlarm]
      split_ifs <;> simp
  | subscribed route =>
      simp only [Rd.onSubscribeNotifications]
      split <;> simp
  | updateREQ bod => simp [Rd.onUpdateConfigREQ, Rd.updateDownlinks]
  | updateRSP bod => simp [Rd.onUpdateConfigRSP, Rd.updateDownlinks]

/-! ## The condition -/

/-- A ping that is answered. -/
def Rd.Replies (inst : Instance Addr) (rd : Rd Addr) (e : Ping Addr) : Prop :=
  ¬ (rd.uplinkConnectionState.mIsTopServer ∧ e.clientType = .ctClient) ∧ rd.Answers ∧
    ¬ (e.globalCookieOfSender ≠ [] ∧ e.globalCookieOfSender = inst.globalCookie)

/-- A ping that creates a downlink. -/
def Rd.Creates (inst : Instance Addr) (rd : Rd Addr) (e : Ping Addr) (mId : SocketId) : Prop :=
  ¬ rd.HasDownlink mId ∧ rd.Replies inst e ∧ e.pingType.IsLink

/-- A ping that creates a downlink finds its alarm live, and neither T_001 nor
T_009 starts the procedure again while there are downlinks. -/
def KeepsWatch (inst : Instance Addr) (s : State Addr) : Input Addr → Prop
  | .ping e _ _ mId => s.rd.Creates inst e mId → s.LiveT011 mId
  | .tickAlarm .t001CommonConnectFailed cookie =>
      cookie = s.rd.connectionSequenceId → s.rd.urirefs = []
  | .tickAlarm (.t009PongTimedOutCapsLong sa) cookie => cookie = s.rd.connectionSequenceId →
      sa ∈ s.rd.uplinkConnectionState.uplink → s.rd.urirefs = []
  | _ => True

section Turns

variable {inst : Instance Addr} {now : Int} {s : State Addr} {i : Input Addr}
  {queue : List (Input Addr)}

/-- Live alarms stay live while the number stays. -/
theorem liveT011_turn (hQueue : s.queue = i :: queue)
    (hNumber : (s.rd.handleEvent inst now i).1.connectionSequenceId =
      s.rd.connectionSequenceId) {sid : SocketId} (hLive : s.LiveT011 sid)
    (hTick : ∀ sa, i ≠ .tickAlarm (.t011DownlinkPingTimedOut sid sa) s.rd.connectionSequenceId) :
    (s.turn inst now i queue).LiveT011 sid := by
  obtain ⟨sa, hLive⟩ := hLive
  exact ⟨sa, live_turn_of_keeps hLive hQueue hNumber (hTick sa)
    ((Rd.effect_handleEvent inst now s.rd i).stop_t011 sid sa)⟩

/-- A turn that keeps the number and adds no downlink, and is the tick of none
that stays. -/
theorem watched_of_keeps (h : s.Watched) (hQueue : s.queue = i :: queue) {t : Turn Addr}
    (hTurn : s.rd.handleEvent inst now i = t)
    (hNumber : t.1.connectionSequenceId = s.rd.connectionSequenceId)
    (hDown : ∀ x ∈ t.1.urirefs, s.rd.HasDownlink x.1)
    (hTick : ∀ x ∈ t.1.urirefs, ∀ sa,
      i ≠ .tickAlarm (.t011DownlinkPingTimedOut x.1 sa) s.rd.connectionSequenceId) :
    (s.turn inst now i queue).Watched := by
  subst hTurn
  intro x hx
  obtain ⟨y, hy, hEq⟩ := hasDownlink_iff.1 (hDown x hx)
  exact liveT011_turn hQueue hNumber (hEq ▸ h y hy) (hTick x hx)

/-- Under the next number no old alarm counts. -/
theorem not_liveT011_of_next (hNumbered : s.Numbered) (hQueue : s.queue = i :: queue)
    (hNumber : (s.rd.handleEvent inst now i).1.connectionSequenceId =
      s.rd.connectionSequenceId + 1) {sid : SocketId}
    (hNone : ∀ sa c, .resetAlarm (.t011DownlinkPingTimedOut sid sa) c ∉
      (s.rd.handleEvent inst now i).2) : ¬ (s.turn inst now i queue).LiveT011 sid := by
  rintro ⟨sa, hLive⟩
  rw [State.Live, show (s.turn inst now i queue).rd.connectionSequenceId = _ from hNumber]
    at hLive
  rcases hLive with hLive | hLive
  · have hLe := hNumbered.queue _ _ (hQueue ▸ List.mem_cons_of_mem i hLive)
    omega
  · have hArmed := Timer.State.armed_of_send hLive
      fun hMem => hNone sa _ (resetAlarm_mem_timerEvents.1 hMem)
    have hLe := hNumbered.timer _ (Timer.State.mem_pending_of_armed hArmed)
    simp only at hLe
    omega

/-- A start that keeps the downlinks leaves them unwatched. -/
theorem watched_iff_of_start (hNumbered : s.Numbered) (hQueue : s.queue = i :: queue)
    (before : List (Sent Addr))
    (hTurn : s.rd.handleEvent inst now i =
      ((s.rd.stageD2PingNeighboursStart inst now).1,
        before ++ (s.rd.stageD2PingNeighboursStart inst now).2))
    (hBefore : ∀ a c, .resetAlarm a c ∉ before) :
    (s.turn inst now i queue).Watched ↔ s.rd.urirefs = [] := by
  obtain ⟨stage, neighbours, -, hRd⟩ := Rd.fst_stageD2PingNeighboursStart inst now s.rd
  have hDown : (s.turn inst now i queue).rd.urirefs = s.rd.urirefs := by
    rw [State.turn, hTurn, hRd]
  have hNumber : (s.rd.handleEvent inst now i).1.connectionSequenceId =
      s.rd.connectionSequenceId + 1 := by
    rw [hTurn, hRd]
  constructor
  · intro hWatched
    refine List.eq_nil_iff_forall_not_mem.2 fun x hx => ?_
    refine not_liveT011_of_next hNumbered hQueue hNumber ?_ (hWatched x (hDown.symm ▸ hx))
    intro sa c hMem
    rw [hTurn] at hMem
    rcases List.mem_append.1 hMem with hMem | hMem
    · exact hBefore _ c hMem
    · cases Rd.snd_stageD2PingNeighboursStart inst now s.rd _ hMem
  · intro hNone x hx
    rw [hDown, hNone] at hx
    cases hx

/-- The keys after a ping. -/
theorem keys_getDownlinkOrCreate (rd : Rd Addr) (mId : SocketId) (l : LinkInfo Addr) :
    (∀ x ∈ (rd.getDownlinkOrCreate mId l).1, x.1 = mId ∨ rd.HasDownlink x.1) ∧
      ∃ x ∈ (rd.getDownlinkOrCreate mId l).1, x.1 = mId := by
  simp only [Rd.getDownlinkOrCreate]
  cases hFound : rd.urirefs.lookup mId with
  | none =>
      refine ⟨fun x hx => ?_, (mId, l), by simp, rfl⟩
      rcases List.mem_append.1 hx with hx | hx
      · exact Or.inr (hasDownlink_iff.2 ⟨x, hx, rfl⟩)
      · exact Or.inl (by rw [List.mem_singleton.1 hx])
  | some known =>
      obtain ⟨before, after, hList, -⟩ := List.lookup_eq_some_iff.1 hFound
      refine ⟨fun x hx => ?_, (mId, { l with esi := known.esi }), ?_, rfl⟩
      · obtain ⟨z, hz, rfl⟩ := List.mem_map.1 hx
        by_cases hId : z.1 = mId
        · simp [hId]
        · simp only [hId, if_false]
          exact Or.inr (hasDownlink_iff.2 ⟨z, hz, rfl⟩)
      · exact List.mem_map.2 ⟨(mId, known), by simp [hList], by simp⟩

variable (inst) in
/-- What a ping does to the downlinks. -/
theorem urirefs_onIncomingOnAcceptor (rd : Rd Addr) (e : Ping Addr) (route : BackRoute)
    (esi : Esi Addr) (mId : SocketId) :
    (rd.onIncomingOnAcceptor inst e route esi mId).1.connectionSequenceId =
        rd.connectionSequenceId ∧
      (rd.Replies inst e ∧ e.pingType.IsLink →
        (rd.onIncomingOnAcceptor inst e route esi mId).1.urirefs =
          (rd.getDownlinkOrCreate mId (Rd.newLink inst e route esi)).1) ∧
      (¬ (rd.Replies inst e ∧ e.pingType.IsLink) →
        (rd.onIncomingOnAcceptor inst e route esi mId).1.urirefs = rd.urirefs) := by
  simp only [Rd.onIncomingOnAcceptor, Rd.onPing, Rd.Replies]
  split
  · rename_i h
    exact ⟨rfl, fun h' => absurd h h'.1.1, fun _ => rfl⟩
  · split
    · rename_i h
      exact ⟨rfl, fun h' => absurd h'.1.2.1 h, fun _ => rfl⟩
    · split
      · rename_i h
        exact ⟨rfl, fun h' => absurd h h'.1.2.2, fun _ => rfl⟩
      · rename_i h1 h2 h3
        split
        · rename_i hLink
          exact ⟨rfl, fun _ => rfl, fun h' => absurd ⟨⟨h1, not_not.1 h2, h3⟩, hLink⟩ h'⟩
        · rename_i hLink
          exact ⟨rfl, fun h' => absurd h'.2 hLink, fun _ => rfl⟩

/-- A ping arms the alarm of a downlink it knows, and no other. -/
theorem reset_onIncomingOnAcceptor {rd : Rd Addr} {e : Ping Addr} {route : BackRoute}
    {esi : Esi Addr} {mId : SocketId} {a : Alarm Addr} {c : Int}
    (h : .resetAlarm a c ∈ (rd.onIncomingOnAcceptor inst e route esi mId).2) :
    rd.HasDownlink mId := by
  simp only [Rd.onIncomingOnAcceptor, Rd.onPing, Rd.sendPong] at h
  split_ifs at h <;> first | assumption | simp at h

/-- A ping keeps every downlink watched, unless it creates one whose alarm is
not live. -/
theorem watched_ping {e : Ping Addr} {route : BackRoute} {esi : Esi Addr} {mId : SocketId}
    (h : s.Watched) (hQueue : s.queue = .ping e route esi mId :: queue) :
    (s.turn inst now (.ping e route esi mId) queue).Watched ↔
      (s.rd.Creates inst e mId → s.LiveT011 mId) := by
  obtain ⟨hNumber, hLinked, hOther⟩ :=
    urirefs_onIncomingOnAcceptor inst s.rd e route esi mId
  have hKeeps : (∀ x ∈ (s.rd.onIncomingOnAcceptor inst e route esi mId).1.urirefs,
      s.rd.HasDownlink x.1) →
      (s.turn inst now (.ping e route esi mId) queue).Watched := fun hDown =>
    watched_of_keeps (t := s.rd.onIncomingOnAcceptor inst e route esi mId) h hQueue rfl
      hNumber hDown (by simp)
  by_cases hCreates : s.rd.Creates inst e mId
  · obtain ⟨hNew, hReplies, hLink⟩ := hCreates
    have hDown := hLinked ⟨hReplies, hLink⟩
    obtain ⟨hKeys, x, hx, hId⟩ :=
      keys_getDownlinkOrCreate s.rd mId (Rd.newLink inst e route esi)
    constructor
    · intro hWatched _
      have hNow := hWatched x (show x ∈ (s.rd.onIncomingOnAcceptor inst e route esi mId).1.urirefs
        from hDown ▸ hx)
      rw [hId] at hNow
      obtain ⟨sa, hLive⟩ := hNow
      refine ⟨sa, ?_⟩
      rw [State.Live, show (s.turn inst now (.ping e route esi mId) queue).rd.connectionSequenceId
        = _ from hNumber] at hLive
      rcases hLive with hLive | hLive
      · exact Or.inl (hQueue ▸ List.mem_cons_of_mem _ hLive)
      · refine Or.inr (Timer.State.armed_of_send hLive fun hMem => ?_)
        exact hNew (reset_onIncomingOnAcceptor (resetAlarm_mem_timerEvents.1 hMem))
    · intro hLive x hx
      rw [show (s.turn inst now (.ping e route esi mId) queue).rd.urirefs = _ from hDown] at hx
      have hBefore : s.LiveT011 x.1 := by
        rcases hKeys x hx with hId | hOld
        · exact hId ▸ hLive ⟨hNew, hReplies, hLink⟩
        · obtain ⟨y, hy, hEq⟩ := hasDownlink_iff.1 hOld
          exact hEq ▸ h y hy
      exact liveT011_turn hQueue hNumber hBefore (by simp)
  · refine ⟨fun _ hC => absurd hC hCreates, fun _ => hKeeps fun x hx => ?_⟩
    by_cases hLink : s.rd.Replies inst e ∧ e.pingType.IsLink
    · have hKnown : s.rd.HasDownlink mId := by
        by_contra hNew
        exact hCreates ⟨hNew, hLink.1, hLink.2⟩
      rw [hLinked hLink] at hx
      rcases (keys_getDownlinkOrCreate s.rd mId _).1 x hx with hId | hOld
      · exact hId ▸ hKnown
      · exact hOld
    · rw [hOther hLink] at hx
      exact hasDownlink_iff.2 ⟨x, hx, rfl⟩

/-- **One turn.** -/
theorem watched_turn (hNumbered : s.Numbered) (h : s.Watched) (hQueue : s.queue = i :: queue) :
    (s.turn inst now i queue).Watched ↔ KeepsWatch inst s i := by
  have hEffect := Rd.effect_handleEvent inst now s.rd i
  generalize hTurn : s.rd.handleEvent inst now i = t at hEffect
  have hMem : ∀ x ∈ s.rd.urirefs, s.rd.HasDownlink x.1 :=
    fun x hx => hasDownlink_iff.2 ⟨x, hx, rfl⟩
  have hKeeps : ∀ {t : Turn Addr}, s.rd.handleEvent inst now i = t →
      t.1.connectionSequenceId = s.rd.connectionSequenceId → t.1.urirefs = s.rd.urirefs →
      (∀ sid sa, i ≠ .tickAlarm (.t011DownlinkPingTimedOut sid sa) s.rd.connectionSequenceId) →
      KeepsWatch inst s i → ((s.turn inst now i queue).Watched ↔ KeepsWatch inst s i) := by
    intro t hTurn hNumber hDown hTick hGuard
    refine ⟨fun _ => hGuard, fun _ => watched_of_keeps h hQueue hTurn hNumber ?_
      fun x _ => hTick x.1⟩
    rw [hDown]
    exact hMem
  cases hEffect with
  | idle hIdle =>
      have hGuard : KeepsWatch inst s i := by
        cases i with
        | tickAlarm tid cookie =>
            cases tid with
            | t001CommonConnectFailed => exact fun hCookie => (hIdle hCookie).elim
            | t009PongTimedOutCapsLong sa =>
                exact fun hCookie hUp => absurd hUp (hIdle hCookie)
            | _ => trivial
        | ping => exact hIdle.elim
        | _ => trivial
      refine ⟨fun _ => hGuard, fun _ => watched_of_keeps h hQueue hTurn rfl hMem ?_⟩
      rintro x hx sa rfl
      exact hIdle rfl (hMem x hx)
  | waitOn => exact hKeeps hTurn rfl rfl (by simp) trivial
  | nobody => exact hKeeps hTurn rfl rfl (by simp) trivial
  | chosen hSel => cases hSel <;> exact hKeeps hTurn rfl rfl (by simp) trivial
  | pingReferrers => exact hKeeps hTurn rfl rfl (by simp) trivial
  | timedOut =>
      refine (watched_iff_of_start hNumbered hQueue [] hTurn (by simp)).trans ?_
      simp [KeepsWatch]
  | pongTimedOut sa hUp =>
      refine (watched_iff_of_start hNumbered hQueue
        [.stopAlarm _, .stopAlarm _, .stopAlarm _] hTurn (by simp)).trans ?_
      simp [KeepsWatch, hUp]
  | lost hLoses =>
      have hGuard : KeepsWatch inst s i := by
        cases hLoses <;> trivial
      refine ⟨fun _ => hGuard, fun _ x hx => ?_⟩
      obtain ⟨stage, neighbours, -, hRd⟩ :=
        Rd.fst_stageD2PingNeighboursStart inst now { s.rd with urirefs := [] }
      rw [State.turn, hTurn, hRd] at hx
      cases hx
  | noNeighbour => exact hKeeps hTurn rfl rfl (by simp) trivial
  | resendShort => exact hKeeps hTurn rfl rfl (by simp) trivial
  | resendLong => exact hKeeps hTurn rfl rfl (by simp) trivial
  | reregister => exact hKeeps hTurn rfl rfl (by simp) trivial
  | noUplink => exact hKeeps hTurn rfl rfl (by simp) trivial
  | dropped hDrops =>
      have hGuard : KeepsWatch inst s i := by
        cases hDrops <;> trivial
      refine ⟨fun _ => hGuard, fun _ => watched_of_keeps h hQueue hTurn rfl
        (fun x hx => hMem x (List.mem_of_mem_filter hx)) ?_⟩
      -- only the downlink whose tick it is goes
      intro x hx sa hEq
      have hOther := (List.mem_filter.1 hx).2
      cases hDrops with
      | disaccepted => cases hEq
      | tick sa' =>
          obtain ⟨hTid, -⟩ := Input.tickAlarm.inj hEq
          obtain ⟨hSid, -⟩ := Alarm.t011DownlinkPingTimedOut.inj hTid
          simp [hSid] at hOther
  | pongAtTop => exact hKeeps hTurn rfl rfl (by simp) trivial
  | pongNoted => exact hKeeps hTurn rfl rfl (by simp) trivial
  | pongShort => exact hKeeps hTurn rfl rfl (by simp) trivial
  | pongLong => exact hKeeps hTurn rfl rfl (by simp) trivial
  | pongAsked e esi =>
      refine hKeeps hTurn ?_ ?_ (by simp) trivial
      · rw [Rd.fst_stageD3GetReferrersStart]
        rfl
      · rw [Rd.fst_stageD3GetReferrersStart]
        rfl
  | pongChosen => exact hKeeps hTurn rfl rfl (by simp) trivial
  | pinged e route esi mId => exact watched_ping h hQueue
  | subscribed => exact hKeeps hTurn rfl rfl (by simp) trivial
  | updateREQ => exact hKeeps hTurn rfl rfl (by simp) trivial
  | updateRSP => exact hKeeps hTurn rfl rfl (by simp) trivial

end Turns

/-! ## Runs -/

/-- The steps that meet the condition. -/
def KeepsWatchAt (inst : Instance Addr) (s : State Addr) : Action Addr → Prop
  | .handle _ => ∀ i ∈ s.queue.head?, KeepsWatch inst s i
  | _ => True

variable {inst : Instance Addr}

theorem watched_step {s : State Addr} {a : Action Addr} (hNumbered : s.Numbered)
    (h : s.Watched) (hEn : s.enabled a) :
    (s.apply inst a).Watched ↔ KeepsWatchAt inst s a := by
  rcases State.apply_cases inst hEn with ⟨now, i, queue, rfl, hQueue, hApply⟩ |
    ⟨hRd, -, -, hTurn⟩
  · rw [hApply]
    refine (watched_turn hNumbered h hQueue).trans ?_
    simp [KeepsWatchAt, hQueue]
  · refine ⟨fun _ => ?_, fun _ x hx => ?_⟩
    · cases a with
      | handle now => exact absurd rfl (hTurn now)
      | _ => trivial
    · obtain ⟨sa, hLive⟩ := h x (hRd ▸ hx)
      exact ⟨sa, live_apply hLive hEn hTurn⟩

/-- Socket `sid` has pinged under the number in force while it was a downlink,
and no tick of its alarm has been handled since. -/
def State.PingedAgain (s : State Addr) (sid : SocketId) : Prop :=
  ∃ before p after e route esi, s.history = before ++ p :: after ∧
    p.input = .ping e route esi sid ∧ p.before.HasDownlink sid ∧
    p.before.connectionSequenceId = s.rd.connectionSequenceId ∧
    ∀ q ∈ after, ∀ sa,
      q.input ≠ .tickAlarm (.t011DownlinkPingTimedOut sid sa) s.rd.connectionSequenceId

/-- A downlink that pings arms its alarm. -/
theorem live_of_ping {now : Int} {s : State Addr} {queue : List (Input Addr)} {e : Ping Addr}
    {route : BackRoute} {esi : Esi Addr} {sid : SocketId} (hDown : s.rd.HasDownlink sid) :
    (s.turn inst now (.ping e route esi sid) queue).LiveT011 sid := by
  refine ⟨esi.remoteName, live_turn_of_mem (c := s.rd.connectionSequenceId) ?_
    ((Rd.effect_handleEvent inst now s.rd _).stop_t011 _ _)⟩
  simp [Rd.handleEvent, Rd.onIncomingOnAcceptor, hDown, Rd.resetAlarm]

/-- **A second ping is enough**: its alarm is live until its tick or the next
number. -/
theorem live_of_pingedAgain {s : State Addr} (h : (machine inst).Reachable s) {sid : SocketId}
    (hPinged : s.PingedAgain sid) : s.LiveT011 sid := by
  refine Machine.Reachable.invariant_of_reachable
    (I := fun s => ∀ sid, s.PingedAgain sid → s.LiveT011 sid) ?_ ?_ h sid hPinged
  · rintro s h0 sid ⟨before, p, after, e, route, esi, hHistory, -⟩
    obtain ⟨now, rd, hNew, rfl⟩ := h0
    simp [started] at hHistory
  · intro s a hReach hs hEn sid hPinged
    obtain ⟨before, p, after, e, route, esi, hHistory, hInput, hDown, hNumber, hSince⟩ := hPinged
    rcases State.apply_cases inst hEn with ⟨now, i, queue, rfl, hQueue, hApply⟩ |
      ⟨hRd, -, hPast, hTurn⟩
    · have hApply' : (machine inst).apply s (.handle now) = s.turn inst now i queue := hApply
      rw [hApply'] at hHistory hNumber hSince ⊢
      rcases List.eq_nil_or_concat after with rfl | ⟨after, q, rfl⟩
      · -- the ping has just been handled
        obtain ⟨-, hLast⟩ := List.append_inj' hHistory rfl
        obtain rfl := (List.cons.inj hLast).1
        obtain rfl : i = .ping e route esi sid := hInput
        exact live_of_ping hDown
      · rw [List.concat_eq_append, ← List.cons_append, ← List.append_assoc] at hHistory
        obtain ⟨hPast, hLast⟩ := List.append_inj' hHistory rfl
        obtain rfl := (List.cons.inj hLast).1
        have hMem : p ∈ s.history := by
          rw [hPast]
          exact List.mem_append_right before List.mem_cons_self
        have hSame : (s.rd.handleEvent inst now i).1.connectionSequenceId =
            s.rd.connectionSequenceId := by
          refine le_antisymm ?_ (Rd.effect_handleEvent inst now s.rd i).number_le
          rw [show (s.rd.handleEvent inst now i).1.connectionSequenceId = _ from hNumber.symm]
          exact (recorded hReach).number p hMem
        have hNumber' : (s.turn inst now i queue).rd.connectionSequenceId =
            s.rd.connectionSequenceId := hSame
        rw [hNumber'] at hNumber hSince
        refine liveT011_turn hQueue hSame (hs sid ⟨before, p, after, e, route, esi, hPast,
          hInput, hDown, hNumber, fun q hq => hSince q (by simp [hq])⟩) ?_
        exact hSince ⟨s.rd, now, i⟩ (by simp)
    · have hRd' : ((machine inst).apply s a).rd = s.rd := hRd
      have hPast' : ((machine inst).apply s a).history = s.history := hPast
      rw [hPast'] at hHistory
      rw [hRd'] at hNumber hSince
      obtain ⟨sa, hLive⟩ := hs sid
        ⟨before, p, after, e, route, esi, hHistory, hInput, hDown, hNumber, hSince⟩
      exact ⟨sa, live_apply hLive hEn hTurn⟩

/--
**Downlinks are watched.** Along a run of the service every downlink has a live
alarm, if and only if no ping creates a downlink without one and neither T_001
nor T_009 starts the procedure again while there are downlinks. A downlink that
has pinged again under the number in force has one in any run.
-/
theorem downlinks_watched {s₀ : State Addr} {acts : List (Action Addr)}
    (h0 : (machine inst).init s₀) (hPath : (machine inst).Path s₀ acts) :
    ((machine inst).Along State.Watched s₀ acts ↔
        ((machine inst).guarded (KeepsWatchAt inst)).Path s₀ acts) ∧
      ∀ sid, ((machine inst).exec s₀ acts).PingedAgain sid →
        ((machine inst).exec s₀ acts).LiveT011 sid := by
  refine ⟨?_, fun sid => live_of_pingedAgain ⟨s₀, acts, h0, hPath, rfl⟩⟩
  obtain ⟨now, rd, hNew, rfl⟩ := h0
  refine Machine.along_iff_path_guarded (J := State.Numbered)
    (fun s a hs hEn => numbered_apply hs hEn) (fun s a hs hP hEn => watched_step hs hP hEn)
    acts _ (numbered_started inst now rd) ?_ hPath
  intro x hx
  rw [show (started inst now rd).rd.urirefs = [] from urirefs_onStartService hNew] at hx
  cases hx

/-- A downlink that has pinged twice. -/
def pingsTwice : List (Action Nat) :=
  connects ++ [.arrive childPings, .handle 5, .arrive childPings, .handle 12]

theorem pingsTwice_watched :
    ((machine oneCaps).exec (started oneCaps 0 fresh) pingsTwice).LiveT011 4 :=
  (downlinks_watched init_started (by decide)).2 4
    ⟨_, _, [], _, _, _, rfl, rfl, by decide, by decide, by simp⟩

/-- A downlink that has pinged once. -/
def pingsOnce : List (Action Nat) := connects ++ [.arrive childPings, .handle 5]

/-- A downlink that has pinged once has no alarm at all. -/
theorem unwatched_downlink : ∃ s, (machine oneCaps).Reachable s ∧ s.rd.HasDownlink 4 ∧
    ¬ s.LiveT011 4 ∧ ¬ s.Watched := by
  have hNone : ¬ ((machine oneCaps).exec (started oneCaps 0 fresh) pingsOnce).LiveT011 4 := by
    rintro ⟨sa, hLive | hLive⟩
    · rw [show ((machine oneCaps).exec (started oneCaps 0 fresh) pingsOnce).queue = [] by
        decide] at hLive
      cases hLive
    · have hAll : (((machine oneCaps).exec (started oneCaps 0 fresh) pingsOnce).timer.pending.all
          fun t => match t.key with
            | .t011DownlinkPingTimedOut _ _ => false
            | _ => true) = true := by
        decide
      have hBad := List.all_eq_true.1 hAll _ (Timer.State.mem_pending_of_armed hLive)
      cases hBad
  have hDown : ((machine oneCaps).exec (started oneCaps 0 fresh) pingsOnce).rd.HasDownlink 4 := by
    decide
  refine ⟨_, ⟨_, pingsOnce, init_started, by decide, rfl⟩, hDown, hNone, fun hWatched => ?_⟩
  obtain ⟨x, hx, hId⟩ := hasDownlink_iff.1 hDown
  exact hNone (hId ▸ hWatched x hx)

end Megatron.Referrer
