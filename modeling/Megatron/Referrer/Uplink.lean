import Megatron.Referrer.Run

/-!
# One uplink

A referrer with an uplink is in D6, has one uplink and counts as connected;
without one it is in another stage.  Every selection but one happens in a stage
before D6: the tick of T_020 is handled without a look at the stage, so a tick
that was queued when a pong stopped the alarm selects a second time.  In D6 the
peer it selects is the one that comes first by its round-trip time, which need
not be the uplink.

## Main results

* `oneUplink_turn` — one turn keeps the uplink single if and only if it is not
  such a tick.
* `one_uplink` — the same of whole runs.
* `second_uplink` — a run with two uplinks.
-/

namespace Megatron.Referrer

open Megatron.Corelib Megatron.Lib

variable {Addr : Type} [LinearOrder Addr]

/-! ## The selection by the visible name -/

/-- `y` comes first among the peers that saw this node under a name outside the
configuration, or among all when there are none. -/
structure Rd.FirstByVisibleName (rd : Rd Addr) (y : Ponged Addr) : Prop where
  mem : y ∈ rd.uplinkConnectionState.pongedAll
  name : rd.IsTopServer y.visibleName →
    ∀ z ∈ rd.uplinkConnectionState.pongedAll, rd.IsTopServer z.visibleName
  first : ∀ z ∈ rd.uplinkConnectionState.pongedAll,
    (rd.IsTopServer y.visibleName ∨ ¬ rd.IsTopServer z.visibleName) → y ≤ z

theorem Rd.chooseByVisibleName_eq_some {rd : Rd Addr} {y : Ponged Addr} :
    rd.chooseByVisibleName = some y ↔ rd.FirstByVisibleName y := by
  rw [chooseByVisibleName]
  cases hPlain : rd.uplinkConnectionState.pongedAll.find?
      (fun y => ¬ rd.IsTopServer y.visibleName) with
  | some x =>
      rw [Option.some_or, Option.some.injEq]
      obtain ⟨hMem, hName, hFirst⟩ := OrdSet.find?_eq_some.1 hPlain
      constructor
      · rintro rfl
        refine ⟨hMem, fun h => absurd h hName, fun z hz hz' => hFirst z hz ?_⟩
        exact hz'.resolve_left hName
      · rintro ⟨hMem', hName', hFirst'⟩
        have hy : ¬ rd.IsTopServer y.visibleName := fun h => hName (hName' h x hMem)
        exact le_antisymm (hFirst y hMem' hy) (hFirst' x hMem (Or.inr hName))
  | none =>
      rw [Option.none_or, OrdSet.find?_eq_some]
      have hAll : ∀ z ∈ rd.uplinkConnectionState.pongedAll,
          rd.IsTopServer z.visibleName :=
        fun z hz => not_not.1 (OrdSet.find?_eq_none.1 hPlain z hz)
      constructor
      · rintro ⟨hMem, hName, hFirst⟩
        exact ⟨hMem, fun _ => hAll, fun z hz _ => hFirst z hz (hAll z hz)⟩
      · rintro ⟨hMem, -, hFirst⟩
        exact ⟨hMem, hAll y hMem, fun z hz _ => hFirst z hz (Or.inl (hAll y hMem))⟩

/-! ## The invariant -/

/-- At most one uplink; connected exactly with one, in D6 exactly with one. -/
structure Rd.OneUplink (rd : Rd Addr) : Prop where
  atMostOne : rd.uplinkConnectionState.uplink.toList.length ≤ 1
  connectionEstablished : rd.uplinkConnectionState.connectionEstablished = true ↔
    rd.uplinkConnectionState.uplink ≠ ∅
  stage : rd.uplinkConnectionState.uplink ≠ ∅ ↔ rd.stage = .d6MaintainConnection

/-- The peer that comes first is the uplink. -/
def Rd.FirstIsUplink (rd : Rd Addr) : Prop :=
  ∀ y, rd.FirstByVisibleName y → y.esi.remoteName ∈ rd.uplinkConnectionState.uplink

instance Rd.decidableFirstIsUplink (rd : Rd Addr) : Decidable rd.FirstIsUplink :=
  decidable_of_iff (∀ y ∈ rd.chooseByVisibleName,
      y.esi.remoteName ∈ rd.uplinkConnectionState.uplink)
    (forall_congr' fun _ => imp_congr chooseByVisibleName_eq_some Iff.rfl)

/-- No tick of T_020 is handled in D6, unless the peer that comes first is the
uplink. -/
def NoLateT020 : TurnGuard Addr := fun rd _ _ i =>
  i = .tickAlarm .t020D31WaitAfterSendPtCache rd.connectionSequenceId →
    rd.stage = .d6MaintainConnection → rd.FirstIsUplink

instance decidableNoLateT020 (rd : Rd Addr) (history : List (Handled Addr)) (now : Int)
    (i : Input Addr) : Decidable (NoLateT020 rd history now i) :=
  inferInstanceAs (Decidable (_ → _ → rd.FirstIsUplink))

namespace Rd

variable {inst : Instance Addr} {now : Int}

/-- The three fields are all that counts. -/
theorem OneUplink.congr {rd rd' : Rd Addr} (h : rd.OneUplink)
    (hUplink : rd'.uplinkConnectionState.uplink = rd.uplinkConnectionState.uplink)
    (hEstablished : rd'.uplinkConnectionState.connectionEstablished =
      rd.uplinkConnectionState.connectionEstablished)
    (hStage : rd'.stage = .d6MaintainConnection ↔ rd.stage = .d6MaintainConnection) :
    rd'.OneUplink := by
  refine ⟨?_, ?_, ?_⟩
  · rw [hUplink]
    exact h.atMostOne
  · rw [hUplink, hEstablished]
    exact h.connectionEstablished
  · rw [hUplink, hStage]
    exact h.stage

/-- The start of the procedure forgets the uplink. -/
theorem oneUplink_stageD2PingNeighboursStart (rd : Rd Addr) :
    (rd.stageD2PingNeighboursStart inst now).1.OneUplink := by
  obtain ⟨stage, neighbours, hStage, hRd⟩ := fst_stageD2PingNeighboursStart inst now rd
  rw [hRd]
  refine ⟨by simp [UplinkConnectionState.new], by simp [UplinkConnectionState.new], ?_⟩
  rcases hStage with rfl | rfl <;> simp [UplinkConnectionState.new]

/-- A selection keeps the uplink single when there is none, or the same. -/
theorem oneUplink_d4UplinkMode {rd : Rd Addr} (h : rd.OneUplink) (esi : Esi Addr) :
    (rd.d4UplinkMode inst now esi).1.OneUplink ↔
      (rd.stage = .d6MaintainConnection →
        esi.remoteName ∈ rd.uplinkConnectionState.uplink) := by
  have hRest : (rd.d4UplinkMode inst now esi).1.OneUplink ↔
      (rd.uplinkConnectionState.uplink.insert esi.remoteName).toList.length ≤ 1 := by
    rw [fst_d4UplinkMode]
    refine ⟨fun h' => h'.atMostOne, fun hLen => ⟨hLen, ?_, ?_⟩⟩
    · simp [OrdSet.insert_ne_empty]
    · simp [OrdSet.insert_ne_empty]
  rw [hRest, ← h.stage]
  have hLen := h.atMostOne
  cases hList : rd.uplinkConnectionState.uplink.toList with
  | nil =>
      have hEmpty := OrdSet.toList_eq_nil.1 hList
      simp [hEmpty, OrdSet.toList_insert_empty]
  | cons u rest =>
      obtain rfl : rest = [] := by
        rw [hList] at hLen
        exact List.length_eq_zero_iff.1 (by simpa using hLen)
      have hUp : rd.uplinkConnectionState.uplink ≠ ∅ := by
        rw [ne_eq, ← OrdSet.toList_eq_nil, hList]
        simp
      have hMem : esi.remoteName ∈ rd.uplinkConnectionState.uplink ↔ esi.remoteName = u := by
        rw [← OrdSet.mem_toList, hList]
        simp
      simp only [ne_eq, hUp, not_false_eq_true, forall_true_left, hMem]
      constructor
      · intro hShort
        by_contra hne
        have hTwo : ∀ l : List Addr, l.length ≤ 1 → ∀ a ∈ l, ∀ b ∈ l, a = b := by
          intro l hl a ha b hb
          match l, hl with
          | [c], _ => rw [List.mem_singleton.1 ha, List.mem_singleton.1 hb]
        refine hne (hTwo _ hShort _ ?_ _ ?_)
        · exact OrdSet.mem_insert.2 (Or.inl rfl)
        · refine OrdSet.mem_insert.2 (Or.inr ?_)
          rw [← OrdSet.mem_toList, hList]
          exact List.mem_singleton.2 rfl
      · intro hEq
        rw [OrdSet.toList_insert_self (by rw [hList, hEq])]
        simp

/-- A turn of another input that keeps the invariant. -/
theorem oneUplink_iff_of_keeps {rd rd' : Rd Addr} {i : Input Addr} {history : List (Handled Addr)}
    (hKeeps : rd'.OneUplink)
    (hInput : i ≠ .tickAlarm .t020D31WaitAfterSendPtCache rd.connectionSequenceId) :
    rd'.OneUplink ↔ NoLateT020 rd history now i :=
  ⟨fun _ hTick => absurd hTick hInput, fun _ => hKeeps⟩

variable (inst now) in
/-- In D3 there is no uplink yet. -/
theorem oneUplink_chosen {rd : Rd Addr} (h : rd.OneUplink)
    (hStage : rd.stage ≠ .d6MaintainConnection) (esi : Esi Addr) :
    (rd.d4UplinkMode inst now esi).1.OneUplink :=
  (oneUplink_d4UplinkMode h esi).2 fun hD6 => absurd hD6 hStage

variable (inst now) in
theorem oneUplink_afterPong {rd : Rd Addr} (h : rd.OneUplink) (e : Pong Addr) (esi : Esi Addr) :
    (rd.afterPong inst now e esi).OneUplink :=
  h.congr rfl rfl Iff.rfl

/-- **One turn.** -/
theorem oneUplink_turn {rd : Rd Addr} (h : rd.OneUplink) (i : Input Addr)
    (history : List (Handled Addr)) :
    (rd.handleEvent inst now i).1.OneUplink ↔ NoLateT020 rd history now i := by
  have hEffect := effect_handleEvent inst now rd i
  generalize rd.handleEvent inst now i = t at hEffect
  cases hEffect with
  | idle hIdle =>
      refine oneUplink_iff_of_keeps h ?_
      rintro rfl
      exact hIdle rfl
  | waitOn hNone =>
      refine ⟨fun _ _ _ y hy => ?_, fun _ => h⟩
      rw [chooseByVisibleName_eq_some.2 hy] at hNone
      cases hNone
  | nobody => exact oneUplink_iff_of_keeps h (by simp)
  | chosen hSel hChosen =>
      rename_i before y
      cases hSel with
      | tick020 =>
          rw [oneUplink_d4UplinkMode h]
          constructor
          · intro hUp _ hStage y' hy'
            rw [chooseByVisibleName_eq_some.2 hy'] at hChosen
            rw [Option.some.inj hChosen]
            exact hUp hStage
          · intro hGuard hStage
            exact hGuard rfl hStage y (chooseByVisibleName_eq_some.1 hChosen)
      | tick002 hStage =>
          exact oneUplink_iff_of_keeps (oneUplink_chosen inst now h (by simp [hStage]) y.esi) (by simp)
      | answer issued hStage =>
          exact oneUplink_iff_of_keeps (oneUplink_chosen inst now h (by simp [hStage]) y.esi) (by simp)
  | pingReferrers issued addrs hStage =>
      exact oneUplink_iff_of_keeps (h.congr rfl rfl (by simp [hStage])) (by simp)
  | timedOut => exact oneUplink_iff_of_keeps (oneUplink_stageD2PingNeighboursStart rd) (by simp)
  | pongTimedOut sa =>
      exact oneUplink_iff_of_keeps (oneUplink_stageD2PingNeighboursStart rd) (by simp)
  | lost hLoses =>
      refine oneUplink_iff_of_keeps (oneUplink_stageD2PingNeighboursStart _) ?_
      cases hLoses <;> simp
  | noNeighbour hStage =>
      refine oneUplink_iff_of_keeps (h.congr rfl rfl ?_) (by simp)
      simp [stageD21PingCapsStart, hStage]
  | resendShort sa => exact oneUplink_iff_of_keeps h (by simp)
  | resendLong sa => exact oneUplink_iff_of_keeps h (by simp)
  | reregister hUL => exact oneUplink_iff_of_keeps h (by simp)
  | noUplink hUL => exact oneUplink_iff_of_keeps h (by simp)
  | dropped hDrops =>
      refine oneUplink_iff_of_keeps (h.congr rfl rfl Iff.rfl) ?_
      cases hDrops <;> simp
  | pongAtTop e esi => exact oneUplink_iff_of_keeps (h.congr rfl rfl Iff.rfl) (by simp)
  | pongNoted e esi => exact oneUplink_iff_of_keeps (oneUplink_afterPong inst now h e esi) (by simp)
  | pongShort e esi => exact oneUplink_iff_of_keeps (oneUplink_afterPong inst now h e esi) (by simp)
  | pongLong e esi => exact oneUplink_iff_of_keeps (oneUplink_afterPong inst now h e esi) (by simp)
  | pongAsked e esi hAcc hStage =>
      refine oneUplink_iff_of_keeps (h.congr ?_ ?_ ?_) (by simp)
      · rw [fst_stageD3GetReferrersStart]
        rfl
      · rw [fst_stageD3GetReferrersStart]
        rfl
      · rw [fst_stageD3GetReferrersStart]
        rcases hStage with hStage | hStage <;> simp [hStage]
  | pongChosen e esi hAcc hType hStage =>
      rename_i y hChosen
      have hPong := oneUplink_afterPong inst now h e esi
      have hD31 : (rd.afterPong inst now e esi).stage ≠ .d6MaintainConnection := by
        rw [show (rd.afterPong inst now e esi).stage = rd.stage from rfl, hStage]
        simp
      exact oneUplink_iff_of_keeps (oneUplink_chosen inst now hPong hD31 y.esi) (by simp)
  | pinged e route esi mId =>
      refine oneUplink_iff_of_keeps ?_ (by simp)
      simp only [onIncomingOnAcceptor, onPing]
      split_ifs <;> exact h.congr rfl rfl Iff.rfl
  | subscribed route => exact oneUplink_iff_of_keeps (h.congr rfl rfl Iff.rfl) (by simp)
  | updateREQ bod => exact oneUplink_iff_of_keeps (h.congr rfl rfl Iff.rfl) (by simp)
  | updateRSP bod => exact oneUplink_iff_of_keeps (h.congr rfl rfl Iff.rfl) (by simp)

end Rd

/-! ## Runs -/

variable {inst : Instance Addr}

/-- `startService` starts the procedure. -/
theorem oneUplink_onStartService {now : Int} {rd : Rd Addr} (hTop : rd.NonTop) :
    (rd.onStartService inst now).1.OneUplink := by
  rw [onStartService_of_nonTop hTop]
  exact Rd.oneUplink_stageD2PingNeighboursStart rd

/-- A step keeps the uplink single if and only if it is no such tick. -/
theorem oneUplink_step {s : State Addr} {a : Action Addr} (h : s.rd.OneUplink)
    (hEn : s.enabled a) :
    (s.apply inst a).rd.OneUplink ↔ AtTurn NoLateT020 s a := by
  rcases State.apply_cases inst hEn with ⟨now, i, queue, rfl, hQueue, hApply⟩ |
    ⟨hRd, -, -, hTurn⟩
  · rw [hApply]
    refine (Rd.oneUplink_turn h i s.history).trans ?_
    simp [AtTurn, hQueue]
  · rw [hRd]
    refine ⟨fun _ => ?_, fun _ => h⟩
    cases a with
    | handle now => exact absurd rfl (hTurn now)
    | _ => trivial

/--
**One uplink.** Along a run of a node that is not a top server there is at most
one uplink, connected exactly when there is one and in D6 exactly when there is
one, if and only if no tick of T_020 selects another peer in D6.
-/
theorem one_uplink {s₀ : State Addr} {acts : List (Action Addr)}
    (h0 : (machine inst).init s₀) (hTop : s₀.rd.NonTop)
    (hPath : (machine inst).Path s₀ acts) :
    (machine inst).Along (fun s => s.rd.OneUplink) s₀ acts ↔
      ((machine inst).guarded (AtTurn NoLateT020)).Path s₀ acts := by
  refine Machine.along_iff_path_guarded (J := fun _ => True) (fun _ _ _ _ => trivial)
    (fun s a _ hP hEn => oneUplink_step hP hEn) acts s₀ trivial ?_ hPath
  obtain ⟨now, rd, hNew, rfl⟩ := h0
  exact oneUplink_onStartService (nonTop_onStartService.1 hTop)

theorem connects_oneUplink :
    (machine oneCaps).Along (fun s => s.rd.OneUplink) (started oneCaps 0 fresh) connects :=
  (one_uplink init_started rfl (by decide)).2 (by decide)

/-- The top server pongs first, then the referrer 3 it names; the tick of T_020
is queued before the pong of 3 is handled. -/
def lateTick : List (Action Nat) :=
  [.arrive (pongFrom .ptCached 0 9 0 0 1), .handle 1,
    .arrive (.getReferrersRSP 1 [3]), .handle 2] ++
    List.replicate 7 (.timer .handle) ++
    [.arrive (pongFrom .ptCached 1 3 1 2 1), .timer (.fire 0), .timer .pass, .handle 5, .handle 6]

/-- The pong makes 3 the uplink, the tick makes 9 another. -/
theorem second_uplink : ∃ s, (machine oneCaps).Reachable s ∧ s.rd.NonTop ∧
    s.rd.uplinkConnectionState.uplink.toList = [3, 9] ∧ ¬ s.rd.OneUplink := by
  refine ⟨(machine oneCaps).exec (started oneCaps 0 fresh) lateTick,
    ⟨_, lateTick, init_started, by decide, rfl⟩, by decide, by decide, ?_⟩
  intro h
  exact absurd h.atMostOne (by decide)

end Megatron.Referrer
