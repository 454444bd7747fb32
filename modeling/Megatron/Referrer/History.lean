import Megatron.Referrer.Uplink

/-!
# Pongs of the procedure in force

`ponged_all` and the level say what has been received under the present
`connection_sequence_id`.  The history of a run holds the pongs themselves: a
start of the procedure empties the list of those that count, a pong that is
taken adds itself.

`Course` sums up what a turn does to the number, the uplink, the peers that
ponged and the level: the procedure starts, goes on, or selects a peer.

## Main results

* `Effect.course` — every turn is one of the three.
* `mem_pongedAll_iff` — `ponged_all` is what has ponged under the number in
  force.
-/

namespace Megatron.Referrer

open Megatron.Corelib Megatron.Lib

variable {Addr : Type} [LinearOrder Addr]

/-! ## What a turn sends -/

/-- No selection, and no answer to a ping but with the present level. -/
def Sent.Routine (rd : Rd Addr) : Sent Addr → Prop
  | .switchMode _ => False
  | .pong _ e => rd.Answers ∧
      e.nodeLevelInHierarhy = rd.uplinkConnectionState.nodeLevelInHierarhy
  | _ => True

/-- Everything sent is. -/
def Routine (rd : Rd Addr) (out : List (Sent Addr)) : Prop := ∀ x ∈ out, x.Routine rd

section Routine

variable {rd : Rd Addr}

@[simp] theorem routine_nil : Routine rd [] := by
  simp [Routine]

@[simp] theorem routine_cons {x : Sent Addr} {out : List (Sent Addr)} :
    Routine rd (x :: out) ↔ x.Routine rd ∧ Routine rd out := by
  simp [Routine]

@[simp] theorem routine_append {out out' : List (Sent Addr)} :
    Routine rd (out ++ out') ↔ Routine rd out ∧ Routine rd out' := by
  simp only [Routine, List.forall_mem_append]

@[simp] theorem routine_map {α : Type} {f : α → Sent Addr} {l : List α} :
    Routine rd (l.map f) ↔ ∀ a ∈ l, (f a).Routine rd := by
  simp [Routine]

theorem routine_of_starting {n : Int} {out : List (Sent Addr)}
    (h : ∀ x ∈ out, Rd.IsStarting n x) : Routine rd out := by
  intro x hx
  cases h x hx <;> trivial

variable (inst : Instance Addr) (now : Int) (rd' : Rd Addr)

@[simp] theorem routine_notifyAll (n : Notify Addr) : Routine rd (rd'.notifyAll n) := by
  simp [Rd.notifyAll, Sent.Routine]

@[simp] theorem routine_updateDownlinks (bod : Bytes) :
    Routine rd (rd'.updateDownlinks bod) := by
  simp [Rd.updateDownlinks, Sent.Routine]

@[simp] theorem routine_registerReferrer (sa : Addr) :
    Routine rd (rd'.registerReferrer inst sa) := by
  simp only [Rd.registerReferrer, Rd.sendToplinkReq]
  split <;> simp [Sent.Routine, Rd.resetAlarm]

/-- A selection switches the socket of the peer; the rest is routine. -/
theorem routine_or_of_mem_d4UplinkMode {esi : Esi Addr} {x : Sent Addr}
    (hx : x ∈ (rd'.d4UplinkMode inst now esi).2) : x.Routine rd ∨ x = .switchMode esi := by
  have hRest : Routine rd (rd'.d4UplinkMode inst now esi).2.tail := by
    simp [Rd.snd_d4UplinkMode, Sent.Routine, Rd.cleanup, Rd.sendPing, Rd.resetAlarm]
  rcases List.mem_cons.1 hx with rfl | hx
  · exact Or.inr rfl
  · exact Or.inl (hRest x hx)

end Routine

/-! ## The course of the procedure -/

/-- What a pong that is taken leaves before anything else is done. -/
def Rd.received (inst : Instance Addr) (now : Int) (rd : Rd Addr) : Input Addr → Rd Addr
  | .pong e esi => if rd.Accepts inst e then rd.pongReceived now e esi else rd
  | _ => rd

/-- The peer an input selects: by the visible name, or at a pong in D3_1. -/
inductive Selects (inst : Instance Addr) (now : Int) (rd : Rd Addr) :
    Input Addr → Ponged Addr → Prop
  | byName {i before y} (hSel : SelectsByVisibleName rd i before)
      (hFirst : rd.FirstByVisibleName y) : Selects inst now rd i y
  | atPong {e esi y} (hAcc : rd.Accepts inst e) (hType : e.pingType = .ptCached)
      (hStage : rd.stage = .d31SendPingToRespondedReferrers)
      (hChosen : ChosenAtPong (rd.afterPong inst now e esi) e.visibleNameOfPinger y) :
      Selects inst now rd (.pong e esi) y

/-- A turn keeps the number, and the peers and the level that were received. -/
structure Rd.Keeps (rd rd' : Rd Addr) : Prop where
  number : rd'.connectionSequenceId = rd.connectionSequenceId
  pongedAll : rd'.uplinkConnectionState.pongedAll = rd.uplinkConnectionState.pongedAll
  level : rd'.uplinkConnectionState.nodeLevelInHierarhy =
    rd.uplinkConnectionState.nodeLevelInHierarhy

/-- What a turn does to the connection. -/
inductive Course (inst : Instance Addr) (now : Int) (rd : Rd Addr) (i : Input Addr)
    (t : Turn Addr) : Prop
  | starts (hInput : ∀ e esi, i ≠ .pong e esi)
      (hNumber : t.1.connectionSequenceId = rd.connectionSequenceId + 1)
      (hUplink : t.1.uplinkConnectionState.uplink = ∅)
      (hPonged : t.1.uplinkConnectionState.pongedAll = ∅) (hSent : Routine rd t.2)
  | goesOn (hKeeps : (rd.received inst now i).Keeps t.1)
      (hUplink : t.1.uplinkConnectionState.uplink = rd.uplinkConnectionState.uplink)
      (hSent : Routine rd t.2)
  | selects {y} (hSelects : Selects inst now rd i y) (hKeeps : (rd.received inst now i).Keeps t.1)
      (hUplink : t.1.uplinkConnectionState.uplink =
        rd.uplinkConnectionState.uplink.insert y.esi.remoteName)
      (hSent : ∀ x ∈ t.2, x.Routine rd ∨ x = .switchMode y.esi)

section Course

variable {inst : Instance Addr} {now : Int} {rd : Rd Addr} {i : Input Addr}

theorem Rd.Keeps.rfl : rd.Keeps rd := ⟨Eq.refl _, Eq.refl _, Eq.refl _⟩

theorem Rd.received_pong {e : Pong Addr} (hAcc : rd.Accepts inst e) (esi : Esi Addr) :
    rd.received inst now (.pong e esi) = rd.pongReceived now e esi := by
  rw [received, if_pos hAcc]

/-- What is done after a pong has been taken leaves peers and level. -/
theorem Rd.Keeps.pong {e : Pong Addr} (hAcc : rd.Accepts inst e) (esi : Esi Addr) {rd' : Rd Addr}
    (h : (rd.afterPong inst now e esi).Keeps rd') :
    (rd.received inst now (.pong e esi)).Keeps rd' := by
  rw [received_pong hAcc]
  exact ⟨h.number, h.pongedAll, h.level⟩

theorem course_of_start (hInput : ∀ e esi, i ≠ .pong e esi) (rd₀ : Rd Addr) (hSame : rd₀.connectionSequenceId = rd.connectionSequenceId)
    (before : List (Sent Addr)) (hBefore : Routine rd before) :
    Course inst now rd i ((rd₀.stageD2PingNeighboursStart inst now).1,
      before ++ (rd₀.stageD2PingNeighboursStart inst now).2) := by
  obtain ⟨stage, neighbours, -, hRd⟩ := Rd.fst_stageD2PingNeighboursStart inst now rd₀
  refine .starts hInput ?_ ?_ ?_ (routine_append.2 ⟨hBefore,
    routine_of_starting (Rd.snd_stageD2PingNeighboursStart inst now rd₀)⟩)
  · rw [hRd, ← hSame]
  · rw [hRd]
    rfl
  · rw [hRd]
    rfl

/-- An input that is no pong. -/
theorem Course.same {t : Turn Addr} (hInput : rd.received inst now i = rd) (hKeeps : rd.Keeps t.1)
    (hUplink : t.1.uplinkConnectionState.uplink = rd.uplinkConnectionState.uplink)
    (hSent : Routine rd t.2) : Course inst now rd i t := by
  refine .goesOn ?_ hUplink hSent
  rw [hInput]
  exact hKeeps

theorem SelectsByVisibleName.routine {before : List (Sent Addr)}
    (h : SelectsByVisibleName rd i before) : Routine rd before := by
  cases h <;> simp [Sent.Routine, Rd.resetAlarm]

theorem Rd.received_of_selectsByVisibleName {before : List (Sent Addr)}
    (h : SelectsByVisibleName rd i before) : rd.received inst now i = rd := by
  cases h <;> rfl

@[simp] theorem Rd.connectionSequenceId_received :
    (rd.received inst now i).connectionSequenceId = rd.connectionSequenceId := by
  rw [received.eq_def]
  split
  · split <;> rfl
  · rfl

theorem Rd.received_of_idle (h : Idle inst rd i) : rd.received inst now i = rd := by
  cases i with
  | pong e esi => exact if_neg h
  | _ => rfl

/-- **The course of one turn.** -/
theorem Effect.course {t : Turn Addr} (h : Effect inst now rd i t) : Course inst now rd i t := by
  cases h with
  | idle hIdle => exact .same (Rd.received_of_idle hIdle) .rfl rfl routine_nil
  | waitOn hNone => exact .same rfl .rfl rfl (by simp [Sent.Routine, Rd.resetAlarm])
  | nobody issued hStage hNone =>
      exact .same rfl .rfl rfl (by simp [Sent.Routine, Rd.resetAlarm])
  | chosen hSel hChosen =>
      refine .selects (.byName hSel (Rd.chooseByVisibleName_eq_some.1 hChosen)) ?_ rfl ?_
      · rw [Rd.received_of_selectsByVisibleName hSel]
        exact ⟨rfl, rfl, rfl⟩
      · intro x hx
        rcases List.mem_append.1 hx with hx | hx
        · exact Or.inl (hSel.routine x hx)
        · exact routine_or_of_mem_d4UplinkMode inst now rd hx
  | pingReferrers issued addrs =>
      exact .same rfl ⟨rfl, rfl, rfl⟩ rfl
        (by simp [Sent.Routine, Rd.resetAlarm, Rd.sendPing])
  | timedOut => exact course_of_start (by simp) rd rfl [] routine_nil
  | pongTimedOut sa =>
      exact course_of_start (by simp) rd rfl [.stopAlarm (.t007D6ResendPingCapsShort sa),
        .stopAlarm (.t008D6ResendPingCapsLong sa), .stopAlarm (.t009PongTimedOutCapsLong sa)]
        (by simp [Sent.Routine])
  | lost hLoses hUp =>
      refine course_of_start (by cases hLoses <;> simp) { rd with urirefs := [] }
        (show _ = rd.connectionSequenceId from rfl) _ ?_
      refine routine_append.2 ⟨routine_notifyAll rd _, fun x hx => ?_⟩
      obtain ⟨z, -, hx⟩ := List.mem_flatMap.1 hx
      rcases List.mem_cons.1 hx with rfl | hx
      · trivial
      · exact routine_notifyAll rd _ x hx
  | noNeighbour hStage =>
      exact .same rfl ⟨rfl, rfl, rfl⟩ rfl
        (routine_of_starting (Rd.snd_stageD21PingCapsStart inst now rd))
  | resendShort sa => exact .same rfl .rfl rfl (by simp [Sent.Routine, Rd.resetAlarm, Rd.sendPing])
  | resendLong sa => exact .same rfl .rfl rfl (by simp [Sent.Routine, Rd.sendPing])
  | reregister hUL => exact .same rfl .rfl rfl (routine_registerReferrer inst rd _)
  | noUplink hUL => exact .same rfl .rfl rfl (by simp [Sent.Routine])
  | dropped hDrops hDown =>
      refine .same ?_ ⟨rfl, rfl, rfl⟩ rfl (routine_notifyAll rd _)
      cases hDrops <;> rfl
  | pongAtTop e esi hAcc =>
      refine .goesOn ?_ rfl (by simp [Sent.Routine])
      rw [Rd.received_pong hAcc]
      exact .rfl
  | pongNoted e esi hAcc hOut =>
      refine .goesOn (.pong hAcc esi .rfl) rfl ?_
      rcases hOut with rfl | ⟨what, rfl⟩ <;> simp [Sent.Routine]
  | pongShort e esi hAcc =>
      exact .goesOn (.pong hAcc esi .rfl) rfl
        (by simp [Sent.Routine, Rd.d6OnPongPtCapsShort, Rd.resetAlarm])
  | pongLong e esi hAcc =>
      exact .goesOn (.pong hAcc esi .rfl) rfl
        (by simp [Sent.Routine, Rd.d6OnPongPtCapsLong, Rd.resetAlarm])
  | pongAsked e esi hAcc =>
      refine .goesOn (.pong hAcc esi ?_) ?_ ?_
      · rw [Rd.fst_stageD3GetReferrersStart]
        exact ⟨rfl, rfl, rfl⟩
      · rw [Rd.fst_stageD3GetReferrersStart]
        rfl
      · simp only [Rd.stageD3GetReferrersStart, Rd.sendToplinkReq, Rd.resetAlarm]
        split
        · simp [Sent.Routine]
        · split <;> simp [Sent.Routine]
  | pongChosen e esi hAcc hType hStage hChosen =>
      refine .selects (.atPong hAcc hType hStage hChosen) (.pong hAcc esi ⟨rfl, rfl, rfl⟩) rfl ?_
      intro x hx
      rcases List.mem_cons.1 hx with rfl | hx
      · exact Or.inl trivial
      · exact routine_or_of_mem_d4UplinkMode inst now (rd.afterPong inst now e esi) hx
  | pinged e route esi mId =>
      have hRest : (rd.onIncomingOnAcceptor inst e route esi mId).1.connectionSequenceId =
            rd.connectionSequenceId ∧
          (rd.onIncomingOnAcceptor inst e route esi mId).1.uplinkConnectionState =
            rd.uplinkConnectionState ∧
          Routine rd (rd.onIncomingOnAcceptor inst e route esi mId).2 := by
        simp only [Rd.onIncomingOnAcceptor, Rd.onPing, Rd.resetAlarm, Rd.sendPong]
        split_ifs <;> simp_all [Sent.Routine]
      obtain ⟨hNumber, hState, hSent⟩ := hRest
      exact .same rfl ⟨hNumber, by rw [hState], by rw [hState]⟩ (by rw [hState]) hSent
  | subscribed route =>
      refine .same rfl ⟨rfl, rfl, rfl⟩ rfl ?_
      simp only [Rd.onSubscribeNotifications]
      split <;> simp [Sent.Routine]
  | updateREQ bod => exact .same rfl ⟨rfl, rfl, rfl⟩ rfl (routine_updateDownlinks rd bod)
  | updateRSP bod =>
      exact .same rfl ⟨rfl, rfl, rfl⟩ rfl (routine_updateDownlinks { rd with configBod := bod } bod)

/-- What an input selects is switched, at a node that is not a top server. -/
theorem Selects.switchMode_mem {y : Ponged Addr} (hTop : rd.NonTop) (h : Selects inst now rd i y) :
    .switchMode y.esi ∈ (rd.handleEvent inst now i).2 := by
  have hMode : ∀ rd : Rd Addr, .switchMode y.esi ∈ (rd.d4UplinkMode inst now y.esi).2 :=
    fun rd => List.mem_cons_self
  cases h with
  | byName hSel hFirst =>
      have hChosen := Rd.chooseByVisibleName_eq_some.2 hFirst
      cases hSel with
      | tick020 => simpa [Rd.handleEvent, Rd.onTickAlarm, hChosen] using hMode rd
      | tick002 hStage => simpa [Rd.handleEvent, Rd.onTickAlarm, hChosen, hStage] using hMode rd
      | answer issued hStage =>
          simp [Rd.handleEvent, Rd.onGetReferrersRSP, hChosen, hStage, hMode rd]
  | atPong hAcc hType hStage hChosen =>
      rename_i e esi
      have hTop' : rd.uplinkConnectionState.mIsTopServer = false := hTop
      have hD31 : (rd.afterPong inst now e esi).stage = .d31SendPingToRespondedReferrers := hStage
      have hCached : (rd.handleEvent inst now (.pong e esi)).2 =
          ((rd.afterPong inst now e esi).onPongPtCached inst now e esi).2 := by
        simp [Rd.handleEvent, Rd.onPong, hAcc, hType, hTop', Rd.pongReceived, Rd.afterPong]
      have hWalk : (rd.handleEvent inst now (.pong e esi)).2 =
          ((rd.afterPong inst now e esi).onPongPtCachedD31 inst now e.visibleNameOfPinger).2 := by
        simp [hCached, Rd.onPongPtCached, hD31]
      rw [hWalk, Rd.onPongPtCachedD31]
      rcases hChosen with hPlain | ⟨hPlain, hCaps, hName⟩
      · rw [hPlain]
        exact List.mem_cons_of_mem _ (hMode _)
      · rw [hPlain, hCaps]
        simp only [hName, ne_eq, not_true_eq_false, if_false]
        exact List.mem_cons_of_mem _ (hMode _)

/-- A turn keeps the number or takes the next. -/
theorem Course.number {t : Turn Addr} (h : Course inst now rd i t) :
    t.1.connectionSequenceId = rd.connectionSequenceId ∨
      t.1.connectionSequenceId = rd.connectionSequenceId + 1 := by
  cases h with
  | starts hInput hNumber => exact Or.inr hNumber
  | goesOn hKeeps => exact Or.inl (hKeeps.number.trans Rd.connectionSequenceId_received)
  | selects hSelects hKeeps =>
      exact Or.inl (hKeeps.number.trans Rd.connectionSequenceId_received)

theorem Effect.number_le {t : Turn Addr} (h : Effect inst now rd i t) :
    rd.connectionSequenceId ≤ t.1.connectionSequenceId := by
  rcases h.course.number with hNumber | hNumber
  · exact le_of_eq hNumber.symm
  · rw [hNumber]
    exact Int.le_of_lt (Int.lt_succ _)

end Course

/-! ## The pongs that count -/

/-- A pong that was taken while `number` was in force, and what it says of its
sender. -/
def Handled.pong? (inst : Instance Addr) (number : Int) (p : Handled Addr) :
    Option (Pong Addr × Ponged Addr) :=
  match p.input with
  | .pong e esi =>
      if p.before.Accepts inst e ∧ p.before.connectionSequenceId = number then
        some (e, ⟨p.now - e.pingTime, esi, e.visibleNameOfPinger⟩)
      else none
  | _ => none

/-- The pongs received under a number, in order. -/
def pongs (inst : Instance Addr) (number : Int) (history : List (Handled Addr)) :
    List (Pong Addr × Ponged Addr) := history.filterMap (Handled.pong? inst number)

/-- The last of them that came from `u`. -/
def lastPong? (inst : Instance Addr) (number : Int) (history : List (Handled Addr)) (u : Addr) :
    Option (Pong Addr × Ponged Addr) :=
  ((pongs inst number history).filter (·.2.esi.remoteName = u)).getLast?

section Pongs

variable {inst : Instance Addr} {now number : Int} {rd : Rd Addr} {i : Input Addr}
  {history : List (Handled Addr)}

@[simp] theorem pongs_append (history' : List (Handled Addr)) :
    pongs inst number (history ++ history') =
      pongs inst number history ++ pongs inst number history' := by
  simp [pongs]

theorem pongs_singleton (p : Handled Addr) :
    pongs inst number [p] = (p.pong? inst number).toList := by
  cases h : p.pong? inst number <;> simp [pongs, h]

/-- Under a number that has not been in force yet nothing has ponged. -/
theorem pongs_eq_nil (h : ∀ p ∈ history, p.before.connectionSequenceId < number) :
    pongs inst number history = [] := by
  refine List.filterMap_eq_nil_iff.2 fun p hp => ?_
  rw [Handled.pong?]
  split
  · exact if_neg fun hBoth => absurd hBoth.2 (ne_of_lt (h p hp))
  · rfl

theorem pong?_of_accepts {e : Pong Addr} (hAcc : rd.Accepts inst e) (esi : Esi Addr) :
    Handled.pong? inst rd.connectionSequenceId ⟨rd, now, .pong e esi⟩ =
      some (e, ⟨now - e.pingTime, esi, e.visibleNameOfPinger⟩) :=
  if_pos ⟨hAcc, rfl⟩

/-- An input that is taken for no pong leaves what was received. -/
theorem received_of_pong?_eq_none
    (h : Handled.pong? inst rd.connectionSequenceId ⟨rd, now, i⟩ = none) :
    rd.received inst now i = rd := by
  cases i with
  | pong e esi =>
      rw [Rd.received]
      refine if_neg fun hAcc => ?_
      rw [pong?_of_accepts hAcc esi] at h
      cases h
  | _ => rfl

/-- A pong that is taken sets the level and adds its sender. -/
theorem received_of_pong?_eq_some {x : Pong Addr × Ponged Addr}
    (h : Handled.pong? inst rd.connectionSequenceId ⟨rd, now, i⟩ = some x) :
    (rd.received inst now i).uplinkConnectionState.nodeLevelInHierarhy =
        x.1.nodeLevelInHierarhy + 1 ∧
      (rd.received inst now i).uplinkConnectionState.pongedAll =
        rd.uplinkConnectionState.pongedAll.insert x.2 := by
  cases i with
  | pong e esi =>
      by_cases hAcc : rd.Accepts inst e
      · rw [pong?_of_accepts hAcc esi, Option.some.injEq] at h
        rw [Rd.received_pong hAcc, ← h]
        exact ⟨rfl, rfl⟩
      · rw [show Handled.pong? inst rd.connectionSequenceId ⟨rd, now, .pong e esi⟩ = none from
          if_neg fun hBoth => hAcc hBoth.1] at h
        cases h
  | _ => cases h

/-- The peers after an input was received. -/
theorem mem_pongedAll_received {x : Ponged Addr} :
    x ∈ (rd.received inst now i).uplinkConnectionState.pongedAll ↔
      x ∈ rd.uplinkConnectionState.pongedAll ∨
        x ∈ (pongs inst rd.connectionSequenceId [⟨rd, now, i⟩]).map Prod.snd := by
  rw [pongs_singleton]
  cases h : Handled.pong? inst rd.connectionSequenceId ⟨rd, now, i⟩ with
  | none => simp [received_of_pong?_eq_none h]
  | some y =>
      rw [(received_of_pong?_eq_some h).2, OrdSet.mem_insert]
      simp [or_comm]

end Pongs

/-! ## Runs -/

/-- The numbers that were in force, and the peers that ponged under the present
one. -/
structure Recorded (inst : Instance Addr) (rd : Rd Addr) (history : List (Handled Addr)) :
    Prop where
  number : ∀ p ∈ history, p.before.connectionSequenceId ≤ rd.connectionSequenceId
  ponged : ∀ x, x ∈ rd.uplinkConnectionState.pongedAll ↔
    x ∈ (pongs inst rd.connectionSequenceId history).map Prod.snd

section Runs

variable {inst : Instance Addr}

/-- No number is in force twice. -/
theorem number_turn {now : Int} {rd : Rd Addr} {i : Input Addr} {history : List (Handled Addr)}
    (h : ∀ p ∈ history, p.before.connectionSequenceId ≤ rd.connectionSequenceId) :
    ∀ p ∈ history ++ [⟨rd, now, i⟩], p.before.connectionSequenceId ≤
      (rd.handleEvent inst now i).1.connectionSequenceId := by
  have hLe := (Rd.effect_handleEvent inst now rd i).number_le
  intro p hp
  rcases List.mem_append.1 hp with hp | hp
  · exact (h p hp).trans hLe
  · rw [List.mem_singleton.1 hp]
    exact hLe

/-- At the start of a procedure none of the pongs counts. -/
theorem pongs_of_starts {now : Int} {rd rd' : Rd Addr} {i : Input Addr}
    {history : List (Handled Addr)}
    (h : ∀ p ∈ history, p.before.connectionSequenceId ≤ rd.connectionSequenceId)
    (hNumber : rd'.connectionSequenceId = rd.connectionSequenceId + 1) :
    pongs inst rd'.connectionSequenceId (history ++ [⟨rd, now, i⟩]) = [] := by
  refine pongs_eq_nil fun p hp => ?_
  rw [hNumber]
  refine Int.lt_add_one_of_le ?_
  rcases List.mem_append.1 hp with hp | hp
  · exact h p hp
  · rw [List.mem_singleton.1 hp]

theorem recorded_turn {now : Int} {rd : Rd Addr} {i : Input Addr} {history : List (Handled Addr)}
    (h : Recorded inst rd history) :
    Recorded inst (rd.handleEvent inst now i).1 (history ++ [⟨rd, now, i⟩]) := by
  refine ⟨number_turn h.number, fun x => ?_⟩
  have hGoes : ∀ rd', (rd.received inst now i).Keeps rd' →
      (x ∈ rd'.uplinkConnectionState.pongedAll ↔
        x ∈ (pongs inst rd'.connectionSequenceId (history ++ [⟨rd, now, i⟩])).map Prod.snd) := by
    intro rd' hKeeps
    rw [hKeeps.number, Rd.connectionSequenceId_received, hKeeps.pongedAll, mem_pongedAll_received,
      h.ponged x, pongs_append, List.map_append, List.mem_append]
  cases (Rd.effect_handleEvent inst now rd i).course with
  | starts hInput hNext hUplink hPonged =>
      rw [hPonged, pongs_of_starts h.number hNext]
      simp
  | goesOn hKeeps => exact hGoes _ hKeeps
  | selects hSelects hKeeps => exact hGoes _ hKeeps

theorem recorded_onStartService {now : Int} {rd : Rd Addr} (h : Constructed rd) :
    Recorded inst (rd.onStartService inst now).1 [] := by
  refine ⟨by simp, fun x => ?_⟩
  rw [uplinkConnectionState_onStartService h]
  simp [UplinkConnectionState.new, pongs]

/-- Every reachable state has its history recorded. -/
theorem recorded {s : State Addr} (h : (machine inst).Reachable s) :
    Recorded inst s.rd s.history :=
  handle_invariant (I := fun rd _ history => Recorded inst rd history)
    (fun _ _ hNew => recorded_onStartService hNew) (fun _ _ _ _ _ hI => recorded_turn hI) h

/-- `ponged_all` holds the peers that ponged under the number in force. -/
theorem mem_pongedAll_iff {s : State Addr} (h : (machine inst).Reachable s) (x : Ponged Addr) :
    x ∈ s.rd.uplinkConnectionState.pongedAll ↔
      x ∈ (pongs inst s.rd.connectionSequenceId s.history).map Prod.snd :=
  (recorded h).ponged x

end Runs

end Megatron.Referrer
