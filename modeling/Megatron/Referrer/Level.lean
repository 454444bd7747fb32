import Megatron.Referrer.History

/-!
# The level in the hierarchy

The level of a referrer is meant to be one more than its uplink's, as the last
pong of the uplink gave it, and its own pongs pass it on.  `on_Pong` sets the
level before it looks at who sent the pong, so the level is one more than that
of the last pong from anyone: a pong of another peer that comes after the
selection, or that came last before it, counts for the uplink's.

## Main results

* `isLevel_turn` — one turn keeps the level the uplink's, exactly when the
  pong it takes and the peer it selects agree.
* `level_kept` — the same of whole runs.
* `level_of_another` — a run that ends with the level of another peer.
-/

namespace Megatron.Referrer

open Megatron.Corelib Megatron.Lib

variable {Addr : Type} [LinearOrder Addr]

/-! ## The invariant -/

/-- `level` is one more than the last pong of every uplink gave. -/
def IsLevel (inst : Instance Addr) (rd : Rd Addr) (history : List (Handled Addr))
    (level : Int) : Prop :=
  ∀ u ∈ rd.uplinkConnectionState.uplink,
    ∃ x, lastPong? inst rd.connectionSequenceId history u = some x ∧
      level = x.1.nodeLevelInHierarhy + 1

/-- The node has the level of its uplink, and whatever it handles next, it has
an uplink when it answers a ping, and answers with that level. -/
structure LevelKept (inst : Instance Addr) (rd : Rd Addr) (history : List (Handled Addr)) :
    Prop where
  level : IsLevel inst rd history rd.uplinkConnectionState.nodeLevelInHierarhy
  answers : ∀ now i r e, .pong r e ∈ (rd.handleEvent inst now i).2 →
    rd.uplinkConnectionState.uplink ≠ ∅ ∧ IsLevel inst rd history e.nodeLevelInHierarhy

/-- A pong that is taken while there is an uplink comes from it or gives the
level it gave; the last pong of a peer that is selected gave the level that the
last pong of all gave. -/
def KeepsLevel (inst : Instance Addr) : TurnGuard Addr := fun rd history now i =>
  (∀ u ∈ rd.uplinkConnectionState.uplink,
      ∀ x ∈ Handled.pong? inst rd.connectionSequenceId ⟨rd, now, i⟩, x.2.esi.remoteName ≠ u →
        x.1.nodeLevelInHierarhy + 1 = rd.uplinkConnectionState.nodeLevelInHierarhy) ∧
    ∀ y, Selects inst now rd i y →
      ∃ x ∈ lastPong? inst rd.connectionSequenceId (history ++ [⟨rd, now, i⟩]) y.esi.remoteName,
        ∃ z ∈ (pongs inst rd.connectionSequenceId (history ++ [⟨rd, now, i⟩])).getLast?,
          x.1.nodeLevelInHierarhy = z.1.nodeLevelInHierarhy

/-- The level is one more than the last pong of all gave. -/
def LastOfAll (inst : Instance Addr) (rd : Rd Addr) (history : List (Handled Addr)) : Prop :=
  ∀ z ∈ (pongs inst rd.connectionSequenceId history).getLast?,
    rd.uplinkConnectionState.nodeLevelInHierarhy = z.1.nodeLevelInHierarhy + 1

section Turn

variable {inst : Instance Addr} {now : Int} {rd : Rd Addr} {i : Input Addr}
  {history : List (Handled Addr)}

/-- A node that is not a top server answers pings when it has an uplink. -/
theorem uplink_ne_empty_of_answers (hTop : rd.NonTop) (h : rd.Answers) :
    rd.uplinkConnectionState.uplink ≠ ∅ := by
  rcases h with h | h
  · exact h.2
  · rw [show rd.uplinkConnectionState.mIsTopServer = false from hTop] at h
    cases h

/-- Answers follow from the level. -/
theorem levelKept_iff (hTop : rd.NonTop) :
    LevelKept inst rd history ↔
      IsLevel inst rd history rd.uplinkConnectionState.nodeLevelInHierarhy := by
  refine ⟨fun h => h.level, fun h => ⟨h, fun now i r e hMem => ?_⟩⟩
  have hSent : (Sent.pong r e).Routine rd := by
    cases (Rd.effect_handleEvent inst now rd i).course with
    | starts hInput hNumber hUplink hPonged hSent => exact hSent _ hMem
    | goesOn hKeeps hUplink hSent => exact hSent _ hMem
    | selects hSelects hKeeps hUplink hSent => exact (hSent _ hMem).resolve_right (by simp)
  refine ⟨uplink_ne_empty_of_answers hTop hSent.1, ?_⟩
  rw [hSent.2]
  exact h

/-- The last pong of `u` after one more input. -/
theorem lastPong?_snoc (u : Addr) :
    lastPong? inst rd.connectionSequenceId (history ++ [⟨rd, now, i⟩]) u =
      ((Handled.pong? inst rd.connectionSequenceId ⟨rd, now, i⟩).filter
        (·.2.esi.remoteName = u)).or (lastPong? inst rd.connectionSequenceId history u) := by
  rw [lastPong?, lastPong?, pongs_append, pongs_singleton]
  cases h : Handled.pong? inst rd.connectionSequenceId ⟨rd, now, i⟩ with
  | none => simp
  | some x => by_cases hFrom : x.2.esi.remoteName = u <;> simp [Option.filter, hFrom]

/-- The level that was received is the last pong's. -/
theorem lastOfAll_received (h : LastOfAll inst rd history) {rd' : Rd Addr}
    (hKeeps : (rd.received inst now i).Keeps rd') :
    LastOfAll inst rd' (history ++ [⟨rd, now, i⟩]) := by
  rw [LastOfAll, hKeeps.number, Rd.connectionSequenceId_received, hKeeps.level, pongs_append,
    pongs_singleton]
  cases hPong : Handled.pong? inst rd.connectionSequenceId ⟨rd, now, i⟩ with
  | none =>
      rw [received_of_pong?_eq_none hPong, Option.toList_none, List.append_nil]
      exact h
  | some x =>
      intro z hz
      obtain rfl : x = z := by simpa using hz
      exact (received_of_pong?_eq_some hPong).1

theorem lastOfAll_turn (hPast : Recorded inst rd history) (h : LastOfAll inst rd history) :
    LastOfAll inst (rd.handleEvent inst now i).1 (history ++ [⟨rd, now, i⟩]) := by
  cases (Rd.effect_handleEvent inst now rd i).course with
  | starts hInput hNumber =>
      rw [LastOfAll, pongs_of_starts hPast.number hNumber]
      simp
  | goesOn hKeeps => exact lastOfAll_received h hKeeps
  | selects hSelects hKeeps => exact lastOfAll_received h hKeeps

/-- What an input leaves of the level of one uplink. -/
theorem level_received {u : Addr} {x : Pong Addr × Ponged Addr}
    (hLast : lastPong? inst rd.connectionSequenceId history u = some x)
    (hLevel : rd.uplinkConnectionState.nodeLevelInHierarhy = x.1.nodeLevelInHierarhy + 1) :
    (∃ x, lastPong? inst rd.connectionSequenceId (history ++ [⟨rd, now, i⟩]) u = some x ∧
        (rd.received inst now i).uplinkConnectionState.nodeLevelInHierarhy =
          x.1.nodeLevelInHierarhy + 1) ↔
      ∀ z ∈ Handled.pong? inst rd.connectionSequenceId ⟨rd, now, i⟩, z.2.esi.remoteName ≠ u →
        z.1.nodeLevelInHierarhy + 1 = rd.uplinkConnectionState.nodeLevelInHierarhy := by
  rw [lastPong?_snoc, hLast]
  cases hPong : Handled.pong? inst rd.connectionSequenceId ⟨rd, now, i⟩ with
  | none =>
      rw [received_of_pong?_eq_none hPong]
      simpa using hLevel
  | some z =>
      rw [(received_of_pong?_eq_some hPong).1]
      by_cases hFrom : z.2.esi.remoteName = u
      · simp [Option.filter, hFrom]
      · simp [Option.filter, hFrom, hLevel]

/-- The level of a peer that is selected. -/
theorem level_selected (h : LastOfAll inst rd history) (u : Addr) :
    (∃ x, lastPong? inst rd.connectionSequenceId history u = some x ∧
        rd.uplinkConnectionState.nodeLevelInHierarhy = x.1.nodeLevelInHierarhy + 1) ↔
      ∃ x ∈ lastPong? inst rd.connectionSequenceId history u,
        ∃ z ∈ (pongs inst rd.connectionSequenceId history).getLast?,
          x.1.nodeLevelInHierarhy = z.1.nodeLevelInHierarhy := by
  constructor
  · rintro ⟨x, hLast, hLevel⟩
    have hMem : x ∈ pongs inst rd.connectionSequenceId history :=
      (List.mem_filter.1 (List.mem_of_getLast? hLast)).1
    have hSome := List.getLast?_eq_some_getLast (List.ne_nil_of_mem hMem)
    refine ⟨x, hLast, _, hSome, ?_⟩
    have hAll := h _ hSome
    omega
  · rintro ⟨x, hLast, z, hz, hEq⟩
    exact ⟨x, hLast, by rw [h z hz, hEq]⟩

/-- **One turn.** -/
theorem isLevel_turn (hTop : rd.NonTop) (hAll : LastOfAll inst rd history)
    (h : IsLevel inst rd history rd.uplinkConnectionState.nodeLevelInHierarhy) :
    IsLevel inst (rd.handleEvent inst now i).1 (history ++ [⟨rd, now, i⟩])
        (rd.handleEvent inst now i).1.uplinkConnectionState.nodeLevelInHierarhy ↔
      KeepsLevel inst rd history now i := by
  have hOld : (∀ u ∈ rd.uplinkConnectionState.uplink,
      ∃ x, lastPong? inst rd.connectionSequenceId (history ++ [⟨rd, now, i⟩]) u = some x ∧
        (rd.received inst now i).uplinkConnectionState.nodeLevelInHierarhy =
          x.1.nodeLevelInHierarhy + 1) ↔
      ∀ u ∈ rd.uplinkConnectionState.uplink,
        ∀ x ∈ Handled.pong? inst rd.connectionSequenceId ⟨rd, now, i⟩, x.2.esi.remoteName ≠ u →
          x.1.nodeLevelInHierarhy + 1 = rd.uplinkConnectionState.nodeLevelInHierarhy := by
    refine forall₂_congr fun u hu => ?_
    obtain ⟨x, hLast, hLevel⟩ := h u hu
    exact level_received hLast hLevel
  have hNone : Routine rd (rd.handleEvent inst now i).2 → ∀ y, ¬ Selects inst now rd i y :=
    fun hSent y hSelects => hSent _ (hSelects.switchMode_mem hTop)
  cases (Rd.effect_handleEvent inst now rd i).course with
  | starts hInput hNumber hUplink hPonged hSent =>
      refine ⟨fun _ => ⟨fun u hu x hx => ?_, fun y hy => absurd hy (hNone hSent y)⟩, fun _ => ?_⟩
      · cases i with
        | pong e esi => exact absurd rfl (hInput e esi)
        | _ => cases hx
      · rw [IsLevel, hUplink]
        intro u hu
        exact absurd hu (OrdSet.notMem_empty u)
  | goesOn hKeeps hUplink hSent =>
      rw [IsLevel, hUplink, hKeeps.number, hKeeps.level, Rd.connectionSequenceId_received, hOld]
      exact ⟨fun hGuard => ⟨hGuard, fun y hy => absurd hy (hNone hSent y)⟩, fun hGuard => hGuard.1⟩
  | selects hSelects hKeeps hUplink hSent =>
      rename_i y
      have hSame : ∀ y', Selects inst now rd i y' → y'.esi = y.esi := by
        intro y' hy'
        rcases hSent _ (hy'.switchMode_mem hTop) with hMode | hMode
        · exact hMode.elim
        · exact Sent.switchMode.inj hMode
      have hNew := level_selected (lastOfAll_received hAll hKeeps) y.esi.remoteName
      rw [hKeeps.number, hKeeps.level, Rd.connectionSequenceId_received] at hNew
      rw [IsLevel, hUplink, hKeeps.number, hKeeps.level, Rd.connectionSequenceId_received]
      constructor
      · intro hLevel
        refine ⟨hOld.1 fun u hu => hLevel u (OrdSet.mem_insert.2 (Or.inr hu)), fun y' hy' => ?_⟩
        rw [hSame y' hy']
        exact hNew.1 (hLevel _ (OrdSet.mem_insert.2 (Or.inl rfl)))
      · rintro ⟨hPong, hGuard⟩ u hu
        rcases OrdSet.mem_insert.1 hu with rfl | hu
        · exact hNew.2 (hGuard y hSelects)
        · exact hOld.2 hPong u hu

end Turn

/-! ## Runs -/

variable {inst : Instance Addr}

/-- What every run of a node that is not a top server keeps. -/
structure Levelled (inst : Instance Addr) (rd : Rd Addr) (history : List (Handled Addr)) :
    Prop where
  nonTop : rd.NonTop
  recorded : Recorded inst rd history
  lastOfAll : LastOfAll inst rd history

theorem levelled_turn {now : Int} {rd : Rd Addr} {i : Input Addr} {history : List (Handled Addr)}
    (h : Levelled inst rd history) :
    Levelled inst (rd.handleEvent inst now i).1 (history ++ [⟨rd, now, i⟩]) :=
  ⟨nonTop_handleEvent.2 h.nonTop, recorded_turn h.recorded, lastOfAll_turn h.recorded h.lastOfAll⟩

theorem levelled_started {now : Int} {rd : Rd Addr} (hNew : Constructed rd)
    (hTop : (started inst now rd).rd.NonTop) :
    Levelled inst (started inst now rd).rd (started inst now rd).history := by
  refine ⟨hTop, recorded_onStartService hNew, ?_⟩
  intro z hz
  cases hz

/-- A step keeps the level exactly when its turn does. -/
theorem levelKept_step {s : State Addr} {a : Action Addr} (hs : Levelled inst s.rd s.history)
    (h : LevelKept inst s.rd s.history) (hEn : s.enabled a) :
    LevelKept inst (s.apply inst a).rd (s.apply inst a).history ↔
      AtTurn (KeepsLevel inst) s a := by
  rcases State.apply_cases inst hEn with ⟨now, i, queue, rfl, hQueue, hApply⟩ |
    ⟨hRd, -, hHistory, hTurn⟩
  · rw [hApply]
    refine (levelKept_iff (levelled_turn hs).nonTop).trans
      ((isLevel_turn hs.nonTop hs.lastOfAll h.level).trans ?_)
    simp [AtTurn, hQueue]
  · rw [hRd, hHistory]
    refine ⟨fun _ => ?_, fun _ => h⟩
    cases a with
    | handle now => exact absurd rfl (hTurn now)
    | _ => trivial

/--
**The level.** Along a run of a node that is not a top server the level is one
more than the uplink's last pong gave, and every answer to a ping carries it, if
and only if every pong taken while there is an uplink comes from it or gives its
level, and every peer that is selected gave last what the last pong of all gave.
-/
theorem level_kept {s₀ : State Addr} {acts : List (Action Addr)}
    (h0 : (machine inst).init s₀) (hTop : s₀.rd.NonTop) (hPath : (machine inst).Path s₀ acts) :
    (machine inst).Along (fun s => LevelKept inst s.rd s.history) s₀ acts ↔
      ((machine inst).guarded (AtTurn (KeepsLevel inst))).Path s₀ acts := by
  refine Machine.along_iff_path_guarded (J := fun s => Levelled inst s.rd s.history) ?_
    (fun s a hs h hEn => levelKept_step hs h hEn) acts s₀ ?_ ?_ hPath
  · intro s a hs hEn
    rcases State.apply_cases inst hEn with ⟨now, i, queue, rfl, hQueue, hApply⟩ |
      ⟨hRd, -, hHistory, -⟩
    · rw [show (machine inst).apply s (.handle now) = s.turn inst now i queue from hApply]
      exact levelled_turn hs
    · rw [show ((machine inst).apply s a).rd = s.rd from hRd,
        show ((machine inst).apply s a).history = s.history from hHistory]
      exact hs
  · obtain ⟨now, rd, hNew, rfl⟩ := h0
    exact levelled_started hNew hTop
  · obtain ⟨now, rd, hNew, rfl⟩ := h0
    refine (levelKept_iff hTop).2 ?_
    intro u hu
    rw [show (started inst now rd).rd.uplinkConnectionState = _ from
      uplinkConnectionState_onStartService hNew] at hu
    exact absurd hu (OrdSet.notMem_empty u)

theorem connects_levelKept :
    (machine oneCaps).Along (fun s => LevelKept oneCaps s.rd s.history) (started oneCaps 0 fresh)
      connects := by
  refine (level_kept init_started rfl (by decide)).2
    ⟨⟨by decide, trivial⟩, ⟨by decide, ?_⟩, ⟨by decide, trivial⟩, ⟨by decide, ?_⟩, trivial⟩
  · intro i hi
    obtain rfl : pongFrom .ptCached 0 9 0 0 1 = i := Option.some.inj hi
    refine ⟨fun u hu => absurd hu (OrdSet.notMem_empty u), ?_⟩
    rintro y (⟨hSel, -⟩ | ⟨-, -, hStage, -⟩)
    · cases hSel
    · exact absurd hStage (by decide)
  · intro i hi
    obtain rfl : .getReferrersRSP 1 [] = i := Option.some.inj hi
    refine ⟨fun u hu => absurd hu (OrdSet.notMem_empty u), ?_⟩
    rintro y (⟨-, hFirst⟩)
    obtain rfl := Option.some.inj (Rd.chooseByVisibleName_eq_some.2 hFirst)
    exact ⟨_, rfl, _, rfl, rfl⟩

/-- The top server names 3 and 4; 3 pongs first and becomes the uplink, then 4
pongs from level 5. -/
def secondPong : List (Action Nat) :=
  [.arrive (pongFrom .ptCached 0 9 0 0 1), .handle 1, .arrive (.getReferrersRSP 1 [3, 4]),
    .handle 2, .arrive (pongFrom .ptCached 1 3 1 2 1), .handle 3,
    .arrive (pongFrom .ptCached 2 4 5 2 1), .handle 4]

/-- The uplink is on level 1, and the node thinks it is on level 6. -/
theorem level_of_another : ∃ s, (machine oneCaps).Reachable s ∧ s.rd.NonTop ∧
    s.rd.uplinkConnectionState.uplink.toList = [3] ∧
    (lastPong? oneCaps s.rd.connectionSequenceId s.history 3).map (·.1.nodeLevelInHierarhy) =
      some 1 ∧
    s.rd.uplinkConnectionState.nodeLevelInHierarhy = 6 ∧
    ¬ LevelKept oneCaps s.rd s.history := by
  refine ⟨(machine oneCaps).exec (started oneCaps 0 fresh) secondPong,
    ⟨_, secondPong, init_started, by decide, rfl⟩, by decide, by decide, by decide, by decide, ?_⟩
  intro h
  obtain ⟨x, hLast, hLevel⟩ := h.level 3 (by decide)
  have hOne : (lastPong? oneCaps 1 ((machine oneCaps).exec (started oneCaps 0 fresh)
      secondPong).history 3).map (·.1.nodeLevelInHierarhy) = some 1 := by decide
  rw [show lastPong? oneCaps 1 _ 3 = some x from hLast, Option.map_some, Option.some.injEq] at hOne
  rw [hOne] at hLevel
  exact absurd hLevel (by decide)

end Megatron.Referrer
