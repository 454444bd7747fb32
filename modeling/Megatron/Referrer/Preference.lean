import Megatron.Referrer.History

/-!
# Plain referrers before top servers

A referrer prefers peers outside its configuration to the top servers in it,
and among those it may take the one that ponged fastest.  The pong in D3_1
tells the two apart by the remote address, and looks at the peers that reported
the same visible name only; the other three selections tell them apart by the
visible name, which is the node's own address as the peer saw it.

## Main results

* `plainFirst_turn` — when a turn selects as it should, exactly.
* `selections_prefer` — the same of whole runs.
* `top_before_plain` — a run that selects a top server though a plain referrer
  has ponged.
-/

namespace Megatron.Referrer

open Megatron.Corelib Megatron.Lib

variable {Addr : Type} [LinearOrder Addr]

/-! ## The preference -/

namespace Rd

/-- A peer that may be taken: any outside the configuration, and a top server
when there is no other. -/
def Eligible (rd : Rd Addr) (peers : List (Ponged Addr)) (x : Ponged Addr) : Prop :=
  x ∈ peers ∧ (rd.IsTopServer x.esi.remoteName →
    ∀ z ∈ peers, rd.IsTopServer z.esi.remoteName)

/-- `esi` is the socket of the eligible peer with the smallest round-trip time. -/
structure PlainFirst (rd : Rd Addr) (peers : List (Ponged Addr)) (esi : Esi Addr) : Prop where
  plain : rd.IsTopServer esi.remoteName → ∀ z ∈ peers, rd.IsTopServer z.esi.remoteName
  fastest : ∃ x ∈ peers, x.esi = esi ∧ ∀ z, rd.Eligible peers z → x.time ≤ z.time

/-- Only the configuration and the peers count. -/
theorem PlainFirst.congr {rd rd' : Rd Addr} {peers peers' : List (Ponged Addr)} {esi : Esi Addr}
    (hCaps : rd'.uplinkConnectionState.saCapsFromConfig =
      rd.uplinkConnectionState.saCapsFromConfig)
    (hPeers : ∀ x, x ∈ peers' ↔ x ∈ peers) :
    rd'.PlainFirst peers' esi ↔ rd.PlainFirst peers esi := by
  have hTop : ∀ sa, rd'.IsTopServer sa ↔ rd.IsTopServer sa := by
    intro sa
    rw [IsTopServer, hCaps, IsTopServer]
  have hEligible : ∀ z, rd'.Eligible peers' z ↔ rd.Eligible peers z := by
    simp only [Eligible, hPeers, hTop, implies_true]
  constructor
  · rintro ⟨hPlain, hFastest⟩
    refine ⟨?_, ?_⟩
    · simpa only [hTop, hPeers] using hPlain
    · simpa only [hPeers, hEligible] using hFastest
  · rintro ⟨hPlain, hFastest⟩
    refine ⟨?_, ?_⟩
    · simpa only [hTop, hPeers] using hPlain
    · simpa only [hPeers, hEligible] using hFastest

/-- The peers. -/
abbrev peers (rd : Rd Addr) : List (Ponged Addr) := rd.uplinkConnectionState.pongedAll.toList

/-- Among the peers of a kind, whoever should not be selected comes after one
that should. -/
def Leads (rd : Rd Addr) (p : Ponged Addr → Prop) : Prop :=
  ∀ z ∈ rd.peers, p z → ¬ rd.PlainFirst rd.peers z.esi →
    ∃ x ∈ rd.peers, p x ∧ rd.PlainFirst rd.peers x.esi ∧ x < z

/-- The peers a selection by the visible name looks at. -/
def Walked (rd : Rd Addr) (x : Ponged Addr) : Prop :=
  rd.IsTopServer x.visibleName → ∀ z ∈ rd.peers, rd.IsTopServer z.visibleName

/-- The peers a pong in D3_1 looks at first. -/
def SameName (rd : Rd Addr) (visibleNameOfPinger : Addr) (x : Ponged Addr) : Prop :=
  ¬ rd.IsTopServer x.esi.remoteName ∧ x.visibleName = visibleNameOfPinger

/-- The top server it looks at when there are none. -/
structure FirstTop (rd : Rd Addr) (y : Ponged Addr) : Prop where
  mem : y ∈ rd.peers
  top : rd.IsTopServer y.esi.remoteName
  first : ∀ z ∈ rd.peers, rd.IsTopServer z.esi.remoteName → y ≤ z

/-- The first of a kind is to be selected exactly if its kind leads. -/
theorem plainFirst_iff_leads {rd : Rd Addr} {p : Ponged Addr → Prop} {y : Ponged Addr}
    (hMem : y ∈ rd.peers) (hy : p y) (hFirst : ∀ z ∈ rd.peers, p z → y ≤ z) :
    rd.PlainFirst rd.peers y.esi ↔ rd.Leads p := by
  constructor
  · intro hPlain z hMemZ hz hNot
    refine ⟨y, hMem, hy, hPlain, lt_of_le_of_ne (hFirst z hMemZ hz) ?_⟩
    rintro rfl
    exact hNot hPlain
  · intro hLeads
    by_contra hNot
    obtain ⟨x, hMemX, hx, -, hLt⟩ := hLeads y hMem hy hNot
    exact absurd hLt (not_lt.2 (hFirst x hMemX hx))

/-- A kind without peers leads. -/
theorem leads_of_none {rd : Rd Addr} {p : Ponged Addr → Prop} (h : ∀ z ∈ rd.peers, ¬ p z) :
    rd.Leads p := fun z hz hpz => absurd hpz (h z hz)

/-- The selection by the visible name. -/
theorem FirstByVisibleName.plainFirst_iff {rd : Rd Addr} {y : Ponged Addr}
    (h : rd.FirstByVisibleName y) : rd.PlainFirst rd.peers y.esi ↔ rd.Leads rd.Walked := by
  refine plainFirst_iff_leads h.mem h.name fun z hz hWalked => h.first z hz ?_
  by_cases hName : rd.IsTopServer y.visibleName
  · exact Or.inl hName
  · exact Or.inr fun hTop => hName (hWalked hTop y h.mem)

/-- The first top server is to be selected when there is no plain referrer. -/
theorem FirstTop.plainFirst_iff {rd : Rd Addr} {y : Ponged Addr} (h : rd.FirstTop y) :
    rd.PlainFirst rd.peers y.esi ↔ ∀ z ∈ rd.peers, rd.IsTopServer z.esi.remoteName := by
  refine ⟨fun hPlain => hPlain.plain h.top, fun hAll => ⟨fun _ => hAll, y, h.mem, rfl, ?_⟩⟩
  intro z hz
  exact Ponged.time_le_of_le (h.first z hz.1 (hAll z hz.1))

/-- What a pong in D3_1 has to meet. -/
structure PongPrefers (rd : Rd Addr) (visibleNameOfPinger : Addr) : Prop where
  plain : rd.Leads (rd.SameName visibleNameOfPinger)
  top : (∀ x ∈ rd.peers, ¬ rd.SameName visibleNameOfPinger x) →
    ∀ y, rd.FirstTop y → y.visibleName = visibleNameOfPinger →
      ∀ z ∈ rd.peers, rd.IsTopServer z.esi.remoteName

/-- The selection at a pong. -/
theorem plainFirst_iff_pongPrefers {rd : Rd Addr} {name : Addr} :
    (∀ y, ChosenAtPong rd name y → rd.PlainFirst rd.peers y.esi) ↔ rd.PongPrefers name := by
  have hFind : ∀ y, rd.uplinkConnectionState.pongedAll.find? (fun y =>
      ¬ rd.IsTopServer y.esi.remoteName ∧ y.visibleName = name) = some y ↔
      y ∈ rd.peers ∧ rd.SameName name y ∧ ∀ z ∈ rd.peers, rd.SameName name z → y ≤ z :=
    fun y => OrdSet.find?_eq_some
  have hFindTop : ∀ y, rd.uplinkConnectionState.pongedAll.find? (fun y =>
      rd.IsTopServer y.esi.remoteName) = some y ↔ rd.FirstTop y := by
    intro y
    rw [OrdSet.find?_eq_some]
    exact ⟨fun h => ⟨h.1, h.2.1, h.2.2⟩, fun h => ⟨h.mem, h.top, h.first⟩⟩
  have hNone : rd.uplinkConnectionState.pongedAll.find? (fun y =>
      ¬ rd.IsTopServer y.esi.remoteName ∧ y.visibleName = name) = none ↔
      ∀ x ∈ rd.peers, ¬ rd.SameName name x := OrdSet.find?_eq_none
  constructor
  · intro h
    refine ⟨?_, fun hNobody y hTop hName => ?_⟩
    · cases hPlain : rd.uplinkConnectionState.pongedAll.find? (fun y =>
          ¬ rd.IsTopServer y.esi.remoteName ∧ y.visibleName = name) with
      | none => exact leads_of_none (hNone.1 hPlain)
      | some y =>
          obtain ⟨hMem, hSame, hFirst⟩ := (hFind y).1 hPlain
          exact (plainFirst_iff_leads hMem hSame hFirst).1 (h y (Or.inl hPlain))
    · exact hTop.plainFirst_iff.1
        (h y (Or.inr ⟨hNone.2 hNobody, (hFindTop y).2 hTop, hName⟩))
  · rintro ⟨hLeads, hOnlyTop⟩ y (hPlain | ⟨hNobody, hCaps, hName⟩)
    · obtain ⟨hMem, hSame, hFirst⟩ := (hFind y).1 hPlain
      exact (plainFirst_iff_leads hMem hSame hFirst).2 hLeads
    · have hTop := (hFindTop y).1 hCaps
      exact hTop.plainFirst_iff.2 (hOnlyTop (hNone.1 hNobody) y hTop hName)

end Rd

/-! ## One turn -/

/-- The peers that have ponged under the number in force, with this turn. -/
def Handled.peers (inst : Instance Addr) (past : List (Handled Addr)) (p : Handled Addr) :
    List (Ponged Addr) :=
  (pongs inst p.before.connectionSequenceId (past ++ [p])).map Prod.snd

/-- Whatever the turn selects is to be selected. -/
def Handled.PlainFirst (inst : Instance Addr) (past : List (Handled Addr)) (p : Handled Addr) :
    Prop :=
  ∀ esi, .switchMode esi ∈ (p.before.handleEvent inst p.now p.input).2 →
    p.before.PlainFirst (p.peers inst past) esi

/-- What a selection has to meet: by the visible name, or at a pong. -/
def PrefersPlain (inst : Instance Addr) : TurnGuard Addr := fun rd _ now i =>
  (∀ before, SelectsByVisibleName rd i before → rd.Leads rd.Walked) ∧
    ∀ e esi, i = .pong e esi → rd.Accepts inst e → e.pingType = .ptCached →
      rd.stage = .d31SendPingToRespondedReferrers →
        (rd.afterPong inst now e esi).PongPrefers e.visibleNameOfPinger

section Turn

variable {inst : Instance Addr} {now : Int} {rd : Rd Addr} {i : Input Addr}
  {history : List (Handled Addr)}

/-- What a turn switches is what its input selects. -/
theorem switchMode_mem_iff (hTop : rd.NonTop) {esi : Esi Addr} :
    .switchMode esi ∈ (rd.handleEvent inst now i).2 ↔ ∃ y, Selects inst now rd i y ∧ y.esi = esi := by
  constructor
  · intro hMem
    cases (Rd.effect_handleEvent inst now rd i).course with
    | starts hInput hNumber hUplink hPonged hSent => exact (hSent _ hMem).elim
    | goesOn hKeeps hUplink hSent => exact (hSent _ hMem).elim
    | selects hSelects hKeeps hUplink hSent =>
        rcases hSent _ hMem with hMode | hMode
        · exact hMode.elim
        · exact ⟨_, hSelects, (Sent.switchMode.inj hMode).symm⟩
  · rintro ⟨y, hSelects, rfl⟩
    exact hSelects.switchMode_mem hTop

/-- The history and `ponged_all` hold the same peers. -/
theorem mem_peers_iff (hPast : Recorded inst rd history) (x : Ponged Addr) :
    x ∈ Handled.peers inst history ⟨rd, now, i⟩ ↔ x ∈ (rd.received inst now i).peers := by
  rw [OrdSet.mem_toList, mem_pongedAll_received, hPast.ponged x, Handled.peers, pongs_append,
    List.map_append, List.mem_append]

/-- With peers the walk by the visible name finds one. -/
theorem leads_of_chooseByVisibleName_eq_none (h : rd.chooseByVisibleName = none) :
    rd.Leads rd.Walked := by
  rw [Rd.chooseByVisibleName, Option.or_eq_none_iff, OrdSet.find?_eq_none,
    OrdSet.find?_eq_none] at h
  exact Rd.leads_of_none fun z hz => absurd (not_not.1 (h.1 z hz)) (h.2 z hz)

/-- **One turn.** -/
theorem plainFirst_turn (hTop : rd.NonTop) (hPast : Recorded inst rd history) :
    Handled.PlainFirst inst history ⟨rd, now, i⟩ ↔ PrefersPlain inst rd history now i := by
  have hName : ∀ {before}, SelectsByVisibleName rd i before → ∀ esi,
      (rd.PlainFirst (Handled.peers inst history ⟨rd, now, i⟩) esi ↔
        rd.PlainFirst rd.peers esi) := by
    intro before hSel esi
    refine Rd.PlainFirst.congr rfl fun x => ?_
    rw [mem_peers_iff hPast, Rd.received_of_selectsByVisibleName hSel]
  have hPong : ∀ e esi, i = .pong e esi → rd.Accepts inst e → ∀ esi',
      (rd.PlainFirst (Handled.peers inst history ⟨rd, now, i⟩) esi' ↔
        (rd.afterPong inst now e esi).PlainFirst (rd.afterPong inst now e esi).peers esi') := by
    rintro e esi rfl hAcc esi'
    have hPeers : ∀ x, x ∈ Handled.peers inst history ⟨rd, now, .pong e esi⟩ ↔
        x ∈ (rd.afterPong inst now e esi).peers := by
      intro x
      rw [mem_peers_iff hPast, Rd.received_pong hAcc]
      rfl
    exact Rd.PlainFirst.congr rfl hPeers
  have hTurn : Handled.PlainFirst inst history ⟨rd, now, i⟩ ↔ ∀ y, Selects inst now rd i y →
      rd.PlainFirst (Handled.peers inst history ⟨rd, now, i⟩) y.esi := by
    constructor
    · intro h y hSelects
      exact h y.esi ((switchMode_mem_iff hTop).2 ⟨y, hSelects, rfl⟩)
    · intro h esi hMem
      obtain ⟨y, hSelects, rfl⟩ := (switchMode_mem_iff hTop).1 hMem
      exact h y hSelects
  rw [hTurn]
  constructor
  · intro h
    refine ⟨fun before hSel => ?_, fun e esi hInput hAcc hType hStage => ?_⟩
    · cases hChosen : rd.chooseByVisibleName with
      | none => exact leads_of_chooseByVisibleName_eq_none hChosen
      | some y =>
          have hFirst := Rd.chooseByVisibleName_eq_some.1 hChosen
          exact hFirst.plainFirst_iff.1 ((hName hSel y.esi).1 (h y (.byName hSel hFirst)))
    · refine Rd.plainFirst_iff_pongPrefers.1 fun y hChosen => ?_
      refine (hPong e esi hInput hAcc y.esi).1 (h y ?_)
      rw [hInput]
      exact .atPong hAcc hType hStage hChosen
  · rintro ⟨hByName, hAtPong⟩ y hSelects
    cases hSelects with
    | byName hSel hFirst =>
        exact (hName hSel y.esi).2 (hFirst.plainFirst_iff.2 (hByName _ hSel))
    | atPong hAcc hType hStage hChosen =>
        have hPrefers := hAtPong _ _ rfl hAcc hType hStage
        exact (hPong _ _ rfl hAcc y.esi).2 (Rd.plainFirst_iff_pongPrefers.2 hPrefers y hChosen)

end Turn

/-! ## Runs -/

variable {inst : Instance Addr}

/-- Every selection so far was one that was to be made. -/
def SelectionsPrefer (inst : Instance Addr) (history : List (Handled Addr)) : Prop :=
  ∀ past p, past ++ [p] <+: history → p.PlainFirst inst past

theorem selectionsPrefer_snoc {history : List (Handled Addr)} {p : Handled Addr} :
    SelectionsPrefer inst (history ++ [p]) ↔
      SelectionsPrefer inst history ∧ p.PlainFirst inst history := by
  constructor
  · intro h
    exact ⟨fun past q hq => h past q (hq.trans (List.prefix_append history [p])),
      h history p List.prefix_rfl⟩
  · rintro ⟨hPast, hLast⟩ past q hq
    rcases List.prefix_concat_iff.1 hq with hq | hq
    · obtain ⟨rfl, hLast'⟩ := List.append_inj' hq rfl
      obtain rfl := List.singleton_inj.1 hLast'
      exact hLast
    · exact hPast past q hq

theorem selectionsPrefer_step {s : State Addr} {a : Action Addr}
    (hs : s.rd.NonTop ∧ Recorded inst s.rd s.history) (h : SelectionsPrefer inst s.history)
    (hEn : s.enabled a) :
    SelectionsPrefer inst (s.apply inst a).history ↔ AtTurn (PrefersPlain inst) s a := by
  rcases State.apply_cases inst hEn with ⟨now, i, queue, rfl, hQueue, hApply⟩ |
    ⟨-, -, hHistory, hTurn⟩
  · rw [hApply]
    refine selectionsPrefer_snoc.trans ?_
    rw [plainFirst_turn hs.1 hs.2]
    simp [h, AtTurn, hQueue]
  · rw [hHistory]
    refine ⟨fun _ => ?_, fun _ => h⟩
    cases a with
    | handle now => exact absurd rfl (hTurn now)
    | _ => trivial

/--
**Plain referrers first.** Along a run of a node that is not a top server every
socket that is switched to the mode of an uplink is that of the fastest plain
referrer among the peers that ponged under the number in force, or of the
fastest top server when no plain one did, if and only if at every selection the
peers that are looked at are led by such a one.
-/
theorem selections_prefer {s₀ : State Addr} {acts : List (Action Addr)}
    (h0 : (machine inst).init s₀) (hTop : s₀.rd.NonTop) (hPath : (machine inst).Path s₀ acts) :
    (machine inst).Along (fun s => SelectionsPrefer inst s.history) s₀ acts ↔
      ((machine inst).guarded (AtTurn (PrefersPlain inst))).Path s₀ acts := by
  refine Machine.along_iff_path_guarded
    (J := fun s => s.rd.NonTop ∧ Recorded inst s.rd s.history) ?_
    (fun s a hs h hEn => selectionsPrefer_step hs h hEn) acts s₀ ?_ ?_ hPath
  · intro s a hs hEn
    rcases State.apply_cases inst hEn with ⟨now, i, queue, rfl, hQueue, hApply⟩ |
      ⟨hRd, -, hHistory, -⟩
    · rw [show (machine inst).apply s (.handle now) = s.turn inst now i queue from hApply]
      exact ⟨nonTop_handleEvent.2 hs.1, recorded_turn hs.2⟩
    · rw [show ((machine inst).apply s a).rd = s.rd from hRd,
        show ((machine inst).apply s a).history = s.history from hHistory]
      exact hs
  · obtain ⟨now, rd, hNew, rfl⟩ := h0
    exact ⟨hTop, recorded_onStartService hNew⟩
  · obtain ⟨now, rd, hNew, rfl⟩ := h0
    intro past p hp
    simp [started] at hp

theorem connects_prefers :
    (machine oneCaps).Along (fun s => SelectionsPrefer oneCaps s.history)
      (started oneCaps 0 fresh) connects := by
  refine (selections_prefer init_started rfl (by decide)).2
    ⟨⟨by decide, trivial⟩, ⟨by decide, ?_⟩, ⟨by decide, trivial⟩, ⟨by decide, ?_⟩, trivial⟩
  · intro i hi
    obtain rfl : pongFrom .ptCached 0 9 0 0 1 = i := Option.some.inj hi
    refine ⟨fun before hSel => ?_, fun e esi hInput hAcc hType hStage => ?_⟩
    · cases hSel
    · exact absurd hStage (by decide)
  · intro i hi
    obtain rfl : .getReferrersRSP 1 [] = i := Option.some.inj hi
    refine ⟨fun before hSel z hz hWalked hNot => ?_, fun e esi hInput => nomatch hInput⟩
    obtain rfl : z = ⟨1, ⟨0, 9⟩, 5⟩ := List.mem_singleton.1 hz
    refine absurd (Rd.PlainFirst.mk (fun _ z hz => ?_) ⟨_, hz, rfl, fun z hz' => ?_⟩) hNot
    · obtain rfl : z = ⟨1, ⟨0, 9⟩, 5⟩ := List.mem_singleton.1 hz
      decide
    · obtain rfl : z = ⟨1, ⟨0, 9⟩, 5⟩ := List.mem_singleton.1 hz'.1
      exact le_rfl

/-- A fresh node with a neighbour, 3. -/
def withNeighbour : Rd Nat := { fresh with neighbours := .ofList [3] }

/-- 3 is slow: T_040 ends D2, the top server pongs within 1 and is asked, 3
pongs after 4, and the top server knows no referrer. -/
def slowNeighbour : List (Action Nat) :=
  [.timer .handle, .timer .handle, .timer (.fire 0), .timer .pass, .handle 3,
    .arrive (pongFrom .ptCached 0 9 0 3 1), .handle 4,
    .arrive (pongFrom .ptCached 1 3 1 0 1), .handle 4, .arrive (.getReferrersRSP 1 []), .handle 5]

/-- The top server is selected: it saw the node under another name than its
own. -/
theorem top_before_plain : ∃ s, (machine oneCaps).Reachable s ∧ s.rd.NonTop ∧
    .switchMode ⟨0, 9⟩ ∈ s.trace ∧ s.rd.IsTopServer 9 ∧ ¬ s.rd.IsTopServer 3 ∧
    (⟨4, ⟨1, 3⟩, 5⟩ : Ponged Nat) ∈
      (pongs oneCaps s.rd.connectionSequenceId s.history).map Prod.snd ∧
    ¬ SelectionsPrefer oneCaps s.history := by
  refine ⟨(machine oneCaps).exec (started oneCaps 0 withNeighbour) slowNeighbour,
    ⟨_, slowNeighbour, ⟨0, withNeighbour, ⟨rfl, rfl, rfl, rfl⟩, rfl⟩, by decide, rfl⟩,
    by decide, by decide, by decide, by decide, by decide, ?_⟩
  intro h
  have hLast := h (((machine oneCaps).exec (started oneCaps 0 withNeighbour)
    slowNeighbour).history.dropLast) _ (by
      rw [List.dropLast_append_getLast (by decide)]) ⟨0, 9⟩ (by decide)
  exact absurd (hLast.plain (by decide) ⟨4, ⟨1, 3⟩, 5⟩ (by decide)) (by decide)

end Megatron.Referrer
