import Megatron.Referrer.Run

/-!
# The configuration of the downlinks

The configuration goes down the tree: a downlink is told `config_bod` when a
ping creates it, and again when a ping gives it another route or other
addresses; an update is passed to every downlink.  So every downlink was last
told the configuration its node has.

## Main results

* `told_turn` — a turn keeps every downlink up to date.
* `configuration_told` — every downlink is, in every reachable state.
-/

namespace Megatron.Referrer

open Megatron.Corelib Megatron.Lib

variable {Addr : Type} [LinearOrder Addr]

/-! ## What a back route was told -/

/-- An `UpdateConfigRSP` passed to `route`. -/
def Sent.config? (route : RouteT) : Sent Addr → Option Bytes
  | .updateConfigRSP r bod => if r = route then some bod else none
  | _ => none

/-- The configurations passed to `route`, in order. -/
def configs (route : RouteT) (trace : List (Sent Addr)) : List Bytes :=
  trace.filterMap (Sent.config? route)

/-- Every downlink was last told `config_bod`. -/
def Told (rd : Rd Addr) (trace : List (Sent Addr)) : Prop :=
  ∀ x ∈ rd.urirefs, (configs x.2.backRoute.popped trace).getLast? = some rd.configBod

section Configs

variable {route : RouteT} {bod : Bytes}

theorem configs_append (l l' : List (Sent Addr)) :
    configs route (l ++ l') = configs route l ++ configs route l' :=
  List.filterMap_append

theorem configs_eq_nil {out : List (Sent Addr)} (h : ∀ r b, .updateConfigRSP r b ∉ out) :
    configs route out = [] := by
  refine List.filterMap_eq_nil_iff.2 fun x hx => ?_
  cases x with
  | updateConfigRSP r b => exact absurd hx (h r b)
  | _ => rfl

/-- Nothing but `bod` is passed on. -/
def OnlyConfig (bod : Bytes) (out : List (Sent Addr)) : Prop :=
  ∀ r b, .updateConfigRSP r b ∈ out → b = bod

theorem configs_of_only {out : List (Sent Addr)} (h : OnlyConfig bod out) :
    ∀ b ∈ configs route out, b = bod := by
  intro b hb
  obtain ⟨x, hx, hConfig⟩ := List.mem_filterMap.1 hb
  cases x with
  | updateConfigRSP r b' =>
      simp only [Sent.config?] at hConfig
      split at hConfig
      · obtain rfl := Option.some.inj hConfig
        exact h r _ hx
      · cases hConfig
  | _ => cases hConfig

/-- The last entry of a list all of whose entries are the same. -/
theorem getLast?_append_of_all {l l' : List Bytes} (hAll : ∀ b ∈ l', b = bod)
    (hSome : l' ≠ [] ∨ l.getLast? = some bod) : (l ++ l').getLast? = some bod := by
  by_cases hNil : l' = []
  · subst hNil
    rw [List.append_nil]
    exact hSome.resolve_left (fun h => h rfl)
  · rw [List.getLast?_append_of_ne_nil l hNil, List.getLast?_eq_some_getLast hNil]
    rw [hAll _ (List.getLast_mem hNil)]

/-- A back route that is told `bod`, or was told it last, was last told it. -/
theorem getLast?_configs {trace out : List (Sent Addr)} (hOnly : OnlyConfig bod out)
    (h : .updateConfigRSP route bod ∈ out ∨ (configs route trace).getLast? = some bod) :
    (configs route (trace ++ out)).getLast? = some bod := by
  rw [configs_append]
  refine getLast?_append_of_all (configs_of_only hOnly) (h.imp_left fun hMem hNil => ?_)
  have hConfig : bod ∈ configs route out :=
    List.mem_filterMap.2 ⟨_, hMem, by simp [Sent.config?]⟩
  rw [hNil] at hConfig
  cases hConfig

end Configs

/-! ## One turn -/

/-- A turn that tells nobody, keeps the configuration and adds no downlink. -/
theorem told_of_keeps {rd rd' : Rd Addr} {trace out : List (Sent Addr)} (h : Told rd trace)
    (hConfig : rd'.configBod = rd.configBod) (hDown : ∀ x ∈ rd'.urirefs, x ∈ rd.urirefs)
    (hOut : ∀ r b, .updateConfigRSP r b ∉ out) : Told rd' (trace ++ out) := by
  intro x hx
  rw [configs_append, configs_eq_nil hOut, List.append_nil, hConfig]
  exact h x (hDown x hx)

/-- An update is passed to every downlink. -/
theorem told_updateDownlinks {rd : Rd Addr} (trace : List (Sent Addr)) (bod : Bytes) :
    Told { rd with configBod := bod } (trace ++ rd.updateDownlinks bod) := by
  intro x hx
  refine getLast?_configs ?_ (Or.inl (List.mem_map.2 ⟨x, hx, rfl⟩))
  intro r b hMem
  obtain ⟨z, -, hEq⟩ := List.mem_map.1 hMem
  exact (Sent.updateConfigRSP.inj hEq).2.symm

/-- The downlinks after a ping are the old ones and its sender; unless it is to
be told, the sender was known under the same route. -/
theorem mem_getDownlinkOrCreate {rd : Rd Addr} {mId : SocketId} {l : LinkInfo Addr}
    {x : SocketId × LinkInfo Addr} (hx : x ∈ (rd.getDownlinkOrCreate mId l).1) :
    x ∈ rd.urirefs ∨ x.2.backRoute = l.backRoute ∧
      ((rd.getDownlinkOrCreate mId l).2 = true ∨
        ∃ known, (mId, known) ∈ rd.urirefs ∧ known.backRoute = l.backRoute) := by
  simp only [Rd.getDownlinkOrCreate] at hx ⊢
  cases hFound : rd.urirefs.lookup mId with
  | none =>
      simp only [hFound] at hx ⊢
      rcases List.mem_append.1 hx with hx | hx
      · exact Or.inl hx
      · rw [List.mem_singleton.1 hx]
        exact Or.inr ⟨rfl, Or.inl trivial⟩
  | some known =>
      simp only [hFound] at hx ⊢
      obtain ⟨z, hz, rfl⟩ := List.mem_map.1 hx
      by_cases hId : z.1 = mId
      · simp only [hId, if_true]
        refine Or.inr ⟨trivial, ?_⟩
        by_cases hRoute : known.backRoute = l.backRoute
        · obtain ⟨before, after, hList, -⟩ := List.lookup_eq_some_iff.1 hFound
          exact Or.inr ⟨known, by simp [hList], hRoute⟩
        · exact Or.inl (by simp [hRoute])
      · simp only [hId, if_false]
        exact Or.inl hz

/-- A ping that makes its sender a downlink tells it, or it was told. -/
theorem told_getDownlinkOrCreate {rd : Rd Addr} {trace : List (Sent Addr)} (h : Told rd trace)
    {mId : SocketId} {l : LinkInfo Addr} {before after : List (Sent Addr)}
    (hBefore : ∀ r b, .updateConfigRSP r b ∉ before)
    (hAfter : ∀ r b, .updateConfigRSP r b ∉ after) :
    Told { rd with urirefs := (rd.getDownlinkOrCreate mId l).1 }
      (trace ++ (before ++ ((if (rd.getDownlinkOrCreate mId l).2 then
        [.updateConfigRSP l.backRoute.popped rd.configBod] else []) ++ after))) := by
  intro x hx
  refine getLast?_configs ?_ ?_
  · intro r b hMem
    rcases List.mem_append.1 hMem with hMem | hMem
    · exact absurd hMem (hBefore r b)
    · rcases List.mem_append.1 hMem with hMem | hMem
      · split at hMem
        · exact (Sent.updateConfigRSP.inj (List.mem_singleton.1 hMem)).2
        · cases hMem
      · exact absurd hMem (hAfter r b)
  · rcases mem_getDownlinkOrCreate hx with hOld | ⟨hRoute, hTold | ⟨known, hKnown, hSame⟩⟩
    · exact Or.inr (h x hOld)
    · refine Or.inl (List.mem_append_right before (List.mem_append_left after ?_))
      rw [hTold, hRoute]
      exact List.mem_singleton.2 rfl
    · refine Or.inr ?_
      rw [hRoute, ← hSame]
      exact h _ hKnown

theorem updateConfigRSP_notMem_of_starting {number : Int} {out : List (Sent Addr)}
    (h : ∀ x ∈ out, Rd.IsStarting number x) (r : RouteT) (b : Bytes) :
    .updateConfigRSP r b ∉ out := by
  intro hMem
  cases h _ hMem

theorem updateConfigRSP_notMem_d4UplinkMode (inst : Instance Addr) (now : Int) (rd : Rd Addr)
    (esi : Esi Addr) (r : RouteT) (b : Bytes) :
    .updateConfigRSP r b ∉ (rd.d4UplinkMode inst now esi).2 := by
  rw [Rd.snd_d4UplinkMode]
  simp only [List.mem_append, List.mem_cons, Rd.notifyAll, Rd.cleanup, List.mem_map,
    Rd.registerReferrer, Rd.sendToplinkReq, Rd.sendPing, Rd.resetAlarm, reduceCtorEq,
    and_false, exists_false, or_false, List.not_mem_nil, false_or]
  split <;> simp

/-- **One turn.** -/
theorem told_turn {inst : Instance Addr} {now : Int} {rd : Rd Addr} {trace : List (Sent Addr)}
    (h : Told rd trace) (i : Input Addr) :
    Told (rd.handleEvent inst now i).1 (trace ++ (rd.handleEvent inst now i).2) := by
  have hEffect := Rd.effect_handleEvent inst now rd i
  generalize rd.handleEvent inst now i = t at hEffect
  have hStart : ∀ (rd' : Rd Addr) (before : List (Sent Addr)), rd'.configBod = rd.configBod →
      (∀ x ∈ rd'.urirefs, x ∈ rd.urirefs) → (∀ r b, .updateConfigRSP r b ∉ before) →
      Told (rd'.stageD2PingNeighboursStart inst now).1
        (trace ++ (before ++ (rd'.stageD2PingNeighboursStart inst now).2)) := by
    intro rd' before hConfig hDown hBefore
    obtain ⟨stage, neighbours, -, hRd⟩ := Rd.fst_stageD2PingNeighboursStart inst now rd'
    refine told_of_keeps h ?_ ?_ ?_
    · rw [hRd]
      exact hConfig
    · rw [hRd]
      exact hDown
    · intro r b hMem
      rcases List.mem_append.1 hMem with hMem | hMem
      · exact hBefore r b hMem
      · exact updateConfigRSP_notMem_of_starting
          (Rd.snd_stageD2PingNeighboursStart inst now rd') r b hMem
  cases hEffect with
  | idle => exact told_of_keeps h rfl (fun _ => id) (by simp)
  | waitOn => exact told_of_keeps h rfl (fun _ => id) (by simp [Rd.resetAlarm])
  | nobody => exact told_of_keeps h rfl (fun _ => id) (by simp [Rd.resetAlarm])
  | chosen hSel =>
      refine told_of_keeps h rfl (fun _ => id) fun r b hMem => ?_
      rcases List.mem_append.1 hMem with hMem | hMem
      · cases hSel <;> simp [Rd.resetAlarm] at hMem
      · exact updateConfigRSP_notMem_d4UplinkMode inst now rd _ r b hMem
  | pingReferrers =>
      exact told_of_keeps h rfl (fun _ => id) (by simp [Rd.resetAlarm, Rd.sendPing])
  | timedOut => exact hStart rd [] rfl (fun _ => id) (by simp)
  | pongTimedOut =>
      exact hStart rd [.stopAlarm _, .stopAlarm _, .stopAlarm _] rfl (fun _ => id) (by simp)
  | lost =>
      refine hStart { rd with urirefs := [] } _ rfl (by simp) fun r b hMem => ?_
      simp [Rd.notifyAll] at hMem
  | noNeighbour =>
      exact told_of_keeps h rfl (fun _ => id)
        (updateConfigRSP_notMem_of_starting (Rd.snd_stageD21PingCapsStart inst now rd))
  | resendShort => exact told_of_keeps h rfl (fun _ => id) (by simp [Rd.resetAlarm, Rd.sendPing])
  | resendLong => exact told_of_keeps h rfl (fun _ => id) (by simp [Rd.sendPing])
  | reregister =>
      refine told_of_keeps h rfl (fun _ => id) fun r b => ?_
      simp only [Rd.registerReferrer, Rd.sendToplinkReq, Rd.resetAlarm]
      split <;> simp
  | noUplink => exact told_of_keeps h rfl (fun _ => id) (by simp)
  | dropped =>
      exact told_of_keeps h rfl (fun _ hx => List.mem_of_mem_filter hx) (by simp [Rd.notifyAll])
  | pongAtTop => exact told_of_keeps h rfl (fun _ => id) (by simp)
  | pongNoted e esi hAcc hOut =>
      refine told_of_keeps h rfl (fun _ => id) ?_
      rcases hOut with rfl | ⟨what, rfl⟩ <;> simp
  | pongShort e esi =>
      exact told_of_keeps h rfl (fun _ => id) (by simp [Rd.d6OnPongPtCapsShort, Rd.resetAlarm])
  | pongLong e esi =>
      exact told_of_keeps h rfl (fun _ => id) (by simp [Rd.d6OnPongPtCapsLong, Rd.resetAlarm])
  | pongAsked e esi =>
      refine told_of_keeps h ?_ ?_ fun r b => ?_
      · rw [Rd.fst_stageD3GetReferrersStart]
        rfl
      · rw [Rd.fst_stageD3GetReferrersStart]
        exact fun _ => id
      · simp only [Rd.stageD3GetReferrersStart, Rd.sendToplinkReq, Rd.resetAlarm]
        split
        · simp
        · split <;> simp
  | pongChosen e esi =>
      refine told_of_keeps h rfl (fun _ => id) fun r b hMem => ?_
      rcases List.mem_cons.1 hMem with hEq | hMem
      · cases hEq
      · exact updateConfigRSP_notMem_d4UplinkMode inst now (rd.afterPong inst now e esi) _ r b
          hMem
  | pinged e route esi mId =>
      have hAlarm : ∀ r b, .updateConfigRSP r b ∉ (if rd.HasDownlink mId then
          [rd.resetAlarm (.t011DownlinkPingTimedOut mId esi.remoteName)] else []) := by
        intro r b
        split <;> simp [Rd.resetAlarm]
      by_cases hLink : e.pingType.IsLink
      · simp only [Rd.onIncomingOnAcceptor, Rd.onPing, hLink, if_true]
        split
        · exact told_of_keeps h rfl (fun _ => id) (by simpa using hAlarm)
        · split
          · exact told_of_keeps h rfl (fun _ => id) (by simpa using hAlarm)
          · split
            · exact told_of_keeps h rfl (fun _ => id) (by simpa using hAlarm)
            · exact told_getDownlinkOrCreate (l := Rd.newLink inst e route esi) h hAlarm
                (by simp [Rd.sendPong])
      · simp only [Rd.onIncomingOnAcceptor, Rd.onPing, hLink, if_false]
        split_ifs <;>
          exact told_of_keeps h rfl (fun _ => id) (by simp [Rd.resetAlarm, Rd.sendPong])
  | subscribed route =>
      refine told_of_keeps h rfl (fun _ => id) fun r b => ?_
      simp only [Rd.onSubscribeNotifications]
      split <;> simp
  | updateREQ bod => exact told_updateDownlinks trace bod
  | updateRSP bod => exact told_updateDownlinks trace bod

/-! ## Runs -/

/--
**The configuration reaches every downlink.** In every reachable state the last
`UpdateConfigRSP` passed to the back route of a downlink carries `config_bod`.
-/
theorem configuration_told {inst : Instance Addr} {s : State Addr}
    (h : (machine inst).Reachable s) {mId : SocketId} {l : LinkInfo Addr}
    (hDown : (mId, l) ∈ s.rd.urirefs) :
    (configs l.backRoute.popped s.trace).getLast? = some s.rd.configBod := by
  refine handle_invariant (I := fun rd trace _ => Told rd trace) ?_ ?_ h (mId, l) hDown
  · intro now rd hNew x hx
    rw [urirefs_onStartService hNew] at hx
    cases hx
  · intro rd trace history now i hTold
    exact told_turn hTold i

/-- A downlink is created, and the uplink sends another configuration. -/
def updates : List (Action Nat) :=
  connects ++ [.arrive childPings, .handle 5, .arrive (.updateConfigRSP [7]), .handle 6]

theorem updates_told :
    (configs aSubscriber.popped
      ((machine oneCaps).exec (started oneCaps 0 fresh) updates).trace).getLast? = some [7] :=
  configuration_told ⟨_, updates, init_started, by decide, rfl⟩
    (show ((4 : SocketId), ⟨⟨4, 30⟩, 30, ∅, aSubscriber⟩) ∈ _ by decide)

end Megatron.Referrer
