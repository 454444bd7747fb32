import Megatron.Dfs.Service
import Megatron.DfsCaps.Nearest
import Megatron.DfsCaps.Retention

/-!
# The caps service

`dfsCaps::Service` has two tables, of the referrer nodes and of the cloud roots. A
registration is an `addReferrer` for each address of the request, a query a
`findReferrers` for each. Only the answer about the referrer nodes is freed of
repetitions. `geoip` is `findNetRec`.

## Main results

* `sourced_of_reachable` — an address is in a container because it has registered for
  that hour.
* `findAll_fst`, `findAll_snd` — what the loop of a query gives.
* `getReferrers_sound`, `getReferrers_complete` — who is in the answer about the referrer
  nodes.
* `getCloudRoots_count` — how often an address is in that about the cloud roots.
-/

namespace Megatron.DfsCaps

open Megatron.Lib Megatron.Corelib
open Megatron.Dfs (poppedFrontRoute)

variable {Addr : Type} [LinearOrder Addr]

/-! ## The service -/

/-- `LOCATION_LATITUDE_UNDEF` and `LOCATION_LONGITUDE_UNDEF`. -/
def locationUndef : Int64 := 100000

/-- What the environment has in a request: what the call for an address reads of the
clock, and what `new` gives there. -/
structure Env (Addr : Type) where
  time : Addr → ℕ → ℕ
  fresh : Addr → Ptr × Ptr

/-- The events that the service takes out of a `ToplinkDeliverREQ`. -/
inductive DfsCapsEvent (Addr : Type) [LinearOrder Addr] where
  | getReferrersREQ (externalListenAddr : OrdSet Addr) (route : RouteT)
  | registerMyRefferrerNodeREQ (externalListenAddr : OrdSet Addr) (uplink : Addr)
      (downlinkCount : Int)
  | registerCloudRoot (externalListenAddr : OrdSet Addr) (uplink : Addr)
  | getCloudRootsREQ (externalListenAddr : OrdSet Addr) (route : RouteT)
  | other

/-- `GetReferrersRSP` or `GetCloudRootsRSP`, and the route of the `ToplinkDeliverRSP`
around it. -/
structure Reply (Addr : Type) where
  referrerAddresses : List Addr
  route : RouteT
  toplinkRoute : RouteT

/-- `dfsCaps::Service`. -/
structure Service (Addr : Type) [LinearOrder Addr] where
  referrerNodes : World Addr
  cloudRoots : World Addr

/-- A `ToplinkDeliverREQ`: what `getEvent` gives, and its route. -/
structure Call (Addr : Type) [LinearOrder Addr] where
  event : Option (DfsCapsEvent Addr)
  route : RouteT
  env : Env Addr

section

variable (family : Addr → ℤ) (dist : Int64 → Int64 → Int64 → Int64 → ℤ)
  (geoip : Addr → Option (Int64 × Int64))

/-- Where an address is. -/
def location (z : Addr) : Int64 × Int64 := (geoip z).getD (locationUndef, locationUndef)

/-- The call of `addReferrer` for an address. -/
def addAct (env : Env Addr) (downlinkCount : Int) (uplink : Addr) (z : Addr) : Act Addr :=
  .add (env.time z) (env.fresh z).1 (env.fresh z).2
    ⟨(location geoip z).1, (location geoip z).2, z, downlinkCount, uplink⟩

/-- The call of `findReferrers` for an address. -/
def findAct (env : Env Addr) (z : Addr) : Act Addr :=
  .find (env.time z) (location geoip z).1 (location geoip z).2 (family z)

/-- The loop of a registration. -/
def registerAll (env : Env Addr) (downlinkCount : Int) (uplink : Addr) (addrs : OrdSet Addr)
    (w : World Addr) : World Addr :=
  (machine family dist).exec w (addrs.toList.map (addAct geoip env downlinkCount uplink))

/-- `x->sa` for what `findReferrers` gives: the items are in the containers that it has
looked in. -/
def addresses (x : CapsAlgorithm Addr) (time : ℕ → ℕ) (af : ℤ) (ret : List Ptr) : List Addr :=
  ret.filterMap fun p => (((x.container (hour (time 0)) af).items.get? p).or
    ((x.container (hour (time 1)) af).items.get? p)).map ReferrerItem.sa

/-- What a query gives for an address. -/
def found (env : Env Addr) (z : Addr) (w : World Addr) : List Addr :=
  addresses w.caps (env.time z) (family z) (w.caps.findReferrers dist (env.time z)
    (location geoip z).1 (location geoip z).2 (family z)).2

/-- The loop of a query: `sv`. -/
def findAll (env : Env Addr) : List Addr → World Addr → World Addr × List Addr
  | [], w => (w, [])
  | z :: zs, w =>
      let rest := findAll env zs ((machine family dist).apply w (findAct family geoip env z))
      (rest.1, found family dist geoip env z w ++ rest.2)

/-- The loop over `sv` that makes `sv1`. -/
def unrepeated (alreadySK : OrdSet Addr) : List Addr → List Addr
  | [] => []
  | z :: sv =>
      if z ∈ alreadySK then unrepeated alreadySK sv
      else z :: unrepeated (alreadySK.insert z) sv

/-- `on_GetReferrersREQ`. -/
def onGetReferrersREQ (env : Env Addr) (externalListenAddr : OrdSet Addr)
    (route toplinkRoute : RouteT) (s : Service Addr) :
    Service Addr × Except CommonError (Option (Reply Addr)) :=
  if externalListenAddr = ∅ then (s, .ok none)
  else
    let all := findAll family dist geoip env externalListenAddr.toList s.referrerNodes
    ({ s with referrerNodes := all.1 }, do
      return some ⟨unrepeated ∅ all.2, route, ← poppedFrontRoute toplinkRoute⟩)

/-- `on_GetCloudRootsREQ`. -/
def onGetCloudRootsREQ (env : Env Addr) (externalListenAddr : OrdSet Addr)
    (route toplinkRoute : RouteT) (s : Service Addr) :
    Service Addr × Except CommonError (Option (Reply Addr)) :=
  if externalListenAddr = ∅ then (s, .ok none)
  else
    let all := findAll family dist geoip env externalListenAddr.toList s.cloudRoots
    ({ s with cloudRoots := all.1 }, do
      return some ⟨all.2, route, ← poppedFrontRoute toplinkRoute⟩)

/-- `on_RegisterMyRefferrerNodeREQ`. -/
def onRegisterMyRefferrerNodeREQ (env : Env Addr) (externalListenAddr : OrdSet Addr)
    (uplink : Addr) (downlinkCount : Int) (s : Service Addr) : Service Addr :=
  { s with referrerNodes :=
      registerAll family dist geoip env downlinkCount uplink externalListenAddr s.referrerNodes }

/-- `on_RegisterCloudRoot`. -/
def onRegisterCloudRoot (env : Env Addr) (externalListenAddr : OrdSet Addr) (uplink : Addr)
    (s : Service Addr) : Service Addr :=
  { s with cloudRoots :=
      registerAll family dist geoip env 0 uplink externalListenAddr s.cloudRoots }

/-- `on_ToplinkDeliverREQ`, with what is passed on. -/
def onToplinkDeliverREQ (c : Call Addr) (s : Service Addr) :
    Service Addr × Except CommonError (Option (Reply Addr)) :=
  match c.event with
  | none => (s, .ok none)
  | some (.getReferrersREQ addrs route) =>
      onGetReferrersREQ family dist geoip c.env addrs route c.route s
  | some (.registerMyRefferrerNodeREQ addrs uplink downlinkCount) =>
      (onRegisterMyRefferrerNodeREQ family dist geoip c.env addrs uplink downlinkCount s, .ok none)
  | some (.registerCloudRoot addrs uplink) =>
      (onRegisterCloudRoot family dist geoip c.env addrs uplink s, .ok none)
  | some (.getCloudRootsREQ addrs route) =>
      onGetCloudRootsREQ family dist geoip c.env addrs route c.route s
  | some .other => (s, .ok none)

/-- The calls that a request makes on the two tables. -/
def Call.acts (c : Call Addr) : List (Act Addr) × List (Act Addr) :=
  match c.event with
  | some (.getReferrersREQ addrs _) => (addrs.toList.map (findAct family geoip c.env), [])
  | some (.registerMyRefferrerNodeREQ addrs uplink downlinkCount) =>
      (addrs.toList.map (addAct geoip c.env downlinkCount uplink), [])
  | some (.registerCloudRoot addrs uplink) =>
      ([], addrs.toList.map (addAct geoip c.env 0 uplink))
  | some (.getCloudRootsREQ addrs _) => ([], addrs.toList.map (findAct family geoip c.env))
  | some .other => ([], [])
  | none => ([], [])

/-- The requests, one after another. What the environment has in them is such that the
calls on the tables are enabled, and meet `g`. -/
def service (g : World Addr → Act Addr → Prop) : Machine (Service Addr) (Call Addr) where
  init s := s = ⟨⟨CapsAlgorithm.construct, 0, []⟩, ⟨CapsAlgorithm.construct, 0, []⟩⟩
  enabled s c :=
    ((machine family dist).guarded g).Path s.referrerNodes (c.acts family geoip).1 ∧
      ((machine family dist).guarded g).Path s.cloudRoots (c.acts family geoip).2
  apply s c := (onToplinkDeliverREQ family dist geoip c s).1

end

/-! ## The tables of the service -/

section

variable {family : Addr → ℤ} {dist : Int64 → Int64 → Int64 → Int64 → ℤ}
  {geoip : Addr → Option (Int64 × Int64)} {g : World Addr → Act Addr → Prop} {env : Env Addr}

theorem findAll_fst (zs : List Addr) (w : World Addr) :
    (findAll family dist geoip env zs w).1 =
      (machine family dist).exec w (zs.map (findAct family geoip env)) := by
  induction zs generalizing w with
  | nil => rfl
  | cons z zs ih => rw [findAll, List.map_cons, Machine.exec_cons, ← ih]

/-- A request does to the tables what its calls do. -/
theorem apply_service (s : Service Addr) (c : Call Addr) :
    (service family dist geoip g).apply s c =
      ⟨(machine family dist).exec s.referrerNodes (c.acts family geoip).1,
        (machine family dist).exec s.cloudRoots (c.acts family geoip).2⟩ := by
  obtain ⟨event, route, env⟩ := c
  show (onToplinkDeliverREQ family dist geoip _ s).1 = _
  rcases event with _ | (⟨addrs, r⟩ | _ | _ | ⟨addrs, r⟩ | _)
  · rfl
  · show (onGetReferrersREQ family dist geoip env addrs r route s).1 = _
    rw [onGetReferrersREQ]
    split
    · rename_i hEmpty
      rw [hEmpty]
      rfl
    · exact congrArg (Service.mk · s.cloudRoots) (findAll_fst _ _)
  · rfl
  · rfl
  · show (onGetCloudRootsREQ family dist geoip env addrs r route s).1 = _
    rw [onGetCloudRootsREQ]
    split
    · rename_i hEmpty
      rw [hEmpty]
      rfl
    · exact congrArg (Service.mk s.referrerNodes) (findAll_fst _ _)
  · rfl

/-- Both tables go through runs of `CapsAlgorithm`. -/
theorem reachable_tables {s : Service Addr} (hReach : (service family dist geoip g).Reachable s) :
    ((machine family dist).guarded g).Reachable s.referrerNodes ∧
      ((machine family dist).guarded g).Reachable s.cloudRoots := by
  refine Machine.Reachable.invariant (I := fun s : Service Addr =>
    ((machine family dist).guarded g).Reachable s.referrerNodes ∧
      ((machine family dist).guarded g).Reachable s.cloudRoots) ?_ ?_ hReach
  · rintro _ rfl
    exact ⟨Machine.Reachable.init rfl, Machine.Reachable.init rfl⟩
  · rintro s c ⟨hNodes, hRoots⟩ ⟨hFirst, hSecond⟩
    have hNodes' := hNodes.path hFirst
    have hRoots' := hRoots.path hSecond
    rw [Machine.exec_guarded] at hNodes' hRoots'
    rw [apply_service]
    exact ⟨hNodes', hRoots'⟩

end

/-! ## Why an address is where it is -/

namespace ReferrerContainer

variable {c : ReferrerContainer Addr} {p : Ptr}

/-- The items are those of the addresses. -/
def Owned (c : ReferrerContainer Addr) : Prop :=
  c.WF ∧ ∀ p z, c.items.get? p = some z → c.referrers.get? z.sa = some p

theorem owned_add {time : Nat} {r : Registration Addr} (h : c.Owned) (hFresh : c.items.get? p = none) :
    (c.add p time r).Owned := by
  refine ⟨wf_add h.1 hFresh, fun q z hz => ?_⟩
  rw [items_add] at hz
  by_cases hTarget : q = c.target p r.sa
  · rw [hTarget, OrdMap.get?_insert_self] at hz
    obtain rfl := Option.some.inj hz
    rw [hTarget]
    exact get?_add_self
  · rw [OrdMap.get?_insert_of_ne hTarget] at hz
    have hOld := h.2 q z hz
    by_cases hSame : z.sa = r.sa
    · rw [hSame] at hOld
      rw [target, hOld, Option.getD_some] at hTarget
      exact absurd rfl hTarget
    · rw [get?_add_of_ne hSame, hOld]

theorem owned_lookFor (lat lon : Int64) (h : c.Owned) : (c.lookFor lat lon).1.Owned := by
  have hAlike := alike_lookFor lat lon c
  refine ⟨wf_lookFor h.1 lat lon, fun q z hz => ?_⟩
  rw [hAlike.items] at hz
  rw [hAlike.referrers]
  exact h.2 q z hz

theorem WF.candidates_subset (hWF : c.WF) (lat lon : Int64) :
    (c.candidates lat lon).toList ⊆ c.pointers := by
  intro q hq
  rcases c.candidates_cases lat lon with ⟨g, ll, hCell, -⟩ | hAll
  · rw [hCell] at hq
    exact mem_pointers.2 (hWF.inCell g ll q hq)
  · rw [hAll] at hq
    exact mem_everyone.1 hq

/-- `x->sa` for items of the container. -/
def addressesOf (c : ReferrerContainer Addr) (ret : List Ptr) : List Addr :=
  ret.filterMap fun p => (c.items.get? p).map ReferrerItem.sa

/-- No item is missing. -/
theorem WF.length_addressesOf (hWF : c.WF) {ret : List Ptr} (hRet : ret ⊆ c.pointers) :
    (c.addressesOf ret).length = ret.length := by
  refine List.filterMap_length_eq_length.2 fun p hp => ?_
  obtain ⟨a, ha⟩ := mem_pointers.1 (hRet hp)
  obtain ⟨z, hz, -⟩ := hWF.item a p ha
  rw [hz]
  rfl

theorem WF.mem_addressesOf (hWF : c.WF) {ret : List Ptr} (hRet : ret ⊆ c.pointers) {a : Addr} :
    a ∈ c.addressesOf ret ↔ ∃ p ∈ ret, c.referrers.get? a = some p := by
  rw [addressesOf, List.mem_filterMap]
  refine exists_congr fun p => and_congr_right fun hp => ?_
  obtain ⟨a', ha'⟩ := mem_pointers.1 (hRet hp)
  obtain ⟨z, hz, hsa⟩ := hWF.item a' p ha'
  rw [hz, Option.map_some, Option.some.injEq]
  constructor
  · rintro rfl
    rw [hsa, ha']
  · intro ha
    obtain ⟨z', hz', hsa'⟩ := hWF.item a p ha
    rw [hz, Option.some.injEq] at hz'
    rw [hz', hsa']

theorem WF.nodup_addressesOf (hWF : c.WF) {ret : List Ptr} (hRet : ret ⊆ c.pointers)
    (hNodup : ret.Nodup) : (c.addressesOf ret).Nodup := by
  refine List.pairwise_filterMap.2 (hNodup.imp_of_mem ?_)
  rintro p p' hp hp' hNe a ha a' ha' rfl
  obtain ⟨b, hb⟩ := mem_pointers.1 (hRet hp)
  obtain ⟨b', hb'⟩ := mem_pointers.1 (hRet hp')
  obtain ⟨z, hz, hsa⟩ := hWF.item b p hb
  obtain ⟨z', hz', hsa'⟩ := hWF.item b' p' hb'
  rw [hz, Option.map_some, Option.some.injEq, hsa] at ha
  rw [hz', Option.map_some, Option.some.injEq, hsa'] at ha'
  rw [ha, ← ha', hb', Option.some.injEq] at hb
  exact hNe hb.symm

theorem get?_eq_none_of_size (hSize : c.referrers.size = 0) (a : Addr) :
    c.referrers.get? a = none := by
  by_contra hSome
  have hOne := OrdMap.length_le_size (m := c.referrers) (List.nodup_singleton a) fun k hk => by
    rw [List.mem_singleton.1 hk]
    exact Option.ne_none_iff_isSome.1 hSome
  rw [hSize] at hOne
  exact absurd hOne (Nat.not_succ_le_zero 0)

end ReferrerContainer

/-- The address has registered for the hour of `now`. -/
def Registered (log : List (Entry Addr)) (now : ℕ) (a : Addr) : Prop :=
  ∃ e ∈ log, e.reg.sa = a ∧ hour now ≤ hour e.time + 1

section

variable {family : Addr → ℤ} {dist : Int64 → Int64 → Int64 → Int64 → ℤ}
  {geoip : Addr → Option (Int64 × Int64)} {g : World Addr → Act Addr → Prop} {env : Env Addr}
  {w : World Addr}

/-- The addresses in a container are of its family, and have registered for its hour. -/
def Sourced (family : Addr → ℤ) (w : World Addr) : Prop :=
  ∀ h af a, ((w.caps.container h af).referrers.get? a).isSome →
    family a = af ∧ ∃ e ∈ w.log, e.reg.sa = a ∧ h ≤ hour e.time + 1

theorem sourced_add (hs : Sourced family w) {time : ℕ → ℕ} {p q : Ptr} {r : Registration Addr}
    (hTime : Monotone time) :
    Sourced family ((machine family dist).apply w (.add time p q r)) := by
  intro h af a ha
  rw [caps_add, CapsAlgorithm.container_addReferrer hTime] at ha
  rw [log_add]
  have hExpired : ((w.caps.expire.container h af).referrers.get? a).isSome →
      family a = af ∧ ∃ e ∈ w.log, e.reg.sa = a ∧ h ≤ hour e.time + 1 :=
    CapsAlgorithm.container_expire_of (P := fun c => (c.referrers.get? a).isSome →
      family a = af ∧ ∃ e ∈ w.log, e.reg.sa = a ∧ h ≤ hour e.time + 1) (fun hNone => by cases hNone)
      (hs h af a)
  -- a container that the address is put in, or that it was in
  have hAdded : ∀ p t, (((w.caps.expire.container h af).add p t r).referrers.get? a).isSome →
      af = family r.sa → h ≤ hour (time 3) + 1 → family a = af ∧ ∃ e ∈
        (⟨r, hour (time 0), hour (time 2) + 1, time 3⟩ : Entry Addr) :: w.log,
          e.reg.sa = a ∧ h ≤ hour e.time + 1 := by
    intro p t hSome hFamily hHour
    by_cases hSame : a = r.sa
    · exact ⟨hSame ▸ hFamily.symm, _, List.mem_cons_self, hSame.symm, hHour⟩
    · rw [ReferrerContainer.get?_add_of_ne hSame] at hSome
      obtain ⟨hOf, e, he, hRest⟩ := hExpired hSome
      exact ⟨hOf, e, List.mem_cons_of_mem _ he, hRest⟩
  split at ha
  · rename_i hSecond
    have hLe : hour (time 2) ≤ hour (time 3) := hour_mono (hTime (by decide))
    exact hAdded _ _ ha hSecond.2 (by omega)
  · split at ha
    · rename_i hFirst
      have hLe : hour (time 0) ≤ hour (time 3) := hour_mono (hTime (by decide))
      exact hAdded _ _ ha hFirst.2 (by omega)
    · obtain ⟨hOf, e, he, hRest⟩ := hExpired ha
      exact ⟨hOf, e, List.mem_cons_of_mem _ he, hRest⟩

theorem sourced_find (hs : Sourced family w) {time : ℕ → ℕ} {lat lon : Int64} {af : ℤ} :
    Sourced family ((machine family dist).apply w (.find time lat lon af)) := by
  intro h af' a ha
  rw [caps_find, CapsAlgorithm.container_findReferrers] at ha
  rw [log_find]
  split at ha
  · rw [(ReferrerContainer.alike_lookFor lat lon _).referrers] at ha
    exact hs h af' a ha
  · exact hs h af' a ha

theorem sourced_of_reachable (hReach : (machine family dist).Reachable w) : Sourced family w := by
  refine Machine.Reachable.invariant (I := Sourced family) ?_ ?_ hReach
  · rintro _ rfl h af a ha
    cases ha
  · rintro w (⟨time, p, q, r⟩ | ⟨time, lat, lon, af⟩) hs hEn
    · exact sourced_add hs hEn.1
    · exact sourced_find hs

theorem owned_container (hReach : (machine family dist).Reachable w) (h : Nat) (af : ℤ) :
    (w.caps.container h af).Owned :=
  container_invariant ⟨ReferrerContainer.wf_default, fun _ _ hz => by cases hz⟩
    (fun _ _ _ _ hOwned hFresh => ReferrerContainer.owned_add hOwned hFresh)
    (fun _ lat lon hOwned => ReferrerContainer.owned_lookFor lat lon hOwned) hReach h af

/-! ## What a query gives for an address -/

/-- Of the candidates as many are taken as of all addresses. -/
theorem ReferrerContainer.WF.min_candidates {c : ReferrerContainer Addr} (hWF : c.WF)
    (lat lon : Int64) : min (c.candidates lat lon).toList.length (maxReferrersCountInResponse + 1) =
      min c.referrers.size (maxReferrersCountInResponse + 1) := by
  rcases c.candidates_cases lat lon with ⟨g, ll, hCell, hMany⟩ | hAll
  · have hLe := hWF.length_inCell_le g ll
    rw [hCell]
    omega
  · rw [hAll, hWF.length_everyone]

variable (geoip) in
/-- The items are of one of the two containers that `findReferrers` looks in, and as many
as there are, up to one more than the maximum. -/
theorem found_eq (hReach : (machine family dist).Reachable w) (env : Env Addr) (z : Addr) :
    ∃ k ret, (k = hour (env.time z 0) ∨ k = hour (env.time z 1)) ∧
      ret ⊆ (w.caps.container k (family z)).pointers ∧ ret.Nodup ∧
      ret.length = min (w.caps.container k (family z)).referrers.size
        (maxReferrersCountInResponse + 1) ∧
      found family dist geoip env z w = (w.caps.container k (family z)).addressesOf ret := by
  obtain ⟨ret, hRet⟩ : ∃ ret, (w.caps.findReferrers dist (env.time z) (location geoip z).1
    (location geoip z).2 (family z)).2 = ret := ⟨_, rfl⟩
  have hCases := hRet
  rw [CapsAlgorithm.findReferrers_ret] at hCases
  dsimp only at hCases
  rw [found, hRet]
  obtain ⟨hWF, hOwned⟩ := owned_container hReach (hour (env.time z 0)) (family z)
  split at hCases
  · -- the container of the hour is empty, and so is its memory
    rename_i hNone
    have hSize := hWF.nearest_eq_nil.1 hNone
    have hWF' := wf_container hReach (hour (env.time z 1)) (family z)
    refine ⟨_, ret, Or.inr rfl, ?_, ?_, ?_, ?_⟩
    · rw [← hCases]
      exact List.take_subset _ _
    · rw [← hCases]
      exact hWF'.nodup_pointers.sublist (List.take_sublist _ _)
    · rw [← hCases, List.length_take, ReferrerContainer.length_pointers, Nat.min_comm]
    · refine List.filterMap_congr fun p _ => ?_
      cases hItem : (w.caps.container (hour (env.time z 0)) (family z)).items.get? p with
      | none => rfl
      | some item =>
          have hOwner := hOwned p item hItem
          rw [ReferrerContainer.get?_eq_none_of_size hSize] at hOwner
          cases hOwner
  · -- the nearest of the candidates
    have hMost := ReferrerContainer.foremost_nearest dist
      (w.caps.container (hour (env.time z 0)) (family z)) (location geoip z).1 (location geoip z).2
    rw [hCases] at hMost
    have hSubset := List.Subset.trans hMost.subset (hWF.candidates_subset _ _)
    refine ⟨_, ret, Or.inl rfl, hSubset, hMost.nodup, ?_, ?_⟩
    · rw [hMost.length, hWF.min_candidates]
    · refine List.filterMap_congr fun p hp => ?_
      obtain ⟨a, ha⟩ := ReferrerContainer.mem_pointers.1 (hSubset hp)
      obtain ⟨item, hItem, -⟩ := hWF.item a p ha
      rw [hItem, Option.some_or]

variable (geoip) in
/-- No address is given twice, and those that are have registered. -/
theorem found_registered (hReach : (machine family dist).Reachable w) {z : Addr}
    (hTime : Monotone (env.time z)) :
    (found family dist geoip env z w).Nodup ∧ ∀ a ∈ found family dist geoip env z w,
      family a = family z ∧ Registered w.log (env.time z 0) a := by
  obtain ⟨k, ret, hk, hSubset, hNodup, -, hFound⟩ := found_eq geoip hReach env z
  have hWF := wf_container hReach k (family z)
  have hLe : hour (env.time z 0) ≤ k := by
    rcases hk with rfl | rfl
    · exact Nat.le_refl _
    · exact hour_mono (hTime (Nat.zero_le 1))
  rw [hFound]
  refine ⟨hWF.nodup_addressesOf hSubset hNodup, fun a ha => ?_⟩
  obtain ⟨p, -, hp⟩ := (hWF.mem_addressesOf hSubset).1 ha
  obtain ⟨hFamily, e, he, hsa, hHour⟩ :=
    sourced_of_reachable hReach k (family z) a (Option.isSome_of_eq_some hp)
  exact ⟨hFamily, e, he, hsa, hLe.trans hHour⟩

/-- What has registered for the hour is in the container of the hour. -/
theorem Retained.mem_container (hs : Retained family w) {now : ℕ} (hNow : w.clock ≤ now) {a : Addr}
    (ha : Registered w.log now a) :
    ((w.caps.container (hour now) (family a)).referrers.get? a).isSome := by
  obtain ⟨e, he, rfl, hHour⟩ := ha
  obtain ⟨last, hLast, hAfter, hPast⟩ := hs.exists_latest he
  have hLater : hour e.time ≤ hour last.time := hour_mono hAfter
  have hBefore : hour last.time ≤ hour now := hour_mono (hPast.trans hNow)
  have hItem := hs.kept _ last hLast (hour now) (by omega) (hour_mono hNow)
  rw [ReferrerContainer.item?] at hItem
  obtain ⟨p, hp, -⟩ := Option.bind_eq_some_iff.1 hItem
  exact Option.isSome_of_eq_some hp

variable (geoip) in
/-- All that have registered are given, or one more than the maximum. -/
theorem found_all (hReach : ((machine family dist).guarded Steady).Reachable w) {z : Addr}
    (hClock : w.clock ≤ env.time z 0) (hSteady : ∀ i, env.time z i = env.time z 0) :
    (∀ a, family a = family z → Registered w.log (env.time z 0) a →
        a ∈ found family dist geoip env z w) ∨
      (found family dist geoip env z w).length = maxReferrersCountInResponse + 1 := by
  obtain ⟨k, ret, hk, hSubset, hNodup, hLength, hFound⟩ :=
    found_eq geoip hReach.of_guarded env z
  obtain rfl : k = hour (env.time z 0) := by
    rcases hk with rfl | rfl
    · rfl
    · rw [hSteady 1]
  have hWF := wf_container hReach.of_guarded (hour (env.time z 0)) (family z)
  rw [hFound, hWF.length_addressesOf hSubset]
  rcases Nat.le_total (w.caps.container (hour (env.time z 0)) (family z)).referrers.size
    (maxReferrersCountInResponse + 1) with hFew | hMany
  · left
    intro a hFamily ha
    have hSome := (retained_of_reachable hReach).mem_container hClock ha
    rw [hFamily] at hSome
    obtain ⟨p, hp⟩ := Option.isSome_iff_exists.1 hSome
    rw [Nat.min_eq_left hFew, ← ReferrerContainer.length_pointers] at hLength
    have hAll := (List.subperm_of_subset hNodup hSubset).perm_of_length_le hLength.ge
    exact (hWF.mem_addressesOf hSubset).2
      ⟨p, hAll.mem_iff.2 (ReferrerContainer.mem_pointers.2 ⟨a, hp⟩), hp⟩
  · right
    rw [hLength, Nat.min_eq_right hMany]

/-- What holds of what is given for an address, whatever the queries before it have made
of the table, holds of every part of the answer. -/
theorem findAll_snd {zs : List Addr} (hReach : ((machine family dist).guarded g).Reachable w)
    (hPath : ((machine family dist).guarded g).Path w (zs.map (findAct family geoip env)))
    {P : Addr → List Addr → Prop}
    (hFound : ∀ w' z, ((machine family dist).guarded g).Reachable w' → w'.log = w.log →
      ((machine family dist).guarded g).enabled w' (findAct family geoip env z) →
        P z (found family dist geoip env z w')) :
    ∃ parts : List (Addr × List Addr), parts.map Prod.fst = zs ∧
      (∀ part ∈ parts, P part.1 part.2) ∧
      (findAll family dist geoip env zs w).2 = parts.flatMap Prod.snd := by
  induction zs generalizing w with
  | nil => exact ⟨[], rfl, fun _ h => absurd h List.not_mem_nil, rfl⟩
  | cons z zs ih =>
      have hNext := hReach.step hPath.1
      have hLog : ((machine family dist).apply w (findAct family geoip env z)).log = w.log :=
        log_find _ _
      obtain ⟨parts, hZs, hParts, hRest⟩ := ih hNext hPath.2 fun w' z' hReach' hLog' =>
        hFound w' z' hReach' (hLog'.trans hLog)
      rw [Machine.guarded_apply] at hRest
      have hFirst := hFound w z hReach rfl hPath.1
      obtain ⟨first, hIs⟩ : ∃ first, found family dist geoip env z w = first := ⟨_, rfl⟩
      rw [hIs] at hFirst
      refine ⟨(z, first) :: parts, ?_, ?_, ?_⟩
      · rw [List.map_cons, hZs]
      · intro part hPart
        rcases List.mem_cons.1 hPart with rfl | hPart
        · exact hFirst
        · exact hParts part hPart
      · rw [findAll, hRest, hIs, List.flatMap_cons]

end

/-! ## The answers -/

theorem mem_unrepeated {already : OrdSet Addr} {sv : List Addr} {a : Addr} :
    a ∈ unrepeated already sv ↔ a ∈ sv ∧ a ∉ already := by
  induction sv generalizing already with
  | nil => simp [unrepeated]
  | cons z sv ih =>
      rw [unrepeated]
      split
      · rename_i hOld
        rw [ih, List.mem_cons]
        refine ⟨fun h => ⟨Or.inr h.1, h.2⟩, fun h => ⟨h.1.resolve_left ?_, h.2⟩⟩
        rintro rfl
        exact h.2 hOld
      · rename_i hNew
        rw [List.mem_cons, ih, OrdSet.mem_insert, List.mem_cons, not_or]
        by_cases hSame : a = z
        · simp [hSame, hNew]
        · simp [hSame]

theorem nodup_unrepeated (already : OrdSet Addr) (sv : List Addr) :
    (unrepeated already sv).Nodup := by
  induction sv generalizing already with
  | nil => exact List.nodup_nil
  | cons z sv ih =>
      rw [unrepeated]
      split
      · exact ih _
      · refine List.nodup_cons.2 ⟨fun hz => ?_, ih _⟩
        exact (mem_unrepeated.1 hz).2 (OrdSet.mem_insert.2 (Or.inl rfl))

section

variable {family : Addr → ℤ} {dist : Int64 → Int64 → Int64 → Int64 → ℤ}
  {geoip : Addr → Option (Int64 × Int64)} {g : World Addr → Act Addr → Prop} {s : Service Addr}
  {c : Call Addr} {addrs : OrdSet Addr} {route : RouteT} {r : Reply Addr}

omit [LinearOrder Addr] in
/-- An answer goes where the request came from. -/
theorem reply_iff {sv : List Addr} {toplinkRoute : RouteT} :
    (do return some ⟨sv, route, ← poppedFrontRoute toplinkRoute⟩ :
      Except CommonError (Option (Reply Addr))) = .ok (some r) ↔
      (∃ x, toplinkRoute = x :: r.toplinkRoute) ∧ r.route = route ∧ r.referrerAddresses = sv := by
  obtain ⟨addresses, route', rest'⟩ := r
  cases toplinkRoute with
  | nil => exact iff_of_false nofun (by simp)
  | cons x rest =>
      show (Except.ok (some (⟨sv, route, rest⟩ : Reply Addr)) : Except CommonError _) = _ ↔ _
      rw [Except.ok.injEq, Option.some.injEq, Reply.mk.injEq]
      constructor
      · rintro ⟨rfl, rfl, rfl⟩
        exact ⟨⟨x, rfl⟩, rfl, rfl⟩
      · rintro ⟨⟨x', hRoute⟩, rfl, rfl⟩
        exact ⟨rfl, rfl, (List.cons.inj hRoute).2⟩

/-- A query is answered if it has an address, and came by a route. -/
theorem getReferrers_reply (hEvent : c.event = some (.getReferrersREQ addrs route)) :
    (onToplinkDeliverREQ family dist geoip c s).2 = .ok (some r) ↔
      addrs ≠ ∅ ∧ (∃ x, c.route = x :: r.toplinkRoute) ∧ r.route = route ∧
        r.referrerAddresses = unrepeated ∅
          (findAll family dist geoip c.env addrs.toList s.referrerNodes).2 := by
  rw [onToplinkDeliverREQ, hEvent]
  dsimp only
  rw [onGetReferrersREQ]
  by_cases hEmpty : addrs = ∅
  · rw [if_pos hEmpty]
    exact iff_of_false nofun fun h => h.1 hEmpty
  · rw [if_neg hEmpty, and_iff_right hEmpty]
    exact reply_iff

theorem getCloudRoots_reply (hEvent : c.event = some (.getCloudRootsREQ addrs route)) :
    (onToplinkDeliverREQ family dist geoip c s).2 = .ok (some r) ↔
      addrs ≠ ∅ ∧ (∃ x, c.route = x :: r.toplinkRoute) ∧ r.route = route ∧
        r.referrerAddresses =
          (findAll family dist geoip c.env addrs.toList s.cloudRoots).2 := by
  rw [onToplinkDeliverREQ, hEvent]
  dsimp only
  rw [onGetCloudRootsREQ]
  by_cases hEmpty : addrs = ∅
  · rw [if_pos hEmpty]
    exact iff_of_false nofun fun h => h.1 hEmpty
  · rw [if_neg hEmpty, and_iff_right hEmpty]
    exact reply_iff

/-- What is given for an address by a table with this log. -/
structure Part (family : Addr → ℤ) (log : List (Entry Addr)) (now : ℕ) (z : Addr)
    (found : List Addr) : Prop where
  nodup : found.Nodup
  registered : ∀ a ∈ found, family a = family z ∧ Registered log now a

theorem part_found {w w' : World Addr} {env : Env Addr} {z : Addr}
    (hReach : ((machine family dist).guarded g).Reachable w') (hLog : w'.log = w.log)
    (hEn : ((machine family dist).guarded g).enabled w' (findAct family geoip env z)) :
    Part family w.log (env.time z 0) z (found family dist geoip env z w') := by
  obtain ⟨hNodup, hRegistered⟩ := found_registered geoip hReach.of_guarded (z := z) hEn.1.1
  rw [hLog] at hRegistered
  exact ⟨hNodup, hRegistered⟩

end

/-! ### A query an hour later -/

/-- A request of addresses of one family that no table knows. -/
def anHourLater (event : DfsCapsEvent ℕ) (time : ℕ) (p : Ptr) : Call ℕ where
  event := some event
  route := [.listener 1]
  env := ⟨fun _ _ => time, fun _ => (p, p + 1)⟩

/-- The address `7` registers, as a node and as a root. -/
def sevenCalls : List (Call ℕ) :=
  [anHourLater (.registerMyRefferrerNodeREQ (OrdSet.ofList [7]) 9 0) 3000 0,
    anHourLater (.registerCloudRoot (OrdSet.ofList [7]) 9) 3000 0]

def afterSeven : Service ℕ :=
  (service (fun _ => 2) (fun _ _ _ _ => 0) (fun _ => none) Steady).exec
    ⟨⟨CapsAlgorithm.construct, 0, []⟩, ⟨CapsAlgorithm.construct, 0, []⟩⟩ sevenCalls

theorem reachable_afterSeven :
    (service (fun _ : ℕ => 2) (fun _ _ _ _ => 0) (fun _ => none) Steady).Reachable afterSeven := by
  have hFree : ∀ p : Ptr, (CapsAlgorithm.construct : CapsAlgorithm ℕ).Unused p := fun _ _ _ => rfl
  have hAdd : ((machine (fun _ : ℕ => 2) fun _ _ _ _ => 0).guarded Steady).Path
      ⟨CapsAlgorithm.construct, 0, []⟩
      [addAct (fun _ => none) ⟨fun _ _ => 3000, fun _ => (0, 1)⟩ 0 9 7] :=
    ⟨⟨⟨monotone_const, Nat.zero_le _, hFree 0, hFree 1, by decide⟩, fun _ => rfl⟩, trivial⟩
  exact ⟨_, sevenCalls, rfl, ⟨⟨hAdd, trivial⟩, ⟨trivial, hAdd⟩, trivial⟩, rfl⟩

/-- A query for two of them. -/
theorem enabled_anHourLater {event : DfsCapsEvent ℕ} (route : RouteT)
    (hEvent : event = .getReferrersREQ (OrdSet.ofList [5, 6]) route ∨
      event = .getCloudRootsREQ (OrdSet.ofList [5, 6]) route) :
    (service (fun _ : ℕ => 2) (fun _ _ _ _ => 0) (fun _ => none) Steady).enabled afterSeven
      (anHourLater event 4000 2) := by
  have hFind : ∀ w : World ℕ, w.clock ≤ 4000 →
      ((machine (fun _ : ℕ => 2) fun _ _ _ _ => 0).guarded Steady).Path w
        ((OrdSet.ofList [5, 6]).toList.map (findAct (fun _ => 2) (fun _ => none)
          ⟨fun _ _ => 4000, fun _ => (2, 3)⟩)) := fun w hClock =>
    ⟨⟨⟨monotone_const, hClock, trivial⟩, fun _ => rfl⟩,
      ⟨⟨monotone_const, Nat.le_refl 4000, trivial⟩, fun _ => rfl⟩, trivial⟩
  rcases hEvent with rfl | rfl
  · exact ⟨hFind _ (by decide), trivial⟩
  · exact ⟨trivial, hFind _ (by decide)⟩

/-! ## Who is in an answer -/

section

variable {family : Addr → ℤ} {dist : Int64 → Int64 → Int64 → Int64 → ℤ}
  {geoip : Addr → Option (Int64 × Int64)} {g : World Addr → Act Addr → Prop} {s : Service Addr}
  {c : Call Addr} {addrs : OrdSet Addr} {route : RouteT} {r : Reply Addr}

/-- In the answer about the referrer nodes no address is twice. All are of the families
asked for, and have registered in the hour of the query or in the one before. -/
theorem getReferrers_sound (hReach : (service family dist geoip g).Reachable s)
    (hEn : (service family dist geoip g).enabled s c)
    (hEvent : c.event = some (.getReferrersREQ addrs route))
    (hReply : (onToplinkDeliverREQ family dist geoip c s).2 = .ok (some r)) :
    r.referrerAddresses.Nodup ∧ ∀ a ∈ r.referrerAddresses, ∃ z ∈ addrs, family a = family z ∧
      Registered s.referrerNodes.log (c.env.time z 0) a := by
  obtain ⟨-, -, -, hAnswer⟩ := (getReferrers_reply hEvent).1 hReply
  have hPath := hEn.1
  rw [Call.acts, hEvent] at hPath
  obtain ⟨parts, hZs, hParts, hAll⟩ := findAll_snd (reachable_tables hReach).1 hPath
    fun w' z hReach' hLog hEn' => part_found hReach' hLog hEn'
  rw [hAnswer, hAll]
  refine ⟨nodup_unrepeated _ _, fun a ha => ?_⟩
  obtain ⟨part, hPart, haPart⟩ := List.mem_flatMap.1 (mem_unrepeated.1 ha).1
  have hz : part.1 ∈ addrs.toList := hZs ▸ List.mem_map_of_mem hPart
  exact ⟨part.1, hz, (hParts part hPart).registered a haPart⟩

theorem getReferrers_sound_seven :
    [7].Nodup ∧ ∀ a ∈ [7], ∃ z ∈ (OrdSet.ofList [5, 6] : OrdSet ℕ), (2 : ℤ) = 2 ∧
      Registered afterSeven.referrerNodes.log 4000 a :=
  getReferrers_sound (r := ⟨[7], [], []⟩) reachable_afterSeven (enabled_anHourLater [] (.inl rfl))
    rfl rfl

/-- What is given where the clock stands still in a call. -/
def Given (family : Addr → ℤ) (log : List (Entry Addr)) (env : Env Addr) (z : Addr)
    (found : List Addr) : Prop :=
  Part family log (env.time z 0) z found ∧
    ((∀ a, family a = family z → Registered log (env.time z 0) a → a ∈ found) ∨
      found.length = maxReferrersCountInResponse + 1)

theorem given_found {w w' : World Addr} {env : Env Addr} {z : Addr}
    (hReach : ((machine family dist).guarded Steady).Reachable w') (hLog : w'.log = w.log)
    (hEn : ((machine family dist).guarded Steady).enabled w' (findAct family geoip env z)) :
    Given family w.log env z (found family dist geoip env z w') := by
  have hFound := found_all geoip hReach hEn.1.2.1 hEn.2
  rw [hLog] at hFound
  exact ⟨part_found hReach hLog hEn, hFound⟩

/-- How often an address is in an answer, by how often it is in the parts. -/
theorem count_parts {parts : List (Addr × List Addr)} {log : List (Entry Addr)} (time : Addr → ℕ)
    (a : Addr) (hParts : ∀ part ∈ parts, Part family log (time part.1) part.1 part.2) :
    (parts.flatMap Prod.snd).count a ≤
        (parts.map Prod.fst).countP (fun z => decide (family a = family z)) ∧
      ((∀ part ∈ parts, family a = family part.1 → a ∈ part.2) →
        (parts.flatMap Prod.snd).count a =
          (parts.map Prod.fst).countP fun z => decide (family a = family z)) := by
  induction parts with
  | nil => exact ⟨Nat.le_refl 0, fun _ => rfl⟩
  | cons part parts ih =>
      obtain ⟨hFirst, hRest⟩ := List.forall_mem_cons.1 hParts
      obtain ⟨hLe, hEq⟩ := ih hRest
      rw [List.flatMap_cons, List.count_append, List.map_cons]
      by_cases hFamily : family a = family part.1
      · have hOnce := List.nodup_iff_count_le_one.1 hFirst.nodup a
        rw [List.countP_cons_of_pos (by simpa using hFamily)]
        refine ⟨by omega, fun hAll => ?_⟩
        have hIn := List.count_eq_one_of_mem hFirst.nodup (hAll part List.mem_cons_self hFamily)
        rw [hIn, hEq fun part' hPart => hAll part' (List.mem_cons_of_mem _ hPart), Nat.add_comm]
      · have hNone : part.2.count a = 0 := List.count_eq_zero_of_not_mem fun ha =>
          hFamily (hFirst.registered a ha).1
        rw [List.countP_cons_of_neg (by simpa using hFamily), hNone, Nat.zero_add]
        exact ⟨hLe, fun hAll => hEq fun part' hPart => hAll part' (List.mem_cons_of_mem _ hPart)⟩

/-- No more addresses of a family have registered than are given. -/
def Few (family : Addr → ℤ) (log : List (Entry Addr)) (now : ℕ) (af : ℤ) : Prop :=
  ∃ l : List Addr, l.length ≤ maxReferrersCountInResponse + 1 ∧
    ∀ a, family a = af → Registered log now a → a ∈ l

omit [LinearOrder Addr] in
/-- Where they are few, all are given. -/
theorem Part.mem {log : List (Entry Addr)} {now : ℕ} {z a : Addr} {found : List Addr}
    (h : Part family log now z found) (hFew : Few family log now (family z))
    (hFound : (∀ a, family a = family z → Registered log now a → a ∈ found) ∨
      found.length = maxReferrersCountInResponse + 1) (hFamily : family a = family z)
    (ha : Registered log now a) : a ∈ found := by
  rcases hFound with hAll | hMany
  · exact hAll a hFamily ha
  · obtain ⟨l, hLength, hl⟩ := hFew
    have hSubset : found ⊆ l := fun b hb => hl b (h.registered b hb).1 (h.registered b hb).2
    have hPerm := (List.subperm_of_subset h.nodup hSubset).perm_of_length_le (hMany ▸ hLength)
    exact hPerm.mem_iff.2 (hl a hFamily ha)

/-- In the answer about the cloud roots an address is at most once for each address of its
family that was asked for, and where it has registered and they are few, exactly as often. -/
theorem getCloudRoots_count (hReach : (service family dist geoip Steady).Reachable s)
    (hEn : (service family dist geoip Steady).enabled s c)
    (hEvent : c.event = some (.getCloudRootsREQ addrs route))
    (hReply : (onToplinkDeliverREQ family dist geoip c s).2 = .ok (some r)) (a : Addr) :
    r.referrerAddresses.count a ≤ addrs.toList.countP (fun z => decide (family a = family z)) ∧
      (a ∈ r.referrerAddresses → ∃ z ∈ addrs, family a = family z ∧
        Registered s.cloudRoots.log (c.env.time z 0) a) ∧
      ((∀ z ∈ addrs, family a = family z → Registered s.cloudRoots.log (c.env.time z 0) a ∧
          Few family s.cloudRoots.log (c.env.time z 0) (family z)) →
        r.referrerAddresses.count a =
          addrs.toList.countP fun z => decide (family a = family z)) := by
  obtain ⟨-, -, -, hAnswer⟩ := (getCloudRoots_reply hEvent).1 hReply
  have hPath := hEn.2
  rw [Call.acts, hEvent] at hPath
  obtain ⟨parts, hZs, hParts, hAll⟩ := findAll_snd (reachable_tables hReach).2 hPath
    (P := Given family s.cloudRoots.log c.env) fun w' z hReach' hLog hEn' =>
      given_found hReach' hLog hEn'
  have hIn : ∀ part ∈ parts, part.1 ∈ addrs := fun part hPart => by
    rw [← OrdSet.mem_toList, ← hZs]
    exact List.mem_map_of_mem hPart
  obtain ⟨hLe, hEq⟩ := count_parts (fun z => c.env.time z 0) a
    fun part hPart => (hParts part hPart).1
  rw [hAnswer, hAll, ← hZs]
  refine ⟨hLe, fun ha => ?_, fun hRegistered => hEq fun part hPart hFamily => ?_⟩
  · obtain ⟨part, hPart, haPart⟩ := List.mem_flatMap.1 ha
    exact ⟨part.1, hIn part hPart, (hParts part hPart).1.registered a haPart⟩
  · obtain ⟨hOf, hFound⟩ := hParts part hPart
    obtain ⟨ha, hFew⟩ := hRegistered part.1 (hIn part hPart) hFamily
    exact hOf.mem hFew hFound hFamily ha

theorem getCloudRoots_count_seven :
    [7, 7].count 7 ≤ (OrdSet.ofList [5, 6]).toList.countP (fun _ => decide ((2 : ℤ) = 2)) ∧
      (7 ∈ [7, 7] → ∃ z ∈ (OrdSet.ofList [5, 6] : OrdSet ℕ), (2 : ℤ) = 2 ∧
        Registered afterSeven.cloudRoots.log 4000 7) ∧
      ((∀ z ∈ (OrdSet.ofList [5, 6] : OrdSet ℕ), (2 : ℤ) = 2 →
          Registered afterSeven.cloudRoots.log 4000 7 ∧
            Few (fun _ => 2) afterSeven.cloudRoots.log 4000 2) →
        [7, 7].count 7 = (OrdSet.ofList [5, 6]).toList.countP fun _ => decide ((2 : ℤ) = 2)) :=
  getCloudRoots_count (r := ⟨[7, 7], [], []⟩) reachable_afterSeven
    (enabled_anHourLater [] (.inr rfl)) rfl rfl 7

end

end Megatron.DfsCaps
