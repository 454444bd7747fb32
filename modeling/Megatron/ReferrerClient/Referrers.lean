import Megatron.ReferrerClient.Service

/-!
# Referrers given to a client

`GetReferrersRSP` in D3 names the referrers to try.  The node pings each of
them; the client copies nothing into the vector its loop goes over.

## Main results

* `referrers_not_tried` — on no answer that names a referrer does the client
  ping each of them; a node does on every one without repetitions.
* `client_pings_nobody` — the client pings nobody at all.
* `first_referrer_dropped` — the smallest case.
-/

namespace Megatron.ReferrerClient

open Megatron.Lib
open Megatron.Referrer (Ping PingType)

variable {Addr : Type} [LinearOrder Addr]

/-! ## The pings of a turn -/

/-- A ping of a client, with the address it goes to. -/
def Sent.ping? : Sent Addr → Option (Addr × Ping Addr)
  | .ping sa e => some (sa, e)
  | _ => none

/-- A ping of a node, with the address it goes to. -/
def nodePing? : Referrer.Sent Addr → Option (Addr × Ping Addr)
  | .ping sa e => some (sa, e)
  | _ => none

/-- The addresses that are sent a `PT_CACHED` with this id. -/
def cachedFor (connectionSequenceId : Int) (pings : List (Addr × Ping Addr)) : List Addr :=
  (pings.filter fun p =>
    p.2.pingType = .ptCached ∧ p.2.connectionSequenceId = connectionSequenceId).map (·.1)

/-- Every address is sent one such ping. -/
def TriesEach (connectionSequenceId : Int) (referrerAddresses : List Addr)
    (pings : List (Addr × Ping Addr)) : Prop :=
  ∀ sa ∈ referrerAddresses, (cachedFor connectionSequenceId pings).count sa = 1

/-- A walk over addresses without repetitions. -/
theorem triesEach_walk {csid : Int} {addresses : List Addr} (hNodup : addresses.Nodup)
    {ping : Addr → Ping Addr}
    (hPing : ∀ sa, (ping sa).pingType = .ptCached ∧ (ping sa).connectionSequenceId = csid) :
    TriesEach csid addresses (addresses.map fun sa => (sa, ping sa)) := by
  have hCached : cachedFor csid (addresses.map fun sa => (sa, ping sa)) = addresses := by
    rw [cachedFor, List.filter_eq_self.2]
    · simp [Function.comp_def]
    · intro p hp
      obtain ⟨sa, -, rfl⟩ := List.mem_map.1 hp
      simpa using hPing sa
  intro sa hMem
  rw [hCached]
  exact List.count_eq_one_of_mem hNodup hMem

/-! ## The two copies -/

/-- What the client does with an answer that names somebody. -/
theorem sent_getReferrersRSP (inst : Instance Addr) (now : Int) {s : Client Addr}
    (hStage : s.stage = .d3GetReferrers) {addresses : List Addr} (hSome : addresses ≠ []) :
    (s.handleEvent inst now (.getReferrersRSP addresses)).sent =
      [.stopAlarm .t002D3CapsGetServiceRequestIsTimedOut,
        s.resetAlarm .t001CommonConnectFailed, s.resetAlarm .t020D31WaitAfterSendPtCache] := by
  simp [Client.handleEvent, Client.onGetReferrersRSP, hStage, hSome, Turn.after]

theorem client_pings_nobody (inst : Instance Addr) (now : Int) {s : Client Addr}
    (hStage : s.stage = .d3GetReferrers) {addresses : List Addr} (hSome : addresses ≠ []) :
    (s.handleEvent inst now (.getReferrersRSP addresses)).sent.filterMap Sent.ping? = [] := by
  rw [sent_getReferrersRSP inst now hStage hSome]
  rfl

/-- Nobody tried is not everybody tried. -/
theorem not_triesEach_nil {csid : Int} {addresses : List Addr} (hSome : addresses ≠ []) :
    ¬ TriesEach csid addresses [] := by
  intro h
  obtain ⟨sa, hMem⟩ := List.exists_mem_of_ne_nil addresses hSome
  have hOne := h sa hMem
  simp [cachedFor] at hOne

/-- The ping a node sends to each address. -/
def nodeCached (inst : Referrer.Instance Addr) (now : Int) (rd : Referrer.Rd Addr) :
    Ping Addr where
  pingType := .ptCached
  globalCookieOfSender := inst.globalCookie
  externalListenPort := inst.rpcExternalListenPortMain
  internalListenAddr := inst.rpcInternalListenAddrs
  pingTime := now
  connectionSequenceId := rd.connectionSequenceId
  clientType := .ctNode

/-- The node walks over the answer itself. -/
theorem node_pings (inst : Referrer.Instance Addr) (now : Int) {rd : Referrer.Rd Addr}
    (hStage : rd.stage = .d3GetReferrers) {addresses : List Addr} (hSome : addresses ≠ [])
    (issued : Int) :
    (rd.handleEvent inst now (.getReferrersRSP issued addresses)).2.filterMap nodePing? =
      addresses.map fun sa => (sa, nodeCached inst now rd) := by
  have hWalk : (addresses.map fun sa => rd.sendPing inst now sa .ptCached).filterMap nodePing? =
      addresses.map fun sa => (sa, nodeCached inst now rd) := by
    rw [List.filterMap_map, ← List.filterMap_eq_map]
    rfl
  simp only [Referrer.Rd.handleEvent, Referrer.Rd.onGetReferrersRSP, hStage, hSome,
    ne_eq, not_true_eq_false, if_false, List.filterMap_append, hWalk]
  -- the alarms around the walk are no pings
  exact List.append_nil _

/--
**Referrers that are not tried.** Whatever its data, a client in D3 that is
given referrers does not ping each of them once under its current id. A node in
the same place does.
-/
theorem referrers_not_tried (inst : Instance Addr) (now : Int) {s : Client Addr}
    (hStage : s.stage = .d3GetReferrers) {addresses : List Addr} (hSome : addresses ≠ []) :
    ¬ TriesEach s.connectionSequenceId addresses
        ((s.handleEvent inst now (.getReferrersRSP addresses)).sent.filterMap Sent.ping?) ∧
      ∀ (node : Referrer.Instance Addr) (rd : Referrer.Rd Addr) (issued : Int),
        rd.stage = .d3GetReferrers → addresses.Nodup →
          TriesEach rd.connectionSequenceId addresses
            ((rd.handleEvent node now (.getReferrersRSP issued addresses)).2.filterMap
              nodePing?) := by
  constructor
  · rw [client_pings_nobody inst now hStage hSome]
    exact not_triesEach_nil hSome
  · intro node rd issued hRd hNodup
    rw [node_pings node now hRd hSome issued]
    exact triesEach_walk hNodup fun _ => ⟨rfl, rfl⟩

/-- A client in D3, under the id `csid`. -/
def inD3 (csid : Int) : Client Nat where
  uplinkConnectionState := some (.new ∅)
  mReadyNotificationBackroutes := []
  configBod := []
  connectionSequenceId := csid
  neighbours := ∅
  stage := .d3GetReferrers
  myExternalAddresses := (∅ : OrdSet Nat).insert 5

/-- A node in the same place, and its instance. -/
def nodeInD3 (csid : Int) : Referrer.Rd Nat where
  uplinkConnectionState := .new false ∅
  urirefs := []
  mReadyNotificationBackroutes := []
  configBod := []
  connectionSequenceId := csid
  neighbours := ∅
  stage := .d3GetReferrers
  myExternalAddresses := (∅ : OrdSet Nat).insert 5

def oneNode : Referrer.Instance Nat where
  globalCookie := [2]
  rpcExternalListenPortMain := 0
  rpcInternalListenAddrs := ∅
  setPort a _ := a

theorem referrers_not_tried_inD3 :
    ¬ TriesEach 1 [3, 4]
        (((inD3 1).handleEvent oneByte 0 (.getReferrersRSP [3, 4])).sent.filterMap Sent.ping?) ∧
      TriesEach 1 [3, 4]
        (((nodeInD3 1).handleEvent oneNode 0 (.getReferrersRSP 1 [3, 4])).2.filterMap
          nodePing?) := by
  have hTried := referrers_not_tried (s := inD3 1) oneByte 0 rfl (List.cons_ne_nil 3 [4])
  exact ⟨hTried.1, hTried.2 oneNode (nodeInD3 1) 1 rfl (by decide)⟩

/-- The referrer 3 is named and not pinged. -/
theorem first_referrer_dropped :
    ∃ s : Client Nat, s.stage = .d3GetReferrers ∧
      cachedFor s.connectionSequenceId
        ((s.handleEvent oneByte 0 (.getReferrersRSP [3])).sent.filterMap Sent.ping?) = [] ∧
      ¬ TriesEach s.connectionSequenceId [3]
        ((s.handleEvent oneByte 0 (.getReferrersRSP [3])).sent.filterMap Sent.ping?) := by
  refine ⟨inD3 1, rfl, rfl, ?_⟩
  intro h
  exact absurd (h 3 (by simp)) (by decide)

end Megatron.ReferrerClient
