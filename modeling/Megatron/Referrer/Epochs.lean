import Megatron.Referrer.Run

/-!
# Answers to an earlier procedure

Every start of the procedure takes a new `connection_sequence_id`, which pings
and alarms carry and pongs and ticks bring back.  The answer to a
`GetReferrersREQ` carries none: `handleEvent` looks at the stage instead, so an
answer to an earlier procedure that comes while the present one is in D3 is
taken for the present one's.

## Main results

* `Effect.numbered` — pings and alarms carry the number in force.
* `stale_changes_nothing` — a late answer changes nothing and sends nothing, if
  and only if it is not a `GetReferrersRSP` in D3.
* `late_answer_taken` — a run where it is one.
-/

namespace Megatron.Referrer

open Megatron.Corelib Megatron.Lib

variable {Addr : Type} [LinearOrder Addr]

/-! ## The number in force -/

/-- The number that comes back with the answer. -/
def Sent.number? : Sent Addr → Option Int
  | .ping _ e => some e.connectionSequenceId
  | .resetAlarm _ cookie => some cookie
  | _ => none

/-- Every number among what is sent is `n`. -/
def Numbered (n : Int) (out : List (Sent Addr)) : Prop :=
  ∀ x ∈ out, ∀ c, x.number? = some c → c = n

section Numbered

variable {n : Int}

@[simp] theorem numbered_nil : Numbered n ([] : List (Sent Addr)) := by
  simp [Numbered]

@[simp] theorem numbered_cons {x : Sent Addr} {out : List (Sent Addr)} :
    Numbered n (x :: out) ↔ (∀ c, x.number? = some c → c = n) ∧ Numbered n out := by
  simp [Numbered]

@[simp] theorem numbered_append {out out' : List (Sent Addr)} :
    Numbered n (out ++ out') ↔ Numbered n out ∧ Numbered n out' := by
  simp only [Numbered, List.forall_mem_append]

@[simp] theorem numbered_map {α : Type} {f : α → Sent Addr} {l : List α} :
    Numbered n (l.map f) ↔ ∀ a ∈ l, ∀ c, (f a).number? = some c → c = n := by
  simp [Numbered]

theorem numbered_of_starting {out : List (Sent Addr)} (h : ∀ x ∈ out, Rd.IsStarting n x) :
    Numbered n out := by
  intro x hx c hc
  cases h x hx with
  | ping sa e hNumber => exact (Option.some.inj hc).symm.trans hNumber
  | _ => exact (Option.some.inj hc).symm

variable (inst : Instance Addr) (now : Int) (rd : Rd Addr)

@[simp] theorem numbered_notifyAll (note : Notify Addr) : Numbered n (rd.notifyAll note) := by
  simp [Rd.notifyAll, Sent.number?]

theorem numbered_stageD2PingNeighboursStart :
    Numbered (rd.stageD2PingNeighboursStart inst now).1.connectionSequenceId
      (rd.stageD2PingNeighboursStart inst now).2 := by
  obtain ⟨stage, neighbours, -, hRd⟩ := Rd.fst_stageD2PingNeighboursStart inst now rd
  rw [hRd]
  exact numbered_of_starting (Rd.snd_stageD2PingNeighboursStart inst now rd)

theorem numbered_registerReferrer (sa : Addr) :
    Numbered rd.connectionSequenceId (rd.registerReferrer inst sa) := by
  simp only [Rd.registerReferrer, Rd.sendToplinkReq, Rd.resetAlarm]
  split <;> simp [Sent.number?]

theorem numbered_d4UplinkMode (esi : Esi Addr) :
    Numbered rd.connectionSequenceId (rd.d4UplinkMode inst now esi).2 := by
  rw [Rd.snd_d4UplinkMode]
  simp [Rd.cleanup, Rd.sendPing, Rd.resetAlarm, Sent.number?,
    numbered_registerReferrer inst rd esi.remoteName]

end Numbered

/-- **Pings and alarms carry the number in force** after the turn. -/
theorem Effect.numbered {inst : Instance Addr} {now : Int} {rd : Rd Addr} {i : Input Addr}
    {t : Turn Addr} (h : Effect inst now rd i t) : Numbered t.1.connectionSequenceId t.2 := by
  cases h with
  | idle => exact numbered_nil
  | waitOn => simp [Rd.resetAlarm, Sent.number?]
  | nobody => simp [Rd.resetAlarm, Sent.number?]
  | chosen hSel =>
      refine numbered_append.2 ⟨?_, numbered_d4UplinkMode inst now rd _⟩
      cases hSel <;> simp [Rd.fst_d4UplinkMode, Rd.resetAlarm, Sent.number?]
  | pingReferrers => simp [Rd.sendPing, Rd.resetAlarm, Sent.number?]
  | timedOut => exact numbered_stageD2PingNeighboursStart inst now rd
  | pongTimedOut =>
      simp [numbered_stageD2PingNeighboursStart inst now rd, Sent.number?]
  | lost =>
      refine numbered_append.2 ⟨numbered_append.2 ⟨numbered_notifyAll rd _, ?_⟩,
        numbered_stageD2PingNeighboursStart inst now _⟩
      intro x hx c hc
      obtain ⟨z, -, hx⟩ := List.mem_flatMap.1 hx
      rcases List.mem_cons.1 hx with rfl | hx
      · cases hc
      · exact numbered_notifyAll rd _ x hx c hc
  | noNeighbour =>
      exact numbered_of_starting (Rd.snd_stageD21PingCapsStart inst now rd)
  | resendShort => simp [Rd.sendPing, Rd.resetAlarm, Sent.number?]
  | resendLong => simp [Rd.sendPing, Sent.number?]
  | reregister => exact numbered_registerReferrer inst rd _
  | noUplink => simp [Sent.number?]
  | dropped => exact numbered_notifyAll rd _
  | pongAtTop => simp [Sent.number?]
  | pongNoted e esi hAcc hOut =>
      rcases hOut with rfl | ⟨what, rfl⟩ <;> simp [Sent.number?]
  | pongShort e esi =>
      simp [Rd.d6OnPongPtCapsShort, Rd.resetAlarm, Sent.number?, Rd.afterPong, Rd.pongLearnt,
        Rd.pongReceived]
  | pongLong e esi =>
      simp [Rd.d6OnPongPtCapsLong, Rd.resetAlarm, Sent.number?, Rd.afterPong, Rd.pongLearnt,
        Rd.pongReceived]
  | pongAsked e esi =>
      rw [Rd.fst_stageD3GetReferrersStart]
      simp only [Rd.stageD3GetReferrersStart, Rd.sendToplinkReq, Rd.resetAlarm]
      split
      · simp [Sent.number?]
      · split <;> simp [Sent.number?]
  | pongChosen e esi =>
      refine numbered_cons.2 ⟨by simp [Sent.number?], ?_⟩
      exact numbered_d4UplinkMode inst now (rd.afterPong inst now e esi) _
  | pinged e route esi mId =>
      simp only [Rd.onIncomingOnAcceptor, Rd.onPing, Rd.sendPong, Rd.resetAlarm]
      split_ifs <;> simp [Sent.number?]
  | subscribed route =>
      simp only [Rd.onSubscribeNotifications]
      split <;> simp [Sent.number?]
  | updateREQ bod => simp [Rd.onUpdateConfigREQ, Rd.updateDownlinks, Sent.number?]
  | updateRSP bod => simp [Rd.onUpdateConfigRSP, Rd.updateDownlinks, Sent.number?]

/-- A pong brings back the number of the ping it answers. -/
theorem pong_number {inst : Instance Addr} {rd : Rd Addr} {e : Ping Addr} {route : BackRoute}
    {esi : Esi Addr} {mId : SocketId} {r : RouteT} {answer : Pong Addr}
    (h : .pong r answer ∈ (rd.onIncomingOnAcceptor inst e route esi mId).2) :
    answer.connectionSequenceId = e.connectionSequenceId := by
  simp only [Rd.onIncomingOnAcceptor, Rd.onPing, Rd.sendPong, Rd.resetAlarm] at h
  split_ifs at h <;> simp at h <;> exact h.2 ▸ rfl

/-! ## Late answers -/

/-- `i` answers a ping, an alarm or a request of an earlier number. -/
def Input.Stale (rd : Rd Addr) : Input Addr → Prop
  | .pong e _ => e.connectionSequenceId < rd.connectionSequenceId
  | .tickAlarm _ cookie => cookie < rd.connectionSequenceId
  | .getReferrersRSP issued _ => issued < rd.connectionSequenceId
  | _ => False

instance Input.decidableStale (rd : Rd Addr) : ∀ i : Input Addr, Decidable (i.Stale rd)
  | .pong e _ => inferInstanceAs (Decidable (e.connectionSequenceId < rd.connectionSequenceId))
  | .tickAlarm _ cookie => inferInstanceAs (Decidable (cookie < rd.connectionSequenceId))
  | .getReferrersRSP issued _ => inferInstanceAs (Decidable (issued < rd.connectionSequenceId))
  | .connected _ | .connectFailed _ | .disconnected _ | .disaccepted _ | .ping _ _ _ _
  | .subscribeNotifications _ | .updateConfigREQ _ | .updateConfigRSP _ => .isFalse id

/-- The answer of the top server comes while one is waited for. -/
def Input.AwaitedRSP (rd : Rd Addr) : Input Addr → Prop
  | .getReferrersRSP _ _ => rd.stage = .d3GetReferrers
  | _ => False

/--
**Late answers.** Whatever the stage and however many restarts ago, the answer
to an earlier procedure leaves all data of the service as they are and sends
nothing, if and only if it is not the answer the present stage waits for.
-/
theorem stale_changes_nothing (inst : Instance Addr) {s : State Addr} {i : Input Addr}
    {queue : List (Input Addr)} (hQueue : s.queue = i :: queue) (hStale : i.Stale s.rd)
    (now : Int) :
    (((machine inst).apply s (.handle now)).rd = s.rd ∧
        ((machine inst).apply s (.handle now)).trace = s.trace) ↔
      ¬ i.AwaitedRSP s.rd := by
  have hApply : (machine inst).apply s (.handle now) = s.turn inst now i queue := by
    simp [machine, State.apply, hQueue]
  rw [hApply]
  have hNothing : s.rd.handleEvent inst now i = (s.rd, []) →
      (s.turn inst now i queue).rd = s.rd ∧ (s.turn inst now i queue).trace = s.trace := by
    intro h
    simp [State.turn, h]
  cases i with
  | pong e esi =>
      have hOld : ¬ s.rd.Accepts inst e := fun h => absurd hStale (not_lt.2 (le_of_eq h.2.symm))
      refine ⟨fun _ => id, fun _ => hNothing ?_⟩
      simp [Rd.handleEvent, Rd.onPong, hOld]
  | tickAlarm tid cookie =>
      have hOld : cookie ≠ s.rd.connectionSequenceId := ne_of_lt hStale
      refine ⟨fun _ => id, fun _ => hNothing ?_⟩
      simp [Rd.handleEvent, Rd.onTickAlarm, hOld]
  | getReferrersRSP issued addrs =>
      constructor
      · intro hSame hStage
        have hSent : (s.rd.handleEvent inst now (.getReferrersRSP issued addrs)).2 = [] := by
          simpa [State.turn] using hSame.2
        have hStop : .stopAlarm .t002D3CapsGetServiceRequestIsTimedOut ∈
            (s.rd.handleEvent inst now (.getReferrersRSP issued addrs)).2 := by
          have hD3 : s.rd.stage = .d3GetReferrers := hStage
          simp only [Rd.handleEvent, Rd.onGetReferrersRSP, hD3, ne_eq, not_true_eq_false,
            if_false]
          split
          · split <;> simp
          · simp
        rw [hSent] at hStop
        cases hStop
      · intro hStage
        refine hNothing ?_
        have hOther : s.rd.stage ≠ .d3GetReferrers := hStage
        simp [Rd.handleEvent, Rd.onGetReferrersRSP, hOther]
  | _ => exact hStale.elim

/-! ## Examples -/

/-- The top server pongs and is asked for referrers; T_001 starts the procedure
again, T_040 ends D2, and the top server is asked a second time. -/
def asksTwice : List (Action Nat) :=
  [.arrive (pongFrom .ptCached 0 9 0 0 1), .handle 1] ++ List.replicate 4 (.timer .handle) ++
    [.timer (.fire 0), .timer .pass, .handle 21] ++ List.replicate 2 (.timer .handle) ++
    [.timer (.fire 0), .timer .pass, .handle 23, .arrive (pongFrom .ptCached 0 9 0 23 2), .handle 24]

/-- A pong of the first procedure that comes now is ignored. -/
theorem asksTwice_ignores_pong :
    let s := (machine oneCaps).exec (started oneCaps 0 fresh)
      (asksTwice ++ [.arrive (pongFrom .ptCached 0 9 0 0 1)])
    ((machine oneCaps).apply s (.handle 25)).rd = s.rd ∧
      ((machine oneCaps).apply s (.handle 25)).trace = s.trace :=
  (stale_changes_nothing oneCaps
    (show _ = pongFrom .ptCached 0 9 0 0 1 :: [] by decide) (by decide) 25).2 id

/-- The answer to the first request is taken for the answer to the second: it
makes the top server the uplink. -/
theorem late_answer_taken : ∃ s, (machine oneCaps).Reachable s ∧
    s.queue = [.getReferrersRSP 1 []] ∧ Input.Stale s.rd (.getReferrersRSP 1 []) ∧
    ((machine oneCaps).apply s (.handle 25)).rd ≠ s.rd ∧
    ((machine oneCaps).apply s (.handle 25)).trace ≠ s.trace := by
  refine ⟨(machine oneCaps).exec (started oneCaps 0 fresh)
    (asksTwice ++ [.arrive (.getReferrersRSP 1 [])]), ⟨_, _, init_started, ?_, rfl⟩,
    ?_, ?_, ?_, ?_⟩
  · decide
  · decide
  · decide
  · intro h
    exact absurd (congrArg Rd.stage h) (by decide)
  · decide

end Megatron.Referrer
