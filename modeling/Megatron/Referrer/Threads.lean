import Megatron.Referrer.Alarms
import Megatron.Timer.Refinement

/-!
# The referrer over the two threads of the timer

In the runs of the referrer the timer is the plain one.  Here it is the service
of the timer with its two threads, which serves other services besides: the
events of the referrer reach it in the order in which they were sent, and the
ticks that the worker passes on come into the queue of the referrer.

## Main results

* `withTimer_reachable` — what the referrer does over the two threads, it does over
  the plain timer.
* `never_stuck_over_threads` — so the procedure does not get stuck there.
-/

namespace Megatron.Referrer

open Megatron.Corelib Megatron.Lib

variable {Addr : Type} [LinearOrder Addr]

/-! ## The alarms as the timer has them -/

/-- The numbers of `refTimer`. -/
def Alarm.tid {Addr : Type} : Alarm Addr → Int32
  | .t001CommonConnectFailed => 1001
  | .t002D3CapsGetServiceRequestIsTimedOut => 1002
  | .t007D6ResendPingCapsShort _ => 1007
  | .t008D6ResendPingCapsLong _ => 1008
  | .t009PongTimedOutCapsLong _ => 1009
  | .t011DownlinkPingTimedOut _ _ => 1011
  | .t012ReregisterReferrer => 1012
  | .t020D31WaitAfterSendPtCache => 1020
  | .t040D2CachePongTimedOutFromNeighbours => 1040

/-- How the alarms are written: the service they are for, the addresses and
sockets in their data, and the numbers in their cookies. -/
structure Encoding (Addr : Type) where
  service : ServiceId
  address : Bytes → Option Addr
  address_inj : ∀ {data data' sa}, address data = some sa → address data' = some sa → data = data'
  downlink : Bytes → Option (SocketId × Addr)
  downlink_inj : ∀ {data data' l}, downlink data = some l → downlink data' = some l → data = data'
  cookie : Bytes → Int

/-- An alarm that comes without data. -/
def bare {Addr : Type} (a : Alarm Addr) (data : Bytes) : Option (Alarm Addr) :=
  if data = [] then some a else none

/-- The alarm that a number and its data stand for. -/
def Encoding.alarm {Addr : Type} (d : Encoding Addr) (tid : Int32) (data : Bytes) :
    Option (Alarm Addr) :=
  if tid = 1001 then bare .t001CommonConnectFailed data
  else if tid = 1002 then bare .t002D3CapsGetServiceRequestIsTimedOut data
  else if tid = 1007 then (d.address data).map .t007D6ResendPingCapsShort
  else if tid = 1008 then (d.address data).map .t008D6ResendPingCapsLong
  else if tid = 1009 then (d.address data).map .t009PongTimedOutCapsLong
  else if tid = 1011 then (d.downlink data).map fun l => .t011DownlinkPingTimedOut l.1 l.2
  else if tid = 1012 then bare .t012ReregisterReferrer data
  else if tid = 1020 then bare .t020D31WaitAfterSendPtCache data
  else if tid = 1040 then bare .t040D2CachePongTimedOutFromNeighbours data
  else none

/-- The data that an alarm comes with. -/
def Encoding.Writes {Addr : Type} (d : Encoding Addr) (data : Bytes) : Alarm Addr → Prop
  | .t007D6ResendPingCapsShort sa | .t008D6ResendPingCapsLong sa
  | .t009PongTimedOutCapsLong sa => d.address data = some sa
  | .t011DownlinkPingTimedOut sid sa => d.downlink data = some (sid, sa)
  | .t001CommonConnectFailed | .t002D3CapsGetServiceRequestIsTimedOut
  | .t012ReregisterReferrer | .t020D31WaitAfterSendPtCache
  | .t040D2CachePongTimedOutFromNeighbours => data = []

omit [LinearOrder Addr] in
theorem bare_eq_some {a b : Alarm Addr} {data : Bytes} (h : bare a data = some b) :
    a = b ∧ data = [] := by
  rw [bare] at h
  split at h
  · rename_i hData
    exact ⟨Option.some.inj h, hData⟩
  · cases h

omit [LinearOrder Addr] in
theorem Encoding.alarm_spec {d : Encoding Addr} {tid : Int32} {data : Bytes} {a : Alarm Addr}
    (h : d.alarm tid data = some a) : a.tid = tid ∧ d.Writes data a := by
  rw [Encoding.alarm] at h
  repeat' split at h
  all_goals first
    | cases h
    | (rename_i hTid
       obtain ⟨rfl, hData⟩ := bare_eq_some h
       exact ⟨hTid.symm, hData⟩)
    | (rename_i hTid
       obtain ⟨x, hData, rfl⟩ := Option.map_eq_some_iff.1 h
       exact ⟨hTid.symm, hData⟩)

omit [LinearOrder Addr] in
theorem Encoding.alarm_inj {d : Encoding Addr} {tid tid' : Int32} {data data' : Bytes}
    {a : Alarm Addr} (h : d.alarm tid data = some a) (h' : d.alarm tid' data' = some a) :
    tid = tid' ∧ data = data' := by
  obtain ⟨hTid, hData⟩ := alarm_spec h
  obtain ⟨hTid', hData'⟩ := alarm_spec h'
  refine ⟨hTid.symm.trans hTid', ?_⟩
  cases a with
  | t007D6ResendPingCapsShort sa => exact d.address_inj hData hData'
  | t008D6ResendPingCapsLong sa => exact d.address_inj hData hData'
  | t009PongTimedOutCapsLong sa => exact d.address_inj hData hData'
  | t011DownlinkPingTimedOut sid sa => exact d.downlink_inj hData hData'
  | _ => exact Eq.trans hData (Eq.symm hData')

/-- The referrer as a client of the timer. -/
def Encoding.client {Addr : Type} (d : Encoding Addr) : Timer.Threads.Client (Alarm Addr) where
  destination := [.localService d.service]
  packable := packable_iff.2 (by simp [Route.type])
  alarm := d.alarm
  alarm_inj := Encoding.alarm_inj
  cookie := d.cookie

/-! ## The referrer over the threads -/

/-- The service, the events it has sent to the timer, the threads of the timer,
the queue of the service, everything sent so far and everything handled so
far. -/
structure Threaded (Addr : Type) [LinearOrder Addr] where
  rd : Rd Addr
  mail : List (Timer.Event (Alarm Addr))
  timer : Timer.Threads.State
  queue : List (Input Addr)
  trace : List (Sent Addr)
  history : List (Handled Addr)

/-- What can happen next. -/
inductive ThreadedAction (Addr : Type) [LinearOrder Addr] where
  | thread (a : Timer.Threads.Action)
  | arrive (i : Input Addr)
  | handle (now : Int)

namespace Threaded

/-- The turn of input `i`, with the rest of the queue. -/
def turn (inst : Instance Addr) (now : Int) (n : Threaded Addr) (i : Input Addr)
    (queue : List (Input Addr)) : Threaded Addr where
  rd := (n.rd.handleEvent inst now i).1
  mail := n.mail ++ timerEvents (n.rd.handleEvent inst now i).2
  timer := n.timer
  queue := queue
  trace := n.trace ++ (n.rd.handleEvent inst now i).2
  history := n.history ++ [⟨n.rd, now, i⟩]

def enabled (d : Encoding Addr) (n : Threaded Addr) : ThreadedAction Addr → Prop
  | .thread a => n.timer.Enabled a ∧ (d.client.handled a).toList <+: n.mail
  | .arrive i => ¬ i.IsTick
  | .handle _ => n.queue ≠ []

def apply (inst : Instance Addr) (d : Encoding Addr) (n : Threaded Addr) :
    ThreadedAction Addr → Threaded Addr
  | .thread a =>
      { n with
        mail := n.mail.drop (d.client.handled a).toList.length
        timer := n.timer.apply a
        queue := n.queue ++ (d.client.ticked n.timer a).toList.map tick }
  | .arrive i => { n with queue := n.queue ++ [i] }
  | .handle now =>
      match n.queue with
      | [] => n
      | i :: queue => n.turn inst now i queue

instance decidableEnabled (d : Encoding Addr) (n : Threaded Addr) : DecidablePred (n.enabled d)
  | .thread a => inferInstanceAs
      (Decidable (n.timer.Enabled a ∧ (d.client.handled a).toList <+: n.mail))
  | .arrive i => inferInstanceAs (Decidable (¬ i.IsTick))
  | .handle _ => inferInstanceAs (Decidable (n.queue ≠ []))

/-- No step of a thread takes an alarm of the referrer with it. -/
def Spares (d : Encoding Addr) (n : Threaded Addr) : ThreadedAction Addr → Prop
  | .thread a => d.client.Spares n.timer a
  | .arrive _ | .handle _ => True

instance decidableSpares (d : Encoding Addr) (n : Threaded Addr) : DecidablePred (n.Spares d)
  | .thread a => inferInstanceAs (Decidable (d.client.Spares n.timer a))
  | .arrive _ | .handle _ => .isTrue trivial

/-- The state of the referrer with a plain timer in place of the two threads. -/
def withTimer (n : Threaded Addr) (t : Timer.State (Alarm Addr)) : State Addr :=
  ⟨n.rd, t, n.queue, n.trace, n.history⟩

/-- The tick of the alarm, with the number in force, is queued, or the worker is
passing it on, or its task will wait once the events under way are handled. -/
def Live (d : Encoding Addr) (n : Threaded Addr) (a : Alarm Addr) : Prop :=
  .tickAlarm a n.rd.connectionSequenceId ∈ n.queue ∨
    n.timer.worker.passing.bind d.client.taskOf = some ⟨a, n.rd.connectionSequenceId⟩ ∨
    ⟨a, n.rd.connectionSequenceId⟩ ∈ n.mail.foldl Timer.handleEvent (d.client.armed n.timer)

end Threaded

/-- `startService` has been handled, and the threads of the timer have started. -/
def Threaded.started (inst : Instance Addr) (now : Int) (rd : Rd Addr) : Threaded Addr where
  rd := (rd.onStartService inst now).1
  mail := timerEvents (rd.onStartService inst now).2
  timer := .start
  queue := []
  trace := (rd.onStartService inst now).2
  history := []

/-- The referrer with the threads of the timer. -/
def threaded (inst : Instance Addr) (d : Encoding Addr) :
    Machine (Threaded Addr) (ThreadedAction Addr) where
  init n := ∃ now rd, Constructed rd ∧ n = .started inst now rd
  enabled n := n.enabled d
  apply := Threaded.apply inst d

instance (inst : Instance Addr) (d : Encoding Addr) :
    ∀ n a, Decidable ((threaded inst d).enabled n a) := fun n => n.decidableEnabled d

/-! ## What the referrer sees -/

variable {inst : Instance Addr} {d : Encoding Addr} {n : Threaded Addr}

/-- The plain timer that the referrer sees. -/
def Seen (inst : Instance Addr) (d : Encoding Addr) (n : Threaded Addr)
    (t : Timer.State (Alarm Addr)) : Prop :=
  t.queue = n.mail ∧ Timer.Threads.Shows d.client n.timer t ∧
    (machine inst).Reachable (n.withTimer t)

theorem seen_thread {t : Timer.State (Alarm Addr)} (h : Seen inst d n t)
    {a : Timer.Threads.Action} (hEn : n.enabled d (.thread a)) (hSpares : n.Spares d (.thread a)) :
    ∃ t', Seen inst d (n.apply inst d (.thread a)) t' := by
  obtain ⟨hMail, hShows, hReach⟩ := h
  obtain ⟨hThread, rest, hRest⟩ := hEn
  have hQueue : t.queue = (d.client.handled a).toList ++ rest := hMail.trans hRest.symm
  obtain ⟨t', hMoves, hLeft, hNext⟩ := Timer.Threads.shows_apply hShows hThread hSpares hQueue
  have hDrop : n.mail.drop (d.client.handled a).toList.length = rest := by
    rw [← hRest, List.drop_left]
  refine ⟨t', hLeft.trans hDrop.symm, hNext, ?_⟩
  have hWith : (n.apply inst d (.thread a)).withTimer t' =
      { n.withTimer t' with queue := n.queue ++ (d.client.ticked n.timer a).toList.map tick } := rfl
  rw [hWith]
  generalize (d.client.ticked n.timer a).toList = ticks at hMoves
  cases hMoves with
  | stays =>
      rw [List.map_nil, List.append_nil]
      exact hReach
  | steps b hEn => exact hReach.step (a := .timer b) hEn

theorem seen_apply {t : Timer.State (Alarm Addr)} (h : Seen inst d n t)
    {a : ThreadedAction Addr} (hEn : n.enabled d a) (hSpares : n.Spares d a) :
    ∃ t', Seen inst d (n.apply inst d a) t' := by
  cases a with
  | thread a => exact seen_thread h hEn hSpares
  | arrive i =>
      obtain ⟨hMail, hShows, hReach⟩ := h
      exact ⟨t, hMail, hShows, hReach.step (a := .arrive i) hEn⟩
  | handle now =>
      obtain ⟨hMail, hShows, hReach⟩ := h
      have hStep := hReach.step (a := .handle now) hEn
      rw [Threaded.apply]
      change (machine inst).Reachable ((n.withTimer t).apply inst (.handle now)) at hStep
      rw [State.apply] at hStep
      cases hQueue : n.queue with
      | nil => exact absurd hQueue hEn
      | cons i queue =>
          have hWith : (n.withTimer t).queue = i :: queue := hQueue
          rw [hWith] at hStep
          refine ⟨t.send (timerEvents (n.rd.handleEvent inst now i).2), ?_,
            ⟨hShows.inv, hShows.all, hShows.passing⟩, hStep⟩
          rw [Timer.State.send, hMail]
          rfl

/-- **Over the two threads the referrer does what it does over the plain timer**,
as long as no step of a thread takes one of its alarms with it. -/
theorem withTimer_reachable (h : ((threaded inst d).guarded (Threaded.Spares d)).Reachable n) :
    ∃ t, Seen inst d n t := by
  refine Machine.Reachable.invariant (I := fun n => ∃ t, Seen inst d n t) ?_ ?_ h
  · rintro _ ⟨now, rd, hRd, rfl⟩
    exact ⟨⟨timerEvents (rd.onStartService inst now).2, [], none⟩, rfl,
      Timer.Threads.shows_start _ _, Machine.Reachable.init ⟨now, rd, hRd, rfl⟩⟩
  · rintro n a ⟨t, hSeen⟩ ⟨hEn, hSpares⟩
    exact seen_apply hSeen hEn hSpares

theorem live_of_seen {t : Timer.State (Alarm Addr)} (h : Seen inst d n t) {a : Alarm Addr}
    (hLive : (n.withTimer t).Live a) : n.Live d a := by
  obtain ⟨hMail, hShows, -⟩ := h
  rcases hLive with hQueued | hPassing | hSettled
  · exact Or.inl hQueued
  · exact Or.inr (Or.inl (hShows.passing.symm.trans hPassing))
  · refine Or.inr (Or.inr ?_)
    rw [Timer.State.settled, Timer.mem_foldl_handleEvent] at hSettled
    change _ ∈ t.queue.foldl _ _ ∨ _ ∧ ∀ e ∈ t.queue, _ at hSettled
    rw [hMail] at hSettled
    rw [Timer.mem_foldl_handleEvent]
    exact hSettled.imp_right fun hAll => ⟨hShows.all.mem_iff.1 hAll.1, hAll.2⟩

/-- **The procedure never gets stuck** over the two threads: a node that is no
top server always has a live alarm that watches its stage. -/
theorem never_stuck_over_threads
    (h : ((threaded inst d).guarded (Threaded.Spares d)).Reachable n) (hTop : n.rd.NonTop) :
    ∃ a, n.rd.Watches a ∧ n.Live d a := by
  obtain ⟨t, hSeen⟩ := withTimer_reachable h
  obtain ⟨a, hWatches, hLive⟩ := neverStuck_reachable hSeen.2.2 hTop
  exact ⟨a, hWatches, live_of_seen hSeen hLive⟩

/-- Addresses of one byte, and cookies of one. -/
def shortEncoding : Encoding Nat where
  service := [2]
  address
    | [b] => some b.toNat
    | _ => none
  address_inj := by
    intro data data' sa h h'
    split at h
    · split at h'
      · rw [UInt8.toNat_inj.1 ((Option.some.inj h).trans (Option.some.inj h').symm)]
      · cases h'
    · cases h
  downlink _ := none
  downlink_inj := nofun
  cookie
    | [b] => b.toNat
    | _ => 0

/-- The reset of an alarm under the first number, handled and pushed. -/
def resetHandled (tid : Int32) (data : Bytes) (delay now : Int) : List (ThreadedAction Nat) :=
  [.thread (.handle (.resetAlarm
      ⟨tid, data, [1], delay, [.localService [1], .localService [2]]⟩) .found),
   .thread (.push now)]

/-- The stop of an alarm without data, handled. -/
def stopHandled (tid : Int32) : List (ThreadedAction Nat) :=
  [.thread (.handle (.stopAlarm tid [] [.localService [1], .localService [2]]) .found)]

/-- The top server pongs, knows no referrer, and becomes the uplink; T_007 comes due. -/
def connectsOverThreads : List (ThreadedAction Nat) :=
  resetHandled 1001 [] 20 0 ++ resetHandled 1001 [] 20 0 ++
  [.arrive (pongFrom .ptCached 0 9 0 0 1), .handle 1, .arrive (.getReferrersRSP 1 []), .handle 2] ++
  resetHandled 1002 [] 15 2 ++ resetHandled 1001 [] 20 2 ++ stopHandled 1002 ++
  resetHandled 1001 [] 20 2 ++ stopHandled 1001 ++ resetHandled 1012 [] 3500 2 ++
  resetHandled 1007 [9] 7 2 ++
  [.thread .enter, .thread (.next 9), .thread .test, .thread (.passEvent false), .handle 9]

theorem never_stuck_over_threads_connects :
    let n := (threaded oneCaps shortEncoding).exec (.started oneCaps 0 fresh) connectsOverThreads
    n.rd.stage = .d6MaintainConnection ∧ ∃ a, n.rd.Watches a ∧ n.Live shortEncoding a := by
  have hPath : ((threaded oneCaps shortEncoding).guarded (Threaded.Spares shortEncoding)).Path
      (.started oneCaps 0 fresh) connectsOverThreads := by decide +kernel
  refine ⟨by decide +kernel, never_stuck_over_threads ⟨.started oneCaps 0 fresh,
    connectsOverThreads, ⟨0, fresh, ⟨rfl, rfl, rfl, rfl⟩, rfl⟩, hPath,
    Machine.exec_guarded _ _ _ _⟩ (by decide +kernel)⟩

end Megatron.Referrer
