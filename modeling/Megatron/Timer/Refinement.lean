import Megatron.Timer.Service
import Megatron.Timer.Tasks

/-!
# The timer as one of its clients sees it

A service that arms its alarms by `ResetAlarm` and disarms them by `StopAlarm`
sees nothing of the two threads: its events are handled one by one, and of the
tasks that are due the worker takes one after the other and passes its tick on.
The plain timer, `Timer.State`, says just that.  Here every run of the two
threads is matched by a run of the plain timer, with the same events and the
same ticks in the same order.

The plain timer loses no alarm.  The worker does, when something throws while it
holds the rest of a batch, and `SetAlarm` puts a second task under a key; the
runs are those in which neither happens to the alarms of the client.

## Main results

* `shows_apply` — every step of a thread is matched by at most one of the plain
  timer.
* `refines` — every run is matched by a run.
-/

namespace Megatron.Timer.Threads

open Megatron.Corelib Megatron.Lib

universe u

variable {κ : Type u}

/-! ## The client -/

/-- A service with alarms: where its ticks go, which alarm an id and its data
stand for, and what it reads in a cookie. -/
structure Client (κ : Type u) where
  destination : RouteT
  packable : Packable destination
  alarm : Int32 → Bytes → Option κ
  alarm_inj : ∀ {id id' data data' a}, alarm id data = some a → alarm id' data' = some a →
    id = id' ∧ data = data'
  cookie : Bytes → Int

/-- What the client has to do with: its events once they are handled, and the
ticks that are passed on to it. -/
inductive Seen (κ : Type u)
  | handled (e : Timer.Event κ)
  | ticked (t : Timer.Task κ)
  deriving DecidableEq

namespace Client

/-- The alarm of the client that is under this key. -/
def alarmOf (c : Client κ) (k : Key) : Option κ :=
  if k.type = .alarm ∧ k.destination = c.destination then c.alarm k.id k.data else none

/-- A task of the client. -/
def taskOf (c : Client κ) (t : Task) : Option (Timer.Task κ) :=
  (c.alarmOf t.key).map (⟨·, c.cookie t.cookie⟩)

/-- An event the client has sent. -/
def eventOf (c : Client κ) : Event → Option (Timer.Event κ)
  | .resetAlarm e => e.route.tail?.bind fun r =>
      (c.alarmOf ⟨e.tid, .alarm, r, e.data⟩).map (.resetAlarm · (c.cookie e.cookie))
  | .stopAlarm tid data route => route.tail?.bind fun r =>
      (c.alarmOf ⟨tid, .alarm, r, data⟩).map .stopAlarm
  | .setTimer _ | .setAlarm _ | .stopTimer _ _ _ => none

end Client

/-- The task whose tick the worker is about to pass on. -/
def Worker.passing : Worker → Option Task
  | .delivering t _ => some t
  | .batch _ | .delivered _ _ | .dropping _ _ => none
  | .outer | .waiting | .inner | .timedWaiting => none

/-- The copied batch behind the task that the worker is at. -/
def Worker.rest : Worker → List Task
  | .batch rest | .delivering _ rest | .delivered _ rest | .dropping _ rest => rest
  | .outer | .waiting | .inner | .timedWaiting => []

/-- The tasks the worker has yet to look at. -/
def State.ahead (s : State) : List Task :=
  s.handler.held ++ (s.worker.rest ++ tasksOf s.nexts)

namespace Client

/-- The event of the client that the step handles. -/
def handled (c : Client κ) : Action → Option (Timer.Event κ)
  | .handle ev _ => c.eventOf ev
  | .push _ | .enter | .wake | .next _ | .test | .passEvent _ | .finish _ _ => none

/-- The tick that the step passes on to the client. -/
def ticked (c : Client κ) (s : State) : Action → Option (Timer.Task κ)
  | .passEvent false => s.worker.passing.bind c.taskOf
  | .passEvent true => none
  | .handle _ _ | .push _ | .enter | .wake | .next _ | .test | .finish _ _ => none

/-- What a step shows to the client. -/
def seen (c : Client κ) (s : State) (a : Action) : List (Seen κ) :=
  (c.handled a).toList.map .handled ++ (c.ticked s a).toList.map .ticked

/-- The worker is not passing on a tick to the client, and has no task of the
client left that is not erased. -/
def Free (c : Client κ) (s : State) : Prop :=
  (∀ t ∈ s.worker.rest, t ∉ s.erased → c.alarmOf t.key = none) ∧
    ∀ t ∈ s.worker.passing, c.alarmOf t.key = none

/-- The step is no `SetAlarm` of an alarm of the client, and nothing throws in
it while the worker has such an alarm. -/
def Spares (c : Client κ) (s : State) : Action → Prop
  | .handle (.setAlarm e) _ =>
      ∀ r ∈ e.route.tail?, c.alarmOf ⟨e.tid, .alarm, r, e.data⟩ = none
  | .passEvent true => c.Free s
  | .finish l _ => l = .found ∨ c.Free s
  | _ => True

instance decidableFree (c : Client κ) (s : State) : Decidable (c.Free s) :=
  inferInstanceAs (Decidable ((∀ t ∈ s.worker.rest, t ∉ s.erased → c.alarmOf t.key = none) ∧
    ∀ t ∈ s.worker.passing, c.alarmOf t.key = none))

instance decidableSpares (c : Client κ) (s : State) : DecidablePred (c.Spares s)
  | .handle (.setAlarm e) _ => inferInstanceAs (Decidable (∀ r ∈ e.route.tail?, c.alarmOf _ = none))
  | .handle (.setTimer _) _ | .handle (.resetAlarm _) _ => .isTrue trivial
  | .handle (.stopTimer _ _ _) _ | .handle (.stopAlarm _ _ _) _ => .isTrue trivial
  | .passEvent true => c.decidableFree s
  | .finish l _ => inferInstanceAs (Decidable (l = .found ∨ c.Free s))
  | .push _ | .enter | .wake | .next _ | .test | .passEvent false => .isTrue trivial

/-- The tasks of the client that the worker has yet to pass on. -/
def armed (c : Client κ) (s : State) : List (Timer.Task κ) :=
  (s.ahead.filter (· ∉ s.erased)).filterMap c.taskOf

end Client

/-! ## The plain timer -/

/-- The client sends an event, or the plain timer does something. -/
inductive PlainAction (κ : Type u)
  | send (e : Timer.Event κ)
  | timer (a : Timer.Action)

section Plain

variable [DecidableEq κ]

/-- The plain timer, its events coming from the client. -/
def plain (κ : Type u) [DecidableEq κ] : Machine (Timer.State κ) (PlainAction κ) where
  init s := s = ⟨[], [], none⟩
  enabled s
    | .send _ => True
    | .timer a => s.enabled a
  apply s
    | .send e => s.send [e]
    | .timer a => (s.step a).1

/-- What a step of the plain timer shows. -/
def plainSeen (s : Timer.State κ) : PlainAction κ → List (Seen κ)
  | .send e => [.handled e]
  | .timer a => (s.step a).2.map .ticked

/-- The plain timer goes on by one step, or stands still; the ticks are those
that it passes on. -/
inductive Moves (a : Timer.State κ) : Timer.State κ → List (Timer.Task κ) → Prop
  | stays : Moves a a []
  | steps (b : Timer.Action) (h : a.enabled b) : Moves a (a.step b).1 (a.step b).2

/-- The tasks once an event, where there is one, has been handled. -/
def served (all : List (Timer.Task κ)) : Option (Timer.Event κ) → List (Timer.Task κ)
  | none => all
  | some e => handleEvent all e

theorem moves_served {a : Timer.State κ} {o : Option (Timer.Event κ)}
    {rest : List (Timer.Event κ)} (hQueue : a.queue = o.toList ++ rest) :
    Moves a ⟨rest, served a.all o, a.passing⟩ [] := by
  obtain ⟨queue, all, passing⟩ := a
  obtain rfl : queue = o.toList ++ rest := hQueue
  cases o with
  | none => exact Moves.stays
  | some e => exact Moves.steps .handle (List.cons_ne_nil e rest)

/-- An event is sent, and the plain timer moves. -/
theorem path_of_moves {a a' : Timer.State κ} {o : Option (Timer.Event κ)}
    {ticks : List (Timer.Task κ)} (h : Moves (a.send o.toList) a' ticks) :
    ∃ acts, (plain κ).Path a acts ∧ (plain κ).exec a acts = a' ∧
      (plain κ).observe plainSeen a acts = o.toList.map .handled ++ ticks.map .ticked := by
  cases o with
  | none =>
      rw [Option.toList_none, Timer.State.send_nil] at h
      cases h with
      | stays => exact ⟨[], trivial, rfl, rfl⟩
      | steps b hEn => exact ⟨[.timer b], ⟨hEn, trivial⟩, rfl, List.append_nil _⟩
  | some e =>
      cases h with
      | stays => exact ⟨[.send e], ⟨trivial, trivial⟩, rfl, rfl⟩
      | steps b hEn =>
          refine ⟨[.send e, .timer b], ⟨trivial, hEn, trivial⟩, rfl, ?_⟩
          exact congrArg (Seen.handled e :: ·) (List.append_nil _)

end Plain

/-! ## Where the two agree -/

/-- The plain timer has the tasks of the client, in some order, and passes on
what the worker passes on to the client. -/
structure Shows [DecidableEq κ] (c : Client κ) (s : State) (a : Timer.State κ) : Prop where
  inv : Inv s
  all : a.all.Perm (c.armed s)
  passing : a.passing = s.worker.passing.bind c.taskOf

variable [DecidableEq κ] {c : Client κ} {s s' : State} {a : Timer.State κ}

omit [DecidableEq κ] in
theorem alarmOf_inj {k k' : Key} {x : κ} (h : c.alarmOf k = some x) (h' : c.alarmOf k' = some x) :
    k = k' := by
  rw [Client.alarmOf] at h h'
  split at h
  · rename_i hMine
    split at h'
    · rename_i hMine'
      obtain ⟨hId, hData⟩ := c.alarm_inj h h'
      cases k
      cases k'
      simp_all
    · cases h'
  · cases h

omit [DecidableEq κ] in
theorem packable_of_alarmOf {k : Key} {x : κ} (h : c.alarmOf k = some x) :
    Packable k.destination := by
  rw [Client.alarmOf] at h
  split at h
  · rename_i hMine
    rw [hMine.2]
    exact c.packable
  · cases h

omit [DecidableEq κ] in
/-- Timers are no alarms. -/
theorem taskOf_timer {t : Task} (h : t.key.type = .timer) : c.taskOf t = none := by
  rw [Client.taskOf, Client.alarmOf, if_neg fun hMine => by rw [h] at hMine; cases hMine.1]
  rfl

omit [DecidableEq κ] in
theorem taskOf_eq_none {t : Task} (h : c.alarmOf t.key = none) : c.taskOf t = none := by
  rw [Client.taskOf, h]
  rfl

theorem rest_sublist_held (w : Worker) : w.rest.Sublist w.held := by
  cases w with
  | delivering t rest => exact List.sublist_cons_self t rest
  | delivered t rest => exact List.sublist_cons_self t rest
  | dropping t rest => exact List.sublist_cons_self t rest
  | _ => exact List.Sublist.refl _

theorem ahead_sublist_live (s : State) : s.ahead.Sublist s.live :=
  ((rest_sublist_held s.worker).append_right _).append_left _

omit [DecidableEq κ] in
/-- The order of the tasks does not matter. -/
theorem filterMap_perm {ts ts' : List Task} (h : ts.Perm ts') (erased : List Task) :
    ((ts.filter (· ∉ erased)).filterMap c.taskOf).Perm
      ((ts'.filter (· ∉ erased)).filterMap c.taskOf) :=
  (h.filter _).filterMap _

omit [DecidableEq κ] in
theorem armed_perm (hAhead : s'.ahead.Perm s.ahead) (hErased : s'.erased = s.erased) :
    (c.armed s').Perm (c.armed s) := by
  rw [Client.armed, Client.armed, hErased]
  exact filterMap_perm hAhead s.erased

/-- A step that moves tasks only. -/
theorem Shows.of_perm (h : Shows c s a) (hInv : Inv s') (hAhead : s'.ahead.Perm s.ahead)
    (hErased : s'.erased = s.erased) (hPassing : s'.worker.passing = s.worker.passing) :
    Shows c s' a where
  inv := hInv
  all := h.all.trans (armed_perm hAhead hErased).symm
  passing := by rw [hPassing, h.passing]

/-! ## The handlers -/

/-- Of the tasks under way, those that are erased with a key are those of the key. -/
theorem filter_erased (h : Inv s) (k : Key) :
    s.ahead.filter (· ∉ s.listed k ++ s.erased) =
      (s.ahead.filter (· ∉ s.erased)).filter (·.key ≠ k) := by
  rw [List.filter_filter]
  refine List.filter_congr fun t hMem => ?_
  have hLive := (ahead_sublist_live s).subset hMem
  rw [← Bool.decide_and, decide_eq_decide, List.mem_append, not_or]
  constructor
  · rintro ⟨hListed, hErased⟩
    refine ⟨?_, hErased⟩
    rintro rfl
    exact hListed (h.listed t hLive hErased)
  · rintro ⟨hKey, hErased⟩
    exact ⟨fun hListed => hKey (h.table k t hListed).1, hErased⟩

/-- What is left of the tasks of the client when those of a key are erased. -/
theorem filterMap_filter_key (k : Key) (ts : List Task) :
    (ts.filter (·.key ≠ k)).filterMap c.taskOf =
      match c.alarmOf k with
      | none => ts.filterMap c.taskOf
      | some x => Timer.remove (ts.filterMap c.taskOf) x := by
  induction ts with
  | nil => cases c.alarmOf k <;> rfl
  | cons t ts ih =>
      by_cases hKey : t.key = k
      · rw [List.filter_cons_of_neg (by simpa using hKey), ih]
        cases hName : c.alarmOf k with
        | none => rw [List.filterMap_cons_none (taskOf_eq_none (hKey ▸ hName))]
        | some x =>
            have hTask : c.taskOf t = some ⟨x, c.cookie t.cookie⟩ := by
              rw [Client.taskOf, hKey, hName]
              rfl
            rw [List.filterMap_cons_some hTask]
            simp only [Timer.remove]
            rw [List.filter_cons_of_neg (by simp)]
      · rw [List.filter_cons_of_pos (by simpa using hKey)]
        cases hTask : c.taskOf t with
        | none => rw [List.filterMap_cons_none hTask, List.filterMap_cons_none hTask, ih]
        | some t' =>
            rw [List.filterMap_cons_some hTask, List.filterMap_cons_some hTask, ih]
            cases hName : c.alarmOf k with
            | none => rfl
            | some x =>
                have hOther : t'.key ≠ x := by
                  rintro rfl
                  rw [Client.taskOf, Option.map_eq_some_iff] at hTask
                  obtain ⟨y, hAlarm, rfl⟩ := hTask
                  exact hKey (alarmOf_inj hAlarm hName)
                simp only [Timer.remove]
                rw [List.filter_cons_of_pos (by simpa using hOther)]

/-- The tasks of the client once those of a key are erased. -/
theorem armed_erase (h : Inv s) (c : Client κ) (s' : State) {k : Key}
    (hAhead : s'.ahead = s.ahead) (hErased : s'.erased = s.listed k ++ s.erased) :
    c.armed s' =
      match c.alarmOf k with
      | none => c.armed s
      | some x => Timer.remove (c.armed s) x := by
  rw [Client.armed, hAhead, hErased, filter_erased h, filterMap_filter_key]
  rfl

omit [DecidableEq κ] in
/-- The tasks of the client once a task has been made. -/
theorem armed_cons {t : Task} (hAhead : s'.ahead = t :: s.ahead) (hNew : t ∉ s'.erased) :
    c.armed s' = (c.taskOf t).toList ++
      (s.ahead.filter (· ∉ s'.erased)).filterMap c.taskOf := by
  rw [Client.armed, hAhead, List.filter_cons_of_pos (by simpa using hNew)]
  cases hTask : c.taskOf t with
  | none => rw [List.filterMap_cons_none hTask]; rfl
  | some x => rw [List.filterMap_cons_some hTask]; rfl

theorem shows_add (h : Shows c s a) (hIdle : s.handler = .idle) {t : Task}
    (hPtr : t.ptr = s.fresh) (hOther : c.alarmOf t.key = none) (l : Lookup) :
    Shows c (s.add t l) a := by
  have hInv := inv_add h.inv hIdle hPtr l
  cases l with
  | throws => exact h
  | throwsAgain => exact h
  | found =>
      have hAhead : (s.add t .found).ahead = t :: s.ahead := by
        rw [State.ahead, State.ahead, hIdle]
        rfl
      have hArmed : c.armed (s.add t .found) = c.armed s := by
        rw [armed_cons hAhead (not_mem_erased_of_ptr h.inv hPtr), taskOf_eq_none hOther]
        rfl
      refine ⟨hInv, ?_, h.passing⟩
      rw [hArmed]
      exact h.all

omit [DecidableEq κ] in
/-- A look-up that throws is none for an alarm of the client. -/
theorem alarmOf_eq_none_of_not_packable {k : Key} (h : ¬ Packable k.destination) :
    c.alarmOf k = none := by
  cases hAlarm : c.alarmOf k with
  | none => rfl
  | some x => exact absurd (packable_of_alarmOf hAlarm) h

theorem shows_emptySet (h : Shows c s a) {k : Key} (hNone : s.timers k = none) :
    Shows c { s with timers := Function.update s.timers k (some []) } a :=
  ⟨inv_emptySet h.inv hNone, h.all, h.passing⟩

theorem shows_remove (h : Shows c s a) {k : Key} {l : Lookup} (hFinds : s.FindsTwice k l) :
    Shows c (s.remove k l) { a with all := served a.all ((c.alarmOf k).map .stopAlarm) } := by
  have hInv := inv_remove h.inv hFinds
  cases l with
  | throws =>
      rw [alarmOf_eq_none_of_not_packable hFinds]
      exact h
  | throwsAgain =>
      rw [alarmOf_eq_none_of_not_packable hFinds.2]
      exact shows_emptySet h hFinds.1
  | found =>
      have hArmed := armed_erase h.inv c (s.remove k .found) rfl rfl
      cases hAlarm : c.alarmOf k with
      | none =>
          rw [hAlarm] at hArmed
          refine ⟨hInv, ?_, h.passing⟩
          rw [hArmed]
          exact h.all
      | some x =>
          rw [hAlarm] at hArmed
          refine ⟨hInv, ?_, h.passing⟩
          rw [hArmed]
          exact h.all.filter _

theorem shows_replace (h : Shows c s a) (hIdle : s.handler = .idle) {e : Setting} {t : Task}
    (hPtr : t.ptr = s.fresh) {l : Lookup} (hFinds : s.FindsTwice t.key l) :
    Shows c (s.replace e t l) { a with
      all := served a.all ((c.alarmOf t.key).map (.resetAlarm · (c.cookie t.cookie))) } := by
  have hInv := inv_replace (e := e) h.inv hIdle hPtr hFinds
  cases l with
  | throws =>
      rw [alarmOf_eq_none_of_not_packable hFinds]
      exact h
  | throwsAgain =>
      rw [alarmOf_eq_none_of_not_packable hFinds.2]
      exact shows_emptySet h hFinds.1
  | found =>
      have hAhead : (s.replace e t .found).ahead = t :: s.ahead := by
        rw [State.ahead, State.ahead, hIdle]
        rfl
      have hArmed := armed_cons (c := c) hAhead (not_mem_cancelled_of_ptr h.inv hPtr t.key)
      have hErased : (s.replace e t .found).erased = s.listed t.key ++ s.erased := rfl
      rw [hErased, filter_erased h.inv, filterMap_filter_key] at hArmed
      cases hAlarm : c.alarmOf t.key with
      | none =>
          rw [hAlarm, taskOf_eq_none hAlarm] at hArmed
          refine ⟨hInv, ?_, h.passing⟩
          rw [hArmed]
          exact h.all
      | some x =>
          have hTask : c.taskOf t = some ⟨x, c.cookie t.cookie⟩ := by
            rw [Client.taskOf, hAlarm]
            rfl
          rw [hAlarm, hTask] at hArmed
          refine ⟨hInv, ?_, h.passing⟩
          rw [hArmed]
          exact (h.all.filter _).cons _

/-- The handler and the plain timer do the same with an event. -/
theorem shows_handle (h : Shows c s a) (hIdle : s.handler = .idle) {ev : Event} {l : Lookup}
    (hHandles : s.Handles l ev) (hSpares : c.Spares s (.handle ev l)) :
    Shows c (s.handle l ev) { a with all := served a.all (c.eventOf ev) } := by
  cases ev with
  | setTimer e =>
      rw [State.handle, State.onSetTimer]
      cases e.route with
      | nil => exact h
      | cons x r => exact shows_add h hIdle rfl rfl l
  | setAlarm e =>
      rw [State.handle, State.onSetAlarm]
      cases hRoute : e.route with
      | nil => exact h
      | cons x r => exact shows_add h hIdle rfl (hSpares r (by rw [hRoute]; rfl)) l
  | resetAlarm e =>
      rw [State.handle, State.onResetAlarm, Client.eventOf]
      cases hRoute : e.route with
      | nil => exact h
      | cons x r => exact shows_replace h hIdle rfl (hHandles r (by rw [hRoute]; rfl))
  | stopTimer tid data route =>
      rw [State.handle, State.onStopTimer]
      cases route with
      | nil => exact h
      | cons x r =>
          have hOther : c.alarmOf ⟨tid, .timer, r, data⟩ = none :=
            if_neg fun hMine => by cases hMine.1
          have hRemoved := shows_remove h (hHandles r rfl)
          rw [hOther] at hRemoved
          exact hRemoved
  | stopAlarm tid data route =>
      rw [State.handle, State.onStopAlarm, Client.eventOf]
      cases route with
      | nil => exact h
      | cons x r => exact shows_remove h (hHandles r rfl)

/-! ## The worker -/

omit [DecidableEq κ] in
/-- A task that is erased, or none of the client, may come and go. -/
theorem armed_perm_of_cons {t : Task} (hAhead : s'.ahead.Perm (t :: s.ahead))
    (hErased : s'.erased = s.erased) (hNone : t ∈ s.erased ∨ c.taskOf t = none) :
    (c.armed s').Perm (c.armed s) := by
  rw [Client.armed, Client.armed, hErased]
  refine (filterMap_perm hAhead s.erased).trans (List.Perm.of_eq ?_)
  by_cases hMem : t ∈ s.erased
  · rw [List.filter_cons_of_neg (by simpa using hMem)]
  · rw [List.filter_cons_of_pos (by simpa using hMem),
      List.filterMap_cons_none (hNone.resolve_left hMem)]

omit [DecidableEq κ] in
/-- What the worker has is of no use to the client. -/
theorem armed_of_free (hFree : c.Free s) (hHandler : s'.handler = s.handler)
    (hNexts : s'.nexts = s.nexts) (hErased : s'.erased = s.erased) (hRest : s'.worker.rest = []) :
    c.armed s' = c.armed s := by
  have hNone : (s.worker.rest.filter (· ∉ s.erased)).filterMap c.taskOf = [] := by
    refine List.filterMap_eq_nil_iff.2 fun t hMem => ?_
    obtain ⟨hRest, hErased⟩ := List.mem_filter.1 hMem
    exact taskOf_eq_none (hFree.1 t hRest (of_decide_eq_true hErased))
  rw [Client.armed, Client.armed, State.ahead, State.ahead, hHandler, hNexts, hErased, hRest]
  simp only [List.filter_append, List.filterMap_append, hNone, List.filter_nil,
    List.filterMap_nil]

/-- Something throws, and the worker forgets what it has. -/
theorem shows_forget (h : Shows c s a) (hFree : c.Free s) {w : Worker} (hRest : w.rest = [])
    (hPassing : w.passing = none) (hInv : Inv { s with worker := w }) :
    Shows c { s with worker := w } a := by
  refine ⟨hInv, ?_, ?_⟩
  · have hArmed : c.armed { s with worker := w } = c.armed s :=
      armed_of_free hFree rfl rfl rfl hRest
    rw [hArmed]
    exact h.all
  · rw [h.passing]
    change _ = w.passing.bind c.taskOf
    rw [hPassing]
    cases hNow : s.worker.passing with
    | none => rfl
    | some t => exact taskOf_eq_none (hFree.2 t hNow)

/-- A task of the client that is due is one that the plain timer can take. -/
theorem shows_take (h : Shows c s a) (hInv : Inv s') (hFree : s.worker.passing = none)
    {t : Task} {x : Timer.Task κ} (hAhead : s.ahead.Perm (t :: s'.ahead))
    (hErased : s'.erased = s.erased) (hNot : t ∉ s.erased) (hTask : c.taskOf t = some x)
    (hPassing : s'.worker.passing = some t) :
    ∃ a', Moves a a' [] ∧ a'.queue = a.queue ∧ Shows c s' a' := by
  have hArmed : (c.armed s).Perm (x :: c.armed s') := by
    rw [Client.armed, Client.armed, hErased]
    have hMoved := filterMap_perm (c := c) hAhead s.erased
    rw [List.filter_cons_of_pos (by simpa using hNot), List.filterMap_cons_some hTask] at hMoved
    exact hMoved
  have hNone : a.passing = none := by
    rw [h.passing, hFree]
    rfl
  have hAll := h.all.trans hArmed
  obtain ⟨i, hLt, hAt⟩ := List.mem_iff_getElem.1 (hAll.mem_iff.2 List.mem_cons_self)
  have hErase := List.getElem_cons_eraseIdx_perm hLt
  rw [hAt] at hErase
  refine ⟨_, Moves.steps (.fire i) ⟨hNone, hLt⟩, rfl, hInv, (hErase.trans hAll).cons_inv, ?_⟩
  change a.all[i]? = _
  rw [List.getElem?_eq_getElem hLt, hAt, hPassing]
  exact hTask.symm

/-- The head of the `for` loop: a task of the client that is not erased is taken. -/
theorem shows_test (h : Shows c s a) {ts : List Task} (hAt : s.worker = .batch ts) :
    ∃ a', Moves a a' [] ∧ a'.queue = a.queue ∧ Shows c (s.test ts) a' := by
  have hInv := inv_test h.inv hAt
  have hIdle : s.worker.passing = none := by rw [hAt]; rfl
  have hNone : a.passing = none := by rw [h.passing, hIdle]; rfl
  cases ts with
  | nil =>
      refine ⟨a, Moves.stays, rfl, h.of_perm hInv ?_ rfl hIdle.symm⟩
      rw [State.ahead, State.ahead, hAt]
      exact List.Perm.refl _
  | cons t ts =>
      have hRest : (s.test (t :: ts)).worker.rest = ts := by
        rw [State.test]
        change Worker.rest (if t ∈ s.erased then _ else _) = ts
        split <;> rfl
      have hPassing : (s.test (t :: ts)).worker.passing =
          if t ∈ s.erased then none else some t := by
        rw [State.test]
        change Worker.passing (if t ∈ s.erased then _ else _) = _
        split <;> rfl
      have hAhead : s.ahead.Perm (t :: (s.test (t :: ts)).ahead) := by
        rw [State.ahead, State.ahead, hRest, hAt]
        exact List.perm_middle
      by_cases hMem : t ∈ s.erased
      · rw [if_pos hMem] at hPassing
        refine ⟨a, Moves.stays, rfl, hInv, ?_, ?_⟩
        · exact h.all.trans (armed_perm_of_cons hAhead rfl (Or.inl hMem))
        · rw [hPassing]
          exact hNone
      · rw [if_neg hMem] at hPassing
        cases hTask : c.taskOf t with
        | none =>
            refine ⟨a, Moves.stays, rfl, hInv, ?_, ?_⟩
            · exact h.all.trans (armed_perm_of_cons hAhead rfl (Or.inr hTask))
            · rw [hPassing]
              exact hNone.trans hTask.symm
        | some x => exact shows_take h hInv hIdle hAhead rfl hMem hTask hPassing

/-- A tick that is passed on to the client is one that the plain timer passes on. -/
theorem shows_passEvent (h : Shows c s a) {t : Task} {ts : List Task}
    (hAt : s.worker = .delivering t ts) :
    ∃ a', Moves a a' (c.taskOf t).toList ∧ a'.queue = a.queue ∧
      Shows c (s.passEvent t ts false) a' := by
  have hInv := inv_passEvent h.inv hAt false
  have hPassing : a.passing = c.taskOf t := by rw [h.passing, hAt]; rfl
  have hArmed : c.armed (s.passEvent t ts false) = c.armed s := by
    rw [Client.armed, Client.armed, State.ahead, State.ahead, hAt]
    rfl
  cases hTask : c.taskOf t with
  | none =>
      refine ⟨a, Moves.stays, rfl, hInv, ?_, hPassing.trans hTask⟩
      rw [hArmed]
      exact h.all
  | some x =>
      rw [hTask] at hPassing
      have hEn : a.enabled .pass := by
        change a.passing.isSome = true
        rw [hPassing]
        rfl
      have hTicks : (a.step .pass).2 = [x] := by
        rw [Timer.State.step, hPassing]
        rfl
      have hMoves := Moves.steps .pass hEn
      rw [hTicks] at hMoves
      refine ⟨_, hMoves, rfl, hInv, ?_, rfl⟩
      rw [hArmed]
      exact h.all

/-- The table is no matter of the plain timer. -/
theorem shows_removeTOnly (h : Shows c s a) {t : Task} {ts : List Task}
    (hHeld : s.worker.held = t :: ts) (hRest : s.worker.rest = ts)
    (hPassing : s.worker.passing = none) {l : Lookup} (hKeep : l = .found ∨ c.Free s) :
    Shows c (s.removeTOnly t ts l) a := by
  have hInv := inv_removeTOnly h.inv hHeld l
  cases l with
  | found =>
      refine h.of_perm hInv (List.Perm.of_eq ?_) rfl hPassing.symm
      rw [State.ahead, State.ahead, hRest]
      rfl
  | throws => exact shows_forget h (hKeep.resolve_left fun hFound => by cases hFound) rfl rfl hInv
  | throwsAgain =>
      exact shows_forget h (hKeep.resolve_left fun hFound => by cases hFound) rfl rfl hInv

theorem shows_finish (h : Shows c s a) {t : Task} {ts : List Task}
    (hAt : s.worker = .delivered t ts) {l : Lookup} {now : Int}
    (hKeep : l = .found ∨ c.Free s) : Shows c (s.finish t ts l now) a := by
  have hInv := inv_finish h.inv hAt l now
  have hPassing : s.worker.passing = none := by rw [hAt]; rfl
  rw [State.finish] at hInv ⊢
  cases hType : t.key.type with
  | timer =>
      rw [hType] at hInv
      refine ⟨hInv, h.all.trans (List.Perm.symm ?_), ?_⟩
      · refine armed_perm_of_cons (t := t) ?_ rfl (Or.inr (taskOf_timer hType))
        rw [State.ahead, State.ahead, hAt]
        have hPush := ((tasksOf_pushBack (now + t.period) t s.nexts).append_left ts).trans
          List.perm_middle
        exact (hPush.append_left _).trans List.perm_middle
      · rw [h.passing, hPassing]
        rfl
  | alarm => exact shows_removeTOnly h (by rw [hAt]; rfl) (by rw [hAt]; rfl) hPassing hKeep

/-- The worker is at one of its waits, or goes there. -/
theorem shows_idle (h : Shows c s a) {act : Action} (hInv : Inv (s.apply act))
    (hAt : act = .enter ∧ s.worker = .outer ∨
      act = .wake ∧ (s.worker = .waiting ∨ s.worker = .timedWaiting)) :
    Shows c (s.apply act) a := by
  have hBefore : s.worker.rest = [] ∧ s.worker.passing = none := by
    rcases hAt with ⟨-, hAt⟩ | ⟨-, hAt | hAt⟩ <;> rw [hAt] <;> exact ⟨rfl, rfl⟩
  have hAfter : (s.apply act).worker.rest = [] ∧ (s.apply act).worker.passing = none := by
    rcases hAt with ⟨rfl, -⟩ | ⟨rfl, -⟩
    · rw [State.apply]
      change Worker.rest (if _ then _ else _) = [] ∧ Worker.passing (if _ then _ else _) = none
      split <;> exact ⟨rfl, rfl⟩
    · exact ⟨rfl, rfl⟩
  have hSame : (s.apply act).handler = s.handler ∧ (s.apply act).nexts = s.nexts ∧
      (s.apply act).erased = s.erased := by
    rcases hAt with ⟨rfl, -⟩ | ⟨rfl, -⟩ <;> exact ⟨rfl, rfl, rfl⟩
  refine h.of_perm hInv (List.Perm.of_eq ?_) hSame.2.2 (hAfter.2.trans hBefore.2.symm)
  rw [State.ahead, State.ahead, hSame.1, hSame.2.1, hAfter.1, hBefore.1]

/-- What is due goes into the batch. -/
theorem shows_next (h : Shows c s a) (hAt : s.worker = .inner) (now : Int) :
    Shows c (s.next now) a := by
  have hInv := inv_next h.inv hAt now
  have hMoved : (s.next now).ahead = s.ahead ∧ (s.next now).erased = s.erased ∧
      (s.next now).worker.passing = none := by
    rw [State.next]
    split
    · exact ⟨by rw [State.ahead, State.ahead, hAt]; rfl, rfl, rfl⟩
    · rename_i time ts rest hNexts
      split
      · exact ⟨by rw [State.ahead, State.ahead, hAt]; rfl, rfl, rfl⟩
      · exact ⟨by rw [State.ahead, State.ahead, hAt, hNexts]; rfl, rfl, rfl⟩
  obtain ⟨hAhead, hErased, hPassing⟩ := hMoved
  refine h.of_perm hInv (List.Perm.of_eq hAhead) hErased ?_
  rw [hAt]
  exact hPassing

theorem shows_push (h : Shows c s a) (now : Int) : Shows c (s.push now) a := by
  refine h.of_perm (inv_push h.inv now) ?_ (erased_push s now) (by rw [worker_push])
  rw [State.ahead, State.ahead, worker_push]
  exact perm_push s now s.worker.rest

/-! ## Every step, and every run -/

/-- **Every step of a thread** is matched by the plain timer, which passes on the
same tick and handles the same event, where that is the next in its queue. -/
theorem shows_apply (h : Shows c s a) {act : Action} (hEn : s.Enabled act)
    (hSpares : c.Spares s act) {rest : List (Timer.Event κ)}
    (hQueue : a.queue = (c.handled act).toList ++ rest) :
    ∃ a', Moves a a' (c.ticked s act).toList ∧ a'.queue = rest ∧ Shows c (s.apply act) a' := by
  have hInv := inv_apply h.inv hEn
  cases act with
  | handle ev l =>
      have hShows := shows_handle h hEn.1 hEn.2 hSpares
      exact ⟨_, moves_served hQueue, rfl, hShows.inv, hShows.all, hShows.passing⟩
  | push now => exact ⟨a, Moves.stays, hQueue, shows_push h now⟩
  | enter => exact ⟨a, Moves.stays, hQueue, shows_idle h hInv (Or.inl ⟨rfl, hEn⟩)⟩
  | wake => exact ⟨a, Moves.stays, hQueue, shows_idle h hInv (Or.inr ⟨rfl, hEn⟩)⟩
  | next now => exact ⟨a, Moves.stays, hQueue, shows_next h hEn now⟩
  | test =>
      rw [State.apply]
      split
      · rename_i ts hAt
        obtain ⟨a', hMoves, hSame, hNext⟩ := shows_test h hAt
        exact ⟨a', hMoves, hSame.trans hQueue, hNext⟩
      · exact ⟨a, Moves.stays, hQueue, h⟩
  | passEvent throws =>
      have hPlace : State.AtPassEvent s.worker := hEn
      rw [State.apply] at hInv ⊢
      split
      · rename_i t ts hAt
        rw [hAt] at hInv
        cases throws with
        | true => exact ⟨a, Moves.stays, hQueue, shows_forget h hSpares rfl rfl hInv⟩
        | false =>
            obtain ⟨a', hMoves, hSame, hNext⟩ := shows_passEvent h hAt
            rw [Client.ticked, hAt]
            exact ⟨a', hMoves, hSame.trans hQueue, hNext⟩
      · rename_i hNot
        cases hAt : s.worker with
        | delivering t ts => exact absurd hAt (hNot t ts)
        | _ => rw [hAt] at hPlace; exact hPlace.elim
  | finish l now =>
      rw [State.apply]
      split
      · rename_i t ts hAt
        exact ⟨a, Moves.stays, hQueue, shows_finish h hAt hSpares⟩
      · rename_i t ts hAt
        exact ⟨a, Moves.stays, hQueue, shows_removeTOnly h (by rw [hAt]; rfl) (by rw [hAt]; rfl)
          (by rw [hAt]; rfl) hSpares⟩
      · exact ⟨a, Moves.stays, hQueue, h⟩

theorem shows_start (c : Client κ) (queue : List (Timer.Event κ)) :
    Shows c .start ⟨queue, [], none⟩ :=
  ⟨inv_start, List.Perm.refl _, rfl⟩

/--
**Refinement.** Whatever the two threads do, as long as no step takes an alarm of
the client with it, the client sees a run of the plain timer: the same events
handled and the same ticks passed on, in the same order, and at its end the
tasks of the client that wait are the tasks of the plain timer.
-/
theorem refines (c : Client κ) {acts : List Action}
    (h : (machine.guarded c.Spares).Path .start acts) :
    ∃ acts', (plain κ).Path ⟨[], [], none⟩ acts' ∧
      Shows c (machine.exec .start acts) ((plain κ).exec ⟨[], [], none⟩ acts') ∧
      (plain κ).observe plainSeen ⟨[], [], none⟩ acts' = machine.observe c.seen .start acts := by
  have hStep : ∀ (s : State) (a : Timer.State κ) (act : Action), (Shows c s a ∧ a.queue = []) →
      (machine.guarded c.Spares).enabled s act → ∃ acts', (plain κ).Path a acts' ∧
        (Shows c (s.apply act) ((plain κ).exec a acts') ∧ ((plain κ).exec a acts').queue = []) ∧
        (plain κ).observe plainSeen a acts' = c.seen s act := by
    rintro s a act ⟨hShows, hEmpty⟩ ⟨hEn, hSpares⟩
    have hQueue : (a.send (c.handled act).toList).queue = (c.handled act).toList ++ [] := by
      rw [Timer.State.send, hEmpty, List.append_nil]
      rfl
    have hSent : Shows c s (a.send (c.handled act).toList) :=
      ⟨hShows.inv, hShows.all, hShows.passing⟩
    obtain ⟨a', hMoves, hRest, hNext⟩ := shows_apply hSent hEn hSpares hQueue
    obtain ⟨acts', hPath, hExec, hSeen⟩ := path_of_moves hMoves
    refine ⟨acts', hPath, ?_, hSeen⟩
    rw [hExec]
    exact ⟨hNext, hRest⟩
  obtain ⟨acts', hPath, hShows, hSeen⟩ := Machine.path_simulated
    (m := machine.guarded c.Spares) (n := plain κ) hStep acts .start ⟨[], [], none⟩
    ⟨shows_start c [], rfl⟩ h
  rw [Machine.exec_guarded] at hShows
  rw [Machine.observe_guarded] at hSeen
  exact ⟨acts', hPath, hShows.1, hSeen⟩

/-- A service with one alarm, without data; it reads the length of a cookie. -/
def oneAlarm : Client Unit where
  destination := [.localService [2]]
  packable := by decide
  alarm id data := if id = 1 ∧ data = [] then some () else none
  alarm_inj := by
    intro id id' data data' a h h'
    rw [Option.ite_none_right_eq_some] at h h'
    exact ⟨h.1.1.trans h'.1.1.symm, h.1.2.trans h'.1.2.symm⟩
  cookie := fun b => b.length

/-- The reset of the alarm with this cookie. -/
def aReset (cookie : Bytes) : Event :=
  .resetAlarm ⟨1, [], cookie, 10, [.localService [1], .localService [2]]⟩

/-- The alarm is reset again before it is due, and fires; in between the tick of another
service cannot be passed on. -/
def firesOnce : List Action :=
  [.handle (aReset [7]) .found, .push 0, .handle (aReset [7, 8]) .found, .push 5,
   .handle (.setAlarm ⟨3, [], [], 1, [.localService [1], .socketRoute 4]⟩) .found, .push 5,
   .enter, .next 6, .test, .passEvent true,
   .enter, .next 10, .test, .finish .found 10, .test,
   .next 15, .test, .passEvent false, .finish .found 15]

theorem refines_firesOnce :
    ∃ acts', (plain Unit).Path ⟨[], [], none⟩ acts' ∧
      Shows oneAlarm (machine.exec .start firesOnce)
        ((plain Unit).exec ⟨[], [], none⟩ acts') ∧
      (plain Unit).observe plainSeen ⟨[], [], none⟩ acts' =
        [.handled (.resetAlarm () 1), .handled (.resetAlarm () 2), .ticked ⟨(), 2⟩] := by
  have hSeen : machine.observe oneAlarm.seen .start firesOnce =
      [.handled (.resetAlarm () 1), .handled (.resetAlarm () 2), .ticked ⟨(), 2⟩] := by
    decide +kernel
  rw [← hSeen]
  exact refines oneAlarm (by decide +kernel)

end Megatron.Timer.Threads
