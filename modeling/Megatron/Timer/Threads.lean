import Megatron.Corelib.RouteOrder
import Megatron.Lib.Machine

/-!
# The timer and its two threads

A task is in two structures: in `timers` under its key, and in `mx_nexts` at
the time it is due.  The handler thread serves the events, one critical section
on each structure; the worker takes all tasks of one time out of `mx_nexts` and
passes their ticks on with no lock held.  What the two share besides is the
flag `erased` of each task.

An `Action` is one critical section, or one read of a flag, of one of the two;
the other can act between any two.  The clock is what the environment says it
is, and so is whether `passEvent` throws.  The map compares keys, and comparing
routes throws on listeners; where that can happen, an action says what happened.

## Main results

* `Key.lt_error`, `Key.lt_self`, `Key.lt_trichotomous` — a look-up finds the
  equal key, and throws only for a destination with a listener.
* `State.handle_cases` — the five events, as what they do to the table.
-/

namespace Megatron.Timer.Threads

open Megatron.Corelib Megatron.Lib

/-! ## Tasks -/

/-- `task::TYP`. -/
inductive TaskType
  | alarm
  | timer
  deriving DecidableEq

/-- The place of the type in the enumeration. -/
def TaskType.toNat : TaskType → Nat
  | .alarm => 0
  | .timer => 1

/-- What `_searchKey` compares of a task. -/
structure Key where
  id : Int32
  type : TaskType
  destination : RouteT
  data : Bytes
  deriving DecidableEq

/-- `_searchKey::operator<`. -/
def Key.lt (a b : Key) : Except CommonError Bool :=
  if a.id ≠ b.id then .ok (decide (a.id < b.id))
  else if a.type ≠ b.type then .ok (decide (a.type.toNat < b.type.toNat))
  else
    match routeEq a.destination b.destination with
    | .error e => .error e
    | .ok false => routeLt a.destination b.destination
    | .ok true => .ok (bytesLt a.data b.data)

/-- `task`: `ptr` is the address of the object, and the period is in
microseconds, as the clock.  The flag `erased` is in `State`. -/
structure Task where
  ptr : Nat
  key : Key
  cookie : Bytes
  period : Int
  deriving DecidableEq

/-- What `SetTimer`, `SetAlarm` and `ResetAlarm` carry. -/
structure Setting where
  tid : Int32
  data : Bytes
  cookie : Bytes
  delay : Int
  route : RouteT
  deriving DecidableEq

/-- The events of `namespace timerEvent` the timer serves. -/
inductive Event
  | setTimer (e : Setting)
  | setAlarm (e : Setting)
  | resetAlarm (e : Setting)
  | stopTimer (tid : Int32) (data : Bytes) (route : RouteT)
  | stopAlarm (tid : Int32) (data : Bytes) (route : RouteT)

/-- `new task`, for a route whose front has been popped. -/
def Setting.task (ptr : Nat) (type : TaskType) (e : Setting) (destination : RouteT) : Task :=
  ⟨ptr, ⟨e.tid, type, destination, e.data⟩, e.cookie, e.delay⟩

/-- Two keys throw only where both destinations have a listener. -/
theorem Key.lt_error {a b : Key} {e : CommonError} (h : a.lt b = .error e) :
    ¬ Packable a.destination ∧ ¬ Packable b.destination := by
  rw [Key.lt] at h
  split at h
  · cases h
  split at h
  · cases h
  split at h
  · rename_i hEq
    exact routeEq_error hEq
  · exact routeLt_error h
  · cases h

theorem bytesLt_irrefl (b : Bytes) : bytesLt b b = false :=
  (lexLt_asymm fun x y hLt => by
    simp only [decide_eq_true_eq, decide_eq_false_iff_not] at hLt ⊢
    exact UInt8.lt_asymm hLt).irrefl b

/-- A key is not less than itself, or cannot be compared with itself. -/
theorem Key.lt_self (k : Key) :
    k.lt k = .ok false ∧ Packable k.destination ∨
      k.lt k = .error ⟨"invalid route type 7"⟩ ∧ ¬ Packable k.destination := by
  rw [Key.lt, if_neg (not_not.2 rfl), if_neg (not_not.2 rfl)]
  rcases routeEq_self k.destination with ⟨hEq, hPack⟩ | ⟨hEq, hPack⟩
  · rw [hEq, bytesLt_irrefl]
    exact Or.inl ⟨rfl, hPack⟩
  · rw [hEq]
    exact Or.inr ⟨rfl, hPack⟩

theorem TaskType.toNat_inj {a b : TaskType} (h : a.toNat = b.toNat) : a = b := by
  cases a <;> cases b <;> first | rfl | cases h

/-- Of two different keys one is less. -/
theorem Key.lt_trichotomous {a b : Key} (h : a.lt b = .ok false) (h' : b.lt a = .ok false) :
    a = b := by
  rw [Key.lt] at h h'
  by_cases hId : a.id = b.id
  · rw [if_neg (not_not.2 hId)] at h
    rw [if_neg (not_not.2 hId.symm)] at h'
    by_cases hType : a.type = b.type
    · rw [if_neg (not_not.2 hType)] at h
      rw [if_neg (not_not.2 hType.symm)] at h'
      have hDestination : a.destination = b.destination := by
        cases hEq : routeEq a.destination b.destination with
        | error e => rw [hEq] at h; cases h
        | ok same =>
            cases same with
            | true => exact routeEq_eq_true hEq
            | false =>
                rw [hEq] at h
                cases hEq' : routeEq b.destination a.destination with
                | error e => rw [hEq'] at h'; cases h'
                | ok same' =>
                    cases same' with
                    | true => exact (routeEq_eq_true hEq').symm
                    | false =>
                        rw [hEq'] at h'
                        exact routeLt_trichotomous h h'
      have hData : a.data = b.data := by
        rw [hDestination] at h h'
        rcases routeEq_self b.destination with ⟨hSelf, -⟩ | ⟨hSelf, -⟩
        · rw [hSelf] at h h'
          exact bytesLt_trichotomous (Except.ok.inj h) (Except.ok.inj h')
        · rw [hSelf] at h
          cases h
      cases a
      cases b
      simp_all
    · rw [if_pos hType] at h
      rw [if_pos (Ne.symm hType)] at h'
      have hLe := of_decide_eq_false (Except.ok.inj h)
      have hGe := of_decide_eq_false (Except.ok.inj h')
      exact absurd (TaskType.toNat_inj (by omega)) hType
  · rw [if_pos hId] at h
    rw [if_pos (Ne.symm hId)] at h'
    have hLe := of_decide_eq_false (Except.ok.inj h)
    have hGe := of_decide_eq_false (Except.ok.inj h')
    exact absurd (Int32.le_antisymm (Int32.not_lt.1 hGe) (Int32.not_lt.1 hLe)) hId

/-! ## The two threads -/

/-- Where the handler thread is: between two events, or between the two
structures, with the event it resets an alarm for. -/
inductive Handler
  | idle
  | push (t : Task)
  | pushReset (e : Setting) (t : Task)
  deriving DecidableEq

/-- Where the worker is: the two loops and their waits, and the `for` loop over
the copied batch with what is left of it. -/
inductive Worker
  | outer
  | waiting
  | inner
  | timedWaiting
  | batch (rest : List Task)
  | delivering (t : Task) (rest : List Task)
  | delivered (t : Task) (rest : List Task)
  | dropping (t : Task) (rest : List Task)
  deriving DecidableEq

/-- What has been done: a task came to the table, the tasks of a key were
cancelled, a reset was handled completely, the worker looked at a flag, and it
passed a tick on. -/
inductive Entry
  | added (t : Task)
  | cancelled (k : Key)
  | reset (e : Setting) (t : Task) (now : Int)
  | tested (t : Task)
  | delivered (t : Task)
  deriving DecidableEq

/-- `timers` and `mx_nexts`, the flags that are set, the two threads, the
address of the next object, and what has been done, the latest first. -/
structure State where
  timers : Key → Option (List Task)
  nexts : List (Int × List Task)
  erased : List Task
  handler : Handler
  worker : Worker
  fresh : Nat
  log : List Entry

/-- The service when its worker starts. -/
def State.start : State := ⟨fun _ => none, [], [], .idle, .outer, 0, []⟩

/-- `n->mx_nexts[tb].push_back(t)`. -/
def pushBack (tb : Int) (t : Task) : List (Int × List Task) → List (Int × List Task)
  | [] => [(tb, [t])]
  | (time, ts) :: rest =>
      if tb < time then (tb, [t]) :: (time, ts) :: rest
      else if time < tb then (time, ts) :: pushBack tb t rest
      else (time, ts ++ [t]) :: rest

/-- How the look-ups of an operation on `timers` end: none throws, the first
does, or the one after it. -/
inductive Lookup
  | found
  | throws
  | throwsAgain
  deriving DecidableEq

/-- One critical section, or one read of a flag. -/
inductive Action
  | handle (ev : Event) (l : Lookup)
  | push (now : Int)
  | enter
  | wake
  | next (now : Int)
  | test
  | passEvent (throws : Bool)
  | finish (l : Lookup) (now : Int)

namespace State

/-- The set under a key, where there is one. -/
def listed (s : State) (k : Key) : List Task := (s.timers k).getD []

/-- `timers[k]`. -/
def Finds (s : State) (k : Key) : Lookup → Prop
  | .found => s.timers k = none ∨ Packable k.destination
  | .throws => ¬ Packable k.destination
  | .throwsAgain => False

/-- `timers[k]`, and `timers.erase(k)` after it, which comes to the same key. -/
def FindsTwice (s : State) (k : Key) : Lookup → Prop
  | .found => Packable k.destination
  | .throws => ¬ Packable k.destination
  | .throwsAgain => s.timers k = none ∧ ¬ Packable k.destination

/-- `_all::add`. -/
def add (s : State) (t : Task) : Lookup → State
  | .found =>
      { s with timers := Function.update s.timers t.key (some (t :: s.listed t.key)),
               fresh := s.fresh + 1, handler := .push t, log := .added t :: s.log }
  | _ => s

/-- `_all::replace`. -/
def replace (s : State) (e : Setting) (t : Task) : Lookup → State
  | .found =>
      { s with erased := s.listed t.key ++ s.erased,
               timers := Function.update s.timers t.key (some [t]),
               fresh := s.fresh + 1, handler := .pushReset e t,
               log := .added t :: .cancelled t.key :: s.log }
  | .throws => s
  | .throwsAgain => { s with timers := Function.update s.timers t.key (some []) }

/-- `_all::remove`. -/
def remove (s : State) (k : Key) : Lookup → State
  | .found =>
      { s with erased := s.listed k ++ s.erased, timers := Function.update s.timers k none,
               log := .cancelled k :: s.log }
  | .throws => s
  | .throwsAgain => { s with timers := Function.update s.timers k (some []) }

/-- `_all::remove_t_only`, and the worker after it. -/
def removeTOnly (s : State) (t : Task) (rest : List Task) : Lookup → State
  | .found =>
      { s with timers := Function.update s.timers t.key (some ((s.listed t.key).filter (· ≠ t))),
               worker := .batch rest }
  | _ => { s with worker := .outer }

/-- `r.pop_front()` throws on an empty route, and the handler ends there. -/
def popFront (s : State) (route : RouteT) (handler : RouteT → State) : State :=
  match route with
  | [] => s
  | _ :: r => handler r

/-- `on_SetTimer`, up to the end of the table's section; so are all five. -/
def onSetTimer (s : State) (l : Lookup) (e : Setting) : State :=
  s.popFront e.route fun r => s.add (e.task s.fresh .timer r) l

/-- `on_SetAlarm`. -/
def onSetAlarm (s : State) (l : Lookup) (e : Setting) : State :=
  s.popFront e.route fun r => s.add (e.task s.fresh .alarm r) l

/-- `on_ResetAlarm`. -/
def onResetAlarm (s : State) (l : Lookup) (e : Setting) : State :=
  s.popFront e.route fun r => s.replace e (e.task s.fresh .alarm r) l

/-- `on_StopTimer`. -/
def onStopTimer (s : State) (l : Lookup) (tid : Int32) (data : Bytes) (route : RouteT) : State :=
  s.popFront route fun r => s.remove ⟨tid, .timer, r, data⟩ l

/-- `on_StopAlarm`. -/
def onStopAlarm (s : State) (l : Lookup) (tid : Int32) (data : Bytes) (route : RouteT) : State :=
  s.popFront route fun r => s.remove ⟨tid, .alarm, r, data⟩ l

/-- `handleEvent`. -/
def handle (s : State) (l : Lookup) : Event → State
  | .setTimer e => s.onSetTimer l e
  | .setAlarm e => s.onSetAlarm l e
  | .resetAlarm e => s.onResetAlarm l e
  | .stopTimer tid data route => s.onStopTimer l tid data route
  | .stopAlarm tid data route => s.onStopAlarm l tid data route

/-- What a handler can meet in the table. -/
def Handles (s : State) (l : Lookup) : Event → Prop
  | .setTimer e => ∀ r ∈ e.route.tail?, s.Finds ⟨e.tid, .timer, r, e.data⟩ l
  | .setAlarm e => ∀ r ∈ e.route.tail?, s.Finds ⟨e.tid, .alarm, r, e.data⟩ l
  | .resetAlarm e => ∀ r ∈ e.route.tail?, s.FindsTwice ⟨e.tid, .alarm, r, e.data⟩ l
  | .stopTimer tid data route => ∀ r ∈ route.tail?, s.FindsTwice ⟨tid, .timer, r, data⟩ l
  | .stopAlarm tid data route => ∀ r ∈ route.tail?, s.FindsTwice ⟨tid, .alarm, r, data⟩ l

/-- The handler's section on `mx_nexts`. -/
def push (s : State) (now : Int) : State :=
  match s.handler with
  | .idle => s
  | .push t => { s with nexts := pushBack (now + t.period) t s.nexts, handler := .idle }
  | .pushReset e t =>
      { s with nexts := pushBack (now + t.period) t s.nexts, handler := .idle,
               log := .reset e t now :: s.log }

/-- The worker's section on `mx_nexts`; where there is nothing, the copy of the
batch stays empty. -/
def next (s : State) (now : Int) : State :=
  match s.nexts with
  | [] => { s with worker := .batch [] }
  | (time, ts) :: rest =>
      if now < time then { s with worker := .timedWaiting }
      else { s with nexts := rest, worker := .batch ts }

/-- The head of the `for` loop, and the test of the flag. -/
def test (s : State) : List Task → State
  | [] => { s with worker := .inner }
  | t :: rest =>
      { s with worker := if t ∈ s.erased then .dropping t rest else .delivering t rest,
               log := .tested t :: s.log }

/-- `passEvent` of the tick. -/
def passEvent (s : State) (t : Task) (rest : List Task) : Bool → State
  | true => { s with worker := .outer }
  | false => { s with worker := .delivered t rest, log := .delivered t :: s.log }

/-- After the tick: a timer is due again, an alarm leaves the table. -/
def finish (s : State) (t : Task) (rest : List Task) (l : Lookup) (now : Int) : State :=
  match t.key.type with
  | .timer => { s with nexts := pushBack (now + t.period) t s.nexts, worker := .batch rest }
  | .alarm => s.removeTOnly t rest l

/-- One step of one of the two threads. -/
def apply (s : State) : Action → State
  | .handle ev l => s.handle l ev
  | .push now => s.push now
  | .enter => { s with worker := if s.nexts = [] then .waiting else .inner }
  | .wake => { s with worker := .inner }
  | .next now => s.next now
  | .test =>
      match s.worker with
      | .batch rest => s.test rest
      | _ => s
  | .passEvent throws =>
      match s.worker with
      | .delivering t rest => s.passEvent t rest throws
      | _ => s
  | .finish l now =>
      match s.worker with
      | .delivered t rest => s.finish t rest l now
      | .dropping t rest => s.removeTOnly t rest l
      | _ => s

/-- The worker is at the head of the `for` loop. -/
def AtTest : Worker → Prop
  | .batch _ => True
  | _ => False

/-- The worker is about to pass the tick on. -/
def AtPassEvent : Worker → Prop
  | .delivering _ _ => True
  | _ => False

/-- The worker has passed the tick on or left it, and what it finds in the
table. -/
def AtFinish (s : State) (l : Lookup) : Worker → Prop
  | .delivered t _ => if t.key.type = .timer then l = .found else s.Finds t.key l
  | .dropping t _ => s.Finds t.key l
  | _ => False

/-- The threads are where the step begins, and the look-ups can end as said. -/
def Enabled (s : State) : Action → Prop
  | .handle ev l => s.handler = .idle ∧ s.Handles l ev
  | .push _ => s.handler ≠ .idle
  | .enter => s.worker = .outer
  | .wake => s.worker = .waiting ∨ s.worker = .timedWaiting
  | .next _ => s.worker = .inner
  | .test => AtTest s.worker
  | .passEvent _ => AtPassEvent s.worker
  | .finish l _ => s.AtFinish l s.worker

instance decidableFinds (s : State) (k : Key) : DecidablePred (s.Finds k)
  | .found => inferInstanceAs (Decidable (s.timers k = none ∨ Packable k.destination))
  | .throws => inferInstanceAs (Decidable (¬ Packable k.destination))
  | .throwsAgain => .isFalse id

instance decidableFindsTwice (s : State) (k : Key) : DecidablePred (s.FindsTwice k)
  | .found => inferInstanceAs (Decidable (Packable k.destination))
  | .throws => inferInstanceAs (Decidable (¬ Packable k.destination))
  | .throwsAgain => inferInstanceAs (Decidable (s.timers k = none ∧ ¬ Packable k.destination))

instance decidableHandles (s : State) (l : Lookup) : DecidablePred (s.Handles l)
  | .setTimer e => inferInstanceAs (Decidable (∀ r ∈ e.route.tail?, s.Finds _ l))
  | .setAlarm e => inferInstanceAs (Decidable (∀ r ∈ e.route.tail?, s.Finds _ l))
  | .resetAlarm e => inferInstanceAs (Decidable (∀ r ∈ e.route.tail?, s.FindsTwice _ l))
  | .stopTimer _ _ route => inferInstanceAs (Decidable (∀ r ∈ route.tail?, s.FindsTwice _ l))
  | .stopAlarm _ _ route => inferInstanceAs (Decidable (∀ r ∈ route.tail?, s.FindsTwice _ l))

instance decidableAtTest : DecidablePred AtTest
  | .batch _ => .isTrue trivial
  | .outer | .waiting | .inner | .timedWaiting => .isFalse id
  | .delivering _ _ | .delivered _ _ | .dropping _ _ => .isFalse id

instance decidableAtPassEvent : DecidablePred AtPassEvent
  | .delivering _ _ => .isTrue trivial
  | .outer | .waiting | .inner | .timedWaiting => .isFalse id
  | .batch _ | .delivered _ _ | .dropping _ _ => .isFalse id

instance decidableAtFinish (s : State) (l : Lookup) : DecidablePred (s.AtFinish l)
  | .delivered t _ => inferInstanceAs
      (Decidable (if t.key.type = .timer then l = .found else s.Finds t.key l))
  | .dropping t _ => inferInstanceAs (Decidable (s.Finds t.key l))
  | .outer | .waiting | .inner | .timedWaiting => .isFalse id
  | .batch _ | .delivering _ _ => .isFalse id

instance decidableEnabled (s : State) : DecidablePred s.Enabled
  | .handle ev l => inferInstanceAs (Decidable (s.handler = .idle ∧ s.Handles l ev))
  | .push _ => inferInstanceAs (Decidable (s.handler ≠ .idle))
  | .enter => inferInstanceAs (Decidable (s.worker = .outer))
  | .wake => inferInstanceAs (Decidable (s.worker = .waiting ∨ s.worker = .timedWaiting))
  | .next _ => inferInstanceAs (Decidable (s.worker = .inner))
  | .test => inferInstanceAs (Decidable (AtTest s.worker))
  | .passEvent _ => inferInstanceAs (Decidable (AtPassEvent s.worker))
  | .finish l _ => inferInstanceAs (Decidable (s.AtFinish l s.worker))

end State

/-- The timer, its events coming from outside. -/
def machine : Machine State Action where
  init s := s = .start
  enabled := State.Enabled
  apply := State.apply

instance : ∀ s a, Decidable (machine.enabled s a) := State.decidableEnabled

/-! ## What the handlers do -/

/-- `t` is the task of an alarm reset by `e`: it has the cookie and the delay of
the event, and its route without the front. -/
def Setting.Resets (e : Setting) (t : Task) : Prop :=
  ∃ x r, e.route = x :: r ∧ t = e.task t.ptr .alarm r

namespace State

/-- An event adds a task, replaces those of its key by one, removes them, or
does nothing. -/
theorem handle_cases {s : State} {l : Lookup} {ev : Event} (h : s.Handles l ev) :
    s.handle l ev = s ∨
      (∃ t, t.ptr = s.fresh ∧ s.Finds t.key l ∧ s.handle l ev = s.add t l) ∨
      (∃ e t, e.Resets t ∧ t.ptr = s.fresh ∧ s.FindsTwice t.key l ∧
        s.handle l ev = s.replace e t l) ∨
      ∃ k, s.FindsTwice k l ∧ s.handle l ev = s.remove k l := by
  cases ev with
  | setTimer e =>
      rw [handle, onSetTimer]
      cases hRoute : e.route with
      | nil => exact Or.inl rfl
      | cons x r =>
          have hFinds := h r (by rw [hRoute]; rfl)
          exact Or.inr (Or.inl ⟨e.task s.fresh .timer r, rfl, hFinds, rfl⟩)
  | setAlarm e =>
      rw [handle, onSetAlarm]
      cases hRoute : e.route with
      | nil => exact Or.inl rfl
      | cons x r =>
          have hFinds := h r (by rw [hRoute]; rfl)
          exact Or.inr (Or.inl ⟨e.task s.fresh .alarm r, rfl, hFinds, rfl⟩)
  | resetAlarm e =>
      rw [handle, onResetAlarm]
      cases hRoute : e.route with
      | nil => exact Or.inl rfl
      | cons x r =>
          have hFinds := h r (by rw [hRoute]; rfl)
          exact Or.inr (Or.inr (Or.inl ⟨e, e.task s.fresh .alarm r, ⟨x, r, hRoute, rfl⟩, rfl,
            hFinds, rfl⟩))
  | stopTimer tid data route =>
      rw [handle, onStopTimer]
      cases route with
      | nil => exact Or.inl rfl
      | cons x r => exact Or.inr (Or.inr (Or.inr ⟨_, h r rfl, rfl⟩))
  | stopAlarm tid data route =>
      rw [handle, onStopAlarm]
      cases route with
      | nil => exact Or.inl rfl
      | cons x r => exact Or.inr (Or.inr (Or.inr ⟨_, h r rfl, rfl⟩))

end State

end Megatron.Timer.Threads
