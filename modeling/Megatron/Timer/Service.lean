import Mathlib.Data.List.Basic

/-!
# The timer service and its alarms

A service arms an alarm by sending `ResetAlarm` to the timer and disarms it by
`StopAlarm`; both travel through the queue of the timer.  A task is known by
its key, the id and the data of the alarm (and the service it is for): a reset
replaces the tasks of its key, a stop removes them, and the worker turns a
task that is due into one `TickAlarm`.  The worker looks at `erased` before it
passes the tick on, and between the two the queue may be served, so a tick can
come after the stop that was meant for it.

Time is left out: any task may be due at any moment.

## Main results

* `armed_reset` — an alarm is armed from the moment its reset is sent.
* `armed_send_of_stops` — a stop touches its own key only.
* `armed_handle`, `armed_fire`, `armed_pass` — no step of the timer loses an
  alarm that is not turned into a tick.
-/

namespace Megatron.Timer

universe u

/-- `Timer::task` of type `TYPE_ALARM`: its id and data, and its cookie. -/
structure Task (κ : Type u) where
  key : κ
  cookie : Int
  deriving DecidableEq

/-- The events of the queue. -/
inductive Event (κ : Type u) where
  | resetAlarm (key : κ) (cookie : Int)
  | stopAlarm (key : κ)
  deriving DecidableEq

/-- The key of the tasks an event is about. -/
def Event.key {κ : Type u} : Event κ → κ
  | .resetAlarm key _ => key
  | .stopAlarm key => key

/-- The queue, the tasks that are not `erased`, and the task whose tick the
worker is about to pass on. -/
structure State (κ : Type u) where
  queue : List (Event κ)
  all : List (Task κ)
  passing : Option (Task κ)

variable {κ : Type u} [DecidableEq κ]

/-- `_all::remove`: the tasks of the key are erased. -/
def remove (all : List (Task κ)) (key : κ) : List (Task κ) :=
  all.filter (·.key ≠ key)

/-- `_all::replace`. -/
def replace (all : List (Task κ)) (t : Task κ) : List (Task κ) := t :: remove all t.key

/-- `on_ResetAlarm` and `on_StopAlarm`. -/
def handleEvent (all : List (Task κ)) : Event κ → List (Task κ)
  | .resetAlarm key cookie => replace all ⟨key, cookie⟩
  | .stopAlarm key => remove all key

/-- What can happen in the timer: its queue is served, the worker takes a task
that is due, or it passes the tick on. -/
inductive Action where
  | handle
  | fire (i : Nat)
  | pass
  deriving DecidableEq

namespace State

/-- The tasks once the queue has been served. -/
def settled (s : State κ) : List (Task κ) := s.queue.foldl handleEvent s.all

/-- Events sent to the timer. -/
def send (s : State κ) (es : List (Event κ)) : State κ := { s with queue := s.queue ++ es }

def enabled (s : State κ) : Action → Prop
  | .handle => s.queue ≠ []
  | .fire i => s.passing = none ∧ i < s.all.length
  | .pass => s.passing.isSome

instance decidableEnabled (s : State κ) : ∀ a, Decidable (s.enabled a)
  | .handle => inferInstanceAs (Decidable (s.queue ≠ []))
  | .fire i => inferInstanceAs (Decidable (s.passing = none ∧ i < s.all.length))
  | .pass => inferInstanceAs (Decidable (s.passing.isSome))

/-- A step of the timer, and the tick it passes on. -/
def step (s : State κ) : Action → State κ × List (Task κ)
  | .handle =>
      match s.queue with
      | [] => (s, [])
      | e :: queue => ({ s with queue := queue, all := handleEvent s.all e }, [])
  | .fire i => ({ s with all := s.all.eraseIdx i, passing := s.all[i]? }, [])
  | .pass => ({ s with passing := none }, s.passing.toList)

/-- The alarm is armed: its task waits, will wait once the queue is served, or
has its tick passed on next. -/
def Armed (s : State κ) (key : κ) (cookie : Int) : Prop :=
  s.passing = some ⟨key, cookie⟩ ∨ ⟨key, cookie⟩ ∈ s.settled

end State

/-! ## Tasks -/

theorem mem_remove {all : List (Task κ)} {key : κ} {t : Task κ} :
    t ∈ remove all key ↔ t ∈ all ∧ t.key ≠ key := by
  simp [remove]

theorem mem_handleEvent {all : List (Task κ)} {e : Event κ} {t : Task κ} :
    t ∈ handleEvent all e ↔
      t ∈ handleEvent [] e ∨ (t ∈ all ∧ t.key ≠ e.key) := by
  cases e with
  | resetAlarm key cookie => simp [handleEvent, replace, remove, Event.key]
  | stopAlarm key => simp [handleEvent, remove, Event.key]

/-- A task comes from the events, or it was there and no event is about it. -/
theorem mem_foldl_handleEvent {es : List (Event κ)} {all : List (Task κ)} {t : Task κ} :
    t ∈ es.foldl handleEvent all ↔
      t ∈ es.foldl handleEvent [] ∨ (t ∈ all ∧ ∀ e ∈ es, t.key ≠ e.key) := by
  induction es generalizing all with
  | nil => simp
  | cons e es ih =>
      have hRest := @ih (handleEvent [] e)
      rw [List.foldl_cons, List.foldl_cons, ih, hRest, mem_handleEvent]
      simp only [List.forall_mem_cons]
      tauto

/-- A task that is there was there, or an event armed it. -/
theorem mem_or_reset_of_mem_foldl {es : List (Event κ)} {all : List (Task κ)} {t : Task κ}
    (h : t ∈ es.foldl handleEvent all) : t ∈ all ∨ .resetAlarm t.key t.cookie ∈ es := by
  induction es generalizing all with
  | nil => exact Or.inl h
  | cons e es ih =>
      rcases ih h with h | h
      · cases e with
        | resetAlarm key cookie =>
            rcases List.mem_cons.1 h with rfl | h
            · exact Or.inr List.mem_cons_self
            · exact Or.inl (mem_remove.1 h).1
        | stopAlarm key => exact Or.inl (mem_remove.1 h).1
      · exact Or.inr (List.mem_cons_of_mem e h)

namespace State

/-- Where a task can come from that is there once the queue is served. -/
theorem mem_settled {s : State κ} {t : Task κ} :
    t ∈ s.settled ↔
      t ∈ s.queue.foldl handleEvent [] ∨ (t ∈ s.all ∧ ∀ e ∈ s.queue, t.key ≠ e.key) :=
  mem_foldl_handleEvent

theorem settled_send (s : State κ) (es : List (Event κ)) :
    (s.send es).settled = es.foldl handleEvent s.settled := by
  simp [settled, send]

omit [DecidableEq κ] in
@[simp] theorem passing_send (s : State κ) (es : List (Event κ)) :
    (s.send es).passing = s.passing := rfl

omit [DecidableEq κ] in
@[simp] theorem send_nil (s : State κ) : s.send [] = s := by
  simp [send]

omit [DecidableEq κ] in
theorem send_append (s : State κ) (es es' : List (Event κ)) :
    s.send (es ++ es') = (s.send es).send es' := by
  simp [send]

/-! ## What events do to an alarm -/

/-- **Armed at once.** -/
theorem armed_reset (s : State κ) (key : κ) (cookie : Int) :
    (s.send [.resetAlarm key cookie]).Armed key cookie := by
  refine Or.inr ?_
  rw [settled_send]
  exact List.mem_cons_self

/-- Events about other alarms leave an alarm as it is. -/
theorem armed_send {s : State κ} {key : κ} {cookie : Int} (h : s.Armed key cookie)
    {es : List (Event κ)} (hOther : ∀ e ∈ es, e.key ≠ key) : (s.send es).Armed key cookie := by
  rcases h with h | h
  · exact Or.inl h
  · refine Or.inr ?_
    rw [settled_send, mem_foldl_handleEvent]
    exact Or.inr ⟨h, fun e he => (hOther e he).symm⟩

/-- Events that stop or reset other alarms, or reset this one with the cookie it has, leave it
armed. -/
theorem armed_send_of_stops {s : State κ} {key : κ} {cookie : Int} (h : s.Armed key cookie)
    {es : List (Event κ)} (hKeep : ∀ e ∈ es, e.key = key → e = .resetAlarm key cookie) :
    (s.send es).Armed key cookie := by
  induction es generalizing s with
  | nil => simpa using h
  | cons e es ih =>
      have hSplit : s.send (e :: es) = (s.send [e]).send es := send_append s [e] es
      rw [hSplit]
      refine ih ?_ fun e' he' => hKeep e' (List.mem_cons_of_mem e he')
      by_cases he : e.key = key
      · rw [hKeep e List.mem_cons_self he]
        exact armed_reset s key cookie
      · refine armed_send h fun e' he' => ?_
        rw [List.mem_singleton.1 he']
        exact he

/-- The reset that comes last counts. -/
theorem armed_send_reset (s : State κ) (key : κ) (cookie : Int) (es es' : List (Event κ))
    (hKeep : ∀ e ∈ es', e.key = key → e = .resetAlarm key cookie) :
    (s.send (es ++ .resetAlarm key cookie :: es')).Armed key cookie := by
  have hSplit : s.send (es ++ .resetAlarm key cookie :: es') =
      ((s.send es).send [.resetAlarm key cookie]).send es' := by
    rw [← send_append, ← send_append]
    simp
  rw [hSplit]
  exact armed_send_of_stops (armed_reset (s.send es) key cookie) hKeep

/-- Armed by events of which every one about the alarm is that reset. -/
theorem armed_send_of_mem (s : State κ) {key : κ} {cookie : Int} {es : List (Event κ)}
    (hMem : .resetAlarm key cookie ∈ es)
    (hKeep : ∀ e ∈ es, e.key = key → e = .resetAlarm key cookie) :
    (s.send es).Armed key cookie := by
  obtain ⟨before, after, rfl⟩ := List.append_of_mem hMem
  exact armed_send_reset s key cookie before after fun e he =>
    hKeep e (List.mem_append_right before (List.mem_cons_of_mem _ he))

/-- Without a reset of its own an alarm that is armed after the events was
armed before. -/
theorem armed_of_send {s : State κ} {key : κ} {cookie : Int} {es : List (Event κ)}
    (h : (s.send es).Armed key cookie) (hNone : .resetAlarm key cookie ∉ es) :
    s.Armed key cookie := by
  rcases h with h | h
  · exact Or.inl h
  · refine Or.inr ?_
    rw [settled_send] at h
    exact (mem_or_reset_of_mem_foldl h).resolve_right hNone

/-! ## What the steps of the timer do to an alarm -/

theorem armed_handle {s : State κ} {key : κ} {cookie : Int} (h : s.Armed key cookie) :
    (s.step .handle).1.Armed key cookie := by
  cases hQueue : s.queue with
  | nil => simpa [step, hQueue] using h
  | cons e queue =>
      simp only [Armed, settled, step, hQueue, List.foldl_cons] at h ⊢
      exact h

theorem armed_fire {s : State κ} {key : κ} {cookie : Int} (h : s.Armed key cookie) {i : Nat}
    (hEn : s.enabled (.fire i)) : (s.step (.fire i)).1.Armed key cookie := by
  obtain ⟨hFree, hLt⟩ := hEn
  have hMem : (⟨key, cookie⟩ : Task κ) ∈ s.settled := by
    rcases h with h | h
    · rw [hFree] at h
      cases h
    · exact h
  have hTaken : (s.step (.fire i)).1.passing = some s.all[i] := List.getElem?_eq_getElem hLt
  rcases mem_settled.1 hMem with hLate | ⟨hAll, hOther⟩
  · exact Or.inr (mem_settled.2 (Or.inl hLate))
  · obtain ⟨j, hj, hEq⟩ := List.mem_iff_getElem.1 hAll
    by_cases hji : j = i
    · subst hji
      exact Or.inl (hTaken.trans (congrArg some hEq))
    · refine Or.inr (mem_settled.2 (Or.inr ⟨?_, hOther⟩))
      exact List.mem_eraseIdx_iff_getElem.2 ⟨j, hj, hji, hEq⟩

/-- After the tick has been passed on, it is a tick or still armed. -/
theorem armed_pass {s : State κ} {key : κ} {cookie : Int} (h : s.Armed key cookie) :
    (s.step .pass).1.Armed key cookie ∨ ⟨key, cookie⟩ ∈ (s.step .pass).2 := by
  rcases h with h | h
  · exact Or.inr (by simp [step, h])
  · exact Or.inl (Or.inr h)

end State

/-! ## Where tasks come from -/

namespace State

/-- Everything in the timer, as tasks. -/
def pending (s : State κ) : List (Task κ) :=
  s.passing.toList ++ s.all ++ s.queue.filterMap fun
    | .resetAlarm key cookie => some ⟨key, cookie⟩
    | .stopAlarm _ => none

omit [DecidableEq κ] in
theorem mem_pending {s : State κ} {t : Task κ} :
    t ∈ s.pending ↔
      s.passing = some t ∨ t ∈ s.all ∨ .resetAlarm t.key t.cookie ∈ s.queue := by
  simp only [pending, List.mem_append, Option.mem_toList, or_assoc, List.mem_filterMap]
  refine or_congr_right (or_congr_right ⟨?_, fun h => ⟨_, h, rfl⟩⟩)
  rintro ⟨e, he, hTask⟩
  cases e with
  | resetAlarm key cookie =>
      obtain rfl := Option.some.inj hTask
      exact he
  | stopAlarm key => cases hTask

/-- An armed alarm is somewhere in the timer. -/
theorem mem_pending_of_armed {s : State κ} {key : κ} {cookie : Int}
    (h : s.Armed key cookie) : ⟨key, cookie⟩ ∈ s.pending := by
  rcases h with h | h
  · exact mem_pending.2 (Or.inl h)
  · exact mem_pending.2 (Or.inr (mem_or_reset_of_mem_foldl h))

omit [DecidableEq κ] in
theorem pending_send {s : State κ} {es : List (Event κ)} {t : Task κ}
    (h : t ∈ (s.send es).pending) : t ∈ s.pending ∨ .resetAlarm t.key t.cookie ∈ es := by
  rw [mem_pending] at h
  rw [mem_pending]
  rcases h with h | h | h
  · exact Or.inl (Or.inl h)
  · exact Or.inl (Or.inr (Or.inl h))
  · rcases List.mem_append.1 h with h | h
    · exact Or.inl (Or.inr (Or.inr h))
    · exact Or.inr h

/-- A step of the timer makes no task. -/
theorem pending_step {s : State κ} {a : Action} {t : Task κ}
    (h : t ∈ (s.step a).1.pending ∨ t ∈ (s.step a).2) : t ∈ s.pending := by
  cases a with
  | handle =>
      cases hQueue : s.queue with
      | nil => simpa [step, hQueue] using h
      | cons e queue =>
          simp only [step, hQueue, mem_pending, List.not_mem_nil, or_false,
            List.mem_cons] at h ⊢
          rcases h with h | h | h
          · exact Or.inl h
          · cases e with
            | resetAlarm key cookie =>
                rcases List.mem_cons.1 h with rfl | h
                · exact Or.inr (Or.inr (Or.inl rfl))
                · exact Or.inr (Or.inl (mem_remove.1 h).1)
            | stopAlarm key => exact Or.inr (Or.inl (mem_remove.1 h).1)
          · exact Or.inr (Or.inr (Or.inr h))
  | fire i =>
      simp only [step, mem_pending, List.not_mem_nil, or_false] at h ⊢
      rcases h with h | h | h
      · exact Or.inr (Or.inl (List.mem_of_getElem? h))
      · exact Or.inr (Or.inl (List.mem_of_mem_eraseIdx h))
      · exact Or.inr (Or.inr h)
  | pass =>
      simp only [step, mem_pending, Option.mem_toList] at h ⊢
      rcases h with (h | h | h) | h
      · cases h
      · exact Or.inr (Or.inl h)
      · exact Or.inr (Or.inr h)
      · exact Or.inl h

end State

end Megatron.Timer
