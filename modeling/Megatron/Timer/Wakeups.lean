import Mathlib.Data.List.Count
import Megatron.Timer.Tasks

/-!
# When the worker waits

The worker tests `mx_nexts` and starts to wait in one critical section, and a
handler inserts in one and signals after it.  So a signal that is still to come
is the only thing that can be between a task in `mx_nexts` and the end of the
wait.  `Waits` adds to the two threads what this is about: the signal a handler
still has to give, whether one has reached the wait, and the time the wait is
for.

Only the outer loop waits where `mx_nexts` is empty.  The inner one finds
nothing to take, has nothing to deliver, and begins again.

## Main results

* `idles_iff` — with nothing due, the worker waits next, unless it is in the
  inner loop and nothing is pending.
* `noLostWakeup_of_reachable` — a wait that a due task should end is ended.
* `passed_before_wait` — the worker does not wait again before a task that is
  due has been passed on.
* `worker_spins` — one alarm that fires leaves the worker in a busy loop.
-/

namespace Megatron.Timer.Threads

open Megatron.Corelib Megatron.Lib

/-! ## Waits and signals -/

/-- The two threads; whether the handler is between its section on `mx_nexts`
and `signal`; whether a signal has reached the wait; and the time a timed wait
is for. -/
structure Waits where
  state : State
  signals : Bool
  woken : Bool
  wakeAt : Option Int

/-- A step of one of the threads as before, or a signal. -/
inductive Step
  | act (a : Action)
  | signal

/-- `m_condition.wait()` or `m_condition.timedwait(ts)`. -/
def Worker.IsWaiting : Worker → Prop
  | .waiting | .timedWaiting => True
  | _ => False

instance : DecidablePred Worker.IsWaiting
  | .waiting | .timedWaiting => .isTrue trivial
  | .outer | .inner | .batch _ => .isFalse id
  | .delivering _ _ | .delivered _ _ | .dropping _ _ => .isFalse id

/-- The time of the first task. -/
def State.first (s : State) : Option Int := s.nexts.head?.map (·.1)

namespace Waits

/-- The service when its worker starts. -/
def start : Waits := ⟨.start, false, false, none⟩

/-- What a step does to the wait: it begins one, which no signal has reached
yet, and where it is timed, the time is that of the first task. -/
def apply (w : Waits) : Step → Waits
  | .signal => { w with signals := false, woken := w.woken || decide w.state.worker.IsWaiting }
  | .act (.push now) => { w with state := w.state.apply (.push now), signals := true }
  | .act .enter => { w with state := w.state.apply .enter, woken := false, wakeAt := none }
  | .act (.next now) =>
      { w with state := w.state.apply (.next now), woken := false, wakeAt := w.state.first }
  | .act a => { w with state := w.state.apply a }

/-- A handler goes on when it has given its signal. -/
def Enabled (w : Waits) : Step → Prop
  | .signal => w.signals = true
  | .act (.handle ev l) => w.signals = false ∧ w.state.Enabled (.handle ev l)
  | .act a => w.state.Enabled a

end Waits

/-- The timer with its condition variable. -/
def waitMachine : Machine Waits Step where
  init w := w = .start
  enabled := Waits.Enabled
  apply := Waits.apply

instance decidableWaits : ∀ w a, Decidable (waitMachine.enabled w a)
  | w, .signal => inferInstanceAs (Decidable (w.signals = true))
  | w, .act (.handle ev l) =>
      inferInstanceAs (Decidable (w.signals = false ∧ w.state.Enabled (.handle ev l)))
  | w, .act (.push now) => inferInstanceAs (Decidable (w.state.Enabled (.push now)))
  | w, .act .enter => inferInstanceAs (Decidable (w.state.Enabled .enter))
  | w, .act .wake => inferInstanceAs (Decidable (w.state.Enabled .wake))
  | w, .act (.next now) => inferInstanceAs (Decidable (w.state.Enabled (.next now)))
  | w, .act .test => inferInstanceAs (Decidable (w.state.Enabled .test))
  | w, .act (.passEvent throws) => inferInstanceAs (Decidable (w.state.Enabled (.passEvent throws)))
  | w, .act (.finish l now) => inferInstanceAs (Decidable (w.state.Enabled (.finish l now)))

/-- No task is due. -/
def State.NothingDue (s : State) (now : Int) : Prop := ∀ p ∈ s.nexts, now < p.1

/-- The worker goes on to its next look at `mx_nexts`, from a place where it has
no task. -/
def Waits.pass (w : Waits) (now : Int) : Waits :=
  match w.state.worker with
  | .outer =>
      let w' := w.apply (.act .enter)
      if w'.state.worker = .inner then w'.apply (.act (.next now)) else w'
  | .inner => w.apply (.act (.next now))
  | .batch [] => (w.apply (.act .test)).apply (.act (.next now))
  | _ => w

/-- The worker waits, or its next look at `mx_nexts` ends in a wait: without a
time where nothing is pending, else for the first task. -/
def Waits.Idles (w : Waits) (now : Int) : Prop :=
  w.state.worker.IsWaiting ∨
    if w.state.nexts = [] then (w.pass now).state.worker = .waiting
    else (w.pass now).state.worker = .timedWaiting ∧ (w.pass now).wakeAt = w.state.first

/-- The inner loop with nothing in `mx_nexts`. -/
def State.Spins (s : State) : Prop := s.nexts = [] ∧ (s.worker = .inner ∨ s.worker = .batch [])

variable {w : Waits} {s : State}

instance (s : State) (now : Int) : Decidable (s.NothingDue now) :=
  inferInstanceAs (Decidable (∀ p ∈ s.nexts, now < p.1))

theorem next_of_nothingDue {now : Int} (h : s.NothingDue now) (hNe : s.nexts ≠ []) :
    (s.next now).worker = .timedWaiting := by
  rw [State.next]
  split
  · rename_i hNil
    exact absurd hNil hNe
  · rename_i time ts rest hNexts
    rw [if_pos (h (time, ts) (by rw [hNexts]; exact List.mem_cons_self))]

/-- **Idling.** With nothing due, the next thing the worker does is to wait,
unless it is in the inner loop with nothing pending. -/
theorem idles_iff {now : Int} (hHeld : w.state.worker.held = []) (h : w.state.NothingDue now) :
    w.Idles now ↔ ¬ w.state.Spins := by
  rw [Waits.Idles, Waits.pass, State.Spins]
  cases hWorker : w.state.worker with
  | waiting => simp [Worker.IsWaiting]
  | timedWaiting => simp [Worker.IsWaiting]
  | delivering t rest =>
      rw [hWorker] at hHeld
      cases hHeld
  | delivered t rest =>
      rw [hWorker] at hHeld
      cases hHeld
  | dropping t rest =>
      rw [hWorker] at hHeld
      cases hHeld
  | outer =>
      by_cases hNil : w.state.nexts = []
      · simp [Worker.IsWaiting, Waits.apply, State.apply, hNil]
      · have hTimed : ({ w.state with worker := .inner }.next now).worker = .timedWaiting :=
          next_of_nothingDue h hNil
        simp [Worker.IsWaiting, Waits.apply, State.apply, hNil, hTimed, State.first]
  | inner =>
      by_cases hNil : w.state.nexts = []
      · simp [Worker.IsWaiting, Waits.apply, State.apply, State.next, hNil]
      · have hTimed := next_of_nothingDue h hNil
        simp [Worker.IsWaiting, Waits.apply, State.apply, hNil, hTimed]
  | batch rest =>
      rw [hWorker] at hHeld
      obtain rfl : rest = [] := hHeld
      by_cases hNil : w.state.nexts = []
      · simp [Worker.IsWaiting, Waits.apply, State.apply, State.test, State.next, hWorker, hNil]
      · have hTimed : ({ w.state with worker := .inner }.next now).worker = .timedWaiting :=
          next_of_nothingDue h hNil
        simp [Worker.IsWaiting, Waits.apply, State.apply, State.test, hWorker, hNil, hTimed,
          State.first]

/-! ## No lost wake-up -/

/-- The times of `mx_nexts` are in order. -/
def State.Sorted (s : State) : Prop := s.nexts.Pairwise fun p q => p.1 < q.1

theorem mem_fst_pushBack {tb : Int} {t : Task} {nexts : List (Int × List Task)}
    {p : Int × List Task} (h : p ∈ pushBack tb t nexts) :
    p.1 = tb ∨ ∃ q ∈ nexts, q.1 = p.1 := by
  induction nexts with
  | nil =>
      rw [List.mem_singleton.1 h]
      exact Or.inl rfl
  | cons q nexts ih =>
      obtain ⟨time, ts⟩ := q
      rw [pushBack] at h
      split at h
      · rcases List.mem_cons.1 h with rfl | hOld
        · exact Or.inl rfl
        · exact Or.inr ⟨p, hOld, rfl⟩
      split at h
      · rcases List.mem_cons.1 h with rfl | hRest
        · exact Or.inr ⟨_, List.mem_cons_self, rfl⟩
        · rcases ih hRest with hTb | ⟨q, hMem, hq⟩
          · exact Or.inl hTb
          · exact Or.inr ⟨q, List.mem_cons_of_mem _ hMem, hq⟩
      · rcases List.mem_cons.1 h with rfl | hRest
        · exact Or.inr ⟨_, List.mem_cons_self, rfl⟩
        · exact Or.inr ⟨p, List.mem_cons_of_mem _ hRest, rfl⟩

theorem sorted_pushBack (tb : Int) (t : Task) {nexts : List (Int × List Task)}
    (h : nexts.Pairwise fun p q => p.1 < q.1) :
    (pushBack tb t nexts).Pairwise fun p q => p.1 < q.1 := by
  induction nexts with
  | nil => exact List.pairwise_singleton _ _
  | cons p nexts ih =>
      obtain ⟨time, ts⟩ := p
      obtain ⟨hHead, hTail⟩ := List.pairwise_cons.1 h
      rw [pushBack]
      split
      · rename_i hLt
        refine List.pairwise_cons.2 ⟨List.forall_mem_cons.2 ⟨hLt, fun q hq => ?_⟩, h⟩
        exact lt_trans hLt (hHead q hq)
      split
      · rename_i hLt
        refine List.pairwise_cons.2 ⟨fun q hq => ?_, ih hTail⟩
        rcases mem_fst_pushBack hq with hTb | ⟨q', hMem, hq'⟩
        · rw [hTb]
          exact hLt
        · rw [← hq']
          exact hHead q' hMem
      · exact List.pairwise_cons.2 ⟨hHead, hTail⟩

/-- A handler's section on the table leaves `mx_nexts` and the worker alone. -/
theorem handle_frame (s : State) (l : Lookup) (ev : Event) :
    (s.handle l ev).nexts = s.nexts ∧ (s.handle l ev).worker = s.worker := by
  cases ev <;> cases l <;>
    simp only [State.handle, State.onSetTimer, State.onSetAlarm, State.onResetAlarm,
      State.onStopTimer, State.onStopAlarm, State.popFront] <;> split <;> exact ⟨rfl, rfl⟩

/-- What a step makes of `mx_nexts`: a task more, the first entry less, or
nothing. -/
theorem nexts_apply (s : State) (a : Action) :
    (s.apply a).nexts = s.nexts ∨ (∃ tb t, (s.apply a).nexts = pushBack tb t s.nexts) ∨
      ∃ p rest now, s.nexts = p :: rest ∧ a = .next now ∧ p.1 ≤ now ∧
        (s.apply a).nexts = rest ∧ (s.apply a).worker = .batch p.2 := by
  cases a with
  | handle ev l => exact Or.inl (handle_frame s l ev).1
  | push now =>
      rw [State.apply, State.push]
      split
      · exact Or.inl rfl
      · exact Or.inr (Or.inl ⟨_, _, rfl⟩)
      · exact Or.inr (Or.inl ⟨_, _, rfl⟩)
  | enter => exact Or.inl rfl
  | wake => exact Or.inl rfl
  | next now =>
      rw [State.apply, State.next]
      split
      · rename_i hNil
        exact Or.inl rfl
      · rename_i time ts rest hNexts
        split
        · exact Or.inl rfl
        · rename_i hDue
          exact Or.inr (Or.inr ⟨(time, ts), rest, now, hNexts, rfl, not_lt.1 hDue, rfl, rfl⟩)
  | test =>
      rw [State.apply]
      split
      · rename_i rest _
        cases rest <;> exact Or.inl rfl
      · exact Or.inl rfl
  | passEvent throws =>
      rw [State.apply]
      split
      · cases throws <;> exact Or.inl rfl
      · exact Or.inl rfl
  | finish l now =>
      rw [State.apply]
      split
      · rw [State.finish]
        split
        · exact Or.inr (Or.inl ⟨_, _, rfl⟩)
        · cases l <;> exact Or.inl rfl
      · cases l <;> exact Or.inl rfl
      · exact Or.inl rfl

theorem sorted_apply (h : s.Sorted) (a : Action) : (s.apply a).Sorted := by
  rw [State.Sorted]
  rcases nexts_apply s a with hSame | ⟨tb, t, hPush⟩ | ⟨p, rest, now, hNexts, -, -, hRest, -⟩
  · rw [hSame]
    exact h
  · rw [hPush]
    exact sorted_pushBack tb t h
  · rw [State.Sorted, hNexts] at h
    rw [hRest]
    exact (List.pairwise_cons.1 h).2

theorem sorted_of_reachable (h : machine.Reachable s) : s.Sorted := by
  refine Machine.Reachable.invariant (I := State.Sorted) ?_ (fun s a hs _ => sorted_apply hs a) h
  rintro _ rfl
  exact List.Pairwise.nil

/-- The first time is the least. -/
theorem State.Sorted.first_le (h : s.Sorted) {p : Int × List Task} (hMem : p ∈ s.nexts) :
    ∃ tb, s.first = some tb ∧ tb ≤ p.1 := by
  rw [State.Sorted] at h
  rw [State.first]
  cases hNexts : s.nexts with
  | nil =>
      rw [hNexts] at hMem
      cases hMem
  | cons q rest =>
      rw [hNexts] at h hMem
      refine ⟨q.1, rfl, ?_⟩
      rcases List.mem_cons.1 hMem with rfl | hTail
      · exact le_refl _
      · exact le_of_lt ((List.pairwise_cons.1 h).1 p hTail)

/-- A wait that a task in `mx_nexts` should end: it is not a wait without a time,
and not for a later time, or a signal has come or is to come. -/
structure NoLostWakeup (w : Waits) : Prop where
  untimed : w.state.worker = .waiting → w.state.nexts = [] ∨ w.signals ∨ w.woken
  timed : w.state.worker = .timedWaiting →
    (∃ tb, w.wakeAt = some tb ∧ ∀ p ∈ w.state.nexts, tb ≤ p.1) ∨ w.signals ∨ w.woken

/-- A step that leaves the wait and `mx_nexts` alone. -/
theorem NoLostWakeup.of_same {w' : Waits} (h : NoLostWakeup w)
    (hWorker : w'.state.worker = w.state.worker) (hNexts : w'.state.nexts = w.state.nexts)
    (hWait : w'.signals = w.signals ∧ w'.woken = w.woken ∧ w'.wakeAt = w.wakeAt) :
    NoLostWakeup w' := by
  obtain ⟨hSignals, hWoken, hAt⟩ := hWait
  refine ⟨?_, ?_⟩
  · rw [hWorker, hNexts, hSignals, hWoken]
    exact h.untimed
  · rw [hWorker, hNexts, hSignals, hWoken, hAt]
    exact h.timed

theorem NoLostWakeup.of_not_waiting (hNot : ¬ w.state.worker.IsWaiting) : NoLostWakeup w := by
  refine ⟨fun hAt => ?_, fun hAt => ?_⟩
  · rw [hAt] at hNot
    exact absurd trivial hNot
  · rw [hAt] at hNot
    exact absurd trivial hNot

/-- How a wait begins: in the outer loop where nothing is pending, or in the
inner one before the time of the first task. -/
theorem isWaiting_apply {a : Action} (hEn : s.Enabled a) (h : (s.apply a).worker.IsWaiting) :
    (((∃ ev l, a = .handle ev l) ∨ ∃ now, a = .push now) ∧ s.worker.IsWaiting) ∨
      (a = .enter ∧ s.nexts = [] ∧ s.apply a = { s with worker := .waiting }) ∨
      ∃ now p rest, a = .next now ∧ s.nexts = p :: rest ∧ now < p.1 ∧
        s.apply a = { s with worker := .timedWaiting } := by
  cases a with
  | handle ev l =>
      rw [State.apply, (handle_frame s l ev).2] at h
      exact Or.inl ⟨Or.inl ⟨ev, l, rfl⟩, h⟩
  | push now =>
      rw [State.apply, worker_push] at h
      exact Or.inl ⟨Or.inr ⟨now, rfl⟩, h⟩
  | enter =>
      rw [State.apply] at h ⊢
      split at h
      · rename_i hNil
        refine Or.inr (Or.inl ⟨rfl, hNil, ?_⟩)
        rw [if_pos hNil]
      · exact h.elim
  | wake => exact h.elim
  | next now =>
      rw [State.apply, State.next] at h
      split at h
      · exact h.elim
      · rename_i time ts rest hNexts
        split at h
        · rename_i hLt
          refine Or.inr (Or.inr ⟨now, (time, ts), rest, rfl, hNexts, hLt, ?_⟩)
          rw [State.apply, State.next, hNexts]
          dsimp only
          rw [if_pos hLt, ← hNexts]
        · exact h.elim
  | test =>
      have hAt : State.AtTest s.worker := hEn
      rw [State.apply] at h
      split at h
      · rename_i rest _
        cases rest with
        | nil => exact h.elim
        | cons t rest =>
            rw [State.test] at h
            dsimp only at h
            split at h <;> exact h.elim
      · rename_i hNot
        cases hWorker : s.worker with
        | batch rest => exact absurd hWorker (hNot rest)
        | _ =>
            rw [hWorker] at hAt
            exact hAt.elim
  | passEvent throws =>
      have hAt : State.AtPassEvent s.worker := hEn
      rw [State.apply] at h
      split at h
      · cases throws <;> exact h.elim
      · rename_i hNot
        cases hWorker : s.worker with
        | delivering t rest => exact absurd hWorker (hNot t rest)
        | _ =>
            rw [hWorker] at hAt
            exact hAt.elim
  | finish l now =>
      have hAt : s.AtFinish l s.worker := hEn
      rw [State.apply] at h
      split at h
      · rw [State.finish] at h
        split at h
        · exact h.elim
        · cases l <;> exact h.elim
      · cases l <;> exact h.elim
      · rename_i hDelivered hDropping
        cases hWorker : s.worker with
        | delivered t rest => exact absurd hWorker (hDelivered t rest)
        | dropping t rest => exact absurd hWorker (hDropping t rest)
        | _ =>
            rw [hWorker] at hAt
            exact hAt.elim

theorem noLostWakeup_apply (hSorted : w.state.Sorted) (h : NoLostWakeup w) {a : Step}
    (hEn : w.Enabled a) : NoLostWakeup (w.apply a) := by
  have hWoken : w.state.worker.IsWaiting → (w.apply .signal).woken := by
    intro hWaiting
    change (w.woken || decide w.state.worker.IsWaiting) = true
    rw [decide_eq_true hWaiting, Bool.or_true]
  cases a with
  | signal =>
      refine ⟨fun hAt => Or.inr (Or.inr (hWoken ?_)), fun hAt => Or.inr (Or.inr (hWoken ?_))⟩
      · rw [show w.state.worker = .waiting from hAt]
        trivial
      · rw [show w.state.worker = .timedWaiting from hAt]
        trivial
  | act a =>
      by_cases hWaiting : (w.state.apply a).worker.IsWaiting
      · have hEnState : w.state.Enabled a := by
          cases a with
          | handle ev l => exact hEn.2
          | _ => exact hEn
        rcases isWaiting_apply hEnState hWaiting with ⟨⟨ev, l, rfl⟩ | ⟨now, rfl⟩, -⟩ |
          ⟨rfl, hNil, hApply⟩ | ⟨now, p, rest, rfl, hNexts, -, hApply⟩
        · obtain ⟨hNexts, hWorker⟩ := handle_frame w.state l ev
          exact h.of_same hWorker hNexts ⟨rfl, rfl, rfl⟩
        · exact ⟨fun _ => Or.inr (Or.inl rfl), fun _ => Or.inr (Or.inl rfl)⟩
        · refine ⟨fun _ => Or.inl hNil, fun hAt => ?_⟩
          change (w.state.apply .enter).worker = _ at hAt
          rw [hApply] at hAt
          cases hAt
        · refine ⟨fun hAt => ?_, fun _ => Or.inl ?_⟩
          · change (w.state.apply (.next now)).worker = _ at hAt
            rw [hApply] at hAt
            cases hAt
          · refine ⟨p.1, ?_, fun q hq => ?_⟩
            · change w.state.first = _
              rw [State.first, hNexts]
              rfl
            · change q ∈ (w.state.apply (.next now)).nexts at hq
              rw [hApply] at hq
              obtain ⟨tb, hFirst, hLe⟩ := hSorted.first_le hq
              rw [State.first, hNexts] at hFirst
              obtain rfl : p.1 = tb := Option.some.inj hFirst
              exact hLe
      · refine .of_not_waiting fun h => hWaiting ?_
        cases a <;> exact h

/-- What the two threads do with the condition variable, they do without. -/
theorem reachable_state (h : waitMachine.Reachable w) : machine.Reachable w.state := by
  refine Machine.Reachable.invariant (I := fun w => machine.Reachable w.state) ?_ ?_ h
  · rintro _ rfl
    exact Machine.Reachable.init rfl
  · intro w a hs hEn
    cases a with
    | signal => exact hs
    | act a =>
        cases a with
        | handle ev l => exact hs.step hEn.2
        | push now => exact hs.step hEn
        | enter => exact hs.step hEn
        | wake => exact hs.step hEn
        | next now => exact hs.step hEn
        | test => exact hs.step hEn
        | passEvent throws => exact hs.step hEn
        | finish l now => exact hs.step hEn

theorem noLostWakeup_of_reachable (h : waitMachine.Reachable w) : NoLostWakeup w := by
  have hBoth : waitMachine.Reachable w ∧ NoLostWakeup w := by
    refine Machine.Reachable.invariant
      (I := fun w => waitMachine.Reachable w ∧ NoLostWakeup w) ?_ ?_ h
    · rintro _ rfl
      exact ⟨Machine.Reachable.init rfl, .of_not_waiting id⟩
    · exact fun w a hs hEn => ⟨hs.1.step hEn,
        noLostWakeup_apply (sorted_of_reachable (reachable_state hs.1)) hs.2 hEn⟩
  exact hBoth.2

/-! ## What is due is passed on -/

/-- The tasks of the batch whose ticks are still to be passed on. -/
def Worker.toPass : Worker → List Task
  | .batch rest => rest
  | .delivering t rest => t :: rest
  | .delivered _ rest | .dropping _ rest => rest
  | .outer | .waiting | .inner | .timedWaiting => []

/-- Nothing is thrown in the worker. -/
def NoThrow (_ : State) : Action → Prop
  | .passEvent true => False
  | .finish .throws _ => False
  | _ => True

instance decidableNoThrow : ∀ s a, Decidable (NoThrow s a)
  | _, .passEvent true => .isFalse id
  | _, .passEvent false => .isTrue trivial
  | _, .finish .throws _ => .isFalse id
  | _, .finish .found _ => .isTrue trivial
  | _, .finish .throwsAgain _ => .isTrue trivial
  | _, .handle _ _ => .isTrue trivial
  | _, .push _ => .isTrue trivial
  | _, .enter => .isTrue trivial
  | _, .wake => .isTrue trivial
  | _, .next _ => .isTrue trivial
  | _, .test => .isTrue trivial

/-- The task has been erased, or its tick has been passed on since there were `c`
of them; else it is in `mx_nexts` at its time or its batch has been taken. -/
structure Kept (t : Task) (tb : Int) (c : Nat) (s : State) : Prop where
  count : c ≤ s.log.count (.delivered t)
  place : t ∈ s.erased ∨ c < s.log.count (.delivered t) ∨ t ∈ s.worker.toPass ∨
    ∃ ts, (tb, ts) ∈ s.nexts ∧ t ∈ ts

/-- A step sets flags and adds to the trace. -/
theorem apply_grows (s : State) (a : Action) :
    s.erased ⊆ (s.apply a).erased ∧ s.log.Sublist (s.apply a).log := by
  cases a with
  | handle ev l =>
      cases ev <;> cases l <;>
        simp only [State.apply, State.handle, State.onSetTimer, State.onSetAlarm,
          State.onResetAlarm, State.onStopTimer, State.onStopAlarm, State.popFront] <;>
        split <;>
        simp [State.add, State.replace, State.remove]
  | push now =>
      rw [State.apply, State.push]
      split <;> simp
  | enter => simp [State.apply]
  | wake => simp [State.apply]
  | next now =>
      rw [State.apply, State.next]
      split
      · simp
      · split <;> simp
  | test =>
      rw [State.apply]
      split
      · rename_i rest _
        cases rest <;> simp [State.test]
      · simp
  | passEvent throws =>
      rw [State.apply]
      split
      · cases throws <;> simp [State.passEvent]
      · simp
  | finish l now =>
      rw [State.apply]
      split
      · rw [State.finish]
        split
        · simp
        · cases l <;> simp [State.removeTOnly]
      · cases l <;> simp [State.removeTOnly]
      · simp

/-- A task that is to be passed on is found erased, or passed on, or still to be. -/
theorem toPass_apply {t : Task} {a : Action} (hNoThrow : NoThrow s a) (hEn : s.Enabled a)
    (h : t ∈ s.worker.toPass) : t ∈ s.erased ∨ (s.apply a).log = .delivered t :: s.log ∨
      t ∈ (s.apply a).worker.toPass := by
  cases a with
  | handle ev l =>
      rw [State.apply, (handle_frame s l ev).2]
      exact Or.inr (Or.inr h)
  | push now =>
      rw [State.apply, worker_push]
      exact Or.inr (Or.inr h)
  | enter =>
      rw [show s.worker = .outer from hEn] at h
      cases h
  | wake =>
      rcases hEn with hAt | hAt
      · rw [hAt] at h
        cases h
      · rw [hAt] at h
        cases h
  | next now =>
      rw [show s.worker = .inner from hEn] at h
      cases h
  | test =>
      rw [State.apply]
      split
      · rename_i rest hAt
        rw [hAt] at h
        cases rest with
        | nil => cases h
        | cons x rest =>
            rw [State.test]
            dsimp only
            split
            · rename_i hErased
              rcases List.mem_cons.1 h with rfl | hRest
              · exact Or.inl hErased
              · exact Or.inr (Or.inr hRest)
            · exact Or.inr (Or.inr h)
      · exact Or.inr (Or.inr h)
  | passEvent throws =>
      cases throws with
      | true => exact hNoThrow.elim
      | false =>
          rw [State.apply]
          split
          · rename_i x rest hAt
            rw [hAt] at h
            rcases List.mem_cons.1 h with rfl | hRest
            · exact Or.inr (Or.inl rfl)
            · exact Or.inr (Or.inr hRest)
          · exact Or.inr (Or.inr h)
  | finish l now =>
      have hFinish : s.AtFinish l s.worker := hEn
      have hGone : ∀ {x rest}, s.Finds x.key l → t ∈ rest →
          t ∈ (s.removeTOnly x rest l).worker.toPass := by
        intro x rest hFinds hRest
        cases l with
        | found => exact hRest
        | throws => exact hNoThrow.elim
        | throwsAgain => exact hFinds.elim
      rw [State.apply]
      split
      · rename_i x rest hAt
        rw [hAt] at h hFinish
        rw [State.finish]
        split
        · exact Or.inr (Or.inr h)
        · rename_i hAlarm
          refine Or.inr (Or.inr (hGone ?_ h))
          rw [State.AtFinish, if_neg (by rw [hAlarm]; simp)] at hFinish
          exact hFinish
      · rename_i x rest hAt
        rw [hAt] at h hFinish
        exact Or.inr (Or.inr (hGone hFinish h))
      · exact Or.inr (Or.inr h)

theorem kept_apply {t : Task} {tb : Int} {c : Nat} (h : Kept t tb c s) {a : Action}
    (hNoThrow : NoThrow s a) (hEn : s.Enabled a) : Kept t tb c (s.apply a) := by
  obtain ⟨hErased, hLog⟩ := apply_grows s a
  have hCount := hLog.count_le (.delivered t)
  refine ⟨h.count.trans hCount, ?_⟩
  rcases h.place with hOld | hOld | hOld | hOld
  · exact Or.inl (hErased hOld)
  · exact Or.inr (Or.inl (lt_of_lt_of_le hOld hCount))
  · rcases toPass_apply hNoThrow hEn hOld with hNow | hNow | hNow
    · exact Or.inl (hErased hNow)
    · refine Or.inr (Or.inl ?_)
      rw [hNow, List.count_cons_self]
      exact Nat.lt_succ_of_le h.count
    · exact Or.inr (Or.inr (Or.inl hNow))
  · right; right
    obtain ⟨ts, hMem, ht⟩ := hOld
    rcases nexts_apply s a with hSame | ⟨tb', x, hPush⟩ | ⟨p, rest, now, hNexts, -, -, hRest, hBatch⟩
    · rw [hSame]
      exact Or.inr ⟨ts, hMem, ht⟩
    · rw [hPush]
      exact Or.inr (mem_pushBack_of_mem ⟨ts, hMem, ht⟩)
    · rw [hNexts] at hMem
      rw [hRest, hBatch]
      rcases List.mem_cons.1 hMem with rfl | hTail
      · exact Or.inl ht
      · exact Or.inr ⟨ts, hTail, ht⟩

/--
**What is due is passed on before the next wait.** From any state with a task in
`mx_nexts`, through any steps of both threads in which the worker does not
throw, a wait that begins at its time or later finds the task passed on, or
erased.
-/
theorem passed_before_wait (hReach : machine.Reachable s) {t : Task} {tb : Int}
    (hDue : ∃ ts, (tb, ts) ∈ s.nexts ∧ t ∈ ts) {acts : List Action}
    (hPath : (machine.guarded NoThrow).Path s acts) {now : Int} (hLate : tb ≤ now)
    {a : Action} (hWait : a = .enter ∨ a = .next now) (hEn : (machine.exec s acts).Enabled a)
    (hBegins : ((machine.exec s acts).apply a).worker.IsWaiting) :
    t ∈ (machine.exec s acts).erased ∨
      s.log.count (.delivered t) < (machine.exec s acts).log.count (.delivered t) := by
  have hKept : Kept t tb (s.log.count (.delivered t)) (machine.exec s acts) := by
    have hRun := Machine.path_invariant (machine.guarded NoThrow)
      (I := Kept t tb (s.log.count (.delivered t)))
      (fun _ _ hs hEn => kept_apply hs hEn.2 hEn.1) acts s
      ⟨le_refl _, Or.inr (Or.inr (Or.inr hDue))⟩ hPath
    rw [Machine.exec_guarded] at hRun
    exact hRun
  have hSorted := sorted_of_reachable (hReach.path (Machine.Path.of_guarded hPath))
  rcases hKept.place with hOld | hOld | hOld | ⟨ts, hMem, -⟩
  · exact Or.inl hOld
  · exact Or.inr hOld
  · rcases hWait with rfl | rfl
    · rw [show (machine.exec s acts).worker = .outer from hEn] at hOld
      cases hOld
    · rw [show (machine.exec s acts).worker = .inner from hEn] at hOld
      cases hOld
  · rcases isWaiting_apply hEn hBegins with ⟨⟨ev, l, rfl⟩ | ⟨now', rfl⟩, -⟩ |
      ⟨-, hNil, -⟩ | ⟨now', p, rest, rfl, hNexts, hLt, -⟩
    · rcases hWait with hAct | hAct <;> cases hAct
    · rcases hWait with hAct | hAct <;> cases hAct
    · rw [hNil] at hMem
      cases hMem
    · obtain ⟨first, hFirst, hLe⟩ := hSorted.first_le hMem
      rw [State.first, hNexts] at hFirst
      obtain rfl : p.1 = first := Option.some.inj hFirst
      have hNow : now' = now := by
        rcases hWait with hAct | hAct
        · cases hAct
        · exact Action.next.inj hAct
      dsimp only at hLe
      omega

/--
**Waiting.** In every reachable state with nothing due, the worker waits next,
if and only if it is not in the inner loop with nothing pending; a wait that a
task should end is ended; and the worker does not wait again before it has
passed on what is due, where nothing throws.
-/
theorem worker_idles (hReach : waitMachine.Reachable w) :
    (∀ now, w.state.worker.held = [] → w.state.NothingDue now →
      (w.Idles now ↔ ¬ w.state.Spins)) ∧
    NoLostWakeup w ∧
    ∀ (t : Task) (tb now : Int) (acts : List Action) (a : Action),
      (∃ ts, (tb, ts) ∈ w.state.nexts ∧ t ∈ ts) →
      (machine.guarded NoThrow).Path w.state acts → tb ≤ now →
      a = .enter ∨ a = .next now → (machine.exec w.state acts).Enabled a →
      ((machine.exec w.state acts).apply a).worker.IsWaiting →
      t ∈ (machine.exec w.state acts).erased ∨
        w.state.log.count (.delivered t) < (machine.exec w.state acts).log.count (.delivered t) :=
  ⟨fun _ hHeld hNone => idles_iff hHeld hNone, noLostWakeup_of_reachable hReach,
    fun _ _ _ _ _ hDue hPath hLate hWait hEn hBegins =>
      passed_before_wait (reachable_state hReach) hDue hPath hLate hWait hEn hBegins⟩

/-- An alarm and a timer of one service. -/
def ticker : Setting := ⟨1, [], [], 10, [.localService [1], .localService [2]]⟩

/-- The alarm and the timer are set while the worker waits without a time; the alarm
wakes it, and it waits until the alarm is due. -/
def sets : List Step :=
  [.act .enter, .act (.handle (.setAlarm ticker) .found), .act (.push 0), .signal, .act .wake,
   .act (.next 1), .act (.handle (.setTimer ticker) .found), .act (.push 5)]

/-- The alarm is due. -/
def ticks : List Action :=
  [.wake, .next 10, .test, .passEvent false, .finish .found 10, .test]

theorem sets_idles :
    NoLostWakeup (waitMachine.exec .start sets) ∧
      (waitMachine.exec .start sets).Idles 6 ∧
      (waitMachine.exec .start sets).state.log.count
          (.delivered (ticker.task 0 .alarm [.localService [2]])) <
        (machine.exec (waitMachine.exec .start sets).state ticks).log.count
          (.delivered (ticker.task 0 .alarm [.localService [2]])) := by
  have hReach : waitMachine.Reachable (waitMachine.exec .start sets) :=
    ⟨.start, sets, rfl, by decide +kernel, rfl⟩
  obtain ⟨hIdles, hWakes, hPassed⟩ := worker_idles hReach
  refine ⟨hWakes, (hIdles 6 rfl (by decide +kernel)).2 ?_, ?_⟩
  · rintro ⟨hNil, -⟩
    exact absurd hNil (by decide +kernel)
  · have hNow := hPassed (ticker.task 0 .alarm [.localService [2]]) 10 10 ticks (.next 10)
      ⟨_, List.mem_cons_self, List.mem_cons_self⟩ (by decide +kernel) (le_refl _) (Or.inr rfl)
      (by decide +kernel) (by decide +kernel)
    exact hNow.resolve_left (by decide +kernel)

/-- One alarm is set, and fires. -/
def lastTick : List Step :=
  [.act (.handle (.setAlarm ticker) .found), .act (.push 0), .signal, .act .enter,
   .act (.next 10), .act .test, .act (.passEvent false), .act (.finish .found 10), .act .test]

/-- Nothing is pending, and the worker does not wait: its next look at
`mx_nexts` leaves it in the inner loop, again and again. -/
theorem worker_spins :
    (waitMachine.exec .start lastTick).state.nexts = [] ∧
      (∀ now, ¬ (waitMachine.exec .start lastTick).Idles now ∧
        ((waitMachine.exec .start lastTick).pass now).state.Spins) ∧
      ¬ ∀ w, waitMachine.Reachable w → ∀ now, w.state.worker.held = [] →
        w.state.NothingDue now → w.Idles now := by
  have hNexts : (waitMachine.exec .start lastTick).state.nexts = [] := by decide +kernel
  have hWorker : (waitMachine.exec .start lastTick).state.worker = .inner := by decide +kernel
  have hNone : ∀ now, (waitMachine.exec .start lastTick).state.NothingDue now := by
    intro now p hMem
    rw [hNexts] at hMem
    cases hMem
  have hSpins : (waitMachine.exec .start lastTick).state.Spins := ⟨hNexts, Or.inl hWorker⟩
  have hHeld : (waitMachine.exec .start lastTick).state.worker.held = [] := by
    rw [hWorker]
    rfl
  have hNever : ∀ now, ¬ (waitMachine.exec .start lastTick).Idles now := fun now hIdles =>
    (idles_iff hHeld (hNone now)).1 hIdles hSpins
  refine ⟨hNexts, fun now => ⟨hNever now, ?_⟩, fun hAll => hNever 20 (hAll _ ?_ 20 hHeld (hNone 20))⟩
  · rw [Waits.pass, hWorker]
    refine ⟨?_, Or.inr ?_⟩
    · change (State.next _ now).nexts = []
      rw [State.next, hNexts]
    · change (State.next _ now).worker = .batch []
      rw [State.next, hNexts]
  · exact ⟨.start, lastTick, rfl, by decide +kernel, rfl⟩

end Megatron.Timer.Threads
