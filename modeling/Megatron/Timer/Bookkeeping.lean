import Megatron.Timer.Tasks

/-!
# What the table of the timer is left with

`timers` is to have a key exactly as long as a task of it is pending.  The
operations that insert and replace see to that, and so does the one that
removes a key; but an alarm that has fired, and a task found erased, are taken
out by `remove_t_only`, which looks the key up by `operator[]` and erases the
task, never the key.  So the key of an alarm stays when it has fired, with an
empty set, unless another task has the same key.

## Main results

* `bookkeeping` — the table is exact whenever both threads are idle, in the
  runs in which no step leaves an empty set or loses a task.
* `bookkeeping_breaks` — one alarm that fires leaves its key.
-/

namespace Megatron.Timer.Threads

open Megatron.Corelib Megatron.Lib

/-- Neither thread is inside an operation. -/
def State.Quiet (s : State) : Prop := s.handler = .idle ∧ s.worker.held = []

/-- The table has a key exactly where a task of it is pending, not erased, and
the set under it is the set of these tasks; so there are no more keys than such
tasks. -/
structure Exact (s : State) : Prop where
  keys : ∀ k, (s.timers k).isSome ↔ ∃ t ∈ tasksOf s.nexts, t ∉ s.erased ∧ t.key = k
  tasks : ∀ k ts, s.timers k = some ts →
    ∀ t, t ∈ ts ↔ t ∈ tasksOf s.nexts ∧ t ∉ s.erased ∧ t.key = k
  bounded : ∀ ks : List Key, ks.Nodup → (∀ k ∈ ks, (s.timers k).isSome) →
    ks.length ≤ ((tasksOf s.nexts).filter (· ∉ s.erased)).length

/-- No set is empty, and every task in one is on its way. -/
def Tidy (s : State) : Prop :=
  ∀ k ts, s.timers k = some ts → ts ≠ [] ∧ ∀ t ∈ ts, t ∈ s.live

/-- The key has another task than the one the worker takes out. -/
def State.Shared (s : State) (t : Task) : Prop := ∃ t' ∈ s.listed t.key, t' ≠ t

/-- The worker takes a task out of a set that has others. -/
def State.Leaves (s : State) : Worker → Prop
  | .delivered t _ => t.key.type = .alarm → s.Shared t
  | .dropping t _ => s.Shared t
  | _ => True

/-- The step leaves no empty set, and no task that is not erased is lost. -/
def Neat (s : State) : Action → Prop
  | .handle _ l => l ≠ .throwsAgain
  | .passEvent true => ∀ t ∈ s.worker.held, t ∈ s.erased
  | .finish .throws _ => ∀ t ∈ s.worker.held, t ∈ s.erased
  | .finish _ _ => s.Leaves s.worker
  | _ => True

instance (s : State) (t : Task) : Decidable (s.Shared t) :=
  inferInstanceAs (Decidable (∃ t' ∈ s.listed t.key, t' ≠ t))

instance (s : State) : DecidablePred s.Leaves
  | .delivered t _ => inferInstanceAs (Decidable (t.key.type = .alarm → s.Shared t))
  | .dropping t _ => inferInstanceAs (Decidable (s.Shared t))
  | .outer | .waiting | .inner | .timedWaiting => .isTrue trivial
  | .batch _ | .delivering _ _ => .isTrue trivial

instance decidableNeat : ∀ s a, Decidable (Neat s a)
  | _, .handle _ l => inferInstanceAs (Decidable (l ≠ .throwsAgain))
  | s, .passEvent true => inferInstanceAs (Decidable (∀ t ∈ s.worker.held, t ∈ s.erased))
  | s, .finish .throws _ => inferInstanceAs (Decidable (∀ t ∈ s.worker.held, t ∈ s.erased))
  | s, .finish .found _ => inferInstanceAs (Decidable (s.Leaves s.worker))
  | s, .finish .throwsAgain _ => inferInstanceAs (Decidable (s.Leaves s.worker))
  | _, .push _ => .isTrue trivial
  | _, .enter => .isTrue trivial
  | _, .wake => .isTrue trivial
  | _, .next _ => .isTrue trivial
  | _, .test => .isTrue trivial
  | _, .passEvent false => .isTrue trivial

variable {s s' : State}

theorem tidy_start : Tidy State.start := fun k ts h => by cases h

/-- What is under a key in order is not erased, so only erased tasks may go. -/
theorem Tidy.of_live (hInv : Inv s) (h : Tidy s) (hTimers : s'.timers = s.timers)
    (hLive : ∀ t ∈ s.live, t ∉ s.erased → t ∈ s'.live) : Tidy s' := by
  intro k ts hSome
  rw [hTimers] at hSome
  obtain ⟨hNe, hMem⟩ := h k ts hSome
  refine ⟨hNe, fun t ht => hLive t (hMem t ht) ?_⟩
  have hListed : t ∈ s.listed k := by
    rw [State.listed, hSome]
    exact ht
  exact (hInv.table k t hListed).2.1

/-- The set of one key is new, and nothing is lost. -/
theorem Tidy.of_update (h : Tidy s) (s' : State) {k : Key} {o : Option (List Task)}
    (hTimers : s'.timers = Function.update s.timers k o)
    (hNew : ∀ ts, o = some ts → ts ≠ [] ∧ ∀ t ∈ ts, t ∈ s'.live)
    (hLive : ∀ k' ts, k' ≠ k → s.timers k' = some ts → ∀ t ∈ ts, t ∈ s'.live) : Tidy s' := by
  intro k' ts hSome
  rw [hTimers, Function.update_apply] at hSome
  split at hSome
  · exact hNew ts hSome
  · rename_i hKey
    exact ⟨(h k' ts hSome).1, hLive k' ts hKey hSome⟩

theorem tidy_add (h : Tidy s) (hIdle : s.handler = .idle) (t : Task) (l : Lookup) :
    Tidy (s.add t l) := by
  cases l with
  | throws => exact h
  | throwsAgain => exact h
  | found =>
      have hLive : (s.add t .found).live = t :: s.live := by rw [live_of_idle hIdle]; rfl
      refine h.of_update (s.add t .found) rfl ?_ ?_
      · rintro _ ⟨rfl⟩
        refine ⟨List.cons_ne_nil _ _, List.forall_mem_cons.2 ⟨?_, fun x hx => ?_⟩⟩
        · rw [hLive]
          exact List.mem_cons_self
        · rw [hLive]
          cases hSome : s.timers t.key with
          | none =>
              rw [State.listed, hSome] at hx
              cases hx
          | some ts =>
              rw [State.listed, hSome] at hx
              exact List.mem_cons_of_mem _ ((h t.key ts hSome).2 x hx)
      · intro k' ts _ hSome x hx
        rw [hLive]
        exact List.mem_cons_of_mem _ ((h k' ts hSome).2 x hx)

theorem tidy_replace (h : Tidy s) (hIdle : s.handler = .idle) (e : Setting) (t : Task)
    {l : Lookup} (hNeat : l ≠ .throwsAgain) : Tidy (s.replace e t l) := by
  cases l with
  | throws => exact h
  | throwsAgain => exact absurd rfl hNeat
  | found =>
      have hLive : (s.replace e t .found).live = t :: s.live := by rw [live_of_idle hIdle]; rfl
      refine h.of_update (s.replace e t .found) rfl ?_ ?_
      · rintro _ ⟨rfl⟩
        refine ⟨List.cons_ne_nil _ _, List.forall_mem_singleton.2 ?_⟩
        rw [hLive]
        exact List.mem_cons_self
      · intro k' ts _ hSome x hx
        rw [hLive]
        exact List.mem_cons_of_mem _ ((h k' ts hSome).2 x hx)

theorem tidy_remove (h : Tidy s) (k : Key) {l : Lookup} (hNeat : l ≠ .throwsAgain) :
    Tidy (s.remove k l) := by
  cases l with
  | throws => exact h
  | throwsAgain => exact absurd rfl hNeat
  | found =>
      refine h.of_update (s.remove k .found) rfl ?_ ?_
      · intro ts hSome
        cases hSome
      · exact fun k' ts _ hSome x hx => (h k' ts hSome).2 x hx

/-- The batch is lost, and all of it was erased. -/
theorem tidy_lost (hInv : Inv s) (h : Tidy s) (hErased : ∀ t ∈ s.worker.held, t ∈ s.erased) :
    Tidy { s with worker := .outer } := by
  refine Tidy.of_live hInv h rfl fun t hMem hNot => ?_
  rw [State.live] at hMem ⊢
  rcases List.mem_append.1 hMem with hHandler | hMem
  · exact List.mem_append_left _ hHandler
  rcases List.mem_append.1 hMem with hHeld | hWaits
  · exact absurd (hErased t hHeld) hNot
  · exact List.mem_append_right _ (List.mem_append_right _ hWaits)

theorem tidy_removeTOnly (hInv : Inv s) (h : Tidy s) {t : Task} {rest : List Task}
    (hHeld : s.worker.held = t :: rest) {l : Lookup} (hShared : l = .found → s.Shared t)
    (hErased : l = .throws → ∀ t ∈ s.worker.held, t ∈ s.erased) (hFinds : s.Finds t.key l) :
    Tidy (s.removeTOnly t rest l) := by
  cases l with
  | throwsAgain => exact hFinds.elim
  | throws => exact tidy_lost hInv h (hErased rfl)
  | found =>
      obtain ⟨t', hMem', hNe⟩ := hShared rfl
      have hSome : s.timers t.key = some (s.listed t.key) := by
        rw [State.listed] at hMem' ⊢
        cases hTimers : s.timers t.key with
        | none =>
            rw [hTimers] at hMem'
            cases hMem'
        | some ts => rfl
      have hLive : ∀ x ∈ s.live, x ≠ t → x ∈ (s.removeTOnly t rest .found).live := by
        intro x hMem hx
        rw [State.live, hHeld] at hMem
        have hRest : (s.removeTOnly t rest .found).live =
            s.handler.held ++ (rest ++ tasksOf s.nexts) := rfl
        rw [hRest]
        rcases List.mem_append.1 hMem with hHandler | hMem
        · exact List.mem_append_left _ hHandler
        · exact List.mem_append_right _ ((List.mem_cons.1 hMem).resolve_left hx)
      refine h.of_update (s.removeTOnly t rest .found) rfl ?_ ?_
      · rintro _ ⟨rfl⟩
        refine ⟨List.ne_nil_of_mem (List.mem_filter.2 ⟨hMem', decide_eq_true hNe⟩), fun x hx => ?_⟩
        obtain ⟨hx, hOther⟩ := List.mem_filter.1 hx
        exact hLive x ((h t.key _ hSome).2 x hx) (of_decide_eq_true hOther)
      · intro k' ts hKey hOther x hx
        refine hLive x ((h k' ts hOther).2 x hx) ?_
        rintro rfl
        have hListed : x ∈ s.listed k' := by
          rw [State.listed, hOther]
          exact hx
        exact hKey (hInv.table k' x hListed).1.symm

theorem tidy_finish (hInv : Inv s) (h : Tidy s) {t : Task} {rest : List Task}
    (hAt : s.worker = .delivered t rest) {l : Lookup} {now : Int}
    (hFinds : s.AtFinish l s.worker) (hNeat : Neat s (.finish l now)) :
    Tidy (s.finish t rest l now) := by
  have hHeld : s.worker.held = t :: rest := by rw [hAt]; rfl
  rw [hAt, State.AtFinish] at hFinds
  rw [State.finish]
  split
  · refine h.of_live hInv rfl fun x hMem _ => ?_
    rw [State.live, hHeld] at hMem
    have hPush := ((tasksOf_pushBack (now + t.period) t s.nexts).append_left rest).trans
      List.perm_middle
    exact (hPush.append_left s.handler.held).mem_iff.2 hMem
  · rename_i hAlarm
    have hNot : t.key.type ≠ .timer := by
      rw [hAlarm]
      exact fun hType => by cases hType
    rw [if_neg hNot] at hFinds
    refine tidy_removeTOnly hInv h hHeld ?_ ?_ hFinds
    · rintro rfl
      have hLeaves : s.Leaves s.worker := hNeat
      rw [hAt] at hLeaves
      exact hLeaves hAlarm
    · rintro rfl
      exact hNeat

theorem tidy_handle (h : Tidy s) (hIdle : s.handler = .idle) {ev : Event} {l : Lookup}
    (hHandles : s.Handles l ev) (hNeat : l ≠ .throwsAgain) : Tidy (s.handle l ev) := by
  rcases State.handle_cases hHandles with hSame | ⟨t, -, -, hAdd⟩ |
    ⟨e, t, -, -, -, hReplace⟩ | ⟨k, -, hRemove⟩
  · rw [hSame]
    exact h
  · rw [hAdd]
    exact tidy_add h hIdle t l
  · rw [hReplace]
    exact tidy_replace h hIdle e t hNeat
  · rw [hRemove]
    exact tidy_remove h k hNeat

theorem tidy_apply (hInv : Inv s) (h : Tidy s) {a : Action} (hEn : s.Enabled a)
    (hNeat : Neat s a) : Tidy (s.apply a) := by
  have hWaits : ∀ w : Worker, s.worker.held = [] → Tidy { s with worker := w } := by
    intro w hNone
    refine h.of_live hInv rfl fun t hMem _ => ?_
    rw [State.live, hNone] at hMem
    exact ((List.sublist_append_right _ _).append_left _).subset hMem
  cases a with
  | handle ev l => exact tidy_handle h hEn.1 hEn.2 hNeat
  | push now =>
      refine h.of_live hInv ?_ fun t hMem _ => (live_push s now).mem_iff.2 hMem
      rw [State.apply, State.push]
      split <;> rfl
  | enter => exact hWaits _ (by rw [show s.worker = .outer from hEn]; rfl)
  | wake =>
      refine hWaits _ ?_
      rcases hEn with hAt | hAt
      · rw [hAt]; rfl
      · rw [hAt]; rfl
  | next now =>
      have hNone : s.worker.held = [] := by rw [show s.worker = .inner from hEn]; rfl
      rw [State.apply, State.next]
      split
      · exact hWaits _ hNone
      · rename_i time ts rest hNexts
        split
        · exact hWaits _ hNone
        · refine h.of_live hInv rfl fun t hMem _ => ?_
          rw [State.live, hNone, hNexts] at hMem
          exact hMem
  | test =>
      rw [State.apply]
      split
      · rename_i rest hAt
        cases rest with
        | nil => exact hWaits .inner (by rw [hAt]; rfl)
        | cons t rest =>
            refine h.of_live hInv rfl fun x hMem _ => ?_
            have hSame : (s.test (t :: rest)).worker.held = s.worker.held := by
              rw [State.test, hAt]
              dsimp only
              split <;> rfl
            rw [State.live, hSame]
            exact hMem
      · exact h
  | passEvent throws =>
      rw [State.apply]
      split
      · rename_i t rest hAt
        cases throws with
        | true => exact tidy_lost hInv h hNeat
        | false =>
            refine h.of_live hInv rfl fun x hMem _ => ?_
            rw [State.live, hAt] at hMem
            exact hMem
      · exact h
  | finish l now =>
      rw [State.apply]
      split
      · rename_i t rest hAt
        exact tidy_finish hInv h hAt hEn hNeat
      · rename_i t rest hAt
        have hFinds : s.AtFinish l s.worker := hEn
        rw [hAt, State.AtFinish] at hFinds
        refine tidy_removeTOnly hInv h (by rw [hAt]; rfl) ?_ ?_ hFinds
        · rintro rfl
          have hLeaves : s.Leaves s.worker := hNeat
          rw [hAt] at hLeaves
          exact hLeaves
        · rintro rfl
          exact hNeat
      · exact h

/-- A tidy table is exact when nothing is on its way but what is in `mx_nexts`. -/
theorem exact_of_tidy (hInv : Inv s) (h : Tidy s) (hQuiet : s.Quiet) : Exact s := by
  have hLive : s.live = tasksOf s.nexts := by
    rw [State.live, hQuiet.1, hQuiet.2]
    rfl
  have hPending : ∀ k ts, s.timers k = some ts →
      ∀ t ∈ ts, t ∈ tasksOf s.nexts ∧ t ∉ s.erased ∧ t.key = k := by
    intro k ts hSome t ht
    have hListed : t ∈ s.listed k := by
      rw [State.listed, hSome]
      exact ht
    obtain ⟨hKey, hNot, -⟩ := hInv.table k t hListed
    rw [← hLive]
    exact ⟨(h k ts hSome).2 t ht, hNot, hKey⟩
  refine ⟨?_, ?_, ?_⟩
  · intro k
    constructor
    · intro hSome
      obtain ⟨ts, hTs⟩ := Option.isSome_iff_exists.1 hSome
      obtain ⟨t, ht⟩ := List.exists_mem_of_ne_nil ts (h k ts hTs).1
      exact ⟨t, hPending k ts hTs t ht⟩
    · rintro ⟨t, hMem, hNot, rfl⟩
      have hListed := hInv.listed t (by rw [hLive]; exact hMem) hNot
      rw [State.listed] at hListed
      cases hTimers : s.timers t.key with
      | none =>
          rw [hTimers] at hListed
          cases hListed
      | some ts => rfl
  · intro k ts hSome t
    refine ⟨hPending k ts hSome t, ?_⟩
    rintro ⟨hMem, hNot, rfl⟩
    have hListed := hInv.listed t (by rw [hLive]; exact hMem) hNot
    rw [State.listed, hSome] at hListed
    exact hListed
  · intro ks hNodup hAll
    have hSub : ks ⊆ ((tasksOf s.nexts).filter (· ∉ s.erased)).map Task.key := by
      intro k hk
      obtain ⟨ts, hTs⟩ := Option.isSome_iff_exists.1 (hAll k hk)
      obtain ⟨t, ht⟩ := List.exists_mem_of_ne_nil ts (h k ts hTs).1
      obtain ⟨hMem, hNot, hKey⟩ := hPending k ts hTs t ht
      exact List.mem_map.2 ⟨t, List.mem_filter.2 ⟨hMem, decide_eq_true hNot⟩, hKey⟩
    have hLe := hNodup.length_le_of_subset hSub
    rw [List.length_map] at hLe
    exact hLe

/--
**Bookkeeping.** In the runs whose steps all meet `Neat`, the table is exact
whenever neither thread is inside an operation.
-/
theorem bookkeeping (hReach : (machine.guarded Neat).Reachable s) (hQuiet : s.Quiet) :
    Exact s := by
  have hBoth : Inv s ∧ Tidy s := by
    refine Machine.Reachable.invariant (I := fun s => Inv s ∧ Tidy s) ?_ ?_ hReach
    · rintro _ rfl
      exact ⟨inv_start, tidy_start⟩
    · exact fun s a hs hEn => ⟨inv_apply hs.1 hEn.1, tidy_apply hs.1 hs.2 hEn.1 hEn.2⟩
  exact exact_of_tidy hBoth.1 hBoth.2 hQuiet

/-- What a service sends to have `data` back. -/
def dataEvent (data : Bytes) (delay : Int) : Setting :=
  ⟨1, data, [], delay, [.localService [1], .localService [2]]⟩

/-- A timer that fires twice, an alarm that is set twice and fires once, and one
that is stopped before it is due. -/
def keeps : List Action :=
  [.handle (.setTimer (dataEvent [] 10)) .found, .push 0,
   .handle (.setAlarm (dataEvent [7] 5)) .found, .push 0,
   .handle (.setAlarm (dataEvent [7] 50)) .found, .push 0,
   .handle (.setAlarm (dataEvent [8] 60)) .found, .push 0,
   .handle (.stopAlarm 1 [8] [.localService [1], .localService [2]]) .found,
   .enter, .next 5, .test, .passEvent false, .finish .found 5, .test,
   .next 10, .test, .passEvent false, .finish .found 10, .test,
   .next 20, .test, .passEvent false, .finish .found 20, .test]

theorem keeps_exact : Exact (machine.exec .start keeps) ∧
    (tasksOf (machine.exec .start keeps).nexts).length = 3 := by
  have hPath : (machine.guarded Neat).Path .start keeps := by decide +kernel
  refine ⟨bookkeeping ⟨.start, keeps, rfl, hPath, Machine.exec_guarded _ _ _ _⟩ ?_,
    by decide +kernel⟩
  exact ⟨by decide +kernel, by decide +kernel⟩

/-- One alarm is set and fires. -/
def fires : List Action :=
  [.handle (.setAlarm (dataEvent [] 10)) .found, .push 0,
   .enter, .next 10, .test, .passEvent false, .finish .found 10, .test]

/-- Nothing is pending, and the table still has the key of the alarm. -/
theorem bookkeeping_breaks :
    (machine.exec .start fires).nexts = [] ∧
      (machine.exec .start fires).timers ⟨1, .alarm, [.localService [2]], []⟩ = some [] ∧
      ¬ ∀ s, machine.Reachable s → s.Quiet → Exact s := by
  have hNexts : (machine.exec .start fires).nexts = [] := by decide +kernel
  have hStays : (machine.exec .start fires).timers ⟨1, .alarm, [.localService [2]], []⟩ =
      some [] := by decide +kernel
  refine ⟨hNexts, hStays, fun hAll => ?_⟩
  have hExact := hAll (machine.exec .start fires)
    ⟨.start, fires, rfl, by decide +kernel, rfl⟩ ⟨by decide +kernel, by decide +kernel⟩
  obtain ⟨t, hMem, -⟩ := (hExact.keys _).1 (by rw [hStays]; rfl)
  rw [hNexts] at hMem
  cases hMem

end Megatron.Timer.Threads
