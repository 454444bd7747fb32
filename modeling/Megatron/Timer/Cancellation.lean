import Megatron.Timer.Tasks

/-!
# What a stop and a reset achieve

A stop and a reset set the flag `erased` of the tasks under their key.  Every
task of the key that is on its way is under the key at that moment (`Inv`), so
none is passed on later, one apart whose flag the worker has looked at already.

A reset also adds the one task that is not erased.  The worker loses it again
when something throws between the start of a batch and its end: what is left of
the batch is in no structure any more, and no later step can find it.

## Main results

* `cancellation` — stops and resets cancel, and what a reset sets stays until it
  fires, is stopped or is set again, where no step loses it.
* `cancellation_breaks` — a tick that cannot be passed on takes the reset alarm
  behind it along.
-/

namespace Megatron.Timer.Threads

open Megatron.Corelib Megatron.Lib

/-! ## Cancelled tasks -/

/-- The key of the task was cancelled after the task had been added. -/
def CancelledIn (t : Task) : List Entry → Prop
  | [] => False
  | .cancelled k :: log => k = t.key ∧ .added t ∈ log ∨ CancelledIn t log
  | _ :: log => CancelledIn t log

/-- The last thing the worker did was to look at the flag of the task, which had
not been cancelled then. -/
def TestedLast (t : Task) : List Entry → Prop
  | [] => False
  | .tested t' :: log => t' = t ∧ ¬ CancelledIn t log
  | .delivered _ :: _ => False
  | _ :: log => TestedLast t log

/-- Every tick was passed on right after such a look. -/
def Cancels : List Entry → Prop
  | [] => True
  | .delivered t :: log => TestedLast t log ∧ Cancels log
  | _ :: log => Cancels log

theorem added_mem_of_cancelledIn {t : Task} {log : List Entry} (h : CancelledIn t log) :
    .added t ∈ log := by
  induction log with
  | nil => exact h.elim
  | cons e log ih =>
      cases e with
      | cancelled k =>
          rcases h with ⟨-, hAdded⟩ | hOld
          · exact List.mem_cons_of_mem _ hAdded
          · exact List.mem_cons_of_mem _ (ih hOld)
      | _ => exact List.mem_cons_of_mem _ (ih h)

/-- What the trace says of the tasks that are on their way. -/
structure Logged (s : State) : Prop where
  added_lt : ∀ t, .added t ∈ s.log → t.ptr < s.fresh
  cancelled : ∀ t ∈ s.live, CancelledIn t s.log → t ∈ s.erased
  tested : ∀ t rest, s.worker = .delivering t rest → TestedLast t s.log
  cancels : Cancels s.log

theorem logged_start : Logged State.start where
  added_lt t hMem := absurd hMem List.not_mem_nil
  cancelled t hMem := absurd hMem List.not_mem_nil
  tested t rest hAt := by cases hAt
  cancels := trivial

variable {s s' : State}

/-- A step of the worker that puts nothing into the trace, and does not end at
`passEvent`. -/
theorem Logged.of_same (h : Logged s) (hLog : s'.log = s.log) (hFresh : s'.fresh = s.fresh)
    (hErased : s'.erased = s.erased) (hLive : ∀ t ∈ s'.live, t ∈ s.live)
    (hWorker : ∀ t rest, s'.worker = .delivering t rest → s.worker = .delivering t rest) :
    Logged s' where
  added_lt := by
    rw [hLog, hFresh]
    exact h.added_lt
  cancelled t hMem hIn := by
    rw [hLog] at hIn
    rw [hErased]
    exact h.cancelled t (hLive t hMem) hIn
  tested t rest hAt := by
    rw [hLog]
    exact h.tested t rest (hWorker t rest hAt)
  cancels := by
    rw [hLog]
    exact h.cancels

theorem logged_add (h : Logged s) (hIdle : s.handler = .idle) {t : Task} (hPtr : t.ptr = s.fresh)
    (l : Lookup) : Logged (s.add t l) := by
  cases l with
  | throws => exact h
  | throwsAgain => exact h
  | found =>
      refine ⟨?_, ?_, fun x rest hAt => h.tested x rest hAt, h.cancels⟩
      · intro x hMem
        rcases List.mem_cons.1 hMem with hNew | hOld
        · obtain rfl := Entry.added.inj hNew
          exact hPtr ▸ Nat.lt_succ_self _
        · exact Nat.lt_succ_of_lt (h.added_lt x hOld)
      · intro x hMem hIn
        have hLive : (s.add t .found).live = t :: s.live := by rw [live_of_idle hIdle]; rfl
        rw [hLive] at hMem
        rcases List.mem_cons.1 hMem with rfl | hOld
        · have hLt := h.added_lt x (added_mem_of_cancelledIn hIn)
          omega
        · exact h.cancelled x hOld hIn

/-- What is cancelled now, the flags being set. -/
theorem cancelled_of_listed (hInv : Inv s) (h : Logged s) {k : Key} {x : Task}
    (hLive : x ∈ s.live) (hIn : CancelledIn x (.cancelled k :: s.log)) :
    x ∈ s.listed k ++ s.erased := by
  by_contra hNot
  rw [List.mem_append, not_or] at hNot
  rcases hIn with ⟨rfl, -⟩ | hOld
  · exact hNot.1 (hInv.listed x hLive hNot.2)
  · exact hNot.2 (h.cancelled x hLive hOld)

theorem logged_remove (hInv : Inv s) (h : Logged s) (k : Key) (l : Lookup) :
    Logged (s.remove k l) := by
  cases l with
  | throws => exact h
  | throwsAgain => exact ⟨h.added_lt, h.cancelled, h.tested, h.cancels⟩
  | found =>
      refine ⟨?_, fun x hMem hIn => cancelled_of_listed hInv h hMem hIn,
        fun x rest hAt => h.tested x rest hAt, h.cancels⟩
      intro x hMem
      rcases List.mem_cons.1 hMem with hNew | hOld
      · cases hNew
      · exact h.added_lt x hOld

theorem logged_replace (hInv : Inv s) (h : Logged s) (hIdle : s.handler = .idle) (e : Setting)
    {t : Task} (hPtr : t.ptr = s.fresh) (l : Lookup) : Logged (s.replace e t l) := by
  cases l with
  | throws => exact h
  | throwsAgain => exact ⟨h.added_lt, h.cancelled, h.tested, h.cancels⟩
  | found =>
      refine ⟨?_, ?_, fun x rest hAt => h.tested x rest hAt, h.cancels⟩
      · intro x hMem
        rcases List.mem_cons.1 hMem with hNew | hOld
        · obtain rfl := Entry.added.inj hNew
          exact hPtr ▸ Nat.lt_succ_self _
        rcases List.mem_cons.1 hOld with hNew | hOld
        · cases hNew
        · exact Nat.lt_succ_of_lt (h.added_lt x hOld)
      · intro x hMem hIn
        have hLive : (s.replace e t .found).live = t :: s.live := by rw [live_of_idle hIdle]; rfl
        rw [hLive] at hMem
        rcases List.mem_cons.1 hMem with rfl | hOld
        · have hAdded : .added x ∈ s.log := by
            rcases hIn with ⟨-, hAdded⟩ | hIn
            · exact hAdded
            · exact added_mem_of_cancelledIn hIn
          have hLt := h.added_lt x hAdded
          omega
        · exact cancelled_of_listed hInv h hOld hIn

theorem logged_push (h : Logged s) (now : Int) : Logged (s.push now) := by
  have hLive : ∀ t ∈ (s.push now).live, t ∈ s.live := fun t => (live_push s now).mem_iff.1
  rw [State.push] at hLive ⊢
  split
  · exact h
  · rename_i t hHandler
    rw [hHandler] at hLive
    exact h.of_same rfl rfl rfl hLive fun _ _ hAt => hAt
  · rename_i e t hHandler
    rw [hHandler] at hLive
    refine ⟨?_, fun x hMem hIn => h.cancelled x (hLive x hMem) hIn,
      fun x rest hAt => h.tested x rest hAt, h.cancels⟩
    intro x hMem
    rcases List.mem_cons.1 hMem with hNew | hOld
    · cases hNew
    · exact h.added_lt x hOld

theorem logged_test (h : Logged s) {t : Task} {rest : List Task}
    (hAt : s.worker = .batch (t :: rest)) : Logged (s.test (t :: rest)) := by
  have hHeld : s.worker.held = t :: rest := by rw [hAt]; rfl
  have hLive : (s.test (t :: rest)).live = s.live := by
    rw [State.live, State.live, hHeld, State.test]
    dsimp only
    split <;> rfl
  refine ⟨?_, ?_, ?_, h.cancels⟩
  · intro x hMem
    rcases List.mem_cons.1 hMem with hNew | hOld
    · cases hNew
    · exact h.added_lt x hOld
  · intro x hMem hIn
    rw [hLive] at hMem
    exact h.cancelled x hMem hIn
  · intro x rest' hNow
    rw [State.test] at hNow
    dsimp only at hNow
    split at hNow
    · cases hNow
    · rename_i hNot
      obtain ⟨rfl, -⟩ := Worker.delivering.inj hNow
      refine ⟨rfl, fun hIn => hNot (h.cancelled t ?_ hIn)⟩
      rw [State.live, hHeld]
      simp

theorem logged_passEvent (h : Logged s) {t : Task} {rest : List Task}
    (hAt : s.worker = .delivering t rest) (throws : Bool) :
    Logged (s.passEvent t rest throws) := by
  have hHeld : s.worker.held = t :: rest := by rw [hAt]; rfl
  cases throws with
  | true =>
      refine h.of_same rfl rfl rfl ?_ fun x rest hNow => by cases hNow
      intro x hMem
      rw [State.live, hHeld]
      exact ((List.sublist_append_right _ _).append_left _).subset hMem
  | false =>
      refine ⟨?_, ?_, fun x rest hNow => (by cases hNow), h.tested t rest hAt, h.cancels⟩
      · intro x hMem
        rcases List.mem_cons.1 hMem with hNew | hOld
        · cases hNew
        · exact h.added_lt x hOld
      · intro x hMem hIn
        refine h.cancelled x ?_ hIn
        rw [State.live, hHeld]
        exact hMem

theorem logged_removeTOnly (h : Logged s) {t : Task} {rest : List Task}
    (hHeld : s.worker.held = t :: rest) (l : Lookup) : Logged (s.removeTOnly t rest l) := by
  cases l with
  | found =>
      refine h.of_same rfl rfl rfl ?_ fun x rest hNow => by cases hNow
      intro x hMem
      rw [State.live, hHeld]
      exact ((List.sublist_cons_self t _).append_left _).subset hMem
  | _ =>
      refine h.of_same rfl rfl rfl ?_ fun x rest hNow => by cases hNow
      intro x hMem
      rw [State.live, hHeld]
      exact ((List.sublist_append_right _ _).append_left _).subset hMem

theorem logged_finish (h : Logged s) {t : Task} {rest : List Task}
    (hAt : s.worker = .delivered t rest) (l : Lookup) (now : Int) :
    Logged (s.finish t rest l now) := by
  have hHeld : s.worker.held = t :: rest := by rw [hAt]; rfl
  rw [State.finish]
  split
  · refine h.of_same rfl rfl rfl ?_ fun x rest hNow => by cases hNow
    intro x hMem
    rw [State.live, hHeld]
    have hPush := ((tasksOf_pushBack (now + t.period) t s.nexts).append_left rest).trans
      List.perm_middle
    exact (hPush.append_left _).subset hMem
  · exact logged_removeTOnly h hHeld l

theorem logged_next (h : Logged s) (hInner : s.worker = .inner) (now : Int) :
    Logged (s.next now) := by
  have hHeld : s.worker.held = [] := by rw [hInner]; rfl
  rw [State.next]
  split
  · refine h.of_same rfl rfl rfl ?_ fun x rest hNow => by cases hNow
    rw [State.live, State.live, hHeld]
    exact fun x hMem => hMem
  · rename_i time ts rest hNexts
    split
    · refine h.of_same rfl rfl rfl ?_ fun x rest hNow => by cases hNow
      rw [State.live, State.live, hHeld]
      exact fun x hMem => hMem
    · refine h.of_same rfl rfl rfl ?_ fun x rest hNow => by cases hNow
      rw [State.live, State.live, hHeld, hNexts]
      exact fun x hMem => hMem

theorem logged_handle (hInv : Inv s) (h : Logged s) (hIdle : s.handler = .idle) {ev : Event}
    {l : Lookup} (hHandles : s.Handles l ev) : Logged (s.handle l ev) := by
  rcases State.handle_cases hHandles with hSame | ⟨t, hPtr, -, hAdd⟩ |
    ⟨e, t, -, hPtr, -, hReplace⟩ | ⟨k, -, hRemove⟩
  · rw [hSame]
    exact h
  · rw [hAdd]
    exact logged_add h hIdle hPtr l
  · rw [hReplace]
    exact logged_replace hInv h hIdle e hPtr l
  · rw [hRemove]
    exact logged_remove hInv h k l

theorem logged_apply (hInv : Inv s) (h : Logged s) {a : Action} (hEn : s.Enabled a) :
    Logged (s.apply a) := by
  have hWaits : ∀ w : Worker, w.held = [] → (∀ t rest, w ≠ .delivering t rest) →
      Logged { s with worker := w } := by
    intro w hHeld hNot
    refine h.of_same rfl rfl rfl ?_ fun t rest hNow => absurd hNow (hNot t rest)
    rw [State.live, State.live, hHeld]
    exact fun x hMem => ((List.sublist_append_right _ _).append_left _).subset hMem
  cases a with
  | handle ev l => exact logged_handle hInv h hEn.1 hEn.2
  | push now => exact logged_push h now
  | enter =>
      rw [State.apply]
      split
      · exact hWaits .waiting rfl fun t rest => by simp
      · exact hWaits .inner rfl fun t rest => by simp
  | wake => exact hWaits .inner rfl fun t rest => by simp
  | next now => exact logged_next h hEn now
  | test =>
      rw [State.apply]
      split
      · rename_i rest hAt
        cases rest with
        | nil => exact hWaits .inner rfl fun t rest => by simp
        | cons t rest => exact logged_test h hAt
      · exact h
  | passEvent throws =>
      rw [State.apply]
      split
      · rename_i t rest hAt
        exact logged_passEvent h hAt throws
      · exact h
  | finish l now =>
      rw [State.apply]
      split
      · rename_i t rest hAt
        exact logged_finish h hAt l now
      · rename_i t rest hAt
        exact logged_removeTOnly h (by rw [hAt]; rfl) l
      · exact h

theorem logged_of_reachable (h : machine.Reachable s) : Logged s := by
  have hBoth : Inv s ∧ Logged s := by
    refine Machine.Reachable.invariant (I := fun s => Inv s ∧ Logged s) ?_ ?_ h
    · rintro _ rfl
      exact ⟨inv_start, logged_start⟩
    · exact fun s a hs hEn => ⟨inv_apply hs.1 hEn, logged_apply hs.1 hs.2 hEn⟩
  exact hBoth.2

/-! ## Reset alarms -/

/-- The reset that the task is the alarm of, with the time it was handled at, as
long as the alarm has not fired, been stopped or been set again. -/
def armedBy (t : Task) : List Entry → Option (Setting × Int)
  | [] => none
  | .reset e t' now :: log => if t' = t then some (e, now) else armedBy t log
  | .added t' :: log => if t'.key = t.key then none else armedBy t log
  | .cancelled k :: log => if k = t.key then none else armedBy t log
  | .delivered t' :: log => if t' = t then none else armedBy t log
  | .tested _ :: log => armedBy t log

/-- The tasks of the batch that the worker has still to do something with. -/
def Worker.pending : Worker → List Task
  | .batch rest => rest
  | .delivering t rest | .dropping t rest => t :: rest
  | .delivered t rest => if t.key.type = .timer then t :: rest else rest
  | .outer | .waiting | .inner | .timedWaiting => []

/-- The tasks that are due some time. -/
def State.pending (s : State) : List Task := s.worker.pending ++ tasksOf s.nexts

/-- The tasks that a step of the worker loses: what is left of a batch when
something throws. -/
def State.lost (s : State) : Action → List Task
  | .passEvent true => s.worker.pending
  | .finish .throws _ => s.worker.pending
  | _ => []

/-- No step loses an alarm that is armed. -/
def Spares (s : State) (a : Action) : Prop := ∀ t ∈ s.lost a, armedBy t s.log = none

instance (s : State) (a : Action) : Decidable (Spares s a) :=
  inferInstanceAs (Decidable (∀ t ∈ s.lost a, armedBy t s.log = none))

/-- The task is in `mx_nexts` at the time `tb`, or in a batch that is being
passed on. -/
def State.Due (s : State) (t : Task) (tb : Int) : Prop :=
  t ∈ s.worker.pending ∨ ∃ ts, (tb, ts) ∈ s.nexts ∧ t ∈ ts

/-- The task is the one pending task of its key that is not erased, it has the
cookie and the delay of the reset, and it is due as the reset says. -/
structure Standing (s : State) (t : Task) (e : Setting) (now : Int) : Prop where
  only : s.pending.filter (fun x => x.key = t.key ∧ x ∉ s.erased) = [t]
  resets : e.Resets t
  due : s.Due t (now + e.delay)

/-- What holds of the alarms that are armed, and of the one about to be. -/
structure Armed (s : State) : Prop where
  setting : ∀ e x, s.handler = .pushReset e x → e.Resets x ∧ s.listed x.key = [x]
  armed : ∀ t e now, armedBy t s.log = some (e, now) →
    s.listed t.key = [t] ∧ e.Resets t ∧ s.Due t (now + e.delay)

theorem armed_start : Armed State.start where
  setting e x h := by cases h
  armed t e now h := by cases h

theorem mem_pushBack_self (tb : Int) (t : Task) (nexts : List (Int × List Task)) :
    ∃ ts, (tb, ts) ∈ pushBack tb t nexts ∧ t ∈ ts := by
  induction nexts with
  | nil => exact ⟨[t], List.mem_singleton.2 rfl, List.mem_singleton.2 rfl⟩
  | cons p nexts ih =>
      obtain ⟨time, ts⟩ := p
      rw [pushBack]
      split
      · exact ⟨[t], List.mem_cons_self, List.mem_singleton.2 rfl⟩
      rename_i hGe
      split
      · obtain ⟨ts', hMem, ht⟩ := ih
        exact ⟨ts', List.mem_cons_of_mem _ hMem, ht⟩
      · rename_i hLe
        have hSame : time = tb := by omega
        rw [hSame]
        exact ⟨ts ++ [t], List.mem_cons_self, by simp⟩

theorem Worker.pending_sublist (w : Worker) : w.pending.Sublist w.held := by
  cases w with
  | delivered t rest =>
      rw [Worker.pending, Worker.held]
      split
      · exact List.Sublist.refl _
      · exact List.sublist_cons_self _ _
  | _ => exact List.Sublist.refl _

theorem pending_sublist (s : State) : s.pending.Sublist s.live :=
  (s.worker.pending_sublist.append_right _).trans (List.sublist_append_right _ _)

theorem State.Due.mem_pending {t : Task} {tb : Int} (h : s.Due t tb) : t ∈ s.pending := by
  rcases h with hTaken | ⟨ts, hMem, ht⟩
  · exact List.mem_append_left _ hTaken
  · exact List.mem_append_right _ (List.mem_flatMap.2 ⟨_, hMem, ht⟩)

/-- A task that is alone under its key is the only one of its key that is pending
and not erased. -/
theorem standing_of_armed (hInv : Inv s) (h : Armed s) {t : Task} {e : Setting} {now : Int}
    (hArmed : armedBy t s.log = some (e, now)) : Standing s t e now := by
  obtain ⟨hListed, hResets, hDue⟩ := h.armed t e now hArmed
  refine ⟨?_, hResets, hDue⟩
  have hNodup : (s.pending.filter fun x => x.key = t.key ∧ x ∉ s.erased).Nodup :=
    (hInv.nodup.sublist (pending_sublist s)).filter _
  refine List.perm_singleton.1 ((List.perm_ext_iff_of_nodup hNodup (List.nodup_singleton t)).2 ?_)
  intro x
  rw [List.mem_filter, List.mem_singleton, decide_eq_true_eq]
  constructor
  · rintro ⟨hMem, hKey, hNot⟩
    have hx := hInv.listed x ((pending_sublist s).subset hMem) hNot
    rw [hKey, hListed] at hx
    exact List.mem_singleton.1 hx
  · rintro rfl
    have hx := hInv.table x.key x (by rw [hListed]; exact List.mem_singleton.2 rfl)
    exact ⟨hDue.mem_pending, rfl, hx.2.1⟩

/-- A step of the worker that leaves the table alone. -/
theorem Armed.of_worker (h : Armed s) (hHandler : s'.handler = s.handler)
    (hTimers : s'.timers = s.timers)
    (hArmed : ∀ t p, armedBy t s'.log = some p → armedBy t s.log = some p)
    (hDue : ∀ t e now, armedBy t s'.log = some (e, now) → t.key.type = .alarm →
      s.Due t (now + e.delay) → s'.Due t (now + e.delay)) : Armed s' := by
  have hListed : ∀ k, s'.listed k = s.listed k := fun k => by
    rw [State.listed, State.listed, hTimers]
  refine ⟨?_, ?_⟩
  · intro e x hNow
    rw [hListed]
    rw [hHandler] at hNow
    exact h.setting e x hNow
  · intro t e now hNow
    obtain ⟨hSame, hResets, hOld⟩ := h.armed t e now (hArmed t _ hNow)
    rw [hListed]
    refine ⟨hSame, hResets, hDue t e now hNow ?_ hOld⟩
    obtain ⟨x, r, -, hTask⟩ := hResets
    rw [hTask]
    rfl

theorem Armed.emptySet (h : Armed s) {k : Key} (hNone : s.timers k = none) :
    Armed { s with timers := Function.update s.timers k (some []) } := by
  have hListed := listed_emptySet hNone
  refine ⟨fun e x hNow => ?_, fun t e now hNow => ?_⟩
  · obtain ⟨hResets, hSame⟩ := h.setting e x hNow
    exact ⟨hResets, (hListed _).trans hSame⟩
  · obtain ⟨hSame, hRest⟩ := h.armed t e now hNow
    exact ⟨(hListed _).trans hSame, hRest⟩

/-- A step of the handler that changes the set of one key, which it has
cancelled or added to. -/
theorem Armed.of_handler (h : Armed s) {k : Key} (hWorker : s'.worker = s.worker)
    (hNexts : s'.nexts = s.nexts) (hListed : ∀ k', k' ≠ k → s'.listed k' = s.listed k')
    (hSetting : ∀ e x, s'.handler = .pushReset e x → e.Resets x ∧ s'.listed x.key = [x])
    (hArmed : ∀ t p, armedBy t s'.log = some p → k ≠ t.key ∧ armedBy t s.log = some p) :
    Armed s' := by
  refine ⟨hSetting, fun t e now hNow => ?_⟩
  obtain ⟨hKey, hOld⟩ := hArmed t _ hNow
  obtain ⟨hSame, hResets, hDue⟩ := h.armed t e now hOld
  rw [hListed _ (Ne.symm hKey), State.Due, hWorker, hNexts]
  exact ⟨hSame, hResets, hDue⟩

theorem armed_add (h : Armed s) (t : Task) (l : Lookup) : Armed (s.add t l) := by
  cases l with
  | throws => exact h
  | throwsAgain => exact h
  | found =>
      refine h.of_handler (k := t.key) rfl rfl ?_ (fun e x hNow => by cases hNow) ?_
      · intro k' hNe
        exact (listed_update s.timers t.key k' _).trans (if_neg hNe)
      · intro x p hNow
        change (if t.key = x.key then none else armedBy x s.log) = some p at hNow
        split at hNow
        · cases hNow
        · rename_i hNe
          exact ⟨hNe, hNow⟩

theorem armed_replace (h : Armed s) {e : Setting} {t : Task} (hResets : e.Resets t) {l : Lookup}
    (hFinds : s.FindsTwice t.key l) : Armed (s.replace e t l) := by
  cases l with
  | throws => exact h
  | throwsAgain => exact h.emptySet hFinds.1
  | found =>
      refine h.of_handler (k := t.key) rfl rfl ?_ ?_ ?_
      · intro k' hNe
        exact (listed_update s.timers t.key k' _).trans (if_neg hNe)
      · intro e' x hNow
        obtain ⟨rfl, rfl⟩ := Handler.pushReset.inj hNow
        exact ⟨hResets, (listed_update s.timers t.key t.key _).trans (if_pos rfl)⟩
      · intro x p hNow
        change (if t.key = x.key then none
          else if t.key = x.key then none else armedBy x s.log) = some p at hNow
        split at hNow
        · cases hNow
        · rename_i hNe
          exact ⟨hNe, hNow⟩

theorem armed_remove (h : Armed s) (hIdle : s.handler = .idle) {k : Key} {l : Lookup}
    (hFinds : s.FindsTwice k l) : Armed (s.remove k l) := by
  cases l with
  | throws => exact h
  | throwsAgain => exact h.emptySet hFinds.1
  | found =>
      refine h.of_handler (k := k) rfl rfl ?_ ?_ ?_
      · intro k' hNe
        exact (listed_update s.timers k k' _).trans (if_neg hNe)
      · intro e x hNow
        rw [State.remove] at hNow
        dsimp only at hNow
        rw [hIdle] at hNow
        cases hNow
      · intro x p hNow
        change (if k = x.key then none else armedBy x s.log) = some p at hNow
        split at hNow
        · cases hNow
        · rename_i hNe
          exact ⟨hNe, hNow⟩

theorem armed_push (h : Armed s) (now : Int) : Armed (s.push now) := by
  rw [State.push]
  split
  · exact h
  · rename_i t hHandler
    refine ⟨fun e x hNow => (by cases hNow), fun x e now' hNow => ?_⟩
    obtain ⟨hSame, hResets, hDue⟩ := h.armed x e now' hNow
    exact ⟨hSame, hResets, hDue.imp id mem_pushBack_of_mem⟩
  · rename_i e t hHandler
    refine ⟨fun e x hNow => (by cases hNow), fun x e' now' hNow => ?_⟩
    change (if t = x then some (e, now) else armedBy x s.log) = some (e', now') at hNow
    split at hNow
    · rename_i hSame
      obtain ⟨rfl, rfl⟩ := Prod.mk.inj (Option.some.inj hNow)
      subst hSame
      obtain ⟨hResets, hListed⟩ := h.setting e t hHandler
      refine ⟨hListed, hResets, Or.inr ?_⟩
      have hPeriod : t.period = e.delay := by
        obtain ⟨_, r, -, hTask⟩ := hResets
        rw [hTask]
        rfl
      rw [← hPeriod]
      exact mem_pushBack_self _ t s.nexts
    · obtain ⟨hSame, hResets, hDue⟩ := h.armed x e' now' hNow
      exact ⟨hSame, hResets, hDue.imp id mem_pushBack_of_mem⟩

theorem armed_next (h : Armed s) (hInner : s.worker = .inner) (now : Int) : Armed (s.next now) := by
  have hNone : s.worker.pending = [] := by rw [hInner]; rfl
  rw [State.next]
  split
  · refine h.of_worker rfl rfl (fun t p hNow => hNow) fun t e now' _ _ hDue => ?_
    rw [State.Due, hNone] at hDue
    exact hDue
  · rename_i time ts rest hNexts
    split
    · refine h.of_worker rfl rfl (fun t p hNow => hNow) fun t e now' _ _ hDue => ?_
      rw [State.Due, hNone] at hDue
      exact hDue
    · refine h.of_worker rfl rfl (fun t p hNow => hNow) fun t e now' _ _ hDue => ?_
      rw [State.Due, hNone, hNexts] at hDue
      rcases hDue with hTaken | ⟨ts', hMem, ht⟩
      · cases hTaken
      · rcases List.mem_cons.1 hMem with hHead | hTail
        · obtain ⟨-, rfl⟩ := Prod.mk.inj hHead
          exact Or.inl ht
        · exact Or.inr ⟨ts', hTail, ht⟩

theorem armed_test (h : Armed s) {rest : List Task} (hAt : s.worker = .batch rest) :
    Armed (s.test rest) := by
  have hPending : s.worker.pending = rest := by rw [hAt]; rfl
  cases rest with
  | nil =>
      refine h.of_worker rfl rfl (fun t p hNow => hNow) fun t e now _ _ hDue => ?_
      rw [State.Due, hPending] at hDue
      exact hDue
  | cons t rest =>
      refine h.of_worker rfl rfl (fun t p hNow => hNow) fun x e now _ _ hDue => ?_
      have hSame : (s.test (t :: rest)).worker.pending = t :: rest := by
        rw [State.test]
        dsimp only
        split <;> rfl
      rw [State.Due, hPending] at hDue
      rw [State.Due, hSame]
      exact hDue

theorem armed_passEvent (h : Armed s) {t : Task} {rest : List Task}
    (hAt : s.worker = .delivering t rest) {throws : Bool} (hSpares : Spares s (.passEvent throws)) :
    Armed (s.passEvent t rest throws) := by
  have hPending : s.worker.pending = t :: rest := by rw [hAt]; rfl
  cases throws with
  | true =>
      refine h.of_worker rfl rfl (fun x p hNow => hNow) fun x e now hNow _ hDue => ?_
      refine hDue.imp_left fun hTaken => ?_
      exact absurd ((hSpares x hTaken).symm.trans hNow) (by simp)
  | false =>
      have hOther : ∀ x p, (if t = x then none else armedBy x s.log) = some p →
          t ≠ x ∧ armedBy x s.log = some p := by
        intro x p hNow
        split at hNow
        · cases hNow
        · rename_i hNe
          exact ⟨hNe, hNow⟩
      refine h.of_worker rfl rfl (fun x p hNow => (hOther x p hNow).2) ?_
      intro x e now hNow _ hDue
      have hNe := (hOther x _ hNow).1
      refine hDue.imp_left fun hTaken => ?_
      rw [hPending] at hTaken
      have hRest := (List.mem_cons.1 hTaken).resolve_left (Ne.symm hNe)
      rw [State.passEvent, Worker.pending]
      split
      · exact List.mem_cons_of_mem t hRest
      · exact hRest

/-- The task behind which the worker is leaves the table; it is not armed. -/
theorem armed_removeTOnly (hInv : Inv s) (h : Armed s) {t : Task} {rest : List Task}
    (hHeld : s.worker.held = t :: rest)
    (hPending : ∀ x ∈ s.worker.pending, x ∉ s.erased → x ∈ rest) {l : Lookup}
    (hFinds : s.Finds t.key l) (hLost : l = .throws → ∀ x ∈ s.worker.pending, armedBy x s.log = none) :
    Armed (s.removeTOnly t rest l) := by
  have hNodup := hInv.nodup
  rw [State.live, hHeld] at hNodup
  cases l with
  | throwsAgain => exact hFinds.elim
  | throws =>
      refine h.of_worker rfl rfl (fun x p hNow => hNow) fun x e now hNow _ hDue => ?_
      refine hDue.imp_left fun hTaken => ?_
      exact absurd ((hLost rfl x hTaken).symm.trans hNow) (by simp)
  | found =>
      have hListed : ∀ k x, s.listed k = [x] → x ≠ t →
          (s.removeTOnly t rest .found).listed k = [x] := by
        intro k x hSame hNe
        refine (listed_update s.timers t.key k _).trans ?_
        split
        · rename_i hKey
          rw [hKey] at hSame
          rw [Option.getD_some, hSame]
          exact List.filter_eq_self.2 fun y hy => decide_eq_true (List.mem_singleton.1 hy ▸ hNe)
        · exact hSame
      have hApart := List.nodup_append.1 hNodup
      have hBehind : t ∉ rest ++ tasksOf s.nexts := (List.nodup_cons.1 hApart.2.1).1
      refine ⟨fun e x hNow => ?_, fun x e now hNow => ?_⟩
      · obtain ⟨hResets, hSame⟩ := h.setting e x hNow
        refine ⟨hResets, hListed x.key x hSame ?_⟩
        have hHandler : x ∈ s.handler.held := by
          rw [show s.handler = .pushReset e x from hNow]
          exact List.mem_singleton.2 rfl
        exact hApart.2.2 x hHandler t List.mem_cons_self
      · obtain ⟨hSame, hResets, hDue⟩ := h.armed x e now hNow
        have hNot : x ∉ s.erased :=
          (hInv.table x.key x (by rw [hSame]; exact List.mem_singleton.2 rfl)).2.1
        have hNext : (s.removeTOnly t rest .found).Due x (now + e.delay) :=
          hDue.imp_left fun hTaken => hPending x hTaken hNot
        refine ⟨hListed x.key x hSame ?_, hResets, hNext⟩
        rintro rfl
        exact hBehind hNext.mem_pending

theorem armed_finish (hInv : Inv s) (h : Armed s) {t : Task} {rest : List Task}
    (hAt : s.worker = .delivered t rest) {l : Lookup} {now : Int}
    (hFinds : s.AtFinish l s.worker) (hSpares : Spares s (.finish l now)) :
    Armed (s.finish t rest l now) := by
  have hHeld : s.worker.held = t :: rest := by rw [hAt]; rfl
  have hLost : l = .throws → ∀ x ∈ s.worker.pending, armedBy x s.log = none := by
    rintro rfl
    exact hSpares
  rw [hAt, State.AtFinish] at hFinds
  rw [State.finish]
  split
  · rename_i hTimer
    have hPending : s.worker.pending = t :: rest := by
      rw [hAt, Worker.pending, if_pos hTimer]
    refine h.of_worker rfl rfl (fun x p hNow => hNow) fun x e now' hNow hAlarm hDue => ?_
    rcases hDue with hTaken | hWaits
    · rw [hPending] at hTaken
      rcases List.mem_cons.1 hTaken with rfl | hRest
      · rw [hTimer] at hAlarm
        cases hAlarm
      · exact Or.inl hRest
    · exact Or.inr (mem_pushBack_of_mem hWaits)
  · rename_i hAlarm
    have hNot : t.key.type ≠ .timer := by
      rw [hAlarm]
      exact fun hType => by cases hType
    rw [if_neg hNot] at hFinds
    refine armed_removeTOnly hInv h hHeld (fun x hMem _ => ?_) hFinds hLost
    rw [hAt, Worker.pending, if_neg hNot] at hMem
    exact hMem

theorem armed_handle (h : Armed s) (hIdle : s.handler = .idle) {ev : Event} {l : Lookup}
    (hHandles : s.Handles l ev) : Armed (s.handle l ev) := by
  rcases State.handle_cases hHandles with hSame | ⟨t, -, -, hAdd⟩ |
    ⟨e, t, hResets, -, hFinds, hReplace⟩ | ⟨k, hFinds, hRemove⟩
  · rw [hSame]
    exact h
  · rw [hAdd]
    exact armed_add h t l
  · rw [hReplace]
    exact armed_replace h hResets hFinds
  · rw [hRemove]
    exact armed_remove h hIdle hFinds

theorem armed_apply (hInv : Inv s) (h : Armed s) {a : Action} (hEn : s.Enabled a)
    (hSpares : Spares s a) : Armed (s.apply a) := by
  have hWaits : ∀ w : Worker, s.worker.pending = [] → Armed { s with worker := w } := by
    intro w hNone
    refine h.of_worker rfl rfl (fun t p hNow => hNow) fun t e now _ _ hDue => ?_
    rw [State.Due, hNone] at hDue
    exact Or.inr (hDue.resolve_left List.not_mem_nil)
  cases a with
  | handle ev l => exact armed_handle h hEn.1 hEn.2
  | push now => exact armed_push h now
  | enter => exact hWaits _ (by rw [show s.worker = .outer from hEn]; rfl)
  | wake =>
      refine hWaits _ ?_
      rcases hEn with hAt | hAt
      · rw [hAt]; rfl
      · rw [hAt]; rfl
  | next now => exact armed_next h hEn now
  | test =>
      rw [State.apply]
      split
      · rename_i rest hAt
        exact armed_test h hAt
      · exact h
  | passEvent throws =>
      rw [State.apply]
      split
      · rename_i t rest hAt
        exact armed_passEvent h hAt hSpares
      · exact h
  | finish l now =>
      rw [State.apply]
      split
      · rename_i t rest hAt
        exact armed_finish hInv h hAt hEn hSpares
      · rename_i t rest hAt
        have hFinds : s.AtFinish l s.worker := hEn
        rw [hAt, State.AtFinish] at hFinds
        refine armed_removeTOnly hInv h (by rw [hAt]; rfl) ?_ hFinds ?_
        · intro x hMem hNot
          rw [hAt] at hMem
          refine (List.mem_cons.1 hMem).resolve_left ?_
          rintro rfl
          exact hNot (hInv.dropping x _ hAt)
        · rintro rfl
          exact hSpares
      · exact h

/--
**Cancellation.** Under every interleaving, a tick is passed on only right
after the worker found the task not cancelled.  In the runs whose steps lose no
alarm that is armed, an alarm that has been reset and has neither fired nor been
stopped nor set again is the one task of its key that is pending and not
erased, with the cookie and the delay of the reset.
-/
theorem cancellation (hReach : machine.Reachable s) :
    Cancels s.log ∧ ((machine.guarded Spares).Reachable s →
      ∀ t e now, armedBy t s.log = some (e, now) → Standing s t e now) := by
  refine ⟨(logged_of_reachable hReach).cancels, fun hGuarded t e now hArmed => ?_⟩
  have hBoth : Inv s ∧ Armed s := by
    refine Machine.Reachable.invariant (I := fun s => Inv s ∧ Armed s) ?_ ?_ hGuarded
    · rintro _ rfl
      exact ⟨inv_start, armed_start⟩
    · exact fun s a hs hEn => ⟨inv_apply hs.1 hEn.1, armed_apply hs.1 hs.2 hEn.1 hEn.2⟩
  exact standing_of_armed hBoth.1 hBoth.2 hArmed

/-- An event of a service that wants its tick back. -/
def alarmEvent (tid : Int32) (cookie : Bytes) (delay : Int) : Setting :=
  ⟨tid, [], cookie, delay, [.localService [1], .localService [2]]⟩

/-- An alarm that is reset twice before it is due, and an alarm behind it. -/
def resets : List Action :=
  [.handle (.resetAlarm (alarmEvent 1 [1] 10)) .found, .push 0,
   .handle (.resetAlarm (alarmEvent 1 [2] 30)) .found, .push 5,
   .enter, .next 10, .test, .finish .found 10, .test,
   .handle (.setAlarm (alarmEvent 2 [] 1)) .found, .push 20,
   .next 21, .test, .passEvent true]

theorem resets_standing :
    Cancels (machine.exec .start resets).log ∧
      Standing (machine.exec .start resets) ((alarmEvent 1 [2] 30).task 1 .alarm [.localService [2]])
        (alarmEvent 1 [2] 30) 5 := by
  have hPath : (machine.guarded Spares).Path .start resets := by decide +kernel
  have hBoth := cancellation ⟨.start, resets, rfl, Machine.Path.of_guarded hPath, rfl⟩
  exact ⟨hBoth.1, hBoth.2 ⟨.start, resets, rfl, hPath, Machine.exec_guarded _ _ _ _⟩ _ _ _
    (by decide +kernel)⟩

/-- Two alarms due at one time, the second one reset; the tick of the first
cannot be passed on. -/
def loses : List Action :=
  [.handle (.setAlarm (alarmEvent 1 [] 10)) .found, .push 0,
   .handle (.resetAlarm (alarmEvent 2 [] 10)) .found, .push 0,
   .enter, .next 10, .test, .passEvent true]

/-- The reset alarm has not fired, and it is pending no longer. -/
theorem cancellation_breaks :
    armedBy ((alarmEvent 2 [] 10).task 1 .alarm [.localService [2]])
        (machine.exec .start loses).log = some (alarmEvent 2 [] 10, 0) ∧
      (machine.exec .start loses).pending = [] ∧
      ¬ ∀ s, machine.Reachable s →
        ∀ t e now, armedBy t s.log = some (e, now) → Standing s t e now := by
  have hArmed : armedBy ((alarmEvent 2 [] 10).task 1 .alarm [.localService [2]])
      (machine.exec .start loses).log = some (alarmEvent 2 [] 10, 0) := by decide +kernel
  have hNone : (machine.exec .start loses).pending = [] := by decide +kernel
  refine ⟨hArmed, hNone, fun hAll => ?_⟩
  have hReach : machine.Reachable (machine.exec .start loses) :=
    ⟨.start, loses, rfl, by decide +kernel, rfl⟩
  have hPending := (hAll _ hReach _ _ _ hArmed).due.mem_pending
  rw [hNone] at hPending
  cases hPending

end Megatron.Timer.Threads
