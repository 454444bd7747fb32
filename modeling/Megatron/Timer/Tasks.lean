import Mathlib.Data.List.Perm.Subperm
import Megatron.Timer.Threads

/-!
# Where the tasks are

A task that has been added is with the handler until it is due somewhere, then
in `mx_nexts`, then in the batch of the worker, and from there back in
`mx_nexts` or gone: it is in one place at a time (`live`).  As long as it is in
one of them and not erased, the table has it under its key.

## Main results

* `Inv` — the invariant.
* `inv_of_reachable` — it holds under every interleaving.
-/

namespace Megatron.Timer.Threads

open Megatron.Corelib Megatron.Lib

/-! ## The places -/

/-- The task the handler has put into the table only. -/
def Handler.held : Handler → List Task
  | .idle => []
  | .push t => [t]
  | .pushReset _ t => [t]

/-- The copied batch from the task on that the worker is at. -/
def Worker.held : Worker → List Task
  | .batch rest => rest
  | .delivering t rest | .delivered t rest | .dropping t rest => t :: rest
  | .outer | .waiting | .inner | .timedWaiting => []

/-- All tasks of `mx_nexts`. -/
def tasksOf (nexts : List (Int × List Task)) : List Task := nexts.flatMap (·.2)

/-- The tasks that are on their way. -/
def State.live (s : State) : List Task := s.handler.held ++ (s.worker.held ++ tasksOf s.nexts)

theorem tasksOf_pushBack (tb : Int) (t : Task) (nexts : List (Int × List Task)) :
    (tasksOf (pushBack tb t nexts)).Perm (t :: tasksOf nexts) := by
  induction nexts with
  | nil => exact List.Perm.refl _
  | cons p nexts ih =>
      obtain ⟨time, ts⟩ := p
      rw [pushBack]
      split
      · exact List.Perm.refl _
      split
      · exact (ih.append_left ts).trans List.perm_middle
      · have hPlace : tasksOf ((time, ts ++ [t]) :: nexts) = ts ++ t :: tasksOf nexts := by
          simp [tasksOf]
        rw [hPlace]
        exact List.perm_middle

theorem mem_pushBack_of_mem {time tb : Int} {x t : Task} {nexts : List (Int × List Task)}
    (h : ∃ ts, (time, ts) ∈ nexts ∧ x ∈ ts) : ∃ ts, (time, ts) ∈ pushBack tb t nexts ∧ x ∈ ts := by
  induction nexts with
  | nil =>
      obtain ⟨ts, hMem, -⟩ := h
      cases hMem
  | cons p nexts ih =>
      obtain ⟨time', ts'⟩ := p
      obtain ⟨ts, hMem, hx⟩ := h
      rw [pushBack]
      split
      · exact ⟨ts, List.mem_cons_of_mem _ hMem, hx⟩
      split
      · rcases List.mem_cons.1 hMem with hHead | hTail
        · exact ⟨ts, List.mem_cons.2 (Or.inl hHead), hx⟩
        · obtain ⟨ts'', hMem', hx'⟩ := ih ⟨ts, hTail, hx⟩
          exact ⟨ts'', List.mem_cons_of_mem _ hMem', hx'⟩
      · rcases List.mem_cons.1 hMem with hHead | hTail
        · obtain ⟨rfl, rfl⟩ := Prod.mk.inj hHead
          exact ⟨ts ++ [t], List.mem_cons_self, List.mem_append_left _ hx⟩
        · exact ⟨ts, List.mem_cons_of_mem _ hTail, hx⟩

/-! ## The invariant -/

/-- Every task is in one place; no address is used twice; a task that is not
erased is in the table as long as it is on its way; the table keeps no other
tasks under a key than tasks of that key that are not erased; and the worker
drops erased tasks only. -/
structure Inv (s : State) : Prop where
  nodup : s.live.Nodup
  live_lt : ∀ t ∈ s.live, t.ptr < s.fresh
  erased_lt : ∀ t ∈ s.erased, t.ptr < s.fresh
  listed : ∀ t ∈ s.live, t ∉ s.erased → t ∈ s.listed t.key
  table : ∀ k, ∀ t ∈ s.listed k, t.key = k ∧ t ∉ s.erased ∧ t.ptr < s.fresh
  dropping : ∀ t rest, s.worker = .dropping t rest → t ∈ s.erased

theorem inv_start : Inv State.start where
  nodup := List.nodup_nil
  live_lt := List.forall_mem_nil _
  erased_lt := List.forall_mem_nil _
  listed := List.forall_mem_nil _
  table _ := List.forall_mem_nil _
  dropping t rest hAt := by cases hAt

variable {s s' : State}

/-- A step that leaves the table alone and moves or forgets tasks. -/
theorem Inv.of_subperm (h : Inv s) (hLive : s'.live.Subperm s.live)
    (hTimers : s'.timers = s.timers) (hErased : s'.erased = s.erased)
    (hFresh : s'.fresh = s.fresh)
    (hDropping : ∀ t rest, s'.worker = .dropping t rest → t ∈ s'.erased) : Inv s' := by
  have hListed : ∀ k, s'.listed k = s.listed k := fun k => by
    rw [State.listed, State.listed, hTimers]
  obtain ⟨l, hPerm, hSub⟩ := hLive
  refine ⟨hPerm.nodup_iff.1 (h.nodup.sublist hSub), ?_, ?_, ?_, ?_, hDropping⟩
  · intro t hMem
    rw [hFresh]
    exact h.live_lt t (hSub.subset (hPerm.mem_iff.2 hMem))
  · rw [hErased, hFresh]
    exact h.erased_lt
  · intro t hMem hNot
    rw [hErased] at hNot
    rw [hListed]
    exact h.listed t (hSub.subset (hPerm.mem_iff.2 hMem)) hNot
  · intro k t hMem
    rw [hListed] at hMem
    rw [hErased, hFresh]
    exact h.table k t hMem

theorem not_mem_live_of_ptr (h : Inv s) {t : Task} (hPtr : t.ptr = s.fresh) : t ∉ s.live :=
  fun hMem => by
    have hLt := h.live_lt t hMem
    omega

theorem not_mem_erased_of_ptr (h : Inv s) {t : Task} (hPtr : t.ptr = s.fresh) : t ∉ s.erased :=
  fun hMem => by
    have hLt := h.erased_lt t hMem
    omega

/-- A new task is none of those that a key has erased. -/
theorem not_mem_cancelled_of_ptr (h : Inv s) {t : Task} (hPtr : t.ptr = s.fresh) (k : Key) :
    t ∉ s.listed k ++ s.erased := by
  rw [List.mem_append, not_or]
  refine ⟨fun hx => ?_, not_mem_erased_of_ptr h hPtr⟩
  have hLt := (h.table k t hx).2.2
  omega

/-- A new task is none of those that live. -/
theorem Inv.live_cons (h : Inv s) {t : Task} (hPtr : t.ptr = s.fresh) :
    (t :: s.live).Nodup ∧ ∀ x ∈ t :: s.live, x.ptr < s.fresh + 1 := by
  refine ⟨List.nodup_cons.2 ⟨not_mem_live_of_ptr h hPtr, h.nodup⟩,
    List.forall_mem_cons.2 ⟨?_, fun x hx => Nat.lt_succ_of_lt (h.live_lt x hx)⟩⟩
  rw [hPtr]
  exact Nat.lt_succ_self _

/-! ## The table after each operation -/

theorem listed_update (timers : Key → Option (List Task)) (k k' : Key) (o : Option (List Task)) :
    ((Function.update timers k o) k').getD [] =
      if k' = k then o.getD [] else (timers k').getD [] := by
  rw [Function.update_apply]
  split <;> rfl

theorem live_of_idle (hIdle : s.handler = .idle) : s.live = s.worker.held ++ tasksOf s.nexts := by
  rw [State.live, hIdle]
  rfl

theorem inv_add (h : Inv s) (hIdle : s.handler = .idle) {t : Task} (hPtr : t.ptr = s.fresh)
    (l : Lookup) : Inv (s.add t l) := by
  cases l with
  | throws => exact h
  | throwsAgain => exact h
  | found =>
      have hLive : (s.add t .found).live = t :: s.live := by rw [live_of_idle hIdle]; rfl
      have hListed : ∀ k, (s.add t .found).listed k =
          if k = t.key then t :: s.listed t.key else s.listed k :=
        fun k => listed_update s.timers t.key k _
      refine ⟨?_, ?_, ?_, ?_, ?_, h.dropping⟩
      · rw [hLive]
        exact (h.live_cons hPtr).1
      · rw [hLive]
        exact (h.live_cons hPtr).2
      · exact fun x hx => Nat.lt_succ_of_lt (h.erased_lt x hx)
      · rw [hLive]
        intro x hMem hNot
        rw [hListed]
        rcases List.mem_cons.1 hMem with rfl | hOld
        · rw [if_pos rfl]
          exact List.mem_cons_self
        · have hOld := h.listed x hOld hNot
          split
          · rename_i hKey
            rw [hKey] at hOld
            exact List.mem_cons_of_mem t hOld
          · exact hOld
      · intro k x hMem
        rw [hListed] at hMem
        have hOld : ∀ k, x ∈ s.listed k → x.key = k ∧ x ∉ s.erased ∧ x.ptr < s.fresh + 1 := by
          intro k hx
          obtain ⟨hKey, hNot, hLt⟩ := h.table k x hx
          exact ⟨hKey, hNot, Nat.lt_succ_of_lt hLt⟩
        split at hMem
        · rename_i hKey
          rcases List.mem_cons.1 hMem with rfl | hx
          · refine ⟨hKey.symm, not_mem_erased_of_ptr h hPtr, ?_⟩
            rw [hPtr]
            exact Nat.lt_succ_self _
          · rw [hKey]
            exact hOld t.key hx
        · exact hOld k hMem

theorem listed_emptySet {k : Key} (hNone : s.timers k = none) (k' : Key) :
    ((Function.update s.timers k (some [])) k').getD [] = s.listed k' := by
  rw [listed_update]
  split
  · rename_i hKey
    rw [hKey, State.listed, hNone]
    rfl
  · rfl

/-- A key that a look-up has put into the table with no task. -/
theorem inv_emptySet (h : Inv s) {k : Key} (hNone : s.timers k = none) :
    Inv { s with timers := Function.update s.timers k (some []) } := by
  have hListed := listed_emptySet hNone
  refine ⟨h.nodup, h.live_lt, h.erased_lt, ?_, ?_, h.dropping⟩
  · intro t hMem hNot
    have hOld := h.listed t hMem hNot
    rw [← hListed] at hOld
    exact hOld
  · intro k' t hMem
    have hOld : t ∈ s.listed k' := by
      rw [← hListed]
      exact hMem
    exact h.table k' t hOld

/-- What the table keeps of the other keys when the tasks of one are erased. -/
theorem Inv.other_key (h : Inv s) {k : Key} {t : Task} (hMem : t ∈ s.listed t.key)
    (hKey : t.key ≠ k) : t ∉ s.listed k ++ s.erased := by
  rw [List.mem_append, not_or]
  exact ⟨fun hx => hKey (h.table k t hx).1, (h.table t.key t hMem).2.1⟩

theorem inv_remove (h : Inv s) {k : Key} {l : Lookup} (hFinds : s.FindsTwice k l) :
    Inv (s.remove k l) := by
  cases l with
  | throws => exact h
  | throwsAgain => exact inv_emptySet h hFinds.1
  | found =>
      have hListed : ∀ k', (s.remove k .found).listed k' = if k' = k then [] else s.listed k' :=
        fun k' => listed_update s.timers k k' _
      refine ⟨h.nodup, h.live_lt, ?_, ?_, ?_,
        fun t rest hAt => List.mem_append_right _ (h.dropping t rest hAt)⟩
      · intro t hMem
        rcases List.mem_append.1 hMem with hx | hx
        · exact (h.table k t hx).2.2
        · exact h.erased_lt t hx
      · intro t hMem hNot
        change t ∉ s.listed k ++ s.erased at hNot
        rw [List.mem_append, not_or] at hNot
        have hOld := h.listed t hMem hNot.2
        have hKey : t.key ≠ k := by
          rintro rfl
          exact hNot.1 hOld
        rw [hListed, if_neg hKey]
        exact hOld
      · intro k' t hMem
        rw [hListed] at hMem
        split at hMem
        · cases hMem
        · rename_i hKey
          obtain ⟨hSame, -, hLt⟩ := h.table k' t hMem
          exact ⟨hSame, h.other_key (by rw [hSame]; exact hMem) (by rw [hSame]; exact hKey), hLt⟩

theorem inv_replace (h : Inv s) (hIdle : s.handler = .idle) {e : Setting} {t : Task}
    (hPtr : t.ptr = s.fresh) {l : Lookup} (hFinds : s.FindsTwice t.key l) :
    Inv (s.replace e t l) := by
  cases l with
  | throws => exact h
  | throwsAgain => exact inv_emptySet h hFinds.1
  | found =>
      have hLive : (s.replace e t .found).live = t :: s.live := by rw [live_of_idle hIdle]; rfl
      have hListed : ∀ k, (s.replace e t .found).listed k =
          if k = t.key then [t] else s.listed k := fun k => listed_update s.timers t.key k _
      have hNew := not_mem_cancelled_of_ptr h hPtr t.key
      refine ⟨?_, ?_, ?_, ?_, ?_,
        fun x rest hAt => List.mem_append_right _ (h.dropping x rest hAt)⟩
      · rw [hLive]
        exact (h.live_cons hPtr).1
      · rw [hLive]
        exact (h.live_cons hPtr).2
      · intro x hMem
        rcases List.mem_append.1 hMem with hx | hx
        · exact Nat.lt_succ_of_lt (h.table t.key x hx).2.2
        · exact Nat.lt_succ_of_lt (h.erased_lt x hx)
      · rw [hLive]
        intro x hMem hNot
        change x ∉ s.listed t.key ++ s.erased at hNot
        rw [hListed]
        rcases List.mem_cons.1 hMem with rfl | hOld
        · rw [if_pos rfl]
          exact List.mem_cons_self
        · rw [List.mem_append, not_or] at hNot
          have hOld := h.listed x hOld hNot.2
          have hKey : x.key ≠ t.key := by
            intro hKey
            rw [hKey] at hOld
            exact hNot.1 hOld
          rw [if_neg hKey]
          exact hOld
      · intro k x hMem
        rw [hListed] at hMem
        split at hMem
        · rename_i hKey
          obtain rfl := List.mem_singleton.1 hMem
          refine ⟨hKey.symm, hNew, ?_⟩
          rw [hPtr]
          exact Nat.lt_succ_self _
        · rename_i hKey
          obtain ⟨hSame, -, hLt⟩ := h.table k x hMem
          exact ⟨hSame, h.other_key (by rw [hSame]; exact hMem) (by rw [hSame]; exact hKey),
            Nat.lt_succ_of_lt hLt⟩

/-- A task that is on its way no longer may leave the table. -/
theorem inv_removeTOnly (h : Inv s) {t : Task} {rest : List Task} (hHeld : s.worker.held = t :: rest)
    (l : Lookup) : Inv (s.removeTOnly t rest l) := by
  have hLive : s.live = s.handler.held ++ (t :: (rest ++ tasksOf s.nexts)) := by
    rw [State.live, hHeld]
    rfl
  have hDrop : (s.removeTOnly t rest .throws).live.Subperm s.live := by
    rw [hLive]
    exact (((List.sublist_append_right rest _).cons t).append_left _).subperm
  cases l with
  | throws => exact h.of_subperm hDrop rfl rfl rfl fun x rest hAt => by cases hAt
  | throwsAgain => exact h.of_subperm hDrop rfl rfl rfl fun x rest hAt => by cases hAt
  | found =>
      have hNodup := h.nodup
      rw [hLive] at hNodup
      have hRest : (s.removeTOnly t rest .found).live =
          s.handler.held ++ (rest ++ tasksOf s.nexts) := rfl
      have hSub : ∀ x ∈ (s.removeTOnly t rest .found).live, x ∈ s.live ∧ x ≠ t := by
        intro x hMem
        rw [hRest] at hMem
        rw [hLive]
        refine ⟨?_, ?_⟩
        · exact (((List.sublist_cons_self t _).append_left _)).subset hMem
        · rintro rfl
          exact (List.nodup_cons.1 (List.perm_middle.nodup_iff.1 hNodup)).1 hMem
      have hListed : ∀ k, (s.removeTOnly t rest .found).listed k =
          if k = t.key then (s.listed t.key).filter (· ≠ t) else s.listed k :=
        fun k => listed_update s.timers t.key k _
      refine ⟨?_, fun x hMem => h.live_lt x (hSub x hMem).1, h.erased_lt, ?_, ?_,
        fun x rest hAt => by cases hAt⟩
      · rw [hRest]
        exact hNodup.sublist ((List.sublist_cons_self t _).append_left _)
      · intro x hMem hNot
        obtain ⟨hOld, hNe⟩ := hSub x hMem
        have hOld := h.listed x hOld hNot
        rw [hListed]
        split
        · rename_i hKey
          rw [hKey] at hOld
          exact List.mem_filter.2 ⟨hOld, decide_eq_true hNe⟩
        · exact hOld
      · intro k x hMem
        rw [hListed] at hMem
        split at hMem
        · rename_i hKey
          rw [hKey]
          exact h.table t.key x (List.mem_filter.1 hMem).1
        · exact h.table k x hMem

/-! ## Every step -/

theorem inv_handle (h : Inv s) (hIdle : s.handler = .idle) {ev : Event} {l : Lookup}
    (hHandles : s.Handles l ev) : Inv (s.handle l ev) := by
  rcases State.handle_cases hHandles with hSame | ⟨t, hPtr, -, hAdd⟩ |
    ⟨e, t, -, hPtr, hFinds, hReplace⟩ | ⟨k, hFinds, hRemove⟩
  · rw [hSame]
    exact h
  · rw [hAdd]
    exact inv_add h hIdle hPtr l
  · rw [hReplace]
    exact inv_replace h hIdle hPtr hFinds
  · rw [hRemove]
    exact inv_remove h hFinds

/-- The handler's task goes into `mx_nexts`; the worker keeps what it has. -/
theorem perm_push (s : State) (now : Int) (xs : List Task) :
    ((s.push now).handler.held ++ (xs ++ tasksOf (s.push now).nexts)).Perm
      (s.handler.held ++ (xs ++ tasksOf s.nexts)) := by
  have hPush : ∀ t : Task, (xs ++ tasksOf (pushBack (now + t.period) t s.nexts)).Perm
      (t :: (xs ++ tasksOf s.nexts)) := fun t =>
    ((tasksOf_pushBack _ t s.nexts).append_left _).trans List.perm_middle
  rw [State.push]
  split
  · exact List.Perm.refl _
  · rename_i t hHandler
    rw [hHandler]
    exact hPush t
  · rename_i e t hHandler
    rw [hHandler]
    exact hPush t

theorem worker_push (s : State) (now : Int) : (s.push now).worker = s.worker := by
  rw [State.push]
  split <;> rfl

theorem erased_push (s : State) (now : Int) : (s.push now).erased = s.erased := by
  rw [State.push]
  split <;> rfl

theorem live_push (s : State) (now : Int) : (s.push now).live.Perm s.live := by
  rw [State.live, State.live, worker_push]
  exact perm_push s now s.worker.held

theorem inv_push (h : Inv s) (now : Int) : Inv (s.push now) := by
  refine h.of_subperm (live_push s now).subperm ?_ (erased_push s now) ?_ ?_
  · rw [State.push]; split <;> rfl
  · rw [State.push]; split <;> rfl
  · rw [worker_push, erased_push]
    exact h.dropping

/-- The worker moves on with what it has, or with less. -/
theorem Inv.worker (h : Inv s) {w : Worker} {log : List Entry}
    (hHeld : w.held.Sublist s.worker.held)
    (hDropping : ∀ t rest, w = .dropping t rest → t ∈ s.erased) :
    Inv { s with worker := w, log := log } :=
  h.of_subperm ((hHeld.append_right _).append_left _).subperm rfl rfl rfl hDropping

theorem inv_next (h : Inv s) (hInner : s.worker = .inner) (now : Int) : Inv (s.next now) := by
  rw [State.next]
  split
  · exact h.worker (List.nil_sublist _) fun t rest hAt => by cases hAt
  · rename_i time ts rest hNexts
    split
    · exact h.worker (List.nil_sublist _) fun t rest hAt => by cases hAt
    · refine h.of_subperm ?_ rfl rfl rfl fun t rest hAt => by cases hAt
      rw [State.live, State.live, hInner, hNexts]
      exact List.Subperm.refl _

theorem inv_test (h : Inv s) {rest : List Task} (hBatch : s.worker = .batch rest) :
    Inv (s.test rest) := by
  cases rest with
  | nil => exact h.worker (List.nil_sublist _) fun t rest hAt => by cases hAt
  | cons t rest =>
      refine h.worker ?_ ?_
      · rw [hBatch]
        split <;> exact List.Sublist.refl _
      · intro x rest' hAt
        split at hAt
        · rename_i hErased
          obtain ⟨rfl, -⟩ := Worker.dropping.inj hAt
          exact hErased
        · cases hAt

theorem inv_passEvent (h : Inv s) {t : Task} {rest : List Task}
    (hAt : s.worker = .delivering t rest) (throws : Bool) : Inv (s.passEvent t rest throws) := by
  cases throws with
  | true => exact h.worker (List.nil_sublist _) fun x rest hNow => by cases hNow
  | false =>
      refine h.worker ?_ fun x rest hNow => by cases hNow
      rw [hAt]
      exact List.Sublist.refl _

theorem inv_finish (h : Inv s) {t : Task} {rest : List Task} (hAt : s.worker = .delivered t rest)
    (l : Lookup) (now : Int) : Inv (s.finish t rest l now) := by
  have hHeld : s.worker.held = t :: rest := by rw [hAt]; rfl
  rw [State.finish]
  split
  · refine h.of_subperm ?_ rfl rfl rfl fun x rest hNow => by cases hNow
    rw [State.live, State.live, hHeld]
    have hPush := ((tasksOf_pushBack (now + t.period) t s.nexts).append_left rest).trans
      List.perm_middle
    exact (hPush.append_left _).subperm
  · exact inv_removeTOnly h hHeld l

theorem inv_apply (h : Inv s) {a : Action} (hEn : s.Enabled a) : Inv (s.apply a) := by
  cases a with
  | handle ev l => exact inv_handle h hEn.1 hEn.2
  | push now => exact inv_push h now
  | enter =>
      rw [State.apply]
      split
      · exact h.worker (List.nil_sublist _) fun t rest hAt => by cases hAt
      · exact h.worker (List.nil_sublist _) fun t rest hAt => by cases hAt
  | wake => exact h.worker (List.nil_sublist _) fun t rest hAt => by cases hAt
  | next now => exact inv_next h hEn now
  | test =>
      rw [State.apply]
      split
      · rename_i rest hAt
        exact inv_test h hAt
      · exact h
  | passEvent throws =>
      rw [State.apply]
      split
      · rename_i t rest hAt
        exact inv_passEvent h hAt throws
      · exact h
  | finish l now =>
      rw [State.apply]
      split
      · rename_i t rest hAt
        exact inv_finish h hAt l now
      · rename_i t rest hAt
        exact inv_removeTOnly h (by rw [hAt]; rfl) l
      · exact h

/-- **Every task is where it should be**, under every interleaving. -/
theorem inv_of_reachable (h : machine.Reachable s) : Inv s := by
  refine Machine.Reachable.invariant (I := Inv) ?_ (fun _ _ hInv hEn => inv_apply hInv hEn) h
  rintro _ rfl
  exact inv_start

end Megatron.Timer.Threads
