import Mathlib.Data.List.Count
import Megatron.Timer.Tasks

/-!
# A batch with deliveries that throw

The worker erases all tasks of one time from `mx_nexts` before it goes through
them, and catches what is thrown outside both of its loops.  So it gets through
the batch as far as the first task that throws: that one is not finished, and
those behind it are neither delivered nor due again nor taken out of the table.

## Main results

* `outcome_batch` — what a batch does, in terms of the tasks it gets to.
* `isolated_iff` — the deliveries are isolated exactly where none throws.
* `throws_first` — a batch in which the first of three throws.
-/

namespace Megatron.Timer.Threads

open Megatron.Corelib Megatron.Lib

section Batch

variable (throws : Task → Bool) (look : Task → Lookup) (now : Task → Int) (erased : List Task)

/-- The worker's steps for one task: which ticks cannot be passed on, how the
look-ups end and what the clock says is given. -/
def taskActions (t : Task) : List Action :=
  if t ∈ erased then [.test, .finish (look t) (now t)]
  else if throws t then [.test, .passEvent true]
  else [.test, .passEvent false,
    .finish (if t.key.type = .timer then .found else look t) (now t)]

/-- Nothing is thrown for the task. -/
def Goes (t : Task) : Prop :=
  if t ∈ erased then look t = .found
  else throws t = false ∧ (t.key.type = .timer ∨ look t = .found)

instance : DecidablePred (Goes throws look erased) := fun t =>
  inferInstanceAs (Decidable (if t ∈ erased then look t = .found
    else throws t = false ∧ (t.key.type = .timer ∨ look t = .found)))

/-- The tasks of the batch that the worker gets to. -/
def reached : List Task → List Task
  | [] => []
  | t :: rest => t :: if Goes throws look erased t then reached rest else []

/-- The worker's steps for the batch. -/
def batchActions (l : List Task) : List Action :=
  (reached throws look erased l).flatMap (taskActions throws look now erased)

/-- No non-erased task of the batch throws, and an erased one only where there
is none behind it. -/
def Fine : List Task → Prop
  | [] => True
  | t :: rest =>
      if t ∈ erased then
        if look t = .found then Fine rest else ∀ x ∈ rest, x ∈ erased
      else throws t = false ∧ (t.key.type = .timer ∨ look t = .found) ∧ Fine rest

/-- Every task whose delivery does not throw is delivered exactly once, every
timer is due again, and no alarm is left in the table. -/
structure Isolated (l : List Task) (s s' : State) : Prop where
  delivered : ∀ t ∈ l, t ∉ s.erased → throws t = false →
    s'.log.count (.delivered t) = s.log.count (.delivered t) + 1
  rearmed : ∀ t ∈ l, t ∉ s.erased → t.key.type = .timer → t ∈ tasksOf s'.nexts
  removed : ∀ t ∈ l, t.key.type = .alarm → t ∉ s'.listed t.key

/-- The tick of the task is passed on. -/
def Passes (t : Task) : Prop := t ∉ erased ∧ throws t = false

/-- The task is taken out of the table. -/
def Removes (t : Task) : Prop :=
  look t = .found ∧ (t ∈ erased ∨ Passes throws erased t ∧ t.key.type = .alarm)

instance : DecidablePred (Passes throws erased) := fun t =>
  inferInstanceAs (Decidable (t ∉ erased ∧ throws t = false))

/-- What becomes of the tasks, where the worker got to `r`. -/
structure Outcome (r : List Task) (s s' : State) : Prop where
  log : ∀ t, s'.log.count (.delivered t) =
    s.log.count (.delivered t) + (r.filter (Passes throws erased)).count t
  nexts : ∀ t, t ∈ tasksOf s'.nexts ↔
    t ∈ tasksOf s.nexts ∨ t ∈ r ∧ Passes throws erased t ∧ t.key.type = .timer
  listed : ∀ t, t ∈ s'.listed t.key ↔
    t ∈ s.listed t.key ∧ ¬ (t ∈ r ∧ Removes throws look erased t)

variable {throws look now erased}
variable {s s' s'' : State}

theorem outcome_nil (s : State) : Outcome throws look erased [] s s :=
  ⟨fun t => by simp, fun t => by simp, fun t => by simp⟩

theorem Outcome.append {r r' : List Task} (h : Outcome throws look erased r s s')
    (h' : Outcome throws look erased r' s' s'') : Outcome throws look erased (r ++ r') s s'' := by
  refine ⟨fun t => ?_, fun t => ?_, fun t => ?_⟩
  · rw [h'.log, h.log, List.filter_append, List.count_append, Nat.add_assoc]
  · rw [h'.nexts, h.nexts, List.mem_append]
    tauto
  · rw [h'.listed, h.listed, List.mem_append]
    tauto

theorem mem_listed_removeTOnly {t x : Task} :
    x ∈ ((Function.update s.timers t.key (some ((s.listed t.key).filter (· ≠ t)))) x.key).getD [] ↔
      x ∈ s.listed x.key ∧ x ≠ t := by
  rw [listed_update]
  split
  · rename_i hKey
    rw [hKey, Option.getD_some, List.mem_filter, decide_eq_true_eq]
  · rename_i hKey
    refine (and_iff_left ?_).symm
    rintro rfl
    exact hKey rfl

/-! ## One task -/

theorem count_delivered_tested (t x : Task) (log : List Entry) :
    (Entry.tested x :: log).count (.delivered t) = log.count (.delivered t) :=
  List.count_cons_of_ne (by simp)

theorem count_delivered_cons (t x : Task) (log : List Entry) :
    (Entry.delivered x :: log).count (.delivered t) =
      log.count (.delivered t) + [x].count t := by
  rw [List.count_cons, List.count_singleton]
  simp only [beq_iff_eq, Entry.delivered.injEq]

/-- A task whose tick is not passed on. -/
theorem outcome_of_not_passes {t : Task} (hNot : ¬ Passes throws erased t)
    (hLog : s'.log = .tested t :: s.log) (hNexts : s'.nexts = s.nexts)
    (hListed : ∀ x, x ∈ s'.listed x.key ↔
      x ∈ s.listed x.key ∧ ¬ (x ∈ [t] ∧ Removes throws look erased x)) :
    Outcome throws look erased [t] s s' := by
  refine ⟨fun x => ?_, fun x => ?_, hListed⟩
  · have hNone : [t].filter (Passes throws erased) = [] := by simp [hNot]
    rw [hNone, hLog, count_delivered_tested]
    rfl
  · rw [hNexts]
    refine (or_iff_left ?_).symm
    rintro ⟨hMem, hPass, -⟩
    exact hNot (List.mem_singleton.1 hMem ▸ hPass)

/-- The look-up of an operation that is not found ends the batch. -/
theorem removeTOnly_of_ne {t : Task} {rest : List Task} {l : Lookup} (h : l ≠ .found) :
    s.removeTOnly t rest l = { s with worker := .outer } := by
  cases l with
  | found => exact absurd rfl h
  | throws => rfl
  | throwsAgain => rfl

theorem test_of_erased {t : Task} {rest : List Task} (hAt : s.worker = .batch (t :: rest))
    (hSame : s.erased = erased) (hErased : t ∈ erased) :
    s.apply .test = { s with worker := .dropping t rest, log := .tested t :: s.log } := by
  rw [State.apply, hAt]
  dsimp only [State.test]
  rw [if_pos (by rw [hSame]; exact hErased)]

theorem test_of_not_erased {t : Task} {rest : List Task} (hAt : s.worker = .batch (t :: rest))
    (hSame : s.erased = erased) (hErased : t ∉ erased) :
    s.apply .test = { s with worker := .delivering t rest, log := .tested t :: s.log } := by
  rw [State.apply, hAt]
  dsimp only [State.test]
  rw [if_neg (by rw [hSame]; exact hErased)]

/-- An erased task. -/
theorem outcome_erased (throws : Task → Bool) (look : Task → Lookup) (now : Task → Int)
    {t : Task} {rest : List Task} (hAt : s.worker = .batch (t :: rest))
    (hSame : s.erased = erased) (hErased : t ∈ erased) :
    Outcome throws look erased [t] s (machine.exec s (taskActions throws look now erased t)) ∧
      (machine.exec s (taskActions throws look now erased t)).erased = erased ∧
      (look t = .found →
        (machine.exec s (taskActions throws look now erased t)).worker = .batch rest) := by
  have hNot : ¬ Passes throws erased t := fun h => h.1 hErased
  have hTest := test_of_erased hAt hSame hErased
  have hRun : machine.exec s (taskActions throws look now erased t) =
      { s with worker := .dropping t rest, log := .tested t :: s.log : State }.removeTOnly
        t rest (look t) := by
    rw [taskActions, if_pos hErased]
    change (s.apply .test).apply (.finish (look t) (now t)) = _
    rw [hTest]
    rfl
  rw [hRun]
  by_cases hFound : look t = .found
  · rw [hFound]
    refine ⟨outcome_of_not_passes hNot rfl rfl fun x => ?_, hSame, fun _ => rfl⟩
    refine mem_listed_removeTOnly.trans (and_congr_right fun _ => not_congr ?_)
    constructor
    · rintro rfl
      exact ⟨List.mem_singleton.2 rfl, hFound, Or.inl hErased⟩
    · exact fun h => List.mem_singleton.1 h.1
  · rw [removeTOnly_of_ne hFound]
    refine ⟨outcome_of_not_passes hNot rfl rfl fun x => ?_, hSame, fun h => absurd h hFound⟩
    refine (and_iff_left ?_).symm
    rintro ⟨hMem, hRemove⟩
    exact hFound (List.mem_singleton.1 hMem ▸ hRemove.1)

/-- A task whose tick cannot be passed on. -/
theorem outcome_throws (look : Task → Lookup) (now : Task → Int)
    {t : Task} {rest : List Task} (hAt : s.worker = .batch (t :: rest))
    (hSame : s.erased = erased) (hErased : t ∉ erased) (hThrows : throws t = true) :
    Outcome throws look erased [t] s (machine.exec s (taskActions throws look now erased t)) ∧
      (machine.exec s (taskActions throws look now erased t)).erased = erased := by
  have hNot : ¬ Passes throws erased t := by
    rintro ⟨-, hPass⟩
    rw [hThrows] at hPass
    cases hPass
  have hTest := test_of_not_erased hAt hSame hErased
  have hRun : machine.exec s (taskActions throws look now erased t) =
      { s with worker := .outer, log := .tested t :: s.log } := by
    rw [taskActions, if_neg hErased, if_pos hThrows]
    change (s.apply .test).apply (.passEvent true) = _
    rw [hTest]
    rfl
  rw [hRun]
  refine ⟨outcome_of_not_passes hNot rfl rfl fun x => ?_, hSame⟩
  refine (and_iff_left ?_).symm
  rintro ⟨hMem, -, hErased' | ⟨hPass, -⟩⟩
  · exact hErased (List.mem_singleton.1 hMem ▸ hErased')
  · exact hNot (List.mem_singleton.1 hMem ▸ hPass)

/-- A task whose tick is passed on. -/
theorem outcome_passes (look : Task → Lookup) (now : Task → Int)
    {t : Task} {rest : List Task} (hAt : s.worker = .batch (t :: rest))
    (hSame : s.erased = erased) (hPass : Passes throws erased t) :
    Outcome throws look erased [t] s (machine.exec s (taskActions throws look now erased t)) ∧
      (machine.exec s (taskActions throws look now erased t)).erased = erased ∧
      (t.key.type = .timer ∨ look t = .found →
        (machine.exec s (taskActions throws look now erased t)).worker = .batch rest) := by
  have hTest := test_of_not_erased hAt hSame hPass.1
  have hLog : ∀ x, (Entry.delivered t :: Entry.tested t :: s.log).count (.delivered x) =
      s.log.count (.delivered x) + ([t].filter (Passes throws erased)).count x := by
    intro x
    have hOne : [t].filter (Passes throws erased) = [t] := by simp [hPass]
    rw [count_delivered_cons, count_delivered_tested, hOne]
  let s₁ : State := { s with worker := .delivered t rest,
                             log := .delivered t :: .tested t :: s.log }
  have hRun : machine.exec s (taskActions throws look now erased t) =
      s₁.finish t rest (if t.key.type = .timer then .found else look t) (now t) := by
    rw [taskActions, if_neg hPass.1, if_neg (by rw [hPass.2]; exact Bool.false_ne_true)]
    change ((s.apply .test).apply (.passEvent false)).apply
      (.finish (if t.key.type = .timer then .found else look t) (now t)) = _
    rw [hTest]
    rfl
  rw [hRun]
  cases hType : t.key.type with
  | timer =>
      have hFinish : s₁.finish t rest (if TaskType.timer = .timer then .found else look t) (now t) =
          { s₁ with nexts := pushBack (now t + t.period) t s.nexts, worker := .batch rest } := by
        rw [State.finish, hType]
      rw [hFinish]
      refine ⟨⟨hLog, fun x => ?_, fun x => ?_⟩, hSame, fun _ => rfl⟩
      · rw [(tasksOf_pushBack _ t s.nexts).mem_iff, List.mem_cons, or_comm]
        refine or_congr_right ⟨?_, fun h => List.mem_singleton.1 h.1⟩
        rintro rfl
        exact ⟨List.mem_singleton.2 rfl, hPass, hType⟩
      · refine (and_iff_left ?_).symm
        rintro ⟨hMem, -, hErased | ⟨-, hAlarm⟩⟩
        · exact hPass.1 (List.mem_singleton.1 hMem ▸ hErased)
        · rw [List.mem_singleton.1 hMem, hType] at hAlarm
          cases hAlarm
  | alarm =>
      have hFinish : s₁.finish t rest (if TaskType.alarm = .timer then .found else look t) (now t) =
          s₁.removeTOnly t rest (look t) := by
        rw [State.finish, hType]
        rfl
      have hNexts : ∀ x, x ∈ tasksOf s.nexts ↔ x ∈ tasksOf s.nexts ∨
          x ∈ [t] ∧ Passes throws erased x ∧ x.key.type = .timer := by
        refine fun x => (or_iff_left ?_).symm
        rintro ⟨hMem, -, hTimer⟩
        rw [List.mem_singleton.1 hMem, hType] at hTimer
        cases hTimer
      rw [hFinish]
      by_cases hFound : look t = .found
      · rw [hFound]
        refine ⟨⟨hLog, hNexts, fun x => ?_⟩, hSame, fun _ => rfl⟩
        refine (mem_listed_removeTOnly (s := s)).trans (and_congr_right fun _ => not_congr ?_)
        constructor
        · rintro rfl
          exact ⟨List.mem_singleton.2 rfl, hFound, Or.inr ⟨hPass, hType⟩⟩
        · exact fun h => List.mem_singleton.1 h.1
      · rw [removeTOnly_of_ne hFound]
        refine ⟨⟨hLog, hNexts, fun x => ?_⟩, hSame, fun h => ?_⟩
        · refine (and_iff_left ?_).symm
          rintro ⟨hMem, hRemove⟩
          exact hFound (List.mem_singleton.1 hMem ▸ hRemove.1)
        · rcases h with hTimer | h
          · cases hTimer
          · exact absurd h hFound

/-- One task, whatever becomes of it. -/
theorem outcome_task (throws : Task → Bool) (look : Task → Lookup) (now : Task → Int)
    {t : Task} {rest : List Task} (hAt : s.worker = .batch (t :: rest))
    (hSame : s.erased = erased) :
    Outcome throws look erased [t] s (machine.exec s (taskActions throws look now erased t)) ∧
      (machine.exec s (taskActions throws look now erased t)).erased = erased ∧
      (Goes throws look erased t →
        (machine.exec s (taskActions throws look now erased t)).worker = .batch rest) := by
  by_cases hErased : t ∈ erased
  · obtain ⟨hOutcome, hSame', hNext⟩ := outcome_erased throws look now hAt hSame hErased
    refine ⟨hOutcome, hSame', fun hGoes => hNext ?_⟩
    rw [Goes, if_pos hErased] at hGoes
    exact hGoes
  cases hThrows : throws t with
  | true =>
      obtain ⟨hOutcome, hSame'⟩ := outcome_throws look now hAt hSame hErased hThrows
      refine ⟨hOutcome, hSame', fun hGoes => ?_⟩
      rw [Goes, if_neg hErased, hThrows] at hGoes
      cases hGoes.1
  | false =>
      obtain ⟨hOutcome, hSame', hNext⟩ := outcome_passes look now hAt hSame
        ⟨hErased, hThrows⟩
      refine ⟨hOutcome, hSame', fun hGoes => hNext ?_⟩
      rw [Goes, if_neg hErased] at hGoes
      exact hGoes.2

/-! ## The batch -/

/-- **A batch.** Its outcome is that of the tasks the worker gets to. -/
theorem outcome_batch (throws : Task → Bool) (look : Task → Lookup) (now : Task → Int) :
    ∀ (l : List Task) (s : State), s.worker = .batch l → s.erased = erased →
      Outcome throws look erased (reached throws look erased l) s
        (machine.exec s (batchActions throws look now erased l)) := by
  intro l
  induction l with
  | nil => exact fun s _ _ => outcome_nil s
  | cons t rest ih =>
      intro s hAt hSame
      obtain ⟨hOutcome, hSame', hNext⟩ := outcome_task throws look now hAt hSame
      rw [batchActions, reached, List.flatMap_cons, Machine.exec_append]
      split
      · rename_i hGoes
        exact hOutcome.append (ih _ (hNext hGoes) hSame')
      · exact hOutcome

theorem reached_sublist (l : List Task) : (reached throws look erased l).Sublist l := by
  induction l with
  | nil => exact List.Sublist.refl _
  | cons t rest ih =>
      rw [reached]
      refine List.Sublist.cons_cons t ?_
      split
      · exact ih
      · exact List.nil_sublist _

/-- The worker gets to every task that is not erased, and none of them throws. -/
theorem fine_iff {l : List Task} (hNodup : l.Nodup) :
    Fine throws look erased l ↔ ∀ t ∈ l, t ∉ erased →
      t ∈ reached throws look erased l ∧ throws t = false ∧
        (t.key.type = .timer ∨ look t = .found) := by
  induction l with
  | nil => exact ⟨fun _ t hMem => absurd hMem List.not_mem_nil, fun _ => trivial⟩
  | cons t rest ih =>
      obtain ⟨hNew, hRestNodup⟩ := List.nodup_cons.1 hNodup
      replace ih := ih hRestNodup
      rw [Fine, reached]
      by_cases hErased : t ∈ erased
      · rw [if_pos hErased]
        by_cases hFound : look t = .found
        · have hGoes : Goes throws look erased t := by rw [Goes, if_pos hErased]; exact hFound
          rw [if_pos hFound, if_pos hGoes, ih]
          constructor
          · intro h x hMem hNot
            rcases List.mem_cons.1 hMem with rfl | hRest
            · exact absurd hErased hNot
            · obtain ⟨hReached, hOk⟩ := h x hRest hNot
              exact ⟨List.mem_cons_of_mem _ hReached, hOk⟩
          · intro h x hRest hNot
            obtain ⟨hReached, hOk⟩ := h x (List.mem_cons_of_mem _ hRest) hNot
            refine ⟨(List.mem_cons.1 hReached).resolve_left ?_, hOk⟩
            rintro rfl
            exact hNot hErased
        · have hStops : ¬ Goes throws look erased t := by rw [Goes, if_pos hErased]; exact hFound
          rw [if_neg hFound, if_neg hStops]
          constructor
          · intro h x hMem hNot
            rcases List.mem_cons.1 hMem with rfl | hRest
            · exact absurd hErased hNot
            · exact absurd (h x hRest) hNot
          · intro h x hRest
            by_contra hNot
            obtain ⟨hReached, -⟩ := h x (List.mem_cons_of_mem _ hRest) hNot
            obtain rfl := List.mem_singleton.1 hReached
            exact hNot hErased
      · rw [if_neg hErased]
        constructor
        · rintro ⟨hPass, hClose, hRest⟩ x hMem hNot
          have hGoes : Goes throws look erased t := by
            rw [Goes, if_neg hErased]
            exact ⟨hPass, hClose⟩
          rw [if_pos hGoes]
          rcases List.mem_cons.1 hMem with rfl | hTail
          · exact ⟨List.mem_cons_self, hPass, hClose⟩
          · obtain ⟨hReached, hOk⟩ := (ih.1 hRest) x hTail hNot
            exact ⟨List.mem_cons_of_mem _ hReached, hOk⟩
        · intro h
          obtain ⟨-, hPass, hClose⟩ := h t List.mem_cons_self hErased
          have hGoes : Goes throws look erased t := by
            rw [Goes, if_neg hErased]
            exact ⟨hPass, hClose⟩
          rw [if_pos hGoes] at h
          refine ⟨hPass, hClose, ih.2 fun x hRest hNot => ?_⟩
          obtain ⟨hReached, hOk⟩ := h x (List.mem_cons_of_mem _ hRest) hNot
          refine ⟨(List.mem_cons.1 hReached).resolve_left ?_, hOk⟩
          rintro rfl
          exact hNew hRest

/-- What is said of one task is a run, where its look-up finds the key. -/
theorem path_task (throws : Task → Bool) (now : Task → Int)
    {t : Task} {rest : List Task} (hAt : s.worker = .batch (t :: rest))
    (hSame : s.erased = erased) (hFound : look t = .found) (hPack : Packable t.key.destination) :
    machine.Path s (taskActions throws look now erased t) := by
  have hEnTest : machine.enabled s .test := by
    change State.AtTest s.worker
    rw [hAt]
    trivial
  by_cases hErased : t ∈ erased
  · have hTest := test_of_erased hAt hSame hErased
    rw [taskActions, if_pos hErased, hFound]
    refine ⟨hEnTest, ?_, trivial⟩
    change (s.apply .test).Enabled (.finish .found (now t))
    rw [hTest]
    exact Or.inr hPack
  have hTest := test_of_not_erased hAt hSame hErased
  have hEnPass : ∀ throws, machine.enabled (machine.apply s .test) (.passEvent throws) := by
    intro throws
    change (s.apply .test).Enabled (.passEvent throws)
    rw [hTest]
    trivial
  rw [taskActions, if_neg hErased]
  split
  · exact ⟨hEnTest, hEnPass true, trivial⟩
  · refine ⟨hEnTest, hEnPass false, ?_, trivial⟩
    change ((s.apply .test).apply (.passEvent false)).Enabled
      (.finish (if t.key.type = .timer then .found else look t) (now t))
    rw [hTest]
    change if t.key.type = .timer then _ else _
    split
    · rfl
    · rw [hFound]
      exact Or.inr hPack

/-- What is said of a batch is a run, whatever deliveries throw. -/
theorem path_batch : ∀ (l : List Task) (s : State), s.worker = .batch l → s.erased = erased →
    (∀ t ∈ l, look t = .found ∧ Packable t.key.destination) →
      machine.Path s (batchActions throws look now erased l) := by
  intro l
  induction l with
  | nil => exact fun s _ _ _ => trivial
  | cons t rest ih =>
      intro s hAt hSame hLook
      obtain ⟨hFound, hPack⟩ := hLook t List.mem_cons_self
      have hPath := path_task throws now hAt hSame hFound hPack
      obtain ⟨-, hSame', hNext⟩ := outcome_task throws look now hAt hSame
      rw [batchActions, reached, List.flatMap_cons, Machine.path_append]
      refine ⟨hPath, ?_⟩
      split
      · rename_i hGoes
        exact ih _ (hNext hGoes) hSame' fun x hx => hLook x (List.mem_cons_of_mem _ hx)
      · trivial

/--
**Isolation.** In a batch that the worker has just taken, under any interleaving
before, the deliveries are isolated if and only if no task that is not erased
throws, and an erased one only where all behind it are erased.
-/
theorem isolated_iff {l : List Task} (hReach : machine.Reachable s)
    (hAt : s.worker = .batch l) :
    Isolated throws l s (machine.exec s (batchActions throws look now s.erased l)) ↔
      Fine throws look s.erased l := by
  have hInv := inv_of_reachable hReach
  have hOutcome := outcome_batch throws look now l s hAt rfl
  have hLive : s.live = s.handler.held ++ (l ++ tasksOf s.nexts) := by rw [State.live, hAt]; rfl
  have hNodup := hInv.nodup
  rw [hLive] at hNodup
  have hApart := List.nodup_append.1 (List.nodup_append.1 hNodup).2.1
  have hListed : ∀ t ∈ l, t ∉ s.erased → t ∈ s.listed t.key := fun t hMem hNot =>
    hInv.listed t (by rw [hLive]; simp [hMem]) hNot
  rw [fine_iff hApart.1]
  constructor
  · intro h t hMem hNot
    cases hType : t.key.type with
    | timer =>
        have hRearmed := (hOutcome.nexts t).1 (h.rearmed t hMem hNot hType)
        rcases hRearmed with hOld | ⟨hReached, hPass, -⟩
        · exact absurd rfl (hApart.2.2 t hMem t hOld)
        · exact ⟨hReached, hPass.2, Or.inl rfl⟩
    | alarm =>
        have hRemoved := h.removed t hMem hType
        rw [hOutcome.listed, not_and, not_not] at hRemoved
        obtain ⟨hReached, hFound, hErased | ⟨hPass, -⟩⟩ := hRemoved (hListed t hMem hNot)
        · exact absurd hErased hNot
        · exact ⟨hReached, hPass.2, Or.inr hFound⟩
  · intro h
    refine ⟨?_, ?_, ?_⟩
    · intro t hMem hNot hPass
      have hReached := (h t hMem hNot).1
      rw [hOutcome.log]
      have hNow : t ∈ (reached throws look s.erased l).filter (Passes throws s.erased) :=
        List.mem_filter.2 ⟨hReached, decide_eq_true ⟨hNot, hPass⟩⟩
      rw [List.count_eq_one_of_mem ((hApart.1.sublist (reached_sublist l)).filter _) hNow]
    · intro t hMem hNot hType
      obtain ⟨hReached, hPass, -⟩ := h t hMem hNot
      exact (hOutcome.nexts t).2 (Or.inr ⟨hReached, ⟨hNot, hPass⟩, hType⟩)
    · intro t hMem hType hListedAfter
      obtain ⟨hListedBefore, hKept⟩ := (hOutcome.listed t).1 hListedAfter
      have hNot := (hInv.table t.key t hListedBefore).2.1
      obtain ⟨hReached, hPass, hClose⟩ := h t hMem hNot
      rcases hClose with hTimer | hFound
      · rw [hType] at hTimer
        cases hTimer
      · exact hKept ⟨hReached, hFound, Or.inr ⟨⟨hNot, hPass⟩, hType⟩⟩

end Batch

/-- Events of one service, apart by their number. -/
def numbered (tid : Int32) : Setting := ⟨tid, [], [], 10, [.localService [1], .localService [2]]⟩

/-- The task of such an event. -/
def numberedTask (ptr : Nat) (tid : Int32) (type : TaskType) : Task :=
  (numbered tid).task ptr type [.localService [2]]

/-- A stopped alarm, a timer and an alarm, due at one time, are taken. -/
def takes : List Action :=
  [.handle (.setAlarm (numbered 1)) .found, .push 0,
   .handle (.setTimer (numbered 2)) .found, .push 0,
   .handle (.setAlarm (numbered 3)) .found, .push 0,
   .handle (.stopAlarm 1 [] [.localService [1], .localService [2]]) .found,
   .enter, .next 10]

/-- The batch of `takes`. -/
def taken : List Task :=
  [numberedTask 0 1 .alarm, numberedTask 1 2 .timer, numberedTask 2 3 .alarm]

theorem reachable_takes : machine.Reachable (machine.exec .start takes) :=
  ⟨.start, takes, rfl, by decide +kernel, rfl⟩

theorem worker_takes : (machine.exec .start takes).worker = .batch taken := by decide +kernel

/-- Nothing throws. -/
theorem takes_isolated :
    Isolated (fun _ => false) taken (machine.exec .start takes)
      (machine.exec (machine.exec .start takes) (batchActions (fun _ => false) (fun _ => .found)
        (fun _ => 10) (machine.exec .start takes).erased taken)) :=
  (isolated_iff reachable_takes worker_takes).2
    ⟨rfl, Or.inl rfl, rfl, Or.inr rfl, trivial⟩

/-- The timer's tick cannot be passed on: the timer is not due again, and the
alarm behind it is not delivered and stays in the table. -/
theorem throws_first :
    machine.Path (machine.exec .start takes) (batchActions (fun t => t.ptr = 1) (fun _ => .found)
        (fun _ => 10) (machine.exec .start takes).erased taken) ∧
      ¬ Isolated (fun t => t.ptr = 1) taken (machine.exec .start takes)
        (machine.exec (machine.exec .start takes) (batchActions (fun t => t.ptr = 1)
          (fun _ => .found) (fun _ => 10) (machine.exec .start takes).erased taken)) := by
  refine ⟨path_batch taken _ worker_takes rfl (by decide), fun h => ?_⟩
  have hCount := h.delivered (numberedTask 2 3 .alarm) (by decide) (by decide +kernel) rfl
  exact absurd hCount (by decide +kernel)

end Megatron.Timer.Threads
