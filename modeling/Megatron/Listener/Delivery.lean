import Megatron.Listener.Buffered

/-!
# The buffered listener before `deinit`

What has been put into a deque is what its worker has handled, what it has in
hand and what is left in the deque, in this order.  `Inv` keeps the books, and
that a worker is in the container unless it is in a handler: this is what
`st_busy` relies on.

## Main results

* `inv_of_reachable` — the books, in every state before `deinit`.
* `ahead_of_own`, `ahead_of_other` — each step of a worker brings what is in its deque
  closer to its handler, and nothing takes it away from there.
* `delivery` — the bound on the threads, exactly-once delivery in order, no
  event behind a blocked worker, and every event handled.
-/

namespace Megatron.ListenerBuffered

open Megatron.Lib

/-- Out of the container. -/
def Phase.away : Phase → Bool
  | .busy _ => true
  | .ending => true
  | _ => false

/-- The event a worker has in hand. -/
def Phase.inHand : Phase → List Ev
  | .got e => [e]
  | .busy e => [e]
  | _ => []

/-- What a worker has not handled yet. -/
def Worker.outstanding (w : Worker) : List Ev := w.phase.inHand ++ w.container.filterMap id

/-- The events of one deque, out of a history. -/
def forPt (l : List (Ev × Pt)) (pt : Pt) : List Ev :=
  l.filterMap fun a => if a.2 = pt then some a.1 else none

/-- Behind `push_back`. -/
def Call.put : Call → Bool
  | .pushed _ => true
  | .returned => true
  | _ => false

/-- The thread a call has chosen. -/
def Call.target : Call → Option Pt
  | .chosen pt => some pt
  | .pushed pt => some pt
  | _ => none

/-- `deinit` has not been called. -/
def Before (_ : State) (a : Action) : Prop := a ≠ .deinit

instance (s : State) (a : Action) : Decidable (Before s a) :=
  inferInstanceAs (Decidable (_ ≠ _))

/-- A worker of a listener that is not being shut down. -/
structure Worker.Running (w : Worker) : Prop where
  phase_ne : w.phase ≠ .returned
  terminating : w.terminating = false
  events : none ∉ w.container

/-- The books. -/
structure Inv (maxThreads : Nat) (s : State) : Prop where
  alive : s.aborted = false
  terminating : s.terminating = false
  length_le : s.mVector.length ≤ maxThreads
  nodup : s.mVector.Nodup
  born : ∀ pt, pt ∈ s.mVector → (s.worker pt).phase ≠ .unborn
  unborn : ∀ pt, pt ∉ s.mVector → s.worker pt = .unborn
  container : ∀ pt, pt ∈ s.mContainer ↔ pt ∈ s.mVector ∧ (s.worker pt).phase.away = false
  running : ∀ pt, (s.worker pt).Running
  target : ∀ e pt, (s.call e).target = some pt → pt ∈ s.mVector
  put_nodup : (s.put.map Prod.fst).Nodup
  put_iff : ∀ e, e ∈ s.put.map Prod.fst ↔ (s.call e).put = true
  ledger : ∀ pt, forPt s.put pt = forPt s.handled pt ++ (s.worker pt).outstanding
  awake : ∀ pt, (s.worker pt).phase = .waiting → (s.worker pt).container ≠ [] →
    ∃ e, s.call e = .pushed pt

variable {maxThreads : Nat} {s : State} {pt : Pt} {e : Ev}

theorem forPt_append (l : List (Ev × Pt)) (e : Ev) (pt pt' : Pt) :
    forPt (l ++ [(e, pt)]) pt' = forPt l pt' ++ if pt = pt' then [e] else [] := by
  by_cases h : pt = pt' <;> simp [forPt, h]

theorem nodup_append_singleton {α : Type} {l : List α} {a : α} (h : l.Nodup) (ha : a ∉ l) :
    (l ++ [a]).Nodup := by
  refine List.nodup_append.2 ⟨h, List.pairwise_singleton _ a, ?_⟩
  rintro b hOld c hMem rfl
  rw [List.mem_singleton] at hMem
  exact ha (hMem ▸ hOld)

theorem inv_start (maxThreads : Nat) : Inv maxThreads .start where
  alive := rfl
  terminating := rfl
  length_le := Nat.zero_le _
  nodup := List.nodup_nil
  born _ h := absurd h List.not_mem_nil
  unborn _ _ := rfl
  container _ := iff_of_false List.not_mem_nil (fun h => List.not_mem_nil h.1)
  running _ := ⟨Phase.noConfusion, rfl, List.not_mem_nil⟩
  target _ _ h := by cases h
  put_nodup := List.nodup_nil
  put_iff _ := iff_of_false List.not_mem_nil (fun h => by cases h)
  ledger _ := rfl
  awake _ h := by cases h

/-! ## Calls -/

/-- A call that has not pushed goes on without pushing. -/
theorem Inv.setCall (h : Inv maxThreads s) {c : Call} (hOld : (s.call e).put = false)
    (hNew : c.put = false) (hTarget : ∀ pt, c.target = some pt → pt ∈ s.mVector) :
    Inv maxThreads (s.setCall e c) where
  alive := h.alive
  terminating := h.terminating
  length_le := h.length_le
  nodup := h.nodup
  born := h.born
  unborn := h.unborn
  container := h.container
  running := h.running
  target e' pt hChosen := by
    by_cases he : e' = e
    · subst he
      rw [call_setCall] at hChosen
      exact hTarget pt hChosen
    · rw [call_setCall_of_ne s he] at hChosen
      exact h.target e' pt hChosen
  put_nodup := h.put_nodup
  put_iff e' := by
    by_cases he : e' = e
    · subst he
      rw [call_setCall, hNew, ← hOld]
      exact h.put_iff e'
    · rw [call_setCall_of_ne s he]
      exact h.put_iff e'
  ledger := h.ledger
  awake pt hWaits hSome := by
    obtain ⟨e', hPushed⟩ := h.awake pt hWaits hSome
    have he : e' ≠ e := by
      rintro rfl
      rw [hPushed] at hOld
      cases hOld
    exact ⟨e', by rw [call_setCall_of_ne s he, hPushed]⟩

theorem inv_choose (h : Inv maxThreads s) (hEn : s.call e = .entered) :
    Inv maxThreads (s.choose e) := by
  have hOld : (s.call e).put = false := by rw [hEn]; rfl
  rw [State.choose]
  split
  · rename_i pt hFirst
    refine h.setCall hOld rfl fun pt' hTarget => ?_
    obtain rfl : pt = pt' := Option.some.inj hTarget
    exact ((h.container pt).1 (OrdSet.mem_of_first? hFirst)).1
  · exact h.setCall hOld rfl (fun pt hTarget => by cases hTarget)

theorem inv_pick (hMax : 1 ≤ maxThreads) (h : Inv maxThreads s) (hEn : s.call e = .missed)
    (hFull : maxThreads ≤ s.mVector.length) (r : Nat) : Inv maxThreads (s.pick e r) := by
  have hOld : (s.call e).put = false := by rw [hEn]; rfl
  have hLt : r % s.mVector.length < s.mVector.length := Nat.mod_lt _ (by omega)
  rw [State.pick, List.getElem?_eq_getElem hLt]
  refine h.setCall hOld rfl fun pt hTarget => ?_
  obtain rfl := Option.some.inj hTarget
  exact List.getElem_mem hLt

theorem inv_create (h : Inv maxThreads s) (hEn : s.call e = .missed)
    (hRoom : s.mVector.length < maxThreads) (hNew : pt ∉ s.mVector) :
    Inv maxThreads (s.create e pt) := by
  have hUnborn := h.unborn pt hNew
  have hWorker : ∀ pt', (s.create e pt).worker pt' =
      if pt' = pt then ⟨.polling, [], false⟩ else s.worker pt' := fun pt' => by
    by_cases hpt : pt' = pt
    · subst hpt
      rw [if_pos rfl]
      exact worker_setWorker s pt' _
    · rw [if_neg hpt]
      exact worker_setWorker_of_ne s hpt _
  have hCall : ∀ e', (s.create e pt).call e' = if e' = e then .chosen pt else s.call e' :=
    fun e' => Function.update_apply ..
  have hVector : ∀ pt', pt' ∈ (s.create e pt).mVector ↔ pt' ∈ s.mVector ∨ pt' = pt := fun pt' =>
    List.mem_append.trans (or_congr_right List.mem_singleton)
  constructor
  case alive => exact h.alive
  case terminating => exact h.terminating
  case length_le =>
    rw [State.create, List.length_append]
    exact hRoom
  case nodup => exact nodup_append_singleton h.nodup hNew
  case born =>
    intro pt' hMem
    rw [hWorker]
    split
    · exact Phase.noConfusion
    · rename_i hpt
      exact h.born pt' (((hVector pt').1 hMem).resolve_right hpt)
  case unborn =>
    intro pt' hMem
    rw [hVector, not_or] at hMem
    rw [hWorker, if_neg hMem.2]
    exact h.unborn pt' hMem.1
  case container =>
    intro pt'
    rw [hVector, hWorker]
    refine OrdSet.mem_insert.trans ?_
    by_cases hpt : pt' = pt
    · rw [if_pos hpt]
      exact iff_of_true (Or.inl hpt) ⟨Or.inr hpt, rfl⟩
    · rw [if_neg hpt, h.container pt']
      simp only [hpt, false_or, or_false]
  case running =>
    intro pt'
    rw [hWorker]
    split
    · exact ⟨Phase.noConfusion, rfl, List.not_mem_nil⟩
    · exact h.running pt'
  case target =>
    intro e' pt' hTarget
    rw [hCall] at hTarget
    rw [hVector]
    split at hTarget
    · exact Or.inr (Option.some.inj hTarget).symm
    · exact Or.inl (h.target e' pt' hTarget)
  case put_nodup => exact h.put_nodup
  case put_iff =>
    intro e'
    rw [hCall]
    refine (h.put_iff e').trans ?_
    split
    · rename_i he
      rw [he, hEn]
      rfl
    · exact Iff.rfl
  case ledger =>
    intro pt'
    rw [hWorker]
    refine (h.ledger pt').trans ?_
    split
    · rename_i hpt
      rw [hpt, hUnborn]
      rfl
    · rfl
  case awake =>
    intro pt' hWaits hSome
    rw [hWorker] at hWaits hSome
    split at hWaits
    · cases hWaits
    · rename_i hpt
      rw [if_neg hpt] at hSome
      obtain ⟨e', hPushed⟩ := h.awake pt' hWaits hSome
      refine ⟨e', ?_⟩
      rw [hCall, if_neg, hPushed]
      rintro rfl
      rw [hEn] at hPushed
      cases hPushed

theorem inv_push (h : Inv maxThreads s) (hEn : s.call e = .chosen pt) :
    Inv maxThreads (s.push e) := by
  have hBorn : pt ∈ s.mVector := h.target e pt (by rw [hEn]; rfl)
  have hFresh : e ∉ s.put.map Prod.fst := by
    rw [h.put_iff, hEn]
    exact Bool.false_ne_true
  have hPush : s.push e =
      { (s.setWorker pt { s.worker pt with
          container := (s.worker pt).container ++ [some e] }).setCall e (.pushed pt) with
        put := s.put ++ [(e, pt)] } := by
    rw [State.push, hEn]
  have hWorker : ∀ pt', (s.push e).worker pt' =
      if pt' = pt then { s.worker pt with container := (s.worker pt).container ++ [some e] }
      else s.worker pt' := fun pt' => by
    rw [hPush]
    exact Function.update_apply ..
  have hPhase : ∀ pt', ((s.push e).worker pt').phase = (s.worker pt').phase := by
    intro pt'
    rw [hWorker]
    split
    · rename_i hpt
      rw [hpt]
    · rfl
  have hCall : ∀ e', (s.push e).call e' = if e' = e then .pushed pt else s.call e' := fun e' => by
    rw [hPush]
    exact Function.update_apply ..
  have hFrame : (s.push e).mContainer = s.mContainer ∧ (s.push e).mVector = s.mVector ∧
      (s.push e).handled = s.handled ∧ (s.push e).put = s.put ++ [(e, pt)] ∧
      (s.push e).aborted = s.aborted ∧ (s.push e).terminating = s.terminating := by
    rw [hPush]
    exact ⟨rfl, rfl, rfl, rfl, rfl, rfl⟩
  obtain ⟨hContainer, hVector, hHandled, hPut, hAborted, hTerm⟩ := hFrame
  constructor
  case alive => rw [hAborted, h.alive]
  case terminating => rw [hTerm, h.terminating]
  case length_le => rw [hVector]; exact h.length_le
  case nodup => rw [hVector]; exact h.nodup
  case born =>
    intro pt' hMem
    rw [hVector] at hMem
    rw [hPhase]
    exact h.born pt' hMem
  case unborn =>
    intro pt' hMem
    rw [hVector] at hMem
    rw [hWorker, if_neg]
    · exact h.unborn pt' hMem
    · rintro rfl
      exact hMem hBorn
  case container =>
    intro pt'
    rw [hContainer, hVector, hPhase]
    exact h.container pt'
  case running =>
    intro pt'
    rw [hWorker]
    split
    · have hRun := h.running pt
      refine ⟨hRun.phase_ne, hRun.terminating, fun hMem => ?_⟩
      rcases List.mem_append.1 hMem with hMem | hMem
      · exact hRun.events hMem
      · cases List.mem_singleton.1 hMem
    · exact h.running pt'
  case target =>
    intro e' pt' hTarget
    rw [hCall] at hTarget
    rw [hVector]
    split at hTarget
    · obtain rfl := Option.some.inj hTarget
      exact hBorn
    · exact h.target e' pt' hTarget
  case put_nodup =>
    rw [hPut, List.map_append]
    exact nodup_append_singleton h.put_nodup hFresh
  case put_iff =>
    intro e'
    rw [hPut, List.map_append, List.mem_append, hCall, h.put_iff]
    by_cases he : e' = e
    · rw [if_pos he]
      exact iff_of_true (Or.inr (List.mem_singleton.2 he)) rfl
    · rw [if_neg he]
      exact or_iff_left fun hMem => he (List.mem_singleton.1 hMem)
  case ledger =>
    intro pt'
    rw [hPut, forPt_append, hHandled, hWorker, h.ledger pt']
    by_cases hpt : pt' = pt
    · subst hpt
      rw [if_pos rfl, if_pos rfl, Worker.outstanding, Worker.outstanding, List.filterMap_append]
      simp only [List.append_assoc]
      rfl
    · rw [if_neg (Ne.symm hpt), if_neg hpt, List.append_nil]
  case awake =>
    intro pt' hWaits hSome
    by_cases hpt : pt' = pt
    · exact ⟨e, by rw [hCall, if_pos rfl, hpt]⟩
    · rw [hWorker, if_neg hpt] at hWaits hSome
      obtain ⟨e', hPushed⟩ := h.awake pt' hWaits hSome
      refine ⟨e', ?_⟩
      rw [hCall, if_neg, hPushed]
      rintro rfl
      rw [hEn] at hPushed
      cases hPushed

/-! ## Workers -/

/-- A worker that goes on: the container knows whether it is away, and what it
has handled now is what it has not in hand any more. -/
theorem Inv.ofWorker (h : Inv maxThreads s) (hBorn : pt ∈ s.mVector) {w : Worker}
    {C : OrdSet Pt} {H : List (Ev × Pt)} (hPhase : w.phase ≠ .unborn) (hRun : w.Running)
    (hOther : ∀ pt', pt' ≠ pt → (pt' ∈ C ↔ pt' ∈ s.mContainer) ∧ forPt H pt' = forPt s.handled pt')
    (hContainer : pt ∈ C ↔ w.phase.away = false)
    (hLedger : forPt s.handled pt ++ (s.worker pt).outstanding = forPt H pt ++ w.outstanding)
    (hAwake : w.phase = .waiting → w.container ≠ [] → ∃ e, s.call e = .pushed pt) :
    Inv maxThreads { s.setWorker pt w with mContainer := C, handled := H } := by
  have hWorker : ∀ pt', (s.setWorker pt w).worker pt' =
      if pt' = pt then w else s.worker pt' := fun pt' => Function.update_apply ..
  constructor
  case alive => exact h.alive
  case terminating => exact h.terminating
  case length_le => exact h.length_le
  case nodup => exact h.nodup
  case born =>
    intro pt' hMem
    show ((s.setWorker pt w).worker pt').phase ≠ .unborn
    rw [hWorker]
    split
    · exact hPhase
    · exact h.born pt' hMem
  case unborn =>
    intro pt' hMem
    show (s.setWorker pt w).worker pt' = .unborn
    rw [hWorker, if_neg]
    · exact h.unborn pt' hMem
    · rintro rfl
      exact hMem hBorn
  case container =>
    intro pt'
    show pt' ∈ C ↔ pt' ∈ s.mVector ∧ ((s.setWorker pt w).worker pt').phase.away = false
    rw [hWorker]
    by_cases hpt : pt' = pt
    · rw [if_pos hpt, hpt, hContainer]
      exact (and_iff_right hBorn).symm
    · rw [if_neg hpt, (hOther pt' hpt).1]
      exact h.container pt'
  case running =>
    intro pt'
    show ((s.setWorker pt w).worker pt').Running
    rw [hWorker]
    split
    · exact hRun
    · exact h.running pt'
  case target => exact h.target
  case put_nodup => exact h.put_nodup
  case put_iff => exact h.put_iff
  case ledger =>
    intro pt'
    show forPt s.put pt' = forPt H pt' ++ ((s.setWorker pt w).worker pt').outstanding
    rw [hWorker, h.ledger pt']
    by_cases hpt : pt' = pt
    · rw [if_pos hpt, hpt, hLedger]
    · rw [if_neg hpt, (hOther pt' hpt).2]
  case awake =>
    intro pt' hWaits hSome
    change ((s.setWorker pt w).worker pt').phase = .waiting at hWaits
    change ((s.setWorker pt w).worker pt').container ≠ [] at hSome
    rw [hWorker] at hWaits hSome
    by_cases hpt : pt' = pt
    · rw [if_pos hpt] at hWaits hSome
      rw [hpt]
      exact hAwake hWaits hSome
    · rw [if_neg hpt] at hWaits hSome
      exact h.awake pt' hWaits hSome

/-- The invariant over a step of a worker that changes neither its container nor the
history. -/
theorem Inv.setWorker (h : Inv maxThreads s) (hBorn : pt ∈ s.mVector) {w : Worker}
    (hPhase : w.phase ≠ .unborn) (hRun : w.Running)
    (hAway : w.phase.away = (s.worker pt).phase.away)
    (hLedger : (s.worker pt).outstanding = w.outstanding)
    (hAwake : w.phase = .waiting → w.container ≠ [] → ∃ e, s.call e = .pushed pt) :
    Inv maxThreads (s.setWorker pt w) := by
  refine h.ofWorker hBorn (C := s.mContainer) (H := s.handled) hPhase hRun
    (fun _ _ => ⟨Iff.rfl, rfl⟩) ?_ (by rw [hLedger]) hAwake
  rw [h.container, hAway]
  exact and_iff_right hBorn

/-- Whoever is somewhere is one of the threads. -/
theorem Inv.mem_of_phase (h : Inv maxThreads s) (hPhase : (s.worker pt).phase ≠ .unborn) :
    pt ∈ s.mVector := by
  by_contra hNew
  rw [h.unborn pt hNew] at hPhase
  exact hPhase rfl

/-- A signal that has been given. -/
theorem Inv.setReturned (h : Inv maxThreads s) (hEn : s.call e = .pushed pt)
    (hAwake : (s.worker pt).phase ≠ .waiting) : Inv maxThreads (s.setCall e .returned) := by
  have hCall : ∀ e', (s.setCall e .returned).call e' = if e' = e then .returned else s.call e' :=
    fun e' => Function.update_apply ..
  constructor
  case alive => exact h.alive
  case terminating => exact h.terminating
  case length_le => exact h.length_le
  case nodup => exact h.nodup
  case born => exact h.born
  case unborn => exact h.unborn
  case container => exact h.container
  case running => exact h.running
  case target =>
    intro e' pt' hTarget
    rw [hCall] at hTarget
    split at hTarget
    · cases hTarget
    · exact h.target e' pt' hTarget
  case put_nodup => exact h.put_nodup
  case put_iff =>
    intro e'
    rw [hCall]
    refine (h.put_iff e').trans ?_
    split
    · rename_i he
      rw [he, hEn]
      rfl
    · exact Iff.rfl
  case ledger => exact h.ledger
  case awake =>
    intro pt' hWaits hSome
    obtain ⟨e', hPushed⟩ := h.awake pt' hWaits hSome
    refine ⟨e', ?_⟩
    rw [hCall, if_neg, hPushed]
    rintro rfl
    rw [hEn] at hPushed
    obtain rfl := Call.pushed.inj hPushed
    exact hAwake hWaits

theorem inv_woken (h : Inv maxThreads s) (hBorn : pt ∈ s.mVector) :
    Inv maxThreads (s.setWorker pt (s.worker pt).woken) := by
  have hRun := h.running pt
  rcases (s.worker pt).phase_woken_cases with ⟨hWaits, hWoken⟩ | ⟨-, hSame⟩
  · refine h.setWorker hBorn ?_ ⟨?_, ?_, ?_⟩ ?_ ?_ ?_
    · rw [hWoken]
      exact Phase.noConfusion
    · rw [hWoken]
      exact Phase.noConfusion
    · rw [Worker.terminating_woken]
      exact hRun.terminating
    · rw [Worker.container_woken]
      exact hRun.events
    · rw [hWoken, hWaits]
      rfl
    · rw [Worker.outstanding, Worker.outstanding, Worker.container_woken, hWoken, hWaits]
      rfl
    · exact fun hNow => absurd hNow (s.worker pt).phase_woken_ne
  · rw [hSame]
    exact h.setWorker hBorn (h.born pt hBorn) hRun rfl rfl (h.awake pt)

theorem inv_signal (h : Inv maxThreads s) (hEn : s.call e = .pushed pt) :
    Inv maxThreads (s.signal e) := by
  have hBorn : pt ∈ s.mVector := h.target e pt (by rw [hEn]; rfl)
  rw [State.signal, hEn]
  refine (inv_woken h hBorn).setReturned hEn ?_
  rw [worker_setWorker]
  exact (s.worker pt).phase_woken_ne

/-- A look at the deque takes the first event in hand. -/
theorem inv_pop (h : Inv maxThreads s) (hEn : (s.worker pt).phase = .pop) :
    Inv maxThreads (s.setWorker pt (s.worker pt).popped) := by
  have hRun := h.running pt
  have hBorn : pt ∈ s.mVector := h.mem_of_phase (by rw [hEn]; exact Phase.noConfusion)
  rcases (s.worker pt).popped_cases with ⟨hTerm, -⟩ | ⟨-, hNil, hPopped⟩ | ⟨c, -, hDeque, -⟩ |
    ⟨e, c, -, hDeque, hPopped⟩
  · rw [hRun.terminating] at hTerm
    cases hTerm
  · rw [hPopped]
    refine h.setWorker hBorn Phase.noConfusion
      ⟨Phase.noConfusion, hRun.terminating, hRun.events⟩ ?_ ?_ (fun _ hSome => absurd hNil hSome)
    · rw [hEn]
      rfl
    · rw [Worker.outstanding, hEn]
      rfl
  · exact absurd (hDeque ▸ List.mem_cons_self) hRun.events
  · rw [hPopped]
    refine h.setWorker hBorn Phase.noConfusion
      ⟨Phase.noConfusion, hRun.terminating, fun hMem => ?_⟩ ?_ ?_ (fun hNow => by cases hNow)
    · exact hRun.events (hDeque ▸ List.mem_cons_of_mem _ hMem)
    · rw [hEn]
      rfl
    · rw [Worker.outstanding, hEn, hDeque]
      rfl

/-- A phase that neither takes nor leaves an event. -/
theorem Inv.setPhase (h : Inv maxThreads s) {p : Phase} (hBorn : (s.worker pt).phase ≠ .unborn)
    (hPhase : p ≠ .unborn) (hReturned : p ≠ .returned) (hWaits : p ≠ .waiting)
    (hAway : p.away = (s.worker pt).phase.away)
    (hHand : p.inHand = (s.worker pt).phase.inHand) : Inv maxThreads (s.setPhase pt p) := by
  have hRun := h.running pt
  refine h.setWorker (h.mem_of_phase hBorn) hPhase
    ⟨hReturned, hRun.terminating, hRun.events⟩ hAway ?_ (fun hNow => absurd hNow hWaits)
  rw [Worker.outstanding, Worker.outstanding, hHand]

theorem inv_getDeque (h : Inv maxThreads s) (hEn : (s.worker pt).phase = .polling) :
    Inv maxThreads (s.getDeque pt) := by
  rw [State.getDeque]
  split
  · exact h.setPhase (by rw [hEn]; exact Phase.noConfusion) Phase.noConfusion Phase.noConfusion
      Phase.noConfusion (by rw [hEn]; rfl) (by rw [hEn]; rfl)
  · exact h

theorem inv_check (h : Inv maxThreads s) (hEn : (s.worker pt).phase = .top) :
    Inv maxThreads (s.check pt) := by
  rw [State.check, h.terminating, if_neg Bool.false_ne_true]
  exact h.setPhase (by rw [hEn]; exact Phase.noConfusion) Phase.noConfusion Phase.noConfusion
    Phase.noConfusion (by rw [hEn]; rfl) (by rw [hEn]; rfl)

/-- `st_busy` finds the worker. -/
theorem inv_busy (h : Inv maxThreads s) (hEn : (s.worker pt).phase = .got e) :
    Inv maxThreads (s.busy pt) := by
  have hRun := h.running pt
  have hBorn : pt ∈ s.mVector := h.mem_of_phase (by rw [hEn]; exact Phase.noConfusion)
  have hIn : pt ∈ s.mContainer := (h.container pt).2 ⟨hBorn, by rw [hEn]; rfl⟩
  rw [State.busy, hEn]
  dsimp only
  rw [if_pos hIn]
  refine h.ofWorker hBorn (H := s.handled) Phase.noConfusion
    ⟨Phase.noConfusion, hRun.terminating, hRun.events⟩ (fun pt' hpt => ⟨?_, rfl⟩) ?_ ?_ ?_
  · exact OrdSet.mem_erase.trans (and_iff_right hpt)
  · exact iff_of_false (fun hMem => (OrdSet.mem_erase.1 hMem).1 rfl) (fun hNow => by cases hNow)
  · rw [Worker.outstanding, Worker.outstanding, hEn]
    rfl
  · exact fun hNow => by cases hNow

theorem inv_finish (h : Inv maxThreads s) (hEn : (s.worker pt).phase = .busy e) :
    Inv maxThreads (s.finish pt) := by
  have hRun := h.running pt
  have hBorn : pt ∈ s.mVector := h.mem_of_phase (by rw [hEn]; exact Phase.noConfusion)
  rw [State.finish, hEn]
  refine h.ofWorker hBorn (C := s.mContainer) Phase.noConfusion
    ⟨Phase.noConfusion, hRun.terminating, hRun.events⟩ (fun pt' hpt => ⟨Iff.rfl, ?_⟩) ?_ ?_ ?_
  · rw [forPt_append, if_neg (Ne.symm hpt), List.append_nil]
  · rw [h.container, hEn]
    exact iff_of_false (fun hMem => by cases hMem.2) (fun hNow => by cases hNow)
  · rw [forPt_append, if_pos rfl, Worker.outstanding, Worker.outstanding, hEn, List.append_assoc]
    rfl
  · exact fun hNow => by cases hNow

theorem inv_release (h : Inv maxThreads s) (hEn : (s.worker pt).phase = .ending) :
    Inv maxThreads (s.release pt) := by
  have hRun := h.running pt
  have hBorn : pt ∈ s.mVector := h.mem_of_phase (by rw [hEn]; exact Phase.noConfusion)
  refine h.ofWorker hBorn (H := s.handled) Phase.noConfusion
    ⟨Phase.noConfusion, hRun.terminating, hRun.events⟩ (fun pt' hpt => ⟨?_, rfl⟩) ?_ ?_ ?_
  · exact OrdSet.mem_insert.trans (or_iff_right hpt)
  · exact iff_of_true (OrdSet.mem_insert.2 (Or.inl rfl)) rfl
  · rw [Worker.outstanding, Worker.outstanding, hEn]
    rfl
  · exact fun hNow => by cases hNow

/-! ## Every step -/

theorem inv_apply (hMax : 1 ≤ maxThreads) (h : Inv maxThreads s) {a : Action}
    (hEn : s.Enabled maxThreads a) (hBefore : Before s a) : Inv maxThreads (s.apply a) := by
  cases a with
  | listenToEvent e =>
      have hIdle : s.call e = .idle := hEn
      exact h.setCall (by rw [hIdle]; rfl) rfl (fun pt hTarget => by cases hTarget)
  | choose e => exact inv_choose h hEn
  | create e pt => exact inv_create h hEn.1 hEn.2.1 hEn.2.2
  | createFails e =>
      exact h.setCall (by rw [hEn.1]; rfl) rfl (fun pt hTarget => by cases hTarget)
  | pick e r => exact inv_pick hMax h hEn.1 hEn.2 r
  | push e =>
      obtain ⟨pt, hChosen⟩ := Call.eq_chosen hEn
      exact inv_push h hChosen
  | signal e =>
      obtain ⟨pt, hPushed⟩ := Call.eq_pushed hEn
      exact inv_signal h hPushed
  | getDeque pt => exact inv_getDeque h hEn
  | check pt => exact inv_check h hEn
  | pop pt => exact inv_pop h hEn
  | wake pt =>
      have hWaits : (s.worker pt).phase = .waiting := hEn
      exact inv_woken h (h.mem_of_phase (by rw [hWaits]; exact Phase.noConfusion))
  | busy pt =>
      obtain ⟨e, hGot⟩ := Phase.eq_got hEn
      exact inv_busy h hGot
  | finish pt =>
      obtain ⟨e, hBusy⟩ := Phase.eq_busy hEn
      exact inv_finish h hBusy
  | release pt => exact inv_release h hEn
  | deinit => exact absurd rfl hBefore

theorem inv_of_reachable (hMax : 1 ≤ maxThreads)
    (hReach : ((machine maxThreads).guarded Before).Reachable s) : Inv maxThreads s := by
  refine Machine.Reachable.invariant (I := Inv maxThreads) ?_ ?_ hReach
  · rintro _ rfl
    exact inv_start maxThreads
  · exact fun s a hs hEn => inv_apply hMax hs hEn.1.2 hEn.2

/-! ## On the way to the handler -/

/-- The steps of a worker; waking up is none. -/
def Action.isOf (pt : Pt) : Action → Bool
  | .getDeque p => p = pt
  | .check p => p = pt
  | .pop p => p = pt
  | .busy p => p = pt
  | .finish p => p = pt
  | .release p => p = pt
  | _ => false

/-- The steps of a worker up to the end of a handler. -/
def Phase.toHandled : Phase → Nat
  | .unborn => 0
  | .polling => 5
  | .top => 4
  | .pop => 3
  | .waiting => 3
  | .got _ => 2
  | .busy _ => 1
  | .ending => 5
  | .returned => 0

theorem Phase.toHandled_le (p : Phase) : p.toHandled ≤ 5 := by
  cases p <;> exact Nat.le_of_ble_eq_true rfl

/-- The event has been handled, or is so far from it. -/
def Ahead (s : State) (e : Ev) (pt : Pt) (n : Nat) : Prop :=
  (e, pt) ∈ s.handled ∨
    ∃ k, (s.worker pt).outstanding[k]? = some e ∧ 5 * k + (s.worker pt).phase.toHandled ≤ n

/-- What has been handled stays handled, and no thread is forgotten. -/
theorem grows_apply (s : State) (a : Action) :
    s.handled ⊆ (s.apply a).handled ∧ s.mVector ⊆ (s.apply a).mVector := by
  have hSame : s.handled ⊆ s.handled ∧ s.mVector ⊆ s.mVector :=
    ⟨List.Subset.refl _, List.Subset.refl _⟩
  cases a with
  | choose e =>
      rw [State.apply, State.choose]
      split <;> exact hSame
  | create e p => exact ⟨List.Subset.refl _, List.subset_append_left _ _⟩
  | pick e r =>
      rw [State.apply, State.pick]
      split <;> exact hSame
  | push e =>
      rw [State.apply, State.push]
      split <;> exact hSame
  | signal e =>
      rw [State.apply, State.signal]
      split <;> exact hSame
  | getDeque p =>
      rw [State.apply, State.getDeque]
      split <;> exact hSame
  | busy p =>
      rw [State.apply, State.busy]
      split
      · split <;> exact hSame
      · exact hSame
  | finish p =>
      rw [State.apply, State.finish]
      split
      · exact ⟨List.subset_append_left _ _, List.Subset.refl _⟩
      · exact hSame
  | deinit =>
      rw [State.apply, State.deinitStep]
      split <;> exact hSame
  | _ => exact hSame

/-- What others do to a worker: nothing, or they push behind what it has, or
wake it. -/
theorem worker_apply_of_other {a : Action} (hEn : s.Enabled maxThreads a)
    (hBefore : Before s a) (hOther : a.isOf pt = false) (hBorn : pt ∈ s.mVector) :
    (s.apply a).worker pt = s.worker pt ∨
      (∃ e, (s.apply a).worker pt =
        { s.worker pt with container := (s.worker pt).container ++ [some e] }) ∨
      (s.apply a).worker pt = (s.worker pt).woken := by
  cases a with
  | listenToEvent e => exact Or.inl rfl
  | choose e =>
      rw [State.apply, State.choose]
      split <;> exact Or.inl rfl
  | create e p =>
      refine Or.inl (worker_setWorker_of_ne s ?_ _)
      rintro rfl
      exact hEn.2.2 hBorn
  | createFails e => exact Or.inl rfl
  | pick e r =>
      rw [State.apply, State.pick]
      split <;> exact Or.inl rfl
  | push e =>
      obtain ⟨p, hChosen⟩ := Call.eq_chosen hEn
      rw [State.apply, State.push, hChosen]
      by_cases hp : pt = p
      · subst hp
        exact Or.inr (Or.inl ⟨e, worker_setWorker s pt _⟩)
      · exact Or.inl (worker_setWorker_of_ne s hp _)
  | signal e =>
      obtain ⟨p, hPushed⟩ := Call.eq_pushed hEn
      rw [State.apply, State.signal, hPushed]
      by_cases hp : pt = p
      · subst hp
        exact Or.inr (Or.inr (worker_setWorker s pt _))
      · exact Or.inl (worker_setWorker_of_ne s hp _)
  | wake p =>
      by_cases hp : pt = p
      · subst hp
        exact Or.inr (Or.inr (worker_setWorker s pt _))
      · exact Or.inl (worker_setWorker_of_ne s hp _)
  | getDeque p =>
      have hp : pt ≠ p := Ne.symm (of_decide_eq_false hOther)
      rw [State.apply, State.getDeque]
      split
      · exact Or.inl (worker_setWorker_of_ne s hp _)
      · exact Or.inl rfl
  | check p => exact Or.inl (worker_setWorker_of_ne s (Ne.symm (of_decide_eq_false hOther)) _)
  | pop p => exact Or.inl (worker_setWorker_of_ne s (Ne.symm (of_decide_eq_false hOther)) _)
  | busy p =>
      have hp : pt ≠ p := Ne.symm (of_decide_eq_false hOther)
      rw [State.apply, State.busy]
      split
      · split
        · exact Or.inl (worker_setWorker_of_ne s hp _)
        · exact Or.inl rfl
      · exact Or.inl rfl
  | finish p =>
      have hp : pt ≠ p := Ne.symm (of_decide_eq_false hOther)
      rw [State.apply, State.finish]
      split
      · exact Or.inl (worker_setWorker_of_ne s hp _)
      · exact Or.inl rfl
  | release p => exact Or.inl (worker_setWorker_of_ne s (Ne.symm (of_decide_eq_false hOther)) _)
  | deinit => exact absurd rfl hBefore

theorem Worker.toHandled_woken (w : Worker) : w.woken.phase.toHandled = w.phase.toHandled ∧
    w.woken.outstanding = w.outstanding := by
  rcases w.phase_woken_cases with ⟨hWaits, hWoken⟩ | ⟨-, hSame⟩
  · rw [Worker.outstanding, Worker.outstanding, Worker.container_woken, hWoken, hWaits]
    exact ⟨rfl, rfl⟩
  · rw [hSame]
    exact ⟨rfl, rfl⟩

/-- What others do takes no event away from a handler. -/
theorem ahead_of_other {a : Action} (hEn : s.Enabled maxThreads a)
    (hBefore : Before s a) (hOther : a.isOf pt = false) (hBorn : pt ∈ s.mVector) {n : Nat}
    (hAhead : Ahead s e pt n) : Ahead (s.apply a) e pt n := by
  rcases hAhead with hHandled | ⟨k, hAt, hLe⟩
  · exact Or.inl ((grows_apply s a).1 hHandled)
  · refine Or.inr ⟨k, ?_⟩
    rcases worker_apply_of_other hEn hBefore hOther hBorn with hSame | ⟨e', hPush⟩ | hWoken
    · rw [hSame]
      exact ⟨hAt, hLe⟩
    · rw [hPush]
      refine ⟨?_, hLe⟩
      have hLonger : ({ s.worker pt with
          container := (s.worker pt).container ++ [some e'] } : Worker).outstanding =
          (s.worker pt).outstanding ++ [e'] := by
        rw [Worker.outstanding, Worker.outstanding, List.filterMap_append, List.append_assoc]
        rfl
      rw [hLonger, List.getElem?_append_left (List.getElem?_eq_some_iff.1 hAt).1]
      exact hAt
    · rw [hWoken, (s.worker pt).toHandled_woken.1, (s.worker pt).toHandled_woken.2]
      exact ⟨hAt, hLe⟩

/-- A phase with the same event in hand, one step on. -/
theorem ahead_setPhase {p : Phase} {n : Nat} (hHand : p.inHand = (s.worker pt).phase.inHand)
    (hStep : p.toHandled + 1 = (s.worker pt).phase.toHandled) {s' : State}
    (hWorker : s'.worker pt = { s.worker pt with phase := p }) (hHandled : s.handled ⊆ s'.handled)
    (hAhead : Ahead s e pt (n + 1)) : Ahead s' e pt n := by
  rcases hAhead with hDone | ⟨k, hAt, hLe⟩
  · exact Or.inl (hHandled hDone)
  · refine Or.inr ⟨k, ?_, ?_⟩
    · rw [hWorker, Worker.outstanding, hHand]
      exact hAt
    · rw [hWorker]
      show 5 * k + p.toHandled ≤ n
      omega

/-- Each step of the worker brings its events closer. -/
theorem ahead_of_own (h : Inv maxThreads s) {a : Action} (hEn : s.Enabled maxThreads a)
    (hOwn : a.isOf pt = true) {n : Nat} (hAhead : Ahead s e pt (n + 1)) :
    Ahead (s.apply a) e pt n := by
  have hGrows := (grows_apply s a).1
  cases a with
  | getDeque p =>
      obtain rfl : p = pt := of_decide_eq_true hOwn
      have hPhase : (s.worker p).phase = .polling := hEn
      have hIn : p ∈ s.mContainer := (h.container p).2
        ⟨h.mem_of_phase (by rw [hPhase]; exact Phase.noConfusion), by rw [hPhase]; rfl⟩
      refine ahead_setPhase (p := .top) (by rw [hPhase]; rfl) (by rw [hPhase]; rfl) ?_ hGrows hAhead
      rw [State.apply, State.getDeque, if_pos hIn]
      exact worker_setWorker s p _
  | check p =>
      obtain rfl : p = pt := of_decide_eq_true hOwn
      have hPhase : (s.worker p).phase = .top := hEn
      refine ahead_setPhase (p := .pop) (by rw [hPhase]; rfl) (by rw [hPhase]; rfl) ?_ hGrows hAhead
      rw [State.apply, State.check, h.terminating, if_neg Bool.false_ne_true]
      exact worker_setWorker s p _
  | pop p =>
      obtain rfl : p = pt := of_decide_eq_true hOwn
      have hPhase : (s.worker p).phase = .pop := hEn
      rcases hAhead with hDone | ⟨k, hAt, hLe⟩
      · exact Or.inl hDone
      · have hRun := h.running p
        refine Or.inr ⟨k, ?_⟩
        rw [State.apply, worker_setWorker]
        rw [Worker.outstanding, hPhase] at hAt
        rw [hPhase] at hLe
        rcases (s.worker p).popped_cases with ⟨hTerm, -⟩ | ⟨-, hNil, -⟩ | ⟨c, -, hDeque, -⟩ |
          ⟨e', c, -, hDeque, hPopped⟩
        · rw [hRun.terminating] at hTerm
          cases hTerm
        · rw [hNil] at hAt
          cases hAt
        · exact absurd (hDeque ▸ List.mem_cons_self) hRun.events
        · rw [hPopped, Worker.outstanding]
          rw [hDeque] at hAt
          exact ⟨hAt, Nat.le_of_succ_le_succ hLe⟩
  | busy p =>
      obtain rfl : p = pt := of_decide_eq_true hOwn
      obtain ⟨e', hGot⟩ := Phase.eq_got hEn
      have hIn : p ∈ s.mContainer := (h.container p).2
        ⟨h.mem_of_phase (by rw [hGot]; exact Phase.noConfusion), by rw [hGot]; rfl⟩
      refine ahead_setPhase (p := .busy e') (by rw [hGot]; rfl) (by rw [hGot]; rfl) ?_ hGrows hAhead
      rw [State.apply, State.busy, hGot]
      dsimp only
      rw [if_pos hIn]
      exact worker_setWorker s p _
  | finish p =>
      obtain rfl : p = pt := of_decide_eq_true hOwn
      obtain ⟨e', hBusy⟩ := Phase.eq_busy hEn
      have hHandled : (s.apply (.finish p)).handled = s.handled ++ [(e', p)] := by
        rw [State.apply, State.finish, hBusy]
      have hWorker : (s.apply (.finish p)).worker p = { s.worker p with phase := .ending } := by
        rw [State.apply, State.finish, hBusy]
        exact worker_setWorker s p _
      rcases hAhead with hDone | ⟨k, hAt, hLe⟩
      · exact Or.inl (hGrows hDone)
      · rw [Worker.outstanding, hBusy] at hAt
        rw [hBusy] at hLe
        cases k with
        | zero =>
            obtain rfl : e' = e := Option.some.inj hAt
            refine Or.inl ?_
            rw [hHandled]
            exact List.mem_append_right _ (List.mem_singleton.2 rfl)
        | succ k =>
            refine Or.inr ⟨k, ?_, ?_⟩
            · rw [hWorker]
              exact hAt
            · rw [hWorker]
              have hNow : 5 * (k + 1) + 1 ≤ n + 1 := hLe
              show 5 * k + 5 ≤ n
              omega
  | release p =>
      obtain rfl : p = pt := of_decide_eq_true hOwn
      have hPhase : (s.worker p).phase = .ending := hEn
      exact ahead_setPhase (p := .top) (by rw [hPhase]; rfl) (by rw [hPhase]; rfl)
        (worker_setWorker s p _) hGrows hAhead
  | _ => cases hOwn

/-- Along a run, a worker that makes enough steps handles the event. -/
theorem handled_of_ahead (hMax : 1 ≤ maxThreads) :
    ∀ (acts : List Action) (s : State) (n : Nat), Inv maxThreads s → pt ∈ s.mVector →
      Ahead s e pt n → ((machine maxThreads).guarded Before).Path s acts →
      n ≤ acts.countP (Action.isOf pt) → (e, pt) ∈ ((machine maxThreads).exec s acts).handled := by
  intro acts
  induction acts with
  | nil =>
      intro s n hInv hBorn hAhead _ hCount
      rcases hAhead with hDone | ⟨k, hAt, hLe⟩
      · exact hDone
      · -- a worker with something outstanding is at least one step from the end
        have hZero : (s.worker pt).phase.toHandled = 0 := by
          rw [List.countP_nil] at hCount
          omega
        have hRun := hInv.running pt
        cases hPhase : (s.worker pt).phase with
        | unborn => exact absurd hPhase (hInv.born pt hBorn)
        | returned => exact absurd hPhase hRun.phase_ne
        | _ => rw [hPhase] at hZero; cases hZero
  | cons a acts ih =>
      intro s n hInv hBorn hAhead hPath hCount
      obtain ⟨⟨⟨-, hEn⟩, hBefore⟩, hRest⟩ := hPath
      have hNext := inv_apply hMax hInv hEn hBefore
      have hStill : pt ∈ (s.apply a).mVector := (grows_apply s a).2 hBorn
      rw [Machine.exec_cons]
      cases hOwn : a.isOf pt with
      | true =>
          rw [List.countP_cons_of_pos hOwn] at hCount
          have hOne : Ahead s e pt ((n - 1) + 1) := by
            rcases hAhead with hDone | ⟨k, hAt, hLe⟩
            · exact Or.inl hDone
            · exact Or.inr ⟨k, hAt, by omega⟩
          exact ih _ (n - 1) hNext hStill (ahead_of_own hInv hEn hOwn hOne) hRest (by omega)
      | false =>
          rw [List.countP_cons_of_neg (by rw [hOwn]; exact Bool.false_ne_true)] at hCount
          exact ih _ n hNext hStill (ahead_of_other hEn hBefore hOwn hBorn hAhead) hRest hCount

/-! ## Delivery -/

/-- A worker with something to do can do it, or a signal for it is on its way. -/
theorem stands (h : Inv maxThreads s) (hSome : (s.worker pt).outstanding ≠ []) :
    (∃ a, a.isOf pt = true ∧ s.Enabled maxThreads a) ∨ ∃ e, s.call e = .pushed pt := by
  have hRun := h.running pt
  have hOwn : ∀ q : Pt, decide (q = q) = true := fun q => decide_eq_true rfl
  cases hPhase : (s.worker pt).phase with
  | unborn =>
      have hNew : pt ∉ s.mVector := fun hMem => h.born pt hMem hPhase
      rw [h.unborn pt hNew] at hSome
      exact absurd rfl hSome
  | polling => exact Or.inl ⟨.getDeque pt, hOwn pt, hPhase⟩
  | top => exact Or.inl ⟨.check pt, hOwn pt, hPhase⟩
  | pop => exact Or.inl ⟨.pop pt, hOwn pt, hPhase⟩
  | waiting =>
      refine Or.inr (h.awake pt hPhase fun hNil => hSome ?_)
      rw [Worker.outstanding, hPhase, hNil]
      rfl
  | got e => exact Or.inl ⟨.busy pt, hOwn pt, by rw [State.Enabled, hPhase]; rfl⟩
  | busy e => exact Or.inl ⟨.finish pt, hOwn pt, by rw [State.Enabled, hPhase]; rfl⟩
  | ending => exact Or.inl ⟨.release pt, hOwn pt, hPhase⟩
  | returned => exact absurd hPhase hRun.phase_ne

/-- A worker is blocked in `pop`: it waits, and nobody who has pushed to it has
still to signal. -/
def State.Blocked (s : State) (pt : Pt) : Prop :=
  (s.worker pt).phase = .waiting ∧ ∀ e, s.call e ≠ .pushed pt

/-- At most `maxThreads` threads; every event that has been accepted in one
deque, and handled there once and in order; no event behind a blocked worker;
and every event is handled. -/
structure Delivers (maxThreads : Nat) (s : State) : Prop where
  threads : s.mVector.length ≤ maxThreads ∧
    ∀ pt, (s.worker pt).phase ≠ .unborn → pt ∈ s.mVector
  one_deque : (s.put.map Prod.fst).Nodup ∧
    ∀ e, (s.call e).put = true ↔ ∃ pt, (e, pt) ∈ s.put
  in_order : ∀ pt, forPt s.put pt = forPt s.handled pt ++ (s.worker pt).outstanding
  awake : ∀ pt, s.Blocked pt → (s.worker pt).container = []
  stands : ∀ pt, (s.worker pt).outstanding ≠ [] →
    (∃ a, a.isOf pt = true ∧ s.Enabled maxThreads a) ∨ ∃ e, s.call e = .pushed pt
  handles : ∀ pt, ∀ e ∈ (s.worker pt).outstanding, ∀ acts,
    ((machine maxThreads).guarded Before).Path s acts →
    5 * (s.worker pt).outstanding.length ≤ acts.countP (Action.isOf pt) →
    (e, pt) ∈ ((machine maxThreads).exec s acts).handled

/--
**Delivery.** For every `MaxThreadsCount` from one on, in every state the
listener, its workers and its callers reach before `deinit`, whatever the
handlers throw.
-/
theorem delivery (hMax : 1 ≤ maxThreads)
    (hReach : ((machine maxThreads).guarded Before).Reachable s) : Delivers maxThreads s := by
  have h := inv_of_reachable hMax hReach
  constructor
  case threads => exact ⟨h.length_le, fun pt hPhase => h.mem_of_phase hPhase⟩
  case one_deque =>
    refine ⟨h.put_nodup, fun e => ?_⟩
    rw [← h.put_iff, List.mem_map]
    exact ⟨fun ⟨x, hMem, hx⟩ => ⟨x.2, hx ▸ hMem⟩, fun ⟨pt, hMem⟩ => ⟨(e, pt), hMem, rfl⟩⟩
  case in_order => exact h.ledger
  case awake =>
    rintro pt ⟨hWaits, hNone⟩
    by_contra hSome
    obtain ⟨e, hPushed⟩ := h.awake pt hWaits hSome
    exact hNone e hPushed
  case stands => exact fun pt hSome => stands h hSome
  case handles =>
    intro pt e hMem acts hPath hCount
    obtain ⟨k, hk, rfl⟩ := List.getElem_of_mem hMem
    have hBorn : pt ∈ s.mVector := by
      by_contra hNew
      have hUnborn := h.unborn pt hNew
      simp [hUnborn, Worker.outstanding, Worker.unborn, Phase.inHand] at hk
    have hSteps := (s.worker pt).phase.toHandled_le
    exact handled_of_ahead hMax acts s _ h hBorn
      (Or.inr ⟨k, List.getElem?_eq_getElem hk, le_refl _⟩) hPath (by omega)

/-- Two events for a listener with one thread; the second comes while the first
is in its handler. -/
def twoEvents : List Action :=
  [.listenToEvent 0, .choose 0, .create 0 7, .push 0, .signal 0, .getDeque 7, .check 7, .pop 7,
   .busy 7, .listenToEvent 1, .choose 1, .pick 1 5, .push 1, .finish 7, .release 7, .check 7]

theorem twoEvents_delivers : Delivers 1 ((machine 1).exec .start twoEvents) :=
  delivery (le_refl 1)
    ⟨.start, twoEvents, rfl, by decide +kernel, Machine.exec_guarded _ _ _ _⟩

end Megatron.ListenerBuffered
