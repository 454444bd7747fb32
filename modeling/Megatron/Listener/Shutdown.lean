import Megatron.Listener.Buffered

/-!
# The end of a buffered listener

`deinit` sets a flag, takes the container, and ends and joins the workers it has
found there, one by one.  A worker that is in a handler at that time is not
there, and nobody joins it; a worker that has not found its deque yet looks for
it in a container that is empty now; an event that has been popped makes
`st_busy` throw.  A thread that is made later is not joined either.

## Main results

* `State.phase_apply` — how a worker goes from phase to phase.
* `shutdown_iff` — the runs that end as they should are the runs in which
  `deinit` finds all workers in the container, each with its deque, no event is
  popped by a worker that is not there any more, and no thread is made later.
-/

namespace Megatron.ListenerBuffered

open Megatron.Lib

/-- `deinit` has taken the container. -/
def Deinit.taken : Deinit → Bool
  | .notCalled => false
  | .flagged => false
  | _ => true

/-- The threads still to join. -/
def Deinit.left : Deinit → List Pt
  | .walking _ pt rest => pt :: rest
  | _ => []

/-- What `deinit` is to bring about: it joins every thread there is, no handler
runs, no worker looks for a deque in a container where it is not, and the
process goes on. -/
structure Stopped (s : State) : Prop where
  covered : ∀ pt ∈ s.mVector, pt ∈ s.joined ∨ pt ∈ s.deinit.left
  quiet : ∀ pt e, (s.worker pt).phase ≠ .busy e
  found : ∀ pt, (s.worker pt).phase = .polling → pt ∈ s.mContainer
  alive : s.aborted = false

/-- `deinit` takes the container when all workers are in it and have found
their deques; no thread is made from then on; `st_busy` finds its worker, and
`rrand` something to choose from. -/
def Orderly (s : State) : Action → Prop
  | .deinit => s.deinit = .flagged →
      ∀ pt ∈ s.mVector, pt ∈ s.mContainer ∧ (s.worker pt).phase ≠ .polling
  | .create _ _ => s.deinit.taken = false
  | .busy pt => pt ∈ s.mContainer
  | .pick _ _ => s.mVector ≠ []
  | _ => True

instance (s : State) : (a : Action) → Decidable (Orderly s a)
  | .deinit => inferInstanceAs (Decidable (_ → _))
  | .create _ _ => inferInstanceAs (Decidable (_ = _))
  | .busy _ => inferInstanceAs (Decidable (_ ∈ _))
  | .pick _ _ => inferInstanceAs (Decidable (_ ≠ _))
  | .listenToEvent _ => .isTrue trivial
  | .choose _ => .isTrue trivial
  | .createFails _ => .isTrue trivial
  | .push _ => .isTrue trivial
  | .signal _ => .isTrue trivial
  | .getDeque _ => .isTrue trivial
  | .check _ => .isTrue trivial
  | .pop _ => .isTrue trivial
  | .wake _ => .isTrue trivial
  | .finish _ => .isTrue trivial
  | .release _ => .isTrue trivial

/-! ## Phases -/

/-- The ways from phase to phase. -/
inductive Moves (s : State) (pt : Pt) : Action → Phase → Phase → Prop
  | create (e : Ev) (p : Phase) : pt ∉ s.mVector → Moves s pt (.create e pt) p .polling
  | wake (a : Action) : Moves s pt a .waiting .pop
  | found : pt ∈ s.mContainer → Moves s pt (.getDeque pt) .polling .top
  | check : Moves s pt (.check pt) .top .pop
  | exit : Moves s pt (.check pt) .top .returned
  | sleep : Moves s pt (.pop pt) .pop .waiting
  | null : Moves s pt (.pop pt) .pop .returned
  | take (e : Ev) : Moves s pt (.pop pt) .pop (.got e)
  | busy (e : Ev) : pt ∈ s.mContainer → Moves s pt (.busy pt) (.got e) (.busy e)
  | finish (e : Ev) : Moves s pt (.finish pt) (.busy e) .ending
  | release : Moves s pt (.release pt) .ending .top

variable {maxThreads : Nat} {s : State} {a : Action} {pt : Pt}

/-- A signal makes a worker that waits move. -/
theorem moves_woken (s : State) (pt : Pt) (a : Action) :
    (s.worker pt).woken.phase = (s.worker pt).phase ∨
      Moves s pt a (s.worker pt).phase (s.worker pt).woken.phase := by
  rcases (s.worker pt).phase_woken_cases with ⟨hWaits, hWoken⟩ | ⟨-, hSame⟩
  · rw [hWaits, hWoken]
    exact Or.inr (.wake a)
  · rw [hSame]
    exact Or.inl rfl

/-- The phase of a worker after another one has been replaced. -/
theorem phase_setWorker_cases {s' : State} {p : Pt} {w : Worker}
    (hWorker : s'.worker = (s.setWorker p w).worker)
    (hSelf : p = pt → w.phase = (s.worker pt).phase ∨ Moves s pt a (s.worker pt).phase w.phase) :
    (s'.worker pt).phase = (s.worker pt).phase ∨
      Moves s pt a (s.worker pt).phase (s'.worker pt).phase := by
  rw [hWorker]
  by_cases hp : pt = p
  · subst hp
    rw [worker_setWorker]
    exact hSelf rfl
  · rw [worker_setWorker_of_ne s hp]
    exact Or.inl rfl

/-- **The phases.** A step leaves the phase of a worker or makes one of the
moves. -/
theorem State.phase_apply (hEn : s.Enabled maxThreads a) (pt : Pt) :
    ((s.apply a).worker pt).phase = (s.worker pt).phase ∨
      Moves s pt a (s.worker pt).phase ((s.apply a).worker pt).phase := by
  cases a with
  | listenToEvent e => exact Or.inl rfl
  | choose e =>
      rw [State.apply, State.choose]
      split <;> exact Or.inl rfl
  | create e p =>
      refine phase_setWorker_cases rfl ?_
      rintro rfl
      exact Or.inr (.create e _ hEn.2.2)
  | createFails e => exact Or.inl rfl
  | pick e r =>
      rw [State.apply, State.pick]
      split <;> exact Or.inl rfl
  | push e =>
      rw [State.apply, State.push]
      split
      · refine phase_setWorker_cases rfl ?_
        rintro rfl
        exact Or.inl rfl
      · exact Or.inl rfl
  | signal e =>
      rw [State.apply, State.signal]
      split
      · refine phase_setWorker_cases rfl ?_
        rintro rfl
        exact moves_woken s _ _
      · exact Or.inl rfl
  | getDeque p =>
      rw [State.apply, State.getDeque]
      split
      · rename_i hIn
        refine phase_setWorker_cases rfl ?_
        rintro rfl
        have hPhase : (s.worker p).phase = .polling := hEn
        rw [hPhase]
        exact Or.inr (.found hIn)
      · exact Or.inl rfl
  | check p =>
      refine phase_setWorker_cases rfl ?_
      rintro rfl
      have hPhase : (s.worker p).phase = .top := hEn
      rw [hPhase]
      dsimp only
      split
      · exact Or.inr .exit
      · exact Or.inr .check
  | pop p =>
      refine phase_setWorker_cases rfl ?_
      rintro rfl
      have hPhase : (s.worker p).phase = .pop := hEn
      rw [hPhase]
      rcases (s.worker p).popped_cases with ⟨-, hPopped⟩ | ⟨-, -, hPopped⟩ | ⟨c, -, -, hPopped⟩ |
        ⟨e, c, -, -, hPopped⟩
      · rw [hPopped]
        exact Or.inr .null
      · rw [hPopped]
        exact Or.inr .sleep
      · rw [hPopped]
        exact Or.inr .null
      · rw [hPopped]
        exact Or.inr (.take e)
  | wake p =>
      refine phase_setWorker_cases rfl ?_
      rintro rfl
      exact moves_woken s _ _
  | busy p =>
      rw [State.apply, State.busy]
      split
      · rename_i e hGot
        split
        · rename_i hIn
          refine phase_setWorker_cases rfl ?_
          rintro rfl
          rw [hGot]
          exact Or.inr (.busy e hIn)
        · exact Or.inl rfl
      · exact Or.inl rfl
  | finish p =>
      rw [State.apply, State.finish]
      split
      · rename_i e hBusy
        refine phase_setWorker_cases rfl ?_
        rintro rfl
        rw [hBusy]
        exact Or.inr (.finish e)
      · exact Or.inl rfl
  | release p =>
      refine phase_setWorker_cases rfl ?_
      rintro rfl
      have hPhase : (s.worker p).phase = .ending := hEn
      rw [hPhase]
      exact Or.inr .release
  | deinit =>
      rw [State.apply, State.deinitStep]
      split
      · exact Or.inl rfl
      · exact Or.inl rfl
      · refine phase_setWorker_cases rfl ?_
        rintro rfl
        exact moves_woken s _ _
      · refine phase_setWorker_cases rfl ?_
        rintro rfl
        exact Or.inl rfl
      · refine phase_setWorker_cases rfl ?_
        rintro rfl
        exact moves_woken s _ _
      · refine phase_setWorker_cases rfl ?_
        rintro rfl
        exact Or.inl rfl
      · refine phase_setWorker_cases rfl ?_
        rintro rfl
        exact moves_woken s _ _
      · exact Or.inl rfl
      · exact Or.inl rfl

/-! ## What else a step changes -/

theorem mVector_apply_cases (s : State) (a : Action) :
    (s.apply a).mVector = s.mVector ∨
      ∃ e p, a = .create e p ∧ (s.apply a).mVector = s.mVector ++ [p] := by
  cases a with
  | create e p => exact Or.inr ⟨e, p, rfl, rfl⟩
  | choose e =>
      rw [State.apply, State.choose]
      split <;> exact Or.inl rfl
  | pick e r =>
      rw [State.apply, State.pick]
      split <;> exact Or.inl rfl
  | push e =>
      rw [State.apply, State.push]
      split <;> exact Or.inl rfl
  | signal e =>
      rw [State.apply, State.signal]
      split <;> exact Or.inl rfl
  | getDeque p =>
      rw [State.apply, State.getDeque]
      split <;> exact Or.inl rfl
  | busy p =>
      rw [State.apply, State.busy]
      split
      · split <;> exact Or.inl rfl
      · exact Or.inl rfl
  | finish p =>
      rw [State.apply, State.finish]
      split <;> exact Or.inl rfl
  | deinit =>
      rw [State.apply, State.deinitStep]
      split <;> exact Or.inl rfl
  | _ => exact Or.inl rfl

/-- Who is in the container has been there, has been made or has come back; who
goes into a handler is not. -/
theorem mem_container_apply {a : Action} (h : pt ∈ (s.apply a).mContainer) :
    (pt ∈ s.mContainer ∧ ∀ e, (s.worker pt).phase = .got e → a ≠ .busy pt) ∨
      (∃ e, a = .create e pt) ∨ a = .release pt := by
  cases a with
  | create e p =>
      rcases OrdSet.mem_insert.1 h with rfl | hOld
      · exact Or.inr (Or.inl ⟨e, rfl⟩)
      · exact Or.inl ⟨hOld, fun _ _ => Action.noConfusion⟩
  | release p =>
      rcases OrdSet.mem_insert.1 h with rfl | hOld
      · exact Or.inr (Or.inr rfl)
      · exact Or.inl ⟨hOld, fun _ _ => Action.noConfusion⟩
  | busy p =>
      rw [State.apply, State.busy] at h
      split at h
      · rename_i e hGot
        split at h
        · obtain ⟨hNe, hOld⟩ := OrdSet.mem_erase.1 h
          exact Or.inl ⟨hOld, fun _ _ hSame => hNe (Action.busy.inj hSame).symm⟩
        · rename_i hOut
          refine Or.inl ⟨h, fun _ _ hSame => ?_⟩
          obtain rfl := Action.busy.inj hSame
          exact hOut h
      · rename_i hNot
        refine Or.inl ⟨h, fun e hGot hSame => ?_⟩
        obtain rfl := Action.busy.inj hSame
        exact hNot e hGot
  | choose e =>
      rw [State.apply, State.choose] at h
      split at h <;> exact Or.inl ⟨h, fun _ _ => Action.noConfusion⟩
  | pick e r =>
      rw [State.apply, State.pick] at h
      split at h <;> exact Or.inl ⟨h, fun _ _ => Action.noConfusion⟩
  | push e =>
      rw [State.apply, State.push] at h
      split at h <;> exact Or.inl ⟨h, fun _ _ => Action.noConfusion⟩
  | signal e =>
      rw [State.apply, State.signal] at h
      split at h <;> exact Or.inl ⟨h, fun _ _ => Action.noConfusion⟩
  | getDeque p =>
      rw [State.apply, State.getDeque] at h
      split at h <;> exact Or.inl ⟨h, fun _ _ => Action.noConfusion⟩
  | finish p =>
      rw [State.apply, State.finish] at h
      split at h <;> exact Or.inl ⟨h, fun _ _ => Action.noConfusion⟩
  | deinit =>
      rw [State.apply, State.deinitStep] at h
      split at h
      case h_2 => exact absurd h (OrdSet.notMem_empty pt)
      all_goals exact Or.inl ⟨h, fun _ _ => Action.noConfusion⟩
  | _ => exact Or.inl ⟨h, fun _ _ => Action.noConfusion⟩

/-- Only `deinit` gets on with itself. -/
theorem deinit_apply_of_ne (s : State) {a : Action} (ha : a ≠ .deinit) :
    (s.apply a).deinit = s.deinit ∧ (s.apply a).joined = s.joined := by
  cases a with
  | choose e =>
      rw [State.apply, State.choose]
      split <;> exact ⟨rfl, rfl⟩
  | pick e r =>
      rw [State.apply, State.pick]
      split <;> exact ⟨rfl, rfl⟩
  | push e =>
      rw [State.apply, State.push]
      split <;> exact ⟨rfl, rfl⟩
  | signal e =>
      rw [State.apply, State.signal]
      split <;> exact ⟨rfl, rfl⟩
  | getDeque p =>
      rw [State.apply, State.getDeque]
      split <;> exact ⟨rfl, rfl⟩
  | busy p =>
      rw [State.apply, State.busy]
      split
      · split <;> exact ⟨rfl, rfl⟩
      · exact ⟨rfl, rfl⟩
  | finish p =>
      rw [State.apply, State.finish]
      split <;> exact ⟨rfl, rfl⟩
  | deinit => exact absurd rfl ha
  | _ => exact ⟨rfl, rfl⟩

theorem left_walk (l : List Pt) : (State.walk l).left = l := by
  cases l <;> rfl

theorem taken_walk (l : List Pt) : (State.walk l).taken = true := by
  cases l <;> rfl

/-- A step of `deinit`: it sets the flag, it takes the container, it goes on
with one worker, or it joins it. -/
theorem deinit_apply_cases (s : State) (hGoes : s.Goes) :
    (s.deinit = .notCalled ∧ s.deinitStep.deinit = .flagged ∧ s.deinitStep.joined = s.joined) ∨
    (s.deinit = .flagged ∧ s.deinitStep.deinit = State.walk s.mContainer.toList ∧
      s.deinitStep.joined = s.joined ∧ s.deinitStep.mContainer = ∅ ∧
      s.deinitStep.worker = s.worker ∧ s.deinitStep.mVector = s.mVector) ∨
    (s.deinit.taken = true ∧ s.deinitStep.deinit.taken = true ∧
      s.deinitStep.deinit.left = s.deinit.left ∧ s.deinitStep.joined = s.joined) ∨
    ∃ p rest, s.deinit.left = p :: rest ∧ (s.worker p).phase = .returned ∧
      s.deinit.taken = true ∧ s.deinitStep.deinit = State.walk rest ∧
      s.deinitStep.joined = s.joined ++ [p] := by
  rw [State.deinitStep]
  split
  · rename_i hAt
    exact Or.inl ⟨hAt, rfl, rfl⟩
  · rename_i hAt
    exact Or.inr (Or.inl ⟨hAt, rfl, rfl, rfl, rfl, rfl⟩)
  · rename_i p rest hAt
    rw [hAt]
    exact Or.inr (Or.inr (Or.inl ⟨rfl, rfl, rfl, rfl⟩))
  · rename_i p rest hAt
    rw [hAt]
    exact Or.inr (Or.inr (Or.inl ⟨rfl, rfl, rfl, rfl⟩))
  · rename_i p rest hAt
    rw [hAt]
    exact Or.inr (Or.inr (Or.inl ⟨rfl, rfl, rfl, rfl⟩))
  · rename_i p rest hAt
    rw [hAt]
    exact Or.inr (Or.inr (Or.inl ⟨rfl, rfl, rfl, rfl⟩))
  · rename_i p rest hAt
    rw [hAt]
    exact Or.inr (Or.inr (Or.inl ⟨rfl, rfl, rfl, rfl⟩))
  · rename_i p rest hAt
    rw [hAt]
    exact Or.inr (Or.inr (Or.inr ⟨p, rest, rfl, hGoes.2 p (by rw [hAt]; rfl), rfl, rfl, rfl⟩))
  · rename_i hAt
    exact absurd hAt hGoes.1

/-! ## In every run -/

/-- What holds whether or not `deinit` is called in time. -/
structure Base (s : State) : Prop where
  born : ∀ pt, pt ∈ s.mVector ↔ (s.worker pt).phase ≠ .unborn
  container : ∀ pt ∈ s.mContainer, pt ∈ s.mVector ∧
    (∀ e, (s.worker pt).phase ≠ .busy e) ∧ (s.worker pt).phase ≠ .ending
  walked : ∀ pt, pt ∈ s.joined ∨ pt ∈ s.deinit.left → pt ∈ s.mVector
  ended : ∀ pt ∈ s.joined, (s.worker pt).phase = .returned
  before : s.deinit.taken = false → s.joined = []

theorem base_start : Base .start where
  born _ := iff_of_false List.not_mem_nil (fun h => h rfl)
  container pt h := absurd h (OrdSet.notMem_empty pt)
  walked _ h := absurd h (not_or.2 ⟨List.not_mem_nil, List.not_mem_nil⟩)
  ended _ h := absurd h List.not_mem_nil
  before _ := rfl

theorem mem_mVector_apply (s : State) (a : Action) (h : pt ∈ s.mVector) :
    pt ∈ (s.apply a).mVector := by
  rcases mVector_apply_cases s a with hSame | ⟨e, p, -, hMore⟩
  · rw [hSame]
    exact h
  · rw [hMore]
    exact List.mem_append_left _ h

/-- A worker that has returned stays so. -/
theorem returned_apply (hEn : s.Enabled maxThreads a) (h : Base s)
    (hPhase : (s.worker pt).phase = .returned) : ((s.apply a).worker pt).phase = .returned := by
  have hBorn : pt ∈ s.mVector := (h.born pt).2 (by rw [hPhase]; exact Phase.noConfusion)
  rcases State.phase_apply hEn pt with hSame | hMove
  · rw [hSame, hPhase]
  · rw [hPhase] at hMove
    generalize ((s.apply a).worker pt).phase = q at hMove ⊢
    cases hMove with
    | create e p hNew => exact absurd hBorn hNew

/-- The threads that have been made. -/
theorem born_apply (hEn : s.Enabled maxThreads a) (h : Base s) (pt : Pt) :
    pt ∈ (s.apply a).mVector ↔ ((s.apply a).worker pt).phase ≠ .unborn := by
  rcases mVector_apply_cases s a with hSame | ⟨e, p, rfl, hMore⟩
  · rw [hSame, h.born]
    rcases State.phase_apply hEn pt with hPhase | hMove
    · rw [hPhase]
    · generalize (s.worker pt).phase = p at hMove ⊢
      generalize ((s.apply a).worker pt).phase = q at hMove ⊢
      cases hMove with
      | create e p hNew =>
          have hLonger := congrArg List.length hSame
          simp [State.apply, State.create] at hLonger
      | _ => exact iff_of_true Phase.noConfusion Phase.noConfusion
  · rw [hMore, List.mem_append, List.mem_singleton, h.born]
    by_cases hp : pt = p
    · subst hp
      refine iff_of_true (Or.inr rfl) ?_
      rw [show ((s.apply (.create e pt)).worker pt) = _ from worker_setWorker s pt _]
      exact Phase.noConfusion
    · rw [show ((s.apply (.create e p)).worker pt) = _ from worker_setWorker_of_ne s hp _]
      exact or_iff_left hp

/-- The idle threads. -/
theorem container_apply (hEn : s.Enabled maxThreads a) (h : Base s)
    (hMem : pt ∈ (s.apply a).mContainer) :
    pt ∈ (s.apply a).mVector ∧ (∀ e, ((s.apply a).worker pt).phase ≠ .busy e) ∧
      ((s.apply a).worker pt).phase ≠ .ending := by
  rcases mem_container_apply hMem with ⟨hOld, hGot⟩ | ⟨e, rfl⟩ | rfl
  · obtain ⟨hBorn, hBusy, hEnding⟩ := h.container pt hOld
    refine ⟨mem_mVector_apply s a hBorn, ?_⟩
    rcases State.phase_apply hEn pt with hSame | hMove
    · rw [hSame]
      exact ⟨hBusy, hEnding⟩
    · generalize (s.worker pt).phase = p at hMove hGot hBusy hEnding
      generalize ((s.apply a).worker pt).phase = q at hMove ⊢
      cases hMove with
      | busy e hIn => exact absurd rfl (hGot e rfl)
      | finish e => exact absurd rfl (hBusy e)
      | _ => exact ⟨fun _ => Phase.noConfusion, Phase.noConfusion⟩
  · have hWorker : (s.apply (.create e pt)).worker pt = ⟨.polling, [], false⟩ :=
      worker_setWorker s pt _
    rw [hWorker]
    exact ⟨List.mem_append_right _ (List.mem_singleton.2 rfl), fun _ => Phase.noConfusion,
      Phase.noConfusion⟩
  · have hWorker : ((s.apply (.release pt)).worker pt).phase = .top := by
      rw [show (s.apply (.release pt)).worker pt = _ from worker_setWorker s pt _]
    have hPhase : (s.worker pt).phase = .ending := hEn
    rw [hWorker]
    exact ⟨(h.born pt).2 (by rw [hPhase]; exact Phase.noConfusion), fun _ => Phase.noConfusion,
      Phase.noConfusion⟩

/-- The threads that `deinit` walks through. -/
theorem walked_apply (hEn : s.Enabled maxThreads a) (h : Base s)
    (hMem : pt ∈ (s.apply a).joined ∨ pt ∈ (s.apply a).deinit.left) :
    pt ∈ (s.apply a).mVector := by
  refine mem_mVector_apply s a ?_
  by_cases ha : a = .deinit
  · subst ha
    rcases deinit_apply_cases s hEn with ⟨-, hNext, hJoined⟩ |
      ⟨-, hNext, hJoined, -⟩ | ⟨-, -, hLeft, hJoined⟩ | ⟨p, rest, hLeft, -, -, hNext, hJoined⟩
    · rw [State.apply, hNext, hJoined] at hMem
      exact h.walked pt (hMem.imp_right fun hNil => absurd hNil List.not_mem_nil)
    · rw [State.apply, hNext, hJoined, left_walk] at hMem
      rcases hMem with hMem | hMem
      · exact h.walked pt (Or.inl hMem)
      · exact (h.container pt hMem).1
    · rw [State.apply, hLeft, hJoined] at hMem
      exact h.walked pt hMem
    · rw [State.apply, hNext, hJoined, left_walk, List.mem_append, List.mem_singleton] at hMem
      refine h.walked pt ?_
      rw [hLeft, List.mem_cons]
      exact or_assoc.1 hMem
  · rw [(deinit_apply_of_ne s ha).1, (deinit_apply_of_ne s ha).2] at hMem
    exact h.walked pt hMem

/-- The threads that `deinit` has joined. -/
theorem ended_apply (hEn : s.Enabled maxThreads a) (h : Base s)
    (hMem : pt ∈ (s.apply a).joined) : ((s.apply a).worker pt).phase = .returned := by
  refine returned_apply hEn h ?_
  by_cases ha : a = .deinit
  · subst ha
    rcases deinit_apply_cases s hEn with ⟨-, -, hJoined⟩ | ⟨-, -, hJoined, -⟩ |
      ⟨-, -, -, hJoined⟩ | ⟨p, rest, -, hReturned, -, -, hJoined⟩
    · exact h.ended pt (hJoined ▸ hMem)
    · exact h.ended pt (hJoined ▸ hMem)
    · exact h.ended pt (hJoined ▸ hMem)
    · rw [State.apply, hJoined, List.mem_append, List.mem_singleton] at hMem
      rcases hMem with hMem | rfl
      · exact h.ended pt hMem
      · exact hReturned
  · rw [(deinit_apply_of_ne s ha).2] at hMem
    exact h.ended pt hMem

/-- None before it takes the container. -/
theorem before_apply (hEn : s.Enabled maxThreads a) (h : Base s)
    (hTaken : (s.apply a).deinit.taken = false) : (s.apply a).joined = [] := by
  by_cases ha : a = .deinit
  · subst ha
    rcases deinit_apply_cases s hEn with ⟨hAt, -, hJoined⟩ | ⟨-, hNext, -⟩ |
      ⟨-, hNext, -⟩ | ⟨p, rest, -, -, -, hNext, -⟩
    · rw [State.apply, hJoined]
      exact h.before (by rw [hAt]; rfl)
    · rw [State.apply, hNext, taken_walk] at hTaken
      cases hTaken
    · rw [State.apply, hNext] at hTaken
      cases hTaken
    · rw [State.apply, hNext, taken_walk] at hTaken
      cases hTaken
  · rw [(deinit_apply_of_ne s ha).1] at hTaken
    rw [(deinit_apply_of_ne s ha).2]
    exact h.before hTaken

theorem base_apply (hEn : s.Enabled maxThreads a) (h : Base s) : Base (s.apply a) where
  born := born_apply hEn h
  container _ := container_apply hEn h
  walked _ := walked_apply hEn h
  ended _ := ended_apply hEn h
  before := before_apply hEn h

/-- What has been taken stays taken. -/
theorem taken_apply (hEn : s.Enabled maxThreads a) (h : s.deinit.taken = true) :
    (s.apply a).deinit.taken = true := by
  by_cases ha : a = .deinit
  · subst ha
    rcases deinit_apply_cases s hEn with ⟨hAt, -⟩ | ⟨hAt, -⟩ | ⟨-, hNext, -⟩ |
      ⟨p, rest, -, -, -, hNext, -⟩
    · rw [hAt] at h
      cases h
    · rw [hAt] at h
      cases h
    · exact hNext
    · rw [State.apply, hNext, taken_walk]
  · rw [(deinit_apply_of_ne s ha).1]
    exact h

/-- Who is joined or to be joined stays so, and nobody joins them. -/
theorem covered_apply (hEn : s.Enabled maxThreads a) (h : s.deinit.taken = true) (pt : Pt) :
    (pt ∈ (s.apply a).joined ∨ pt ∈ (s.apply a).deinit.left) ↔
      (pt ∈ s.joined ∨ pt ∈ s.deinit.left) := by
  by_cases ha : a = .deinit
  · subst ha
    rcases deinit_apply_cases s hEn with ⟨hAt, -⟩ | ⟨hAt, -⟩ | ⟨-, -, hLeft, hJoined⟩ |
      ⟨p, rest, hLeft, -, -, hNext, hJoined⟩
    · rw [hAt] at h
      cases h
    · rw [hAt] at h
      cases h
    · rw [State.apply, hLeft, hJoined]
    · rw [State.apply, hNext, hJoined, left_walk, hLeft, List.mem_append, List.mem_singleton,
        List.mem_cons]
      exact or_assoc
  · rw [(deinit_apply_of_ne s ha).1, (deinit_apply_of_ne s ha).2]

/-! ## In an orderly run -/

/-- The thread is neither looking for its deque nor in a handler. -/
def Phase.calm : Phase → Bool
  | .polling => false
  | .busy _ => false
  | .ending => false
  | _ => true

/-- Once `deinit` has found everybody. -/
structure After (s : State) : Prop where
  container : s.mContainer = ∅
  covered : ∀ pt ∈ s.mVector, pt ∈ s.joined ∨ pt ∈ s.deinit.left
  calm : ∀ pt, (s.worker pt).phase.calm = true

/-- What an orderly run keeps. -/
def Orderliness (s : State) : Prop :=
  Base s ∧ s.aborted = false ∧ (s.deinit.taken = true → After s)

theorem After.stopped (h : After s) (hAlive : s.aborted = false) : Stopped s where
  covered := h.covered
  quiet pt e hBusy := by
    have hCalm := h.calm pt
    rw [hBusy] at hCalm
    cases hCalm
  found pt hPolls := by
    have hCalm := h.calm pt
    rw [hPolls] at hCalm
    cases hCalm
  alive := hAlive

/-- Nothing throws where `st_busy` and `rrand` find what they look for. -/
theorem aborted_apply (hAlive : s.aborted = false) (hOrder : Orderly s a) :
    (s.apply a).aborted = false := by
  cases a with
  | pick e r =>
      have hSome : s.mVector ≠ [] := hOrder
      have hLt : r % s.mVector.length < s.mVector.length :=
        Nat.mod_lt _ (List.length_pos_iff.2 hSome)
      rw [State.apply, State.pick, List.getElem?_eq_getElem hLt]
      exact hAlive
  | busy p =>
      have hIn : p ∈ s.mContainer := hOrder
      rw [State.apply, State.busy]
      split
      · rw [if_pos hIn]
        exact hAlive
      · exact hAlive
  | choose e =>
      rw [State.apply, State.choose]
      split <;> exact hAlive
  | push e =>
      rw [State.apply, State.push]
      split <;> exact hAlive
  | signal e =>
      rw [State.apply, State.signal]
      split <;> exact hAlive
  | getDeque p =>
      rw [State.apply, State.getDeque]
      split <;> exact hAlive
  | finish p =>
      rw [State.apply, State.finish]
      split <;> exact hAlive
  | deinit =>
      rw [State.apply, State.deinitStep]
      split <;> exact hAlive
  | _ => exact hAlive

/-- Taking the container when everybody is in it. -/
theorem after_taken (h : Base s) (hAt : s.deinit = .flagged)
    (hAll : ∀ pt ∈ s.mVector, pt ∈ s.mContainer ∧ (s.worker pt).phase ≠ .polling) :
    After s.deinitStep := by
  have hStep : s.deinitStep =
      { s with mContainer := ∅, deinit := State.walk s.mContainer.toList } := by
    rw [State.deinitStep, hAt]
  rw [hStep]
  refine ⟨rfl, fun pt hMem => Or.inr ?_, fun pt => ?_⟩
  · show pt ∈ (State.walk s.mContainer.toList).left
    rw [left_walk]
    exact (hAll pt hMem).1
  · show (s.worker pt).phase.calm = true
    by_cases hMem : pt ∈ s.mVector
    · obtain ⟨hIn, hFound⟩ := hAll pt hMem
      obtain ⟨-, hBusy, hEnding⟩ := h.container pt hIn
      cases hPhase : (s.worker pt).phase with
      | polling => exact absurd hPhase hFound
      | busy e => exact absurd hPhase (hBusy e)
      | ending => exact absurd hPhase hEnding
      | _ => rfl
    · rw [h.born, not_not] at hMem
      rw [hMem]
      rfl

/-- From then on everybody stays calm. -/
theorem after_apply (hEn : s.Enabled maxThreads a) (h : After s) (hTaken : s.deinit.taken = true)
    (hOrder : Orderly s a) : After (s.apply a) := by
  have hNotCreate : ∀ e p, a ≠ .create e p := by
    rintro e p rfl
    have hNot : s.deinit.taken = false := hOrder
    rw [hTaken] at hNot
    cases hNot
  constructor
  case container =>
    rw [OrdSet.eq_empty_iff]
    intro pt hMem
    rcases mem_container_apply hMem with ⟨hOld, -⟩ | ⟨e, ha⟩ | rfl
    · rw [h.container] at hOld
      exact OrdSet.notMem_empty pt hOld
    · exact hNotCreate e pt ha
    · have hPhase : (s.worker pt).phase = .ending := hEn
      have hCalm := h.calm pt
      rw [hPhase] at hCalm
      cases hCalm
  case covered =>
    intro pt hMem
    rw [covered_apply hEn hTaken]
    rcases mVector_apply_cases s a with hSame | ⟨e, p, ha, -⟩
    · exact h.covered pt (hSame ▸ hMem)
    · exact absurd ha (hNotCreate e p)
  case calm =>
    intro pt
    have hCalm := h.calm pt
    rcases State.phase_apply hEn pt with hSame | hMove
    · rw [hSame]
      exact hCalm
    · generalize (s.worker pt).phase = p at hMove hCalm
      generalize ((s.apply a).worker pt).phase = q at hMove ⊢
      cases hMove with
      | create e p hNew => exact absurd rfl (hNotCreate e pt)
      | busy e hIn =>
          rw [h.container] at hIn
          exact absurd hIn (OrdSet.notMem_empty pt)
      | finish e => cases hCalm
      | release => cases hCalm
      | _ => rfl

theorem orderliness_apply (hEn : s.Enabled maxThreads a) (h : Orderliness s)
    (hOrder : Orderly s a) : Orderliness (s.apply a) := by
  obtain ⟨hBase, hAlive, hAfter⟩ := h
  refine ⟨base_apply hEn hBase, aborted_apply hAlive hOrder, fun hTaken => ?_⟩
  cases hNow : s.deinit.taken with
  | true => exact after_apply hEn (hAfter hNow) hNow hOrder
  | false =>
      by_cases ha : a = .deinit
      · subst ha
        rcases deinit_apply_cases s hEn with ⟨-, hNext, -⟩ | ⟨hAt, -⟩ | ⟨hAt, -⟩ |
          ⟨p, rest, -, -, hAt, -⟩
        · rw [State.apply, hNext] at hTaken
          cases hTaken
        · exact after_taken hBase hAt (hOrder hAt)
        · rw [hNow] at hAt
          cases hAt
        · rw [hNow] at hAt
          cases hAt
      · rw [(deinit_apply_of_ne s ha).1, hNow] at hTaken
        cases hTaken

/-! ## In any other run -/

/-- The process has ended, or a thread is left that nobody joins or that looks
for its deque in vain. -/
def Doomed (s : State) : Prop :=
  Base s ∧ (s.aborted = true ∨ s.deinit.taken = true ∧
    ((∃ pt ∈ s.mVector, ¬ (pt ∈ s.joined ∨ pt ∈ s.deinit.left)) ∨
      ∃ pt, (s.worker pt).phase = .polling ∧ pt ∉ s.mContainer))

theorem Doomed.not_stopped (h : Doomed s) : ¬ Stopped s := by
  rintro ⟨hCovered, -, hFound, hAlive⟩
  rcases h.2 with hDead | ⟨-, ⟨pt, hMem, hNot⟩ | ⟨pt, hPolls, hOut⟩⟩
  · rw [hAlive] at hDead
    cases hDead
  · exact hNot (hCovered pt hMem)
  · exact hOut (hFound pt hPolls)

theorem doomed_apply (hAlive : s.aborted = false) (hEn : s.Enabled maxThreads a)
    (h : Doomed s) : Doomed (s.apply a) := by
  obtain ⟨hBase, hDead | ⟨hTaken, hBad⟩⟩ := h
  · rw [hAlive] at hDead
    cases hDead
  · refine ⟨base_apply hEn hBase, Or.inr ⟨taken_apply hEn hTaken, ?_⟩⟩
    rcases hBad with ⟨pt, hMem, hNot⟩ | ⟨pt, hPolls, hOut⟩
    · exact Or.inl ⟨pt, mem_mVector_apply s a hMem, fun hNow =>
        hNot ((covered_apply hEn hTaken pt).1 hNow)⟩
    · have hBorn : pt ∈ s.mVector :=
        (hBase.born pt).2 (by rw [hPolls]; exact Phase.noConfusion)
      refine Or.inr ⟨pt, ?_, fun hMem => ?_⟩
      · rcases State.phase_apply hEn pt with hSame | hMove
        · rw [hSame, hPolls]
        · rw [hPolls] at hMove
          generalize ((s.apply a).worker pt).phase = q at hMove ⊢
          cases hMove with
          | create e p hNew => exact absurd hBorn hNew
          | found hIn => exact absurd hIn hOut
      · rcases mem_container_apply hMem with ⟨hOld, -⟩ | ⟨e, rfl⟩ | rfl
        · exact hOut hOld
        · exact hEn.2.2 hBorn
        · have hPhase : (s.worker pt).phase = .ending := hEn
          rw [hPolls] at hPhase
          cases hPhase

/-- The first step out of order. -/
theorem doomed_of_not_orderly (hEn : s.Enabled maxThreads a) (h : Orderliness s)
    (hOrder : ¬ Orderly s a) : Doomed (s.apply a) := by
  obtain ⟨hBase, hAlive, -⟩ := h
  have hNext := base_apply hEn hBase
  cases a with
  | deinit =>
      rw [Orderly, Classical.not_imp] at hOrder
      obtain ⟨hAt, hNot⟩ := hOrder
      simp only [not_forall, not_and_or, not_not] at hNot
      obtain ⟨pt, hMem, hBad⟩ := hNot
      have hStep : s.apply .deinit =
          { s with mContainer := ∅, deinit := State.walk s.mContainer.toList } := by
        rw [State.apply, State.deinitStep, hAt]
      have hJoined := hBase.before (by rw [hAt]; rfl)
      refine ⟨hNext, Or.inr ⟨by rw [hStep]; exact taken_walk _, ?_⟩⟩
      rw [hStep]
      rcases hBad with hOut | hPolls
      · refine Or.inl ⟨pt, hMem, ?_⟩
        rintro (hIn | hIn)
        · exact absurd (hJoined ▸ hIn) List.not_mem_nil
        · refine hOut ?_
          have hLeft : pt ∈ (State.walk s.mContainer.toList).left := hIn
          rw [left_walk] at hLeft
          exact hLeft
      · exact Or.inr ⟨pt, hPolls, OrdSet.notMem_empty pt⟩
  | create e p =>
      have hTaken : s.deinit.taken = true := Bool.of_not_eq_false hOrder
      refine ⟨hNext, Or.inr ⟨hTaken, Or.inl ⟨p, ?_, fun hMem => ?_⟩⟩⟩
      · exact List.mem_append_right _ (List.mem_singleton.2 rfl)
      · exact hEn.2.2 (hBase.walked p hMem)
  | busy p =>
      have hOut : p ∉ s.mContainer := hOrder
      obtain ⟨e, hGot⟩ := Phase.eq_got hEn
      refine ⟨hNext, Or.inl ?_⟩
      rw [State.apply, State.busy, hGot]
      dsimp only
      rw [if_neg hOut]
  | pick e r =>
      have hNil : s.mVector = [] := not_not.1 hOrder
      refine ⟨hNext, Or.inl ?_⟩
      rw [State.apply, State.pick, hNil]
      rfl
  | _ => exact absurd trivial hOrder

/--
**Shutdown.** In every run in which `deinit` has taken the container: it has
joined or will join every thread there is, no handler runs, no worker looks
for its deque in vain, and the process goes on, if and only if every step was
orderly.  Where `deinit` has returned, every thread has been joined then and is
at its end.
-/
theorem shutdown_iff {acts : List Action} (hPath : (machine maxThreads).Path .start acts)
    (hTaken : ((machine maxThreads).exec .start acts).deinit.taken = true) :
    (Stopped ((machine maxThreads).exec .start acts) ↔
      ((machine maxThreads).guarded Orderly).Path .start acts) ∧
    (Stopped ((machine maxThreads).exec .start acts) →
      ((machine maxThreads).exec .start acts).deinit = .returned →
      ∀ pt ∈ ((machine maxThreads).exec .start acts).mVector,
        pt ∈ ((machine maxThreads).exec .start acts).joined ∧
          (((machine maxThreads).exec .start acts).worker pt).phase = .returned) := by
  have hBase : Base ((machine maxThreads).exec .start acts) :=
    Machine.path_invariant (machine maxThreads)
      (fun _ _ hs hEn => base_apply hEn.2 hs) acts .start base_start hPath
  refine ⟨?_, fun hStopped hReturned pt hMem => ?_⟩
  · have hRun := Machine.path_guarded_or_left (m := machine maxThreads) (I := Orderliness)
      (B := Doomed) (g := Orderly)
      (fun s a hs hEn hOrder => orderliness_apply hEn.2 hs hOrder)
      (fun s a hs hEn hOrder => doomed_of_not_orderly hEn.2 hs hOrder)
      (fun s a hs hEn => doomed_apply hEn.1 hEn.2 hs) acts .start
      ⟨base_start, rfl, fun hNow => by cases hNow⟩ hPath
    rcases hRun with ⟨hOrderly, -, hAlive, hAfter⟩ | ⟨hNot, hDoomed⟩
    · exact iff_of_true ((hAfter hTaken).stopped hAlive) hOrderly
    · exact iff_of_false hDoomed.not_stopped hNot
  · have hJoined : pt ∈ ((machine maxThreads).exec .start acts).joined := by
      refine (hStopped.covered pt hMem).resolve_right fun hLeft => ?_
      rw [hReturned] at hLeft
      cases hLeft
    exact ⟨hJoined, hBase.ended pt hJoined⟩

/-- One event on one thread, and `deinit` when it has been handled. -/
def quietEnd : List Action :=
  [.listenToEvent 0, .choose 0, .create 0 7, .push 0, .signal 0, .getDeque 7, .check 7, .pop 7,
   .busy 7, .finish 7, .release 7, .check 7, .pop 7, .deinit, .deinit, .deinit, .deinit, .deinit,
   .deinit, .pop 7, .deinit, .deinit]

theorem quietEnd_stops :
    Stopped ((machine 1).exec .start quietEnd) ∧
      ∀ pt ∈ ((machine 1).exec .start quietEnd).mVector,
        pt ∈ ((machine 1).exec .start quietEnd).joined ∧
          (((machine 1).exec .start quietEnd).worker pt).phase = .returned :=
  have h := @shutdown_iff 1 quietEnd (by decide +kernel) (by decide +kernel)
  have hStopped := h.1.2 (by decide +kernel)
  ⟨hStopped, h.2 hStopped (by decide +kernel)⟩

/-- One event on one thread, and `deinit` while it is in its handler. -/
def busyEnd : List Action :=
  [.listenToEvent 0, .choose 0, .create 0 7, .push 0, .signal 0, .getDeque 7, .check 7, .pop 7,
   .busy 7, .deinit, .deinit]

/-- `deinit` has returned, with the handler running and nobody joined. -/
theorem busyEnd_runs :
    ¬ ∀ s, (machine 1).Reachable s → s.deinit = .returned →
      ∀ pt ∈ s.mVector, pt ∈ s.joined ∧ (∀ e, (s.worker pt).phase ≠ .busy e) := by
  intro h
  obtain ⟨hJoined, -⟩ := h ((machine 1).exec .start busyEnd)
    ⟨.start, busyEnd, rfl, by decide +kernel, rfl⟩ (by decide +kernel) 7 (by decide +kernel)
  revert hJoined
  decide +kernel

end Megatron.ListenerBuffered
