import Megatron.Lib.Machine
import Megatron.Lib.OrdSet

/-!
# The buffered listener

`ListenerBuffered` serves its events on several threads.  Each worker has a
deque of its own; `m_container` has those that are not in a handler, `m_vector`
all of them.  An event goes to the first of the container, to a new worker
where the container is empty, or to any worker where there are as many as there
may be.  While a worker is in a handler it is out of the container: `st_busy`
takes it out and puts it back.

A thread and its deque go by the thread's `pthread_t`, a call of
`listenToEvent` and its event by one number.  An `Action` is one critical
section, one read of a flag, or the end of a handler, of one thread; the others
can act between any two.  `deinit` sets `m_isTerminating` of a deque without its
mutex, but only once there is a `NULL` in it: a worker inside `pop` at that time
has either read the flag or found something.

`CommonError` is not an `std::exception`.  `worker` catches the latter only, so
a worker that `st_busy` does not find in the container ends the process.

## Main results

* `Worker.popped_cases`, `Worker.phase_woken_cases` — a look at the deque, and a
  signal.
* `machine` — the listener, its workers, its callers and `deinit`, in any order.
-/

namespace Megatron.ListenerBuffered

open Megatron.Lib

/-- `pthread_t`. -/
abbrev Pt := Nat

/-- A call of `listenToEvent`, and the event it has got. -/
abbrev Ev := Nat

/-- Where a worker is. -/
inductive Phase
  | unborn
  /-- in the loop that waits for `getDeque` -/
  | polling
  /-- before the test of `m_isTerminating_lb` -/
  | top
  /-- in `pop`, with the mutex to get -/
  | pop
  /-- in `m_cond.wait()` -/
  | waiting
  /-- before `st_busy` -/
  | got (e : Ev)
  /-- in `processEvent` -/
  | busy (e : Ev)
  /-- before `~st_busy` -/
  | ending
  | returned
  deriving DecidableEq

/-- The event behind `pop`. -/
def Phase.got? : Phase → Option Ev
  | .got e => some e
  | _ => none

/-- The event in the handler. -/
def Phase.busy? : Phase → Option Ev
  | .busy e => some e
  | _ => none

/-- A worker, with the `container` and the `m_isTerminating` of its
`EventDeque`; `none` is `NULL`. -/
structure Worker where
  phase : Phase
  container : List (Option Ev)
  terminating : Bool
  deriving DecidableEq

/-- Where a call of `listenToEvent` is; `missed` is behind an empty
container. -/
inductive Call
  | idle
  | entered
  | missed
  | chosen (pt : Pt)
  | pushed (pt : Pt)
  | returned
  | thrown
  deriving DecidableEq

/-- The thread to push to. -/
def Call.chosen? : Call → Option Pt
  | .chosen pt => some pt
  | _ => none

/-- The thread to signal. -/
def Call.pushed? : Call → Option Pt
  | .pushed pt => some pt
  | _ => none

/-- Where `deinit` is with one worker; `broadcast` is that of
`EventDeque::deinit` and the one behind it. -/
inductive Stage
  | clear
  | push
  | signal
  | terminate
  | broadcast
  | join
  deriving DecidableEq

/-- Where `deinit` is: with `pt`, and with `rest` to go. -/
inductive Deinit
  | notCalled
  | flagged
  | walking (stage : Stage) (pt : Pt) (rest : List Pt)
  | returned
  deriving DecidableEq

/-- The thread to join. -/
def Deinit.awaited : Deinit → Option Pt
  | .walking .join pt _ => some pt
  | _ => none

/-- The listener, its threads and its callers.  `put` and `handled` are
histories, `joined` the threads `pthread_join` has returned for; `aborted` is
an exception nobody catches. -/
structure State where
  mContainer : OrdSet Pt
  mVector : List Pt
  terminating : Bool
  worker : Pt → Worker
  call : Ev → Call
  deinit : Deinit
  joined : List Pt
  put : List (Ev × Pt)
  handled : List (Ev × Pt)
  aborted : Bool

/-- `r` is what `rrand()` returns, as a `size_t`.  A handler returns or throws
a `CommonError` or an `std::exception`. -/
inductive Action
  | listenToEvent (e : Ev)
  | choose (e : Ev)
  | create (e : Ev) (pt : Pt)
  | createFails (e : Ev)
  | pick (e : Ev) (r : Nat)
  | push (e : Ev)
  | signal (e : Ev)
  | getDeque (pt : Pt)
  | check (pt : Pt)
  | pop (pt : Pt)
  | wake (pt : Pt)
  | busy (pt : Pt)
  | finish (pt : Pt)
  | release (pt : Pt)
  | deinit
  deriving DecidableEq

namespace Worker

def unborn : Worker := ⟨.unborn, [], false⟩

/-- A signal, or a broadcast: it is for whoever waits at the time. -/
def woken (w : Worker) : Worker := if w.phase = .waiting then { w with phase := .pop } else w

/-- `EventDeque::pop` with the mutex, up to the wait or to the end. -/
def popped (w : Worker) : Worker :=
  if w.terminating then { w with phase := .returned }
  else
    match w.container with
    | [] => { w with phase := .waiting }
    | none :: c => { w with phase := .returned, container := c }
    | some e :: c => { w with phase := .got e, container := c }

end Worker

namespace State

def start : State where
  mContainer := ∅
  mVector := []
  terminating := false
  worker _ := .unborn
  call _ := .idle
  deinit := .notCalled
  joined := []
  put := []
  handled := []
  aborted := false

/-! ## The steps -/

def setWorker (s : State) (pt : Pt) (w : Worker) : State :=
  { s with worker := Function.update s.worker pt w }

def setPhase (s : State) (pt : Pt) (phase : Phase) : State :=
  s.setWorker pt { s.worker pt with phase := phase }

def setCall (s : State) (e : Ev) (c : Call) : State :=
  { s with call := Function.update s.call e c }

/-- The first critical section of `listenToEvent`. -/
def choose (s : State) (e : Ev) : State :=
  match s.mContainer.first? with
  | some pt => s.setCall e (.chosen pt)
  | none => s.setCall e .missed

/-- The second one, where it creates a thread. -/
def create (s : State) (e : Ev) (pt : Pt) : State :=
  { (s.setWorker pt ⟨.polling, [], false⟩).setCall e (.chosen pt) with
    mContainer := s.mContainer.insert pt
    mVector := s.mVector ++ [pt] }

/-- The second one, where it takes any; `% 0` is a trap. -/
def pick (s : State) (e : Ev) (r : Nat) : State :=
  match s.mVector[r % s.mVector.length]? with
  | some pt => s.setCall e (.chosen pt)
  | none => { s with aborted := true }

/-- `container.push_back(e)`. -/
def push (s : State) (e : Ev) : State :=
  match s.call e with
  | .chosen pt =>
      { (s.setWorker pt { s.worker pt with container := (s.worker pt).container ++ [some e] }).setCall
          e (.pushed pt) with
        put := s.put ++ [(e, pt)] }
  | _ => s

/-- `m_cond.signal()`. -/
def signal (s : State) (e : Ev) : State :=
  match s.call e with
  | .pushed pt => (s.setWorker pt (s.worker pt).woken).setCall e .returned
  | _ => s

def getDeque (s : State) (pt : Pt) : State :=
  if pt ∈ s.mContainer then s.setPhase pt .top else s

def check (s : State) (pt : Pt) : State :=
  s.setPhase pt (if s.terminating then .returned else .pop)

/-- `st_busy::st_busy`. -/
def busy (s : State) (pt : Pt) : State :=
  match (s.worker pt).phase with
  | .got e =>
      if pt ∈ s.mContainer then
        { s.setPhase pt (.busy e) with mContainer := s.mContainer.erase pt }
      else { s with aborted := true }
  | _ => s

/-- The end of `processEvent`. -/
def finish (s : State) (pt : Pt) : State :=
  match (s.worker pt).phase with
  | .busy e => { s.setPhase pt .ending with handled := s.handled ++ [(e, pt)] }
  | _ => s

/-- `st_busy::~st_busy`. -/
def release (s : State) (pt : Pt) : State :=
  { s.setPhase pt .top with mContainer := s.mContainer.insert pt }

/-- The loop of `deinit` over `m_evts`. -/
def walk : List Pt → Deinit
  | [] => .returned
  | pt :: rest => .walking .clear pt rest

/-- The next step of `deinit`. -/
def deinitStep (s : State) : State :=
  match s.deinit with
  | .notCalled => { s with terminating := true, deinit := .flagged }
  | .flagged => { s with mContainer := ∅, deinit := walk s.mContainer.toList }
  | .walking .clear pt rest =>
      { s.setWorker pt { (s.worker pt).woken with container := [] } with
        deinit := .walking .push pt rest }
  | .walking .push pt rest =>
      { s.setWorker pt { s.worker pt with container := (s.worker pt).container ++ [none] } with
        deinit := .walking .signal pt rest }
  | .walking .signal pt rest =>
      { s.setWorker pt (s.worker pt).woken with deinit := .walking .terminate pt rest }
  | .walking .terminate pt rest =>
      { s.setWorker pt { s.worker pt with terminating := true } with
        deinit := .walking .broadcast pt rest }
  | .walking .broadcast pt rest =>
      { s.setWorker pt (s.worker pt).woken with deinit := .walking .join pt rest }
  | .walking .join pt rest => { s with joined := s.joined ++ [pt], deinit := walk rest }
  | .returned => s

def apply (s : State) : Action → State
  | .listenToEvent e => s.setCall e .entered
  | .choose e => s.choose e
  | .create e pt => s.create e pt
  | .createFails e => s.setCall e .thrown
  | .pick e r => s.pick e r
  | .push e => s.push e
  | .signal e => s.signal e
  | .getDeque pt => s.getDeque pt
  | .check pt => s.check pt
  | .pop pt => s.setWorker pt (s.worker pt).popped
  | .wake pt => s.setWorker pt (s.worker pt).woken
  | .busy pt => s.busy pt
  | .finish pt => s.finish pt
  | .release pt => s.release pt
  | .deinit => s.deinitStep

/-- `deinit` goes on unless it waits for a worker that has not returned. -/
def Goes (s : State) : Prop :=
  s.deinit ≠ .returned ∧ ∀ pt ∈ s.deinit.awaited, (s.worker pt).phase = .returned

instance (s : State) : Decidable s.Goes := inferInstanceAs (Decidable (_ ∧ _))

def Enabled (maxThreads : Nat) (s : State) : Action → Prop
  | .listenToEvent e => s.call e = .idle
  | .choose e => s.call e = .entered
  | .create e pt => s.call e = .missed ∧ s.mVector.length < maxThreads ∧ pt ∉ s.mVector
  | .createFails e => s.call e = .missed ∧ s.mVector.length < maxThreads
  | .pick e _ => s.call e = .missed ∧ maxThreads ≤ s.mVector.length
  | .push e => (s.call e).chosen?.isSome
  | .signal e => (s.call e).pushed?.isSome
  | .getDeque pt => (s.worker pt).phase = .polling
  | .check pt => (s.worker pt).phase = .top
  | .pop pt => (s.worker pt).phase = .pop
  | .wake pt => (s.worker pt).phase = .waiting
  | .busy pt => (s.worker pt).phase.got?.isSome
  | .finish pt => (s.worker pt).phase.busy?.isSome
  | .release pt => (s.worker pt).phase = .ending
  | .deinit => s.Goes

instance (maxThreads : Nat) (s : State) : (a : Action) → Decidable (s.Enabled maxThreads a)
  | .listenToEvent _ => inferInstanceAs (Decidable (_ = _))
  | .choose _ => inferInstanceAs (Decidable (_ = _))
  | .create _ _ => inferInstanceAs (Decidable (_ ∧ _ ∧ _))
  | .createFails _ => inferInstanceAs (Decidable (_ ∧ _))
  | .pick _ _ => inferInstanceAs (Decidable (_ ∧ _))
  | .push _ => inferInstanceAs (Decidable (_ = true))
  | .signal _ => inferInstanceAs (Decidable (_ = true))
  | .getDeque _ => inferInstanceAs (Decidable (_ = _))
  | .check _ => inferInstanceAs (Decidable (_ = _))
  | .pop _ => inferInstanceAs (Decidable (_ = _))
  | .wake _ => inferInstanceAs (Decidable (_ = _))
  | .busy _ => inferInstanceAs (Decidable (_ = true))
  | .finish _ => inferInstanceAs (Decidable (_ = true))
  | .release _ => inferInstanceAs (Decidable (_ = _))
  | .deinit => inferInstanceAs (Decidable (State.Goes s))

end State

/-- The listener with `MaxThreadsCount`; nothing goes on in a process that has
ended. -/
def machine (maxThreads : Nat) : Machine State Action where
  init s := s = .start
  enabled s a := s.aborted = false ∧ s.Enabled maxThreads a
  apply := State.apply

instance (maxThreads : Nat) (s : State) (a : Action) :
    Decidable ((machine maxThreads).enabled s a) :=
  inferInstanceAs (Decidable (_ ∧ _))

/-! ## What the steps change -/

variable {s : State} {pt pt' : Pt} {e e' : Ev}

@[simp] theorem worker_setWorker (s : State) (pt : Pt) (w : Worker) :
    (s.setWorker pt w).worker pt = w := Function.update_self ..

theorem worker_setWorker_of_ne (s : State) {pt pt' : Pt} (h : pt' ≠ pt) (w : Worker) :
    (s.setWorker pt w).worker pt' = s.worker pt' := Function.update_of_ne h ..

@[simp] theorem call_setCall (s : State) (e : Ev) (c : Call) :
    (s.setCall e c).call e = c := Function.update_self ..

theorem call_setCall_of_ne (s : State) {e e' : Ev} (h : e' ≠ e) (c : Call) :
    (s.setCall e c).call e' = s.call e' := Function.update_of_ne h ..

@[simp] theorem Worker.container_woken (w : Worker) : w.woken.container = w.container := by
  rw [Worker.woken]
  split <;> rfl

@[simp] theorem Worker.terminating_woken (w : Worker) : w.woken.terminating = w.terminating := by
  rw [Worker.woken]
  split <;> rfl

theorem Worker.phase_woken_cases (w : Worker) :
    (w.phase = .waiting ∧ w.woken.phase = .pop) ∨
      (w.phase ≠ .waiting ∧ w.woken = w) := by
  rw [Worker.woken]
  split
  · rename_i h
    exact Or.inl ⟨h, rfl⟩
  · rename_i h
    exact Or.inr ⟨h, rfl⟩

/-- Nobody waits after a signal. -/
theorem Worker.phase_woken_ne (w : Worker) : w.woken.phase ≠ .waiting := by
  rcases w.phase_woken_cases with ⟨-, h⟩ | ⟨h, hSame⟩
  · rw [h]
    exact Phase.noConfusion
  · rw [hSame]
    exact h

/-- What a look at the deque finds. -/
theorem Worker.popped_cases (w : Worker) :
    (w.terminating = true ∧ w.popped = { w with phase := .returned }) ∨
      (w.terminating = false ∧ w.container = [] ∧ w.popped = { w with phase := .waiting }) ∨
      (∃ c, w.terminating = false ∧ w.container = none :: c ∧
        w.popped = { w with phase := .returned, container := c }) ∨
      ∃ e c, w.terminating = false ∧ w.container = some e :: c ∧
        w.popped = { w with phase := .got e, container := c } := by
  rw [Worker.popped]
  cases hTerm : w.terminating with
  | true => exact Or.inl ⟨rfl, if_pos rfl⟩
  | false =>
      rw [if_neg Bool.false_ne_true]
      cases hDeque : w.container with
      | nil => exact Or.inr (Or.inl ⟨rfl, rfl, rfl⟩)
      | cons c rest =>
          cases c with
          | none => exact Or.inr (Or.inr (Or.inl ⟨rest, rfl, rfl, rfl⟩))
          | some e => exact Or.inr (Or.inr (Or.inr ⟨e, rest, rfl, rfl, rfl⟩))

theorem Phase.eq_got {p : Phase} (h : p.got?.isSome) : ∃ e, p = .got e := by
  cases p with
  | got e => exact ⟨e, rfl⟩
  | _ => cases h

theorem Phase.eq_busy {p : Phase} (h : p.busy?.isSome) : ∃ e, p = .busy e := by
  cases p with
  | busy e => exact ⟨e, rfl⟩
  | _ => cases h

theorem Call.eq_chosen {c : Call} (h : c.chosen?.isSome) : ∃ pt, c = .chosen pt := by
  cases c with
  | chosen pt => exact ⟨pt, rfl⟩
  | _ => cases h

theorem Call.eq_pushed {c : Call} (h : c.pushed?.isSome) : ∃ pt, c = .pushed pt := by
  cases c with
  | pushed pt => exact ⟨pt, rfl⟩
  | _ => cases h

end Megatron.ListenerBuffered
