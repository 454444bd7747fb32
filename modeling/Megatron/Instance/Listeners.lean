import Megatron.Listener.Delivery

/-!
# What the instance sees of a listener

The instance gives a service its events by `listenToEvent`.  A `ListenerSimple`
handles them on the thread that calls; a `ListenerBuffered1Thread` has a deque
and a thread of its own; a `ListenerBuffered` has several of both.

Calls of `listenToEvent` on one object are numbered, and the one of
`initService` is the first.  `Kind` is what the instance sees of them: where a
call is, whether its event has been accepted, and which handlers have begun.

## Main results

* `Listener.first` — where no call gets on before `startService` has been
  accepted, its handler is the first; it comes with each of the three.
* `ListenerBuffered.leads_apply` — why this holds with several threads.
-/

namespace Megatron.CInstance

open Megatron.Lib

/-- A call of `listenToEvent`, and the event it has got. -/
abbrev Ev := Nat

/-- The event `initService` sends. -/
def startService : Ev := 0

/-- Where a call of `listenToEvent` is. -/
inductive Progress
  | before
  | inside
  /-- in a handler, on the thread that calls -/
  | handling
  | returned
  | threw
  deriving DecidableEq

/-- A kind of listener.  `caller` is the call that makes the step, if it is one;
`accepted` is an event that is in a deque, or in its handler; `begun` are the
events whose handlers have been entered. -/
structure Kind where
  State : Type
  Action : Type
  start : State
  enabled : State → Action → Prop
  apply : State → Action → State
  caller : Action → Option Ev
  progress : State → Ev → Progress
  accepted : State → Ev → Bool
  begun : State → List Ev
  decidableEnabled : ∀ s a, Decidable (enabled s a)

namespace Kind

variable (k : Kind)

instance (s : k.State) (a : k.Action) : Decidable (k.enabled s a) := k.decidableEnabled s a

def machine : Machine k.State k.Action where
  init s := s = k.start
  enabled := k.enabled
  apply := k.apply

/-- No call gets on before the listener has accepted `startService`. -/
def StartFirst (s : k.State) (a : k.Action) : Prop :=
  ∀ e ∈ k.caller a, e = startService ∨ k.accepted s startService = true

instance (s : k.State) (a : k.Action) : Decidable (k.StartFirst s a) :=
  inferInstanceAs (Decidable (∀ e ∈ k.caller a, _))

end Kind

/-- A listener keeps what it has accepted, accepts what a call returns for, and is
first come, first served, as far as `startService` goes. -/
structure Listener extends Kind where
  stays : ∀ s a e, enabled s a → accepted s e = true → accepted (apply s a) e = true
  returned : ∀ s e, progress s e = .returned → accepted s e = true
  first : ∀ s, (toKind.machine.guarded toKind.StartFirst).Reachable s →
    ∀ e ∈ (begun s).head?, e = startService

/-- What has been called stays so. -/
theorem ne_before_update {call : Ev → Progress} {e : Ev} (e' : Ev) {p : Progress}
    (h : call e ≠ .before) (hp : p ≠ .before) : Function.update call e' p e ≠ .before := by
  rw [Function.update_apply]
  split
  · exact hp
  · exact h

theorem head?_append_of_eq {l : List Ev} {e : Ev} (l' : List Ev) (h : l.head? = some e) :
    (l ++ l').head? = some e := by
  rw [List.head?_append, h, Option.some_or]

/-- What the first call does, as long as it has not been accepted. -/
theorem Kind.StartFirst.eq {k : Kind} {s : k.State} {a : k.Action} (h : k.StartFirst s a)
    (hNot : k.accepted s startService = false) {e : Ev} (hCaller : k.caller a = some e) :
    e = startService :=
  (h e hCaller).resolve_right (by rw [hNot]; exact Bool.false_ne_true)

end Megatron.CInstance

/-! ## On the thread that calls -/

namespace Megatron.ListenerSimple

open Megatron.CInstance Megatron.Lib

structure State where
  call : Ev → Progress
  begun : List Ev

/-- `handleEvent` is called, and it comes back, whatever it throws. -/
inductive Action
  | listenToEvent (e : Ev)
  | finish (e : Ev)

def Enabled (s : State) : Action → Prop
  | .listenToEvent e => s.call e = .before
  | .finish e => s.call e = .handling

instance (s : State) : (a : Action) → Decidable (Enabled s a)
  | .listenToEvent _ => inferInstanceAs (Decidable (_ = _))
  | .finish _ => inferInstanceAs (Decidable (_ = _))

def apply (s : State) : Action → State
  | .listenToEvent e => ⟨Function.update s.call e .handling, s.begun ++ [e]⟩
  | .finish e => ⟨Function.update s.call e .returned, s.begun⟩

def Action.caller : Action → Option Ev
  | .listenToEvent e => some e
  | .finish e => some e

def kind : Kind where
  State := State
  Action := Action
  start := ⟨fun _ => .before, []⟩
  enabled := Enabled
  apply := apply
  caller := Action.caller
  progress s e := s.call e
  accepted s e := decide (s.call e ≠ .before)
  begun s := s.begun
  decidableEnabled _ _ := inferInstance

/-- `startService` has begun, or nothing has happened. -/
def Leads (s : State) : Prop :=
  s.begun.head? = some startService ∨ (s.call startService = .before ∧ s.begun = [])

theorem leads_apply {s : State} {a : Action} (h : Leads s) (hEn : Enabled s a)
    (hFirst : kind.StartFirst s a) : Leads (apply s a) := by
  rcases h with hHead | ⟨hBefore, hNone⟩
  · refine Or.inl ?_
    cases a with
    | listenToEvent e => exact head?_append_of_eq [e] hHead
    | finish e => exact hHead
  · have hNot : kind.accepted s startService = false := decide_eq_false (not_not.2 hBefore)
    cases a with
    | listenToEvent e =>
        obtain rfl : e = startService := hFirst.eq hNot rfl
        refine Or.inl ?_
        rw [apply, hNone]
        rfl
    | finish e =>
        obtain rfl : e = startService := hFirst.eq hNot rfl
        have hHandling : s.call startService = .handling := hEn
        rw [hBefore] at hHandling
        cases hHandling

def listener : Listener where
  toKind := kind
  stays s a e _ hSome := by
    have hOld : s.call e ≠ .before := of_decide_eq_true hSome
    refine decide_eq_true ?_
    cases a with
    | listenToEvent e' => exact ne_before_update e' hOld Progress.noConfusion
    | finish e' => exact ne_before_update e' hOld Progress.noConfusion
  returned s e hBack := by
    have hBack' : s.call e = .returned := hBack
    exact decide_eq_true (by rw [hBack']; exact Progress.noConfusion)
  first s h := by
    have hLeads : Leads s := Machine.Reachable.invariant
      (m := kind.machine.guarded kind.StartFirst) (I := Leads)
      (fun s hs => by obtain rfl : s = kind.start := hs; exact Or.inr ⟨rfl, rfl⟩)
      (fun s a hs hEn => leads_apply hs hEn.1 hEn.2) h
    intro e hMem
    rcases hLeads with hHead | ⟨-, hNone⟩
    · exact Option.some.inj (hMem.symm.trans hHead)
    · rw [show kind.begun s = [] from hNone] at hMem
      cases hMem

end Megatron.ListenerSimple

/-! ## One thread behind it -/

namespace Megatron.ListenerBuffered1Thread

open Megatron.CInstance Megatron.Lib

/-- `busy` is the event in `handleEvent`. -/
structure State where
  call : Ev → Progress
  mContainer : List Ev
  busy : Option Ev
  begun : List Ev

/-- `pop` is the end of `EventDeque::pop`, with an event. -/
inductive Action
  | listenToEvent (e : Ev)
  | pop
  | finish

def Enabled (s : State) : Action → Prop
  | .listenToEvent e => s.call e = .before
  | .pop => s.busy = none ∧ s.mContainer ≠ []
  | .finish => s.busy.isSome

instance (s : State) : (a : Action) → Decidable (Enabled s a)
  | .listenToEvent _ => inferInstanceAs (Decidable (_ = _))
  | .pop => inferInstanceAs (Decidable (_ ∧ _))
  | .finish => inferInstanceAs (Decidable (_ = true))

def apply (s : State) : Action → State
  | .listenToEvent e =>
      { s with call := Function.update s.call e .returned, mContainer := s.mContainer ++ [e] }
  | .pop =>
      { s with
        mContainer := s.mContainer.tail
        busy := s.mContainer.head?
        begun := s.begun ++ s.mContainer.take 1 }
  | .finish => { s with busy := none }

def Action.caller : Action → Option Ev
  | .listenToEvent e => some e
  | _ => none

def kind : Kind where
  State := State
  Action := Action
  start := ⟨fun _ => .before, [], none, []⟩
  enabled := Enabled
  apply := apply
  caller := Action.caller
  progress s e := s.call e
  accepted s e := decide (s.call e ≠ .before)
  begun s := s.begun
  decidableEnabled _ _ := inferInstance

/-- `startService` is ahead of everything, or nothing has come. -/
def Leads (s : State) : Prop :=
  (s.begun ++ s.mContainer).head? = some startService ∨
    (s.call startService = .before ∧ s.begun ++ s.mContainer = [])

theorem leads_apply {s : State} {a : Action} (h : Leads s) (hFirst : kind.StartFirst s a) :
    Leads (apply s a) := by
  cases a with
  | listenToEvent e =>
      refine Or.inl ?_
      show (s.begun ++ (s.mContainer ++ [e])).head? = _
      rw [← List.append_assoc]
      rcases h with hHead | ⟨hBefore, hNone⟩
      · exact head?_append_of_eq [e] hHead
      · have hNot : kind.accepted s startService = false := decide_eq_false (not_not.2 hBefore)
        obtain rfl : e = startService := hFirst.eq hNot rfl
        rw [hNone]
        rfl
  | pop =>
      have hSame : s.begun ++ s.mContainer.take 1 ++ s.mContainer.tail =
          s.begun ++ s.mContainer := by
        rw [List.append_assoc, ← List.drop_one, List.take_append_drop]
      show _ ∨ _
      rw [show (apply s .pop).begun ++ (apply s .pop).mContainer = _ from hSame]
      exact h
  | finish => exact h

def listener : Listener where
  toKind := kind
  stays s a e _ hSome := by
    have hOld : s.call e ≠ .before := of_decide_eq_true hSome
    refine decide_eq_true ?_
    cases a with
    | listenToEvent e' => exact ne_before_update e' hOld Progress.noConfusion
    | pop => exact hOld
    | finish => exact hOld
  returned s e hBack := by
    have hBack' : s.call e = .returned := hBack
    exact decide_eq_true (by rw [hBack']; exact Progress.noConfusion)
  first s h := by
    have hLeads : Leads s := Machine.Reachable.invariant
      (m := kind.machine.guarded kind.StartFirst) (I := Leads)
      (fun s hs => by obtain rfl : s = kind.start := hs; exact Or.inr ⟨rfl, rfl⟩)
      (fun s a hs hEn => leads_apply hs hEn.2) h
    intro e hMem
    have hSome : s.begun.head? = some e := hMem
    have hHead : (s.begun ++ s.mContainer).head? = some e := head?_append_of_eq _ hSome
    rcases hLeads with hStart | ⟨-, hNone⟩
    · exact Option.some.inj (hHead.symm.trans hStart)
    · rw [hNone] at hHead
      cases hHead

end Megatron.ListenerBuffered1Thread

/-! ## Several threads behind it -/

namespace Megatron.ListenerBuffered

open Megatron.CInstance Megatron.Lib

/-- The handler a step enters. -/
def begins (s : State) : Action → List Ev
  | .busy pt => if pt ∈ s.mContainer then (s.worker pt).phase.got?.toList else []
  | _ => []

def Action.caller : Action → Option Ev
  | .listenToEvent e => some e
  | .choose e => some e
  | .create e _ => some e
  | .createFails e => some e
  | .pick e _ => some e
  | .push e => some e
  | .signal e => some e
  | _ => none

def Call.progress : Call → Progress
  | .idle => .before
  | .returned => .returned
  | .thrown => .threw
  | _ => .inside

/-- Before `deinit`, as far as services go. -/
def kind (maxThreads : Nat) : Kind where
  State := State × List Ev
  Action := Action
  start := (.start, [])
  enabled s a := (machine maxThreads).enabled s.1 a ∧ Before s.1 a
  apply s a := (s.1.apply a, s.2 ++ begins s.1 a)
  caller := Action.caller
  progress s e := (s.1.call e).progress
  accepted s e := (s.1.call e).put
  begun s := s.2
  decidableEnabled _ _ := inferInstance

/-- What a worker that is not in a handler has ahead of it. -/
def Worker.ahead (w : Worker) : List (Option Ev) := w.phase.got?.toList.map some ++ w.container

/-- `startService` has not been accepted, and nothing else has come. -/
structure Quiet (s : State) : Prop where
  idle : ∀ e, e ≠ startService → s.call e = .idle
  unaccepted : (s.call startService).put = false
  away : ∀ q, (s.worker q).phase.away = false
  nothing : ∀ q, (s.worker q).ahead = []
  nobody : (∀ q, s.call startService ≠ .chosen q) → s.mContainer = ∅ ∧ s.mVector = []
  only : ∀ q, s.call startService = .chosen q → ∀ p, p ∈ s.mContainer ↔ p = q

/-- `startService` is ahead of everything at `pt`, and there is nobody else. -/
structure Pending (s : State) (pt : Pt) : Prop where
  away : ∀ q, (s.worker q).phase.away = false
  next : (s.worker pt).ahead.head? = some (some startService)
  nothing : ∀ q, q ≠ pt → (s.worker q).ahead = []
  only : ∀ q, q ∈ s.mContainer ↔ q = pt
  calls : ∀ e, s.call e ≠ .missed ∧ ∀ q, s.call e = .chosen q → q = pt

def Leads (s : State × List Ev) : Prop :=
  s.2.head? = some startService ∨ (s.2 = [] ∧ (Quiet s.1 ∨ ∃ pt, Pending s.1 pt))

variable {maxThreads : Nat} {s : State} {a : Action} {pt : Pt}

theorem Worker.ahead_woken (w : Worker) :
    w.woken.phase.away = w.phase.away ∧ w.woken.ahead = w.ahead := by
  rw [ahead, ahead, w.container_woken]
  rcases w.phase_woken_cases with ⟨hWaits, hPop⟩ | ⟨-, hSame⟩
  · rw [hPop, hWaits]
    exact ⟨rfl, rfl⟩
  · rw [hSame]
    exact ⟨rfl, rfl⟩

/-- A look at the deque takes into the hand what is ahead. -/
theorem Worker.ahead_popped {w : Worker} (hPop : w.phase = .pop)
    (hSome : w.ahead.head? ≠ some none) :
    w.popped.phase.away = false ∧ w.popped.ahead = w.ahead := by
  have hAhead : w.ahead = w.container := by
    rw [ahead, hPop]
    rfl
  rcases w.popped_cases with ⟨-, h⟩ | ⟨-, -, h⟩ | ⟨c, -, hNull, -⟩ | ⟨e, c, -, hDeque, h⟩
  · rw [h, hAhead]
    exact ⟨rfl, rfl⟩
  · rw [h, hAhead]
    exact ⟨rfl, rfl⟩
  · rw [hAhead, hNull] at hSome
    exact absurd rfl hSome
  · rw [h, hAhead, hDeque]
    exact ⟨rfl, rfl⟩

/-- A worker that is replaced by one with the same ahead of it. -/
theorem ahead_setWorker (s' : State) {p : Pt} {w : Worker}
    (hWorker : s'.worker = (s.setWorker p w).worker)
    (hAway : ∀ q, (s.worker q).phase.away = false)
    (hSelf : w.phase.away = false ∧ w.ahead = (s.worker p).ahead) (q : Pt) :
    (s'.worker q).phase.away = false ∧ (s'.worker q).ahead = (s.worker q).ahead := by
  rw [hWorker]
  by_cases hq : q = p
  · subst hq
    rw [worker_setWorker]
    exact hSelf
  · rw [worker_setWorker_of_ne s hq]
    exact ⟨hAway q, rfl⟩

/-- Where nobody is in a handler or goes into one, the steps of the workers
change nothing of what is ahead. -/
theorem ahead_apply (hEn : s.Enabled maxThreads a) (hBefore : Before s a)
    (hCaller : a.caller = none) (hBusy : ∀ p, a ≠ .busy p)
    (hAway : ∀ q, (s.worker q).phase.away = false)
    (hSome : ∀ q, (s.worker q).ahead.head? ≠ some none) :
    (s.apply a).call = s.call ∧ (s.apply a).mContainer = s.mContainer ∧
      (s.apply a).mVector = s.mVector ∧
      ∀ q, ((s.apply a).worker q).phase.away = false ∧
        ((s.apply a).worker q).ahead = (s.worker q).ahead := by
  cases a with
  | getDeque p =>
      have hPhase : (s.worker p).phase = .polling := hEn
      rw [State.apply, State.getDeque]
      split
      · refine ⟨rfl, rfl, rfl, ahead_setWorker _ rfl hAway ⟨rfl, ?_⟩⟩
        rw [Worker.ahead, Worker.ahead, hPhase]
        rfl
      · exact ⟨rfl, rfl, rfl, fun q => ⟨hAway q, rfl⟩⟩
  | check p =>
      have hPhase : (s.worker p).phase = .top := hEn
      refine ⟨rfl, rfl, rfl, ahead_setWorker _ rfl hAway ?_⟩
      rw [Worker.ahead, Worker.ahead, hPhase]
      split <;> exact ⟨rfl, rfl⟩
  | pop p =>
      exact ⟨rfl, rfl, rfl, ahead_setWorker _ rfl hAway (Worker.ahead_popped hEn (hSome p))⟩
  | wake p =>
      obtain ⟨hSame, hAhead⟩ := (s.worker p).ahead_woken
      exact ⟨rfl, rfl, rfl, ahead_setWorker _ rfl hAway ⟨hSame.trans (hAway p), hAhead⟩⟩
  | finish p =>
      obtain ⟨e, hPhase⟩ := Phase.eq_busy hEn
      have hNot := hAway p
      rw [hPhase] at hNot
      cases hNot
  | release p =>
      have hPhase : (s.worker p).phase = .ending := hEn
      have hNot := hAway p
      rw [hPhase] at hNot
      cases hNot
  | busy p => exact absurd rfl (hBusy p)
  | deinit => exact absurd rfl hBefore
  | _ => cases hCaller

/-- The first call goes on without a worker. -/
theorem Quiet.setCall (h : Quiet s) (hNobody : ∀ q, s.call startService ≠ .chosen q) {c : Call}
    (hPut : c.put = false) (hChosen : ∀ q, c ≠ .chosen q) : Quiet (s.setCall startService c) where
  idle e he := by
    rw [call_setCall_of_ne s he]
    exact h.idle e he
  unaccepted := by
    rw [call_setCall]
    exact hPut
  away := h.away
  nothing := h.nothing
  nobody _ := h.nobody hNobody
  only q hq := by
    rw [call_setCall] at hq
    exact absurd hq (hChosen q)

theorem call_create (s : State) (e : Ev) (p : Pt) :
    (s.create e p).call = (s.setCall e (.chosen p)).call := rfl

/-- The first call makes the first worker. -/
theorem quiet_create (h : Quiet s) (hMissed : s.call startService = .missed) (p : Pt) :
    Quiet (s.create startService p) := by
  have hWorkers := ahead_setWorker (s.create startService p) rfl h.away
    (w := ⟨.polling, [], false⟩) ⟨rfl, (h.nothing p).symm⟩
  obtain ⟨hEmpty, -⟩ := h.nobody fun q => by rw [hMissed]; exact Call.noConfusion
  constructor
  case idle =>
    intro e he
    rw [call_create, call_setCall_of_ne s he]
    exact h.idle e he
  case unaccepted =>
    rw [call_create, call_setCall]
    rfl
  case away => exact fun q => (hWorkers q).1
  case nothing => exact fun q => (hWorkers q).2.trans (h.nothing q)
  case nobody =>
    intro hNot
    rw [call_create, call_setCall] at hNot
    exact absurd rfl (hNot p)
  case only =>
    intro q hq p'
    rw [call_create, call_setCall] at hq
    obtain rfl := Call.chosen.inj hq
    show p' ∈ s.mContainer.insert p ↔ _
    rw [OrdSet.mem_insert, hEmpty]
    exact or_iff_left (OrdSet.notMem_empty p')

theorem push_chosen {e : Ev} {q : Pt} (h : s.call e = .chosen q) :
    (s.push e).call = (s.setCall e (.pushed q)).call ∧
      (s.push e).worker = (s.setWorker q { s.worker q with
        container := (s.worker q).container ++ [some e] }).worker ∧
      (s.push e).mContainer = s.mContainer := by
  rw [State.push, h]
  exact ⟨rfl, rfl, rfl⟩

/-- What is pushed comes last. -/
theorem ahead_push {e : Ev} {q : Pt} (h : s.call e = .chosen q) (p : Pt) :
    ((s.push e).worker p).phase = (s.worker p).phase ∧
      ((s.push e).worker p).ahead = (s.worker p).ahead ++ (if p = q then [some e] else []) := by
  rw [(push_chosen h).2.1]
  by_cases hp : p = q
  · subst hp
    rw [worker_setWorker, if_pos rfl, Worker.ahead, Worker.ahead, List.append_assoc]
    exact ⟨rfl, rfl⟩
  · rw [worker_setWorker_of_ne s hp, if_neg hp, List.append_nil]
    exact ⟨rfl, rfl⟩

/-- The first event gets to the first worker. -/
theorem pending_push (h : Quiet s) {q : Pt} (hChosen : s.call startService = .chosen q) :
    Pending (s.push startService) q := by
  constructor
  case away =>
    intro p
    rw [(ahead_push hChosen p).1]
    exact h.away p
  case next =>
    rw [(ahead_push hChosen q).2, h.nothing q, if_pos rfl]
    rfl
  case nothing =>
    intro p hp
    rw [(ahead_push hChosen p).2, h.nothing p, if_neg hp]
    rfl
  case only =>
    rw [(push_chosen hChosen).2.2]
    exact h.only q hChosen
  case calls =>
    intro e
    rw [(push_chosen hChosen).1]
    by_cases he : e = startService
    · subst he
      rw [call_setCall]
      exact ⟨Call.noConfusion, fun _ hNot => by cases hNot⟩
    · rw [call_setCall_of_ne s he, h.idle e he]
      exact ⟨Call.noConfusion, fun _ hNot => by cases hNot⟩

/-- Nothing has come yet: the workers go round, and the first call is on its
way. -/
theorem quiet_apply (h : Quiet s) (hEn : s.Enabled maxThreads a) (hBefore : Before s a)
    (hFirst : ∀ e, a.caller = some e → e = startService) :
    begins s a = [] ∧ (Quiet (s.apply a) ∨ ∃ pt, Pending (s.apply a) pt) := by
  cases hCaller : a.caller with
  | none =>
      have hBusy : ∀ p, a ≠ .busy p := by
        rintro p rfl
        obtain ⟨e, hGot⟩ := Phase.eq_got hEn
        have hNone := h.nothing p
        rw [Worker.ahead, hGot] at hNone
        cases hNone
      obtain ⟨hCall, hContainer, hVector, hWorkers⟩ := ahead_apply hEn hBefore hCaller hBusy h.away
        (fun q hSome => by rw [h.nothing q] at hSome; cases hSome)
      refine ⟨?_, Or.inl ⟨?_, ?_, fun q => (hWorkers q).1, fun q => ?_, ?_, ?_⟩⟩
      · cases a with
        | busy p => exact absurd rfl (hBusy p)
        | _ => rfl
      · rw [hCall]
        exact h.idle
      · rw [hCall]
        exact h.unaccepted
      · rw [(hWorkers q).2, h.nothing q]
      · rw [hCall, hContainer, hVector]
        exact h.nobody
      · rw [hCall, hContainer]
        exact h.only
  | some e =>
      obtain rfl := hFirst e hCaller
      cases a with
      | listenToEvent e =>
          obtain rfl := Option.some.inj hCaller
          have hIdle : s.call startService = .idle := hEn
          exact ⟨rfl, Or.inl (h.setCall (fun q => by rw [hIdle]; exact Call.noConfusion) rfl
            fun q => Call.noConfusion)⟩
      | choose e =>
          obtain rfl := Option.some.inj hCaller
          have hEntered : s.call startService = .entered := hEn
          have hNobody : ∀ q, s.call startService ≠ .chosen q := fun q => by
            rw [hEntered]
            exact Call.noConfusion
          refine ⟨rfl, Or.inl ?_⟩
          rw [State.apply, State.choose, (h.nobody hNobody).1]
          exact h.setCall hNobody rfl fun q => Call.noConfusion
      | create e p =>
          obtain rfl := Option.some.inj hCaller
          exact ⟨rfl, Or.inl (quiet_create h hEn.1 p)⟩
      | createFails e =>
          obtain rfl := Option.some.inj hCaller
          exact ⟨rfl, Or.inl (h.setCall (fun q => by rw [hEn.1]; exact Call.noConfusion) rfl
            fun q => Call.noConfusion)⟩
      | pick e r =>
          obtain rfl := Option.some.inj hCaller
          have hVector := (h.nobody fun q => by rw [hEn.1]; exact Call.noConfusion).2
          have hPick : s.pick startService r = { s with aborted := true } := by
            rw [State.pick, hVector]
            rfl
          refine ⟨rfl, Or.inl ?_⟩
          rw [State.apply, hPick]
          exact ⟨h.idle, h.unaccepted, h.away, h.nothing, h.nobody, h.only⟩
      | push e =>
          obtain rfl := Option.some.inj hCaller
          obtain ⟨q, hChosen⟩ := Call.eq_chosen hEn
          exact ⟨rfl, Or.inr ⟨q, pending_push h hChosen⟩⟩
      | signal e =>
          obtain rfl := Option.some.inj hCaller
          obtain ⟨q, hPushed⟩ := Call.eq_pushed hEn
          have hNot := h.unaccepted
          rw [hPushed] at hNot
          cases hNot
      | _ => cases hCaller

/-- A call that goes on, but not to a worker of its own. -/
theorem Pending.setCall (h : Pending s pt) {e : Ev} {c : Call} (hMissed : c ≠ .missed)
    (hChosen : ∀ q, c = .chosen q → q = pt) : Pending (s.setCall e c) pt where
  away := h.away
  next := h.next
  nothing := h.nothing
  only := h.only
  calls e' := by
    by_cases he : e' = e
    · subst he
      rw [call_setCall]
      exact ⟨hMissed, hChosen⟩
    · rw [call_setCall_of_ne s he]
      exact h.calls e'

/-- `startService` is ahead of everything: whoever enters a handler enters its
handler. -/
theorem pending_apply (h : Pending s pt) (hEn : s.Enabled maxThreads a) (hBefore : Before s a) :
    (begins s a = [] ∧ Pending (s.apply a) pt) ∨ begins s a = [startService] := by
  cases hCaller : a.caller with
  | none =>
      by_cases hBusy : ∃ p, a = .busy p
      · obtain ⟨p, rfl⟩ := hBusy
        obtain ⟨e, hGot⟩ := Phase.eq_got hEn
        have hAhead : (s.worker p).ahead = some e :: (s.worker p).container := by
          rw [Worker.ahead, hGot]
          rfl
        have hp : p = pt := by
          by_contra hOther
          rw [h.nothing p hOther] at hAhead
          cases hAhead
        subst hp
        have hNext := h.next
        rw [hAhead] at hNext
        obtain rfl : e = startService := by simpa using hNext
        refine Or.inr ?_
        rw [begins, if_pos ((h.only p).2 rfl), hGot]
        rfl
      · have hBusy' : ∀ p, a ≠ .busy p := fun p ha => hBusy ⟨p, ha⟩
        obtain ⟨hCall, hContainer, -, hWorkers⟩ := ahead_apply hEn hBefore hCaller hBusy' h.away
          (fun q hNull => by
            by_cases hq : q = pt
            · rw [hq, h.next] at hNull
              cases hNull
            · rw [h.nothing q hq] at hNull
              cases hNull)
        refine Or.inl ⟨?_, fun q => (hWorkers q).1, ?_, fun q hq => ?_, ?_, ?_⟩
        · cases a with
          | busy p => exact absurd rfl (hBusy' p)
          | _ => rfl
        · rw [(hWorkers pt).2]
          exact h.next
        · rw [(hWorkers q).2]
          exact h.nothing q hq
        · rw [hContainer]
          exact h.only
        · rw [hCall]
          exact h.calls
  | some e =>
      cases a with
      | listenToEvent e =>
          exact Or.inl ⟨rfl, h.setCall Call.noConfusion fun q hq => by cases hq⟩
      | choose e =>
          refine Or.inl ⟨rfl, ?_⟩
          rw [State.apply, State.choose]
          split
          · rename_i p hSome
            refine h.setCall Call.noConfusion fun q hq => ?_
            rw [← Call.chosen.inj hq]
            exact (h.only p).1 (OrdSet.mem_of_first? hSome)
          · rename_i hNone
            have hEmpty := OrdSet.first?_eq_none.1 hNone
            have hMem := (h.only pt).2 rfl
            rw [hEmpty] at hMem
            exact absurd hMem (OrdSet.notMem_empty pt)
      | create e p => exact absurd hEn.1 (h.calls e).1
      | createFails e => exact absurd hEn.1 (h.calls e).1
      | pick e r => exact absurd hEn.1 (h.calls e).1
      | push e =>
          obtain ⟨q, hChosen⟩ := Call.eq_chosen hEn
          obtain rfl := (h.calls e).2 q hChosen
          refine Or.inl ⟨rfl, fun p => ?_, ?_, fun p hp => ?_, ?_, ?_⟩
          · rw [State.apply, (ahead_push hChosen p).1]
            exact h.away p
          · rw [State.apply, (ahead_push hChosen q).2, List.head?_append, h.next]
            rfl
          · rw [State.apply, (ahead_push hChosen p).2, h.nothing p hp, if_neg hp]
            rfl
          · rw [State.apply, (push_chosen hChosen).2.2]
            exact h.only
          · rw [State.apply, (push_chosen hChosen).1]
            exact (h.setCall Call.noConfusion fun _ hNot => by cases hNot).calls
      | signal e =>
          obtain ⟨q, hPushed⟩ := Call.eq_pushed hEn
          refine Or.inl ⟨rfl, ?_⟩
          rw [State.apply, State.signal, hPushed]
          obtain ⟨hSame, hAhead⟩ := (s.worker q).ahead_woken
          have hWorkers := ahead_setWorker (s.setWorker q (s.worker q).woken) rfl h.away
            ⟨hSame.trans (h.away q), hAhead⟩
          have hWoken : Pending (s.setWorker q (s.worker q).woken) pt :=
            ⟨fun p => (hWorkers p).1, by rw [(hWorkers pt).2]; exact h.next,
              fun p hp => by rw [(hWorkers p).2]; exact h.nothing p hp, h.only, h.calls⟩
          exact hWoken.setCall Call.noConfusion fun _ hNot => by cases hNot
      | _ => cases hCaller

theorem leads_apply {s : State × List Ev} (h : Leads s) (hEn : (kind maxThreads).enabled s a)
    (hFirst : (kind maxThreads).StartFirst s a) : Leads ((kind maxThreads).apply s a) := by
  obtain ⟨s, begun⟩ := s
  obtain ⟨⟨-, hEn⟩, hBefore⟩ := hEn
  rcases h with hHead | ⟨hNone, hQuiet | ⟨pt, hPending⟩⟩
  · exact Or.inl (head?_append_of_eq _ hHead)
  · obtain ⟨hBegins, hNext⟩ := quiet_apply hQuiet hEn hBefore fun e hCaller =>
      hFirst.eq hQuiet.unaccepted hCaller
    refine Or.inr ⟨?_, hNext⟩
    show begun ++ begins s a = []
    rw [hBegins, show begun = [] from hNone]
    rfl
  · rcases pending_apply hPending hEn hBefore with ⟨hBegins, hNext⟩ | hBegins
    · refine Or.inr ⟨?_, Or.inr ⟨pt, hNext⟩⟩
      show begun ++ begins s a = []
      rw [hBegins, show begun = [] from hNone]
      rfl
    · refine Or.inl ?_
      show (begun ++ begins s a).head? = some startService
      rw [hBegins, show begun = [] from hNone]
      rfl

theorem quiet_start : Quiet .start where
  idle _ _ := rfl
  unaccepted := rfl
  away _ := rfl
  nothing _ := rfl
  nobody _ := ⟨rfl, rfl⟩
  only _ h := by cases h

/-- A call that has not put its event leaves those that have. -/
theorem put_setCall {s : State} {e e' : Ev} (h : (s.call e).put = true) {c : Call}
    (hNot : (s.call e').put = false ∨ c.put = true) : ((s.setCall e' c).call e).put = true := by
  by_cases he : e = e'
  · subst he
    rw [call_setCall]
    rcases hNot with hNot | hPut
    · rw [h] at hNot
      cases hNot
    · exact hPut
  · rw [call_setCall_of_ne s he]
    exact h

theorem put_apply {e : Ev} (hEn : s.Enabled maxThreads a) (h : (s.call e).put = true) :
    ((s.apply a).call e).put = true := by
  cases a with
  | listenToEvent e' =>
      have hIdle : s.call e' = .idle := hEn
      exact put_setCall h (Or.inl (by rw [hIdle]; rfl))
  | choose e' =>
      have hEntered : s.call e' = .entered := hEn
      rw [State.apply, State.choose]
      split <;> exact put_setCall h (Or.inl (by rw [hEntered]; rfl))
  | create e' p =>
      rw [State.apply, call_create]
      exact put_setCall h (Or.inl (by rw [hEn.1]; rfl))
  | createFails e' => exact put_setCall h (Or.inl (by rw [hEn.1]; rfl))
  | pick e' r =>
      rw [State.apply, State.pick]
      split
      · exact put_setCall h (Or.inl (by rw [hEn.1]; rfl))
      · exact h
  | push e' =>
      obtain ⟨q, hChosen⟩ := Call.eq_chosen hEn
      rw [State.apply, (push_chosen hChosen).1]
      exact put_setCall h (Or.inr rfl)
  | signal e' =>
      obtain ⟨q, hPushed⟩ := Call.eq_pushed hEn
      rw [State.apply, State.signal, hPushed]
      exact put_setCall (s := s.setWorker q (s.worker q).woken) h (Or.inr rfl)
  | getDeque p =>
      rw [State.apply, State.getDeque]
      split <;> exact h
  | busy p =>
      rw [State.apply, State.busy]
      split
      · split <;> exact h
      · exact h
  | finish p =>
      rw [State.apply, State.finish]
      split <;> exact h
  | deinit =>
      rw [State.apply, State.deinitStep]
      split <;> exact h
  | _ => exact h

def listener (maxThreads : Nat) : Listener where
  toKind := kind maxThreads
  stays s a e hEn hSome := put_apply hEn.1.2 hSome
  returned s e hBack := by
    show (s.1.call e).put = true
    have hProgress : (s.1.call e).progress = .returned := hBack
    cases hCall : s.1.call e with
    | returned => rfl
    | _ =>
        rw [hCall] at hProgress
        cases hProgress
  first s h := by
    have hLeads : Leads s := Machine.Reachable.invariant
      (m := (kind maxThreads).machine.guarded (kind maxThreads).StartFirst) (I := Leads)
      (fun s hs => by
        obtain rfl : s = (kind maxThreads).start := hs
        exact Or.inr ⟨rfl, Or.inl quiet_start⟩)
      (fun s a hs hEn => leads_apply hs hEn.1 hEn.2) h
    intro e hMem
    rcases hLeads with hHead | ⟨hNone, -⟩
    · exact Option.some.inj (hMem.symm.trans hHead)
    · rw [show (kind maxThreads).begun s = [] from hNone] at hMem
      cases hMem

end Megatron.ListenerBuffered
