import Megatron.Lib.Locks
import Megatron.Instance.Services

/-!
# One object for each service

Whoever is between the second look into the container and the entry holds the
mutex of the service, and a service has one mutex.  So nobody else is there,
nothing is entered in between, and what the constructor returns is entered.

## Main results

* `Inv.alone` — one call a service holds its mutex.
* `inv_apply` — what every step keeps.
* `one_object` — one object a service, `startService` once for each, the same
  object for everybody, and entries that stay.
-/

namespace Megatron.CInstance

open Megatron.Lib

section Invariant

variable {Sid : Type} {v : Setup Sid}

def Frame.held (f : Frame Sid) : Option Mx := f.pc.held

/-- The mutexes a thread has taken. -/
def State.heldBy (s : State v) (t : Tid) : List Mx := (s.stack t).filterMap Frame.held

/-- Nothing is entered before the call has entered its object, and that is what
it sends `startService`. -/
def State.At (s : State v) (sid : Sid) : Pc Sid → Prop
  | .constructing _ => s.services sid = none
  | .insert _ u => s.services sid = none ∧ u ∈ s.constructed ∧ u.sid = sid
  | .start _ u => s.services sid = some u ∧ u ∉ s.sent
  | .starting _ u => s.services sid = some u
  | _ => True

/-- What a call relies on: that, and that its mutex is that of its service. -/
def State.Relies (s : State v) (f : Frame Sid) : Prop :=
  (∀ mx ∈ f.pc.mutex?, s.mxInitInProcess f.sid = some mx) ∧ s.At f.sid f.pc

/-- The object a call is about to enter. -/
def Pc.entering : Pc Sid → Option (Obj Sid)
  | .insert _ u => some u
  | _ => none

/-- The mutexes given out so far, each to one service. -/
structure GivenOut (mxs : Sid → Option Mx) (mutexes : Nat) : Prop where
  lt : ∀ sid mx, mxs sid = some mx → mx < mutexes
  apart : ∀ sid sid' mx, mxs sid = some mx → mxs sid' = some mx → sid = sid'

/-- An object that is about to be entered. -/
def State.Entering (s : State v) (u : Obj Sid) : Prop :=
  ∃ t, ∃ f ∈ s.stack t, f.pc.entering = some u

structure Inv (s : State v) : Prop where
  mutexes : GivenOut s.mxInitInProcess s.mutexes
  locks : Exclusive s.holder s.heldBy
  relies : ∀ t, ∀ f ∈ s.stack t, s.Relies f
  entry : ∀ sid u, s.services sid = some u → u.sid = sid ∧ u ∈ s.constructed
  entered : ∀ u ∈ s.constructed, s.services u.sid = some u ∨ s.Entering u
  nodup : (s.constructed.map Obj.sid).Nodup
  sent : ∀ u ∈ s.sent, s.services u.sid = some u
  sent_nodup : s.sent.Nodup
  obtained : ∀ x ∈ s.obtained, s.services x.1 = some x.2

variable {s : State v} {t t' : Tid} {f g : Frame Sid} {rest : List (Frame Sid)} {mx : Mx}

theorem Pc.eq_insert {pc : Pc Sid} {u : Obj Sid} (h : pc.entering = some u) :
    ∃ mx, pc = .insert mx u := by
  cases pc with
  | insert mx u' => exact ⟨mx, by rw [Option.some.inj h]⟩
  | _ => cases h

theorem Pc.eq_load {pc : Pc Sid} (h : pc.loading = true) : ∃ mx pn, pc = .load mx pn := by
  cases pc with
  | load mx pn => exact ⟨mx, pn, rfl⟩
  | _ => cases h

theorem Pc.eq_constructing {pc : Pc Sid} (h : pc.constructs = true) : ∃ mx, pc = .constructing mx := by
  cases pc with
  | constructing mx => exact ⟨mx, rfl⟩
  | _ => cases h

theorem Pc.eq_lock {pc : Pc Sid} (h : pc.wanted.isSome = true) : ∃ mx, pc = .lock mx := by
  cases pc with
  | lock mx => exact ⟨mx, rfl⟩
  | _ => cases h

/-- Where an exception may come from. -/
theorem State.MayThrow.pc (h : State.MayThrow f) :
    (∃ mx pn, f.pc = .load mx pn) ∨ (∃ mx, f.pc = .constructing mx) ∨ ∃ mx, f.pc = .lock mx :=
  h.imp Pc.eq_load (Or.imp Pc.eq_constructing Pc.eq_lock)

theorem Pc.mutex_of_held {pc : Pc Sid} (h : pc.held = some mx) : pc.mutex? = some mx := by
  cases pc with
  | lock mx => cases h
  | _ => exact h

theorem inv_start : Inv (State.start v) where
  mutexes := ⟨fun _ _ h => (by cases h), fun _ _ _ h => (by cases h)⟩
  locks _ _ := rfl
  relies _ _ h := absurd h List.not_mem_nil
  entry _ _ h := by cases h
  entered _ h := absurd h List.not_mem_nil
  nodup := List.nodup_nil
  sent _ h := absurd h List.not_mem_nil
  sent_nodup := List.nodup_nil
  obtained _ h := absurd h List.not_mem_nil

/-- **One call a service.** Nobody else holds the mutex of the service. -/
theorem Inv.alone (h : Inv s) (hTop : s.stack t = f :: rest) (hHeld : f.held = some mx)
    (hMem : g ∈ s.stack t') (hOther : g.held.isSome) (hSid : g.sid = f.sid) :
    t' = t ∧ g ∉ rest := by
  obtain ⟨mx', hOther⟩ := Option.isSome_iff_exists.1 hOther
  have hTopMem : f ∈ s.stack t := hTop ▸ List.mem_cons_self
  have hMutex := (h.relies t f hTopMem).1 mx (Pc.mutex_of_held hHeld)
  have hMutex' := (h.relies t' g hMem).1 mx' (Pc.mutex_of_held hOther)
  rw [hSid, hMutex] at hMutex'
  obtain rfl := Option.some.inj hMutex'
  have hHeldBy : s.heldBy t = mx :: rest.filterMap Frame.held := by
    rw [State.heldBy, hTop, List.filterMap_cons_some hHeld]
  refine ⟨h.locks.unique (List.mem_filterMap.2 ⟨g, hMem, hOther⟩)
    (hHeldBy ▸ List.mem_cons_self), fun hRest => ?_⟩
  exact h.locks.notMem_tail hHeldBy (List.mem_filterMap.2 ⟨g, hRest, hOther⟩)

/-! ## Stacks -/

theorem mem_update {st : Tid → List (Frame Sid)} {fs : List (Frame Sid)}
    (h : g ∈ Function.update st t fs t') : (t' = t ∧ g ∈ fs) ∨ (t' ≠ t ∧ g ∈ st t') := by
  by_cases ht : t' = t
  · subst ht
    rw [Function.update_self] at h
    exact Or.inl ⟨rfl, h⟩
  · rw [Function.update_of_ne ht] at h
    exact Or.inr ⟨ht, h⟩

theorem heldBy_update {s s' : State v} {fs : List (Frame Sid)}
    (hStack : s'.stack = Function.update s.stack t fs) :
    s'.heldBy = Function.update s.heldBy t (fs.filterMap Frame.held) := by
  funext t'
  rw [State.heldBy, hStack]
  by_cases ht : t' = t
  · subst ht
    rw [Function.update_self, Function.update_self]
  · rw [Function.update_of_ne ht, Function.update_of_ne ht, State.heldBy]

/-- A thread in a call. -/
theorem exists_top {fs : List (Frame Sid)} {P : Frame Sid → Prop} (h : ∃ f ∈ fs.head?, P f) :
    ∃ f rest, fs = f :: rest ∧ P f := by
  obtain ⟨f, hHead, hP⟩ := h
  cases fs with
  | nil => cases hHead
  | cons f' rest =>
      obtain rfl := Option.some.inj hHead
      exact ⟨f', rest, rfl, hP⟩

/-- Whoever is about to enter an object still is, unless it is the topmost call
that gets on. -/
theorem State.Entering.turn {u : Obj Sid} (h : s.Entering u) (hTop : s.stack t = f :: rest)
    (hNot : f.pc.entering ≠ some u) {s' : State v} (fs : List (Frame Sid))
    (hStack : s'.stack = Function.update s.stack t (fs ++ rest)) : s'.Entering u := by
  obtain ⟨t', g, hFrame, hPc⟩ := h
  refine ⟨t', g, ?_, hPc⟩
  rw [hStack]
  by_cases ht : t' = t
  · subst ht
    rw [hTop] at hFrame
    rw [Function.update_self]
    rcases List.mem_cons.1 hFrame with rfl | hOld
    · exact absurd hPc hNot
    · exact List.mem_append_right _ hOld
  · rw [Function.update_of_ne ht]
    exact hFrame

/-- What a call relies on stays, where entries are made and objects are sent
`startService` elsewhere. -/
theorem State.Relies.mono (h : s.Relies g) {s' : State v}
    (hMutex : s'.mxInitInProcess = s.mxInitInProcess)
    (hAbsent : g.held.isSome → s.services g.sid = none → s'.services g.sid = none)
    (hEntry : ∀ u, s.services g.sid = some u → s'.services g.sid = some u)
    (hMade : ∀ u ∈ s.constructed, u ∈ s'.constructed)
    (hSent : ∀ u, g.held.isSome → s.services g.sid = some u → u ∉ s.sent → u ∉ s'.sent) :
    s'.Relies g := by
  obtain ⟨hMx, hAt⟩ := h
  refine ⟨by rw [hMutex]; exact hMx, ?_⟩
  rw [State.At.eq_def]
  cases hg : g.pc with
  | constructing mx =>
      rw [hg] at hAt
      exact hAbsent (by rw [Frame.held, hg]; rfl) hAt
  | insert mx u =>
      rw [hg] at hAt
      exact ⟨hAbsent (by rw [Frame.held, hg]; rfl) hAt.1, hMade u hAt.2.1, hAt.2.2⟩
  | start mx u =>
      rw [hg] at hAt
      exact ⟨hEntry u hAt.1, hSent u (by rw [Frame.held, hg]; rfl) hAt.1 hAt.2⟩
  | starting mx u =>
      rw [hg] at hAt
      exact hEntry u hAt
  | _ => trivial

/-- The topmost call becomes `g`, and the others rely on what they did. -/
theorem Inv.relies_turn (h : Inv s) (hTop : s.stack t = f :: rest) {s' : State v}
    (hStack : s'.stack = Function.update s.stack t (g :: rest)) (hNew : s'.Relies g)
    (hOthers : ∀ t' g', g' ∈ s.stack t' → (t' = t → g' ∈ rest) → s.Relies g' → s'.Relies g') :
    ∀ t', ∀ g' ∈ s'.stack t', s'.Relies g' := by
  intro t' g' hMem
  rw [hStack] at hMem
  rcases mem_update hMem with ⟨rfl, hNow⟩ | ⟨ht, hOther⟩
  · rcases List.mem_cons.1 hNow with rfl | hOld
    · exact hNew
    · have hOld' : g' ∈ s.stack t' := hTop ▸ List.mem_cons_of_mem _ hOld
      exact hOthers t' g' hOld' (fun _ => hOld) (h.relies t' g' hOld')
  · exact hOthers t' g' hOther (fun hSame => absurd hSame ht) (h.relies t' g' hOther)

/-- Where the topmost call keeps the mutex it has, or goes on without one. -/
theorem Inv.locks_same (h : Inv s) (hTop : s.stack t = f :: rest) {s' : State v}
    (fs : List (Frame Sid)) (hStack : s'.stack = Function.update s.stack t (fs ++ rest))
    (hHolder : s'.holder = s.holder) (hHeld : fs.filterMap Frame.held = f.held.toList) :
    Exclusive s'.holder s'.heldBy := by
  have hSame : (fs ++ rest).filterMap Frame.held = s.heldBy t := by
    rw [List.filterMap_append, hHeld, State.heldBy, hTop]
    cases hf : f.held with
    | none =>
        rw [List.filterMap_cons_none hf]
        rfl
    | some mx =>
        rw [List.filterMap_cons_some hf]
        rfl
  rw [hHolder, heldBy_update hStack, hSame, Function.update_eq_self]
  exact h.locks

/-- Where it gives it back. -/
theorem Inv.locks_release (h : Inv s) (hTop : s.stack t = f :: rest) (hHeld : f.held = some mx)
    {s' : State v} (fs : List (Frame Sid))
    (hStack : s'.stack = Function.update s.stack t (fs ++ rest))
    (hHolder : s'.holder = Function.update s.holder mx none)
    (hNone : fs.filterMap Frame.held = []) : Exclusive s'.holder s'.heldBy := by
  rw [hHolder, heldBy_update hStack, List.filterMap_append, hNone]
  refine h.locks.release ?_
  rw [State.heldBy, hTop, List.filterMap_cons_some hHeld]
  rfl

/-- Where it takes one. -/
theorem Inv.locks_acquire (h : Inv s) (hTop : s.stack t = f :: rest) (hNone : f.held = none)
    (hFree : s.holder mx = none) {s' : State v} {g : Frame Sid} (hHeld : g.held = some mx)
    (hStack : s'.stack = Function.update s.stack t (g :: rest))
    (hHolder : s'.holder = Function.update s.holder mx (some t)) :
    Exclusive s'.holder s'.heldBy := by
  have hMore : (g :: rest).filterMap Frame.held = mx :: s.heldBy t := by
    rw [List.filterMap_cons_some hHeld, State.heldBy, hTop, List.filterMap_cons_none hNone]
  rw [hHolder, heldBy_update hStack, hMore]
  exact h.locks.acquire hFree

/-- What most steps leave. -/
structure Leaves (s s' : State v) : Prop where
  services : s'.services = s.services
  mxInitInProcess : s'.mxInitInProcess = s.mxInitInProcess
  mutexes : s'.mutexes = s.mutexes
  constructed : s'.constructed = s.constructed
  sent : s'.sent = s.sent

/-- The stack of one thread changes, and the mutexes with it. -/
theorem Inv.restack (h : Inv s) {s' : State v} (fs : List (Frame Sid)) (hLeaves : Leaves s s')
    (hStack : s'.stack = Function.update s.stack t fs)
    (hRelies : ∀ g ∈ fs, g ∈ s.stack t ∨ s.Relies g)
    (hInsert : ∀ g ∈ s.stack t, g.pc.entering.isSome → g ∈ fs)
    (hLocks : Exclusive s'.holder s'.heldBy)
    (hObtained : ∀ x ∈ s'.obtained, x ∈ s.obtained ∨ s.services x.1 = some x.2) : Inv s' := by
  have hSame : ∀ g, s'.Relies g ↔ s.Relies g := fun g => by
    rw [State.Relies, State.Relies, hLeaves.mxInitInProcess]
    cases hg : g.pc <;>
      simp only [State.At, hLeaves.services, hLeaves.constructed, hLeaves.sent]
  constructor
  case mutexes =>
    rw [hLeaves.mxInitInProcess, hLeaves.mutexes]
    exact h.mutexes
  case locks => exact hLocks
  case relies =>
    intro t' g hMem
    rw [hSame]
    rw [hStack] at hMem
    rcases mem_update hMem with ⟨rfl, hNew⟩ | ⟨-, hOther⟩
    · exact (hRelies g hNew).elim (h.relies _ g) id
    · exact h.relies t' g hOther
  case entry =>
    rw [hLeaves.services, hLeaves.constructed]
    exact h.entry
  case entered =>
    rw [hLeaves.services, hLeaves.constructed]
    intro u hMem
    rcases h.entered u hMem with hIn | ⟨t', g, hFrame, hPc⟩
    · exact Or.inl hIn
    · refine Or.inr ⟨t', g, ?_, hPc⟩
      rw [hStack]
      by_cases ht : t' = t
      · subst ht
        rw [Function.update_self]
        exact hInsert g hFrame (by rw [hPc]; rfl)
      · rw [Function.update_of_ne ht]
        exact hFrame
  case nodup =>
    rw [hLeaves.constructed]
    exact h.nodup
  case sent =>
    rw [hLeaves.services, hLeaves.sent]
    exact h.sent
  case sent_nodup =>
    rw [hLeaves.sent]
    exact h.sent_nodup
  case obtained =>
    intro x hMem
    rw [hLeaves.services]
    exact (hObtained x hMem).elim (h.obtained x) id

/-- The topmost call goes on as `fs`, or ends. -/
theorem Inv.turn (h : Inv s) (hTop : s.stack t = f :: rest) {s' : State v}
    (fs : List (Frame Sid)) (hLeaves : Leaves s s')
    (hStack : s'.stack = Function.update s.stack t (fs ++ rest)) (hNot : f.pc.entering = none)
    (hRelies : ∀ g ∈ fs, s.Relies g) (hLocks : Exclusive s'.holder s'.heldBy)
    (hObtained : ∀ x ∈ s'.obtained, x ∈ s.obtained ∨ s.services x.1 = some x.2) : Inv s' := by
  refine h.restack (fs ++ rest) hLeaves hStack ?_ ?_ hLocks hObtained
  · intro g hMem
    rcases List.mem_append.1 hMem with hNew | hOld
    · exact Or.inr (hRelies g hNew)
    · exact Or.inl (hTop ▸ List.mem_cons_of_mem _ hOld)
  · intro g hMem hEnters
    rw [hTop] at hMem
    rcases List.mem_cons.1 hMem with rfl | hOld
    · rw [hNot] at hEnters
      cases hEnters
    · exact List.mem_append_right _ hOld

/-! ## The steps -/

variable {p pc : Pc Sid} {u : Obj Sid}

/-- A call that goes on with the mutex it has, where other services are
registered meanwhile. -/
theorem Inv.goto (h : Inv s) (hTop : s.stack t = f :: rest) (hPc : f.pc = p) (pc : Pc Sid)
    {s' : State v}
    (hLeaves : Leaves s s') (hStack : s'.stack = (s.goto t f rest pc).stack)
    (hHolder : s'.holder = s.holder) (hObtained : s'.obtained = s.obtained)
    (hNot : p.entering = none) (hMutex : pc.mutex? = p.mutex?) (hHeld : pc.held = p.held)
    (hAt : s.At f.sid pc) : Inv s' := by
  subst hPc
  refine h.turn hTop [{ f with pc := pc }] hLeaves hStack hNot (List.forall_mem_singleton.2 ?_)
    (h.locks_same hTop [{ f with pc := pc }] hStack hHolder ?_) fun x hx => Or.inl (hObtained ▸ hx)
  · refine ⟨fun mx hMx => (h.relies t f (hTop ▸ List.mem_cons_self)).1 mx ?_, hAt⟩
    rw [← hMutex]
    exact hMx
  · show List.filterMap Frame.held [{ f with pc := pc }] = f.pc.held.toList
    rw [← hHeld]
    cases hf : pc.held <;> simp [Frame.held, hf]

/-- A call that goes on, and nothing else changes. -/
theorem Inv.on (h : Inv s) (hTop : s.stack t = f :: rest) (hPc : f.pc = p)
    (hNot : p.entering = none) (hMutex : pc.mutex? = p.mutex?) (hHeld : pc.held = p.held)
    (hAt : s.At f.sid pc) : Inv (s.goto t f rest pc) :=
  h.goto hTop hPc pc ⟨rfl, rfl, rfl, rfl, rfl⟩ rfl rfl rfl hNot hMutex hHeld hAt

/-- A call that ends without a mutex. -/
theorem Inv.pop (h : Inv s) (hTop : s.stack t = f :: rest) (hNot : f.pc.entering = none)
    (hNone : f.pc.held = none) : Inv (s.setStack t rest) := by
  refine h.turn hTop [] ⟨rfl, rfl, rfl, rfl, rfl⟩ rfl hNot
    (fun g hg => absurd hg List.not_mem_nil) (h.locks_same hTop [] rfl rfl ?_) fun x hx => Or.inl hx
  rw [show f.held = none from hNone]
  rfl

/-- A call that ends and gives its mutex back. -/
theorem Inv.unlock_pop (h : Inv s) (hTop : s.stack t = f :: rest) (hNot : f.pc.entering = none)
    (hHeld : f.pc.held = some mx) : Inv ((s.unlock mx).setStack t rest) :=
  h.turn hTop [] ⟨rfl, rfl, rfl, rfl, rfl⟩ rfl hNot
    (fun _ hg => absurd hg List.not_mem_nil) (h.locks_release hTop hHeld [] rfl rfl rfl)
    fun _ hx => Or.inl hx

/-- What a call with its service goes on as. -/
theorem found_stack (s : State v) (t : Tid) (f : Frame Sid) (rest : List (Frame Sid))
    (u : Obj Sid) : ∃ fs, (s.found t f rest u).stack = Function.update s.stack t (fs ++ rest) ∧
      (∀ g ∈ fs, s.Relies g) ∧ fs.filterMap Frame.held = [] := by
  rw [State.found]
  split
  · split
    · rename_i e _ _
      refine ⟨[{ f with pc := .listening u e }], rfl, List.forall_mem_singleton.2 ⟨?_, trivial⟩, rfl⟩
      exact fun mx hMx => by cases hMx
    · exact ⟨[], rfl, fun g hg => absurd hg List.not_mem_nil, rfl⟩
  · exact ⟨[], rfl, fun g hg => absurd hg List.not_mem_nil, rfl⟩

/-- A call that gets its service out of the container. -/
theorem Inv.found (h : Inv s) (hTop : s.stack t = f :: rest) (hNot : f.pc.entering = none)
    (hNone : f.pc.held = none) (hFound : s.services f.sid = some u) :
    Inv (s.found t f rest u) := by
  obtain ⟨fs, hStack, hRelies, hHeld⟩ := found_stack s t f rest u
  refine h.turn hTop fs ⟨rfl, rfl, rfl, rfl, rfl⟩ hStack hNot hRelies
    (h.locks_same hTop fs hStack rfl ?_) fun x hx => ?_
  · rw [hHeld, show f.held = none from hNone]
    rfl
  · rcases List.mem_append.1 hx with hOld | hNew
    · exact Or.inl hOld
    · rw [List.mem_singleton.1 hNew]
      exact Or.inr hFound

theorem Inv.unlock_found (h : Inv s) (hTop : s.stack t = f :: rest) (hNot : f.pc.entering = none)
    (hHeld : f.pc.held = some mx) (hFound : s.services f.sid = some u) :
    Inv ((s.unlock mx).found t f rest u) := by
  obtain ⟨fs, hStack, hRelies, hNone⟩ := found_stack (s.unlock mx) t f rest u
  refine h.turn hTop fs ⟨rfl, rfl, rfl, rfl, rfl⟩ hStack hNot hRelies
    (h.locks_release hTop hHeld fs hStack rfl hNone) fun x hx => ?_
  rcases List.mem_append.1 hx with hOld | hNew
  · exact Or.inl hOld
  · rw [List.mem_singleton.1 hNew]
    exact Or.inr hFound

/-- Another call is made. -/
theorem Inv.call (h : Inv s) (t : Tid) (sid : Sid) (event : Option Ev) (pc : Pc Sid)
    (hPc : pc.mutex? = none) : Inv (s.call t sid event pc) := by
  have hHeld : pc.held = none := by
    by_contra hSome
    obtain ⟨mx, hMx⟩ := Option.ne_none_iff_exists'.1 hSome
    rw [Pc.mutex_of_held hMx] at hPc
    cases hPc
  refine h.restack (⟨sid, event, pc⟩ :: s.stack t) ⟨rfl, rfl, rfl, rfl, rfl⟩ rfl ?_
    (fun g hMem _ => List.mem_cons_of_mem _ hMem) ?_ fun x hx => Or.inl hx
  · intro g hMem
    rcases List.mem_cons.1 hMem with rfl | hOld
    · refine Or.inr ⟨fun mx hMx => ?_, ?_⟩
      · have hSome : pc.mutex? = some mx := hMx
        rw [hPc] at hSome
        cases hSome
      cases pc with
      | constructing mx => cases hPc
      | insert mx u => cases hPc
      | start mx u => cases hPc
      | starting mx u => cases hPc
      | _ => trivial
    · exact Or.inl hOld
  · have hSame : (s.call t sid event pc).heldBy = s.heldBy := by
      have hNone : (⟨sid, event, pc⟩ : Frame Sid).held = none := hHeld
      rw [heldBy_update (s := s) (t := t) rfl, List.filterMap_cons_none hNone]
      exact Function.update_eq_self ..
    rw [hSame]
    exact h.locks

theorem Inv.of_alike (h : Inv s) {s' : State v} (hLeaves : Leaves s s')
    (hStack : s'.stack = s.stack) (hHolder : s'.holder = s.holder)
    (hObtained : s'.obtained = s.obtained) : Inv s' := by
  refine h.restack (t := 0) (s.stack 0) hLeaves (by rw [hStack, Function.update_eq_self])
    (fun g => Or.inl) (fun g hMem _ => hMem) ?_ fun x hx => Or.inl (hObtained ▸ hx)
  rw [hHolder, show s'.heldBy = s.heldBy from funext fun t => by
    rw [State.heldBy, hStack, State.heldBy]]
  exact h.locks

/-- `startService` is sent: nobody else has an object of that service to send it
to. -/
theorem inv_send (h : Inv s) (hTop : s.stack t = f :: rest)
    (hPc : f.pc = .start mx u) :
    Inv { s.goto t f rest (.starting mx u) with sent := s.sent ++ [u] } := by
  have hTopMem : f ∈ s.stack t := hTop ▸ List.mem_cons_self
  have hHeld : f.held = some mx := by rw [Frame.held, hPc]; rfl
  obtain ⟨hMutex, hAt⟩ := h.relies t f hTopMem
  rw [hPc] at hAt
  obtain ⟨hEntry, hNew⟩ := hAt
  obtain ⟨hSid, -⟩ := h.entry f.sid u hEntry
  have hOthers : ∀ t' g, g ∈ s.stack t' → (t' = t → g ∈ rest) → s.Relies g →
      State.Relies { s.goto t f rest (.starting mx u) with sent := s.sent ++ [u] } g := by
    intro t' g hMem hRest hRelies
    refine hRelies.mono rfl (fun _ => id) (fun _ => id) (fun _ => id)
      fun u' hTaken hOwn hOut hSent => ?_
    rcases List.mem_append.1 hSent with hOld | hSame
    · exact hOut hOld
    · have hSame' : g.sid = f.sid := by
        rw [← (h.entry g.sid u' hOwn).1, List.mem_singleton.1 hSame, hSid]
      obtain ⟨rfl, hOut⟩ := h.alone hTop hHeld hMem hTaken hSame'
      exact hOut (hRest rfl)
  constructor
  case mutexes => exact h.mutexes
  case locks =>
    refine h.locks_same hTop [{ f with pc := .starting mx u }] rfl rfl ?_
    rw [hHeld]
    rfl
  case relies =>
    exact h.relies_turn hTop rfl
      ⟨fun mx' hMx => hMutex mx' (by rw [hPc]; exact hMx), hEntry⟩ hOthers
  case entry => exact h.entry
  case entered =>
    refine fun u' hMem => (h.entered u' hMem).imp_right fun hOld =>
      hOld.turn hTop (fun hIs => ?_) [{ f with pc := .starting mx u }] rfl
    rw [hPc] at hIs
    cases hIs
  case nodup => exact h.nodup
  case sent =>
    intro u' hMem
    rcases List.mem_append.1 hMem with hOld | hNow
    · exact h.sent u' hOld
    · rw [List.mem_singleton.1 hNow, hSid]
      exact hEntry
  case sent_nodup =>
    refine List.nodup_append.2 ⟨h.sent_nodup, List.pairwise_singleton _ _, fun x hx y hy => ?_⟩
    rw [List.mem_singleton.1 hy]
    exact fun hSame => hNew (hSame ▸ hx)
  case obtained => exact h.obtained

/-- A constructor returns: it is the first of its service to do so. -/
theorem inv_construct (h : Inv s) (hTop : s.stack t = f :: rest) (hPc : f.pc = .constructing mx) :
    Inv { s.goto t f rest (.insert mx ⟨f.sid, s.constructed.length⟩) with
      constructed := s.constructed ++ [⟨f.sid, s.constructed.length⟩] } := by
  have hTopMem : f ∈ s.stack t := hTop ▸ List.mem_cons_self
  have hHeld : f.held = some mx := by rw [Frame.held, hPc]; rfl
  obtain ⟨hMutex, hNone⟩ := h.relies t f hTopMem
  rw [hPc] at hNone
  let u : Obj Sid := ⟨f.sid, s.constructed.length⟩
  have hFirst : ∀ u' ∈ s.constructed, u'.sid ≠ f.sid := by
    intro u' hMem hSame
    rcases h.entered u' hMem with hIn | ⟨t', g, hFrame, hEnters⟩
    · rw [hSame, show s.services f.sid = none from hNone] at hIn
      cases hIn
    · obtain ⟨mx', hg⟩ := Pc.eq_insert hEnters
      have hAt := (h.relies t' g hFrame).2
      rw [hg] at hAt
      obtain ⟨rfl, hOut⟩ := h.alone hTop hHeld hFrame (by rw [Frame.held, hg]; rfl)
        (hAt.2.2.symm.trans hSame)
      rw [hTop] at hFrame
      rcases List.mem_cons.1 hFrame with rfl | hRest
      · rw [hPc] at hg
        cases hg
      · exact hOut hRest
  have hOthers : ∀ t' g, g ∈ s.stack t' → (t' = t → g ∈ rest) → s.Relies g →
      State.Relies { s.goto t f rest (.insert mx u) with
        constructed := s.constructed ++ [u] } g := fun _ g _ _ hRelies =>
    hRelies.mono rfl (fun _ => id) (fun _ => id) (fun _ => List.mem_append_left _) fun _ _ _ => id
  constructor
  case mutexes => exact h.mutexes
  case locks =>
    refine h.locks_same hTop [{ f with pc := .insert mx u }] rfl rfl ?_
    rw [hHeld]
    rfl
  case relies =>
    exact h.relies_turn hTop rfl ⟨fun mx' hMx => hMutex mx' (by rw [hPc]; exact hMx), hNone,
      List.mem_append_right _ (List.mem_singleton.2 rfl), rfl⟩ hOthers
  case entry => exact fun sid u' hSome => (h.entry sid u' hSome).imp_right (List.mem_append_left _)
  case entered =>
    intro u' hMem
    rcases List.mem_append.1 hMem with hOld | hNew
    · refine (h.entered u' hOld).imp_right fun hEntering =>
        hEntering.turn hTop (fun hIs => ?_) [{ f with pc := .insert mx u }] rfl
      rw [hPc] at hIs
      cases hIs
    · refine Or.inr ⟨t, { f with pc := .insert mx u }, ?_, ?_⟩
      · show _ ∈ Function.update s.stack t _ t
        rw [Function.update_self]
        exact List.mem_cons_self
      · rw [List.mem_singleton.1 hNew]
        rfl
  case nodup =>
    show ((s.constructed ++ [u]).map Obj.sid).Nodup
    rw [List.map_append, List.nodup_append]
    refine ⟨h.nodup, List.pairwise_singleton _ _, fun x hx y hy hSame => ?_⟩
    obtain ⟨u', hMem, rfl⟩ := List.mem_map.1 hx
    rw [List.mem_singleton.1 hy] at hSame
    exact hFirst u' hMem hSame
  case sent => exact h.sent
  case sent_nodup => exact h.sent_nodup
  case obtained => exact h.obtained

/-- An exception gives the mutex back. -/
theorem inv_throws (h : Inv s) (hTop : s.stack t = f :: rest) (hThrows : State.MayThrow f) :
    Inv (s.throws t) := by
  have hNot : f.pc.entering = none := by
    rcases hThrows.pc with ⟨_, _, hPc⟩ | ⟨_, hPc⟩ | ⟨_, hPc⟩ <;> rw [hPc] <;> rfl
  rw [State.throws, hTop]
  dsimp only
  split
  · rename_i mx hHeld
    exact h.unlock_pop hTop hNot hHeld
  · rename_i hHeld
    exact h.pop hTop hNot hHeld

variable [DecidableEq Sid]

/-- Entries that are there stay. -/
theorem update_of_some {α : Type} {m : Sid → Option α} {sid sid' : Sid} {a b : α}
    (hNone : m sid = none) (hSome : m sid' = some b) :
    Function.update m sid (some a) sid' = some b := by
  rw [Function.update_of_ne (by rintro rfl; rw [hNone] at hSome; cases hSome), hSome]

theorem GivenOut.fresh {mxs : Sid → Option Mx} {n : Nat} (h : GivenOut mxs n) (sid : Sid) :
    GivenOut (Function.update mxs sid (some n)) (n + 1) := by
  have hCases : ∀ sid' mx, Function.update mxs sid (some n) sid' = some mx →
      (sid' = sid ∧ mx = n) ∨ mxs sid' = some mx := by
    intro sid' mx hSome
    rw [Function.update_apply] at hSome
    split at hSome
    · rename_i hSid
      exact Or.inl ⟨hSid, (Option.some.inj hSome).symm⟩
    · exact Or.inr hSome
  constructor
  case lt =>
    intro sid' mx hSome
    rcases hCases sid' mx hSome with ⟨-, rfl⟩ | hOld
    · exact Nat.lt_succ_self _
    · exact Nat.lt_succ_of_lt (h.lt sid' mx hOld)
  case apart =>
    intro sid₁ sid₂ mx h₁ h₂
    rcases hCases sid₁ mx h₁ with ⟨hSid₁, hNew⟩ | hOld₁ <;>
      rcases hCases sid₂ mx h₂ with ⟨hSid₂, hNew'⟩ | hOld₂
    · rw [hSid₁, hSid₂]
    · exact absurd (h.lt _ _ hOld₂) (by rw [hNew]; exact lt_irrefl _)
    · exact absurd (h.lt _ _ hOld₁) (by rw [hNew']; exact lt_irrefl _)
    · exact h.apart sid₁ sid₂ mx hOld₁ hOld₂

/-- The mutex of a service, whoever asks first. -/
theorem inv_getMutex (h : Inv s) (hTop : s.stack t = f :: rest) (hPc : f.pc = .mutex) :
    Inv (s.getMutex t f rest) := by
  have hNot : f.pc.entering = none := by rw [hPc]; rfl
  have hNone : f.held.toList = [] := by rw [Frame.held, hPc]; rfl
  rw [State.getMutex]
  split
  · rename_i mx hOld
    refine h.turn hTop [{ f with pc := .lock mx }] ⟨rfl, rfl, rfl, rfl, rfl⟩ rfl hNot
      (List.forall_mem_singleton.2 ⟨fun mx' hMx => ?_, trivial⟩)
      (h.locks_same hTop [{ f with pc := .lock mx }] rfl rfl (by rw [hNone]; rfl))
      fun x hx => Or.inl hx
    rw [← Option.some.inj hMx]
    exact hOld
  · rename_i hAbsent
    have hKeeps : ∀ g, s.Relies g → State.Relies { s.goto t f rest (.lock s.mutexes) with
        mxInitInProcess := Function.update s.mxInitInProcess f.sid (some s.mutexes)
        mutexes := s.mutexes + 1 } g :=
      fun g hRelies => ⟨fun mx hMx => update_of_some hAbsent (hRelies.1 mx hMx), by
        have hAt := hRelies.2
        rw [State.At.eq_def] at hAt ⊢
        exact hAt⟩
    constructor
    case mutexes => exact h.mutexes.fresh f.sid
    case locks =>
      exact h.locks_same hTop [{ f with pc := .lock s.mutexes }] rfl rfl (by rw [hNone]; rfl)
    case relies =>
      refine h.relies_turn hTop rfl ⟨fun mx hMx => ?_, trivial⟩ fun _ g _ _ => hKeeps g
      rw [← Option.some.inj hMx]
      exact Function.update_self ..
    case entry => exact h.entry
    case entered =>
      exact fun u hMem => (h.entered u hMem).imp_right fun hOld =>
        hOld.turn hTop (by rw [hNot]; exact (Option.some_ne_none u).symm)
          [{ f with pc := .lock s.mutexes }] rfl
    case nodup => exact h.nodup
    case sent => exact h.sent
    case sent_nodup => exact h.sent_nodup
    case obtained => exact h.obtained

/-- The object is entered: nobody else was about to, and nothing was there. -/
theorem inv_insert (h : Inv s) (hTop : s.stack t = f :: rest)
    (hPc : f.pc = .insert mx u) :
    Inv { s.goto t f rest (.start mx u) with
      services := Function.update s.services f.sid (some ((s.services f.sid).getD u)) } := by
  have hTopMem : f ∈ s.stack t := hTop ▸ List.mem_cons_self
  have hHeld : f.held = some mx := by rw [Frame.held, hPc]; rfl
  obtain ⟨hMutex, hAt⟩ := h.relies t f hTopMem
  rw [hPc] at hAt
  obtain ⟨hNone, hMade, hSid⟩ := hAt
  rw [hNone]
  have hGrows : ∀ sid u', s.services sid = some u' →
      Function.update s.services f.sid (some u) sid = some u' :=
    fun _ _ => update_of_some hNone
  have hOthers : ∀ t' g, g ∈ s.stack t' → (t' = t → g ∈ rest) → s.Relies g →
      State.Relies { s.goto t f rest (.start mx u) with
        services := Function.update s.services f.sid (some u) } g := by
    intro t' g hMem hRest hRelies
    refine hRelies.mono rfl (fun hTaken hAbsent => ?_) (hGrows g.sid) (fun _ => id)
      fun _ _ _ => id
    have hElse : g.sid ≠ f.sid := fun hSame => by
      obtain ⟨rfl, hOut⟩ := h.alone hTop hHeld hMem hTaken hSame
      exact hOut (hRest rfl)
    show Function.update s.services f.sid (some u) g.sid = none
    rw [Function.update_of_ne hElse, hAbsent]
  constructor
  case mutexes => exact h.mutexes
  case locks =>
    refine h.locks_same hTop [{ f with pc := .start mx u }] rfl rfl ?_
    rw [hHeld]
    rfl
  case relies =>
    refine h.relies_turn hTop rfl
      ⟨fun mx' hMx => hMutex mx' (by rw [hPc]; exact hMx), ?_, fun hSent => ?_⟩ hOthers
    · exact Function.update_self ..
    · have hEntry := h.sent u hSent
      rw [hSid, hNone] at hEntry
      cases hEntry
  case entry =>
    intro sid u' hSome
    have hSome' : Function.update s.services f.sid (some u) sid = some u' := hSome
    rw [Function.update_apply] at hSome'
    split at hSome'
    · rename_i hSame
      rw [← Option.some.inj hSome', hSame]
      exact ⟨hSid, hMade⟩
    · exact h.entry sid u' hSome'
  case entered =>
    intro u' hMem
    rcases h.entered u' hMem with hIn | hEntering
    · exact Or.inl (hGrows _ _ hIn)
    · by_cases hu : u' = u
      · rw [hu, hSid]
        exact Or.inl (Function.update_self ..)
      · refine Or.inr (hEntering.turn hTop (fun hIs => hu ?_) [{ f with pc := .start mx u }] rfl)
        rw [hPc] at hIs
        exact (Option.some.inj hIs).symm
  case nodup => exact h.nodup
  case sent => exact fun u' hMem => hGrows _ _ (h.sent u' hMem)
  case sent_nodup => exact h.sent_nodup
  case obtained => exact fun x hMem => hGrows _ _ (h.obtained x hMem)

/-- What a call does next. -/
theorem inv_stepFrame (h : Inv s) (hTop : s.stack t = f :: rest) (hGoes : s.Goes f) :
    Inv (s.stepFrame t f rest) := by
  have hAt := (h.relies t f (hTop ▸ List.mem_cons_self)).2
  cases hPc : f.pc with
  | sendEvent =>
      rw [State.stepFrame, hPc]
      dsimp only
      split
      · exact h.pop hTop (by rw [hPc]; rfl) (by rw [hPc]; rfl)
      · exact h.on hTop hPc rfl rfl rfl trivial
  | enter =>
      rw [State.stepFrame, hPc]
      dsimp only
      split
      · exact h.pop hTop (by rw [hPc]; rfl) (by rw [hPc]; rfl)
      · exact h.on hTop hPc rfl rfl rfl trivial
  | find =>
      rw [State.stepFrame, hPc]
      dsimp only
      split
      · rename_i u hFound
        exact h.found hTop (by rw [hPc]; rfl) (by rw [hPc]; rfl) hFound
      · exact h.on hTop hPc rfl rfl rfl trivial
  | init =>
      rw [State.stepFrame, hPc]
      dsimp only
      split
      · exact h.pop hTop (by rw [hPc]; rfl) (by rw [hPc]; rfl)
      · exact h.on hTop hPc rfl rfl rfl trivial
  | mutex =>
      rw [State.stepFrame, hPc]
      exact inv_getMutex h hTop hPc
  | lock mx =>
      have hFree : s.holder mx = none := hGoes.1 mx (by rw [hPc]; rfl)
      have hMutex := (h.relies t f (hTop ▸ List.mem_cons_self)).1 mx (by rw [hPc]; rfl)
      rw [State.stepFrame, hPc]
      refine h.turn hTop [{ f with pc := .check mx }] ⟨rfl, rfl, rfl, rfl, rfl⟩ rfl
        (by rw [hPc]; rfl) (List.forall_mem_singleton.2 ⟨fun mx' hMx => ?_, trivial⟩)
        (h.locks_acquire hTop (by rw [Frame.held, hPc]; rfl) hFree rfl rfl rfl) fun x => Or.inl
      rw [← Option.some.inj hMx]
      exact hMutex
  | check mx =>
      rw [State.stepFrame, hPc]
      dsimp only
      split
      · rename_i u hFound
        exact h.unlock_found hTop (by rw [hPc]; rfl) (by rw [hPc]; rfl) hFound
      · exact h.on hTop hPc rfl rfl rfl trivial
  | constructors mx =>
      rw [State.stepFrame, hPc]
      dsimp only
      split
      · exact h.on hTop hPc rfl rfl rfl trivial
      · exact h.on hTop hPc rfl rfl rfl trivial
  | plugin mx =>
      rw [State.stepFrame, hPc]
      dsimp only
      split
      · exact h.on hTop hPc rfl rfl rfl trivial
      · exact h.unlock_pop hTop (by rw [hPc]; rfl) (by rw [hPc]; rfl)
  | reload mx =>
      rw [State.stepFrame, hPc]
      dsimp only
      split
      · exact h.on hTop hPc rfl rfl rfl trivial
      · exact h.unlock_pop hTop (by rw [hPc]; rfl) (by rw [hPc]; rfl)
  | recheck mx =>
      rw [State.stepFrame, hPc]
      dsimp only
      split
      · rename_i u hFound
        exact h.unlock_found hTop (by rw [hPc]; rfl) (by rw [hPc]; rfl) hFound
      · rename_i hNone
        exact h.on hTop hPc rfl rfl rfl hNone
  | insert mx u =>
      rw [State.stepFrame, hPc]
      exact inv_insert h hTop hPc
  | start mx u =>
      rw [State.stepFrame, hPc]
      dsimp only
      split
      · exact inv_send h hTop hPc
      · exact h.unlock_pop hTop (by rw [hPc]; rfl) (by rw [hPc]; rfl)
  | starting mx u =>
      rw [hPc] at hAt
      rw [State.stepFrame, hPc]
      dsimp only
      split
      · exact h.unlock_found hTop (by rw [hPc]; rfl) (by rw [hPc]; rfl) hAt
      · exact h.unlock_pop hTop (by rw [hPc]; rfl) (by rw [hPc]; rfl)
  | listening u e =>
      rw [State.stepFrame, hPc]
      exact h.pop hTop (by rw [hPc]; rfl) (by rw [hPc]; rfl)
  | load mx pn =>
      rw [State.stepFrame, hPc]
      exact h
  | constructing mx =>
      rw [State.stepFrame, hPc]
      exact h

/-- **Every step.** -/
theorem inv_apply {a : Action v} (h : Inv s) (hEn : s.Enabled a) : Inv (s.apply a) := by
  cases a with
  | terminate => exact h.of_alike ⟨rfl, rfl, rfl, rfl, rfl⟩ rfl rfl rfl
  | register sid => exact h.of_alike ⟨rfl, rfl, rfl, rfl, rfl⟩ rfl rfl rfl
  | listener t u a => exact h.of_alike ⟨rfl, rfl, rfl, rfl, rfl⟩ rfl rfl rfl
  | getServiceOrCreate t sid => exact h.call t sid none .enter rfl
  | forwardEvent t sid =>
      exact (h.call t sid (some (s.calls + 1)) .enter rfl).of_alike
        ⟨rfl, rfl, rfl, rfl, rfl⟩ rfl rfl rfl
  | sendEvent t sid =>
      exact (h.call t sid (some (s.calls + 1)) .sendEvent rfl).of_alike
        ⟨rfl, rfl, rfl, rfl, rfl⟩ rfl rfl rfl
  | listenToEvent t u =>
      exact (h.call t u.sid (some (s.calls + 1)) (.listening u (s.calls + 1)) rfl).of_alike
        ⟨rfl, rfl, rfl, rfl, rfl⟩ rfl rfl rfl
  | step t =>
      obtain ⟨f, rest, hTop, hGoes⟩ := exists_top hEn
      rw [State.apply, State.step, hTop]
      exact inv_stepFrame h hTop hGoes
  | registerPluginDLL t sids =>
      obtain ⟨f, rest, hTop, hLoad⟩ := exists_top hEn
      obtain ⟨mx, pn, hPc⟩ := Pc.eq_load hLoad
      rw [State.apply, State.registerPluginDLL, hTop]
      dsimp only
      rw [hPc]
      exact h.goto hTop hPc (.reload mx) ⟨rfl, rfl, rfl, rfl, rfl⟩ rfl rfl rfl rfl rfl rfl trivial
  | construct t =>
      obtain ⟨f, rest, hTop, hConstructs⟩ := exists_top hEn
      obtain ⟨mx, hPc⟩ := Pc.eq_constructing hConstructs
      rw [State.apply, State.construct, hTop]
      dsimp only
      rw [hPc]
      exact inv_construct h hTop hPc
  | throws t =>
      obtain ⟨f, rest, hTop, hThrows⟩ := exists_top hEn
      exact inv_throws h hTop hThrows

theorem inv_of_reachable (hReach : (machine v).Reachable s) : Inv s :=
  Machine.Reachable.invariant (m := machine v) (fun s hs => by
    obtain rfl : s = State.start v := hs
    exact inv_start) (fun _ _ hs hEn => inv_apply hs hEn) hReach

/-! ## Entries -/

theorem services_stepFrame {sid : Sid} (h : s.services sid = some u) :
    (s.stepFrame t f rest).services sid = some u := by
  rw [State.stepFrame]
  split
  case h_5 =>
    rw [State.getMutex]
    split <;> exact h
  case h_12 u' _ =>
    show Function.update s.services f.sid (some ((s.services f.sid).getD u')) sid = some u
    by_cases hSid : sid = f.sid
    · subst hSid
      rw [Function.update_self, h]
      rfl
    · rw [Function.update_of_ne hSid, h]
  all_goals first
    | exact h
    | (split <;> exact h)

/-- An entry stays as it is. -/
theorem services_apply {a : Action v} {sid : Sid} (h : s.services sid = some u) :
    (s.apply a).services sid = some u := by
  cases a with
  | step t =>
      rw [State.apply, State.step]
      split
      · exact services_stepFrame h
      · exact h
  | registerPluginDLL t sids =>
      rw [State.apply, State.registerPluginDLL]
      split
      · split <;> exact h
      · exact h
  | construct t =>
      rw [State.apply, State.construct]
      split
      · split <;> exact h
      · exact h
  | throws t =>
      rw [State.apply, State.throws]
      split
      · split <;> exact h
      · exact h
  | _ => exact h

/-- One constructor call a service returns, and what is entered is what it has
returned; `startService` is sent once, to what is entered; everybody gets that;
and it stays. -/
structure OneObject (s : State v) : Prop where
  constructed : (s.constructed.map Obj.sid).Nodup
  entered : ∀ sid u, s.services sid = some u → u.sid = sid ∧ u ∈ s.constructed
  started : s.sent.Nodup ∧ ∀ u ∈ s.sent, s.services u.sid = some u
  obtained : ∀ x ∈ s.obtained, s.services x.1 = some x.2
  stays : ∀ acts, (machine v).Path s acts → ∀ sid u, s.services sid = some u →
    ((machine v).exec s acts).services sid = some u

/--
**One object.** In every state that any threads, asking for any services in any
order, bring about, whatever constructors call and however they end.
-/
theorem one_object (hReach : (machine v).Reachable s) : OneObject s := by
  have h := inv_of_reachable hReach
  refine ⟨h.nodup, h.entry, ⟨h.sent_nodup, h.sent⟩, h.obtained, fun acts hPath sid u hSome => ?_⟩
  exact Machine.path_invariant (machine v) (I := fun s => s.services sid = some u)
    (fun _ _ hs _ => services_apply hs) acts s hSome hPath

end Invariant

/-- Two threads ask for one service, and both find nothing; the second gets what
the first has made. -/
def twoCallers : List (Action (.plain Nat)) :=
  [.register 5, .getServiceOrCreate 1 5, .getServiceOrCreate 2 5, .step 1, .step 2, .step 1,
   .step 2, .step 1, .step 2, .step 1, .step 2, .step 1, .step 1, .step 1, .step 1, .construct 1,
   .step 1, .step 1, .listener 1 ⟨5, 0⟩ (.listenToEvent startService),
   .listener 1 ⟨5, 0⟩ (.finish startService), .step 1, .step 2, .step 2]

theorem twoCallers_one :
    OneObject ((machine (.plain Nat)).exec (.start (.plain Nat)) twoCallers) ∧
      ((machine (.plain Nat)).exec (.start (.plain Nat)) twoCallers).obtained =
        [(5, ⟨5, 0⟩), (5, ⟨5, 0⟩)] :=
  ⟨one_object ⟨_, twoCallers, rfl, by decide +kernel, rfl⟩, by decide +kernel⟩

end Megatron.CInstance
