import Megatron.Instance.OneObject

/-!
# `startService` comes first

`initService` enters an object into the container before it sends it
`startService`.  A lookup does not take the mutex of the service, so it can find
the object in between, and hand it an event.  Whoever has found nothing waits
for the mutex, and gets the object with `startService` behind it.

## Main results

* `start_first` — the handler of `startService` is the first, in the runs in
  which no lookup for an event finds an object that has not accepted it.
* `overtaken` — a run in which one does.
-/

namespace Megatron.CInstance

open Megatron.Lib

section StartFirst

variable {Sid : Type} {v : Setup Sid}

/-- The listener has accepted `startService`. -/
def State.Accepts (s : State v) (u : Obj Sid) : Prop :=
  (v.listener u.sid).accepted (s.listener u) startService = true

instance (s : State v) (u : Obj Sid) : Decidable (s.Accepts u) :=
  inferInstanceAs (Decidable (_ = true))

/-- The object that `initService` has entered, and is to start. -/
def Pc.starts : Pc Sid → Option (Obj Sid)
  | .start _ u => some u
  | .starting _ u => some u
  | _ => none

/-- The first lookup, with an event. -/
def Frame.looksUp (f : Frame Sid) : Bool :=
  match f.pc with
  | .find => f.event.isSome
  | _ => false

/-- A lookup for an event finds only what has accepted `startService`, and so
does a direct send; and `listenToEvent(startService)` does not throw. -/
def Timely (s : State v) : Action v → Prop
  | .step t => ∀ f ∈ (s.stack t).head?,
      (f.looksUp = true → ∀ u ∈ s.services f.sid, s.Accepts u) ∧
      ∀ u ∈ f.pc.starts, s.progress f ≠ some .threw
  | .listenToEvent _ u => s.Accepts u
  | _ => True

instance (s : State v) : (a : Action v) → Decidable (Timely s a)
  | .step _ => inferInstanceAs (Decidable (∀ _ ∈ _, (_ → ∀ _ ∈ _, _) ∧ ∀ _ ∈ _, _))
  | .listenToEvent _ _ => inferInstanceAs (Decidable (State.Accepts _ _))
  | .terminate => .isTrue trivial
  | .register _ => .isTrue trivial
  | .getServiceOrCreate _ _ => .isTrue trivial
  | .forwardEvent _ _ => .isTrue trivial
  | .sendEvent _ _ => .isTrue trivial
  | .registerPluginDLL _ _ => .isTrue trivial
  | .construct _ => .isTrue trivial
  | .throws _ => .isTrue trivial
  | .listener _ _ _ => .isTrue trivial

/-- An event is not `startService`, and goes to an object that has accepted
that. -/
def State.Fine (s : State v) (f : Frame Sid) : Prop :=
  (∀ e ∈ f.event, e ≠ startService) ∧
    ∀ u e, f.pc = .listening u e → e ≠ startService ∧ s.Accepts u

/-- What is entered has accepted `startService`, or is about to get it. -/
structure Started (s : State v) : Prop where
  fine : ∀ t, ∀ f ∈ s.stack t, s.Fine f
  entry : ∀ sid u, s.services sid = some u → v.isListener u.sid = true →
    s.Accepts u ∨ ∃ t, ∃ f ∈ s.stack t, f.pc.starts = some u
  listeners : ∀ u, ((v.listener u.sid).machine.guarded
    (v.listener u.sid).StartFirst).Reachable (s.listener u)

variable {s s' : State v} {t : Tid} {f : Frame Sid} {rest : List (Frame Sid)} {u : Obj Sid}

theorem started_start : Started (State.start v) where
  fine _ _ h := absurd h List.not_mem_nil
  entry _ _ h := by cases h
  listeners _ := Machine.Reachable.init rfl

/-- The topmost call of a thread goes on as `fs`, and the listeners stay as they
are. -/
theorem Started.turn (h : Started s) (hTop : s.stack t = f :: rest) (fs : List (Frame Sid))
    (hStack : s'.stack = Function.update s.stack t (fs ++ rest))
    (hListener : s'.listener = s.listener) (hFine : ∀ g ∈ fs, s.Fine g)
    (hEntry : ∀ sid u, s'.services sid = some u → v.isListener u.sid = true →
      (s.services sid = some u ∧ f.pc.starts ≠ some u) ∨ s.Accepts u ∨
        ∃ g ∈ fs, g.pc.starts = some u) : Started s' := by
  have hAccepts : ∀ u, s'.Accepts u ↔ s.Accepts u := fun u => by
    rw [State.Accepts, State.Accepts, hListener]
  have hSame : ∀ g, s'.Fine g ↔ s.Fine g := fun g => by
    simp only [State.Fine, hAccepts]
  constructor
  case fine =>
    intro t' g hMem
    rw [hSame]
    rw [hStack] at hMem
    rcases mem_update hMem with ⟨rfl, hNow⟩ | ⟨-, hOther⟩
    · rcases List.mem_append.1 hNow with hNew | hOld
      · exact hFine g hNew
      · exact h.fine _ g (hTop ▸ List.mem_cons_of_mem _ hOld)
    · exact h.fine t' g hOther
  case entry =>
    intro sid u hSome hIs
    rw [hAccepts, hStack]
    rcases hEntry sid u hSome hIs with ⟨hOld, hNot⟩ | hDone | ⟨g, hNew, hStarts⟩
    · rcases h.entry sid u hOld hIs with hDone | ⟨t', g, hMem, hStarts⟩
      · exact Or.inl hDone
      · refine Or.inr ⟨t', g, ?_, hStarts⟩
        by_cases ht : t' = t
        · subst ht
          rw [Function.update_self]
          rw [hTop] at hMem
          rcases List.mem_cons.1 hMem with rfl | hRest
          · exact absurd hStarts hNot
          · exact List.mem_append_right _ hRest
        · rw [Function.update_of_ne ht]
          exact hMem
    · exact Or.inl hDone
    · refine Or.inr ⟨t, g, ?_, hStarts⟩
      rw [Function.update_self]
      exact List.mem_append_left _ hNew
  case listeners =>
    rw [hListener]
    exact h.listeners

/-- A call that does not start an object, and goes on without an event to hand
over, or ends. -/
theorem Started.on (h : Started s) (hTop : s.stack t = f :: rest) (fs : List (Frame Sid))
    (hStack : s'.stack = Function.update s.stack t (fs ++ rest))
    (hListener : s'.listener = s.listener) (hServices : s'.services = s.services)
    (hFs : ∀ g ∈ fs, g.event = f.event ∧ ∀ u e, g.pc ≠ .listening u e)
    (hNot : f.pc.starts = none) : Started s' := by
  refine h.turn hTop fs hStack hListener ?_ fun sid u hSome _ => Or.inl ⟨hServices ▸ hSome, ?_⟩
  · intro g hMem
    obtain ⟨hEvent, hPc⟩ := hFs g hMem
    refine ⟨?_, fun u e hIs => absurd hIs (hPc u e)⟩
    rw [hEvent]
    exact (h.fine t f (hTop ▸ List.mem_cons_self)).1
  · rw [hNot]
    exact (Option.some_ne_none u).symm

/-- A call that has got an object, and hands it its event. -/
theorem Started.found (h : Started s) (hTop : s.stack t = f :: rest) {s₀ : State v}
    (hStack : s₀.stack = s.stack) (hListener : s₀.listener = s.listener)
    (hServices : s₀.services = s.services)
    (hDone : f.event.isSome = true → v.isListener u.sid = true → s.Accepts u)
    (hStarts : ∀ u', f.pc.starts = some u' → s.Accepts u') : Started (s₀.found t f rest u) := by
  have hFine := h.fine t f (hTop ▸ List.mem_cons_self)
  have hTurn : ∀ fs, (s₀.found t f rest u).stack = Function.update s.stack t (fs ++ rest) →
      (∀ g ∈ fs, s.Fine g) → Started (s₀.found t f rest u) := by
    intro fs hFs hNew
    refine h.turn hTop fs hFs hListener hNew fun sid u' hSome _ => ?_
    by_cases hStart : f.pc.starts = some u'
    · exact Or.inr (Or.inl (hStarts u' hStart))
    · exact Or.inl ⟨hServices ▸ hSome, hStart⟩
  have hNil : ∀ g ∈ ([] : List (Frame Sid)), s.Fine g := fun g hg => absurd hg List.not_mem_nil
  rw [State.found] at hTurn ⊢
  cases hEvent : f.event with
  | none =>
      rw [hEvent] at hTurn
      exact hTurn [] (by rw [← hStack]; rfl) hNil
  | some e =>
      rw [hEvent] at hTurn
      dsimp only at hTurn ⊢
      split at hTurn
      · rename_i hIs
        rw [if_pos hIs]
        refine hTurn [{ f with pc := .listening u e, event := some e }]
          (by rw [← hStack, ← hEvent]; rfl) (List.forall_mem_singleton.2 ⟨?_, ?_⟩)
        · exact fun e' he' => hFine.1 e' (hEvent.trans he')
        · rintro u' e' ⟨⟩
          exact ⟨hFine.1 e hEvent, hDone (by rw [hEvent]; rfl) hIs⟩
      · rename_i hIs
        rw [if_neg hIs]
        exact hTurn [] (by rw [← hStack]; rfl) hNil

/-- Whoever holds the mutex of a service, and finds it, finds it started. -/
theorem Started.accepts (h : Started s) (hInv : Inv s) (hTop : s.stack t = f :: rest) {mx : Mx}
    (hHeld : f.held = some mx) (hNot : f.pc.starts = none) (hFound : s.services f.sid = some u)
    (hIs : v.isListener u.sid = true) : s.Accepts u := by
  rcases h.entry f.sid u hFound hIs with hDone | ⟨t', g, hMem, hStarts⟩
  · exact hDone
  have hAt := (hInv.relies t' g hMem).2
  have hOwn : s.services g.sid = some u ∧ g.held.isSome := by
    cases hg : g.pc with
    | start mx' u' =>
        rw [hg] at hAt hStarts
        rw [← Option.some.inj hStarts, Frame.held, hg]
        exact ⟨hAt.1, rfl⟩
    | starting mx' u' =>
        rw [hg] at hAt hStarts
        rw [← Option.some.inj hStarts, Frame.held, hg]
        exact ⟨hAt, rfl⟩
    | _ =>
        rw [hg] at hStarts
        cases hStarts
  have hSid : g.sid = f.sid := (hInv.entry _ u hOwn.1).1.symm.trans (hInv.entry _ u hFound).1
  obtain ⟨rfl, hOut⟩ := hInv.alone hTop hHeld hMem hOwn.2 hSid
  rw [hTop] at hMem
  rcases List.mem_cons.1 hMem with rfl | hRest
  · rw [hNot] at hStarts
    cases hStarts
  · exact absurd hRest hOut

theorem forall_mem_goto (f : Frame Sid) {pc : Pc Sid} (hPc : ∀ u e, pc ≠ .listening u e) :
    ∀ g ∈ [{ f with pc := pc }], g.event = f.event ∧ ∀ u e, g.pc ≠ .listening u e :=
  List.forall_mem_singleton.2 ⟨rfl, hPc⟩

/-- Another call, with an event that may be handed over. -/
theorem Started.call (h : Started s) (t : Tid) (sid : Sid) (event : Option Ev) (pc : Pc Sid)
    (hFine : s.Fine ⟨sid, event, pc⟩) : Started (s.call t sid event pc) where
  fine t' g hMem := by
    rcases mem_update hMem with ⟨rfl, hNow⟩ | ⟨-, hOther⟩
    · rcases List.mem_cons.1 hNow with rfl | hOld
      · exact hFine
      · exact h.fine _ g hOld
    · exact h.fine t' g hOther
  entry sid' u hSome hIs := by
    refine (h.entry sid' u hSome hIs).imp_right ?_
    rintro ⟨t', g, hMem, hStarts⟩
    refine ⟨t', g, ?_, hStarts⟩
    show g ∈ Function.update s.stack t _ t'
    rw [Function.update_apply]
    split
    · rename_i ht
      exact List.mem_cons_of_mem _ (ht ▸ hMem)
    · exact hMem
  listeners := h.listeners

theorem fine_of_calls (s : State v) (sid : Sid) {pc : Pc Sid}
    (hPc : ∀ u e, pc = .listening u e → e ≠ startService ∧ s.Accepts u) :
    s.Fine ⟨sid, some (s.calls + 1), pc⟩ :=
  ⟨fun e he => by rw [← Option.some.inj he]; exact Nat.succ_ne_zero _, hPc⟩

variable [DecidableEq Sid]

/-- What a call does next, where it is timely. -/
theorem started_stepFrame (h : Started s) (hInv : Inv s) (hTop : s.stack t = f :: rest)
    (hGoes : s.Goes f) (hTimely : Timely s (.step t)) : Started (s.stepFrame t f rest) := by
  obtain ⟨hLook, hThrow⟩ := hTimely f (by rw [hTop]; rfl)
  have hAt := (hInv.relies t f (hTop ▸ List.mem_cons_self)).2
  have hEnd : ∀ {s' : State v}, s'.stack = Function.update s.stack t rest →
      s'.listener = s.listener → s'.services = s.services → f.pc.starts = none → Started s' :=
    fun hStack hListener hServices hNot => h.on hTop [] hStack hListener hServices
      (fun g hg => absurd hg List.not_mem_nil) hNot
  have hGoto : ∀ {s' : State v} (pc : Pc Sid),
      s'.stack = Function.update s.stack t ({ f with pc := pc } :: rest) →
      s'.listener = s.listener → s'.services = s.services → f.pc.starts = none →
      (∀ u e, pc ≠ .listening u e) → Started s' :=
    fun pc hStack hListener hServices hNot hPc => h.on hTop [{ f with pc := pc }] hStack hListener
      hServices (forall_mem_goto f hPc) hNot
  -- a call that starts nothing has nothing to show
  have hIdle : f.pc.starts = none → ∀ u', f.pc.starts = some u' → s.Accepts u' := by
    intro hNot u' hStarts
    rw [hNot] at hStarts
    cases hStarts
  cases hPc : f.pc with
  | sendEvent =>
      have hNot : f.pc.starts = none := by rw [hPc]; rfl
      rw [State.stepFrame, hPc]
      dsimp only
      split
      · exact hEnd rfl rfl rfl hNot
      · exact hGoto .enter rfl rfl rfl hNot fun _ _ hIs => by cases hIs
  | enter =>
      have hNot : f.pc.starts = none := by rw [hPc]; rfl
      rw [State.stepFrame, hPc]
      dsimp only
      split
      · exact hEnd rfl rfl rfl hNot
      · exact hGoto .find rfl rfl rfl hNot fun _ _ hIs => by cases hIs
  | find =>
      have hNot : f.pc.starts = none := by rw [hPc]; rfl
      rw [State.stepFrame, hPc]
      dsimp only
      split
      · rename_i u hFound
        refine h.found hTop rfl rfl rfl (fun hEvent _ => hLook ?_ u hFound) (hIdle hNot)
        rw [Frame.looksUp, hPc]
        exact hEvent
      · exact hGoto .init rfl rfl rfl hNot fun _ _ hIs => by cases hIs
  | init =>
      have hNot : f.pc.starts = none := by rw [hPc]; rfl
      rw [State.stepFrame, hPc]
      dsimp only
      split
      · exact hEnd rfl rfl rfl hNot
      · exact hGoto .mutex rfl rfl rfl hNot fun _ _ hIs => by cases hIs
  | mutex =>
      have hNot : f.pc.starts = none := by rw [hPc]; rfl
      rw [State.stepFrame, hPc]
      dsimp only
      rw [State.getMutex]
      split
      · rename_i mx _
        exact hGoto (.lock mx) rfl rfl rfl hNot fun _ _ hIs => by cases hIs
      · exact hGoto (.lock s.mutexes) rfl rfl rfl hNot fun _ _ hIs => by cases hIs
  | lock mx =>
      rw [State.stepFrame, hPc]
      exact hGoto (.check mx) rfl rfl rfl (by rw [hPc]; rfl) fun _ _ hIs => by cases hIs
  | check mx =>
      have hNot : f.pc.starts = none := by rw [hPc]; rfl
      rw [State.stepFrame, hPc]
      dsimp only
      split
      · rename_i u hFound
        refine h.found hTop rfl rfl rfl (fun _ hIs => ?_) (hIdle hNot)
        exact h.accepts hInv hTop (by rw [Frame.held, hPc]; rfl) hNot hFound hIs
      · exact hGoto (.constructors mx) rfl rfl rfl hNot fun _ _ hIs => by cases hIs
  | constructors mx =>
      have hNot : f.pc.starts = none := by rw [hPc]; rfl
      rw [State.stepFrame, hPc]
      dsimp only
      split
      · exact hGoto (.recheck mx) rfl rfl rfl hNot fun _ _ hIs => by cases hIs
      · exact hGoto (.plugin mx) rfl rfl rfl hNot fun _ _ hIs => by cases hIs
  | plugin mx =>
      have hNot : f.pc.starts = none := by rw [hPc]; rfl
      rw [State.stepFrame, hPc]
      dsimp only
      split
      · rename_i pn _
        exact hGoto (.load mx pn) rfl rfl rfl hNot fun _ _ hIs => by cases hIs
      · exact hEnd rfl rfl rfl hNot
  | reload mx =>
      have hNot : f.pc.starts = none := by rw [hPc]; rfl
      rw [State.stepFrame, hPc]
      dsimp only
      split
      · exact hGoto (.recheck mx) rfl rfl rfl hNot fun _ _ hIs => by cases hIs
      · exact hEnd rfl rfl rfl hNot
  | recheck mx =>
      have hNot : f.pc.starts = none := by rw [hPc]; rfl
      rw [State.stepFrame, hPc]
      dsimp only
      split
      · rename_i u hFound
        refine h.found hTop rfl rfl rfl (fun _ hIs => ?_) (hIdle hNot)
        exact h.accepts hInv hTop (by rw [Frame.held, hPc]; rfl) hNot hFound hIs
      · exact hGoto (.constructing mx) rfl rfl rfl hNot fun _ _ hIs => by cases hIs
  | insert mx u =>
      have hNot : f.pc.starts = none := by rw [hPc]; rfl
      rw [hPc] at hAt
      rw [State.stepFrame, hPc]
      refine h.turn hTop [{ f with pc := .start mx u }] rfl rfl
        (List.forall_mem_singleton.2 ⟨?_, fun _ _ hIs => by cases hIs⟩) fun sid u' hSome _ => ?_
      · exact (h.fine t f (hTop ▸ List.mem_cons_self)).1
      · have hSome' : Function.update s.services f.sid (some ((s.services f.sid).getD u)) sid =
            some u' := hSome
        rw [Function.update_apply, hAt.1] at hSome'
        split at hSome'
        · exact Or.inr (Or.inr ⟨_, List.mem_singleton.2 rfl, hSome'⟩)
        · exact Or.inl ⟨hSome', by rw [hNot]; exact (Option.some_ne_none u').symm⟩
  | start mx u =>
      have hStart : ∀ u', f.pc.starts = some u' ↔ u = u' := fun u' => by
        rw [hPc]
        exact Option.some_inj
      have hEvent := (h.fine t f (hTop ▸ List.mem_cons_self)).1
      rw [State.stepFrame, hPc]
      dsimp only
      split
      · refine h.turn hTop [{ f with pc := .starting mx u }] rfl rfl
          (List.forall_mem_singleton.2 ⟨hEvent, fun _ _ hIs => by cases hIs⟩) fun sid u' hSome _ => ?_
        by_cases hu : u = u'
        · exact Or.inr (Or.inr ⟨_, List.mem_singleton.2 rfl, by rw [hu]; rfl⟩)
        · exact Or.inl ⟨hSome, fun hStarts => hu ((hStart u').1 hStarts)⟩
      · rename_i hIsNot
        refine h.turn hTop [] rfl rfl (fun g hg => absurd hg List.not_mem_nil)
          fun sid u' hSome hIs => Or.inl ⟨hSome, fun hStarts => ?_⟩
        rw [(hStart u').1 hStarts] at hIsNot
        exact hIsNot hIs
  | starting mx u =>
      have hStart : ∀ u', f.pc.starts = some u' ↔ u = u' := fun u' => by
        rw [hPc]
        exact Option.some_inj
      have hProgress : s.progress f =
          some ((v.listener u.sid).progress (s.listener u) startService) := by
        rw [State.progress, Frame.listens, hPc]
        rfl
      have hReturned : (v.listener u.sid).progress (s.listener u) startService = .returned :=
        (hGoes.2.2.2 _ hProgress).resolve_right fun hThrew =>
          hThrow u ((hStart u).2 rfl) (by rw [hProgress, hThrew])
      have hAccepts : s.Accepts u := (v.listener u.sid).returned _ _ hReturned
      rw [State.stepFrame, hPc]
      dsimp only
      rw [if_pos hReturned]
      refine h.found hTop rfl rfl rfl (fun _ _ => hAccepts) fun u' hStarts => ?_
      rw [← (hStart u').1 hStarts]
      exact hAccepts
  | listening u e =>
      rw [State.stepFrame, hPc]
      exact hEnd rfl rfl rfl (by rw [hPc]; rfl)
  | load mx pn =>
      rw [State.stepFrame, hPc]
      exact h
  | constructing mx =>
      rw [State.stepFrame, hPc]
      exact h

/-- A listener gets on: with `startService`, or with `startService` accepted. -/
theorem started_listener (h : Started s) {a : (v.listener u.sid).Action}
    (hEn : s.Enabled (.listener t u a)) : Started (s.apply (.listener t u a)) := by
  obtain ⟨-, hAct, hCaller⟩ := hEn
  have hStays : ∀ u', s.Accepts u' → (s.apply (.listener t u a)).Accepts u' := by
    intro u' hOld
    show (v.listener u'.sid).accepted (Function.update s.listener u _ u') startService = true
    by_cases hu : u' = u
    · subst hu
      rw [Function.update_self]
      exact (v.listener u'.sid).stays _ _ _ hAct hOld
    · rw [Function.update_of_ne hu]
      exact hOld
  have hFirst : (v.listener u.sid).StartFirst (s.listener u) a := by
    intro e he
    obtain ⟨f, hHead, hListens⟩ := Option.bind_eq_some_iff.1 (hCaller e he)
    have hMem : f ∈ s.stack t := List.mem_of_mem_head? hHead
    cases hPc : f.pc with
    | starting mx u' =>
        rw [Frame.listens, hPc] at hListens
        exact Or.inl (congrArg Prod.snd (Option.some.inj hListens)).symm
    | listening u' e' =>
        rw [Frame.listens, hPc] at hListens
        obtain ⟨rfl, rfl⟩ := Prod.mk.inj (Option.some.inj hListens)
        exact Or.inr ((h.fine t f hMem).2 u' e' hPc).2
    | _ =>
        rw [Frame.listens, hPc] at hListens
        cases hListens
  constructor
  case fine =>
    intro t' g hMem
    obtain ⟨hEvent, hListening⟩ := h.fine t' g hMem
    exact ⟨hEvent, fun u' e hPc => (hListening u' e hPc).imp_right (hStays u')⟩
  case entry => exact fun sid u' hSome hIs => (h.entry sid u' hSome hIs).imp_left (hStays u')
  case listeners =>
    intro u'
    show Machine.Reachable _ (Function.update s.listener u _ u')
    by_cases hu : u' = u
    · subst hu
      rw [Function.update_self]
      exact (h.listeners u').step ⟨hAct, hFirst⟩
    · rw [Function.update_of_ne hu]
      exact h.listeners u'

/-- **Every timely step.** -/
theorem started_apply {a : Action v} (h : Started s) (hInv : Inv s) (hEn : s.Enabled a)
    (hTimely : Timely s a) : Started (s.apply a) := by
  cases a with
  | terminate => exact ⟨h.fine, h.entry, h.listeners⟩
  | register sid => exact ⟨h.fine, h.entry, h.listeners⟩
  | getServiceOrCreate t sid =>
      exact h.call t sid none .enter ⟨fun _ he => (by cases he), fun _ _ hIs => (by cases hIs)⟩
  | forwardEvent t sid =>
      obtain ⟨hFine, hEntry, hListeners⟩ := h.call t sid _ .enter
        (fine_of_calls s sid fun _ _ hIs => by cases hIs)
      exact ⟨hFine, hEntry, hListeners⟩
  | sendEvent t sid =>
      obtain ⟨hFine, hEntry, hListeners⟩ := h.call t sid _ .sendEvent
        (fine_of_calls s sid fun _ _ hIs => by cases hIs)
      exact ⟨hFine, hEntry, hListeners⟩
  | listenToEvent t u =>
      obtain ⟨hFine, hEntry, hListeners⟩ := h.call t u.sid _ (.listening u (s.calls + 1))
        (fine_of_calls s u.sid fun u' e hIs => by
          obtain ⟨rfl, rfl⟩ := Pc.listening.inj hIs
          exact ⟨Nat.succ_ne_zero _, hTimely⟩)
      exact ⟨hFine, hEntry, hListeners⟩
  | step t =>
      obtain ⟨f, rest, hTop, hGoes⟩ := exists_top hEn
      rw [State.apply, State.step, hTop]
      exact started_stepFrame h hInv hTop hGoes hTimely
  | registerPluginDLL t sids =>
      obtain ⟨f, rest, hTop, hLoad⟩ := exists_top hEn
      obtain ⟨mx, pn, hPc⟩ := Pc.eq_load hLoad
      rw [State.apply, State.registerPluginDLL, hTop]
      dsimp only
      rw [hPc]
      exact h.on hTop [{ f with pc := .reload mx }] rfl rfl rfl
        (forall_mem_goto f fun _ _ hIs => by cases hIs) (by rw [hPc]; rfl)
  | construct t =>
      obtain ⟨f, rest, hTop, hConstructs⟩ := exists_top hEn
      obtain ⟨mx, hPc⟩ := Pc.eq_constructing hConstructs
      rw [State.apply, State.construct, hTop]
      dsimp only
      rw [hPc]
      exact h.on hTop [{ f with pc := .insert mx _ }] rfl rfl rfl
        (forall_mem_goto f fun _ _ hIs => by cases hIs) (by rw [hPc]; rfl)
  | throws t =>
      obtain ⟨f, rest, hTop, hThrows⟩ := exists_top hEn
      have hNot : f.pc.starts = none := by
        rcases hThrows.pc with ⟨_, _, hPc⟩ | ⟨_, hPc⟩ | ⟨_, hPc⟩ <;> rw [hPc] <;> rfl
      rw [State.apply, State.throws, hTop]
      dsimp only
      split <;> exact h.on hTop [] rfl rfl rfl (fun g hg => absurd hg List.not_mem_nil) hNot
  | listener t u a => exact started_listener h hEn

/--
**`startService` first.** In every run in which no lookup for an event finds an
object that has not accepted `startService`, nor a direct send, and in which
`listenToEvent(startService)` does not throw: the first handler that the
listener of an object enters is that of `startService`.
-/
theorem start_first (hReach : ((machine v).guarded Timely).Reachable s) (u : Obj Sid) :
    ∀ e ∈ ((v.listener u.sid).begun (s.listener u)).head?, e = startService := by
  have h : Inv s ∧ Started s := Machine.Reachable.invariant (m := (machine v).guarded Timely)
    (I := fun s => Inv s ∧ Started s)
    (fun s hs => by
      obtain rfl : s = State.start v := hs
      exact ⟨inv_start, started_start⟩)
    (fun _ _ hs hEn => ⟨inv_apply hs.1 hEn.1, started_apply hs.2 hs.1 hEn.1 hEn.2⟩) hReach
  exact (v.listener u.sid).first _ (h.2.listeners u)

end StartFirst

/-- A service is asked for, and gets an event when it is there. -/
def inTime : List (Action (.plain Nat)) :=
  [.register 5, .getServiceOrCreate 1 5, .step 1, .step 1, .step 1, .step 1, .step 1, .step 1,
   .step 1, .step 1, .construct 1, .step 1, .step 1,
   .listener 1 ⟨5, 0⟩ (.listenToEvent startService), .forwardEvent 2 5, .step 2, .step 2,
   .listener 2 ⟨5, 0⟩ (.listenToEvent 1)]

theorem inTime_first : (ListenerSimple.listener.begun
    (((machine (.plain Nat)).exec (.start (.plain Nat)) inTime).listener ⟨5, 0⟩)).head? =
      some startService := by
  have hSome : (ListenerSimple.listener.begun (((machine (.plain Nat)).exec
      (.start (.plain Nat)) inTime).listener ⟨5, 0⟩)).head?.isSome := by decide +kernel
  obtain ⟨e, hBegun⟩ := Option.isSome_iff_exists.mp hSome
  have hFirst : e = startService :=
    start_first ⟨_, inTime, rfl, by decide +kernel, Machine.exec_guarded _ _ _ _⟩ ⟨5, 0⟩ e hBegun
  rw [hBegun, hFirst]

/-- The event comes between the entry in the table and `startService`. -/
def overtaken : List (Action (.plain Nat)) :=
  [.register 5, .getServiceOrCreate 1 5, .step 1, .step 1, .step 1, .step 1, .step 1, .step 1,
   .step 1, .step 1, .construct 1, .step 1, .forwardEvent 2 5, .step 2, .step 2,
   .listener 2 ⟨5, 0⟩ (.listenToEvent 1)]

theorem overtaken_not_first :
    ¬ ∀ s, (machine (.plain Nat)).Reachable s → ∀ u,
      ∀ e ∈ (((Setup.plain Nat).listener u.sid).begun (s.listener u)).head?, e = startService := by
  intro h
  have hFirst := h _ ⟨_, overtaken, rfl, by decide +kernel, rfl⟩ ⟨5, 0⟩ 1 (by decide +kernel)
  revert hFirst
  decide +kernel

end Megatron.CInstance
