import Megatron.Instance.Listeners

/-!
# The services of an instance

`CInstance` makes its services when they are first asked for.  A lookup takes
`services.m_lock`, and only that; where it finds nothing, `initService` takes a
mutex of the service's own, out of a map behind a third one, and looks again.
It then finds a constructor, loading a plugin for it where there is none, calls
it, enters the object into the container, and gives it `startService`.

A thread is a stack of calls: a constructor, and a handler on the thread that
calls, call on.  `step` is one critical section, one unlocked read, or one test
of `m_terminating`; where a mutex is given back, it is with the step before.  A
mutex is not recursive.  `DEBUG` builds give up waiting for one after ten
seconds.

## Main results

* `machine` — any threads, asking for any services, in any order.
-/

namespace Megatron.CInstance

open Megatron.Lib

/-- A thread. -/
abbrev Tid := Nat

/-- A mutex in `mx_initInProcess`. -/
abbrev Mx := Nat

/-- An object a constructor has returned. -/
structure Obj (Sid : Type) where
  sid : Sid
  id : Nat
  deriving DecidableEq

/-- What does not change: the plugin a service is in, the listener it is, and
whether `dynamic_cast<ListenerBase*>` succeeds. -/
structure Setup (Sid : Type) where
  pluginInfo : Sid → Option String
  listener : Sid → Listener
  isListener : Sid → Bool

/-- Everything is a `ListenerSimple`, and in no plugin. -/
def Setup.plain (Sid : Type) : Setup Sid where
  pluginInfo _ := none
  listener _ := ListenerSimple.listener
  isListener _ := true

/-- Where a call is.  From `init` on it is in `initService`, up to `starting`. -/
inductive Pc (Sid : Type)
  | sendEvent
  | enter
  | find
  | init
  | mutex
  | lock (mx : Mx)
  | check (mx : Mx)
  | constructors (mx : Mx)
  | plugin (mx : Mx)
  | load (mx : Mx) (pn : String)
  | reload (mx : Mx)
  | recheck (mx : Mx)
  /-- in `constr` -/
  | constructing (mx : Mx)
  | insert (mx : Mx) (u : Obj Sid)
  | start (mx : Mx) (u : Obj Sid)
  /-- in `listenToEvent(startService)` -/
  | starting (mx : Mx) (u : Obj Sid)
  /-- in `listenToEvent(e)` -/
  | listening (u : Obj Sid) (e : Ev)

/-- The mutex that is to be taken, or has been. -/
def Pc.mutex? {Sid : Type} : Pc Sid → Option Mx
  | .lock mx => some mx
  | .check mx => some mx
  | .constructors mx => some mx
  | .plugin mx => some mx
  | .load mx _ => some mx
  | .reload mx => some mx
  | .recheck mx => some mx
  | .constructing mx => some mx
  | .insert mx _ => some mx
  | .start mx _ => some mx
  | .starting mx _ => some mx
  | _ => none

/-- The mutex that has been taken. -/
def Pc.held {Sid : Type} : Pc Sid → Option Mx
  | .lock _ => none
  | pc => pc.mutex?

/-- The mutex that is waited for. -/
def Pc.wanted {Sid : Type} : Pc Sid → Option Mx
  | .lock mx => some mx
  | _ => none

/-- In `registerPluginDLL`. -/
def Pc.loading {Sid : Type} : Pc Sid → Bool
  | .load _ _ => true
  | _ => false

/-- In `constr`. -/
def Pc.constructs {Sid : Type} : Pc Sid → Bool
  | .constructing _ => true
  | _ => false

/-- A call: for which service, and with which event, unless it only wants the
service. -/
structure Frame (Sid : Type) where
  sid : Sid
  event : Option Ev
  pc : Pc Sid

/-- The call of `listenToEvent` it is in. -/
def Frame.listens {Sid : Type} (f : Frame Sid) : Option (Obj Sid × Ev) :=
  match f.pc with
  | .starting _ u => some (u, startService)
  | .listening u e => some (u, e)
  | _ => none

/-- The instance and its threads.  `constructors` are the services with an entry
in `service_constructors`; `constructed`, `sent` and `obtained` are histories:
what constructors have returned, what `startService` has been sent to, and who
has got what for which service. -/
structure State {Sid : Type} (v : Setup Sid) where
  terminating : Bool
  services : Sid → Option (Obj Sid)
  mxInitInProcess : Sid → Option Mx
  mutexes : Nat
  holder : Mx → Option Tid
  constructors : Sid → Bool
  stack : Tid → List (Frame Sid)
  calls : Nat
  listener : (u : Obj Sid) → (v.listener u.sid).State
  constructed : List (Obj Sid)
  sent : List (Obj Sid)
  obtained : List (Sid × Obj Sid)

/-- `register` is `registerService`, called by whoever loads a plugin;
`listenToEvent` is `sendEvent` and `passEvent` with a `ListenerBase*`.
`registerPluginDLL` registers the constructors of `sids`, none where it fails. -/
inductive Action {Sid : Type} (v : Setup Sid)
  | terminate
  | register (sid : Sid)
  | getServiceOrCreate (t : Tid) (sid : Sid)
  | forwardEvent (t : Tid) (sid : Sid)
  | sendEvent (t : Tid) (sid : Sid)
  | listenToEvent (t : Tid) (u : Obj Sid)
  | step (t : Tid)
  | registerPluginDLL (t : Tid) (sids : List Sid)
  | construct (t : Tid)
  | throws (t : Tid)
  | listener (t : Tid) (u : Obj Sid) (a : (v.listener u.sid).Action)

namespace State

variable {Sid : Type} [DecidableEq Sid] {v : Setup Sid}

def start (v : Setup Sid) : State v where
  terminating := false
  services _ := none
  mxInitInProcess _ := none
  mutexes := 0
  holder _ := none
  constructors _ := false
  stack _ := []
  calls := 0
  listener u := (v.listener u.sid).start
  constructed := []
  sent := []
  obtained := []

/-! ## The steps -/

def setStack (s : State v) (t : Tid) (fs : List (Frame Sid)) : State v :=
  { s with stack := Function.update s.stack t fs }

/-- The call gets on. -/
def goto (s : State v) (t : Tid) (f : Frame Sid) (rest : List (Frame Sid)) (pc : Pc Sid) :
    State v :=
  s.setStack t ({ f with pc := pc } :: rest)

def unlock (s : State v) (mx : Mx) : State v :=
  { s with holder := Function.update s.holder mx none }

/-- A call, with an event of its own where it has one. -/
def call (s : State v) (t : Tid) (sid : Sid) (event : Option Ev) (pc : Pc Sid) : State v :=
  s.setStack t (⟨sid, event, pc⟩ :: s.stack t)

/-- The call has got its service; with an event, it hands it over. -/
def found (s : State v) (t : Tid) (f : Frame Sid) (rest : List (Frame Sid)) (u : Obj Sid) :
    State v :=
  { s with obtained := s.obtained ++ [(f.sid, u)] }.setStack t <|
    match f.event with
    | some e => if v.isListener u.sid then { f with pc := .listening u e } :: rest else rest
    | none => rest

/-- The mutex of a service, a new one the first time. -/
def getMutex (s : State v) (t : Tid) (f : Frame Sid) (rest : List (Frame Sid)) : State v :=
  match s.mxInitInProcess f.sid with
  | some mx => s.goto t f rest (.lock mx)
  | none =>
      { s.goto t f rest (.lock s.mutexes) with
        mxInitInProcess := Function.update s.mxInitInProcess f.sid (some s.mutexes)
        mutexes := s.mutexes + 1 }

/-- What the topmost call of a thread does next. -/
def stepFrame (s : State v) (t : Tid) (f : Frame Sid) (rest : List (Frame Sid)) : State v :=
  match f.pc with
  | .sendEvent => if s.terminating then s.setStack t rest else s.goto t f rest .enter
  | .enter => if s.terminating then s.setStack t rest else s.goto t f rest .find
  | .find =>
      match s.services f.sid with
      | some u => s.found t f rest u
      | none => s.goto t f rest .init
  | .init => if s.terminating then s.setStack t rest else s.goto t f rest .mutex
  | .mutex => s.getMutex t f rest
  | .lock mx =>
      { s.goto t f rest (.check mx) with holder := Function.update s.holder mx (some t) }
  | .check mx =>
      match s.services f.sid with
      | some u => (s.unlock mx).found t f rest u
      | none => s.goto t f rest (.constructors mx)
  | .constructors mx =>
      if s.constructors f.sid then s.goto t f rest (.recheck mx)
      else s.goto t f rest (.plugin mx)
  | .plugin mx =>
      match v.pluginInfo f.sid with
      | some pn => s.goto t f rest (.load mx pn)
      | none => (s.unlock mx).setStack t rest
  | .reload mx =>
      if s.constructors f.sid then s.goto t f rest (.recheck mx)
      else (s.unlock mx).setStack t rest
  | .recheck mx =>
      match s.services f.sid with
      | some u => (s.unlock mx).found t f rest u
      | none => s.goto t f rest (.constructing mx)
  | .insert mx u =>
      -- `std::map::insert` leaves an entry that is there
      { s.goto t f rest (.start mx u) with
        services := Function.update s.services f.sid (some ((s.services f.sid).getD u)) }
  | .start mx u =>
      if v.isListener u.sid then
        { s.goto t f rest (.starting mx u) with sent := s.sent ++ [u] }
      else (s.unlock mx).setStack t rest
  | .starting mx u =>
      if (v.listener u.sid).progress (s.listener u) startService = .returned then
        (s.unlock mx).found t f rest u
      else (s.unlock mx).setStack t rest
  | .listening _ _ => s.setStack t rest
  | _ => s

def step (s : State v) (t : Tid) : State v :=
  match s.stack t with
  | f :: rest => s.stepFrame t f rest
  | [] => s

/-- `registerPluginDLL` has come back. -/
def registerPluginDLL (s : State v) (t : Tid) (sids : List Sid) : State v :=
  match s.stack t with
  | f :: rest =>
      match f.pc with
      | .load mx _ =>
          { s.goto t f rest (.reload mx) with
            constructors := fun sid => s.constructors sid || decide (sid ∈ sids) }
      | _ => s
  | [] => s

/-- `constr` has returned an object. -/
def construct (s : State v) (t : Tid) : State v :=
  match s.stack t with
  | f :: rest =>
      match f.pc with
      | .constructing mx =>
          { s.goto t f rest (.insert mx ⟨f.sid, s.constructed.length⟩) with
            constructed := s.constructed ++ [⟨f.sid, s.constructed.length⟩] }
      | _ => s
  | [] => s

/-- The topmost call ends with an exception. -/
def throws (s : State v) (t : Tid) : State v :=
  match s.stack t with
  | f :: rest =>
      match f.pc.held with
      | some mx => (s.unlock mx).setStack t rest
      | none => s.setStack t rest
  | [] => s

def apply (s : State v) : Action v → State v
  | .terminate => { s with terminating := true }
  | .register sid => { s with constructors := Function.update s.constructors sid true }
  | .getServiceOrCreate t sid => s.call t sid none .enter
  | .forwardEvent t sid => { s.call t sid (some (s.calls + 1)) .enter with calls := s.calls + 1 }
  | .sendEvent t sid => { s.call t sid (some (s.calls + 1)) .sendEvent with calls := s.calls + 1 }
  | .listenToEvent t u =>
      { s.call t u.sid (some (s.calls + 1)) (.listening u (s.calls + 1)) with
        calls := s.calls + 1 }
  | .step t => s.step t
  | .registerPluginDLL t sids => s.registerPluginDLL t sids
  | .construct t => s.construct t
  | .throws t => s.throws t
  | .listener _ u a =>
      { s with listener := Function.update s.listener u ((v.listener u.sid).apply (s.listener u) a) }

/-- Where the call of `listenToEvent` is that a call is in. -/
def progress (s : State v) (f : Frame Sid) : Option Progress :=
  f.listens.map fun x => (v.listener x.1.sid).progress (s.listener x.1) x.2

/-- A call goes on by itself: not while it waits for a mutex, and not in
`registerPluginDLL`, a constructor or a listener. -/
def Goes (s : State v) (f : Frame Sid) : Prop :=
  (∀ mx ∈ f.pc.wanted, s.holder mx = none) ∧ f.pc.loading = false ∧ f.pc.constructs = false ∧
    ∀ p ∈ s.progress f, p = .returned ∨ p = .threw

/-- A constructor may call, and a handler. -/
def MayCall (s : State v) (f : Frame Sid) : Prop :=
  f.pc.constructs = true ∨ s.progress f = some .handling

/-- What may throw: `registerPluginDLL`, a constructor, and `lock()`. -/
def MayThrow (f : Frame Sid) : Prop :=
  f.pc.loading = true ∨ f.pc.constructs = true ∨ f.pc.wanted.isSome = true

instance (s : State v) (f : Frame Sid) : Decidable (s.Goes f) :=
  inferInstanceAs (Decidable (_ ∧ _ ∧ _ ∧ _))

instance (s : State v) (f : Frame Sid) : Decidable (s.MayCall f) :=
  inferInstanceAs (Decidable (_ ∨ _))

instance (f : Frame Sid) : Decidable (MayThrow f) := inferInstanceAs (Decidable (_ ∨ _ ∨ _))

def Enabled (s : State v) : Action v → Prop
  | .terminate => True
  | .register _ => True
  | .getServiceOrCreate t _ => ∀ f ∈ (s.stack t).head?, s.MayCall f
  | .forwardEvent t _ => ∀ f ∈ (s.stack t).head?, s.MayCall f
  | .sendEvent t _ => ∀ f ∈ (s.stack t).head?, s.MayCall f
  | .listenToEvent t u =>
      (∀ f ∈ (s.stack t).head?, s.MayCall f) ∧ (u.sid, u) ∈ s.obtained ∧ v.isListener u.sid = true
  | .step t => ∃ f ∈ (s.stack t).head?, s.Goes f
  | .registerPluginDLL t _ => ∃ f ∈ (s.stack t).head?, f.pc.loading = true
  | .construct t => ∃ f ∈ (s.stack t).head?, f.pc.constructs = true
  | .throws t => ∃ f ∈ (s.stack t).head?, MayThrow f
  | .listener t u a =>
      u ∈ s.constructed ∧ (v.listener u.sid).enabled (s.listener u) a ∧
        ∀ e ∈ (v.listener u.sid).caller a, ((s.stack t).head?.bind Frame.listens) = some (u, e)

instance (s : State v) : (a : Action v) → Decidable (s.Enabled a)
  | .terminate => .isTrue trivial
  | .register _ => .isTrue trivial
  | .getServiceOrCreate _ _ => inferInstanceAs (Decidable (∀ _ ∈ _, _))
  | .forwardEvent _ _ => inferInstanceAs (Decidable (∀ _ ∈ _, _))
  | .sendEvent _ _ => inferInstanceAs (Decidable (∀ _ ∈ _, _))
  | .listenToEvent _ _ => inferInstanceAs (Decidable (_ ∧ _ ∧ _))
  | .step _ => inferInstanceAs (Decidable (∃ _ ∈ _, _))
  | .registerPluginDLL _ _ => inferInstanceAs (Decidable (∃ _ ∈ _, _))
  | .construct _ => inferInstanceAs (Decidable (∃ _ ∈ _, _))
  | .throws _ => inferInstanceAs (Decidable (∃ _ ∈ _, _))
  | .listener _ _ _ => inferInstanceAs (Decidable (_ ∧ _ ∧ _))

end State

/-- The instance, and the threads that call it. -/
def machine {Sid : Type} [DecidableEq Sid] (v : Setup Sid) : Machine (State v) (Action v) where
  init s := s = .start v
  enabled := State.Enabled
  apply := State.apply

instance {Sid : Type} [DecidableEq Sid] (v : Setup Sid) (s : State v) (a : Action v) :
    Decidable ((machine v).enabled s a) :=
  inferInstanceAs (Decidable (s.Enabled a))

end Megatron.CInstance
