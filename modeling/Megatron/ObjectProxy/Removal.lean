import Megatron.Corelib.Route
import Megatron.Lib.Machine

/-!
# Object handlers and their removal

A proxy keeps its handlers as the bytes of their addresses.  An event carries
such bytes in its route; the proxy looks them up with `__m_lock` held, makes a
pointer of them again, gives the lock away and calls the handler it points to.
The destructor of a handler removes the bytes, with the lock held as well.

An `Action` is one critical section, or the start or the end of a call.  The
events are what the environment sends, the addresses what the allocator hands
out; both proxies are the same up to the type of the route element.

## Main results

* `State.looked_cases` — a handler is only called that is registered at the
  time of the look-up.
* `removal_iff` — the runs in which no handler is called past its removal are
  those in which none is removed between the look-up and the end of its call.
-/

namespace Megatron.ObjectProxy

open Megatron.Corelib Megatron.Lib

/-! ## Addresses -/

/-- `std::string((char*)&h, sizeof(h))`, on a little-endian machine. -/
def addrBytes (h : UInt64) : Bytes := (List.range 8).map fun i => UInt8.ofNat (h.toNat / 256 ^ i)

/-- `memcpy((char*)&OH, aid.data(), sizeof(OH))`. -/
def addrOf (aid : Bytes) : UInt64 := UInt64.ofNat (aid.foldr (fun c n => c.toNat + 256 * n) 0)

theorem addrOf_addrBytes (h : UInt64) : addrOf (addrBytes h) = h := by
  have hLt := h.toNat_lt
  rw [← UInt64.toNat_inj, addrOf, addrBytes]
  simp only [List.range, List.range.loop, List.map_cons, List.map_nil, List.foldr_cons,
    List.foldr_nil, UInt8.toNat_ofNat', UInt64.toNat_ofNat']
  omega

theorem addrBytes_addrOf {aid : Bytes} (h : aid.length = 8) : addrBytes (addrOf aid) = aid := by
  rcases aid with _ | ⟨a, _ | ⟨b, _ | ⟨c, _ | ⟨d, _ | ⟨e, _ | ⟨f, _ | ⟨g, _ | ⟨i, rest⟩⟩⟩⟩⟩⟩⟩⟩
  all_goals simp only [List.length_cons, List.length_nil, Nat.reduceAdd, Nat.reduceEqDiff,
    List.length_eq_zero_iff] at h
  subst h
  have ha := a.toNat_lt
  have hb := b.toNat_lt
  have hc := c.toNat_lt
  have hd := d.toNat_lt
  have he := e.toNat_lt
  have hf := f.toNat_lt
  have hg := g.toNat_lt
  have hi := i.toNat_lt
  simp only [addrOf, addrBytes, List.range, List.range.loop, List.map_cons, List.map_nil,
    List.foldr_cons, List.foldr_nil, UInt64.toNat_ofNat', List.cons.injEq, and_true,
    ← UInt8.toNat_inj, UInt8.toNat_ofNat']
  omega

/-! ## Events -/

/-- The two proxies. -/
inductive Kind
  | polled
  | threaded
  deriving DecidableEq

/-- What `handleEvent` tells apart, with the routes it reads. -/
inductive Incoming
  | startService
  | incomingOnAcceptor
  | incomingOnConnector (route inner : RouteT)
  | other (route : RouteT)
  deriving DecidableEq

/-- The bytes in an element of the proxy's own type. -/
def Kind.addr : Kind → Route → Option Bytes
  | .polled, .objectHandlerPolled addr => some addr
  | .threaded, .objectHandlerThreaded addr => some addr
  | _, _ => none

/-- `e->route.pop_front()`, and the type test. -/
def Kind.front (kind : Kind) : RouteT → Except CommonError (Option Bytes)
  | [] => .error ⟨"route_t::pop_front: m_container.size()==0 "⟩
  | r :: _ => .ok (kind.addr r)

/-- `handleEvent` up to the lock: the bytes to look up.  An answer is
found by the route of the event inside. -/
def Kind.wanted (kind : Kind) : Incoming → Except CommonError (Option Bytes)
  | .startService => .ok none
  | .incomingOnAcceptor => .error ⟨"rpcIncomingOnAcceptor here "⟩
  | .incomingOnConnector _ inner => kind.front inner
  | .other route => kind.front route

/-! ## The proxy and the handlers -/

/-- The service thread: anywhere else, behind `M_UNLOCK` on its way into
`OH`, or inside `OH->OH_handleObjectEvent`. -/
inductive Phase
  | idle
  | unlocked (OH : UInt64)
  | calling (OH : UInt64)
  deriving DecidableEq

/-- The handler the thread has in hand. -/
def Phase.held : Phase → Option UInt64
  | .idle => none
  | .unlocked OH => some OH
  | .calling OH => some OH

/-- `mxHandlers` is `__mx_handlers`; `removed` holds the addresses whose
`removeObjectHandler` has returned and that no new handler was made at. -/
structure State where
  mxHandlers : List Bytes
  phase : Phase
  removed : List UInt64
  deriving DecidableEq

/-- A call ends in any way: what the handler returns or throws is only logged. -/
inductive Action
  | addObjectHandler (h : UInt64)
  | removeObjectHandler (h : UInt64)
  | look (e : Incoming)
  | call
  | finish
  deriving DecidableEq

namespace State

def start : State := ⟨[], .idle, []⟩

/-- The critical section of `handleEvent`. -/
def find (s : State) (addr : Bytes) : Phase :=
  if addr ∈ s.mxHandlers then
    if addr.length = 8 then .unlocked (addrOf addr) else .idle
  else .idle

/-- `handleEvent`, up to `M_UNLOCK`. -/
def look (kind : Kind) (s : State) (e : Incoming) : State :=
  match kind.wanted e with
  | .ok (some addr) => { s with phase := s.find addr }
  | _ => s

def apply (kind : Kind) (s : State) : Action → State
  | .addObjectHandler h =>
      { s with
        mxHandlers := s.mxHandlers.insert (addrBytes h)
        removed := s.removed.filter (· ≠ h) }
  | .removeObjectHandler h =>
      { s with mxHandlers := s.mxHandlers.filter (· ≠ addrBytes h), removed := h :: s.removed }
  | .look e => s.look kind e
  | .call =>
      match s.phase with
      | .unlocked OH => { s with phase := .calling OH }
      | _ => s
  | .finish => { s with phase := .idle }

/-- A handler is made where none is, and destroyed once. -/
def Enabled (s : State) : Action → Prop
  | .addObjectHandler h => addrBytes h ∉ s.mxHandlers
  | .removeObjectHandler h => addrBytes h ∈ s.mxHandlers
  | .look _ => s.phase = .idle
  | .call => ∃ OH ∈ s.phase.held, s.phase = .unlocked OH
  | .finish => ∃ OH ∈ s.phase.held, s.phase = .calling OH

instance (s : State) : (a : Action) → Decidable (s.Enabled a)
  | .addObjectHandler h => inferInstanceAs (Decidable (addrBytes h ∉ s.mxHandlers))
  | .removeObjectHandler h => inferInstanceAs (Decidable (addrBytes h ∈ s.mxHandlers))
  | .look _ => inferInstanceAs (Decidable (s.phase = .idle))
  | .call => inferInstanceAs (Decidable (∃ OH ∈ s.phase.held, s.phase = .unlocked OH))
  | .finish => inferInstanceAs (Decidable (∃ OH ∈ s.phase.held, s.phase = .calling OH))

end State

/-- The proxy and any handlers, interleaved in any order. -/
def machine (kind : Kind) : Machine State Action where
  init s := s = .start
  enabled := State.Enabled
  apply := State.apply kind

instance (kind : Kind) (s : State) (a : Action) : Decidable ((machine kind).enabled s a) :=
  inferInstanceAs (Decidable (s.Enabled a))

/-- A handler that has been removed is being called. -/
def Late (s : State) : Prop := ∃ h ∈ s.removed, s.phase = .calling h

/-- No handler that has been removed is being called, nor is when the thread
goes on. -/
def Safe (kind : Kind) (s : State) : Prop := ¬ Late s ∧ ¬ Late (s.apply kind .call)

/-- No handler is removed while the thread has it in hand. -/
def Spares (s : State) : Action → Prop
  | .removeObjectHandler h => s.phase.held ≠ some h
  | _ => True

instance (s : State) : (a : Action) → Decidable (Spares s a)
  | .removeObjectHandler h => inferInstanceAs (Decidable (s.phase.held ≠ some h))
  | .addObjectHandler _ => .isTrue trivial
  | .look _ => .isTrue trivial
  | .call => .isTrue trivial
  | .finish => .isTrue trivial

variable {kind : Kind} {s : State}

/-! ## Steps -/

/-- **The look-up.** It stays idle or comes out with a registered handler. -/
theorem State.looked_cases (kind : Kind) (s : State) (e : Incoming) :
    s.look kind e = s ∨ ∃ p, s.look kind e = { s with phase := p } ∧
      ∀ OH ∈ p.held, addrBytes OH ∈ s.mxHandlers := by
  rw [State.look]
  split
  · rename_i addr _
    refine Or.inr ⟨s.find addr, rfl, fun OH hHeld => ?_⟩
    rw [State.find] at hHeld
    split at hHeld
    · rename_i hMem
      split at hHeld
      · rename_i hLen
        obtain rfl : addrOf addr = OH := Option.some.inj hHeld
        rw [addrBytes_addrOf hLen]
        exact hMem
      · cases hHeld
    · cases hHeld
  · exact Or.inl rfl

/-- Going on does not change which handler the thread has in hand. -/
theorem safe_iff : Safe kind s ↔ ∀ OH ∈ s.phase.held, OH ∉ s.removed := by
  rw [Safe, Late, Late, State.apply]
  cases hPhase : s.phase with
  | idle => simp [Phase.held, hPhase]
  | unlocked OH => simp [Phase.held]
  | calling OH => simp [Phase.held, hPhase]

/-- What has been removed is not registered. -/
def Inv (s : State) : Prop := ∀ h ∈ s.removed, addrBytes h ∉ s.mxHandlers

theorem inv_apply (h : Inv s) (a : Action) : Inv (s.apply kind a) := by
  cases a with
  | addObjectHandler h₀ =>
      intro h₁ hMem
      obtain ⟨hOld, hNe⟩ := List.mem_filter.1 hMem
      have hBytes : addrBytes h₁ ≠ addrBytes h₀ := by
        intro hSame
        have hAddr := congrArg addrOf hSame
        rw [addrOf_addrBytes, addrOf_addrBytes] at hAddr
        exact of_decide_eq_true hNe hAddr
      rw [State.apply, List.mem_insert_iff, not_or]
      exact ⟨hBytes, h h₁ hOld⟩
  | removeObjectHandler h₀ =>
      intro h₁ hMem hHandlers
      obtain ⟨hOld, hNe⟩ := List.mem_filter.1 hHandlers
      rcases List.mem_cons.1 hMem with rfl | hMem
      · exact of_decide_eq_true hNe rfl
      · exact h h₁ hMem hOld
  | look e =>
      rcases s.looked_cases kind e with hSame | ⟨p, hLook, -⟩
      · rw [State.apply, hSame]
        exact h
      · rw [State.apply, hLook]
        exact h
  | call =>
      rw [State.apply]
      split
      · exact h
      · exact h
  | finish => exact h

/-- One step keeps the property if and only if it meets the condition. -/
theorem safe_apply (hInv : Inv s) (hSafe : Safe kind s) {a : Action} (hEn : s.Enabled a) :
    Safe kind (s.apply kind a) ↔ Spares s a := by
  rw [safe_iff] at hSafe ⊢
  cases a with
  | addObjectHandler h₀ =>
      refine iff_of_true (fun OH hHeld hMem => ?_) trivial
      exact hSafe OH hHeld (List.mem_filter.1 hMem).1
  | removeObjectHandler h₀ =>
      constructor
      · intro hNext hHeld
        exact hNext h₀ hHeld List.mem_cons_self
      · intro hSpares OH hHeld hMem
        rcases List.mem_cons.1 hMem with rfl | hMem
        · exact hSpares hHeld
        · exact hSafe OH hHeld hMem
  | look e =>
      refine iff_of_true ?_ trivial
      rcases s.looked_cases kind e with hSame | ⟨p, hLook, hRegistered⟩
      · rw [State.apply, hSame]
        exact hSafe
      · rw [State.apply, hLook]
        exact fun OH hHeld hMem => hInv OH hMem (hRegistered OH hHeld)
  | call =>
      refine iff_of_true ?_ trivial
      obtain ⟨OH, -, hPhase⟩ := hEn
      rw [hPhase] at hSafe
      rw [State.apply, hPhase]
      exact hSafe
  | finish => exact iff_of_true (fun OH hHeld => by cases hHeld) trivial

/--
**Removal.** Under every interleaving, the runs in which no call of a handler
is running or started once `removeObjectHandler` has returned are the runs in
which no handler is removed between its look-up and the end of its call.
-/
theorem removal_iff (kind : Kind) {acts : List Action}
    (hPath : (machine kind).Path .start acts) :
    (machine kind).Along (Safe kind) .start acts ↔
      ((machine kind).guarded Spares).Path .start acts :=
  Machine.along_iff_path_guarded (J := Inv) (fun _ a hInv _ => inv_apply hInv a)
    (fun _ _ hInv hSafe hEn => safe_apply hInv hSafe hEn) acts .start
    (fun _ hMem => absurd hMem List.not_mem_nil)
    (safe_iff.2 fun _ hHeld => by cases hHeld) hPath

/-- An event for the handler at `h`. -/
def eventFor (h : UInt64) : Incoming := .other [.objectHandlerPolled (addrBytes h)]

/-- A handler is made, called, and destroyed. -/
def calledOnce : List Action :=
  [.addObjectHandler 8, .look (eventFor 8), .call, .finish, .removeObjectHandler 8,
   .look (eventFor 8)]

theorem calledOnce_safe : (machine .polled).Along (Safe .polled) .start calledOnce :=
  (removal_iff .polled (by decide +kernel)).2 (by decide +kernel)

/-- A handler is destroyed between the look-up and the call. -/
def calledLate : List Action :=
  [.addObjectHandler 8, .look (eventFor 8), .removeObjectHandler 8, .call]

/-- The proxy calls a handler that has been destroyed. -/
theorem calledLate_late :
    (machine .polled).Path .start calledLate ∧
      Late ((machine .polled).exec .start calledLate) ∧
      ¬ ∀ kind s, (machine kind).Reachable s → ¬ Late s := by
  have hPath : (machine .polled).Path .start calledLate := by decide +kernel
  have hLate : Late ((machine .polled).exec .start calledLate) :=
    ⟨8, by decide +kernel, by decide +kernel⟩
  exact ⟨hPath, hLate, fun hNever =>
    hNever .polled _ ⟨.start, calledLate, rfl, hPath, rfl⟩ hLate⟩

end Megatron.ObjectProxy
