import Megatron.Corelib.IoBuffer

/-!
# Routes: `route_t`

An event carries the list of places it still has to pass.  A service that
sends an event on pushes the next place on the front, a reply travels by
popping.  On the wire a route is a packed size followed by its elements, each
a packed type and the content that type has; a pointer to a listener cannot
be packed.

## Main results

* `reads_unpackRoute` — unpacking inverts packing, for every packable route.
-/

namespace Megatron.Corelib

/-- `SERVICE_id`: a string. -/
abbrev ServiceId := Bytes

/-- `SOCKET_id`: an `int64_t`. -/
abbrev SocketId := Int64

/-- The subclasses of `Route`; a listener is the address of an object. -/
inductive Route where
  | localService (id : ServiceId)
  | remoteAddr (addr : SocketId)
  | objectHandlerPolled (addr : Bytes)
  | socketRoute (id : SocketId)
  | objectHandlerThreaded (addr : Bytes)
  | thread (id : Int32)
  | listener (id : Nat)
  deriving DecidableEq, Repr

/-- `route_t`: the container, front first. -/
abbrev RouteT := List Route

/-! ## Packing -/

/-- The `pack` of every subclass; the type is written as an `int`. -/
def Route.pack : Route → Except CommonError Bytes
  | .localService id => .ok (putPN 1 ++ putPSTR id)
  | .remoteAddr addr => .ok (putPN 2 ++ putPN addr.toUInt64)
  | .objectHandlerPolled addr => .ok (putPN 3 ++ putPSTR addr)
  | .socketRoute id => .ok (putPN 4 ++ putPN id.toUInt64)
  | .objectHandlerThreaded addr => .ok (putPN 5 ++ putPSTR addr)
  | .thread id => .ok (putPN 6 ++ putPN id.toInt64.toUInt64)
  | .listener _ => .error ⟨"try to pack ListenerRoute"⟩

/-- The elements one behind the other. -/
def packElements : RouteT → Except CommonError Bytes
  | [] => .ok []
  | r :: rs => do
      let e ← r.pack
      let es ← packElements rs
      return e ++ es

/-- `route_t::pack`. -/
def packRoute (r : RouteT) : Except CommonError Bytes := do
  let es ← packElements r
  return putPN (UInt64.ofNat r.length) ++ es

/-- The `unpack` of the element of type `t`; a type without a case adds
nothing. -/
def unpackElement (t : Int32) : Reader (Option Route) :=
  if t = 7 then throw ⟨"route unpack for listener"⟩
  else if t = 1 then do return some (.localService (← getPSTR))
  else if t = 6 then do return some (.thread (← getPN).toInt64.toInt32)
  else if t = 2 then do return some (.remoteAddr (← getPN).toInt64)
  else if t = 3 then do return some (.objectHandlerPolled (← getPSTR))
  else if t = 5 then do return some (.objectHandlerThreaded (← getPSTR))
  else if t = 4 then do return some (.socketRoute (← getPN).toInt64)
  else return none

/-- The loop of `route_t::unpack` over the `sz` announced elements. -/
def unpackElements : Nat → Reader RouteT
  | 0 => return []
  | sz + 1 => do
      let t ← getPN
      let r ← unpackElement t.toInt64.toInt32
      let rs ← unpackElements sz
      return r.toList ++ rs

/-- `route_t::unpack`. -/
def unpackRoute : Reader RouteT := do
  let sz ← getPN
  unpackElements sz.toNat

/-! ## Round trip -/

/-- Every string of the element has a length a packed number can carry. -/
def Route.Fits : Route → Prop
  | .localService id => id.length < 2 ^ 64
  | .objectHandlerPolled addr => addr.length < 2 ^ 64
  | .objectHandlerThreaded addr => addr.length < 2 ^ 64
  | _ => True

/-- The sizes in the route are sizes a program can hold. -/
def RouteFits (r : RouteT) : Prop := r.length < 2 ^ 64 ∧ ∀ e ∈ r, e.Fits

/-- Writing an `int64_t` as a packed number and reading it back. -/
theorem int64_roundtrip (n : Int64) : n.toUInt64.toInt64 = n := by
  simp

/-- The type and the content of one element. -/
theorem reads_unpackElement {r : Route} {enc : Bytes} (hPack : r.pack = .ok enc)
    (hFits : r.Fits) :
    Reads (do let t ← getPN; unpackElement t.toInt64.toInt32) enc (some r) := by
  cases r with
  | localService id =>
      obtain rfl : putPN 1 ++ putPSTR id = enc := Except.ok.inj hPack
      exact (reads_getPN 1).bind ((reads_getPSTR hFits).map _)
  | remoteAddr addr =>
      obtain rfl : putPN 2 ++ putPN addr.toUInt64 = enc := Except.ok.inj hPack
      have h := (reads_getPN addr.toUInt64).map (fun n => some (Route.remoteAddr n.toInt64))
      rw [int64_roundtrip] at h
      exact (reads_getPN 2).bind h
  | objectHandlerPolled addr =>
      obtain rfl : putPN 3 ++ putPSTR addr = enc := Except.ok.inj hPack
      exact (reads_getPN 3).bind ((reads_getPSTR hFits).map _)
  | socketRoute id =>
      obtain rfl : putPN 4 ++ putPN id.toUInt64 = enc := Except.ok.inj hPack
      have h := (reads_getPN id.toUInt64).map (fun n => some (Route.socketRoute n.toInt64))
      rw [int64_roundtrip] at h
      exact (reads_getPN 4).bind h
  | objectHandlerThreaded addr =>
      obtain rfl : putPN 5 ++ putPSTR addr = enc := Except.ok.inj hPack
      exact (reads_getPN 5).bind ((reads_getPSTR hFits).map _)
  | thread id =>
      obtain rfl : putPN 6 ++ putPN id.toInt64.toUInt64 = enc := Except.ok.inj hPack
      have h := (reads_getPN id.toInt64.toUInt64).map
        (fun n => some (Route.thread n.toInt64.toInt32))
      rw [int64_roundtrip, Int32.toInt32_toInt64] at h
      exact (reads_getPN 6).bind h
  | listener id => cases hPack

theorem packElements_cons_ok {r : Route} {rs : RouteT} {enc : Bytes} :
    packElements (r :: rs) = .ok enc ↔
      ∃ e, r.pack = .ok e ∧ ∃ es, packElements rs = .ok es ∧ e ++ es = enc := by
  rw [packElements]
  cases r.pack with
  | error e => simp [bind, Except.bind]
  | ok e => cases packElements rs <;> simp [bind, Except.bind, pure, Except.pure]

theorem packRoute_eq_ok {r : RouteT} {enc : Bytes} :
    packRoute r = .ok enc ↔
      ∃ es, packElements r = .ok es ∧ putPN (UInt64.ofNat r.length) ++ es = enc := by
  rw [packRoute]
  cases packElements r <;> simp [bind, Except.bind, pure, Except.pure]

theorem reads_unpackElements {rs : RouteT} :
    ∀ {enc : Bytes}, packElements rs = .ok enc → (∀ e ∈ rs, e.Fits) →
      Reads (unpackElements rs.length) enc rs := by
  induction rs with
  | nil =>
      intro enc hPack _
      obtain rfl : [] = enc := Except.ok.inj hPack
      exact Reads.pure []
  | cons r rs ih =>
      intro enc hPack hFits
      obtain ⟨e, hElem, es, hElems, rfl⟩ := packElements_cons_ok.1 hPack
      have hHead := reads_unpackElement hElem (hFits r (by simp))
      have hTail := ih hElems fun x hx => hFits x (List.mem_cons_of_mem r hx)
      have hBoth := hHead.bind (f := fun o => do
        let rs ← unpackElements rs.length
        return o.toList ++ rs) (hTail.map ([r] ++ ·))
      simpa [unpackElements, bind_assoc] using hBoth

/-- A route without a pointer to a listener. -/
def Packable (r : RouteT) : Prop := ∀ id, .listener id ∉ r

theorem packElements_ok {r : RouteT} (h : Packable r) : ∃ enc, packElements r = .ok enc := by
  induction r with
  | nil => exact ⟨[], rfl⟩
  | cons e r ih =>
      obtain ⟨es, hElems⟩ := ih fun id hMem => h id (List.mem_cons_of_mem e hMem)
      have hElem : ∃ enc, e.pack = .ok enc := by
        cases e with
        | listener id => exact absurd List.mem_cons_self (h id)
        | _ => exact ⟨_, rfl⟩
      obtain ⟨enc, hElem⟩ := hElem
      exact ⟨enc ++ es, packElements_cons_ok.2 ⟨enc, hElem, es, hElems, rfl⟩⟩

/-- A packable route is packed. -/
theorem packRoute_ok {r : RouteT} (h : Packable r) : ∃ enc, packRoute r = .ok enc := by
  obtain ⟨es, hElems⟩ := packElements_ok h
  exact ⟨putPN (UInt64.ofNat r.length) ++ es, packRoute_eq_ok.2 ⟨es, hElems, rfl⟩⟩

/-- **Routes round trip.** -/
theorem reads_unpackRoute {r : RouteT} {enc : Bytes} (hPack : packRoute r = .ok enc)
    (hFits : RouteFits r) : Reads unpackRoute enc r := by
  obtain ⟨es, hElems, rfl⟩ := packRoute_eq_ok.1 hPack
  refine (reads_getPN _).bind ?_
  rw [UInt64.toNat_ofNat_of_lt' hFits.1]
  exact reads_unpackElements hElems hFits.2

end Megatron.Corelib
