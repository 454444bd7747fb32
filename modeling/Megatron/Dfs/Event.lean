import Mathlib.Data.Finset.Sort
import Mathlib.Data.List.Lex
import Megatron.Corelib.Route
import Megatron.Lib.OrdSet

/-!
# Events of the cloud, and their packing

An event is an id, a route and a body.  Two events carry others across the
cloud: `ToplinkDeliverREQ` takes one up to the top server, `ToplinkDeliverRSP`
brings the answer down; both hold the carried event packed.  The other bodies
here are those `dfsCaps` answers; the events of other modules come with a
codec.

Containers announce their size as an `unsigned int`, so of a set with `2 ^ 32`
elements or more only a part is read back (`received`).

## Main results

* `reads_unpackEvent` — unpacking inverts packing, for every event whose body
  round trips.
* `front_unpackEvent` — a `ToplinkDeliverREQ` comes back with a subset of
  its `uuid`.
-/

namespace Megatron.Dfs

open Megatron.Corelib

/-- `EVENT_id`: a string. -/
abbrev EventId := Bytes

/-- `GlobalCookie_id`: a string. -/
abbrev GlobalCookie := Bytes

/-- The bytes of a name in the source. -/
def ascii (s : String) : Bytes := s.toList.map fun c => UInt8.ofNat c.toNat

/-! ## Containers -/

section Containers

variable {α : Type}

/-- `operator<<` of a vector, and of the elements of a set in their order. -/
def putItems (put : α → Bytes) (l : List α) : Bytes :=
  putPN (UInt32.ofNat l.length).toUInt64 ++ l.flatMap put

/-- The loop of the container readers. -/
def getTimes (get : Reader α) : Nat → Reader (List α)
  | 0 => return []
  | n + 1 => do
      let x ← get
      let xs ← getTimes get n
      return x :: xs

/-- `operator>>` of a vector. -/
def getItems (get : Reader α) : Reader (List α) := do
  let n ← getPN
  getTimes get n.toUInt32.toNat

/-- The elements of a `std::set` in the order of its iterators. -/
def walk [LinearOrder α] (s : Finset α) : List α := s.sort (· ≤ ·)

/-- `operator<<` of a `std::set`. -/
def putSet [LinearOrder α] (put : α → Bytes) (s : Finset α) : Bytes :=
  putItems put (walk s)

/-- `operator>>` of a `std::set`. -/
def getSet [LinearOrder α] (get : Reader α) : Reader (Finset α) := do
  let l ← getItems get
  return l.toFinset

end Containers

/-! ## Events -/

namespace DfsReferrerEventEnum

def toplinkDeliverREQ : EventId := ascii "DFSReferrer.ToplinkDeliverREQ"

def toplinkDeliverRSP : EventId := ascii "DFSReferrer.ToplinkDeliverRSP"

end DfsReferrerEventEnum

namespace DfsCapsEventEnum

def getReferrersREQ : EventId := ascii "DFSCaps.GetReferrersREQ"

def getReferrersRSP : EventId := ascii "DFSCaps.GetReferrersRSP"

def getCloudRootsREQ : EventId := ascii "DFSCaps.GetCloudRootsREQ"

def getCloudRootsRSP : EventId := ascii "DFSCaps.GetCloudRootsRSP"

end DfsCapsEventEnum

/-- What an event carries; `other` is an event of another module. -/
inductive Body (Addr B : Type) where
  | toplinkDeliverREQ (destinationService : ServiceId) (eventData : Bytes)
      (uuid : Finset GlobalCookie)
  | toplinkDeliverRSP (eventData : Bytes)
  | getReferrersREQ (externalListenAddr : Finset Addr)
  | getReferrersRSP (referrerAddresses : List Addr)
  | getCloudRootsREQ (externalListenAddr : Finset Addr)
  | getCloudRootsRSP (referrerAddresses : List Addr)
  | other (id : EventId) (b : B)
  deriving DecidableEq

/-- `Event::Base`: the id is that of the body. -/
structure Event (Addr B : Type) where
  route : RouteT
  body : Body Addr B
  deriving DecidableEq

/-- The codec of addresses and of the events of other modules;
`constructors` are those the process has or can load. -/
structure Codec (Addr B : Type) where
  putAddr : Addr → Bytes
  getAddr : Reader Addr
  packOther : EventId → B → Except CommonError Bytes
  constructors : EventId → Option (Reader B)

variable {Addr B : Type}

def Body.id : Body Addr B → EventId
  | .toplinkDeliverREQ .. => DfsReferrerEventEnum.toplinkDeliverREQ
  | .toplinkDeliverRSP _ => DfsReferrerEventEnum.toplinkDeliverRSP
  | .getReferrersREQ _ => DfsCapsEventEnum.getReferrersREQ
  | .getReferrersRSP _ => DfsCapsEventEnum.getReferrersRSP
  | .getCloudRootsREQ _ => DfsCapsEventEnum.getCloudRootsREQ
  | .getCloudRootsRSP _ => DfsCapsEventEnum.getCloudRootsRSP
  | .other id _ => id

/-- Addresses as packed numbers, no events of other modules. -/
def plainCodec : Codec Nat Empty where
  putAddr a := putPN (UInt64.ofNat a)
  getAddr := do return (← getPN).toNat
  packOther _ b := nomatch b
  constructors _ := none

variable [LinearOrder Addr] (c : Codec Addr B)

/-- The `pack` of every body. -/
def Body.pack : Body Addr B → Except CommonError Bytes
  | .toplinkDeliverREQ destinationService eventData uuid =>
      .ok (putPSTR destinationService ++ putRefbuffer (some eventData) ++ putSet putPSTR uuid)
  | .toplinkDeliverRSP eventData => .ok (putRefbuffer (some eventData))
  | .getReferrersREQ addrs => .ok (putSet c.putAddr addrs)
  | .getReferrersRSP addrs => .ok (putItems c.putAddr addrs)
  | .getCloudRootsREQ addrs => .ok (putSet c.putAddr addrs)
  | .getCloudRootsRSP addrs => .ok (putItems c.putAddr addrs)
  | .other id b => c.packOther id b

/-- `packEvent`. -/
def packEvent (e : Event Addr B) : Except CommonError Bytes := do
  let r ← packRoute e.route
  let b ← e.body.pack c
  return putPSTR e.body.id ++ r ++ b

/-- The constructor found for the id, and the `unpack` it calls. -/
def unpackBody (id : EventId) : Reader (Body Addr B) :=
  if id = DfsReferrerEventEnum.toplinkDeliverREQ then do
    let destinationService ← getPSTR
    let eventData ← getRefbuffer
    let uuid ← getSet getPSTR
    return .toplinkDeliverREQ destinationService eventData uuid
  else if id = DfsReferrerEventEnum.toplinkDeliverRSP then do
    return .toplinkDeliverRSP (← getRefbuffer)
  else if id = DfsCapsEventEnum.getReferrersREQ then do
    return .getReferrersREQ (← getSet c.getAddr)
  else if id = DfsCapsEventEnum.getReferrersRSP then do
    return .getReferrersRSP (← getItems c.getAddr)
  else if id = DfsCapsEventEnum.getCloudRootsREQ then do
    return .getCloudRootsREQ (← getSet c.getAddr)
  else if id = DfsCapsEventEnum.getCloudRootsRSP then do
    return .getCloudRootsRSP (← getItems c.getAddr)
  else
    match c.constructors id with
    | none => throw ⟨"Event constructor not found for %s"⟩
    | some get => do return .other id (← get)

/-- `unpackEvent`. -/
def unpackEvent : Reader (Event Addr B) := do
  let id ← getPSTR
  let route ← unpackRoute
  let body ← unpackBody c id
  return ⟨route, body⟩

/-! ## Containers round trip -/

section Containers

variable {α : Type} {put : α → Bytes} {get : Reader α}

theorem reads_getTimes (l : List α) (h : ∀ x ∈ l, Reads get (put x) x) :
    Reads (getTimes get l.length) (l.flatMap put) l := by
  induction l with
  | nil => exact Reads.pure []
  | cons x l ih =>
      have hTail := ih fun y hy => h y (List.mem_cons_of_mem x hy)
      exact (h x List.mem_cons_self).bind (hTail.map (x :: ·))

/-- As many elements as the announced size says are read. -/
theorem front_getItems (l : List α) (h : ∀ x ∈ l, Reads get (put x) x) :
    Front (getItems get) (putItems put l) (l.take (l.length % 2 ^ 32)) := by
  have hTimes := reads_getTimes (l.take (l.length % 2 ^ 32))
    fun x hx => h x (List.mem_of_mem_take hx)
  rw [List.length_take, Nat.min_eq_left (Nat.mod_le _ _)] at hTimes
  rw [putItems, ← List.take_append_drop (l.length % 2 ^ 32) l, List.flatMap_append,
    List.take_append_drop]
  refine (reads_getPN _).bindFront ?_
  rw [UInt32.toUInt32_toUInt64, UInt32.toNat_ofNat']
  exact hTimes.front _

theorem reads_getItems (l : List α) (h : ∀ x ∈ l, Reads get (put x) x)
    (hSize : l.length < 2 ^ 32) : Reads (getItems get) (putItems put l) l := by
  refine (reads_getPN _).bind ?_
  rw [UInt32.toUInt32_toUInt64, UInt32.toNat_ofNat', Nat.mod_eq_of_lt hSize]
  exact reads_getTimes l h

section Walk

variable [LinearOrder α] {s : Finset α} {x : α}

@[simp] theorem mem_walk : x ∈ walk s ↔ x ∈ s := Finset.mem_sort _

@[simp] theorem length_walk : (walk s).length = s.card := Finset.length_sort _

@[simp] theorem toFinset_walk : (walk s).toFinset = s := Finset.sort_toFinset s _

@[simp] theorem walk_singleton : walk {x} = [x] := Finset.sort_singleton _ x

end Walk

/-- The part of a set that is read back. -/
def received [LinearOrder α] (s : Finset α) : Finset α :=
  ((walk s).take (s.card % 2 ^ 32)).toFinset

theorem received_subset [LinearOrder α] (s : Finset α) : received s ⊆ s := by
  intro x hx
  rw [received, List.mem_toFinset] at hx
  exact mem_walk.1 (List.mem_of_mem_take hx)

theorem front_getSet [LinearOrder α] (s : Finset α) (h : ∀ x ∈ s, Reads get (put x) x) :
    Front (getSet get) (putSet put s) (received s) := by
  have hItems := front_getItems (walk s) fun x hx => h x (mem_walk.1 hx)
  rw [length_walk] at hItems
  exact hItems.map _

theorem reads_getSet [LinearOrder α] (s : Finset α) (h : ∀ x ∈ s, Reads get (put x) x)
    (hSize : s.card < 2 ^ 32) : Reads (getSet get) (putSet put s) s := by
  have hItems := reads_getItems (walk s) (fun x hx => h x (mem_walk.1 hx))
    (by rwa [length_walk])
  have hSet := hItems.map List.toFinset
  rwa [toFinset_walk] at hSet

end Containers

/-! ## Events round trip -/

/-- Unpacking inverts packing on this body. -/
def Body.RoundTrips (b : Body Addr B) : Prop :=
  ∀ enc, b.pack c = .ok enc → Reads (unpackBody c b.id) enc b

theorem packEvent_ok {e : Event Addr B} {enc : Bytes} (h : packEvent c e = .ok enc) :
    ∃ r b, packRoute e.route = .ok r ∧ e.body.pack c = .ok b ∧
      enc = putPSTR e.body.id ++ r ++ b := by
  cases hRoute : packRoute e.route with
  | error err => simp [packEvent, hRoute, bind, Except.bind] at h
  | ok r =>
      cases hBody : e.body.pack c with
      | error err => simp [packEvent, hRoute, hBody, bind, Except.bind] at h
      | ok b =>
          refine ⟨r, b, rfl, rfl, ?_⟩
          simpa [packEvent, hRoute, hBody, bind, Except.bind, pure, Except.pure] using h.symm

/-- **Events round trip.** -/
theorem reads_unpackEvent {e : Event Addr B} {enc : Bytes} (hPack : packEvent c e = .ok enc)
    (hRoute : RouteFits e.route) (hId : e.body.id.length < 2 ^ 64)
    (hBody : e.body.RoundTrips c) : Reads (unpackEvent c) enc e := by
  obtain ⟨r, b, hR, hB, rfl⟩ := packEvent_ok c hPack
  rw [List.append_assoc]
  refine (reads_getPSTR hId).bind ((reads_unpackRoute hR hRoute).bind ?_)
  exact (hBody b hB).map (fun body => Event.mk e.route body)

/-- Unpacking inverts packing and leaves what follows, where it does so for the body. -/
theorem front_unpackEvent {e : Event Addr B} {enc : Bytes} {body : Body Addr B}
    (hPack : packEvent c e = .ok enc) (hRoute : RouteFits e.route)
    (hId : e.body.id.length < 2 ^ 64)
    (hBody : ∀ b, e.body.pack c = .ok b → Front (unpackBody c e.body.id) b body) :
    Front (unpackEvent c) enc ⟨e.route, body⟩ := by
  obtain ⟨r, b, hR, hB, rfl⟩ := packEvent_ok c hPack
  rw [List.append_assoc]
  refine (reads_getPSTR hId).bindFront ((reads_unpackRoute hR hRoute).bindFront ?_)
  exact (hBody b hB).map (fun body => Event.mk e.route body)

theorem length_toplinkDeliverREQ :
    DfsReferrerEventEnum.toplinkDeliverREQ.length < 2 ^ 64 := by decide

theorem length_toplinkDeliverRSP :
    DfsReferrerEventEnum.toplinkDeliverRSP.length < 2 ^ 64 := by decide

theorem roundTrips_rsp {eventData : Bytes} (hData : eventData.length < 2 ^ 64) :
    (Body.toplinkDeliverRSP eventData : Body Addr B).RoundTrips c := by
  intro enc hPack
  obtain rfl : putRefbuffer (some eventData) = enc := Except.ok.inj hPack
  exact (reads_getRefbuffer hData).map _

/-- The bodies `dfsCaps` reads and writes, over addresses that round trip. -/
theorem roundTrips_getReferrersREQ {addrs : Finset Addr}
    (h : ∀ a ∈ addrs, Reads c.getAddr (c.putAddr a) a) (hSize : addrs.card < 2 ^ 32) :
    (Body.getReferrersREQ addrs : Body Addr B).RoundTrips c := by
  intro enc hPack
  obtain rfl : putSet c.putAddr addrs = enc := Except.ok.inj hPack
  exact (reads_getSet addrs h hSize).map _

theorem roundTrips_getReferrersRSP {addrs : List Addr}
    (h : ∀ a ∈ addrs, Reads c.getAddr (c.putAddr a) a) (hSize : addrs.length < 2 ^ 32) :
    (Body.getReferrersRSP addrs : Body Addr B).RoundTrips c := by
  intro enc hPack
  obtain rfl : putItems c.putAddr addrs = enc := Except.ok.inj hPack
  exact (reads_getItems addrs h hSize).map _

/-- Of the `uuid` of a request a part comes back. -/
theorem front_unpackBody_req {destinationService : ServiceId} {eventData : Bytes}
    {uuid : Finset GlobalCookie} (hDest : destinationService.length < 2 ^ 64)
    (hData : eventData.length < 2 ^ 64) (hUuid : ∀ x ∈ uuid, x.length < 2 ^ 64) {b : Bytes}
    (hPack : (Body.toplinkDeliverREQ destinationService eventData uuid : Body Addr B).pack c =
      .ok b) :
    Front (unpackBody c DfsReferrerEventEnum.toplinkDeliverREQ) b
      (.toplinkDeliverREQ destinationService eventData (received uuid)) := by
  obtain rfl := Except.ok.inj hPack
  rw [List.append_assoc]
  refine (reads_getPSTR hDest).bindFront ((reads_getRefbuffer hData).bindFront ?_)
  exact (front_getSet uuid fun x hx => reads_getPSTR (hUuid x hx)).map _

end Megatron.Dfs
