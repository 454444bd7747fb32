import Megatron.Corelib.RouteOrder
import Megatron.Corelib.RoundTrip

/-!
# Routes on the wire

`route_t::pack` into the memory of an `outBuffer`, `route_t::unpack` out of an
`inBuffer` as the source lays it out.  `unpack` appends to the container that
is there, element by element, and leaves what it has appended when it throws.

## Main results

* `write_elements` — what packing does to the `outBuffer`, for any elements.
* `unpackLoop_gives` — unpacking appends what was packed.
* `routeTrips_iff` — a route comes back exactly when every string in it is so
  short that an `int` holds its length.
-/

namespace Megatron.Corelib

open Megatron.Lib

/-! ## Packing -/

/-- The `pack` of every subclass. -/
def Route.write : Route → OutBuffer → Option (Except CommonError OutBuffer)
  | .localService id, o => do return .ok (← (← o.putPN 1).putPSTR id)
  | .remoteAddr addr, o => do return .ok (← (← o.putPN 2).putPN addr.toUInt64)
  | .objectHandlerPolled addr, o => do return .ok (← (← o.putPN 3).putPSTR addr)
  | .socketRoute id, o => do return .ok (← (← o.putPN 4).putPN id.toUInt64)
  | .objectHandlerThreaded addr, o => do return .ok (← (← o.putPN 5).putPSTR addr)
  | .thread id, o => do return .ok (← (← o.putPN 6).putPN id.toInt64.toUInt64)
  | .listener _, _ => some (.error ⟨"try to pack ListenerRoute"⟩)

/-- The loop of `route_t::pack`. -/
def writeElements : RouteT → OutBuffer → Option (Except CommonError OutBuffer)
  | [], o => some (.ok o)
  | r :: rs, o => do
      match ← r.write o with
      | .error e => return .error e
      | .ok o => writeElements rs o

/-- `route_t::pack`. -/
def writeRoute (r : RouteT) (o : OutBuffer) : Option (Except CommonError OutBuffer) := do
  let o ← o.putPN (UInt64.ofNat r.length)
  writeElements r o

/-- What an element writes with `put_PSTR`. -/
def Route.strings : Route → List Bytes
  | .localService id => [id]
  | .objectHandlerPolled addr => [addr]
  | .objectHandlerThreaded addr => [addr]
  | _ => []

def routeStrings (r : RouteT) : List Bytes := r.flatMap Route.strings

/-! ## Unpacking -/

namespace Cursor

/-- The `switch` of `route_t::unpack`; there is no case for a type that is not
known. -/
def unpackElement (t : Int32) : In (Option Route) :=
  if t = 7 then throw (.thrown ⟨"route unpack for listener"⟩)
  else if t = 1 then do return some (.localService (← getPSTR))
  else if t = 6 then do return some (.thread (← getPN).toInt64.toInt32)
  else if t = 2 then do return some (.remoteAddr (← getPN).toInt64)
  else if t = 3 then do return some (.objectHandlerPolled (← getPSTR))
  else if t = 5 then do return some (.objectHandlerThreaded (← getPSTR))
  else if t = 4 then do return some (.socketRoute (← getPN).toInt64)
  else return none

/-- One pass of the loop: a type, and what the `switch` reads. -/
def unpackNext : In (Option Route) := do
  let t ← getPN
  unpackElement t.toInt64.toInt32

/-- How `route_t::unpack` ends: the container and the number of passes begun
outlive an exception. -/
structure Unpacked where
  result : Except Stop Unit
  container : RouteT
  passes : Nat
  cursor : Cursor
  deriving DecidableEq

/-- The loop of `route_t::unpack`, with `sz - i` passes to go. -/
def unpackLoop : Nat → RouteT → Cursor → Unpacked
  | 0, container, s => ⟨.ok (), container, 0, s⟩
  | n + 1, container, s =>
      match unpackNext s with
      | (.error e, s) => ⟨.error e, container, 1, s⟩
      | (.ok r, s) =>
          let rest := unpackLoop n (container ++ r.toList) s
          { rest with passes := rest.passes + 1 }

/-- `route_t::unpack` into a route that has these elements. -/
def unpackRoute (container : RouteT) (s : Cursor) : Unpacked :=
  match getPN s with
  | (.error e, s) => ⟨.error e, container, 0, s⟩
  | (.ok sz, s) => unpackLoop sz.toNat container s

end Cursor

/-- The route is packed into a new `outBuffer`.  What that hands out are its
bytes, and from them, whatever follows, an empty route gets these elements. -/
def RouteTrips (r : RouteT) : Prop :=
  ∃ o b, writeRoute r OutBuffer.construct = some (.ok o) ∧ packRoute r = .ok b ∧
    o.asString.buffer.size_.toNat = b.length ∧ o.asString.buffer.bytes = b.map some ∧
    ∀ (tail : Bytes) (d : Object), d.val = b ++ tail →
      ∃ u, Cursor.unpackRoute [] (Cursor.ofObject d) = u ∧ u.result = .ok () ∧
        u.container = r ∧ routeEq u.container r = .ok true ∧ u.cursor.outPos.toNat = b.length

/-! ## Where the bytes go -/

/-- An element that is packed: its bytes, and the writer that stores them. -/
structure Packs (r : Route) (b : Bytes) (w : OutBuffer → Option OutBuffer) : Prop where
  pack_eq : r.pack = .ok b
  write_eq : ∀ o, r.write o = (w o).map .ok
  moves : Moves w b.length (skips r.strings)
  writes : (∀ s ∈ r.strings, s.length < 2 ^ 31) → Writes w b
  skips_le : skips r.strings ≤ 2 * b.length

/-- A type and a string. -/
theorem packs_string {r : Route} {t : UInt64} {s : Bytes} (hPack : r.pack = .ok (putPN t ++ putPSTR s))
    (hWrite : ∀ o, r.write o = do return .ok (← (← o.putPN t).putPSTR s))
    (hStrings : r.strings = [s]) :
    Packs r (putPN t ++ putPSTR s) fun o => (o.putPN t).bind fun o => o.putPSTR s where
  pack_eq := hPack
  write_eq o := by
    rw [hWrite]
    cases hPN : o.putPN t with
    | none => rfl
    | some o₁ => cases hPSTR : o₁.putPSTR s <;> simp [hPSTR]
  moves := by
    have hMoves := (moves_putPN t).bind (moves_putPSTR s)
    rw [List.length_append, hStrings]
    rwa [Nat.zero_add] at hMoves
  writes h := (writes_putPN t).bind (writes_putPSTR (h s (by rw [hStrings]; exact List.mem_singleton_self s)))
  skips_le := by
    have hLe := skips_singleton_le s
    rw [hStrings, List.length_append]
    omega

/-- A type and a number. -/
theorem packs_number {r : Route} {t n : UInt64} (hPack : r.pack = .ok (putPN t ++ putPN n))
    (hWrite : ∀ o, r.write o = do return .ok (← (← o.putPN t).putPN n)) (hStrings : r.strings = []) :
    Packs r (putPN t ++ putPN n) fun o => (o.putPN t).bind fun o => o.putPN n where
  pack_eq := hPack
  write_eq o := by
    rw [hWrite]
    cases hPN : o.putPN t with
    | none => rfl
    | some o₁ => cases hContent : o₁.putPN n <;> simp [hContent]
  moves := by
    have hMoves := (moves_putPN t).bind (moves_putPN n)
    rw [List.length_append, hStrings]
    exact hMoves
  writes _ := (writes_putPN t).bind (writes_putPN n)
  skips_le := by
    rw [hStrings]
    exact Nat.zero_le _

/-- Every element but a listener is packed. -/
theorem exists_packs {r : Route} (h : r.type ≠ 7) : ∃ b w, Packs r b w := by
  cases r with
  | localService id => exact ⟨_, _, packs_string rfl (fun _ => rfl) rfl⟩
  | remoteAddr addr => exact ⟨_, _, packs_number rfl (fun _ => rfl) rfl⟩
  | objectHandlerPolled addr => exact ⟨_, _, packs_string rfl (fun _ => rfl) rfl⟩
  | socketRoute id => exact ⟨_, _, packs_number rfl (fun _ => rfl) rfl⟩
  | objectHandlerThreaded addr => exact ⟨_, _, packs_string rfl (fun _ => rfl) rfl⟩
  | thread id => exact ⟨_, _, packs_number rfl (fun _ => rfl) rfl⟩
  | listener id => exact absurd rfl h

/-- **The elements**, one behind the other. -/
theorem write_elements {r : RouteT} (h : Packable r) :
    ∃ b w, packElements r = .ok b ∧ (∀ o, writeElements r o = (w o).map .ok) ∧
      Moves w b.length (skips (routeStrings r)) ∧
      ((∀ s ∈ routeStrings r, s.length < 2 ^ 31) → Writes w b) ∧
      skips (routeStrings r) ≤ 2 * b.length := by
  induction r with
  | nil =>
      refine ⟨[], some, rfl, fun _ => rfl, ?_, fun _ o hProper _ => ?_, Nat.zero_le _⟩
      · rintro o _ ⟨rfl⟩
        rfl
      · exact ⟨o, rfl, OutBuffer.Stored.nil hProper, rfl⟩
  | cons e r ih =>
      obtain ⟨b, w, hElem⟩ := exists_packs (packable_iff.1 h e List.mem_cons_self)
      obtain ⟨bs, ws, hPack, hWrite, hMoves, hWrites, hLe⟩ := ih h.tail
      have hStrings : routeStrings (e :: r) = e.strings ++ routeStrings r := List.flatMap_cons
      refine ⟨b ++ bs, fun o => (w o).bind ws, ?_, fun o => ?_, ?_, fun hShort => ?_, ?_⟩
      · exact packElements_cons_ok.2 ⟨b, hElem.pack_eq, bs, hPack, rfl⟩
      · rw [writeElements, hElem.write_eq]
        cases hRun : w o with
        | none => simp [hRun]
        | some o₁ => simp [hRun, hWrite]
      · rw [hStrings, skips_append, List.length_append]
        exact hElem.moves.bind hMoves
      · rw [hStrings] at hShort
        exact (hElem.writes fun s hs => hShort s (List.mem_append_left _ hs)).bind
          (hWrites fun s hs => hShort s (List.mem_append_right _ hs))
      · rw [hStrings]
        exact skips_pair_le hElem.skips_le hLe

/-- The size, and the elements. -/
theorem write_route {r : RouteT} (h : Packable r) :
    ∃ b w, packRoute r = .ok b ∧ (∀ o, writeRoute r o = (w o).map .ok) ∧
      Moves w b.length (skips (routeStrings r)) ∧
      ((∀ s ∈ routeStrings r, s.length < 2 ^ 31) → Writes w b) ∧
      skips (routeStrings r) ≤ 2 * b.length := by
  obtain ⟨b, w, hPack, hWrite, hMoves, hWrites, hLe⟩ := write_elements h
  refine ⟨putPN (UInt64.ofNat r.length) ++ b,
    fun o => (o.putPN (UInt64.ofNat r.length)).bind w, ?_, fun o => ?_, ?_, fun hShort => ?_, ?_⟩
  · exact packRoute_eq_ok.2 ⟨b, hPack, rfl⟩
  · rw [writeRoute]
    cases hPN : o.putPN (UInt64.ofNat r.length) with
    | none => simp [hPN]
    | some o₁ => simp [hPN, hWrite]
  · have hBoth := (moves_putPN (UInt64.ofNat r.length)).bind hMoves
    rwa [Nat.zero_add, ← List.length_append] at hBoth
  · exact (writes_putPN _).bind (hWrites hShort)
  · rw [List.length_append]
    omega

/-! ## Reading them back -/

namespace Cursor

theorem refines_throw {α : Type} (e : CommonError) :
    Refines (throw (.thrown e) : In α) (throw e : Reader α) :=
  fun s hs => ⟨s, rfl, Kept.refl hs⟩

/-- The element after `p`, if `p` is a reader of its content. -/
theorem Refines.element {α : Type} {p : In α} {q : Reader α} (h : Refines p q) (f : α → Route) :
    Refines (do return some (f (← p))) (do return some (f (← q))) :=
  h.bind fun x => refines_pure (some (f x))

theorem refines_unpackElement (t : Int32) :
    Refines (unpackElement t) (Corelib.unpackElement t) := by
  rw [unpackElement, Corelib.unpackElement]
  split
  · exact refines_throw _
  split
  · exact refines_getPSTR.element _
  split
  · exact refines_getPN.element fun n => .thread n.toInt64.toInt32
  split
  · exact refines_getPN.element fun n => .remoteAddr n.toInt64
  split
  · exact refines_getPSTR.element _
  split
  · exact refines_getPSTR.element _
  split
  · exact refines_getPN.element fun n => .socketRoute n.toInt64
  · exact refines_pure none

theorem refines_unpackNext :
    Refines unpackNext (do let t ← Corelib.getPN; Corelib.unpackElement t.toInt64.toInt32) :=
  refines_getPN.bind fun t => refines_unpackElement t.toInt64.toInt32

/-- **The loop appends what was packed.** -/
theorem unpackLoop_gives {r : RouteT} :
    ∀ (container : RouteT) {enc tail : Bytes} {s : Cursor}, packElements r = .ok enc →
      (∀ e ∈ r, e.Fits) → s.Valid → s.rest = enc ++ tail →
      ∃ u, unpackLoop r.length container s = u ∧ u.result = .ok () ∧
        u.container = container ++ r ∧ Kept s u.cursor ∧ u.cursor.rest = tail := by
  induction r with
  | nil =>
      intro container enc tail s hPack _ hs hRest
      obtain rfl : [] = enc := Except.ok.inj hPack
      exact ⟨_, rfl, rfl, (List.append_nil _).symm, Kept.refl hs, hRest⟩
  | cons e r ih =>
      intro container enc tail s hPack hFits hs hRest
      obtain ⟨b, hElem, bs, hElems, rfl⟩ := packElements_cons_ok.1 hPack
      rw [List.append_assoc] at hRest
      obtain ⟨s₁, hRun, hKept, hRest₁⟩ := refines_unpackNext.reads
        (reads_unpackElement hElem (hFits e List.mem_cons_self)) hs hRest
      obtain ⟨u, hLoop, hOk, hAll, hKept', hTail⟩ := ih (container ++ [e]) hElems
        (fun x hx => hFits x (List.mem_cons_of_mem e hx)) hKept.valid hRest₁
      refine ⟨{ u with passes := u.passes + 1 }, ?_, hOk, ?_, hKept.trans hKept', hTail⟩
      · rw [List.length_cons, unpackLoop, hRun]
        simp only [Option.toList_some, hLoop]
      · rw [hAll, List.append_assoc, List.singleton_append]

/-- **A packed route** is read off the front of any bytes. -/
theorem unpackRoute_gives {r : RouteT} {b tail : Bytes} {d : Object} (hPack : packRoute r = .ok b)
    (hFits : RouteFits r) (hBytes : d.val = b ++ tail) (container : RouteT) :
    ∃ u, unpackRoute container (ofObject d) = u ∧ u.result = .ok () ∧
      u.container = container ++ r ∧ u.cursor.outPos.toNat = b.length := by
  obtain ⟨es, hElems, rfl⟩ := packRoute_eq_ok.1 hPack
  have hRest : (ofObject d).rest = putPN (UInt64.ofNat r.length) ++ (es ++ tail) := by
    rw [← List.append_assoc, ← hBytes]
    rfl
  obtain ⟨s₁, hRun, hKept, hRest₁⟩ :=
    refines_getPN.reads (reads_getPN _) (valid_ofObject d) hRest
  obtain ⟨u, hLoop, hOk, hAll, hKept', hTail⟩ :=
    unpackLoop_gives container hElems hFits.2 hKept.valid hRest₁
  refine ⟨u, ?_, hOk, hAll, (hKept.trans hKept').outPos_eq hBytes hTail⟩
  rw [unpackRoute, hRun]
  simp only
  rw [UInt64.toNat_ofNat_of_lt' hFits.1, hLoop]

end Cursor

/-! ## Round trip -/

theorem length_lt_of_pack {e : Route} {b : Bytes} (h : e.pack = .ok b) :
    0 < b.length ∧ ∀ s ∈ e.strings, s.length ≤ b.length := by
  have hPN : ∀ n, 0 < (putPN n).length := fun n => List.length_pos_iff.2 (putPN_ne_nil n)
  cases e with
  | listener id => cases h
  | localService id | objectHandlerPolled id | objectHandlerThreaded id =>
      obtain rfl := Except.ok.inj h
      rw [List.length_append]
      refine ⟨Nat.add_pos_left (hPN _) _, fun s hs => ?_⟩
      rw [List.mem_singleton.1 hs]
      exact (Cursor.length_le_putPSTR id).trans (Nat.le_add_left _ _)
  | remoteAddr n | socketRoute n | thread n =>
      obtain rfl := Except.ok.inj h
      rw [List.length_append]
      exact ⟨Nat.add_pos_left (hPN _) _, fun s hs => absurd hs List.not_mem_nil⟩

theorem length_le_of_packElements {r : RouteT} :
    ∀ {b : Bytes}, packElements r = .ok b →
      r.length ≤ b.length ∧ ∀ s ∈ routeStrings r, s.length ≤ b.length := by
  induction r with
  | nil => exact fun _ => ⟨Nat.zero_le _, fun s hs => absurd hs List.not_mem_nil⟩
  | cons e r ih =>
      intro b hPack
      obtain ⟨b₁, hElem, bs, hElems, rfl⟩ := packElements_cons_ok.1 hPack
      obtain ⟨hPos, hHead⟩ := length_lt_of_pack hElem
      obtain ⟨hCount, hTail⟩ := ih hElems
      rw [List.length_append, List.length_cons]
      refine ⟨by omega, fun s hs => ?_⟩
      rw [routeStrings, List.flatMap_cons] at hs
      rcases List.mem_append.1 hs with hs | hs
      · exact (hHead s hs).trans (Nat.le_add_right _ _)
      · exact (hTail s hs).trans (Nat.le_add_left _ _)

theorem Route.fits_of_strings {e : Route} (h : ∀ s ∈ e.strings, s.length < 2 ^ 64) : e.Fits := by
  cases e with
  | localService s | objectHandlerPolled s | objectHandlerThreaded s =>
      exact h s (List.mem_singleton_self s)
  | _ => trivial

/-- What is packed below `2 ^ 63` has sizes that fit. -/
theorem routeFits_of_packed {r : RouteT} {b : Bytes} (hPack : packRoute r = .ok b)
    (hLen : b.length < 2 ^ 63) : RouteFits r := by
  obtain ⟨es, hElems, rfl⟩ := packRoute_eq_ok.1 hPack
  obtain ⟨hCount, hStrings⟩ := length_le_of_packElements hElems
  rw [List.length_append] at hLen
  refine ⟨by omega, fun e he => Route.fits_of_strings fun s hs => ?_⟩
  have hLe := hStrings s (List.mem_flatMap_of_mem he hs)
  omega

/-- A length that does not fit leaves the position short of the bytes. -/
theorem short_of_routeTrips {r : RouteT} (hPack : Packable r)
    (hLen : ∀ b, packRoute r = .ok b → b.length < 2 ^ 63) (h : RouteTrips r) :
    ∀ s ∈ routeStrings r, s.length < 2 ^ 31 := by
  obtain ⟨b, w, hBytes, hWrite, hMoves, -, hSkips⟩ := write_route hPack
  obtain ⟨o, b', hRun, hBytes', hSize, -, -⟩ := h
  obtain rfl : b = b' := Except.ok.inj (hBytes.symm.trans hBytes')
  have hFit := hLen b hBytes
  rw [hWrite] at hRun
  obtain ⟨o₁, hRun₁, hSame⟩ := Option.map_eq_some_iff.1 hRun
  obtain rfl := Except.ok.inj hSame
  have hPos : o₁.curPos = UInt64.ofNat b.length := by
    rw [← hSize, UInt64.ofNat_toNat]
    rfl
  have hNat := congrArg UInt64.toNat (hMoves _ _ hRun₁)
  rw [hPos, UInt64.toNat_add, UInt64.toNat_add, UInt64.toNat_ofNat', UInt64.toNat_ofNat',
    show OutBuffer.construct.curPos.toNat = 0 from rfl] at hNat
  exact skips_eq_zero.1 (by omega)

/-- Short strings come back, with all that is around them. -/
theorem routeTrips_of_short {r : RouteT} (hPack : Packable r)
    (hLen : ∀ b, packRoute r = .ok b → b.length < 2 ^ 63)
    (hShort : ∀ s ∈ routeStrings r, s.length < 2 ^ 31) : RouteTrips r := by
  obtain ⟨b, w, hBytes, hWrite, -, hWrites, -⟩ := write_route hPack
  have hFit := hLen b hBytes
  have hZero : OutBuffer.construct.curPos.toNat = 0 := rfl
  obtain ⟨o, hRun, hStored, hPos⟩ := hWrites hShort _ proper_construct (by omega)
  rw [hZero, Nat.zero_add] at hPos
  obtain ⟨hSize, hOut⟩ := bytes_asString hStored hPos hFit
  refine ⟨o, b, ?_, hBytes, ?_, hOut, fun tail d hd => ?_⟩
  · rw [hWrite, hRun]
    rfl
  · rw [hSize, UInt64.toNat_ofNat_of_lt' (hFit.trans (by decide))]
  · obtain ⟨u, hUnpack, hOk, hAll, hEnd⟩ :=
      Cursor.unpackRoute_gives hBytes (routeFits_of_packed hBytes hFit) hd []
    rw [List.nil_append] at hAll
    refine ⟨u, hUnpack, hOk, hAll, ?_, hEnd⟩
    rw [hAll]
    exact ((routeEq_self r).resolve_right fun hNot => hNot.2 hPack).1

/-- **Which routes come back.** A route without listeners, whose bytes fit an
object, comes back exactly when every string in it is shorter than `2 ^ 31`. -/
theorem routeTrips_iff {r : RouteT} (hPack : Packable r)
    (hLen : ∀ b, packRoute r = .ok b → b.length < 2 ^ 63) :
    RouteTrips r ↔ ∀ s ∈ routeStrings r, s.length < 2 ^ 31 :=
  ⟨short_of_routeTrips hPack hLen, routeTrips_of_short hPack hLen⟩

/-- One element of each type that is packed. -/
def everyType : RouteT :=
  [.objectHandlerPolled [0, 0xFF], .localService [104, 105], .remoteAddr (-1), .socketRoute 7,
    .thread (-3), .objectHandlerThreaded []]

theorem everyType_trips :
    (Packable everyType ∧ ∀ b, packRoute everyType = .ok b → b.length < 2 ^ 63) ∧
      (RouteTrips everyType ↔ ∀ s ∈ routeStrings everyType, s.length < 2 ^ 31) := by
  have hPack : Packable everyType := by decide
  have hBytes : ∃ b, packRoute everyType = .ok b ∧ b.length < 2 ^ 63 := ⟨_, rfl, by decide⟩
  have hLen : ∀ b, packRoute everyType = .ok b → b.length < 2 ^ 63 := by
    intro b hb
    obtain ⟨b', hb', hLt⟩ := hBytes
    obtain rfl : b' = b := Except.ok.inj (hb'.symm.trans hb)
    exact hLt
  exact ⟨⟨hPack, hLen⟩, routeTrips_iff hPack hLen⟩

theorem length_packed_name {name b : Bytes} (h : packRoute [.localService name] = .ok b) :
    b.length ≤ name.length + 30 := by
  have hBytes : putPN 1 ++ (putPN 1 ++ putPSTR name) = b := by
    simpa [packRoute, packElements, Route.pack, bind, Except.bind, pure, Except.pure] using h
  have hPN := OutBuffer.length_putPN_le 1
  have hPN' := OutBuffer.length_putPN_le (UInt64.ofNat name.length)
  rw [← hBytes, putPSTR, List.length_append, List.length_append, List.length_append]
  omega

theorem packable_name (name : Bytes) : Packable [.localService name] := by
  intro id hMem
  cases List.mem_singleton.1 hMem

/-- A name of `2 ^ 31` bytes. -/
def longName : Bytes := List.replicate (2 ^ 31) 0

theorem length_longName : longName.length = 2 ^ 31 := List.length_replicate

/-- `cur_pos+=(int)s.size()` moves back from the end of such a name. -/
theorem longName_lost :
    ¬ RouteTrips [.localService longName] ∧
      ¬ ∀ r, Packable r → (∀ b, packRoute r = .ok b → b.length < 2 ^ 63) → RouteTrips r := by
  have hLong := length_longName
  have hLen : ∀ b, packRoute [.localService longName] = .ok b → b.length < 2 ^ 63 := by
    intro b hb
    have hLe := length_packed_name hb
    omega
  have hLost : ¬ RouteTrips [.localService longName] := by
    intro h
    have hShort := short_of_routeTrips (packable_name longName) hLen h longName
      (List.mem_singleton_self _)
    omega
  exact ⟨hLost, fun hAll => hLost (hAll _ (packable_name longName) hLen)⟩

end Megatron.Corelib
