import Megatron.Corelib.RouteKeys
import Megatron.Timer.Threads

/-!
# The order of timer keys

`_searchKey::operator<` compares two tasks by their number, their type, their
destination and their data.  Destinations are compared by `route_t`, so a key
whose destination has a listener cannot even be compared with itself.

## Main results

* `totalOn_keys` — keys without listeners are totally ordered.
* `ordered_iff` — which routes a set of routes and a table of tasks can hold.
* `listeners_throw` — two routes to listeners cannot be compared.
-/

namespace Megatron.Timer.Threads

open Megatron.Corelib Megatron.Lib

/-- `==` of all that `_searchKey` compares. -/
def Key.eq (a b : Key) : Except CommonError Bool := .ok (decide (a = b))

/-- What two keys are compared by; routes are compared backwards. -/
def Key.key (k : Key) : ℤ ×ₗ ℕ ×ₗ (ℕ ×ₗ List (ℕ ×ₗ ℤ ×ₗ Bytes))ᵒᵈ ×ₗ Bytes :=
  toLex (k.id.toInt, toLex (k.type.toNat, toLex (OrderDual.toDual (routeKey k.destination), k.data)))

/-- The keys of tasks that are sent to these routes. -/
def keysTo (S : Set RouteT) : Set Key := {k | k.destination ∈ S}

/-- Routes and timer keys of these destinations are totally ordered, without
an exception, and the containers keep what is put into them. -/
structure Ordered (S : Set RouteT) : Prop where
  routes : TotalOn S routeLt routeEq
  subscribers : Keeps S routeLt
  keys : TotalOn (keysTo S) Key.lt Key.eq
  timers : Keeps (keysTo S) Key.lt

theorem Key.key_injective : Function.Injective Key.key := by
  rintro ⟨id, type, destination, data⟩ ⟨id', type', destination', data'⟩ h
  obtain ⟨hId, hRest⟩ := Prod.mk.inj (toLex.injective h)
  obtain ⟨hType, hRest⟩ := Prod.mk.inj (toLex.injective hRest)
  obtain ⟨hDestination, hData⟩ := Prod.mk.inj (toLex.injective hRest)
  obtain rfl : id = id' := Int32.toInt_inj.1 hId
  obtain rfl : type = type' := TaskType.toNat_inj hType
  obtain rfl : destination = destination' :=
    routeKey_injective (OrderDual.toDual.injective hDestination)
  obtain rfl : data = data' := hData
  rfl

/-- **Two keys are compared by what `_searchKey` names**, in that order. -/
theorem Key.lt_eq {a b : Key} (h : Packable a.destination) :
    a.lt b = .ok (decide (a.key < b.key)) := by
  rw [Key.lt]
  simp only [Key.key, Prod.Lex.toLex_lt_toLex]
  by_cases hId : a.id = b.id
  · rw [if_neg (not_not.2 hId)]
    by_cases hType : a.type = b.type
    · rw [if_neg (not_not.2 hType)]
      simp only [hId, hType, lt_irrefl, true_and, false_or]
      by_cases hSame : a.destination = b.destination
      · rw [(routeEq_iff h).2 hSame]
        simp only [hSame, lt_irrefl, true_and, false_or, bytesLt_eq]
      · have hKey : OrderDual.toDual (routeKey a.destination) ≠
            OrderDual.toDual (routeKey b.destination) := fun hEq =>
          hSame (routeKey_injective (OrderDual.toDual.injective hEq))
        obtain ⟨v, hv⟩ := routeEq_decides (a := b.destination) h
        cases v with
        | true => exact absurd (routeEq_eq_true hv) hSame
        | false =>
            rw [hv]
            simp only [routeLt_eq h, hKey, false_and, or_false, OrderDual.toDual_lt_toDual]
    · have hNat : a.type.toNat ≠ b.type.toNat := fun hEq => hType (TaskType.toNat_inj hEq)
      rw [if_pos hType]
      simp only [hId, hNat, lt_irrefl, true_and, false_and, false_or, or_false]
  · have hInt : a.id.toInt ≠ b.id.toInt := fun hEq => hId (Int32.toInt_inj.1 hEq)
    rw [if_pos hId]
    simp only [hInt, false_and, or_false, Int32.lt_iff_toInt_lt]

/-- **Keys without listeners** are totally ordered. -/
theorem totalOn_keys {S : Set RouteT} (h : ∀ r ∈ S, Packable r) :
    TotalOn (keysTo S) Key.lt Key.eq :=
  TotalOn.of_key Key.key_injective (fun a ha b _ => Key.lt_eq (h a.destination ha))
    (fun a _ b _ => ⟨_, rfl⟩) fun a _ b _ => by simp [Key.eq]

/-- A route with a listener cannot be compared with itself. -/
theorem packable_of_irrefl {r : RouteT} (h : routeLt r r = .ok false) : Packable r := by
  by_contra hNot
  have hLoop : ∀ r : RouteT, ¬ Packable r → routeLtLoop r r ≠ .ok false := by
    intro r
    induction r with
    | nil => exact fun hNot _ => hNot fun id hMem => by cases hMem
    | cons e r ih =>
        intro hNot hRun
        rw [routeLtLoop, if_neg (not_not.2 rfl)] at hRun
        rcases Route.eqContent_cases (a := e) (b := e) rfl with ⟨id, id', rfl, -⟩ | hContent
        · cases hRun
        · rw [hContent, decide_eq_true rfl] at hRun
          refine ih (fun hPack => hNot fun id hMem => ?_) hRun
          rcases List.mem_cons.1 hMem with rfl | hMem
          · cases hContent
          · exact hPack id hMem
  rw [routeLt, if_neg (not_not.2 rfl)] at h
  exact hLoop r hNot h

/-- **Which routes are ordered**: any set of them without a listener in one,
and no other. -/
theorem ordered_iff (S : Set RouteT) : Ordered S ↔ ∀ r ∈ S, Packable r := by
  constructor
  · exact fun h r hr => packable_of_irrefl (h.routes.irrefl r hr)
  · intro h
    have hRoutes := totalOn_routes h
    have hKeys := totalOn_keys h
    exact ⟨hRoutes, hRoutes.keeps, hKeys, hKeys.keeps⟩

/-- **Two routes to listeners** cannot be compared, nor put into one set. -/
theorem listeners_throw :
    routeLt [.listener 1] [.listener 2] = .error ⟨"invalid route type 7"⟩ ∧
      [[.listener 1], [.listener 2]].foldlM (fun acc a => insertM routeLt a acc) [] =
        .error ⟨"invalid route type 7"⟩ ∧
      ¬ ∀ S : Set RouteT, Ordered S := by
  refine ⟨by decide, by decide, fun hAll => ?_⟩
  have hSelf := (hAll Set.univ).routes.irrefl [.listener 1] (Set.mem_univ _)
  exact absurd (packable_of_irrefl hSelf) (not_packable_cons_listener 1 [])

end Megatron.Timer.Threads
