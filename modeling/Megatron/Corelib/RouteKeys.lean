import Mathlib.Data.List.Lex
import Mathlib.Data.Prod.Lex
import Megatron.Corelib.RouteOrder
import Megatron.Lib.OrdSet
import Megatron.Lib.TotalOrder

/-!
# The order of routes

`route_t::operator<` goes through two routes at once, with a branch for each
type.  It is the lexicographic order of one key, read backwards: the number of
elements, and of each its type and what is in it.

## Main results

* `routeLt_of_not_clash`, `routeLt_of_clash` — the comparison of two routes is that of their
  keys, or throws where both come to a listener.
* `totalOn_routes` — so it is total on the routes without listeners.
* `throwingKey_routes` — what it is on all routes.
-/

namespace Megatron.Corelib

open Megatron.Lib

/-- What is in an element: a number, or a string. -/
def Route.content : Route → ℤ ×ₗ Bytes
  | .localService id => toLex (0, id)
  | .remoteAddr addr => toLex (addr.toInt, [])
  | .objectHandlerPolled addr => toLex (0, addr)
  | .socketRoute id => toLex (id.toInt, [])
  | .objectHandlerThreaded addr => toLex (0, addr)
  | .thread id => toLex (id.toInt, [])
  | .listener id => toLex (id, [])

def Route.key (e : Route) : ℕ ×ₗ ℤ ×ₗ Bytes := toLex (e.type, e.content)

/-- What two routes are compared by. -/
def routeKey (r : RouteT) : ℕ ×ₗ List (ℕ ×ₗ ℤ ×ₗ Bytes) := toLex (r.length, r.map Route.key)

/-! ## Elements -/

/-- `operator<` of `std::string` is the order of lists of bytes. -/
theorem bytesLt_eq (a : Bytes) : ∀ b : Bytes, bytesLt a b = decide (a < b) := by
  induction a with
  | nil =>
      intro b
      cases b with
      | nil => rfl
      | cons y b => rfl
  | cons x a ih =>
      intro b
      cases b with
      | nil => rfl
      | cons y b =>
          have hRest : lexLt (fun a b => decide (a < b)) a b = decide (a < b) := ih b
          rw [bytesLt, lexLt, hRest, Bool.eq_iff_iff]
          simp only [Bool.or_eq_true, Bool.and_eq_true, decide_eq_true_eq, Bool.not_eq_true',
            decide_eq_false_iff_not, List.cons_lt_cons_iff]
          constructor
          · rintro (hLt | ⟨hNot, hTail⟩)
            · exact Or.inl hLt
            · rcases lt_or_eq_of_le (not_lt.1 hNot) with hLt | hEq
              · exact Or.inl hLt
              · exact Or.inr ⟨hEq, hTail⟩
          · rintro (hLt | ⟨rfl, hTail⟩)
            · exact Or.inl hLt
            · exact Or.inr ⟨lt_irrefl x, hTail⟩

/-- Of two elements of one type. -/
theorem Route.ltContent_eq {a b : Route} (hType : a.type = b.type) (h : a.type ≠ 7) :
    a.ltContent b = decide (a.content < b.content) := by
  cases a <;> cases b <;> simp [Route.type] at hType
  case listener.listener => exact absurd rfl h
  all_goals simp only [Route.ltContent, Route.content, bytesLt_eq, Prod.Lex.toLex_lt_toLex,
    lt_irrefl, true_and, false_or, or_false, and_false, Int64.lt_iff_toInt_lt,
    Int32.lt_iff_toInt_lt]

theorem Route.key_injective : Function.Injective Route.key := by
  intro a b h
  have hPair := toLex.injective h
  obtain ⟨hType, hContent⟩ := Prod.mk.inj hPair
  cases a <;> cases b <;> simp [Route.type] at hType
  all_goals
    obtain ⟨hNumber, hString⟩ := Prod.mk.inj (toLex.injective hContent)
    first
      | rw [hString]
      | rw [Int64.toInt_inj.1 hNumber]
      | rw [Int32.toInt_inj.1 hNumber]
      | rw [Nat.cast_inj.1 hNumber]

/-! ## Routes -/

theorem routeKey_injective : Function.Injective routeKey := by
  intro r a h
  obtain ⟨-, hMap⟩ := Prod.mk.inj (toLex.injective h)
  exact Route.key_injective.list_map hMap

/-- The routes are of one length, and the same up to a place where both have a listener. -/
def Clash : RouteT → RouteT → Prop
  | x :: r, y :: a => x.type = 7 ∧ y.type = 7 ∧ r.length = a.length ∨ x = y ∧ Clash r a
  | _, _ => False

theorem Clash.length_eq : ∀ {r a : RouteT}, Clash r a → r.length = a.length
  | [], _, h => h.elim
  | _ :: _, [], h => h.elim
  | _ :: _, _ :: _, .inl ⟨_, _, hLen⟩ => congrArg Nat.succ hLen
  | _ :: _, _ :: _, .inr ⟨_, hTail⟩ => congrArg Nat.succ hTail.length_eq

theorem Clash.symm : ∀ {r a : RouteT}, Clash r a → Clash a r
  | [], _, h => h.elim
  | _ :: _, [], h => h.elim
  | _ :: _, _ :: _, .inl ⟨hx, hy, hLen⟩ => .inl ⟨hy, hx, hLen.symm⟩
  | _ :: _, _ :: _, .inr ⟨hSame, hTail⟩ => .inr ⟨hSame.symm, hTail.symm⟩

theorem Clash.trans : ∀ {r a b : RouteT}, Clash r a → Clash a b → Clash r b
  | [], _, _, h, _ => h.elim
  | _ :: _, [], _, h, _ => h.elim
  | _ :: _, _ :: _, [], _, h => h.elim
  | _ :: _, _ :: _, _ :: _, .inl ⟨hx, _, hLen⟩, .inl ⟨_, hz, hLen'⟩ =>
      .inl ⟨hx, hz, hLen.trans hLen'⟩
  | _ :: _, _ :: _, _ :: _, .inl ⟨hx, hy, hLen⟩, .inr ⟨hSame, hTail⟩ =>
      .inl ⟨hx, hSame ▸ hy, hLen.trans hTail.length_eq⟩
  | _ :: _, _ :: _, _ :: _, .inr ⟨hSame, hTail⟩, .inl ⟨hy, hz, hLen⟩ =>
      .inl ⟨hSame ▸ hy, hz, hTail.length_eq.trans hLen⟩
  | _ :: _, _ :: _, _ :: _, .inr ⟨hSame, hTail⟩, .inr ⟨hSame', hTail'⟩ =>
      .inr ⟨hSame.trans hSame', hTail.trans hTail'⟩

/-- Only routes with a listener clash. -/
theorem Clash.not_packable : ∀ {r a : RouteT}, Clash r a → ¬ Packable r
  | [], _, h => h.elim
  | _ :: _, [], h => h.elim
  | x :: _, _ :: _, .inl ⟨hx, _, _⟩ => fun hPack => packable_iff.1 hPack x List.mem_cons_self hx
  | _ :: _, _ :: _, .inr ⟨_, hTail⟩ => fun hPack => hTail.not_packable hPack.tail

/-- A route with a listener clashes with itself. -/
theorem clash_self : ∀ {r : RouteT}, ¬ Packable r → Clash r r
  | [], h => absurd (fun _ hMem => absurd hMem List.not_mem_nil) h
  | x :: r, h => by
      by_cases hx : x.type = 7
      · exact Or.inl ⟨hx, hx, rfl⟩
      · refine Or.inr ⟨rfl, clash_self fun hTail => h (packable_iff.2 fun e he => ?_)⟩
        rcases List.mem_cons.1 he with rfl | he
        · exact hx
        · exact packable_iff.1 hTail e he

theorem Route.key_lt_iff {x y : Route} :
    x.key < y.key ↔ x.type < y.type ∨ x.type = y.type ∧ x.content < y.content :=
  Prod.Lex.toLex_lt_toLex

theorem Route.type_eq_of_key {x y : Route} (h : x.key = y.key) : x.type = y.type :=
  (Prod.mk.inj (toLex.injective h)).1

/-- The loop, of routes of one length that do not clash. -/
theorem routeLtLoop_eq {r : RouteT} :
    ∀ {a : RouteT}, ¬ Clash r a → a.length = r.length →
      routeLtLoop r a = .ok (decide (a.map Route.key < r.map Route.key)) := by
  induction r with
  | nil =>
      intro a _ hLen
      obtain rfl := List.length_eq_zero_iff.1 hLen
      rfl
  | cons y r ih =>
      intro a hClash hLen
      cases a with
      | nil => cases hLen
      | cons x a =>
          have hLen' : a.length = r.length := Nat.succ.inj hLen
          rw [routeLtLoop, List.map_cons, List.map_cons]
          simp only [List.cons_lt_cons_iff]
          by_cases hType : x.type = y.type
          · have hy : y.type ≠ 7 := fun hy =>
              hClash (Or.inl ⟨hy, hType.trans hy, hLen'.symm⟩)
            rw [if_neg (not_not.2 hType)]
            have hx : x.type ≠ 7 := hType ▸ hy
            rcases Route.eqContent_cases hType with ⟨id, id', rfl, -⟩ | hContent
            · exact absurd rfl hx
            rw [hContent]
            by_cases hSame : x = y
            · have hRest := ih (a := a) (fun hTail => hClash (Or.inr ⟨hSame.symm, hTail⟩)) hLen'
              rw [decide_eq_true hSame, hRest]
              simp only [hSame, lt_irrefl, true_and, false_or]
            · have hKey : x.key ≠ y.key := fun hEq => hSame (Route.key_injective hEq)
              rw [decide_eq_false hSame, Route.ltContent_eq hType hx]
              simp only [Route.key_lt_iff, hType, lt_irrefl, true_and, false_or, hKey, false_and,
                or_false]
          · have hKey : x.key ≠ y.key := fun hEq => hType (Route.type_eq_of_key hEq)
            rw [if_pos hType]
            simp only [Route.key_lt_iff, hType, hKey, false_and, or_false]

/-- **Two routes are compared by their keys**, backwards. -/
theorem routeLt_of_not_clash {r a : RouteT} (h : ¬ Clash r a) :
    routeLt r a = .ok (decide (routeKey a < routeKey r)) := by
  rw [routeLt]
  simp only [routeKey, Prod.Lex.toLex_lt_toLex]
  by_cases hLen : a.length = r.length
  · rw [if_neg (not_not.2 hLen), routeLtLoop_eq h hLen]
    simp only [hLen, lt_irrefl, true_and, false_or]
  · rw [if_pos hLen]
    simp only [hLen, false_and, or_false]

theorem routeLt_eq {r a : RouteT} (h : Packable r) :
    routeLt r a = .ok (decide (routeKey a < routeKey r)) :=
  routeLt_of_not_clash fun hClash => hClash.not_packable h

theorem routeLtLoop_of_clash :
    ∀ {r a : RouteT}, Clash r a → routeLtLoop r a = .error ⟨"invalid route type 7"⟩ := by
  intro r
  induction r with
  | nil => exact fun h => h.elim
  | cons y r ih =>
      intro a h
      cases a with
      | nil => exact h.elim
      | cons x a =>
          rw [routeLtLoop]
          rcases h with ⟨hy, hx, -⟩ | ⟨rfl, hTail⟩
          · rw [if_neg (not_not.2 (hx.trans hy.symm))]
            cases x <;> simp [Route.type] at hx
            cases y <;> simp [Route.type] at hy
            rfl
          · rw [if_neg (not_not.2 rfl)]
            rcases Route.eqContent_cases (a := y) (b := y) rfl with ⟨id, id', rfl, -⟩ | hContent
            · rfl
            · rw [hContent, decide_eq_true rfl]
              exact ih hTail

/-- Where both routes come to a listener, their comparison throws. -/
theorem routeLt_of_clash {r a : RouteT} (h : Clash r a) :
    routeLt r a = .error ⟨"invalid route type 7"⟩ := by
  rw [routeLt, if_neg (not_not.2 h.length_eq.symm)]
  exact routeLtLoop_of_clash h

theorem routeEq_decides {r a : RouteT} (h : Packable r) : ∃ v, routeEq r a = .ok v := by
  cases hEq : routeEq r a with
  | ok v => exact ⟨v, rfl⟩
  | error e => exact absurd h (routeEq_error hEq).1

theorem routeEq_iff {r a : RouteT} (h : Packable r) : routeEq r a = .ok true ↔ r = a := by
  constructor
  · exact routeEq_eq_true
  · rintro rfl
    exact ((routeEq_self r).resolve_right fun hNot => hNot.2 h).1

/-- **Routes without listeners** are totally ordered. -/
theorem totalOn_routes {S : Set RouteT} (h : ∀ r ∈ S, Packable r) : TotalOn S routeLt routeEq :=
  TotalOn.of_key (f := fun r => OrderDual.toDual (routeKey r))
    (OrderDual.toDual.injective.comp routeKey_injective)
    (fun a ha b _ => by simp only [routeLt_eq (h a ha), OrderDual.toDual_lt_toDual])
    (fun a ha b _ => routeEq_decides (h a ha))
    fun a ha b _ => routeEq_iff (h a ha)

/-- Routes that clash compare to any other in one way. -/
theorem Clash.map_key_lt {r r' : RouteT} (h : Clash r r') :
    ∀ {a : RouteT}, ¬ Clash r a → a.length = r.length →
      (a.map Route.key < r.map Route.key ↔ a.map Route.key < r'.map Route.key) := by
  induction r generalizing r' with
  | nil => exact h.elim
  | cons x r ih =>
      intro a hNot hLen
      cases r' with
      | nil => exact h.elim
      | cons y r' =>
          cases a with
          | nil => cases hLen
          | cons z a =>
              have hLen' : a.length = r.length := Nat.succ.inj hLen
              simp only [List.map_cons, List.cons_lt_cons_iff]
              rcases h with ⟨hx, hy, -⟩ | ⟨rfl, hTail⟩
              · -- the element of `a` is no listener, so the types decide
                have hz : z.type ≠ 7 := fun hz => hNot (Or.inl ⟨hx, hz, hLen'.symm⟩)
                have hzx : z.key ≠ x.key := fun hEq => hz ((Route.type_eq_of_key hEq).trans hx)
                have hzy : z.key ≠ y.key := fun hEq => hz ((Route.type_eq_of_key hEq).trans hy)
                simp only [hzx, hzy, false_and, or_false, Route.key_lt_iff, hx, hy, hz]
              · refine or_congr_right (and_congr_right fun hKey => ih hTail ?_ hLen')
                exact fun hClash => hNot (Or.inr ⟨(Route.key_injective hKey).symm, hClash⟩)

theorem Clash.routeKey_lt {r r' a : RouteT} (h : Clash r r') (hNot : ¬ Clash r a) :
    routeKey a < routeKey r ↔ routeKey a < routeKey r' := by
  simp only [routeKey, Prod.Lex.toLex_lt_toLex, ← h.length_eq]
  exact or_congr_right (and_congr_right fun hLen => h.map_key_lt hNot hLen)

/-- **All routes**: the comparison is by a key, and throws where both come to a listener. -/
theorem throwingKey_routes :
    ThrowingKey (fun r => OrderDual.toDual (routeKey r)) Clash routeLt where
  injective := OrderDual.toDual.injective.comp routeKey_injective
  throws _ _ h := ⟨_, routeLt_of_clash h⟩
  decides _ _ h := by simp only [routeLt_of_not_clash h, OrderDual.toDual_lt_toDual]
  symm _ _ h := h.symm
  trans _ _ _ h h' := h.trans h'
  place _ _ _ h hNot := h.routeKey_lt hNot

end Megatron.Corelib
