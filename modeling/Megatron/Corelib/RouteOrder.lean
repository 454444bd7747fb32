import Megatron.Corelib.Route
import Megatron.Lib.Comparator

/-!
# Comparing routes

`route_t::operator==` and `route_t::operator<`.  Both go through the elements
and switch on the type of the pair; neither has a case for a listener, so both
throw on a pair of listeners that they come to.

## Main results

* `routeEq_error`, `routeLt_error` — they throw only where both routes have a
  listener.
* `routeEq_self` — a route is equal to itself, or has a listener.
* `routeEq_eq_true`, `routeLt_trichotomous` — only equal routes are equivalent.
-/

namespace Megatron.Corelib

open Megatron.Lib

/-- `Route::RouteType`. -/
def Route.type : Route → Nat
  | .localService _ => 1
  | .remoteAddr _ => 2
  | .objectHandlerPolled _ => 3
  | .socketRoute _ => 4
  | .objectHandlerThreaded _ => 5
  | .thread _ => 6
  | .listener _ => 7

/-- `operator<` of `std::string`. -/
def bytesLt : Bytes → Bytes → Bool := lexLt fun a b => decide (a < b)

/-- The `switch` of `operator==`, on two elements of one type. -/
def Route.eqContent : Route → Route → Except CommonError Bool
  | .localService a, .localService b => .ok (decide (a = b))
  | .thread a, .thread b => .ok (decide (a = b))
  | .remoteAddr a, .remoteAddr b => .ok (decide (a = b))
  | .objectHandlerPolled a, .objectHandlerPolled b => .ok (decide (a = b))
  | .objectHandlerThreaded a, .objectHandlerThreaded b => .ok (decide (a = b))
  | .socketRoute a, .socketRoute b => .ok (decide (a = b))
  | _, _ => .error ⟨"invalid route type 7"⟩

/-- The `switch` of `operator<`: the contents differ, and the first is less. -/
def Route.ltContent : Route → Route → Bool
  | .localService a, .localService b => bytesLt a b
  | .thread a, .thread b => decide (a < b)
  | .remoteAddr a, .remoteAddr b => decide (a < b)
  | .objectHandlerPolled a, .objectHandlerPolled b => bytesLt a b
  | .objectHandlerThreaded a, .objectHandlerThreaded b => bytesLt a b
  | .socketRoute a, .socketRoute b => decide (a < b)
  | _, _ => false

/-- The loop of `operator==`. -/
def routeEqLoop : RouteT → RouteT → Except CommonError Bool
  | b :: bs, a :: as =>
      if a.type ≠ b.type then .ok false
      else
        match a.eqContent b with
        | .error e => .error e
        | .ok false => .ok false
        | .ok true => routeEqLoop bs as
  | _, _ => .ok true

/-- `route_t::operator==`. -/
def routeEq (r a : RouteT) : Except CommonError Bool :=
  if a.length ≠ r.length then .ok false else routeEqLoop r a

/-- The loop of `operator<`. -/
def routeLtLoop : RouteT → RouteT → Except CommonError Bool
  | b :: bs, a :: as =>
      if a.type ≠ b.type then .ok (decide (a.type < b.type))
      else
        match a.eqContent b with
        | .error e => .error e
        | .ok false => .ok (a.ltContent b)
        | .ok true => routeLtLoop bs as
  | _, _ => .ok false

/-- `route_t::operator<`; it is the argument that is less. -/
def routeLt (r a : RouteT) : Except CommonError Bool :=
  if a.length ≠ r.length then .ok (decide (a.length < r.length)) else routeLtLoop r a

attribute [local simp] Route.eqContent routeEqLoop routeLtLoop

/-! ## Elements -/

theorem packable_iff {r : RouteT} : Packable r ↔ ∀ e ∈ r, e.type ≠ 7 := by
  constructor
  · rintro h (_ | _ | _ | _ | _ | _ | id) hMem
    case listener => exact absurd hMem (h id)
    all_goals simp [Route.type]
  · exact fun h id hMem => h _ hMem rfl

instance : DecidablePred Packable := fun _ => decidable_of_iff _ packable_iff.symm

theorem Packable.tail {e : Route} {r : RouteT} (h : Packable (e :: r)) : Packable r :=
  fun id hMem => h id (List.mem_cons_of_mem e hMem)

theorem not_packable_cons_listener (id : Nat) (r : RouteT) : ¬ Packable (.listener id :: r) :=
  fun h => h id List.mem_cons_self

/-- A pair of listeners, or a verdict. -/
theorem Route.eqContent_cases {a b : Route} (hType : a.type = b.type) :
    (∃ id id', a = .listener id ∧ b = .listener id') ∨ a.eqContent b = .ok (decide (a = b)) := by
  cases a with
  | listener id =>
      cases b with
      | listener id' => exact Or.inl ⟨id, id', rfl, rfl⟩
      | _ => exact absurd hType (by simp [Route.type])
  | _ =>
      right
      cases b <;> simp_all [Route.type, Route.eqContent]

theorem bytesLt_trichotomous {a b : Bytes} (h : bytesLt a b = false) (h' : bytesLt b a = false) :
    a = b := by
  refine List.forall₂_eq_eq_eq ▸ (forall₂_of_not_lexLt h h').imp ?_
  intro x y hxy
  simp only [decide_eq_false_iff_not] at hxy
  exact UInt8.le_antisymm (UInt8.not_lt.1 hxy.2) (UInt8.not_lt.1 hxy.1)

theorem Route.ltContent_trichotomous {a b : Route} (hType : a.type = b.type)
    (h : a.ltContent b = false) (h' : b.ltContent a = false) :
    a = b ∨ a.eqContent b = .error ⟨"invalid route type 7"⟩ := by
  cases a with
  | localService id =>
      cases b with
      | localService id' => exact Or.inl (congrArg _ (bytesLt_trichotomous h h'))
      | _ => exact absurd hType (by simp [Route.type])
  | remoteAddr addr =>
      cases b with
      | remoteAddr addr' =>
          simp only [Route.ltContent, decide_eq_false_iff_not] at h h'
          exact Or.inl (congrArg _ (Int64.le_antisymm (Int64.not_lt.1 h') (Int64.not_lt.1 h)))
      | _ => exact absurd hType (by simp [Route.type])
  | objectHandlerPolled addr =>
      cases b with
      | objectHandlerPolled addr' => exact Or.inl (congrArg _ (bytesLt_trichotomous h h'))
      | _ => exact absurd hType (by simp [Route.type])
  | socketRoute id =>
      cases b with
      | socketRoute id' =>
          simp only [Route.ltContent, decide_eq_false_iff_not] at h h'
          exact Or.inl (congrArg _ (Int64.le_antisymm (Int64.not_lt.1 h') (Int64.not_lt.1 h)))
      | _ => exact absurd hType (by simp [Route.type])
  | objectHandlerThreaded addr =>
      cases b with
      | objectHandlerThreaded addr' => exact Or.inl (congrArg _ (bytesLt_trichotomous h h'))
      | _ => exact absurd hType (by simp [Route.type])
  | thread id =>
      cases b with
      | thread id' =>
          simp only [Route.ltContent, decide_eq_false_iff_not] at h h'
          exact Or.inl (congrArg _ (Int32.le_antisymm (Int32.not_lt.1 h') (Int32.not_lt.1 h)))
      | _ => exact absurd hType (by simp [Route.type])
  | listener id =>
      cases b with
      | listener id' => exact Or.inr rfl
      | _ => exact absurd hType (by simp [Route.type])

/-! ## Routes -/

/-- Where the loop of `operator==` throws, it is at a pair of listeners. -/
theorem routeEqLoop_error {e : CommonError} :
    ∀ {r a : RouteT}, routeEqLoop r a = .error e → ¬ Packable r ∧ ¬ Packable a := by
  intro r
  induction r with
  | nil => intro a h; cases h
  | cons y r ih =>
      intro a h
      cases a with
      | nil => cases h
      | cons x a =>
          rw [routeEqLoop] at h
          split at h
          · cases h
          rename_i hType
          rw [not_not] at hType
          rcases Route.eqContent_cases hType with ⟨id, id', rfl, rfl⟩ | hContent
          · exact ⟨not_packable_cons_listener id' r, not_packable_cons_listener id a⟩
          rw [hContent] at h
          by_cases hSame : x = y
          · rw [decide_eq_true hSame] at h
            have hRest := ih h
            exact ⟨fun hPack => hRest.1 hPack.tail, fun hPack => hRest.2 hPack.tail⟩
          · rw [decide_eq_false hSame] at h
            cases h

/-- `operator==` throws only where both routes have a listener. -/
theorem routeEq_error {e : CommonError} {r a : RouteT} (h : routeEq r a = .error e) :
    ¬ Packable r ∧ ¬ Packable a := by
  rw [routeEq] at h
  split at h
  · cases h
  · exact routeEqLoop_error h

theorem routeLtLoop_error {e : CommonError} :
    ∀ {r a : RouteT}, routeLtLoop r a = .error e → ¬ Packable r ∧ ¬ Packable a := by
  intro r
  induction r with
  | nil => intro a h; cases h
  | cons y r ih =>
      intro a h
      cases a with
      | nil => cases h
      | cons x a =>
          rw [routeLtLoop] at h
          split at h
          · cases h
          rename_i hType
          rw [not_not] at hType
          rcases Route.eqContent_cases hType with ⟨id, id', rfl, rfl⟩ | hContent
          · exact ⟨not_packable_cons_listener id' r, not_packable_cons_listener id a⟩
          rw [hContent] at h
          by_cases hSame : x = y
          · rw [decide_eq_true hSame] at h
            have hRest := ih h
            exact ⟨fun hPack => hRest.1 hPack.tail, fun hPack => hRest.2 hPack.tail⟩
          · rw [decide_eq_false hSame] at h
            cases h

/-- `operator<` throws only where both routes have a listener. -/
theorem routeLt_error {e : CommonError} {r a : RouteT} (h : routeLt r a = .error e) :
    ¬ Packable r ∧ ¬ Packable a := by
  rw [routeLt] at h
  split at h
  · cases h
  · exact routeLtLoop_error h

theorem routeEqLoop_self (r : RouteT) :
    routeEqLoop r r = .ok true ∧ Packable r ∨
      routeEqLoop r r = .error ⟨"invalid route type 7"⟩ ∧ ¬ Packable r := by
  induction r with
  | nil => exact Or.inl ⟨rfl, fun id hMem => by cases hMem⟩
  | cons x r ih =>
      rw [routeEqLoop, if_neg (not_not.2 rfl)]
      rcases Route.eqContent_cases (a := x) (b := x) rfl with ⟨id, id', rfl, -⟩ | hContent
      · exact Or.inr ⟨rfl, not_packable_cons_listener id r⟩
      have hNot : ∀ id, x ≠ .listener id := by
        rintro id rfl
        cases hContent
      rw [hContent, decide_eq_true rfl]
      rcases ih with ⟨hLoop, hPack⟩ | ⟨hLoop, hPack⟩
      · refine Or.inl ⟨hLoop, fun id hMem => ?_⟩
        rcases List.mem_cons.1 hMem with hHead | hTail
        · exact hNot id hHead.symm
        · exact hPack id hTail
      · exact Or.inr ⟨hLoop, fun h => hPack h.tail⟩

/-- A route compared with itself is found equal, or the comparison throws. -/
theorem routeEq_self (r : RouteT) :
    routeEq r r = .ok true ∧ Packable r ∨
      routeEq r r = .error ⟨"invalid route type 7"⟩ ∧ ¬ Packable r := by
  rw [routeEq, if_neg (not_not.2 rfl)]
  exact routeEqLoop_self r

theorem eq_of_routeEqLoop :
    ∀ {r a : RouteT}, a.length = r.length → routeEqLoop r a = .ok true → r = a := by
  intro r
  induction r with
  | nil => intro a hLen _; exact (List.length_eq_zero_iff.1 hLen).symm
  | cons y r ih =>
      intro a hLen h
      cases a with
      | nil => cases hLen
      | cons x a =>
          rw [routeEqLoop] at h
          split at h
          · cases h
          rename_i hType
          rw [not_not] at hType
          rcases Route.eqContent_cases hType with ⟨id, id', rfl, rfl⟩ | hContent
          · cases h
          rw [hContent] at h
          by_cases hSame : x = y
          · rw [decide_eq_true hSame] at h
            rw [hSame, ih (Nat.succ.inj hLen) h]
          · rw [decide_eq_false hSame] at h
            cases h

/-- Routes found equal are equal. -/
theorem routeEq_eq_true {r a : RouteT} (h : routeEq r a = .ok true) : r = a := by
  rw [routeEq] at h
  split at h
  · cases h
  · rename_i hLen
    exact eq_of_routeEqLoop (not_not.1 hLen) h

theorem routeLtLoop_trichotomous :
    ∀ {r a : RouteT}, a.length = r.length → routeLtLoop r a = .ok false →
      routeLtLoop a r = .ok false → r = a := by
  intro r
  induction r with
  | nil => intro a hLen _ _; exact (List.length_eq_zero_iff.1 hLen).symm
  | cons y r ih =>
      intro a hLen h h'
      cases a with
      | nil => cases hLen
      | cons x a =>
          rw [routeLtLoop] at h h'
          by_cases hType : x.type = y.type
          · rw [if_neg (not_not.2 hType)] at h
            rw [if_neg (not_not.2 hType.symm)] at h'
            rcases Route.eqContent_cases hType with ⟨id, id', rfl, rfl⟩ | hContent
            · cases h
            rcases Route.eqContent_cases hType.symm with ⟨id, id', rfl, rfl⟩ | hContent'
            · cases h'
            rw [hContent] at h
            rw [hContent'] at h'
            by_cases hSame : x = y
            · rw [decide_eq_true hSame] at h
              rw [decide_eq_true hSame.symm] at h'
              rw [hSame, ih (Nat.succ.inj hLen) h h']
            · rw [decide_eq_false hSame] at h
              rw [decide_eq_false (Ne.symm hSame)] at h'
              rcases Route.ltContent_trichotomous hType (Except.ok.inj h) (Except.ok.inj h') with
                hEq | hError
              · exact absurd hEq hSame
              · rw [hContent] at hError
                cases hError
          · rw [if_pos hType] at h
            rw [if_pos (Ne.symm hType)] at h'
            have hLe := of_decide_eq_false (Except.ok.inj h)
            have hGe := of_decide_eq_false (Except.ok.inj h')
            omega

/-- Of two different routes one is less. -/
theorem routeLt_trichotomous {r a : RouteT} (h : routeLt r a = .ok false)
    (h' : routeLt a r = .ok false) : r = a := by
  rw [routeLt] at h h'
  by_cases hLen : a.length = r.length
  · rw [if_neg (not_not.2 hLen)] at h
    rw [if_neg (not_not.2 hLen.symm)] at h'
    exact routeLtLoop_trichotomous hLen h h'
  · rw [if_pos hLen] at h
    rw [if_pos (Ne.symm hLen)] at h'
    have hLe := of_decide_eq_false (Except.ok.inj h)
    have hGe := of_decide_eq_false (Except.ok.inj h')
    omega

end Megatron.Corelib
