import Mathlib.Data.List.Basic
import Mathlib.Algebra.Order.Ring.Nat

/-!
# Slices of a list, translated one by one

A list is cut into slices of `n` elements, the last one with what is left; a
partial function is applied to one slice after the other, up to the first one on
which it has no value.

## Main results

* `slices_cons`, `flatten_slices`, `slices_flatten` — cutting, and putting together
  again.
* `translate_slices_trip` — translating there and back.
* `translate_snd_eq_false` — where a translation stops.
-/

namespace Megatron.Lib

universe u v

variable {α : Type u} {β : Type v}

/-! ## Slices -/

/-- `n` elements at a time. -/
def slices (n : Nat) (l : List α) : List (List α) :=
  (List.range ((l.length + n - 1) / n)).map fun i => (l.drop (n * i)).take n

section Slices

variable {n : Nat} (hn : 0 < n)

@[simp] theorem slices_nil (n : Nat) : slices n ([] : List α) = [] := by
  cases n <;> simp [slices]

@[simp] theorem length_slices (n : Nat) (l : List α) :
    (slices n l).length = (l.length + n - 1) / n := by
  rw [slices, List.length_map, List.length_range]

include hn

theorem slices_cons {l : List α} (hl : l ≠ []) :
    slices n l = l.take n :: slices n (l.drop n) := by
  have hPos := List.length_pos_of_ne_nil hl
  have hCount : (l.length + n - 1) / n = ((l.drop n).length + n - 1) / n + 1 := by
    rw [List.length_drop]
    by_cases hLe : n ≤ l.length
    · rw [← Nat.add_div_right _ hn]
      congr 1
      omega
    · have hOne : l.length + n - 1 = n + (l.length - 1) := by omega
      rw [hOne, Nat.add_div_left _ hn, Nat.div_eq_of_lt (by omega), Nat.div_eq_of_lt (by omega)]
  rw [slices, hCount, List.range_succ_eq_map, List.map_cons, List.map_map, slices]
  congr 1
  refine List.map_congr_left fun i _ => ?_
  rw [Function.comp_apply, List.drop_drop, Nat.succ_eq_add_one, Nat.mul_add, Nat.mul_one,
    Nat.add_comm]

/-- Slices put together are the list. -/
theorem flatten_slices (l : List α) : (slices n l).flatten = l := by
  induction hLen : l.length using Nat.strong_induction_on generalizing l with
  | _ k ih =>
      by_cases hl : l = []
      · rw [hl, slices_nil, List.flatten_nil]
      · have hPos := List.length_pos_of_ne_nil hl
        have hLess : (l.drop n).length < k := by
          rw [List.length_drop]
          omega
        rw [slices_cons hn hl, List.flatten_cons, ih _ hLess _ rfl, List.take_append_drop]

/-- A slice is neither empty nor longer than `n`. -/
theorem length_of_mem_slices {l b : List α} (h : b ∈ slices n l) :
    0 < b.length ∧ b.length ≤ n := by
  obtain ⟨i, hi, rfl⟩ := List.mem_map.1 h
  rw [List.mem_range, Nat.lt_div_iff_mul_lt hn] at hi
  rw [List.length_take, List.length_drop, Nat.mul_comm n i]
  omega

/-- Where `n` divides the length, no slice is shorter than `n`. -/
theorem length_of_mem_slices_of_dvd {l b : List α} (hDvd : n ∣ l.length) (h : b ∈ slices n l) :
    b.length = n := by
  obtain ⟨k, hk⟩ := hDvd
  obtain ⟨i, hi, rfl⟩ := List.mem_map.1 h
  rw [List.mem_range, Nat.lt_div_iff_mul_lt hn, hk, Nat.mul_comm i n] at hi
  have hStart : n * i < n * k := by omega
  have hWhole : n * (i + 1) ≤ n * k := Nat.mul_le_mul_left n (Nat.lt_of_mul_lt_mul_left hStart)
  rw [Nat.mul_add, Nat.mul_one] at hWhole
  rw [List.length_take, List.length_drop, hk]
  omega

/-- A list put together of pieces of `n` elements has these as its slices. -/
theorem slices_flatten {bs : List (List α)} (h : ∀ b ∈ bs, b.length = n) :
    slices n bs.flatten = bs := by
  induction bs with
  | nil => exact slices_nil n
  | cons b bs ih =>
      have hb := h b List.mem_cons_self
      have hNonempty : b ++ bs.flatten ≠ [] := by
        intro hNil
        rw [(List.append_eq_nil_iff.1 hNil).1, List.length_nil] at hb
        omega
      rw [List.flatten_cons, slices_cons hn hNonempty, List.take_left' hb, List.drop_left' hb,
        ih fun x hx => h x (List.mem_cons_of_mem b hx)]

end Slices

/-! ## Translation -/

/-- What `f` makes of the pieces, up to the first without a value, and whether all
have one. -/
def translate (f : List α → Option (List β)) : List (List α) → List β × Bool
  | [] => ([], true)
  | b :: bs =>
      match f b with
      | none => ([], false)
      | some c => (c ++ (translate f bs).1, (translate f bs).2)

section Translate

variable {f : List α → Option (List β)} {g : List β → Option (List α)}

@[simp] theorem translate_nil : translate f [] = ([], true) := rfl

theorem translate_cons_some {b : List α} {c : List β} (h : f b = some c) (bs : List (List α)) :
    translate f (b :: bs) = (c ++ (translate f bs).1, (translate f bs).2) := by
  rw [translate, h]

theorem translate_cons_none {b : List α} (h : f b = none) (bs : List (List α)) :
    translate f (b :: bs) = ([], false) := by
  rw [translate, h]

/-- Where not all pieces have a value, some first one has none. -/
theorem translate_snd_eq_false {bs : List (List α)} (h : (translate f bs).2 = false) :
    ∃ as b cs, bs = as ++ b :: cs ∧ f b = none ∧ translate f as = ((translate f bs).1, true) := by
  induction bs with
  | nil => cases h
  | cons b bs ih =>
      cases hf : f b with
      | none =>
          rw [translate_cons_none hf]
          exact ⟨[], b, bs, rfl, hf, rfl⟩
      | some c =>
          rw [translate_cons_some hf] at h ⊢
          obtain ⟨as, b', cs, rfl, hNone, hFront⟩ := ih h
          refine ⟨b :: as, b', cs, rfl, hNone, ?_⟩
          rw [translate_cons_some hf, hFront]

/-- The values, where every piece has one. -/
theorem translate_eq_flatten {bs : List (List α)} {F : List α → List β}
    (h : ∀ b ∈ bs, f b = some (F b)) : translate f bs = ((bs.map F).flatten, true) := by
  induction bs with
  | nil => rfl
  | cons b bs ih =>
      rw [translate_cons_some (h b List.mem_cons_self),
        ih fun x hx => h x (List.mem_cons_of_mem b hx), List.map_cons, List.flatten_cons]

/--
**There and back.** Where `f` has a value of length `m` on every piece of at most
`n` elements, and `g` takes it back, the slices of what `f` makes of a list are
translated to that list.
-/
theorem translate_slices_trip {n m : Nat} (hn : 0 < n) (hm : 0 < m)
    (h : ∀ b : List α, 0 < b.length → b.length ≤ n → ∃ c, f b = some c ∧ c.length = m ∧ g c = some b)
    (l : List α) :
    ∃ c, translate f (slices n l) = (c, true) ∧ c.length = m * ((l.length + n - 1) / n) ∧
      translate g (slices m c) = (l, true) := by
  have hEach : ∀ b ∈ slices n l, f b = some ((f b).getD []) ∧ ((f b).getD []).length = m ∧
      g ((f b).getD []) = some b := by
    intro b hb
    obtain ⟨hPos, hLe⟩ := length_of_mem_slices hn hb
    obtain ⟨c, hf, hLen, hg⟩ := h b hPos hLe
    rw [hf, Option.getD_some]
    exact ⟨rfl, hLen, hg⟩
  have hLengths : ∀ c ∈ (slices n l).map fun b => (f b).getD [], c.length = m := by
    intro c hc
    obtain ⟨b, hb, rfl⟩ := List.mem_map.1 hc
    exact (hEach b hb).2.1
  refine ⟨((slices n l).map fun b => (f b).getD []).flatten,
    translate_eq_flatten fun b hb => (hEach b hb).1, ?_, ?_⟩
  · rw [List.length_flatten, List.map_congr_left hLengths, List.map_const', List.sum_replicate_nat,
      List.length_map, length_slices, Nat.mul_comm]
  · rw [slices_flatten hm hLengths, translate_eq_flatten (F := fun c => (g c).getD [])]
    · rw [List.map_map]
      have hBack : ∀ b ∈ slices n l,
          ((fun c => (g c).getD []) ∘ fun b => (f b).getD []) b = id b := by
        intro b hb
        rw [Function.comp_apply, (hEach b hb).2.2]
        rfl
      rw [List.map_congr_left hBack, List.map_id, flatten_slices hn]
    · intro c hc
      obtain ⟨b, hb, rfl⟩ := List.mem_map.1 hc
      rw [(hEach b hb).2.2]
      rfl

end Translate

end Megatron.Lib
