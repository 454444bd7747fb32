import Mathlib.Order.Lattice
import Megatron.Lib.OrdMap

/-!
# Ordered sets

`std::set` as its elements in ascending order: an ordered set is a strictly
ascending list, so two sets with the same elements are the same, a walk meets
the elements from the least on, and everything computes.

## Main results

* `mem_insert`, `mem_erase` — what insertion adds and erasure takes.
* `find?_eq_some` — the first element of a kind is the least of its kind.
* `mem_at'_insert_insert` — an element that is put into one set of a map.
-/

namespace Megatron.Lib

universe u

/-- Strings are ordered by their bytes. -/
instance linearOrderUInt8 : LinearOrder UInt8 where
  le_refl := UInt8.le_refl
  le_trans _ _ _ := UInt8.le_trans
  le_antisymm _ _ := UInt8.le_antisymm
  le_total := UInt8.le_total
  lt_iff_le_not_ge a b := by
    rw [UInt8.lt_iff_toNat_lt, UInt8.le_iff_toNat_le, UInt8.le_iff_toNat_le]
    omega
  toDecidableLE := fun a b => inferInstanceAs (Decidable (a ≤ b))

/-- A strictly ascending list. -/
structure OrdSet (α : Type u) [LinearOrder α] where
  toList : List α
  sorted : toList.Pairwise (· < ·)

namespace OrdSet

variable {α : Type u} [LinearOrder α]

instance instDecidableEq : DecidableEq (OrdSet α) := fun s t =>
  decidable_of_iff (s.toList = t.toList) (by
    cases s
    cases t
    simp)

instance instMembership : Membership α (OrdSet α) where
  mem s a := a ∈ s.toList

instance instDecidableMem (a : α) (s : OrdSet α) : Decidable (a ∈ s) :=
  inferInstanceAs (Decidable (a ∈ s.toList))

instance instEmptyCollection : EmptyCollection (OrdSet α) where
  emptyCollection := ⟨[], List.Pairwise.nil⟩

instance instInhabited : Inhabited (OrdSet α) := ⟨∅⟩

@[simp] theorem mem_toList {a : α} {s : OrdSet α} : a ∈ s.toList ↔ a ∈ s := Iff.rfl

@[simp] theorem toList_empty : (∅ : OrdSet α).toList = [] := rfl

@[simp] theorem notMem_empty (a : α) : a ∉ (∅ : OrdSet α) := List.not_mem_nil

theorem toList_eq_nil {s : OrdSet α} : s.toList = [] ↔ s = ∅ := by
  cases s
  simp [EmptyCollection.emptyCollection]

theorem eq_empty_iff {s : OrdSet α} : s = ∅ ↔ ∀ a, a ∉ s := by
  rw [← toList_eq_nil, List.eq_nil_iff_forall_not_mem]
  rfl

/-! ## Insertion -/

/-- The place of `a` in an ascending list; an element that is there stays. -/
def insertList (a : α) : List α → List α
  | [] => [a]
  | b :: l => if a < b then a :: b :: l else if b < a then b :: insertList a l else b :: l

theorem mem_insertList {a x : α} {l : List α} : x ∈ insertList a l ↔ x = a ∨ x ∈ l := by
  induction l with
  | nil => simp [insertList]
  | cons b l ih =>
      rw [insertList]
      split
      · simp
      · split
        · simp only [List.mem_cons, ih]
          exact or_left_comm
        · have hEq : a = b := by
            rename_i hab hba
            exact le_antisymm (not_lt.1 hba) (not_lt.1 hab)
          simp [hEq]

theorem pairwise_insertList (a : α) {l : List α} (h : l.Pairwise (· < ·)) :
    (insertList a l).Pairwise (· < ·) := by
  induction l with
  | nil => simp [insertList]
  | cons b l ih =>
      rw [insertList]
      have hTail := List.pairwise_cons.1 h
      split
      · rename_i hab
        refine List.pairwise_cons.2 ⟨?_, h⟩
        intro x hx
        rcases List.mem_cons.1 hx with rfl | hx
        · exact hab
        · exact hab.trans (hTail.1 x hx)
      · split
        · rename_i hba
          refine List.pairwise_cons.2 ⟨?_, ih hTail.2⟩
          intro x hx
          rcases mem_insertList.1 hx with rfl | hx
          · exact hba
          · exact hTail.1 x hx
        · exact h

/-- `std::set::insert`. -/
def insert (a : α) (s : OrdSet α) : OrdSet α :=
  ⟨insertList a s.toList, pairwise_insertList a s.sorted⟩

@[simp] theorem mem_insert {a x : α} {s : OrdSet α} : x ∈ s.insert a ↔ x = a ∨ x ∈ s :=
  mem_insertList

theorem insert_ne_empty (a : α) (s : OrdSet α) : s.insert a ≠ ∅ := by
  intro h
  exact eq_empty_iff.1 h a (mem_insert.2 (Or.inl rfl))

theorem toList_insert_empty (a : α) : (insert a ∅ : OrdSet α).toList = [a] := rfl

/-- A set with one element, and that element again. -/
theorem toList_insert_self {a : α} {s : OrdSet α} (h : s.toList = [a]) :
    (s.insert a).toList = [a] := by
  simp [insert, h, insertList]

/-- `std::set::erase`. -/
def erase (a : α) (s : OrdSet α) : OrdSet α :=
  ⟨s.toList.filter (· ≠ a), s.sorted.filter _⟩

@[simp] theorem mem_erase {a x : α} {s : OrdSet α} : x ∈ s.erase a ↔ x ≠ a ∧ x ∈ s := by
  rw [← mem_toList, erase, List.mem_filter, decide_eq_true_eq, mem_toList]
  exact and_comm

/-- The elements of a list as a set. -/
def ofList (l : List α) : OrdSet α := l.foldr insert ∅

/-! ## The first element of a kind -/

/-- The walk that stops at the first element with `p`. -/
def find? (s : OrdSet α) (p : α → Prop) [DecidablePred p] : Option α :=
  s.toList.find? (fun a => decide (p a))

/-- `*s.begin()`. -/
def first? (s : OrdSet α) : Option α := s.toList.head?

variable {p : α → Prop} [DecidablePred p]

theorem find?_eq_none {s : OrdSet α} : s.find? p = none ↔ ∀ a ∈ s, ¬ p a := by
  simp [find?]

theorem find?_list_eq_some {l : List α} (hSorted : l.Pairwise (· < ·)) {a : α} :
    l.find? (fun a => decide (p a)) = some a ↔ a ∈ l ∧ p a ∧ ∀ b ∈ l, p b → a ≤ b := by
  induction l with
  | nil => simp
  | cons c l ih =>
      have hTail := List.pairwise_cons.1 hSorted
      by_cases hc : p c
      · simp only [hc, decide_true, List.find?_cons_of_pos, Option.some.injEq]
        constructor
        · rintro rfl
          refine ⟨List.mem_cons_self, hc, fun b hb _ => ?_⟩
          rcases List.mem_cons.1 hb with rfl | hb
          · exact le_rfl
          · exact (hTail.1 b hb).le
        · rintro ⟨hMem, -, hLeast⟩
          rcases List.mem_cons.1 hMem with rfl | hMem
          · rfl
          · exact absurd (hTail.1 a hMem) (not_lt.2 (hLeast c List.mem_cons_self hc))
      · simp only [hc, decide_false, Bool.false_eq_true, not_false_eq_true,
          List.find?_cons_of_neg, ih hTail.2]
        constructor
        · rintro ⟨hMem, ha, hLeast⟩
          refine ⟨List.mem_cons_of_mem c hMem, ha, fun b hb hpb => ?_⟩
          rcases List.mem_cons.1 hb with rfl | hb
          · exact absurd hpb hc
          · exact hLeast b hb hpb
        · rintro ⟨hMem, ha, hLeast⟩
          rcases List.mem_cons.1 hMem with rfl | hMem
          · exact absurd ha hc
          · exact ⟨hMem, ha, fun b hb => hLeast b (List.mem_cons_of_mem c hb)⟩

/-- **The first is the least.** -/
theorem find?_eq_some {s : OrdSet α} {a : α} :
    s.find? p = some a ↔ a ∈ s ∧ p a ∧ ∀ b ∈ s, p b → a ≤ b :=
  find?_list_eq_some s.sorted

theorem first?_eq_none {s : OrdSet α} : s.first? = none ↔ s = ∅ := by
  rw [first?, List.head?_eq_none_iff, toList_eq_nil]

theorem mem_of_first? {s : OrdSet α} {a : α} (h : s.first? = some a) : a ∈ s :=
  List.mem_of_mem_head? h

/-! ## Maps of sets -/

variable {κ : Type*} [LinearOrder κ] {m : OrdMap κ (OrdSet α)} {k k' : κ} {a x : α}

theorem mem_at' : x ∈ m.at' k ↔ ∃ s, m.get? k = some s ∧ x ∈ s := by
  constructor
  · intro hx
    cases hGet : m.get? k with
    | none =>
        rw [OrdMap.at'_of_none hGet] at hx
        exact absurd hx (notMem_empty x)
    | some s =>
        rw [OrdMap.at'_of_get? hGet] at hx
        exact ⟨s, rfl, hx⟩
  · rintro ⟨s, hGet, hx⟩
    rwa [OrdMap.at'_of_get? hGet]

/-- An element is put into the set of one key, which is made if need be. -/
theorem mem_at'_insert_insert :
    x ∈ (m.insert k ((m.at' k).insert a)).at' k' ↔ k' = k ∧ x = a ∨ x ∈ m.at' k' := by
  by_cases h : k' = k
  · simp [h]
  · simp [OrdMap.at'_insert_of_ne h, h]

end OrdSet

end Megatron.Lib
