import Mathlib.Data.List.Perm.Subperm
import Mathlib.Order.Lattice

/-!
# Ordered maps

`std::map` as its entries in ascending order of their keys: an ordered map is
a list of entries whose keys ascend strictly, so a walk meets the keys from the
least on, and everything computes.

## Main results

* `get?_insert_self`, `get?_insert_of_ne` — an entry that is set is found, and
  the entries of other keys are as they were.
* `touch_touch` — `operator[]` makes an entry once.
* `size_le_length`, `length_le_size` — the number of entries by the keys.
* `mem_toList`, `get?_eraseFirst` — the entries of a walk, and what is left
  without the first.
* `Lists.insertNew`, `Lists.erase` — the relation that a map lists.
-/

namespace Megatron.Lib

universe u v

/-- A list of entries with strictly ascending keys. -/
structure OrdMap (α : Type u) (β : Type v) [LinearOrder α] where
  toList : List (α × β)
  sorted : toList.Pairwise (·.1 < ·.1)

namespace OrdMap

variable {α : Type u} {β : Type v} [LinearOrder α]

instance instDecidableEq [DecidableEq β] : DecidableEq (OrdMap α β) := fun m n =>
  decidable_of_iff (m.toList = n.toList) (by
    cases m
    cases n
    simp)

instance instEmptyCollection : EmptyCollection (OrdMap α β) where
  emptyCollection := ⟨[], List.Pairwise.nil⟩

instance instInhabited : Inhabited (OrdMap α β) := ⟨∅⟩

/-- The value under the key `k`. -/
def get? (m : OrdMap α β) (k : α) : Option β :=
  (m.toList.find? fun e => decide (e.1 = k)).map Prod.snd

@[simp] theorem get?_empty (k : α) : (∅ : OrdMap α β).get? k = none := rfl

/-! ## Setting an entry -/

/-- The place of `k` in a list of ascending keys; an entry that is there gets
the new value. -/
def insertList (k : α) (x : β) : List (α × β) → List (α × β)
  | [] => [(k, x)]
  | (k', x') :: l =>
      if k < k' then (k, x) :: (k', x') :: l
      else if k' < k then (k', x') :: insertList k x l
      else (k, x) :: l

theorem mem_insertList {k : α} {x : β} {e : α × β} {l : List (α × β)}
    (h : e ∈ insertList k x l) : e = (k, x) ∨ e ∈ l := by
  induction l with
  | nil => simpa [insertList] using h
  | cons e' l ih =>
      rw [insertList] at h
      split at h
      · simpa using h
      · split at h
        · rcases List.mem_cons.1 h with rfl | h
          · exact Or.inr List.mem_cons_self
          · exact (ih h).imp_right (List.mem_cons_of_mem _)
        · exact (List.mem_cons.1 h).imp_right (List.mem_cons_of_mem _)

theorem pairwise_insertList (k : α) (x : β) {l : List (α × β)}
    (h : l.Pairwise (·.1 < ·.1)) : (insertList k x l).Pairwise (·.1 < ·.1) := by
  induction l with
  | nil => simp [insertList]
  | cons e l ih =>
      obtain ⟨k', x'⟩ := e
      have hTail := List.pairwise_cons.1 h
      rw [insertList]
      split
      · rename_i hlt
        refine List.pairwise_cons.2 ⟨?_, h⟩
        intro e he
        rcases List.mem_cons.1 he with rfl | he
        · exact hlt
        · exact hlt.trans (hTail.1 e he)
      · rename_i hnot
        split
        · rename_i hgt
          refine List.pairwise_cons.2 ⟨?_, ih hTail.2⟩
          intro e he
          rcases mem_insertList he with rfl | he
          · exact hgt
          · exact hTail.1 e he
        · rename_i hnot'
          obtain rfl : k = k' := le_antisymm (not_lt.1 hnot') (not_lt.1 hnot)
          exact List.pairwise_cons.2 ⟨hTail.1, hTail.2⟩

/-- `m[k] = x`. -/
def insert (k : α) (x : β) (m : OrdMap α β) : OrdMap α β :=
  ⟨insertList k x m.toList, pairwise_insertList k x m.sorted⟩

theorem find?_insertList (k k' : α) (x : β) (l : List (α × β)) :
    (insertList k x l).find? (fun e => decide (e.1 = k')) =
      if k = k' then some (k, x) else l.find? fun e => decide (e.1 = k') := by
  induction l with
  | nil => by_cases h : k = k' <;> simp [insertList, h]
  | cons e l ih =>
      obtain ⟨a, y⟩ := e
      rw [insertList]
      split
      · by_cases h : k = k' <;> simp [h]
      · rename_i hnot
        split
        · rename_i hgt
          by_cases ha : a = k'
          · subst ha
            simp [hgt.ne']
          · rw [List.find?_cons_of_neg (by simpa using ha),
              List.find?_cons_of_neg (by simpa using ha), ih]
        · rename_i hnot'
          obtain rfl : k = a := le_antisymm (not_lt.1 hnot') (not_lt.1 hnot)
          by_cases h : k = k' <;> simp [h]

@[simp] theorem get?_insert_self (k : α) (x : β) (m : OrdMap α β) :
    (m.insert k x).get? k = some x := by
  rw [get?, insert, find?_insertList, if_pos rfl]
  rfl

theorem get?_insert_of_ne {k k' : α} (h : k' ≠ k) (x : β) (m : OrdMap α β) :
    (m.insert k x).get? k' = m.get? k' := by
  rw [get?, insert, find?_insertList, if_neg h.symm]
  rfl

/-- A loop that sets other entries. -/
theorem get?_foldl_insert {ι : Type*} {f : ι → α} {g : ι → β} {k : α} {l : List ι}
    (h : ∀ i ∈ l, f i ≠ k) (m : OrdMap α β) :
    (l.foldl (fun m i => m.insert (f i) (g i)) m).get? k = m.get? k := by
  induction l generalizing m with
  | nil => rfl
  | cons i l ih =>
      rw [List.forall_mem_cons] at h
      rw [List.foldl_cons, ih h.2, get?_insert_of_ne h.1.symm]

/-! ## Looking an entry up by `operator[]` -/

section Touch

variable [Inhabited β]

/-- The map behind `m[k]`: an entry that is missing is made. -/
def touch (k : α) (m : OrdMap α β) : OrdMap α β :=
  if (m.get? k).isSome then m else m.insert k default

/-- `m[k]`. -/
def at' (m : OrdMap α β) (k : α) : β := (m.get? k).getD default

theorem touch_of_isSome {k : α} {m : OrdMap α β} (h : (m.get? k).isSome) : m.touch k = m :=
  if_pos h

theorem get?_touch_self (k : α) (m : OrdMap α β) : ((m.touch k).get? k).isSome := by
  rw [touch]
  split
  · assumption
  · simp

@[simp] theorem touch_touch (k : α) (m : OrdMap α β) : (m.touch k).touch k = m.touch k :=
  touch_of_isSome (get?_touch_self k m)

theorem get?_touch_of_ne {k k' : α} (h : k' ≠ k) (m : OrdMap α β) :
    (m.touch k).get? k' = m.get? k' := by
  rw [touch]
  split
  · rfl
  · exact get?_insert_of_ne h default m

/-- Making an entry changes no value that is read by `operator[]`. -/
@[simp] theorem at'_touch (k k' : α) (m : OrdMap α β) : (m.touch k).at' k' = m.at' k' := by
  by_cases h : k' = k
  · subst h
    rw [touch]
    split
    · rfl
    · rename_i hNone
      rw [Option.not_isSome_iff_eq_none] at hNone
      rw [at', get?_insert_self, at', hNone]
      rfl
  · rw [at', get?_touch_of_ne h, at']

@[simp] theorem at'_insert_self (k : α) (x : β) (m : OrdMap α β) : (m.insert k x).at' k = x := by
  rw [at', get?_insert_self, Option.getD_some]

theorem at'_insert_of_ne {k k' : α} (h : k' ≠ k) (x : β) (m : OrdMap α β) :
    (m.insert k x).at' k' = m.at' k' := by
  rw [at', get?_insert_of_ne h, at']

theorem at'_of_get? {m : OrdMap α β} {k : α} {x : β} (h : m.get? k = some x) : m.at' k = x := by
  rw [at', h, Option.getD_some]

theorem at'_of_none {m : OrdMap α β} {k : α} (h : m.get? k = none) : m.at' k = default := by
  rw [at', h, Option.getD_none]

end Touch

/-! ## The entries of a walk -/

theorem find?_eq_some_iff {l : List (α × β)} (hSorted : l.Pairwise (·.1 < ·.1)) {k : α} {x : β} :
    (l.find? fun e => decide (e.1 = k)).map Prod.snd = some x ↔ (k, x) ∈ l := by
  induction l with
  | nil => simp
  | cons e l ih =>
      obtain ⟨k', x'⟩ := e
      have hTail := List.pairwise_cons.1 hSorted
      by_cases hSame : k' = k
      · subst hSame
        have hNot : (k', x) ∉ l := fun hMem => lt_irrefl k' (hTail.1 _ hMem)
        simp [hNot, eq_comm]
      · rw [List.find?_cons_of_neg (by simpa using hSame), ih hTail.2]
        simp [Ne.symm hSame]

theorem mem_toList {m : OrdMap α β} {k : α} {x : β} : (k, x) ∈ m.toList ↔ m.get? k = some x :=
  (find?_eq_some_iff m.sorted).symm

theorem insertList_of_mem {l : List (α × β)} (hSorted : l.Pairwise (·.1 < ·.1)) {k : α} {x : β}
    (h : (k, x) ∈ l) : insertList k x l = l := by
  induction l with
  | nil => cases h
  | cons e l ih =>
      obtain ⟨k', x'⟩ := e
      have hTail := List.pairwise_cons.1 hSorted
      rw [insertList]
      rcases List.mem_cons.1 h with hHead | hRest
      · cases hHead
        simp
      · have hLt : k' < k := hTail.1 _ hRest
        rw [if_neg hLt.not_gt, if_pos hLt, ih hTail.2 hRest]

/-- An entry that is set to what it is stays. -/
theorem insert_of_get? {m : OrdMap α β} {k : α} {x : β} (h : m.get? k = some x) :
    m.insert k x = m := by
  have hList := insertList_of_mem m.sorted (mem_toList.2 h)
  cases m
  simpa [insert] using hList

theorem nodup_keys (m : OrdMap α β) : (m.toList.map Prod.fst).Nodup :=
  List.pairwise_map.2 (m.sorted.imp fun h => h.ne)

theorem mem_keys {m : OrdMap α β} {k : α} :
    k ∈ m.toList.map Prod.fst ↔ (m.get? k).isSome := by
  rw [List.mem_map, Option.isSome_iff_exists]
  constructor
  · rintro ⟨⟨k', x⟩, hMem, rfl⟩
    exact ⟨x, mem_toList.1 hMem⟩
  · rintro ⟨x, hx⟩
    exact ⟨(k, x), mem_toList.2 hx, rfl⟩

/-- `size`. -/
def size (m : OrdMap α β) : Nat := m.toList.length

/-- No more entries than keys that may be there. -/
theorem size_le_length {m : OrdMap α β} {l : List α} (h : ∀ k, (m.get? k).isSome → k ∈ l) :
    m.size ≤ l.length := by
  have hSubset : m.toList.map Prod.fst ⊆ l := fun k hk => h k (mem_keys.1 hk)
  simpa [size] using (List.subperm_of_subset m.nodup_keys hSubset).length_le

/-- No fewer entries than keys that are there. -/
theorem length_le_size {m : OrdMap α β} {l : List α} (hNodup : l.Nodup)
    (h : ∀ k ∈ l, (m.get? k).isSome) : l.length ≤ m.size := by
  have hSubset : l ⊆ m.toList.map Prod.fst := fun k hk => mem_keys.2 (h k hk)
  simpa [size] using (List.subperm_of_subset hNodup hSubset).length_le

/-! ## Erasing -/

/-- `erase(begin())`. -/
def eraseFirst (m : OrdMap α β) : OrdMap α β := ⟨m.toList.tail, m.sorted.tail⟩

theorem get?_eraseFirst {m : OrdMap α β} {k : α} {x : β} {l : List (α × β)}
    (h : m.toList = (k, x) :: l) (k' : α) :
    m.eraseFirst.get? k' = if k' = k then none else m.get? k' := by
  have hSorted := m.sorted
  rw [h] at hSorted
  have hTail := List.pairwise_cons.1 hSorted
  have hRest : m.eraseFirst.toList = l := congrArg List.tail h
  by_cases hSame : k' = k
  · subst hSame
    rw [if_pos rfl, Option.eq_none_iff_forall_not_mem]
    intro y hy
    have hMem := mem_toList.2 hy
    rw [hRest] at hMem
    exact lt_irrefl k' (hTail.1 _ hMem)
  · rw [if_neg hSame, get?, get?, hRest, h, List.find?_cons_of_neg (by simpa using Ne.symm hSame)]

/-- `erase` of a key. -/
def erase (k : α) (m : OrdMap α β) : OrdMap α β :=
  ⟨m.toList.filter fun e => decide (e.1 ≠ k), m.sorted.filter _⟩

theorem get?_erase (k k' : α) (m : OrdMap α β) :
    (m.erase k).get? k' = if k' = k then none else m.get? k' := by
  apply Option.ext
  intro x
  rw [← mem_toList, erase, List.mem_filter, mem_toList, decide_eq_true_eq]
  by_cases hSame : k' = k
  · simp [hSame]
  · simp [hSame]

/-- `insert` of a pair: an entry that is there stays. -/
def insertNew (k : α) (x : β) (m : OrdMap α β) : OrdMap α β :=
  if (m.get? k).isSome then m else m.insert k x

theorem insertNew_of_none {m : OrdMap α β} {k : α} (h : m.get? k = none) (x : β) :
    m.insertNew k x = m.insert k x := by
  rw [insertNew, h]
  rfl

theorem get?_insertNew_of_some {m : OrdMap α β} {k : α} {y : β} (h : m.get? k = some y) (x : β) :
    (m.insertNew k x).get? k = some y := by
  rw [insertNew, h]
  exact h

/-! ## The relation that a map lists -/

/-- The entries of `m` are the pairs that `R` relates. -/
def Lists (m : OrdMap α β) (R : α → β → Prop) : Prop := ∀ a b, m.get? a = some b ↔ R a b

theorem lists_empty : (∅ : OrdMap α β).Lists fun _ _ => False := fun _ _ => by simp

variable {m : OrdMap α β} {R R' : α → β → Prop} {a : α} {b : β}

/-- A key that is new gets its value. -/
theorem Lists.insertNew (h : m.Lists R) (hNew : ∀ y, ¬ R a y)
    (hR : ∀ x y, R' x y ↔ x = a ∧ y = b ∨ R x y) : (m.insertNew a b).Lists R' := by
  have hNone : m.get? a = none :=
    Option.eq_none_iff_forall_ne_some.2 fun y hy => hNew y ((h a y).1 hy)
  intro x y
  rw [insertNew_of_none hNone, hR]
  by_cases hSame : x = a
  · subst hSame
    simp [hNew, eq_comm]
  · rw [get?_insert_of_ne hSame, h]
    simp [hSame]

theorem Lists.erase (h : m.Lists R) (hR : ∀ x y, R' x y ↔ x ≠ a ∧ R x y) : (m.erase a).Lists R' := by
  intro x y
  rw [get?_erase, hR]
  by_cases hSame : x = a
  · simp [hSame]
  · simp [hSame, h x y]

end OrdMap

end Megatron.Lib
