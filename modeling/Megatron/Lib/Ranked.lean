import Mathlib.Data.List.Perm.Subperm
import Megatron.Lib.OrdMap
import Megatron.Lib.OrdSet

/-!
# Ranking with pruning

Elements are put into a map of sets by their rank, and the first `n + 1` of a
walk over the map are taken.  An element is left out of the map when there are
more than `n` ranks in it and its own is behind all of them: then more than `n`
elements are before it, and it would not be among those taken.

## Main results

* `takeSets_eq` — the two nested loops take the first `n + 1`.
* `ranks_rank` — what is in the map, and what is left out of it.
* `foremost_nearest` — the elements taken are the foremost `n + 1`.
-/

namespace Megatron.Lib.Ranked

universe u v

variable {κ : Type u} {α : Type v} [LinearOrder κ] {n : Nat} {key : α → κ}

/-! ## The loops -/

/-- The inner loop: takes elements until there are more than `n`. -/
def takeSet (n : Nat) (ret : List α) : List α → List α
  | [] => ret
  | x :: xs => if (ret ++ [x]).length > n then ret ++ [x] else takeSet n (ret ++ [x]) xs

/-- The outer loop. -/
def takeSets (n : Nat) (ret : List α) : List (List α) → List α
  | [] => ret
  | z :: zs =>
      let ret := takeSet n ret z
      if ret.length > n then ret else takeSets n ret zs

theorem takeSet_eq {ret : List α} (h : ret.length ≤ n) (xs : List α) :
    takeSet n ret xs = (ret ++ xs).take (n + 1) := by
  induction xs generalizing ret with
  | nil =>
      rw [takeSet, List.append_nil, List.take_of_length_le (by omega)]
  | cons x xs ih =>
      have hLength : (ret ++ [x]).length = ret.length + 1 := by simp
      have hAssoc : ret ++ x :: xs = (ret ++ [x]) ++ xs := by simp
      rw [takeSet, hAssoc]
      split
      · rw [List.take_append_of_le_length (by omega), List.take_of_length_le (by omega)]
      · rw [ih (by omega)]

theorem takeSets_eq {ret : List α} (h : ret.length ≤ n) (zs : List (List α)) :
    takeSets n ret zs = (ret ++ zs.flatten).take (n + 1) := by
  induction zs generalizing ret with
  | nil =>
      rw [takeSets, List.flatten_nil, List.append_nil, List.take_of_length_le (by omega)]
  | cons z zs ih =>
      rw [takeSets, takeSet_eq h, List.flatten_cons, ← List.append_assoc]
      by_cases hFull : n + 1 ≤ (ret ++ z).length
      · have hTaken : ((ret ++ z).take (n + 1)).length = n + 1 := List.length_take_of_le hFull
        rw [if_pos (by omega), List.take_append_of_le_length hFull]
      · have hTaken : (ret ++ z).take (n + 1) = ret ++ z := List.take_of_length_le (by omega)
        rw [hTaken, if_neg (by omega), ih (by omega)]

/-! ## The foremost elements -/

/-- `r` is the foremost `n` elements of `l`: none that is left out is before one of them. -/
structure Foremost (n : Nat) (key : α → κ) (l r : List α) : Prop where
  nodup : r.Nodup
  subset : r ⊆ l
  length : r.length = min l.length n
  sorted : r.Pairwise (key · ≤ key ·)
  left : ∀ x ∈ l, x ∉ r → ∀ y ∈ r, key y ≤ key x

/-- More ranks before `c` than are taken: all that is taken is before `c`. -/
theorem lt_of_mem_take {l : List α} (hSorted : l.Pairwise (key · ≤ key ·)) {c : κ} {m : Nat}
    (h : m ≤ (l.filter fun x => decide (key x < c)).length) :
    ∀ x ∈ l.take m, key x < c := by
  induction l generalizing m with
  | nil => simp
  | cons y l ih =>
      have hTail := List.pairwise_cons.1 hSorted
      cases m with
      | zero => simp
      | succ m =>
          by_cases hy : key y < c
          · have hRest : m ≤ (l.filter fun x => decide (key x < c)).length := by
              rw [List.filter_cons_of_pos (by simpa using hy), List.length_cons] at h
              omega
            intro x hx
            rw [List.take_succ_cons, List.mem_cons] at hx
            rcases hx with rfl | hx
            · exact hy
            · exact ih hTail.2 hRest x hx
          · -- `y` is not before `c`, and all others are behind `y`
            have hNone : (y :: l).filter (fun x => decide (key x < c)) = [] := by
              rw [List.filter_eq_nil_iff]
              intro x hx
              rw [decide_eq_true_eq, not_lt]
              rcases List.mem_cons.1 hx with rfl | hx
              · exact not_lt.1 hy
              · exact (not_lt.1 hy).trans (hTail.1 x hx)
            rw [hNone, List.length_nil] at h
            omega

/-- Each of several ranks has an element of its own. -/
theorem length_le_filter {l : List α} {ks : List κ} (hNodup : ks.Nodup) {c : κ}
    (h : ∀ k ∈ ks, k < c ∧ ∃ x ∈ l, key x = k) :
    ks.length ≤ (l.filter fun x => decide (key x < c)).length := by
  have hSubset : ks ⊆ (l.filter fun x => decide (key x < c)).map key := by
    intro k hk
    obtain ⟨hLt, x, hx, rfl⟩ := h k hk
    exact List.mem_map_of_mem (List.mem_filter.2 ⟨hx, by simpa using hLt⟩)
  simpa using (List.subperm_of_subset hNodup hSubset).length_le

/-! ## The map -/

variable [LinearOrder α]

/-- Puts one element into the map, unless it is behind more than `n` ranks. -/
def put (n : Nat) (key : α → κ) (m : OrdMap κ (OrdSet α)) (z : α) : OrdMap κ (OrdSet α) :=
  if m.size > n ∧ m.toList.getLast?.any (fun e => decide (e.1 < key z)) then m
  else m.insert (key z) ((m.at' (key z)).insert z)

/-- The map of the elements of a list. -/
def rank (n : Nat) (key : α → κ) (l : List α) : OrdMap κ (OrdSet α) := l.foldl (put n key) ∅

/-- A walk over the map. -/
def walk (m : OrdMap κ (OrdSet α)) : List (List α) := m.toList.map fun e => e.2.toList

/-- The elements taken. -/
def nearest (n : Nat) (key : α → κ) (l : List α) : List α :=
  takeSets n [] (walk (rank n key l))

/-- More than `n` ranks of the map are before `c`. -/
def Behind (n : Nat) (m : OrdMap κ (OrdSet α)) (c : κ) : Prop :=
  ∃ ks : List κ, ks.Nodup ∧ ks.length = n + 1 ∧ ∀ k ∈ ks, k < c ∧ (m.get? k).isSome

/-- What holds of the map after the elements of `l`. -/
structure Ranks (n : Nat) (key : α → κ) (l : List α) (m : OrdMap κ (OrdSet α)) : Prop where
  nonempty : ∀ k s, m.get? k = some s → ∃ x, x ∈ s
  mem : ∀ k s, m.get? k = some s → ∀ x ∈ s, x ∈ l ∧ key x = k
  left : ∀ x ∈ l, (∃ s, m.get? (key x) = some s ∧ x ∈ s) ∨ Behind n m (key x)

/-- The test of `put` says what it is for. -/
theorem behind_of_getLast? {m : OrdMap κ (OrdSet α)} {c : κ} (hSize : m.size > n)
    (hLast : m.toList.getLast?.any (fun e => decide (e.1 < c))) : Behind n m c := by
  obtain ⟨last, hSome, hLt⟩ := (Option.any_eq_true _ _).1 hLast
  rw [decide_eq_true_eq] at hLt
  obtain ⟨front, hFront⟩ : ∃ front, m.toList = front ++ [last] := List.getLast?_eq_some_iff.1 hSome
  have hAll : ∀ e ∈ m.toList, e.1 < c := by
    intro e he
    have hSorted := m.sorted
    rw [hFront] at he hSorted
    rcases List.mem_append.1 he with he | he
    · exact ((List.pairwise_append.1 hSorted).2.2 e he last List.mem_cons_self).trans hLt
    · rw [List.mem_singleton.1 he]
      exact hLt
  have hLength : n + 1 ≤ (m.toList.map Prod.fst).length := by
    rw [List.length_map]
    exact hSize
  refine ⟨(m.toList.map Prod.fst).take (n + 1), m.nodup_keys.sublist (List.take_sublist _ _),
    List.length_take_of_le hLength, ?_⟩
  intro k hk
  have hKey := List.mem_of_mem_take hk
  obtain ⟨e, he, rfl⟩ := List.mem_map.1 hKey
  exact ⟨hAll e he, OrdMap.mem_keys.1 hKey⟩

theorem Ranks.put {l : List α} {m : OrdMap κ (OrdSet α)} (h : Ranks n key l m) (z : α) :
    Ranks n key (l ++ [z]) (put n key m z) := by
  rw [Ranked.put]
  split
  · rename_i hTest
    constructor
    · exact h.nonempty
    · intro k s hs x hx
      exact ⟨List.mem_append_left _ (h.mem k s hs x hx).1, (h.mem k s hs x hx).2⟩
    · intro x hx
      rcases List.mem_append.1 hx with hx | hx
      · exact h.left x hx
      · rw [List.mem_singleton.1 hx]
        exact Or.inr (behind_of_getLast? hTest.1 hTest.2)
  · set m' := m.insert (key z) ((m.at' (key z)).insert z) with hm'
    have hMem : ∀ {k : κ} {x : α}, x ∈ m'.at' k ↔ k = key z ∧ x = z ∨ x ∈ m.at' k :=
      OrdSet.mem_at'_insert_insert
    have hSome : ∀ k, (m.get? k).isSome → (m'.get? k).isSome := by
      intro k hk
      by_cases hKey : k = key z
      · rw [hm', hKey, OrdMap.get?_insert_self]
        rfl
      · rwa [hm', OrdMap.get?_insert_of_ne hKey]
    constructor
    · intro k s hs
      by_cases hKey : k = key z
      · rw [hm', hKey, OrdMap.get?_insert_self, Option.some.injEq] at hs
        exact ⟨z, hs ▸ OrdSet.mem_insert.2 (Or.inl rfl)⟩
      · rw [hm', OrdMap.get?_insert_of_ne hKey] at hs
        exact h.nonempty k s hs
    · intro k s hs x hx
      rcases hMem.1 (OrdSet.mem_at'.2 ⟨s, hs, hx⟩) with ⟨hKey, rfl⟩ | hOld
      · exact ⟨List.mem_append_right _ List.mem_cons_self, hKey.symm⟩
      · obtain ⟨t, ht, hx⟩ := OrdSet.mem_at'.1 hOld
        exact ⟨List.mem_append_left _ (h.mem k t ht x hx).1, (h.mem k t ht x hx).2⟩
    · intro x hx
      rcases List.mem_append.1 hx with hx | hx
      · rcases h.left x hx with hThere | ⟨ks, hNodup, hLength, hKeys⟩
        · exact Or.inl (OrdSet.mem_at'.1 (hMem.2 (Or.inr (OrdSet.mem_at'.2 hThere))))
        · exact Or.inr ⟨ks, hNodup, hLength, fun k hk => ⟨(hKeys k hk).1, hSome k (hKeys k hk).2⟩⟩
      · rw [List.mem_singleton.1 hx]
        exact Or.inl (OrdSet.mem_at'.1 (hMem.2 (Or.inl ⟨rfl, rfl⟩)))

theorem ranks_foldl {l l' : List α} {m : OrdMap κ (OrdSet α)} (h : Ranks n key l m) :
    Ranks n key (l ++ l') (l'.foldl (Ranked.put n key) m) := by
  induction l' generalizing l m with
  | nil => simpa using h
  | cons z l' ih => simpa using ih (h.put z)

theorem ranks_rank (l : List α) : Ranks n key l (rank n key l) := by
  have hEmpty : Ranks n key [] (∅ : OrdMap κ (OrdSet α)) := by
    constructor <;> simp
  exact ranks_foldl hEmpty

/-! ## The walk -/

variable {l : List α} {m : OrdMap κ (OrdSet α)}

theorem mem_walk {x : α} : x ∈ (walk m).flatten ↔ ∃ k s, m.get? k = some s ∧ x ∈ s := by
  rw [List.mem_flatten, walk]
  constructor
  · rintro ⟨_, hSet, hx⟩
    obtain ⟨⟨k, s⟩, hMem, rfl⟩ := List.mem_map.1 hSet
    exact ⟨k, s, OrdMap.mem_toList.1 hMem, hx⟩
  · rintro ⟨k, s, hGet, hx⟩
    exact ⟨s.toList, List.mem_map_of_mem (f := fun e => e.2.toList) (OrdMap.mem_toList.2 hGet), hx⟩

/-- The walk meets the ranks in order, and the elements of one rank in order. -/
theorem Ranks.pairwise_walk (h : Ranks n key l m) :
    (walk m).flatten.Pairwise fun x y => key x ≤ key y ∧ x ≠ y := by
  rw [List.pairwise_flatten]
  constructor
  · intro xs hxs
    obtain ⟨⟨k, s⟩, hMem, rfl⟩ := List.mem_map.1 hxs
    have hKey := h.mem k s (OrdMap.mem_toList.1 hMem)
    refine s.sorted.imp_of_mem ?_
    intro x y hx hy hLt
    exact ⟨((hKey x hx).2.trans (hKey y hy).2.symm).le, hLt.ne⟩
  · rw [walk, List.pairwise_map]
    refine m.sorted.imp_of_mem ?_
    rintro ⟨k, s⟩ ⟨k', s'⟩ hMem hMem' hLt x hx y hy
    have hx := (h.mem k s (OrdMap.mem_toList.1 hMem) x hx).2
    have hy := (h.mem k' s' (OrdMap.mem_toList.1 hMem') y hy).2
    have hKeys : key x < key y := by
      rw [hx, hy]
      exact hLt
    exact ⟨hKeys.le, fun hEq => hKeys.ne (congrArg key hEq)⟩

theorem Ranks.length_le_filter (h : Ranks n key l m) {c : κ} (hBehind : Behind n m c) :
    n + 1 ≤ ((walk m).flatten.filter fun x => decide (key x < c)).length := by
  obtain ⟨ks, hNodup, hLength, hKeys⟩ := hBehind
  rw [← hLength]
  refine Ranked.length_le_filter hNodup fun k hk => ⟨(hKeys k hk).1, ?_⟩
  obtain ⟨s, hs⟩ := Option.isSome_iff_exists.1 (hKeys k hk).2
  obtain ⟨x, hx⟩ := h.nonempty k s hs
  exact ⟨x, mem_walk.2 ⟨k, s, hs, hx⟩, (h.mem k s hs x hx).2⟩

/-- An element is met by the walk, or more than `n` that are met are before it. -/
theorem Ranks.met (h : Ranks n key l m) {x : α} (hx : x ∈ l) :
    x ∈ (walk m).flatten ∨
      n + 1 ≤ ((walk m).flatten.filter fun y => decide (key y < key x)).length := by
  rcases h.left x hx with ⟨s, hs, hMem⟩ | hBehind
  · exact Or.inl (mem_walk.2 ⟨key x, s, hs, hMem⟩)
  · exact Or.inr (h.length_le_filter hBehind)

/-- **The foremost.** Leaving elements out of the map changes nothing. -/
theorem foremost_nearest (key : α → κ) (hNodup : l.Nodup) :
    Foremost (n + 1) key l (nearest n key l) := by
  have hRanks : Ranks n key l (rank n key l) := ranks_rank l
  rw [nearest, takeSets_eq (Nat.zero_le n), List.nil_append]
  set flat := (walk (rank n key l)).flatten with hFlat
  have hWalk : flat.Pairwise fun x y => key x ≤ key y ∧ x ≠ y := hRanks.pairwise_walk
  have hSorted : flat.Pairwise (key · ≤ key ·) := hWalk.imp fun h => h.1
  have hFlatNodup : flat.Nodup := hWalk.imp fun h => h.2
  have hSubset : flat ⊆ l := by
    intro x hx
    obtain ⟨k, s, hs, hMem⟩ := mem_walk.1 hx
    exact (hRanks.mem k s hs x hMem).1
  constructor
  · exact hFlatNodup.sublist (List.take_sublist _ _)
  · exact fun x hx => hSubset (List.mem_of_mem_take hx)
  · have hLe : flat.length ≤ l.length := (List.subperm_of_subset hFlatNodup hSubset).length_le
    rw [List.length_take]
    -- all of `l` is in the walk, or the walk is long enough
    by_cases hAll : l ⊆ flat
    · have hGe := (List.subperm_of_subset hNodup hAll).length_le
      omega
    · obtain ⟨x, hx, hLeft⟩ : ∃ x ∈ l, x ∉ flat := by
        simpa [List.subset_def] using hAll
      have hMany := (hRanks.met hx).resolve_left hLeft
      rw [← hFlat] at hMany
      have hFilter := List.length_filter_le (fun y => decide (key y < key x)) flat
      omega
  · exact hSorted.sublist (List.take_sublist _ _)
  · intro x hx hLeft y hy
    rcases hRanks.met hx with hMet | hMany
    · rw [← hFlat, ← List.take_append_drop (n + 1) flat] at hMet
      have hDrop := (List.mem_append.1 hMet).resolve_left hLeft
      rw [← List.take_append_drop (n + 1) flat, List.pairwise_append] at hSorted
      exact hSorted.2.2 y hy x hDrop
    · exact (lt_of_mem_take hSorted hMany y hy).le

end Megatron.Lib.Ranked
