import Mathlib.Data.List.Induction
import Mathlib.Data.Nat.Notation

/-!
# Trees with links in both directions

Nodes have numbers, the root the number 0.  Each has a link to its parent and,
by their keys, links to its children.  A node is where its keys lead from the
root; where the two kinds of links agree, climbing from a node collects the keys
that lead back to it.

## Main results

* `descend_eq_some_iff` — what the keys lead to.
* `Proper.climb_eq` — climbing collects the keys of the node.
* `Proper.at_unique` — a node is in one place.
* `Proper.addChild`, `at_addChild_iff` — a new node.
-/

namespace Megatron.Lib

universe u

/-- The links, and the key that a node has with its parent. -/
structure LinkedTree (K : Type u) where
  parent : ℕ → Option ℕ
  key : ℕ → K
  child : ℕ → K → Option ℕ

namespace LinkedTree

variable {K : Type u}

/-- The keys lead from the root to the node. -/
inductive At (t : LinkedTree K) : ℕ → List K → Prop
  | root : At t 0 []
  | child {p c : ℕ} {k : K} {ks : List K} (hParent : At t p ks) (hChild : t.child p k = some c) :
      At t c (ks ++ [k])

/-- The links upwards are those downwards, and children come after their
parents. -/
structure Proper (t : LinkedTree K) : Prop where
  root : t.parent 0 = none
  parent : ∀ p k c, t.child p k = some c → t.parent c = some p
  key : ∀ p k c, t.child p k = some c → t.key c = k
  lt : ∀ p k c, t.child p k = some c → p < c

/-- The walk down. -/
def descend (t : LinkedTree K) : ℕ → List K → Option ℕ
  | n, [] => some n
  | n, k :: ks => (t.child n k).bind fun c => t.descend c ks

/-- The walk up, which puts the key of each node in front; `none` if it is not at
the end after so many turns. -/
def climb (t : LinkedTree K) : ℕ → Option ℕ → List K → Option (List K)
  | 0, _, _ => none
  | _ + 1, none, q => some q
  | fuel + 1, some n, q => t.climb fuel (t.parent n) (t.key n :: q)

variable {t : LinkedTree K} {n p c : ℕ} {k : K} {ks : List K}

/-! ## Walking down -/

theorem descend_append (t : LinkedTree K) (ks ks' : List K) :
    ∀ n, t.descend n (ks ++ ks') = (t.descend n ks).bind fun m => t.descend m ks' := by
  induction ks with
  | nil => exact fun n => rfl
  | cons k ks ih =>
      intro n
      rw [List.cons_append, descend, descend, Option.bind_assoc]
      exact congrArg _ (funext ih)

theorem descend_concat (t : LinkedTree K) (n : ℕ) (ks : List K) (k : K) :
    t.descend n (ks ++ [k]) = (t.descend n ks).bind fun m => t.child m k := by
  rw [descend_append]
  exact congrArg _ (funext fun m => Option.bind_fun_some _)

/-- **The walk down** from the root ends at the node that is there. -/
theorem descend_eq_some_iff : t.descend 0 ks = some n ↔ t.At n ks := by
  constructor
  · induction ks using List.reverseRecOn generalizing n with
    | nil =>
        intro h
        obtain rfl : 0 = n := Option.some.inj h
        exact At.root
    | append_singleton ks k ih =>
        intro h
        rw [descend_concat, Option.bind_eq_some_iff] at h
        obtain ⟨p, hParent, hChild⟩ := h
        exact At.child (ih hParent) hChild
  · intro h
    induction h with
    | root => rfl
    | child _ hChild ih => rw [descend_concat, ih, Option.bind_some, hChild]

/-! ## Walking up -/

/-- **The walk up** ends, with the keys that lead to the node. -/
theorem Proper.climb_eq (h : t.Proper) (hAt : t.At n ks) :
    ∀ fuel q, n + 1 < fuel → t.climb fuel (some n) q = some (t.key 0 :: ks ++ q) := by
  induction hAt with
  | root =>
      intro fuel q hFuel
      obtain ⟨fuel, rfl⟩ : ∃ m, fuel = m + 2 := ⟨fuel - 2, by omega⟩
      rw [climb, h.root, climb]
      rfl
  | child _ hChild ih =>
      intro fuel q hFuel
      have hLt := h.lt _ _ _ hChild
      obtain ⟨fuel, rfl⟩ : ∃ m, fuel = m + 1 := ⟨fuel - 1, by omega⟩
      rw [climb, h.parent _ _ _ hChild, h.key _ _ _ hChild, ih fuel _ (by omega)]
      simp

/-- A node is in one place. -/
theorem Proper.at_unique (h : t.Proper) {ks' : List K} (hAt : t.At n ks) (hAt' : t.At n ks') :
    ks = ks' := by
  have hUp := h.climb_eq hAt (n + 2) [] (by omega)
  rw [h.climb_eq hAt' (n + 2) [] (by omega)] at hUp
  simpa using hUp.symm

/-! ## A new node -/

section AddChild

variable [DecidableEq K]

/-- The node `c` becomes the child of `p` under the key `k`. -/
def addChild (t : LinkedTree K) (p : ℕ) (k : K) (c : ℕ) : LinkedTree K where
  parent := Function.update t.parent c (some p)
  key := Function.update t.key c k
  child n k' := if n = p ∧ k' = k then some c else t.child n k'

/-- The node `c` has no links yet, and can come under `p` with the key `k`. -/
structure Fresh (t : LinkedTree K) (p : ℕ) (k : K) (c : ℕ) : Prop where
  free : t.child p k = none
  lt : p < c
  notChild : ∀ p' k', t.child p' k' ≠ some c
  leaf : ∀ k', t.child c k' = none

theorem Proper.addChild (h : t.Proper) (hFresh : t.Fresh p k c) : (t.addChild p k c).Proper := by
  have hOld : ∀ p' k' c', t.child p' k' = some c' → c' ≠ c := by
    rintro p' k' c' hChild rfl
    exact hFresh.notChild p' k' hChild
  have hChild : ∀ p' k' c', (t.addChild p k c).child p' k' = some c' →
      (p' = p ∧ k' = k) ∧ c' = c ∨ t.child p' k' = some c' ∧ c' ≠ c := by
    intro p' k' c' hc'
    rw [LinkedTree.addChild] at hc'
    dsimp only at hc'
    split at hc'
    · rename_i hNew
      exact Or.inl ⟨hNew, (Option.some.inj hc').symm⟩
    · exact Or.inr ⟨hc', hOld p' k' c' hc'⟩
  refine ⟨?_, fun p' k' c' hc' => ?_, fun p' k' c' hc' => ?_, fun p' k' c' hc' => ?_⟩
  · have hNotRoot : 0 ≠ c := Nat.ne_of_lt (Nat.lt_of_le_of_lt (Nat.zero_le p) hFresh.lt)
    exact (Function.update_of_ne hNotRoot _ _).trans h.root
  · rcases hChild p' k' c' hc' with ⟨⟨rfl, rfl⟩, rfl⟩ | ⟨hc', hNe⟩
    · exact Function.update_self _ _ _
    · exact (Function.update_of_ne hNe _ _).trans (h.parent p' k' c' hc')
  · rcases hChild p' k' c' hc' with ⟨⟨rfl, rfl⟩, rfl⟩ | ⟨hc', hNe⟩
    · exact Function.update_self _ _ _
    · exact (Function.update_of_ne hNe _ _).trans (h.key p' k' c' hc')
  · rcases hChild p' k' c' hc' with ⟨⟨rfl, rfl⟩, rfl⟩ | ⟨hc', -⟩
    · exact hFresh.lt
    · exact h.lt p' k' c' hc'

/-- **A new node** is in one place more; the others are where they were. -/
theorem at_addChild_iff (hFresh : t.Fresh p k c) :
    (t.addChild p k c).At n ks ↔ t.At n ks ∨ n = c ∧ ∃ ks₀, t.At p ks₀ ∧ ks = ks₀ ++ [k] := by
  have hKept : ∀ {n ks}, t.At n ks → (t.addChild p k c).At n ks := by
    intro n ks h
    induction h with
    | root => exact At.root
    | @child p' c' k' ks _ hChild ih =>
        refine At.child ih ?_
        have hNot : ¬ (p' = p ∧ k' = k) := by
          rintro ⟨rfl, rfl⟩
          rw [hFresh.free] at hChild
          cases hChild
        exact (if_neg hNot).trans hChild
  constructor
  · intro h
    induction h with
    | root => exact Or.inl At.root
    | @child p' c' k' ks _ hChild ih =>
        rw [LinkedTree.addChild] at hChild
        dsimp only at hChild
        split at hChild
        · rename_i hNew
          obtain ⟨rfl, rfl⟩ := hNew
          rcases ih with hOld | ⟨rfl, -⟩
          · exact Or.inr ⟨(Option.some.inj hChild).symm, ks, hOld, rfl⟩
          · exact absurd hFresh.lt (Nat.lt_irrefl _)
        · rcases ih with hOld | ⟨rfl, -⟩
          · exact Or.inl (At.child hOld hChild)
          · rw [hFresh.leaf] at hChild
            cases hChild
  · rintro (h | ⟨rfl, ks₀, hParent, rfl⟩)
    · exact hKept h
    · exact At.child (hKept hParent) (if_pos ⟨rfl, rfl⟩)

end AddChild

end LinkedTree

end Megatron.Lib
