import Mathlib.Data.List.Forall2
import Mathlib.Data.List.Nodup

/-!
# Containers ordered by a comparator

What `std::set` and `std::map` do with the comparator they are given, and what
`operator<` makes of the comparators of the parts: lexicographic on sequences
and on pairs.  Nothing is assumed of a comparator here; two values neither of
which is less are *equivalent*, and a container keeps one of them.

## Main results

* `lexLt_asymm`, `forall₂_of_not_lexLt` — what sequences inherit.
* `insertBy_perm` — inserting a value that is equivalent to none adds it.
* `foldl_insertBy_of_pairwise` — values inserted in order stay in order.
-/

namespace Megatron.Lib

universe u

variable {α : Type u}

/-- `std::lexicographical_compare`. -/
def lexLt (lt : α → α → Bool) : List α → List α → Bool
  | _, [] => false
  | [], _ :: _ => true
  | a :: l, b :: l' => lt a b || (!lt b a && lexLt lt l l')

/-- `operator<` of `std::pair`. -/
def pairLt {β : Type u} (lt : α → α → Bool) (lt' : β → β → Bool) (x y : α × β) : Bool :=
  lt x.1 y.1 || (!lt y.1 x.1 && lt' x.2 y.2)

/-- `insert` of an ordered container; an equivalent value stays. -/
def insertBy (lt : α → α → Bool) (a : α) : List α → List α
  | [] => [a]
  | b :: l => if lt a b then a :: b :: l else if lt b a then b :: insertBy lt a l else b :: l

/-- At most one of two values is less. -/
def Asymm (lt : α → α → Bool) : Prop := ∀ a b, lt a b = true → lt b a = false

variable {lt : α → α → Bool}

theorem Asymm.irrefl (h : Asymm lt) (a : α) : lt a a = false := by
  by_contra hNot
  rw [Bool.not_eq_false] at hNot
  rw [h a a hNot] at hNot
  exact Bool.false_ne_true hNot

theorem lexLt_asymm (h : Asymm lt) : Asymm (lexLt lt) := by
  intro l
  induction l with
  | nil =>
      intro l' hLt
      cases l' with
      | nil => rfl
      | cons b l' => rfl
  | cons a l ih =>
      intro l' hLt
      cases l' with
      | nil => exact absurd hLt (by simp [lexLt])
      | cons b l' =>
          simp only [lexLt, Bool.or_eq_true, Bool.and_eq_true, Bool.not_eq_true'] at hLt
          simp only [lexLt, Bool.or_eq_false_iff, Bool.and_eq_false_iff, Bool.not_eq_false']
          rcases hLt with hLt | ⟨hLt, hRest⟩
          · exact ⟨h a b hLt, Or.inl hLt⟩
          · exact ⟨hLt, Or.inr (ih l' hRest)⟩

theorem pairLt_asymm {β : Type u} {lt' : β → β → Bool} (h : Asymm lt) (h' : Asymm lt') :
    Asymm (pairLt lt lt') := by
  intro x y hLt
  simp only [pairLt, Bool.or_eq_true, Bool.and_eq_true, Bool.not_eq_true'] at hLt
  simp only [pairLt, Bool.or_eq_false_iff, Bool.and_eq_false_iff, Bool.not_eq_false']
  rcases hLt with hLt | ⟨hLt, hRest⟩
  · exact ⟨h _ _ hLt, Or.inl hLt⟩
  · exact ⟨hLt, Or.inr (h' _ _ hRest)⟩

/-- Equivalent sequences are equivalent place by place. -/
theorem forall₂_of_not_lexLt {l l' : List α} (h : lexLt lt l l' = false)
    (h' : lexLt lt l' l = false) :
    List.Forall₂ (fun a b => lt a b = false ∧ lt b a = false) l l' := by
  induction l generalizing l' with
  | nil =>
      cases l' with
      | nil => exact List.Forall₂.nil
      | cons b l' => exact absurd h (by simp [lexLt])
  | cons a l ih =>
      cases l' with
      | nil => exact absurd h' (by simp [lexLt])
      | cons b l' =>
          simp only [lexLt, Bool.or_eq_false_iff, Bool.and_eq_false_iff,
            Bool.not_eq_false'] at h h'
          refine List.Forall₂.cons ⟨h.1, h'.1⟩ (ih ?_ ?_)
          · exact h.2.resolve_left (by rw [h'.1]; exact Bool.false_ne_true)
          · exact h'.2.resolve_left (by rw [h.1]; exact Bool.false_ne_true)

theorem of_not_pairLt {β : Type u} {lt' : β → β → Bool} {x y : α × β}
    (h : pairLt lt lt' x y = false) (h' : pairLt lt lt' y x = false) :
    (lt x.1 y.1 = false ∧ lt y.1 x.1 = false) ∧ lt' x.2 y.2 = false ∧ lt' y.2 x.2 = false := by
  simp only [pairLt, Bool.or_eq_false_iff, Bool.and_eq_false_iff, Bool.not_eq_false'] at h h'
  refine ⟨⟨h.1, h'.1⟩, ?_, ?_⟩
  · exact h.2.resolve_left (by rw [h'.1]; exact Bool.false_ne_true)
  · exact h'.2.resolve_left (by rw [h.1]; exact Bool.false_ne_true)

/-! ## Insertion -/

/-- A value that is equivalent to no element is added. -/
theorem insertBy_perm {a : α} {l : List α} (h : ∀ b ∈ l, lt a b = true ∨ lt b a = true) :
    (insertBy lt a l).Perm (a :: l) := by
  induction l with
  | nil => exact List.Perm.refl _
  | cons b l ih =>
      rw [insertBy]
      split
      · exact List.Perm.refl _
      · rename_i hNot
        rw [if_pos ((h b List.mem_cons_self).resolve_left hNot)]
        have hTail := ih fun c hc => h c (List.mem_cons_of_mem b hc)
        exact (hTail.cons b).trans (List.Perm.swap a b l)

/-- A value above all others goes to the end. -/
theorem insertBy_of_above {a : α} {l : List α}
    (h : ∀ b ∈ l, lt b a = true ∧ lt a b = false) : insertBy lt a l = l ++ [a] := by
  induction l with
  | nil => rfl
  | cons b l ih =>
      have hb := h b List.mem_cons_self
      rw [insertBy, if_neg (by rw [hb.2]; exact Bool.false_ne_true), if_pos hb.1,
        ih fun c hc => h c (List.mem_cons_of_mem b hc)]
      rfl

/-- Values no two of which are equivalent are all kept. -/
theorem foldl_insertBy_perm (l : List α) :
    ∀ acc : List α, (acc ++ l).Pairwise (fun a b => lt a b = true ∨ lt b a = true) →
      (l.foldl (fun acc a => insertBy lt a acc) acc).Perm (acc ++ l) := by
  induction l with
  | nil => intro acc _; simp
  | cons a l ih =>
      intro acc h
      have hOld : ∀ b ∈ acc, lt a b = true ∨ lt b a = true := fun b hb =>
        ((List.pairwise_append.1 h).2.2 b hb a List.mem_cons_self).symm
      have hPerm : (insertBy lt a acc ++ l).Perm (acc ++ a :: l) :=
        ((insertBy_perm hOld).append_right l).trans
          (List.perm_middle.symm)
      exact (ih _ (hPerm.symm.pairwise h fun h => h.symm)).trans hPerm

/-- Values that come in order are kept in order. -/
theorem foldl_insertBy_of_pairwise (hAsymm : Asymm lt) (l : List α) :
    ∀ acc : List α, (acc ++ l).Pairwise (fun a b => lt a b = true) →
      l.foldl (fun acc a => insertBy lt a acc) acc = acc ++ l := by
  induction l with
  | nil => intro acc _; simp
  | cons a l ih =>
      intro acc h
      have hAbove : ∀ b ∈ acc, lt b a = true ∧ lt a b = false := by
        intro b hb
        have hLt := (List.pairwise_append.1 h).2.2 b hb a List.mem_cons_self
        exact ⟨hLt, hAsymm b a hLt⟩
      rw [List.foldl_cons, insertBy_of_above hAbove, ih _ (by simpa using h), List.append_assoc]
      rfl

end Megatron.Lib
