import Mathlib.Data.List.Pairwise
import Mathlib.Data.Set.Basic
import Mathlib.Order.Lattice

/-!
# Comparators that can throw

What an `operator<` has to do for a `std::set` or `std::map` to keep what is
put into it, where the comparator can throw and not all values can be compared:
`TotalOn S` is asked for the values of a set `S` only.

## Main results

* `TotalOn.of_key` — comparing by an injective key is enough.
* `TotalOn.insertM_cases` — what insertion adds.
* `TotalOn.keeps` — nothing that is inserted is lost, merged or doubled.
* `keepsClasses_of_key` — the same where equal values can differ.
* `ThrowingKey.insertM_cases`, `ThrowingKey.eraseM_cases` — what is inserted and erased
  where the comparator throws on some pairs.
-/

namespace Megatron.Lib

universe u v w

variable {α : Type u} {β : Type v} {ε : Type w}

/-- `insert` of an ordered container; an equivalent value stays. -/
def insertM (lt : α → α → Except ε Bool) (a : α) : List α → Except ε (List α)
  | [] => .ok [a]
  | b :: l =>
      match lt a b with
      | .error e => .error e
      | .ok true => .ok (a :: b :: l)
      | .ok false =>
          match lt b a with
          | .error e => .error e
          | .ok true => (insertM lt a l).map (b :: ·)
          | .ok false => .ok (b :: l)

/-- On the values of `S`, `lt` and `eq` never throw, `lt` is a strict total
order, and two values neither of which is less are those that `eq` finds equal,
which are equal. -/
structure TotalOn (S : Set α) (lt eq : α → α → Except ε Bool) : Prop where
  lt_decides : ∀ a ∈ S, ∀ b ∈ S, ∃ v, lt a b = .ok v
  eq_decides : ∀ a ∈ S, ∀ b ∈ S, ∃ v, eq a b = .ok v
  irrefl : ∀ a ∈ S, lt a a = .ok false
  trans : ∀ a ∈ S, ∀ b ∈ S, ∀ c ∈ S, lt a b = .ok true → lt b c = .ok true → lt a c = .ok true
  eq_iff : ∀ a ∈ S, ∀ b ∈ S, lt a b = .ok false ∧ lt b a = .ok false ↔ eq a b = .ok true
  eq_same : ∀ a ∈ S, ∀ b ∈ S, eq a b = .ok true → a = b

/-- Values of `S` that are inserted one after the other are all in the
container afterwards, each of them once, and nothing else is. -/
def Keeps (S : Set α) (lt : α → α → Except ε Bool) : Prop :=
  ∀ l : List α, (∀ a ∈ l, a ∈ S) →
    ∃ l', l.foldlM (fun acc a => insertM lt a acc) [] = .ok l' ∧ l'.Nodup ∧ ∀ a, a ∈ l' ↔ a ∈ l

variable {S : Set α} {lt eq : α → α → Except ε Bool}

/-- **Comparing by a key.** -/
theorem TotalOn.of_key [LinearOrder β] {f : α → β} (hInj : Function.Injective f)
    (hLt : ∀ a ∈ S, ∀ b ∈ S, lt a b = .ok (decide (f a < f b)))
    (hEq : ∀ a ∈ S, ∀ b ∈ S, ∃ v, eq a b = .ok v)
    (hSame : ∀ a ∈ S, ∀ b ∈ S, eq a b = .ok true ↔ a = b) : TotalOn S lt eq where
  lt_decides a ha b hb := ⟨_, hLt a ha b hb⟩
  eq_decides := hEq
  irrefl a ha := by rw [hLt a ha a ha, decide_eq_false (lt_irrefl _)]
  trans a ha b hb c hc := by
    rw [hLt a ha b hb, hLt b hb c hc, hLt a ha c hc]
    simp only [Except.ok.injEq, decide_eq_true_eq]
    exact lt_trans
  eq_iff a ha b hb := by
    rw [hLt a ha b hb, hLt b hb a ha, hSame a ha b hb]
    simp only [Except.ok.injEq, decide_eq_false_iff_not, not_lt]
    constructor
    · rintro ⟨hGe, hLe⟩
      exact hInj (le_antisymm hLe hGe)
    · rintro rfl
      exact ⟨le_refl _, le_refl _⟩
  eq_same a ha b hb := (hSame a ha b hb).1

/-- **Insertion** into an ascending list adds the value, unless it is there. -/
theorem TotalOn.insertM_cases (h : TotalOn S lt eq) {a : α} (ha : a ∈ S) {l : List α}
    (hl : ∀ b ∈ l, b ∈ S) (hSorted : l.Pairwise fun x y => lt x y = .ok true) :
    ∃ l', insertM lt a l = .ok l' ∧ (∀ x, x ∈ l' ↔ x = a ∨ x ∈ l) ∧
      l'.Pairwise fun x y => lt x y = .ok true := by
  induction l with
  | nil => exact ⟨[a], rfl, fun x => by simp, List.pairwise_singleton _ _⟩
  | cons b l ih =>
      have hb : b ∈ S := hl b List.mem_cons_self
      have hTail := List.pairwise_cons.1 hSorted
      obtain ⟨v, hv⟩ := h.lt_decides a ha b hb
      obtain ⟨v', hv'⟩ := h.lt_decides b hb a ha
      rw [insertM, hv]
      cases v with
      | true =>
          refine ⟨_, rfl, fun x => List.mem_cons, List.pairwise_cons.2 ⟨fun x hx => ?_, hSorted⟩⟩
          rcases List.mem_cons.1 hx with rfl | hx
          · exact hv
          · exact h.trans a ha b hb x (hl x (List.mem_cons_of_mem b hx)) hv (hTail.1 x hx)
      | false =>
          simp only [hv']
          cases v' with
          | true =>
              obtain ⟨l', hInsert, hMem, hSorted'⟩ :=
                ih (fun x hx => hl x (List.mem_cons_of_mem b hx)) hTail.2
              refine ⟨b :: l', by rw [hInsert]; rfl, fun x => ?_, List.pairwise_cons.2 ⟨?_, hSorted'⟩⟩
              · rw [List.mem_cons, hMem, List.mem_cons]
                exact or_left_comm
              · intro x hx
                rcases (hMem x).1 hx with rfl | hx
                · exact hv'
                · exact hTail.1 x hx
          | false =>
              have hSame : a = b := h.eq_same a ha b hb ((h.eq_iff a ha b hb).1 ⟨hv, hv'⟩)
              refine ⟨_, rfl, fun x => ?_, hSorted⟩
              rw [List.mem_cons, hSame]
              exact ⟨Or.inr, fun hx => hx.elim Or.inl id⟩

/-- `erase` of an ordered container. -/
def eraseM (lt : α → α → Except ε Bool) (a : α) : List α → Except ε (List α)
  | [] => .ok []
  | b :: l =>
      match lt b a with
      | .error e => .error e
      | .ok true => (eraseM lt a l).map (b :: ·)
      | .ok false =>
          match lt a b with
          | .error e => .error e
          | .ok true => .ok (b :: l)
          | .ok false => .ok l

/-- A value above all others goes to the end. -/
theorem insertM_of_above {a : α} {l : List α}
    (h : ∀ b ∈ l, lt a b = .ok false ∧ lt b a = .ok true) : insertM lt a l = .ok (l ++ [a]) := by
  induction l with
  | nil => rfl
  | cons b l ih =>
      obtain ⟨hNot, hLt⟩ := h b List.mem_cons_self
      rw [insertM, hNot]
      simp only [hLt, ih fun c hc => h c (List.mem_cons_of_mem b hc)]
      rfl

/-- **Nothing is lost, merged or doubled.** -/
theorem TotalOn.keeps (h : TotalOn S lt eq) : Keeps S lt := by
  have hFold : ∀ (l acc : List α), (∀ a ∈ l, a ∈ S) → (∀ a ∈ acc, a ∈ S) →
      acc.Pairwise (fun x y => lt x y = .ok true) →
      ∃ l', l.foldlM (fun acc a => insertM lt a acc) acc = .ok l' ∧
        l'.Pairwise (fun x y => lt x y = .ok true) ∧ (∀ a ∈ l', a ∈ S) ∧
        ∀ x, x ∈ l' ↔ x ∈ acc ∨ x ∈ l := by
    intro l
    induction l with
    | nil => exact fun acc _ hAcc hSorted => ⟨acc, rfl, hSorted, hAcc, fun x => by simp⟩
    | cons a l ih =>
        intro acc hl hAcc hSorted
        have ha : a ∈ S := hl a List.mem_cons_self
        obtain ⟨acc', hInsert, hMem, hSorted'⟩ := h.insertM_cases ha hAcc hSorted
        have hAcc' : ∀ x ∈ acc', x ∈ S := by
          intro x hx
          rcases (hMem x).1 hx with rfl | hx
          · exact ha
          · exact hAcc x hx
        obtain ⟨l', hRest, hSorted'', hAll, hMem'⟩ :=
          ih acc' (fun x hx => hl x (List.mem_cons_of_mem a hx)) hAcc' hSorted'
        refine ⟨l', ?_, hSorted'', hAll, fun x => ?_⟩
        · rw [List.foldlM_cons, hInsert]
          exact hRest
        · rw [hMem', hMem, List.mem_cons, or_assoc]
          exact or_left_comm
  intro l hl
  obtain ⟨l', hRun, hSorted, hAll, hMem⟩ := hFold l [] hl (by simp) List.Pairwise.nil
  refine ⟨l', hRun, ?_, fun a => by rw [hMem]; simp⟩
  refine (List.Pairwise.and_mem.1 hSorted).imp ?_
  rintro x y ⟨hx, -, hLt⟩ rfl
  rw [h.irrefl x (hAll x hx)] at hLt
  cases hLt

/-! ## Equal values that differ -/

/-- Values of `S` that are inserted one after the other: the container ascends,
holds nothing else, and holds exactly one equal to each of them. -/
def KeepsClasses (S : Set α) (lt eq : α → α → Except ε Bool) : Prop :=
  ∀ l : List α, (∀ a ∈ l, a ∈ S) →
    ∃ l', l.foldlM (fun acc a => insertM lt a acc) [] = .ok l' ∧ l' ⊆ l ∧
      l'.Pairwise (fun a b => lt a b = .ok true) ∧
      ∀ a ∈ l, ∃ x, (x ∈ l' ∧ eq x a = .ok true) ∧ ∀ y ∈ l', eq y a = .ok true → y = x

/-- On the values of `S`, `lt` and `eq` never throw, and `lt` is a strict total
order of what `eq` tells apart. -/
structure TotalUpTo (S : Set α) (lt eq : α → α → Except ε Bool) : Prop where
  lt_decides : ∀ a ∈ S, ∀ b ∈ S, ∃ v, lt a b = .ok v
  eq_decides : ∀ a ∈ S, ∀ b ∈ S, ∃ v, eq a b = .ok v
  irrefl : ∀ a ∈ S, lt a a = .ok false
  trans : ∀ a ∈ S, ∀ b ∈ S, ∀ c ∈ S, lt a b = .ok true → lt b c = .ok true → lt a c = .ok true
  total : ∀ a ∈ S, ∀ b ∈ S, lt a b = .ok true ∨ eq a b = .ok true ∨ lt b a = .ok true
  eq_iff : ∀ a ∈ S, ∀ b ∈ S, lt a b = .ok false ∧ lt b a = .ok false ↔ eq a b = .ok true
  congr : ∀ a ∈ S, ∀ b ∈ S, eq a b = .ok true → ∀ c ∈ S, lt a c = lt b c ∧ lt c a = lt c b

section ByKey

variable [LinearOrder β] {f : α → β}

theorem TotalUpTo.of_key (hLt : ∀ a ∈ S, ∀ b ∈ S, lt a b = .ok (decide (f a < f b)))
    (hEq : ∀ a ∈ S, ∀ b ∈ S, eq a b = .ok (decide (f a = f b))) : TotalUpTo S lt eq where
  lt_decides a ha b hb := ⟨_, hLt a ha b hb⟩
  eq_decides a ha b hb := ⟨_, hEq a ha b hb⟩
  irrefl a ha := by rw [hLt a ha a ha, decide_eq_false (lt_irrefl _)]
  trans a ha b hb c hc := by
    rw [hLt a ha b hb, hLt b hb c hc, hLt a ha c hc]
    simp only [Except.ok.injEq, decide_eq_true_eq]
    exact lt_trans
  total a ha b hb := by
    rw [hLt a ha b hb, hLt b hb a ha, hEq a ha b hb]
    simp only [Except.ok.injEq, decide_eq_true_eq]
    exact lt_trichotomy _ _
  eq_iff a ha b hb := by
    rw [hLt a ha b hb, hLt b hb a ha, hEq a ha b hb]
    simp only [Except.ok.injEq, decide_eq_false_iff_not, decide_eq_true_eq, not_lt]
    exact ⟨fun h => le_antisymm h.2 h.1, fun h => ⟨h.ge, h.le⟩⟩
  congr a ha b hb hSame c hc := by
    rw [hEq a ha b hb, Except.ok.injEq, decide_eq_true_eq] at hSame
    rw [hLt a ha c hc, hLt b hb c hc, hLt c hc a ha, hLt c hc b hb, hSame]
    exact ⟨rfl, rfl⟩

/-- **Insertion by a key** adds the value, unless its key is there. -/
theorem insertM_by_key {a : α} {l : List α}
    (hLt : ∀ b ∈ l, lt a b = .ok (decide (f a < f b)) ∧ lt b a = .ok (decide (f b < f a)))
    (hSorted : l.Pairwise fun x y => f x < f y) :
    ∃ l', insertM lt a l = .ok l' ∧ l ⊆ l' ∧ l' ⊆ a :: l ∧ (∃ x ∈ l', f x = f a) ∧
      l'.Pairwise fun x y => f x < f y := by
  induction l with
  | nil =>
      exact ⟨[a], rfl, List.nil_subset _, List.Subset.refl _, ⟨a, List.mem_singleton_self a, rfl⟩,
        List.pairwise_singleton _ _⟩
  | cons b l ih =>
      obtain ⟨⟨hab, hba⟩, hRest⟩ := List.forall_mem_cons.1 hLt
      have hTail := List.pairwise_cons.1 hSorted
      rw [insertM, hab, hba]
      rcases lt_trichotomy (f a) (f b) with hLess | hSame | hMore
      · simp only [hLess, decide_true]
        refine ⟨_, rfl, List.subset_cons_self _ _, List.Subset.refl _, ⟨a, List.mem_cons_self, rfl⟩,
          List.pairwise_cons.2 ⟨fun x hx => ?_, hSorted⟩⟩
        rcases List.mem_cons.1 hx with rfl | hx
        · exact hLess
        · exact hLess.trans (hTail.1 x hx)
      · have hKey : ∃ x ∈ b :: l, f x = f a := ⟨b, List.mem_cons_self, hSame.symm⟩
        simp only [hSame, lt_irrefl, decide_false]
        exact ⟨_, rfl, List.Subset.refl _, List.subset_cons_self _ _, hSame ▸ hKey, hSorted⟩
      · obtain ⟨l', hInsert, hKept, hNew, ⟨x, hx, hKey⟩, hSorted'⟩ := ih hRest hTail.2
        simp only [hMore, not_lt_of_gt hMore, decide_true, decide_false, hInsert]
        refine ⟨b :: l', rfl, List.cons_subset_cons b hKept, fun y hy => ?_,
          ⟨x, List.mem_cons_of_mem b hx, hKey⟩, List.pairwise_cons.2 ⟨fun y hy => ?_, hSorted'⟩⟩
        · rcases List.mem_cons.1 hy with rfl | hy
          · exact List.mem_cons_of_mem a List.mem_cons_self
          · rcases List.mem_cons.1 (hNew hy) with rfl | hy
            · exact List.mem_cons_self
            · exact List.mem_cons_of_mem a (List.mem_cons_of_mem b hy)
        · rcases List.mem_cons.1 (hNew hy) with rfl | hy
          · exact hMore
          · exact hTail.1 y hy

/-- **Erasing by a key** takes the value of that key away, and nothing else. -/
theorem eraseM_by_key {a : α} {l : List α}
    (hLt : ∀ b ∈ l, lt a b = .ok (decide (f a < f b)) ∧ lt b a = .ok (decide (f b < f a)))
    (hSorted : l.Pairwise fun x y => f x < f y) :
    ∃ l', eraseM lt a l = .ok l' ∧ (∀ x, x ∈ l' ↔ f x ≠ f a ∧ x ∈ l) ∧ l'.Sublist l := by
  induction l with
  | nil => exact ⟨[], rfl, fun x => by simp, List.Sublist.refl _⟩
  | cons b l ih =>
      obtain ⟨⟨hab, hba⟩, hRest⟩ := List.forall_mem_cons.1 hLt
      have hTail := List.pairwise_cons.1 hSorted
      rw [eraseM, hba, hab]
      rcases lt_trichotomy (f b) (f a) with hLess | hSame | hMore
      · obtain ⟨l', hErase, hMem, hSub⟩ := ih hRest hTail.2
        simp only [hLess, decide_true, hErase]
        refine ⟨b :: l', rfl, fun x => ?_, hSub.cons_cons b⟩
        rw [List.mem_cons, hMem, List.mem_cons]
        refine ⟨?_, fun hx => hx.2.imp_right fun h => ⟨hx.1, h⟩⟩
        rintro (rfl | hx)
        · exact ⟨hLess.ne, Or.inl rfl⟩
        · exact ⟨hx.1, Or.inr hx.2⟩
      · simp only [hSame, lt_irrefl, decide_false]
        refine ⟨l, rfl, fun x => ⟨fun hx => ⟨?_, List.mem_cons_of_mem b hx⟩, fun hx => ?_⟩,
          List.sublist_cons_self b l⟩
        · rw [← hSame]
          exact (hTail.1 x hx).ne'
        · refine (List.mem_cons.1 hx.2).resolve_left ?_
          rintro rfl
          exact hx.1 hSame
      · simp only [hMore, not_lt_of_gt hMore, decide_true, decide_false]
        refine ⟨_, rfl, fun x => ⟨fun hx => ⟨?_, hx⟩, And.right⟩, List.Sublist.refl _⟩
        rcases List.mem_cons.1 hx with rfl | hx
        · exact hMore.ne'
        · exact (hMore.trans (hTail.1 x hx)).ne'

/-- The values of one key are one value in an ascending list. -/
theorem eq_of_ascending {l : List α} (h : l.Pairwise fun x y => f x < f y) :
    ∀ x ∈ l, ∀ y ∈ l, f x = f y → x = y := by
  induction l with
  | nil => simp
  | cons b l ih =>
      obtain ⟨hFirst, hTail⟩ := List.pairwise_cons.1 h
      intro x hx y hy hKey
      rcases List.mem_cons.1 hx with rfl | hx'
      · rcases List.mem_cons.1 hy with rfl | hy'
        · rfl
        · exact absurd hKey (hFirst y hy').ne
      · rcases List.mem_cons.1 hy with rfl | hy'
        · exact absurd hKey.symm (hFirst x hx').ne
        · exact ih hTail x hx' y hy' hKey

/-- A run of insertions by a key. -/
theorem foldlM_insertM_by_key (hLt : ∀ a ∈ S, ∀ b ∈ S, lt a b = .ok (decide (f a < f b)))
    (l : List α) :
    ∀ acc : List α, (∀ a ∈ l, a ∈ S) → (∀ a ∈ acc, a ∈ S) →
      acc.Pairwise (fun x y => f x < f y) →
      ∃ l', l.foldlM (fun acc a => insertM lt a acc) acc = .ok l' ∧ acc ⊆ l' ∧ l' ⊆ acc ++ l ∧
        (∀ a ∈ l, ∃ x ∈ l', f x = f a) ∧ l'.Pairwise fun x y => f x < f y := by
  induction l with
  | nil => exact fun acc _ _ hSorted => ⟨acc, rfl, List.Subset.refl _, by simp, by simp, hSorted⟩
  | cons a l ih =>
      intro acc hl hAcc hSorted
      have ha : a ∈ S := hl a List.mem_cons_self
      obtain ⟨acc₁, hInsert, hKept, hNew, ⟨x, hx, hKey⟩, hSorted₁⟩ := insertM_by_key
        (fun b hb => ⟨hLt a ha b (hAcc b hb), hLt b (hAcc b hb) a ha⟩) hSorted
      have hAcc₁ : ∀ y ∈ acc₁, y ∈ S := by
        intro y hy
        rcases List.mem_cons.1 (hNew hy) with rfl | hy
        · exact ha
        · exact hAcc y hy
      obtain ⟨l', hRest, hKept', hNew', hAll, hSorted'⟩ :=
        ih acc₁ (fun y hy => hl y (List.mem_cons_of_mem a hy)) hAcc₁ hSorted₁
      refine ⟨l', ?_, List.Subset.trans hKept hKept', fun y hy => ?_, fun y hy => ?_, hSorted'⟩
      · rw [List.foldlM_cons, hInsert]
        exact hRest
      · rcases List.mem_append.1 (hNew' hy) with hy | hy
        · rcases List.mem_cons.1 (hNew hy) with rfl | hy
          · exact List.mem_append_right acc List.mem_cons_self
          · exact List.mem_append_left _ hy
        · exact List.mem_append_right acc (List.mem_cons_of_mem a hy)
      · rcases List.mem_cons.1 hy with rfl | hy
        · exact ⟨x, hKept' hx, hKey⟩
        · exact hAll y hy

/-- **One of each key is kept.** -/
theorem keepsClasses_of_key (hLt : ∀ a ∈ S, ∀ b ∈ S, lt a b = .ok (decide (f a < f b)))
    (hEq : ∀ a ∈ S, ∀ b ∈ S, eq a b = .ok (decide (f a = f b))) : KeepsClasses S lt eq := by
  intro l hl
  obtain ⟨l', hRun, -, hNew, hAll, hSorted⟩ :=
    foldlM_insertM_by_key hLt l [] hl (by simp) List.Pairwise.nil
  have hS : ∀ x ∈ l', x ∈ S := fun x hx => hl x (hNew hx)
  refine ⟨l', hRun, hNew, ?_, fun a ha => ?_⟩
  · refine (List.Pairwise.and_mem.1 hSorted).imp ?_
    rintro x y ⟨hx, hy, hKey⟩
    rw [hLt x (hS x hx) y (hS y hy), decide_eq_true hKey]
  · obtain ⟨x, hx, hKey⟩ := hAll a ha
    refine ⟨x, ⟨hx, by rw [hEq x (hS x hx) a (hl a ha), decide_eq_true hKey]⟩, fun y hy hSame => ?_⟩
    rw [hEq y (hS y hy) a (hl a ha), Except.ok.injEq, decide_eq_true_eq] at hSame
    exact eq_of_ascending hSorted y hy x hx (hSame.trans hKey.symm)

end ByKey

/-! ## Pairs on which the comparator throws -/

/-- `lt` compares by the key `f`, and throws on the pairs of `clash`. Values that clash have
the same place among the others. -/
structure ThrowingKey [LinearOrder β] (f : α → β) (clash : α → α → Prop)
    (lt : α → α → Except ε Bool) : Prop where
  injective : Function.Injective f
  throws : ∀ a b, clash a b → ∃ e, lt a b = .error e
  decides : ∀ a b, ¬ clash a b → lt a b = .ok (decide (f a < f b))
  symm : ∀ a b, clash a b → clash b a
  trans : ∀ a b c, clash a b → clash b c → clash a c
  place : ∀ a b c, clash a b → ¬ clash a c → (f a < f c ↔ f b < f c)

namespace ThrowingKey

variable [LinearOrder β] {f : α → β} {clash : α → α → Prop} (h : ThrowingKey f clash lt)
  {a b : α} {l : List α}
include h

theorem lt_iff : lt a b = .ok true ↔ ¬ clash a b ∧ f a < f b := by
  by_cases hClash : clash a b
  · obtain ⟨e, hThrow⟩ := h.throws a b hClash
    rw [hThrow]
    exact iff_of_false nofun fun hNot => hNot.1 hClash
  · rw [h.decides a b hClash, Except.ok.injEq, decide_eq_true_eq]
    exact (and_iff_right hClash).symm

theorem place_gt {c : α} (hab : clash a b) (hac : ¬ clash a c) : f c < f a ↔ f c < f b := by
  have hbc : ¬ clash b c := fun hbc => hac (h.trans a b c hab hbc)
  have hNe : f c ≠ f a := fun hKey => by
    rw [h.injective hKey] at hac
    exact hac (h.trans a b a hab (h.symm a b hab))
  have hNe' : f c ≠ f b := fun hKey => by
    rw [h.injective hKey] at hbc
    exact hbc (h.trans b a b (h.symm a b hab) hab)
  have hPlace := h.place a b c hab hac
  rw [← not_iff_not, not_lt, not_lt]
  exact ⟨fun hLe => (hPlace.1 (hLe.lt_of_ne hNe.symm)).le,
    fun hLe => (hPlace.2 (hLe.lt_of_ne hNe'.symm)).le⟩

theorem pairwise_key (hSorted : l.Pairwise fun x y => lt x y = .ok true) :
    l.Pairwise fun x y => f x < f y :=
  hSorted.imp fun hLt => (h.lt_iff.1 hLt).2

theorem decides_all (hFree : ∀ b ∈ l, ¬ clash a b) :
    ∀ b ∈ l, lt a b = .ok (decide (f a < f b)) ∧ lt b a = .ok (decide (f b < f a)) := fun b hb =>
  ⟨h.decides a b (hFree b hb), h.decides b a fun hClash => hFree b hb (h.symm b a hClash)⟩

/-- No two values of an ascending list clash. -/
theorem apart (hSorted : l.Pairwise fun x y => lt x y = .ok true) {x y : α} (hx : x ∈ l)
    (hy : y ∈ l) (hNe : x ≠ y) : ¬ clash x y := by
  have hSymm : Std.Symm fun x y => ¬ clash x y := ⟨fun x y hNot hyx => hNot (h.symm y x hyx)⟩
  exact (hSorted.imp fun hLt => (h.lt_iff.1 hLt).1).forall hx hy hNe

/-- In front of the value that it clashes with, a new one is compared as that one is. -/
theorem compared_before {c : α} (hab : clash a b) (hac : ¬ clash a c) (hcb : lt c b = .ok true) :
    lt a c = .ok false ∧ lt c a = .ok true := by
  have hLess : f c < f a := (h.place_gt hab hac).2 (h.lt_iff.1 hcb).2
  have hca : ¬ clash c a := fun hca => hac (h.symm c a hca)
  exact ⟨by rw [h.decides a c hac, decide_eq_false hLess.le.not_gt],
    by rw [h.decides c a hca, decide_eq_true hLess]⟩

/-- **Insertion** throws at a value that the new one clashes with; else it adds it, unless
it is there. -/
theorem insertM_cases (hSorted : l.Pairwise fun x y => lt x y = .ok true) (a : α) :
    ((∃ b ∈ l, clash a b) ∧ ∃ e, insertM lt a l = .error e) ∨
      ((∀ b ∈ l, ¬ clash a b) ∧ ∃ l', insertM lt a l = .ok l' ∧
        (∀ x, x ∈ l' ↔ x = a ∨ x ∈ l) ∧ l'.Pairwise fun x y => lt x y = .ok true) := by
  by_cases hClash : ∃ b ∈ l, clash a b
  · refine Or.inl ⟨hClash, ?_⟩
    induction l with
    | nil => exact absurd hClash (by simp)
    | cons c l ih =>
        obtain ⟨hFirst, hTail⟩ := List.pairwise_cons.1 hSorted
        by_cases hac : clash a c
        · obtain ⟨e, hThrow⟩ := h.throws a c hac
          exact ⟨e, by rw [insertM, hThrow]⟩
        · obtain ⟨b, hb, hab⟩ := hClash
          have hb' : b ∈ l := (List.mem_cons.1 hb).resolve_left fun hEq => hac (hEq ▸ hab)
          obtain ⟨hNot, hLess⟩ := h.compared_before hab hac (hFirst b hb')
          obtain ⟨e, hThrow⟩ := ih hTail ⟨b, hb', hab⟩
          refine ⟨e, ?_⟩
          rw [insertM, hNot]
          simp only [hLess, hThrow]
          rfl
  · have hFree : ∀ b ∈ l, ¬ clash a b := fun b hb hab => hClash ⟨b, hb, hab⟩
    obtain ⟨l', hInsert, hKept, hNew, ⟨x, hx, hKey⟩, hSorted'⟩ :=
      insertM_by_key (h.decides_all hFree) (h.pairwise_key hSorted)
    obtain rfl := h.injective hKey
    have hMem : ∀ y, y ∈ l' ↔ y = x ∨ y ∈ l := fun y =>
      ⟨fun hy => List.mem_cons.1 (hNew hy), fun hy => hy.elim (fun hEq => hEq ▸ hx) fun hy => hKept hy⟩
    refine Or.inr ⟨hFree, l', hInsert, hMem, ?_⟩
    refine (List.Pairwise.and_mem.1 hSorted').imp ?_
    rintro y z ⟨hy, hz, hLess⟩
    refine h.lt_iff.2 ⟨fun hyz => ?_, hLess⟩
    rcases (hMem y).1 hy with rfl | hy'
    · rcases (hMem z).1 hz with rfl | hz'
      · exact lt_irrefl _ hLess
      · exact hFree z hz' hyz
    · rcases (hMem z).1 hz with rfl | hz'
      · exact hFree y hy' (h.symm y z hyz)
      · exact h.apart hSorted hy' hz' (fun hEq => hLess.ne (congrArg f hEq)) hyz

/-- **Erasing** throws at a value that the one to erase clashes with, so also at that value
itself where it clashes with itself; else it takes the value away. -/
theorem eraseM_cases (hSorted : l.Pairwise fun x y => lt x y = .ok true) (a : α) :
    ((∃ b ∈ l, clash a b) ∧ ∃ e, eraseM lt a l = .error e) ∨
      ((∀ b ∈ l, ¬ clash a b) ∧ ∃ l', eraseM lt a l = .ok l' ∧
        (∀ x, x ∈ l' ↔ x ≠ a ∧ x ∈ l) ∧ l'.Sublist l) := by
  by_cases hClash : ∃ b ∈ l, clash a b
  · refine Or.inl ⟨hClash, ?_⟩
    induction l with
    | nil => exact absurd hClash (by simp)
    | cons c l ih =>
        obtain ⟨hFirst, hTail⟩ := List.pairwise_cons.1 hSorted
        by_cases hac : clash a c
        · obtain ⟨e, hThrow⟩ := h.throws c a (h.symm a c hac)
          exact ⟨e, by rw [eraseM, hThrow]⟩
        · obtain ⟨b, hb, hab⟩ := hClash
          have hb' : b ∈ l := (List.mem_cons.1 hb).resolve_left fun hEq => hac (hEq ▸ hab)
          obtain ⟨-, hLess⟩ := h.compared_before hab hac (hFirst b hb')
          obtain ⟨e, hThrow⟩ := ih hTail ⟨b, hb', hab⟩
          refine ⟨e, ?_⟩
          rw [eraseM, hLess]
          simp only [hThrow]
          rfl
  · have hFree : ∀ b ∈ l, ¬ clash a b := fun b hb hab => hClash ⟨b, hb, hab⟩
    obtain ⟨l', hErase, hMem, hSub⟩ := eraseM_by_key (h.decides_all hFree) (h.pairwise_key hSorted)
    refine Or.inr ⟨hFree, l', hErase, fun x => ?_, hSub⟩
    rw [hMem, ne_eq, h.injective.eq_iff]

end ThrowingKey

end Megatron.Lib
