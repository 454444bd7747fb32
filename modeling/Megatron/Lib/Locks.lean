import Mathlib.Logic.Function.Basic
import Mathlib.Data.List.Count

/-!
# Locks and who holds them

A table says for each lock who holds it, and every thread knows the locks it
has taken.  `Exclusive` is that the two agree, and that no lock is taken twice.

## Main results

* `Exclusive.acquire`, `Exclusive.release` — taking a lock that is free, and
  giving back the last one taken.
* `Exclusive.unique`, `Exclusive.notMem_tail` — one holder, who has taken it
  once.
-/

namespace Megatron.Lib

variable {L T : Type} [DecidableEq L] [DecidableEq T]

/-- Every lock is taken once by its holder, and by nobody else. -/
def Exclusive (holder : L → Option T) (held : T → List L) : Prop :=
  ∀ t l, (held t).count l = if holder l = some t then 1 else 0

namespace Exclusive

variable {holder : L → Option T} {held : T → List L} {t t' : T} {l : L} {ls : List L}

theorem mem_iff (h : Exclusive holder held) : l ∈ held t ↔ holder l = some t := by
  rw [← List.count_pos_iff, h t l]
  split <;> simp [*]

theorem unique (h : Exclusive holder held) (hMem : l ∈ held t) (hMem' : l ∈ held t') : t = t' :=
  Option.some.inj ((h.mem_iff.1 hMem).symm.trans (h.mem_iff.1 hMem'))

theorem notMem_tail (h : Exclusive holder held) (hHeld : held t = l :: ls) : l ∉ ls := by
  intro hMem
  have hCount := h t l
  rw [hHeld, List.count_cons_self, if_pos (h.mem_iff.1 (hHeld ▸ List.mem_cons_self))] at hCount
  have hPos := List.count_pos_iff.2 hMem
  omega

theorem acquire (h : Exclusive holder held) (hFree : holder l = none) :
    Exclusive (Function.update holder l (some t)) (Function.update held t (l :: held t)) := by
  intro t' l'
  have hOld := h t' l'
  by_cases hl : l' = l
  · subst hl
    rw [hFree, if_neg (Option.some_ne_none t').symm] at hOld
    rw [Function.update_self]
    by_cases ht : t' = t
    · subst ht
      rw [Function.update_self, List.count_cons_self, hOld, if_pos rfl]
    · rw [Function.update_of_ne ht, hOld, if_neg fun hSame => ht (Option.some.inj hSame).symm]
  · rw [Function.update_of_ne hl, ← hOld]
    by_cases ht : t' = t
    · subst ht
      rw [Function.update_self, List.count_cons_of_ne fun hSame => hl hSame.symm]
    · rw [Function.update_of_ne ht]

theorem release (h : Exclusive holder held) (hHeld : held t = l :: ls) :
    Exclusive (Function.update holder l none) (Function.update held t ls) := by
  intro t' l'
  have hOld := h t' l'
  by_cases hl : l' = l
  · subst hl
    rw [Function.update_self, if_neg (Option.some_ne_none t').symm, List.count_eq_zero]
    by_cases ht : t' = t
    · subst ht
      rw [Function.update_self]
      exact h.notMem_tail hHeld
    · rw [Function.update_of_ne ht]
      exact fun hMem => ht (h.unique hMem (hHeld ▸ List.mem_cons_self))
  · rw [Function.update_of_ne hl, ← hOld]
    by_cases ht : t' = t
    · subst ht
      rw [Function.update_self, hHeld, List.count_cons_of_ne fun hSame => hl hSame.symm]
    · rw [Function.update_of_ne ht]

end Exclusive

end Megatron.Lib
