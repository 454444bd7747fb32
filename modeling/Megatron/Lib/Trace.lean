import Mathlib.Data.List.Basic

/-!
# Traces

What a run has done, the latest first.  Both predicates are about kinds of
entries; a new entry is checked against the trace before it.
-/

namespace Megatron.Lib

universe u

variable {α : Type u}

/-- Some entry of the trace is a `q`. -/
def Occurs (q : α → Bool) (t : List α) : Prop := ∃ e ∈ t, q e = true

instance (q : α → Bool) (t : List α) : Decidable (Occurs q t) :=
  inferInstanceAs (Decidable (∃ e ∈ t, q e = true))

/-- Every `p` of the trace has a `q` before it. -/
def Preceded (q p : α → Bool) : List α → Prop
  | [] => True
  | e :: t => (p e = true → Occurs q t) ∧ Preceded q p t

variable {q : α → Bool} {e : α} {t : List α}

theorem occurs_cons : Occurs q (e :: t) ↔ q e = true ∨ Occurs q t := by
  simp only [Occurs, List.exists_mem_cons_iff]

theorem Occurs.cons (h : Occurs q t) (e : α) : Occurs q (e :: t) := occurs_cons.2 (Or.inr h)

end Megatron.Lib
