import Mathlib.Data.List.Basic

/-!
# Leftmost-longest matches

A pattern says which parts of a text match.  Whether a part matches does not
depend on what is in front of it, but for what the pattern asks of the start of
the text: of a text that begins later everything is a match that was one, and at
its start there may be more.

The matches of a text, one behind the other: each is the leftmost from where the
one before ends, and of those the longest.

## Main results

* `First.unique`, `Successive.unique` — there is one first match, and one list of
  successive ones.
* `First.of_drop` — the first match of the rest of a text, where it is a match of
  the text.
* `Successive.ordered` — successive matches do not overlap.
-/

namespace Megatron.Lib

universe u

variable {α : Type u}

/-- Which parts of a text match. -/
structure Pattern (α : Type u) where
  Match : List α → Nat → Nat → Prop
  inside : ∀ {s so eo}, Match s so eo → so ≤ eo ∧ eo ≤ s.length
  drop : ∀ {s p so eo}, Match s (p + so) (p + eo) → Match (s.drop p) so eo
  undrop : ∀ {s p so eo}, 0 < so → Match (s.drop p) so eo → Match s (p + so) (p + eo)

namespace Pattern

variable {P : Pattern α} {s : List α} {p q so eo so' eo' : Nat} {l l' : List (Nat × Nat)}

/-- The leftmost match from `p` on, and the longest there. -/
structure First (P : Pattern α) (s : List α) (p so eo : Nat) : Prop where
  isMatch : P.Match s so eo
  behind : p ≤ so
  leftmost : ∀ so' eo', P.Match s so' eo' → p ≤ so' → so ≤ so'
  longest : ∀ eo', P.Match s so eo' → eo' ≤ eo

theorem First.unique (h : P.First s p so eo) (h' : P.First s p so' eo') :
    so = so' ∧ eo = eo' := by
  have hStart : so = so' := Nat.le_antisymm (h.leftmost _ _ h'.isMatch h'.behind)
    (h'.leftmost _ _ h.isMatch h.behind)
  subst hStart
  exact ⟨rfl, Nat.le_antisymm (h'.longest _ h.isMatch) (h.longest _ h'.isMatch)⟩

/-- The rest of a text has a match where the text has one. -/
theorem match_drop (h : P.Match s so eo) (hBehind : p ≤ so) :
    P.Match (s.drop p) (so - p) (eo - p) := by
  have hInside := (P.inside h).1
  refine P.drop ?_
  rwa [Nat.add_sub_cancel' hBehind, Nat.add_sub_cancel' (Nat.le_trans hBehind hInside)]

/-- What the rest of a text finds first is first in the text, where it is a match
of the text. -/
theorem First.of_drop (h : P.First (s.drop p) 0 so eo) (hMatch : P.Match s (p + so) (p + eo)) :
    P.First s p (p + so) (p + eo) where
  isMatch := hMatch
  behind := Nat.le_add_right _ _
  leftmost so' eo' hOther hBehind := by
    have hLeft := h.leftmost _ _ (match_drop hOther hBehind) (Nat.zero_le _)
    omega
  longest eo' hOther := by
    have hInside := (P.inside hOther).1
    have hRest := match_drop hOther (Nat.le_add_right p so)
    rw [Nat.add_sub_cancel_left] at hRest
    have hLong := h.longest _ hRest
    omega

/-! ## One behind the other -/

/-- The matches from `p` on.  Behind an empty one the search goes on a place
further. -/
inductive Successive (P : Pattern α) (s : List α) : Nat → List (Nat × Nat) → Prop
  | done {p : Nat} (h : ∀ so eo, P.Match s so eo → so < p) : Successive P s p []
  | next {p so eo : Nat} {l : List (Nat × Nat)} (h : P.First s p so eo)
      (rest : Successive P s (if so < eo then eo else eo + 1) l) : Successive P s p ((so, eo) :: l)

theorem Successive.next_of_lt (h : P.First s p so eo) (hLt : so < eo)
    (hRest : P.Successive s eo l) : P.Successive s p ((so, eo) :: l) :=
  .next h (by rwa [if_pos hLt])

theorem Successive.unique (h : P.Successive s p l) (h' : P.Successive s p l') : l = l' := by
  induction h generalizing l' with
  | done hNone =>
      cases h' with
      | done => rfl
      | next hFirst =>
          have hBefore := hNone _ _ hFirst.isMatch
          have hBehind := hFirst.behind
          omega
  | next hFirst _ ih =>
      cases h' with
      | done hNone =>
          have hBefore := hNone _ _ hFirst.isMatch
          have hBehind := hFirst.behind
          omega
      | next hFirst' hRest' =>
          obtain ⟨rfl, rfl⟩ := hFirst.unique hFirst'
          rw [ih hRest']

/-- Matches in increasing order, none of which reaches into the next. -/
def Ordered : Nat → List (Nat × Nat) → Prop
  | _, [] => True
  | p, (so, eo) :: l => p ≤ so ∧ so ≤ eo ∧ Ordered eo l

theorem Ordered.mono (h : Ordered q l) (hLe : p ≤ q) : Ordered p l := by
  cases l with
  | nil => trivial
  | cons m l => exact ⟨Nat.le_trans hLe h.1, h.2⟩

theorem Successive.ordered (h : P.Successive s p l) : Ordered p l := by
  induction h with
  | done => trivial
  | next hFirst _ ih =>
      refine ⟨hFirst.behind, (P.inside hFirst.isMatch).1, ih.mono ?_⟩
      split <;> omega

/-- Where a match ends, one behind the other from `p` on, and `p` itself. -/
inductive Reached (P : Pattern α) (s : List α) : Nat → Nat → Prop
  | here {p : Nat} : Reached P s p p
  | behind {p so eo q : Nat} (h : P.First s p so eo) (rest : Reached P s eo q) : Reached P s p q

/-! ## Replacing -/

/-- `s` from `p` on, with `t` in place of every match. -/
def replaced (t s : List α) : Nat → List (Nat × Nat) → List α
  | p, [] => s.drop p
  | p, (so, eo) :: l => (s.drop p).take (so - p) ++ t ++ replaced t s eo l

/-- The length of the result grows with that of `t`, once for every match. -/
theorem exists_length_replaced (s : List α) (p : Nat) (l : List (Nat × Nat)) :
    ∃ k, ∀ t, (replaced t s p l).length = k + l.length * t.length := by
  induction l generalizing p with
  | nil => exact ⟨(s.drop p).length, fun t => by simp [replaced]⟩
  | cons m l ih =>
      obtain ⟨so, eo⟩ := m
      obtain ⟨k, hk⟩ := ih eo
      refine ⟨((s.drop p).take (so - p)).length + k, fun t => ?_⟩
      rw [replaced, List.length_append, List.length_append, hk, List.length_cons, Nat.succ_mul]
      omega

end Pattern

end Megatron.Lib
