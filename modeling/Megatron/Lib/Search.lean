import Mathlib.Data.List.Basic
import Mathlib.Data.List.Infix
import Mathlib.Data.Nat.Find

/-!
# The first occurrence of a delimiter

A receiver that waits for a delimiter cuts its buffer at the first occurrence
(`List.dropInfix?`).  What it cuts does not depend on what follows, and it cuts
nothing before the whole delimiter is there, so it may look again after every
piece that arrives.

## Main results

* `dropInfix?_append` — more input behind a cut changes nothing of it.
* `dropInfix?_short` — before the delimiter is complete there is no cut.
* `dropInfix?_prepend` — input in front in which no delimiter begins goes to
  the part in front of the cut.
* `dropInfix?_eq_none` — there is no cut exactly where the delimiter is not.
* `dropInfix?_singleton` — a delimiter of one character ends at its first place.
* `dropInfix?_behind` — no cut is across a character that is not in the delimiter.
-/

namespace Megatron.Lib

universe u

variable {α : Type u} [DecidableEq α] {s t d p r : List α}

theorem dropInfix?_iff :
    s.dropInfix? d = some (p, r) ↔
      s = p ++ d ++ r ∧ ∀ p' r', s = p' ++ d ++ r' → p.length ≤ p'.length := by
  rw [List.dropInfix?_eq_some_iff]
  simp only [beq_iff_eq]
  constructor
  · rintro ⟨⟨d', hCut, rfl⟩, hFirst⟩
    exact ⟨hCut, fun p' r' h => hFirst p' _ r' h rfl⟩
  · rintro ⟨hCut, hFirst⟩
    refine ⟨⟨d, hCut, rfl⟩, ?_⟩
    rintro p' d' r' h rfl
    exact hFirst p' r' h

theorem dropInfix?_append (h : s.dropInfix? d = some (p, r)) (t : List α) :
    (s ++ t).dropInfix? d = some (p, r ++ t) := by
  obtain ⟨rfl, hFirst⟩ := dropInfix?_iff.1 h
  refine dropInfix?_iff.2 ⟨by simp, fun p' r' hCut => ?_⟩
  by_contra hShort
  -- an earlier occurrence would end inside the part that is already there
  have hPrefix : p' ++ d <+: p ++ d ++ r := by
    have hLe : (p' ++ d).length ≤ (p ++ d ++ r).length := by
      simp only [List.length_append]
      omega
    exact List.prefix_of_prefix_length_le ⟨r', hCut.symm⟩ (List.prefix_append _ t) hLe
  obtain ⟨r'', hEq⟩ := hPrefix
  exact hShort (hFirst p' r'' hEq.symm)

theorem dropInfix?_short (h : (s ++ t).dropInfix? d = some (p, r))
    (hShort : s.length < p.length + d.length) : s.dropInfix? d = none := by
  rw [Option.eq_none_iff_forall_not_mem]
  rintro ⟨p', r'⟩ hCut
  have hSame := (dropInfix?_append hCut t).symm.trans h
  have hLen := congrArg List.length (dropInfix?_iff.1 hCut).1
  simp only [Option.some.injEq, Prod.mk.injEq] at hSame
  simp only [List.length_append, hSame.1] at hLen
  omega

theorem dropInfix?_prepend (h : s.dropInfix? d = some (p, r))
    (hNot : ∀ i < t.length, ¬ d <+: (t ++ s).drop i) :
    (t ++ s).dropInfix? d = some (t ++ p, r) := by
  obtain ⟨rfl, hFirst⟩ := dropInfix?_iff.1 h
  refine dropInfix?_iff.2 ⟨by simp, fun p' r' hCut => ?_⟩
  rcases Nat.lt_or_ge p'.length t.length with hIn | hBehind
  · refine absurd ⟨r', ?_⟩ (hNot p'.length hIn)
    rw [hCut, List.append_assoc, List.drop_left]
  · -- an occurrence behind `t` is one of `s`
    have hPrefix : t <+: p' := by
      refine List.prefix_of_prefix_length_le (List.prefix_append t (p ++ d ++ r)) ⟨d ++ r', ?_⟩
        hBehind
      rw [hCut, List.append_assoc]
    obtain ⟨p'', rfl⟩ := hPrefix
    have hLe := hFirst p'' r' (List.append_cancel_left (hCut.trans (by simp)))
    simp only [List.length_append]
    omega

/-- The delimiter is found exactly when it is there. -/
theorem dropInfix?_eq_none : s.dropInfix? d = none ↔ ¬ d <:+: s := by
  constructor
  · rintro hNone ⟨p, r, hCut⟩
    -- the shortest part in front of an occurrence
    have hSome : ∃ n p r, s = p ++ d ++ r ∧ p.length = n := ⟨_, p, r, hCut.symm, rfl⟩
    classical
    obtain ⟨p, r, hEq, hLen⟩ := Nat.find_spec hSome
    have hFirst : s.dropInfix? d = some (p, r) := by
      refine dropInfix?_iff.2 ⟨hEq, fun p' r' h => ?_⟩
      rw [hLen]
      exact Nat.find_min' hSome ⟨p', r', h, rfl⟩
    rw [hNone] at hFirst
    cases hFirst
  · intro hNot
    rw [Option.eq_none_iff_forall_not_mem]
    rintro ⟨p, r⟩ hCut
    exact hNot ⟨p, r, (dropInfix?_iff.1 hCut).1.symm⟩

/-- What is behind the cut has no part in it. -/
theorem dropInfix?_exact (h : s.dropInfix? d = some (p, r)) :
    (p ++ d).dropInfix? d = some (p, []) := by
  obtain ⟨hCut, hFirst⟩ := dropInfix?_iff.1 h
  refine dropInfix?_iff.2 ⟨by simp, fun p' r' hEq => hFirst p' (r' ++ r) ?_⟩
  rw [hCut, hEq]
  simp

theorem length_of_dropInfix? (h : s.dropInfix? d = some (p, r)) :
    s.length = p.length + d.length + r.length := by
  rw [(dropInfix?_iff.1 h).1]
  simp only [List.length_append]

@[simp] theorem dropInfix?_self_append (d r : List α) :
    (d ++ r).dropInfix? d = some ([], r) :=
  dropInfix?_iff.2 ⟨rfl, fun _ _ _ => Nat.zero_le _⟩

/-- A delimiter is found where its first character is for the first time. -/
theorem dropInfix?_head {c : α} (h : c ∉ p) :
    (p ++ c :: d ++ r).dropInfix? (c :: d) = some (p, r) := by
  rw [List.append_assoc]
  have hCut := dropInfix?_prepend (t := p) (dropInfix?_self_append (c :: d) r) ?_
  · simpa using hCut
  · intro i hi hPrefix
    rw [List.drop_append_of_le_length hi.le, List.drop_eq_getElem_cons hi, List.cons_append,
      List.cons_prefix_cons] at hPrefix
    exact h (hPrefix.1 ▸ List.getElem_mem hi)

/-! ## Characters that are not in the delimiter -/

omit [DecidableEq α] in
theorem prefix_of_prefix_append_cons {c : α} (hNot : c ∉ d) (h : d <+: s ++ c :: t) : d <+: s := by
  rcases Nat.le_total d.length s.length with hLe | hGe
  · exact List.prefix_of_prefix_length_le h (List.prefix_append s _) hLe
  · -- a longer one would have the character
    obtain ⟨e, rfl⟩ := List.prefix_of_prefix_length_le (List.prefix_append s (c :: t)) h hGe
    rw [List.prefix_append_right_inj] at h
    cases e with
    | nil => simp
    | cons c' e =>
        have hHead := (List.cons_prefix_cons.1 h).1
        simp [hHead] at hNot

omit [DecidableEq α] in
/-- There is no occurrence across a character that is not in the delimiter. -/
theorem infix_append_cons {c : α} (hNot : c ∉ d) (h : d <:+: s ++ c :: t) :
    d <:+: s ∨ d <:+: t := by
  rw [List.infix_append_iff] at h
  rcases h with hIn | hBehind | ⟨p, r, rfl, hSuffix, hPrefix⟩
  · exact Or.inl hIn
  · rw [List.infix_cons_iff] at hBehind
    rcases hBehind with hPrefix | hIn
    · have hNil := prefix_of_prefix_append_cons (s := []) hNot hPrefix
      rw [List.prefix_nil.1 hNil]
      exact Or.inl (List.nil_infix)
    · exact Or.inr hIn
  · have hNil := prefix_of_prefix_append_cons (s := [])
      (fun hMem => hNot (List.mem_append_right p hMem)) hPrefix
    rw [List.prefix_nil.1 hNil, List.append_nil]
    exact Or.inl hSuffix.isInfix

/-- A cut behind a character that is not in the delimiter. -/
theorem dropInfix?_behind {c : α} (hNot : c ∉ d) (hFree : ¬ d <:+: t)
    (h : s.dropInfix? d = some (p, r)) :
    (t ++ c :: s).dropInfix? d = some (t ++ c :: p, r) := by
  have hCut := dropInfix?_prepend (t := t ++ [c]) h ?_
  · simpa using hCut
  · intro i hi hPrefix
    rw [List.length_append, List.length_singleton] at hi
    rw [List.append_assoc, List.singleton_append, List.drop_append_of_le_length (by omega)]
      at hPrefix
    have hIn := prefix_of_prefix_append_cons hNot hPrefix
    exact hFree (hIn.isInfix.trans (List.drop_suffix i t).isInfix)

/-! ## Delimiters of one character -/

theorem dropInfix?_singleton {c : α} (h : c ∉ p) : (p ++ c :: r).dropInfix? [c] = some (p, r) := by
  simpa using dropInfix?_head (d := []) (r := r) h

theorem dropInfix?_singleton_eq_none {c : α} : s.dropInfix? [c] = none ↔ c ∉ s := by
  rw [dropInfix?_eq_none, List.singleton_infix_iff]

end Megatron.Lib
