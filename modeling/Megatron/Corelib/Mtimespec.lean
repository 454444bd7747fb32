import Mathlib.Tactic.Linarith
import Megatron.Corelib.IoBuffer

/-!
# Times of seconds and nanoseconds

`mtimespec`: its two comparisons, its sum and its difference.  The seconds are
whole numbers here: what a sum is that the `time_t` does not hold is not asked.

## Main results

* `lt_eq`, `le_eq` — what the comparisons compare; `operator<=` never comes to
  the nanoseconds.
* `laws_iff` — the laws of an ordered group hold of two times that are not in one
  second, or are equal.
-/

namespace Megatron.Corelib

/-- `mtimespec`. -/
structure Mtimespec where
  tvSec : Int
  tvNsec : Int
  deriving DecidableEq, Repr

namespace Mtimespec

/-- `_nano_`. -/
def nano : Int := 1000000000

/-- `"%s %d",__FILE__,__LINE__`, of the line that throws. -/
structure Place where
  file : String
  line : Nat

/-- The exception about the argument of that name. -/
def invalid (argument : String) (p : Place) : CommonError :=
  ⟨"if(" ++ argument ++ ".tv_nsec>nano)  " ++ p.file ++ " " ++ toString p.line⟩

/-- `operator<`. -/
def lt (file : String) (a b : Mtimespec) : Except CommonError Bool :=
  if a.tvNsec > nano then .error (invalid "a" ⟨file, 34⟩)
  else if b.tvNsec > nano then .error (invalid "b" ⟨file, 35⟩)
  else if a.tvSec ≠ b.tvSec then .ok (decide (a.tvSec < b.tvSec))
  else if a.tvNsec ≠ b.tvNsec then .ok (decide (a.tvNsec < b.tvNsec))
  else .ok false

/-- `operator<=`. -/
def le (file : String) (a b : Mtimespec) : Except CommonError Bool :=
  if a.tvNsec > nano then .error (invalid "a" ⟨file, 47⟩)
  else if b.tvNsec > nano then .error (invalid "b" ⟨file, 48⟩)
  -- `<=` where `<` was meant: the next branch is never taken
  else if a.tvSec ≤ b.tvSec then .ok true
  else if a.tvSec = b.tvSec then .ok (decide (a.tvNsec ≤ b.tvNsec))
  else .ok false

/-- `operator+`. -/
def add (a b : Mtimespec) : Mtimespec :=
  ⟨a.tvSec + b.tvSec + (a.tvNsec + b.tvNsec).tdiv nano, (a.tvNsec + b.tvNsec).tmod nano⟩

/-- `operator-`. -/
def sub (a b : Mtimespec) : Mtimespec :=
  let sec := a.tvSec - b.tvSec
  let nsec := a.tvNsec - b.tvNsec
  if nsec < 0 then ⟨sec - 1, nsec + nano⟩ else ⟨sec, nsec⟩

/-! ## What a time is -/

/-- The nanoseconds are less than a second. -/
def Normalised (a : Mtimespec) : Prop := 0 ≤ a.tvNsec ∧ a.tvNsec < nano

/-- The time in nanoseconds. -/
def nanoseconds (a : Mtimespec) : Int := a.tvSec * nano + a.tvNsec

/-- What a total order, a sum and a difference are held to, of three times. -/
structure Laws (file : String) (a b c : Mtimespec) : Prop where
  lt_irrefl : lt file a a = .ok false
  lt_trans : lt file a b = .ok true → lt file b c = .ok true → lt file a c = .ok true
  lt_total : lt file a b = .ok true ∨ a = b ∨ lt file b a = .ok true
  le_refl : le file a a = .ok true
  le_antisymm : le file a b = .ok true → le file b a = .ok true → a = b
  le_trans : le file a b = .ok true → le file b c = .ok true → le file a c = .ok true
  le_total : le file a b = .ok true ∨ le file b a = .ok true
  le_iff_not_lt : le file a b = .ok true ↔ lt file b a = .ok false
  normalised_add : 0 ≤ (a.add b).nanoseconds → (a.add b).Normalised
  normalised_sub : 0 ≤ (a.sub b).nanoseconds → (a.sub b).Normalised
  add_sub : (a.add b).sub b = a
  lt_add : lt file a b = .ok true → lt file (a.add c) (b.add c) = .ok true

variable {file : String} {a b c : Mtimespec}

/-! ## Comparing -/

/-- Normalised times are ordered as their nanoseconds are. -/
theorem lt_eq (ha : a.Normalised) (hb : b.Normalised) :
    lt file a b = .ok (decide (a.nanoseconds < b.nanoseconds)) := by
  obtain ⟨ha₀, ha₁⟩ := ha
  obtain ⟨hb₀, hb₁⟩ := hb
  rw [nano] at ha₁ hb₁
  rw [lt, nano, if_neg ha₁.not_gt, if_neg hb₁.not_gt]
  have hLess : a.nanoseconds < b.nanoseconds ↔
      a.tvSec < b.tvSec ∨ a.tvSec = b.tvSec ∧ a.tvNsec < b.tvNsec := by
    rw [nanoseconds, nanoseconds, nano]
    omega
  by_cases hSec : a.tvSec = b.tvSec
  · rw [if_neg (not_not.2 hSec)]
    by_cases hNsec : a.tvNsec = b.tvNsec
    · simp [hLess, hSec, hNsec]
    · simp [hLess, hSec, hNsec]
  · simp [hLess, hSec]

/-- `operator<=` looks at the seconds only. -/
theorem le_eq (ha : a.Normalised) (hb : b.Normalised) :
    le file a b = .ok (decide (a.tvSec ≤ b.tvSec)) := by
  rw [le, if_neg ha.2.not_gt, if_neg hb.2.not_gt]
  by_cases hSec : a.tvSec ≤ b.tvSec
  · rw [if_pos hSec, decide_eq_true hSec]
  · rw [if_neg hSec, if_neg (fun h => hSec h.le), decide_eq_false hSec]

/-- Two normalised times of the same nanoseconds are equal. -/
theorem eq_of_nanoseconds (ha : a.Normalised) (hb : b.Normalised)
    (h : a.nanoseconds = b.nanoseconds) : a = b := by
  obtain ⟨aSec, aNsec⟩ := a
  obtain ⟨bSec, bNsec⟩ := b
  simp only [Normalised, nanoseconds, nano] at ha hb h
  have hSec : aSec = bSec := by omega
  have hNsec : aNsec = bNsec := by omega
  rw [hSec, hNsec]

/-! ## Sums and differences -/

/-- **A sum** carries once at most. -/
theorem add_eq (ha : a.Normalised) (hb : b.Normalised) :
    (a.add b).Normalised ∧ (a.add b).nanoseconds = a.nanoseconds + b.nanoseconds := by
  have hSum : 0 ≤ a.tvNsec + b.tvNsec := add_nonneg ha.1 hb.1
  have hParts := Int.mul_tdiv_add_tmod (a.tvNsec + b.tvNsec) nano
  refine ⟨⟨Int.tmod_nonneg _ hSum, Int.tmod_lt_of_pos _ (by decide)⟩, ?_⟩
  simp only [add, nanoseconds]
  linarith

/-- **A difference** borrows once at most. -/
theorem sub_eq (ha : a.Normalised) (hb : b.Normalised) :
    (a.sub b).Normalised ∧ (a.sub b).nanoseconds = a.nanoseconds - b.nanoseconds := by
  obtain ⟨ha₀, ha₁⟩ := ha
  obtain ⟨hb₀, hb₁⟩ := hb
  rw [nano] at ha₁ hb₁
  by_cases hBorrow : a.tvNsec - b.tvNsec < 0
  · simp only [sub, if_pos hBorrow, Normalised, nanoseconds, nano]
    exact ⟨⟨by omega, by omega⟩, by omega⟩
  · simp only [sub, if_neg hBorrow, Normalised, nanoseconds, nano]
    exact ⟨⟨by omega, by omega⟩, by omega⟩

theorem sub_add (ha : a.Normalised) (hb : b.Normalised) : (a.add b).sub b = a := by
  obtain ⟨hSum, hAdd⟩ := add_eq ha hb
  obtain ⟨hDiff, hSub⟩ := sub_eq hSum hb
  exact eq_of_nanoseconds hDiff ha (by rw [hSub, hAdd, add_sub_cancel_right])

/-! ## The laws -/

/-- Times of one second that differ are each at most the other. -/
theorem eq_of_antisymm (ha : a.Normalised) (hb : b.Normalised)
    (h : le file a b = .ok true → le file b a = .ok true → a = b) :
    a.tvSec = b.tvSec → a.tvNsec = b.tvNsec := by
  intro hSec
  have hLe : le file a b = .ok true := by rw [le_eq ha hb, hSec, decide_eq_true le_rfl]
  have hGe : le file b a = .ok true := by rw [le_eq hb ha, hSec, decide_eq_true le_rfl]
  rw [h hLe hGe]

/-- **The laws hold** of two normalised times unless they differ within one
second. -/
theorem laws_iff (ha : a.Normalised) (hb : b.Normalised) (hc : c.Normalised) :
    Laws file a b c ↔ (a.tvSec = b.tvSec → a.tvNsec = b.tvNsec) := by
  refine ⟨fun h => eq_of_antisymm ha hb h.le_antisymm, fun h => ?_⟩
  have hSame : a.tvSec = b.tvSec → a = b := by
    intro hSec
    cases a
    cases b
    simp_all
  obtain ⟨hac, hacEq⟩ := add_eq ha hc
  obtain ⟨hbc, hbcEq⟩ := add_eq hb hc
  refine
    { lt_irrefl := ?_
      lt_trans := ?_
      lt_total := ?_
      le_refl := ?_
      le_antisymm := ?_
      le_trans := ?_
      le_total := ?_
      le_iff_not_lt := ?_
      normalised_add := fun _ => (add_eq ha hb).1
      normalised_sub := fun _ => (sub_eq ha hb).1
      add_sub := sub_add ha hb
      lt_add := ?_ }
  · rw [lt_eq ha ha, decide_eq_false (lt_irrefl _)]
  · rw [lt_eq ha hb, lt_eq hb hc, lt_eq ha hc]
    simp only [Except.ok.injEq, decide_eq_true_eq]
    exact lt_trans
  · rw [lt_eq ha hb, lt_eq hb ha]
    simp only [Except.ok.injEq, decide_eq_true_eq]
    rcases lt_trichotomy a.nanoseconds b.nanoseconds with hLt | hEq | hGt
    · exact Or.inl hLt
    · exact Or.inr (Or.inl (eq_of_nanoseconds ha hb hEq))
    · exact Or.inr (Or.inr hGt)
  · rw [le_eq ha ha, decide_eq_true le_rfl]
  · rw [le_eq ha hb, le_eq hb ha]
    simp only [Except.ok.injEq, decide_eq_true_eq]
    exact fun hLe hGe => hSame (le_antisymm hLe hGe)
  · rw [le_eq ha hb, le_eq hb hc, le_eq ha hc]
    simp only [Except.ok.injEq, decide_eq_true_eq]
    exact le_trans
  · rw [le_eq ha hb, le_eq hb ha]
    simp only [Except.ok.injEq, decide_eq_true_eq]
    exact le_total _ _
  · rw [le_eq ha hb, lt_eq hb ha]
    simp only [Except.ok.injEq, decide_eq_true_eq, decide_eq_false_iff_not, not_lt]
    have hNano : a.tvSec = b.tvSec → a.nanoseconds = b.nanoseconds := fun h => by rw [hSame h]
    obtain ⟨ha₀, ha₁⟩ := ha
    obtain ⟨hb₀, hb₁⟩ := hb
    simp only [nanoseconds, nano] at *
    omega
  · rw [lt_eq ha hb, lt_eq hac hbc, hacEq, hbcEq]
    simp only [Except.ok.injEq, decide_eq_true_eq]
    exact fun hLt => add_lt_add_left hLt _

/-- Two times of different seconds, the first with more nanoseconds. -/
theorem laws_of_two_seconds : Laws "mtimespec.cpp" ⟨1, 5⟩ ⟨2, 3⟩ ⟨0, 999999999⟩ :=
  (laws_iff ⟨by decide, by decide⟩ ⟨by decide, by decide⟩ ⟨by decide, by decide⟩).2 (by decide)

/-- `1.000000005` is found to be at most `1.000000003`. -/
theorem laws_broken :
    ¬ ∀ a b c : Mtimespec, a.Normalised → b.Normalised → c.Normalised →
      Laws "mtimespec.cpp" a b c := by
  intro h
  have hLaws := h ⟨1, 5⟩ ⟨1, 3⟩ ⟨0, 0⟩ ⟨by decide, by decide⟩ ⟨by decide, by decide⟩
    ⟨by decide, by decide⟩
  have hLe : le "mtimespec.cpp" ⟨1, 5⟩ ⟨1, 3⟩ = .ok true := rfl
  have hLt : lt "mtimespec.cpp" ⟨1, 3⟩ ⟨1, 5⟩ = .ok true := rfl
  have hNot := hLaws.le_iff_not_lt.1 hLe
  rw [hLt] at hNot
  cases hNot

end Mtimespec

end Megatron.Corelib
