/-!
# Loops that end

A loop of a program as the function of one round, which is done with a result or
goes on with the next state.  `run` gives it a number of rounds; a loop whose
every round makes a measure smaller ends within that many.

## Main results

* `ends_of_measure` — the rule of a loop with a variant.
* `ends_inl`, `ends_inr` — what one round says of the whole loop.
* `not_ends_of_round` — the rule of a loop that goes on for ever.
-/

namespace Megatron.Lib.Loop

universe u v

variable {σ : Type u} {ρ : Type v}

/-- At most so many rounds, with the result if the loop has ended. -/
def run (step : σ → ρ ⊕ σ) : Nat → σ → Option ρ
  | 0, _ => none
  | n + 1, s =>
      match step s with
      | .inl r => some r
      | .inr s' => run step n s'

attribute [local simp] run

/-- The loop ends with the result. -/
def Ends (step : σ → ρ ⊕ σ) (s : σ) (r : ρ) : Prop := ∃ n, run step n s = some r

/-- A round ends with the result, or it makes the measure smaller and keeps what
the result is to be. -/
def Progress (measure : σ → Nat) (result : σ → ρ) (s : σ) : ρ ⊕ σ → Prop
  | .inl r => result s = r
  | .inr s' => measure s' < measure s ∧ result s' = result s

section

variable {step : σ → ρ ⊕ σ} {measure : σ → Nat} {result : σ → ρ}
  (hRound : ∀ s, Progress measure result s (step s))

include hRound

theorem run_of_lt : ∀ (n : Nat) (s : σ), measure s < n → run step n s = some (result s) := by
  intro n
  induction n with
  | zero => intro s hLt; omega
  | succ n ih =>
      intro s hLt
      have hStep := hRound s
      rw [run]
      cases hDone : step s with
      | inl r =>
          rw [hDone] at hStep
          exact congrArg some hStep.symm
      | inr s' =>
          rw [hDone] at hStep
          obtain ⟨hLess, hSame⟩ := hStep
          rw [← hSame]
          exact ih s' (by omega)

/--
**Loops with a variant.** Where every round makes the measure smaller and keeps
what the result is to be, the loop ends with it.
-/
theorem ends_of_measure (s : σ) : Ends step s (result s) :=
  ⟨measure s + 1, run_of_lt hRound _ s (Nat.lt_succ_self _)⟩

end

/-! ## One round after another -/

section

variable {step : σ → ρ ⊕ σ} {s s' : σ} {r x : ρ}

theorem ends_inl (hDone : step s = .inl r) : Ends step s x ↔ x = r := by
  constructor
  · rintro ⟨n, hRun⟩
    cases n with
    | zero => cases hRun
    | succ n =>
        rw [run, hDone] at hRun
        exact (Option.some.inj hRun).symm
  · rintro rfl
    exact ⟨1, by rw [run, hDone]⟩

theorem ends_inr (hNext : step s = .inr s') : Ends step s x ↔ Ends step s' x := by
  constructor
  · rintro ⟨n, hRun⟩
    cases n with
    | zero => cases hRun
    | succ n =>
        rw [run, hNext] at hRun
        exact ⟨n, hRun⟩
  · rintro ⟨n, hRun⟩
    exact ⟨n + 1, by rw [run, hNext]; exact hRun⟩

/-- What every round keeps, and the last one hands to the result. -/
theorem Ends.invariant {P : σ → Prop} {Q : ρ → Prop} (h : Ends step s r) (hStart : P s)
    (hGo : ∀ s s', P s → step s = .inr s' → P s') (hDone : ∀ s r, P s → step s = .inl r → Q r) :
    Q r := by
  obtain ⟨n, hRun⟩ := h
  induction n generalizing s with
  | zero => cases hRun
  | succ n ih =>
      rw [run] at hRun
      cases hStep : step s with
      | inl y =>
          rw [hStep] at hRun
          obtain rfl : y = r := Option.some.inj hRun
          exact hDone s y hStart hStep
      | inr t =>
          rw [hStep] at hRun
          exact ih (hGo s t hStart hStep) hRun

/-- A loop ends with one result. -/
theorem Ends.unique (h : Ends step s r) (h' : Ends step s x) : r = x := by
  obtain ⟨n, hRun⟩ := h
  induction n generalizing s with
  | zero => cases hRun
  | succ n ih =>
      rw [run] at hRun
      cases hStep : step s with
      | inl y =>
          rw [hStep] at hRun
          rw [(ends_inl hStep).1 h']
          exact (Option.some.inj hRun).symm
      | inr t =>
          rw [hStep] at hRun
          exact ih ((ends_inr hStep).1 h') hRun

/--
**Loops without an end.** Where every round goes on, and to a state like the one
before, no number of rounds is enough.
-/
theorem not_ends_of_round {P : σ → Prop} (hRound : ∀ s, P s → ∃ s', step s = .inr s' ∧ P s')
    (hStart : P s) : ¬ Ends step s r := by
  rintro ⟨n, hRun⟩
  induction n generalizing s with
  | zero => cases hRun
  | succ n ih =>
      obtain ⟨s', hNext, hNextP⟩ := hRound s hStart
      rw [run, hNext] at hRun
      exact ih hNextP hRun

end

end Megatron.Lib.Loop
