/-!
# Operations on a state that can stop

An operation on a state that returns or stops, and leaves a state either way.
`Ends I E p s Q`: from `s` the operation `p` leaves a state with `I`, whether it
returns, then with `Q`, or stops, then in a way that `E` allows.

## Main results

* `Ends.bind` — the rule of sequential composition.
* `Ends.mono` — the rule of consequence.
-/

namespace Megatron.Lib

universe u v

/-- Operations on `σ` that can stop with an `ε`. -/
abbrev Stateful (ε σ : Type u) := ExceptT ε (StateM σ)

namespace Stateful

variable {ε σ α β : Type u} {p : Stateful ε σ α} {f : α → Stateful ε σ β} {s t : σ}

theorem bind_ok {x : α} (h : p s = (.ok x, t)) : (p >>= f) s = f x t := by
  show (ExceptT.bindCont f (p s).1) (p s).2 = _
  rw [h]
  rfl

theorem bind_error {e : ε} (h : p s = (.error e, t)) : (p >>= f) s = (.error e, t) := by
  show (ExceptT.bindCont f (p s).1) (p s).2 = _
  rw [h]
  rfl

/-- What the operation leaves. -/
def Ends (I : σ → Prop) (E : ε → Prop) (p : Stateful ε σ α) (s : σ) (Q : α → σ → Prop) : Prop :=
  ∃ r s', p s = (r, s') ∧ I s' ∧
    match r with
    | .ok x => Q x s'
    | .error e => E e

variable {I : σ → Prop} {E : ε → Prop} {Q Q' : α → σ → Prop} {R : β → σ → Prop}

theorem ends_pure {x : α} (hI : I s) (hQ : Q x s) : Ends I E (pure x : Stateful ε σ α) s Q :=
  ⟨.ok x, s, rfl, hI, hQ⟩

theorem ends_throw {e : ε} (hI : I s) (hE : E e) : Ends I E (throw e : Stateful ε σ α) s Q :=
  ⟨.error e, s, rfl, hI, hE⟩

theorem ends_ok {x : α} (h : p s = (.ok x, t)) (hI : I t) (hQ : Q x t) : Ends I E p s Q :=
  ⟨.ok x, t, h, hI, hQ⟩

theorem ends_error {e : ε} (h : p s = (.error e, t)) (hI : I t) (hE : E e) : Ends I E p s Q :=
  ⟨.error e, t, h, hI, hE⟩

/-- Where two operations do the same. -/
theorem Ends.of_eq {q : Stateful ε σ α} (hSame : p s = q t) (h : Ends I E q t Q) :
    Ends I E p s Q := by
  rw [Ends, hSame]
  exact h

/-- **One after the other.** -/
theorem Ends.bind (hp : Ends I E p s Q) (hf : ∀ x s', I s' → Q x s' → Ends I E (f x) s' R) :
    Ends I E (p >>= f) s R := by
  obtain ⟨r, s', hRun, hI, hr⟩ := hp
  cases r with
  | error e => exact ⟨.error e, s', bind_error hRun, hI, hr⟩
  | ok x =>
      obtain ⟨r₂, s₂, hRun₂, hI₂, hr₂⟩ := hf x s' hI hr
      exact ⟨r₂, s₂, (bind_ok hRun).trans hRun₂, hI₂, hr₂⟩

theorem Ends.mono (hp : Ends I E p s Q) (h : ∀ x s', I s' → Q x s' → Q' x s') :
    Ends I E p s Q' := by
  obtain ⟨r, s', hRun, hI, hr⟩ := hp
  cases r with
  | error e => exact ⟨.error e, s', hRun, hI, hr⟩
  | ok x => exact ⟨.ok x, s', hRun, hI, h x s' hI hr⟩

end Stateful

end Megatron.Lib
