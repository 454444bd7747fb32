import Mathlib.Logic.Function.Basic

/-!
# Labelled machines and their runs

A `Machine` is a transition system whose nondeterminism sits in the labels:
an action names everything the environment decides (which thread moves, what
a system call returns, which bytes arrive), so `apply` is an ordinary
function and a run is a list of actions.  Safety over every interleaving is
then one induction over that list, done here once.

`guarded` restricts a machine to the runs whose steps all meet a condition on
the state before the step.  `family` runs one copy of a machine for every
index, in any interleaving; `family_reachable` is the projection that turns a
fact about one copy into a fact about all of them.

## Main results

* `Reachable.invariant` — an invariant of the initial states and of every
  step holds in every reachable state; `Reachable.invariant_of_reachable` for
  one whose steps need another.
* `Reachable.of_guarded` — a guarded run is a run.
* `along_and_path_guarded_iff` — a condition on the steps that is met exactly
  along the runs in which a property of the states and one of the steps hold.
* `along_iff_path_guarded` — a condition on the steps that is met exactly along
  the runs in which a property holds.
* `path_guarded_or_left` — a run whose steps do not all meet a condition leaves
  for good what the condition keeps.
* `path_simulated` — where one machine matches the steps of another, showing the
  same, it matches the runs.
* `family_reachable` — every component of a reachable family is reachable.
-/

namespace Megatron.Lib

universe u v w u' v'

/-- A transition system with deterministic labelled actions. -/
structure Machine (σ : Type u) (α : Type v) where
  init : σ → Prop
  enabled : σ → α → Prop
  apply : σ → α → σ

namespace Machine

variable {σ : Type u} {α : Type v}

/-! ## Runs -/

/-- The state a list of actions leads to. -/
def exec (m : Machine σ α) : σ → List α → σ
  | s, [] => s
  | s, a :: acts => m.exec (m.apply s a) acts

/-- Every action of the list is enabled in the state it is taken in. -/
def Path (m : Machine σ α) : σ → List α → Prop
  | _, [] => True
  | s, a :: acts => m.enabled s a ∧ m.Path (m.apply s a) acts

/-- `s` is the end of a run from an initial state. -/
def Reachable (m : Machine σ α) (s : σ) : Prop :=
  ∃ s₀ acts, m.init s₀ ∧ m.Path s₀ acts ∧ m.exec s₀ acts = s

@[simp] theorem exec_nil (m : Machine σ α) (s : σ) : m.exec s [] = s := rfl

@[simp] theorem exec_cons (m : Machine σ α) (s : σ) (a : α) (acts : List α) :
    m.exec s (a :: acts) = m.exec (m.apply s a) acts := rfl

@[simp] theorem path_nil (m : Machine σ α) (s : σ) : m.Path s [] := trivial

@[simp] theorem path_cons (m : Machine σ α) (s : σ) (a : α) (acts : List α) :
    m.Path s (a :: acts) ↔ m.enabled s a ∧ m.Path (m.apply s a) acts := Iff.rfl

theorem exec_append (m : Machine σ α) (s : σ) (xs ys : List α) :
    m.exec s (xs ++ ys) = m.exec (m.exec s xs) ys := by
  induction xs generalizing s with
  | nil => rfl
  | cons a xs ih => exact ih (m.apply s a)

theorem path_append (m : Machine σ α) (s : σ) (xs ys : List α) :
    m.Path s (xs ++ ys) ↔ m.Path s xs ∧ m.Path (m.exec s xs) ys := by
  induction xs generalizing s with
  | nil => simp
  | cons a xs ih => simp [ih (m.apply s a), and_assoc]

/-- Runs over concrete inputs are checked by evaluation. -/
instance decidablePath (m : Machine σ α) [h : ∀ s a, Decidable (m.enabled s a)] :
    ∀ (s : σ) (acts : List α), Decidable (m.Path s acts)
  | _, [] => .isTrue trivial
  | s, a :: acts =>
      @instDecidableAnd _ _ (h s a) (decidablePath m (m.apply s a) acts)

/-! ## Reachable states -/

theorem Reachable.init {m : Machine σ α} {s : σ} (h : m.init s) : m.Reachable s :=
  ⟨s, [], h, trivial, rfl⟩

theorem Reachable.step {m : Machine σ α} {s : σ} (h : m.Reachable s) {a : α}
    (hEn : m.enabled s a) : m.Reachable (m.apply s a) := by
  obtain ⟨s₀, acts, h0, hPath, rfl⟩ := h
  refine ⟨s₀, acts ++ [a], h0, ?_, ?_⟩
  · exact (path_append m s₀ acts [a]).2 ⟨hPath, hEn, trivial⟩
  · exact exec_append m s₀ acts [a]

theorem Reachable.path {m : Machine σ α} {s : σ} (h : m.Reachable s)
    {acts : List α} (hPath : m.Path s acts) : m.Reachable (m.exec s acts) := by
  obtain ⟨s₀, xs, h0, hXs, rfl⟩ := h
  exact ⟨s₀, xs ++ acts, h0, (path_append m s₀ xs acts).2 ⟨hXs, hPath⟩,
    exec_append m s₀ xs acts⟩

/-- What one step preserves, a whole run preserves. -/
theorem path_invariant (m : Machine σ α) {I : σ → Prop}
    (hStep : ∀ s a, I s → m.enabled s a → I (m.apply s a)) :
    ∀ (acts : List α) (s : σ), I s → m.Path s acts → I (m.exec s acts) := by
  intro acts
  induction acts with
  | nil => intro s hs _; exact hs
  | cons a acts ih =>
      intro s hs hPath
      exact ih (m.apply s a) (hStep s a hs hPath.1) hPath.2

/--
**Invariant rule.** A property of the initial states that every step
preserves holds in every reachable state.
-/
theorem Reachable.invariant {m : Machine σ α} {I : σ → Prop}
    (hInit : ∀ s, m.init s → I s)
    (hStep : ∀ s a, I s → m.enabled s a → I (m.apply s a))
    {s : σ} (h : m.Reachable s) : I s := by
  obtain ⟨s₀, acts, h0, hPath, rfl⟩ := h
  exact path_invariant m hStep acts s₀ (hInit s₀ h0) hPath

/-- The rule where a step needs what holds of every reachable state. -/
theorem Reachable.invariant_of_reachable {m : Machine σ α} {I : σ → Prop}
    (hInit : ∀ s, m.init s → I s)
    (hStep : ∀ s a, m.Reachable s → I s → m.enabled s a → I (m.apply s a))
    {s : σ} (h : m.Reachable s) : I s := by
  have hBoth : m.Reachable s ∧ I s := Reachable.invariant (I := fun s => m.Reachable s ∧ I s)
    (fun s h0 => ⟨Reachable.init h0, hInit s h0⟩)
    (fun s a hs hEn => ⟨hs.1.step hEn, hStep s a hs.1 hs.2 hEn⟩) h
  exact hBoth.2

/-! ## Runs whose steps meet a condition -/

/-- The machine restricted to steps whose state before meets `g`. -/
def guarded (m : Machine σ α) (g : σ → α → Prop) : Machine σ α where
  init := m.init
  enabled s a := m.enabled s a ∧ g s a
  apply := m.apply

@[simp] theorem guarded_apply (m : Machine σ α) (g : σ → α → Prop) :
    (m.guarded g).apply = m.apply := rfl

@[simp] theorem guarded_init (m : Machine σ α) (g : σ → α → Prop) :
    (m.guarded g).init = m.init := rfl

@[simp] theorem guarded_enabled (m : Machine σ α) (g : σ → α → Prop) (s : σ) (a : α) :
    (m.guarded g).enabled s a ↔ m.enabled s a ∧ g s a := Iff.rfl

theorem exec_guarded (m : Machine σ α) (g : σ → α → Prop) (s : σ) (acts : List α) :
    (m.guarded g).exec s acts = m.exec s acts := by
  induction acts generalizing s with
  | nil => rfl
  | cons a acts ih => exact ih (m.apply s a)

instance decidableGuarded (m : Machine σ α) (g : σ → α → Prop)
    [h : ∀ s a, Decidable (m.enabled s a)] [h' : ∀ s a, Decidable (g s a)] (s : σ) (a : α) :
    Decidable ((m.guarded g).enabled s a) :=
  @instDecidableAnd _ _ (h s a) (h' s a)

theorem Path.of_guarded {m : Machine σ α} {g : σ → α → Prop} {s : σ} {acts : List α}
    (h : (m.guarded g).Path s acts) : m.Path s acts := by
  induction acts generalizing s with
  | nil => trivial
  | cons a acts ih => exact ⟨h.1.1, ih h.2⟩

/-- A run under a condition is one under every weaker condition. -/
theorem Path.imp {m : Machine σ α} {g g' : σ → α → Prop} {s : σ} {acts : List α}
    (h : (m.guarded g).Path s acts) (hImp : ∀ s a, m.enabled s a → g s a → g' s a) :
    (m.guarded g').Path s acts := by
  induction acts generalizing s with
  | nil => trivial
  | cons a acts ih => exact ⟨⟨h.1.1, hImp s a h.1.1 h.1.2⟩, ih h.2⟩

/-- Dropping the condition keeps the run. -/
theorem Reachable.of_guarded {m : Machine σ α} {g : σ → α → Prop} {s : σ}
    (h : (m.guarded g).Reachable s) : m.Reachable s :=
  Reachable.invariant (m := m.guarded g) (I := m.Reachable)
    (fun _ h0 => Reachable.init h0) (fun _ _ hs hEn => hs.step hEn.1) h

/-- A run of the machine is a run under a condition that every step meets. -/
theorem Reachable.to_guarded {m : Machine σ α} {g : σ → α → Prop} {s : σ}
    (h : m.Reachable s) (hAll : ∀ s a, m.enabled s a → g s a) : (m.guarded g).Reachable s :=
  Reachable.invariant (m := m) (I := (m.guarded g).Reachable)
    (fun _ h0 => Reachable.init h0)
    (fun s a hs hEn => Reachable.step (m := m.guarded g) hs ⟨hEn, hAll s a hEn⟩) h

/-- Where every action is enabled, any list of them is a run. -/
theorem path_of_enabled {m : Machine σ α} (hAll : ∀ s a, m.enabled s a) :
    ∀ (acts : List α) (s : σ), m.Path s acts := by
  intro acts
  induction acts with
  | nil => exact fun s => trivial
  | cons a acts ih => exact fun s => ⟨hAll s a, ih _⟩

/-- `P` holds in every state of the run. -/
def Along (m : Machine σ α) (P : σ → Prop) : σ → List α → Prop
  | s, [] => P s
  | s, a :: acts => P s ∧ m.Along P (m.apply s a) acts

/-- **Conditions that are enough.** Where the steps that meet `g` keep `P`, it holds
in every state of a run whose steps all meet `g`. -/
theorem along_of_path_guarded {m : Machine σ α} {P : σ → Prop} {g : σ → α → Prop}
    (hStep : ∀ s a, P s → m.enabled s a → g s a → P (m.apply s a)) :
    ∀ (acts : List α) (s : σ), P s → (m.guarded g).Path s acts → m.Along P s acts := by
  intro acts
  induction acts with
  | nil => exact fun s hs _ => hs
  | cons a acts ih => exact fun s hs hPath =>
      ⟨hs, ih _ (hStep s a hs hPath.1.1 hPath.1.2) hPath.2⟩

/--
**Exact conditions with steps.** Where a step from a state with `P` leads to a
state with `P` and meets `Q` if and only if it meets `g`, the runs along which
`P` holds and whose steps meet `Q` are the runs whose steps all meet `g`. `J` is
what every run keeps anyway.
-/
theorem along_and_path_guarded_iff {m : Machine σ α} {P J : σ → Prop} {Q g : σ → α → Prop}
    (hInv : ∀ s a, J s → m.enabled s a → J (m.apply s a))
    (hStep : ∀ s a, J s → P s → m.enabled s a → (P (m.apply s a) ∧ Q s a ↔ g s a)) :
    ∀ (acts : List α) (s : σ), J s → P s → m.Path s acts →
      (m.Along P s acts ∧ (m.guarded Q).Path s acts ↔ (m.guarded g).Path s acts) := by
  intro acts
  induction acts with
  | nil => exact fun s _ hP _ => ⟨fun _ => trivial, fun _ => ⟨hP, trivial⟩⟩
  | cons a acts ih =>
      intro s hs hP hPath
      have hNext := hInv s a hs hPath.1
      constructor
      · rintro ⟨hAlong, hQ⟩
        have hP' : P (m.apply s a) := by
          cases acts with
          | nil => exact hAlong.2
          | cons b acts => exact hAlong.2.1
        exact ⟨⟨hPath.1, (hStep s a hs hP hPath.1).1 ⟨hP', hQ.1.2⟩⟩,
          (ih _ hNext hP' hPath.2).1 ⟨hAlong.2, hQ.2⟩⟩
      · intro hGuarded
        obtain ⟨hP', hQ⟩ := (hStep s a hs hP hPath.1).2 hGuarded.1.2
        obtain ⟨hAlong, hRest⟩ := (ih _ hNext hP' hPath.2).2 hGuarded.2
        exact ⟨⟨hP, hAlong⟩, ⟨hPath.1, hQ⟩, hRest⟩

/-- A condition that every step meets is no condition on a run. -/
theorem path_guarded_iff {m : Machine σ α} {g : σ → α → Prop} (hAll : ∀ s a, g s a) :
    ∀ (acts : List α) (s : σ), (m.guarded g).Path s acts ↔ m.Path s acts := by
  intro acts
  induction acts with
  | nil => exact fun s => Iff.rfl
  | cons a acts ih =>
      intro s
      exact and_congr (and_iff_left (hAll s a)) (ih _)

/--
**Exact conditions.** Where a step from a state with `P` leads to a state with
`P` if and only if it meets `g`, the runs along which `P` holds are the runs
whose steps all meet `g`. `J` is what every run keeps anyway.
-/
theorem along_iff_path_guarded {m : Machine σ α} {P J : σ → Prop} {g : σ → α → Prop}
    (hInv : ∀ s a, J s → m.enabled s a → J (m.apply s a))
    (hStep : ∀ s a, J s → P s → m.enabled s a → (P (m.apply s a) ↔ g s a)) :
    ∀ (acts : List α) (s : σ), J s → P s → m.Path s acts →
      (m.Along P s acts ↔ (m.guarded g).Path s acts) := by
  intro acts s hs hP hPath
  have hSteps : (m.guarded fun _ _ => True).Path s acts :=
    (path_guarded_iff (fun _ _ => trivial) acts s).2 hPath
  have hBoth := along_and_path_guarded_iff (Q := fun _ _ => True) hInv
    (fun s a hs hP hEn => (and_iff_left trivial).trans (hStep s a hs hP hEn)) acts s hs hP hPath
  exact (and_iff_left hSteps).symm.trans hBoth

/--
**Leaving for good.** Where the steps that meet `g` keep `I`, and the first that
does not leads to `B`, which every step keeps, a run ends in `I` or in `B`
according to whether all its steps meet `g`.
-/
theorem path_guarded_or_left {m : Machine σ α} {I B : σ → Prop} {g : σ → α → Prop}
    (hKeep : ∀ s a, I s → m.enabled s a → g s a → I (m.apply s a))
    (hLeave : ∀ s a, I s → m.enabled s a → ¬ g s a → B (m.apply s a))
    (hStay : ∀ s a, B s → m.enabled s a → B (m.apply s a)) :
    ∀ (acts : List α) (s : σ), I s → m.Path s acts →
      (m.guarded g).Path s acts ∧ I (m.exec s acts) ∨
        ¬ (m.guarded g).Path s acts ∧ B (m.exec s acts) := by
  intro acts
  induction acts with
  | nil => exact fun s hs _ => Or.inl ⟨trivial, hs⟩
  | cons a acts ih =>
      intro s hs hPath
      by_cases hGuard : g s a
      · rcases ih _ (hKeep s a hs hPath.1 hGuard) hPath.2 with ⟨hRest, hEnd⟩ | ⟨hRest, hEnd⟩
        · exact Or.inl ⟨⟨⟨hPath.1, hGuard⟩, hRest⟩, hEnd⟩
        · exact Or.inr ⟨fun h => hRest h.2, hEnd⟩
      · refine Or.inr ⟨fun h => hGuard h.1.2, ?_⟩
        exact path_invariant m hStay acts _ (hLeave s a hs hPath.1 hGuard) hPath.2

/-! ## Simulation -/

section Simulation

variable {σ' : Type u'} {α' : Type v'} {ο : Type w}

/-- What the steps of a run show, one after the other. -/
def observe (m : Machine σ α) (f : σ → α → List ο) : σ → List α → List ο
  | _, [] => []
  | s, a :: acts => f s a ++ m.observe f (m.apply s a) acts

theorem observe_append (m : Machine σ α) (f : σ → α → List ο) (s : σ) (xs ys : List α) :
    m.observe f s (xs ++ ys) = m.observe f s xs ++ m.observe f (m.exec s xs) ys := by
  induction xs generalizing s with
  | nil => rfl
  | cons a xs ih =>
      rw [List.cons_append, observe, observe, ih, List.append_assoc]
      rfl

theorem observe_guarded (m : Machine σ α) (g : σ → α → Prop) (f : σ → α → List ο) (s : σ)
    (acts : List α) : (m.guarded g).observe f s acts = m.observe f s acts := by
  induction acts generalizing s with
  | nil => rfl
  | cons a acts ih => exact congrArg (f s a ++ ·) (ih (m.apply s a))

/--
**Simulation rule.** Where every step of `m` from related states is matched by
steps of `n` that show the same and lead to related states, every run of `m` is
matched by a run of `n` that shows the same.
-/
theorem path_simulated {m : Machine σ α} {n : Machine σ' α'} {R : σ → σ' → Prop}
    {f : σ → α → List ο} {g : σ' → α' → List ο}
    (hStep : ∀ s s' a, R s s' → m.enabled s a → ∃ acts', n.Path s' acts' ∧
      R (m.apply s a) (n.exec s' acts') ∧ n.observe g s' acts' = f s a) :
    ∀ (acts : List α) (s : σ) (s' : σ'), R s s' → m.Path s acts → ∃ acts', n.Path s' acts' ∧
      R (m.exec s acts) (n.exec s' acts') ∧ n.observe g s' acts' = m.observe f s acts := by
  intro acts
  induction acts with
  | nil => exact fun s s' hR _ => ⟨[], trivial, hR, rfl⟩
  | cons a acts ih =>
      intro s s' hR hPath
      obtain ⟨first, hFirst, hNext, hShown⟩ := hStep s s' a hR hPath.1
      obtain ⟨rest, hRest, hEnd, hShownRest⟩ := ih _ _ hNext hPath.2
      refine ⟨first ++ rest, (path_append n s' first rest).2 ⟨hFirst, hRest⟩, ?_, ?_⟩
      · rw [exec_append]
        exact hEnd
      · rw [observe_append, hShown, hShownRest]
        rfl

end Simulation

/-! ## Families -/

section Family

variable {ι : Type w} [DecidableEq ι]

/-- One copy of `m` for every index, interleaved in any order. -/
def family (m : Machine σ α) : Machine (ι → σ) (ι × α) where
  init f := ∀ i, m.init (f i)
  enabled f a := m.enabled (f a.1) a.2
  apply f a := Function.update f a.1 (m.apply (f a.1) a.2)

/-- Every component of a reachable family state is reachable by itself. -/
theorem family_reachable {m : Machine σ α} {f : ι → σ}
    (h : (m.family (ι := ι)).Reachable f) (i : ι) : m.Reachable (f i) := by
  refine Reachable.invariant (m := m.family) (I := fun f => ∀ i, m.Reachable (f i))
    (fun f h0 i => Reachable.init (h0 i)) ?_ h i
  intro f a hf hEn j
  by_cases hj : j = a.1
  · subst hj
    simpa [Machine.family] using (hf a.1).step hEn
  · simpa [Machine.family, hj] using hf j

/-- A run of one component, all others standing still, is a run of the
family. -/
theorem reachable_family_update {m : Machine σ α} {f : ι → σ}
    (h : (m.family (ι := ι)).Reachable f) (i : ι) {acts : List α}
    (hPath : m.Path (f i) acts) :
    (m.family (ι := ι)).Reachable (Function.update f i (m.exec (f i) acts)) := by
  induction acts generalizing f with
  | nil => simpa using h
  | cons a acts ih =>
      have hNext := h.step (a := (i, a)) hPath.1
      have hRun := ih hNext (by simpa [Machine.family] using hPath.2)
      simpa [Machine.family] using hRun

end Family

end Machine

end Megatron.Lib
