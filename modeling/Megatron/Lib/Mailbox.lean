import Mathlib.Data.List.Basic
import Megatron.Lib.Machine

/-!
# Messages in flight

A system of parties that only react: every message in flight, when its turn
comes, is replaced by the messages its handling sends.  Which message has its
turn is the scheduler's choice, messages of other origin may arrive at any
moment, and the state of the parties may change between two turns for reasons
of its own.

Messages carry the number of the request they descend from.  Where the
handling of a message always leads to exactly one message (`Leads`, in every
state that meets a condition), the descendants of a request form a *journey*:
whatever the rest of the system does, exactly one of its stages is in flight.

## Main results

* `thread_exec` — after `k` turns of its own, a request is at stage `k` of its
  journey and nowhere else, in every run.
* `exec_alone` — with only its own turns it arrives.
-/

namespace Megatron.Lib

universe u v

/-- What the handling of a message does: the state after it, and the messages
it sends. -/
abbrev Handler (σ : Type u) (μ : Type v) := σ → μ → σ × List μ

/-- The state of the parties, and the messages in flight with the number of
their request. -/
structure Mailbox (σ : Type u) (μ : Type v) where
  state : σ
  inFlight : List (Nat × μ)

namespace Mailbox

variable {σ : Type u} {μ : Type v}

/-- What can happen next. -/
inductive Move (σ : Type u) (μ : Type v) where
  | turn (i : Nat)
  | change (s : σ)
  | arrive (t : Nat) (m : μ)

/-- The message at place `i` is replaced by what its handling sends. -/
def turn (h : Handler σ μ) (w : Mailbox σ μ) (i : Nat) : Mailbox σ μ :=
  match w.inFlight[i]? with
  | none => w
  | some (t, m) =>
      ⟨(h w.state m).1,
        w.inFlight.take i ++ (h w.state m).2.map (t, ·) ++ w.inFlight.drop (i + 1)⟩

/-- The system of a handler. -/
def machine (h : Handler σ μ) : Machine (Mailbox σ μ) (Move σ μ) where
  init _ := True
  enabled w a := match a with
    | .turn i => i < w.inFlight.length
    | _ => True
  apply w a := match a with
    | .turn i => w.turn h i
    | .change s => { w with state := s }
    | .arrive t m => { w with inFlight := w.inFlight ++ [(t, m)] }

/-- The messages in flight that descend from request `t`. -/
def thread (w : Mailbox σ μ) (t : Nat) : List μ :=
  w.inFlight.filterMap fun x => if x.1 = t then some x.2 else none

/-- The next move is a turn of request `t`. -/
def TurnOf (t : Nat) (w : Mailbox σ μ) : Move σ μ → Prop
  | .turn i => (w.inFlight[i]?).map Prod.fst = some t
  | _ => False

instance decidableTurnOf (t : Nat) (w : Mailbox σ μ) : ∀ a, Decidable (TurnOf t w a)
  | .turn i => inferInstanceAs (Decidable ((w.inFlight[i]?).map Prod.fst = some t))
  | .change _ => inferInstanceAs (Decidable False)
  | .arrive _ _ => inferInstanceAs (Decidable False)

/-- How many turns request `t` has in a run. -/
def turns (h : Handler σ μ) (t : Nat) : Mailbox σ μ → List (Move σ μ) → Nat
  | _, [] => 0
  | w, a :: acts =>
      (if TurnOf t w a then 1 else 0) + turns h t ((machine h).apply w a) acts

/-- The condition `I` holds, and nothing arrives under the number `t`. -/
def Undisturbed (I : σ → Prop) (t : Nat) (w : Mailbox σ μ) (a : Move σ μ) : Prop :=
  I w.state ∧ ∀ m, a ≠ .arrive t m

/-- Wherever `I` holds, handling `m` sends exactly `m'` and keeps `I`. -/
def Leads (h : Handler σ μ) (I : σ → Prop) (m m' : μ) : Prop :=
  ∀ s, I s → (h s m).2 = [m'] ∧ I (h s m).1

/-! ## One move -/

theorem filterMap_tag (t t' : Nat) (l : List μ) :
    (l.map (t', ·)).filterMap (fun x : Nat × μ => if x.1 = t then some x.2 else none) =
      if t' = t then l else [] := by
  induction l with
  | nil => simp
  | cons m l ih =>
      by_cases ht : t' = t
      · simp [ht] at ih ⊢
      · simp [ht] at ih ⊢

/-- A turn at place `i`, with the messages before and behind it. -/
theorem turn_at {h : Handler σ μ} {w : Mailbox σ μ} {i : Nat} (hi : i < w.inFlight.length) :
    ∃ front t m back, w.inFlight = front ++ (t, m) :: back ∧ w.inFlight[i]? = some (t, m) ∧
      w.turn h i = ⟨(h w.state m).1, front ++ (h w.state m).2.map (t, ·) ++ back⟩ := by
  have hGet : w.inFlight[i]? = some (w.inFlight[i].1, w.inFlight[i].2) := by
    rw [List.getElem?_eq_getElem hi]
  refine ⟨w.inFlight.take i, w.inFlight[i].1, w.inFlight[i].2, w.inFlight.drop (i + 1),
    ?_, hGet, ?_⟩
  · show w.inFlight = w.inFlight.take i ++ w.inFlight[i] :: w.inFlight.drop (i + 1)
    rw [← List.drop_eq_getElem_cons hi, List.take_append_drop]
  · rw [turn, hGet]

/-- A turn of the request takes it one stage on. -/
theorem thread_own {h : Handler σ μ} {I : σ → Prop} {t : Nat} {w : Mailbox σ μ} {m m' : μ}
    {a : Move σ μ} (hEn : (machine h).enabled w a) (hTurn : TurnOf t w a) (hI : I w.state)
    (hAt : w.thread t = [m]) (hLeads : Leads h I m m') :
    ((machine h).apply w a).thread t = [m'] := by
  cases a with
  | change s => exact absurd hTurn id
  | arrive t' m'' => exact absurd hTurn id
  | turn i =>
      obtain ⟨front, t', x, back, hFlight, hGet, hDo⟩ := turn_at (h := h) hEn
      have ht : t' = t := by simpa [TurnOf, hGet] using hTurn
      subst ht
      -- the message that has its turn is the only one of the request
      simp only [thread, hFlight, List.filterMap_append, List.filterMap_cons, if_true,
        List.append_eq_singleton_iff] at hAt
      obtain ⟨hFront, hx, hBack⟩ : _ ∧ x = m ∧ _ := by
        rcases hAt with ⟨hFront, hRest⟩ | ⟨-, hRest⟩
        · exact ⟨hFront, (List.cons.inj hRest).1, (List.cons.inj hRest).2⟩
        · cases hRest
      subst hx
      show (w.turn h i).thread t' = [m']
      rw [hDo, thread, List.filterMap_append, List.filterMap_append, filterMap_tag, if_pos rfl,
        hFront, hBack, (hLeads w.state hI).1]
      rfl

/-- Every other move leaves it where it is. -/
theorem thread_other {h : Handler σ μ} {t : Nat} {w : Mailbox σ μ} {a : Move σ μ}
    (hEn : (machine h).enabled w a) (hTurn : ¬ TurnOf t w a) (hArrive : ∀ m, a ≠ .arrive t m) :
    ((machine h).apply w a).thread t = w.thread t := by
  cases a with
  | change s => rfl
  | arrive t' m =>
      have ht : t' ≠ t := by
        rintro rfl
        exact hArrive m rfl
      simp [machine, thread, ht]
  | turn i =>
      obtain ⟨front, t', x, back, hFlight, hGet, hDo⟩ := turn_at (h := h) hEn
      have ht : t' ≠ t := by simpa [TurnOf, hGet] using hTurn
      show (w.turn h i).thread t = w.thread t
      rw [hDo, thread, thread, hFlight, List.filterMap_append, List.filterMap_append,
        filterMap_tag, if_neg ht, List.append_nil, List.filterMap_append,
        List.filterMap_cons_none (by simp [ht])]

/-! ## Runs -/

/--
**A request is where its own turns have taken it.** In every run that keeps
the condition and brings in nothing under the number of the request, whatever
else moves.
-/
theorem thread_exec {h : Handler σ μ} {I : σ → Prop} {t : Nat} {journey : List μ}
    (hJourney : journey.IsChain (Leads h I)) :
    ∀ (acts : List (Move σ μ)) (w : Mailbox σ μ) (k : Nat),
      w.thread t = (journey[k]?).toList →
      ((machine h).guarded (Undisturbed I t)).Path w acts →
      k + turns h t w acts < journey.length →
      ((machine h).exec w acts).thread t = (journey[k + turns h t w acts]?).toList := by
  intro acts
  induction acts with
  | nil => exact fun w k hAt _ _ => hAt
  | cons a acts ih =>
      intro w k hAt hPath hLen
      obtain ⟨⟨hEn, hI, hArrive⟩, hRest⟩ := hPath
      rw [turns] at hLen ⊢
      rw [Machine.exec_cons]
      by_cases hTurn : TurnOf t w a
      · rw [if_pos hTurn, ← Nat.add_assoc] at hLen ⊢
        have hNext : k + 1 < journey.length := by omega
        have hLeads := List.isChain_iff_getElem.1 hJourney k hNext
        rw [List.getElem?_eq_getElem (by omega)] at hAt
        have hThread := thread_own hEn hTurn hI hAt hLeads
        refine ih _ (k + 1) ?_ hRest hLen
        rw [hThread, List.getElem?_eq_getElem hNext]
        rfl
      · rw [if_neg hTurn, Nat.zero_add] at hLen ⊢
        exact ih _ k ((thread_other hEn hTurn hArrive).trans hAt) hRest hLen

/-- With only its own turns a request goes through its whole journey. -/
theorem exec_alone {h : Handler σ μ} {I : σ → Prop} {t : Nat} :
    ∀ (journey : List μ) (m : μ) (s : σ), (m :: journey).IsChain (Leads h I) → I s →
      ((machine h).guarded (Undisturbed I t)).Path ⟨s, [(t, m)]⟩
          (List.replicate journey.length (.turn 0)) ∧
        ∃ s', I s' ∧ (machine h).exec ⟨s, [(t, m)]⟩ (List.replicate journey.length (.turn 0)) =
          ⟨s', [(t, (m :: journey).getLast (by simp))]⟩ := by
  intro journey
  induction journey with
  | nil => exact fun m s _ hI => ⟨trivial, s, hI, rfl⟩
  | cons m' journey ih =>
      intro m s hChain hI
      obtain ⟨hLeads, hRest⟩ := List.isChain_cons_cons.1 hChain
      obtain ⟨hSent, hKept⟩ := hLeads s hI
      have hApply : (machine h).apply ⟨s, [(t, m)]⟩ (.turn 0) = ⟨(h s m).1, [(t, m')]⟩ := by
        simp [machine, turn, hSent]
      obtain ⟨hPath, s', hI', hExec⟩ := ih m' (h s m).1 hRest hKept
      refine ⟨⟨⟨Nat.zero_lt_one, hI, by simp⟩, ?_⟩, s', hI', ?_⟩
      · rw [Machine.guarded_apply, hApply]
        exact hPath
      · rw [List.length_cons, List.replicate_succ, Machine.exec_cons, hApply, hExec]
        rfl

end Mailbox

end Megatron.Lib
