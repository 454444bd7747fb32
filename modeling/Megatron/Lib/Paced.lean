import Mathlib.Data.List.Basic

/-!
# One message for each chunk

A receiver that looks for one message whenever a chunk arrives, and not for a
second one behind it, falls behind when several messages end in one chunk and
catches up when later chunks end none.  A message is given by the number of
symbols behind its end, so that it is complete when no more than these are
still to come.

## Main results

* `serve_eq_nil` — when everything is served at the end: for every number of
  chunks, no more messages than chunks end in that many last chunks.
-/

namespace Megatron.Lib.Paced

universe u

variable {β : Type u}

/-- The messages that are still to be served after the chunks: each chunk
serves the first of them if it is complete by then. -/
def serve : List Nat → List (List β) → List Nat
  | ends, [] => ends
  | [], _ :: chunks => serve [] chunks
  | e :: ends, _ :: chunks =>
      if chunks.flatten.length ≤ e then serve ends chunks else serve (e :: ends) chunks

/-- How many messages end in the last `n` symbols. -/
def endingIn (ends : List Nat) (n : Nat) : Nat := ends.countP (· < n)

@[simp] theorem serve_none (chunks : List (List β)) : serve [] chunks = [] := by
  induction chunks with
  | nil => rfl
  | cons chunk chunks ih => exact ih

theorem endingIn_le (ends : List Nat) (n : Nat) : endingIn ends n ≤ ends.length :=
  List.countP_le_length

/-- A message that is complete ends in none of the chunks to come. -/
theorem endingIn_cons_of_le {e n : Nat} (h : n ≤ e) (ends : List Nat) :
    endingIn (e :: ends) n = endingIn ends n :=
  List.countP_cons_of_neg (by simpa using h)

/-- Before the first message is complete all of them are to come. -/
theorem endingIn_all {e n : Nat} {ends : List Nat} (hSorted : (e :: ends).Pairwise (· ≥ ·))
    (h : e < n) : endingIn (e :: ends) n = (e :: ends).length := by
  refine List.countP_eq_length.2 fun x hx => ?_
  rcases List.mem_cons.1 hx with rfl | hx
  · simpa using h
  · have hLe : e ≥ x := List.rel_of_pairwise_cons hSorted hx
    simp only [decide_eq_true_eq]
    omega

theorem length_flatten_le {later chunks : List (List β)} (h : later <:+ chunks) :
    later.flatten.length ≤ chunks.flatten.length := by
  obtain ⟨front, rfl⟩ := h
  simp

/-- The receiver that has fallen behind by some messages already. -/
theorem serve_eq_nil_of_behind {ends : List Nat} (hSorted : ends.Pairwise (· ≥ ·))
    (chunks : List (List β)) :
    serve ends chunks = [] ↔ ends.length ≤ chunks.length ∧
      ∀ later, later <:+ chunks → endingIn ends later.flatten.length ≤ later.length := by
  induction chunks generalizing ends with
  | nil =>
      rw [serve, List.length_nil, Nat.le_zero, List.length_eq_zero_iff]
      constructor
      · rintro rfl
        exact ⟨rfl, fun later _ => Nat.zero_le _⟩
      · exact And.left
  | cons chunk chunks ih =>
      cases ends with
      | nil => simp [endingIn]
      | cons e ends =>
          rw [serve]
          split
          · rename_i hComplete
            rw [ih hSorted.of_cons]
            constructor
            · rintro ⟨hLen, hLater⟩
              refine ⟨Nat.succ_le_succ hLen, fun later hSuffix => ?_⟩
              rcases List.suffix_cons_iff.1 hSuffix with rfl | hSuffix
              · exact Nat.le_trans (endingIn_le _ _) (Nat.succ_le_succ hLen)
              · rw [endingIn_cons_of_le (Nat.le_trans (length_flatten_le hSuffix) hComplete)]
                exact hLater later hSuffix
            · rintro ⟨hLen, hLater⟩
              refine ⟨Nat.le_of_succ_le_succ hLen, fun later hSuffix => ?_⟩
              rw [← endingIn_cons_of_le (Nat.le_trans (length_flatten_le hSuffix) hComplete)]
              exact hLater later (hSuffix.trans (List.suffix_cons chunk chunks))
          · rename_i hComing
            rw [ih hSorted]
            constructor
            · rintro ⟨hLen, hLater⟩
              refine ⟨Nat.le_succ_of_le hLen, fun later hSuffix => ?_⟩
              rcases List.suffix_cons_iff.1 hSuffix with rfl | hSuffix
              · exact Nat.le_trans (endingIn_le _ _) (Nat.le_succ_of_le hLen)
              · exact hLater later hSuffix
            · rintro ⟨-, hLater⟩
              refine ⟨?_, fun later hSuffix =>
                hLater later (hSuffix.trans (List.suffix_cons chunk chunks))⟩
              rw [← endingIn_all hSorted (Nat.lt_of_not_le hComing)]
              exact hLater chunks (List.suffix_cons chunk chunks)

/--
**When the receiver keeps up.** With all messages in the chunks, everything is
served at the end exactly if no more messages than chunks end in any number of
last chunks.
-/
theorem serve_eq_nil {ends : List Nat} (hSorted : ends.Pairwise (· ≥ ·))
    {chunks : List (List β)} (hIn : ∀ e ∈ ends, e < chunks.flatten.length) :
    serve ends chunks = [] ↔
      ∀ later, later <:+ chunks → endingIn ends later.flatten.length ≤ later.length := by
  rw [serve_eq_nil_of_behind hSorted]
  refine ⟨And.right, fun h => ⟨?_, h⟩⟩
  have hAll : endingIn ends chunks.flatten.length = ends.length :=
    List.countP_eq_length.2 fun e he => by simpa using hIn e he
  rw [← hAll]
  exact h chunks (List.suffix_refl _)

end Megatron.Lib.Paced
