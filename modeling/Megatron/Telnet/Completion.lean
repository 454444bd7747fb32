import Megatron.Telnet.Service

/-!
# Completion

`getAutoAppendString` compares each candidate with the first only.  The least
of these lengths is that of the longest common prefix of all of them.

## Main results

* `prefix_iff_le_strmax` — how far a prefix of the one string is a prefix of the other.
* `longestCommon_take_maxOf` — what the minimum over the candidates is.
* `completes` — the typed text and what is appended are the longest common
  prefix of the commands that start with the text.
-/

namespace Megatron.Telnet

open Megatron.Corelib (Bytes)

/-- `p` is a prefix of all strings of `l`, and of those the longest. -/
def LongestCommon (l : List Bytes) (p : Bytes) : Prop :=
  (∀ x ∈ l, p <+: x) ∧ ∀ q, (∀ x ∈ l, q <+: x) → q <+: p

/-- `vm`, the commands that start with the text. -/
def candidates (v : List Bytes) (templ : Bytes) : List Bytes := v.filter (templ.isPrefixOf ·)

/-- `max`, after the loop over the candidates. -/
def maxOf (w : Bytes) (vm : List Bytes) : Nat :=
  vm.foldl (fun max x => if strmax w x < max then strmax w x else max) w.length

/-- The candidates are compared with the first, and `substr` cuts out of it. -/
theorem getAutoAppendString_of_candidates {v : List Bytes} {templ w : Bytes} {vm : List Bytes}
    (h : candidates v templ = w :: vm) :
    getAutoAppendString v templ =
      (w.drop templ.length).take (maxOf w (w :: vm) - templ.length) := by
  rw [candidates] at h
  rw [getAutoAppendString, h]
  rfl

theorem getAutoAppendString_of_none {v : List Bytes} {templ : Bytes}
    (h : candidates v templ = []) : getAutoAppendString v templ = [] := by
  rw [candidates] at h
  rw [getAutoAppendString, h]

theorem mem_candidates {v : List Bytes} {templ x : Bytes} :
    x ∈ candidates v templ ↔ x ∈ v ∧ templ <+: x := by
  rw [candidates, List.mem_filter, List.isPrefixOf_iff_prefix]

/-! ## The common prefix -/

/-- A prefix of `a` is one of `b` as far as the two agree. -/
theorem prefix_iff_le_strmax {q a : Bytes} (h : q <+: a) (b : Bytes) :
    q <+: b ↔ q.length ≤ strmax a b := by
  induction q generalizing a b with
  | nil => simp
  | cons c q ih =>
      cases a with
      | nil => exact absurd h (by simp)
      | cons a as =>
          obtain ⟨rfl, hTail⟩ := List.cons_prefix_cons.1 h
          cases b with
          | nil => simp [strmax]
          | cons b bs =>
              rw [List.cons_prefix_cons, ih hTail, strmax]
              by_cases hSame : c = b
              · simp [hSame]
              · simp [hSame]

theorem le_foldl_iff (w : Bytes) (vm : List Bytes) (n : Nat) :
    ∀ max, n ≤ vm.foldl (fun max x => if strmax w x < max then strmax w x else max) max ↔
      n ≤ max ∧ ∀ x ∈ vm, n ≤ strmax w x := by
  induction vm with
  | nil => simp
  | cons x vm ih =>
      intro max
      have hMin : n ≤ (if strmax w x < max then strmax w x else max) ↔ n ≤ max ∧ n ≤ strmax w x := by
        split <;> omega
      rw [List.foldl_cons, ih, hMin, List.forall_mem_cons, and_assoc]

theorem le_maxOf_iff (w : Bytes) (vm : List Bytes) (n : Nat) :
    n ≤ maxOf w vm ↔ n ≤ w.length ∧ ∀ x ∈ vm, n ≤ strmax w x := le_foldl_iff w vm n _

theorem maxOf_le (w : Bytes) (vm : List Bytes) : maxOf w vm ≤ w.length :=
  ((le_maxOf_iff w vm _).1 le_rfl).1

/-- The common prefixes are the prefixes of the first that are short enough. -/
theorem forall_prefix_iff {q w : Bytes} (h : q <+: w) (vm : List Bytes) :
    (∀ x ∈ vm, q <+: x) ↔ q.length ≤ maxOf w vm := by
  rw [le_maxOf_iff, and_iff_right h.length_le]
  exact forall₂_congr fun x _ => prefix_iff_le_strmax h x

/-- **The minimum over the pairs with the first** is the length of the longest
prefix that all of them have. -/
theorem longestCommon_take_maxOf (w : Bytes) (vm : List Bytes) :
    LongestCommon (w :: vm) (w.take (maxOf w (w :: vm))) := by
  have hLength : (w.take (maxOf w (w :: vm))).length = maxOf w (w :: vm) :=
    List.length_take_of_le (maxOf_le w _)
  refine ⟨(forall_prefix_iff (List.take_prefix _ w) _).2 hLength.le, fun q hq => ?_⟩
  have hFirst : q <+: w := hq w List.mem_cons_self
  refine List.prefix_of_prefix_length_le hFirst (List.take_prefix _ w) ?_
  rw [hLength]
  exact (forall_prefix_iff hFirst _).1 hq

/-! ## What is appended -/

/-- The text is no longer than what the candidates have in common. -/
theorem length_le_maxOf {v : List Bytes} {templ w : Bytes} {vm : List Bytes}
    (h : candidates v templ = w :: vm) : templ.length ≤ maxOf w (w :: vm) := by
  have hAll : ∀ x ∈ w :: vm, templ <+: x := fun x hx => (mem_candidates.1 (h ▸ hx)).2
  exact (forall_prefix_iff (hAll w List.mem_cons_self) _).1 hAll

/-- The text and what is appended are cut out of the first candidate. -/
theorem append_getAutoAppendString {v : List Bytes} {templ w : Bytes} {vm : List Bytes}
    (h : candidates v templ = w :: vm) :
    templ ++ getAutoAppendString v templ = w.take (maxOf w (w :: vm)) := by
  have hLe := length_le_maxOf h
  have hPrefix : templ <+: w := (mem_candidates.1 (h ▸ List.mem_cons_self)).2
  obtain ⟨rest, rfl⟩ := hPrefix
  rw [getAutoAppendString_of_candidates h, List.drop_left, List.take_append, List.take_of_length_le hLe]

/-- **Completion**: the text with what is appended is the longest common prefix
of the commands that start with it, nothing is appended where there is none,
and the two numbers of `substr` are in the first candidate. -/
theorem completes (v : List Bytes) (templ : Bytes) :
    (∀ x, x ∈ candidates v templ ↔ x ∈ v ∧ templ <+: x) ∧
      (candidates v templ = [] → getAutoAppendString v templ = []) ∧
      (candidates v templ ≠ [] →
        LongestCommon (candidates v templ) (templ ++ getAutoAppendString v templ)) ∧
      ∀ w vm, candidates v templ = w :: vm →
        templ.length ≤ maxOf w (w :: vm) ∧ maxOf w (w :: vm) ≤ w.length := by
  refine ⟨fun x => mem_candidates, getAutoAppendString_of_none, fun h => ?_,
    fun w vm h => ⟨length_le_maxOf h, maxOf_le w _⟩⟩
  obtain ⟨w, vm, hFound⟩ := List.exists_cons_of_ne_nil h
  rw [append_getAutoAppendString hFound, hFound]
  exact longestCommon_take_maxOf w vm

example : getAutoAppendString [[115, 104, 111, 119], [115, 101, 116], [115, 104, 111, 112]]
    [115, 104] = [111] := by decide +kernel

end Megatron.Telnet
