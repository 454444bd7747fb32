import Megatron.Http.Text
import Megatron.Lib.Loop

/-!
# `unescapeURL` over its memory

The loop of `CUtils::unescapeURL` counts the characters of `s` in an
`unsigned int`, looks the two characters behind a `'%'` up in `u_table` by a
signed `char`, and tests with `i + 2 > s.size()` that they are there.  A state
of it keeps, beside the counter and the text put out, the places of `s` that
were read and the indices that `u_table` was given.

## Main results

* `ends_unescape` — where it ends, the loop puts out `unescapeURL`.
* `sane_iff` — when the loop ends, stays in `s` and in `u_table`, and decodes.
-/

namespace Megatron.CUtils

open Megatron.Corelib (Bytes)
open Megatron.Http
open Megatron.Lib

/-! ## The loop -/

/-- `(int)s[i]`, where a `char` is signed. -/
def charIndex (c : UInt8) : Int := c.toInt8.toInt

structure Unescape where
  i : UInt32 := 0
  a : Bytes := []
  /-- The places that were read, `s.size()` for the NUL behind `s`. -/
  reads : List Nat := []
  /-- The indices that `u_table` was given. -/
  lookups : List Int := []

section Loop

variable (stray : UInt8 → UInt8) (s : Bytes)

def charAt (i : UInt32) : UInt8 := s.getD i.toNat 0

/-- What a `'%'` and the two characters behind it do to a state. -/
def Unescape.escape (x : Unescape) : Unescape where
  i := x.i + 2 + 1
  a := x.a ++ unescaped stray (charAt s (x.i + 1)) (charAt s (x.i + 2))
  reads := x.reads ++ [x.i.toNat, (x.i + 1).toNat, (x.i + 2).toNat]
  lookups := x.lookups ++ [charIndex (charAt s (x.i + 1)), charIndex (charAt s (x.i + 2))]

/-- What any other character does to it. -/
def Unescape.copy (x : Unescape) : Unescape where
  i := x.i + 1
  a := x.a ++ [if charAt s x.i = 43 then 32 else charAt s x.i]
  reads := x.reads ++ [x.i.toNat]
  lookups := x.lookups

/-- A round of the loop.  The counter wraps, also in `i + 2`, and is compared
with a `size_t`. -/
def unescapeStep (x : Unescape) : Unescape ⊕ Unescape :=
  if s.length ≤ x.i.toNat then .inl x
  else if charAt s x.i = 37 then
    if s.length < (x.i + 2).toNat then .inl { x with reads := x.reads ++ [x.i.toNat] }
    else .inr (x.escape stray s)
  else .inr (x.copy s)

end Loop

/-! ## What the loop meets -/

/-- What is behind every `'%'` that the loop comes to: two characters, or what is
left of `s`. -/
def escapes : Bytes → List Bytes
  | [] => []
  | c :: s =>
      if c = 37 then
        match s with
        | a :: b :: rest => [a, b] :: escapes rest
        | s => [s]
      else escapes s

/-- The value of a hexadecimal digit. -/
def hexValue? (c : UInt8) : Option Nat :=
  if 48 ≤ c ∧ c ≤ 57 then some (c.toNat - 48)
  else if 65 ≤ c ∧ c ≤ 70 then some (c.toNat - 55)
  else if 97 ≤ c ∧ c ≤ 102 then some (c.toNat - 87)
  else none

/-- What an escape denotes, nothing without two hexadecimal digits. -/
def denoted (a b : UInt8) : Bytes :=
  match hexValue? a, hexValue? b with
  | some x, some y => [UInt8.ofNat (x * 16 + y)]
  | _, _ => []

/-- The reference decoding. -/
def reference : Bytes → Bytes
  | [] => []
  | c :: s =>
      if c = 37 then
        match s with
        | a :: b :: rest => denoted a b ++ reference rest
        | _ => []
      else (if c = 43 then 32 else c) :: reference s

/-- In the gap of the digit tests, `':'` to `'@'`. -/
def InGap (c : UInt8) : Prop := 58 ≤ c ∧ c ≤ 64

/-- A character of which `u_table` has `'0'` to `'F'`, the gap included. -/
def TakenAsDigit (c : UInt8) : Prop := 48 ≤ c ∧ c ≤ 70 ∨ 97 ≤ c ∧ c ≤ 102

instance (c : UInt8) : Decidable (InGap c) := inferInstanceAs (Decidable (_ ∧ _))

instance (c : UInt8) : Decidable (TakenAsDigit c) := inferInstanceAs (Decidable (_ ∨ _))

/-- Two characters that the loop decodes as it should: they are ASCII, and
neither is in the gap where both are taken for digits. -/
def CleanPair (a b : UInt8) : Prop :=
  a < 128 ∧ b < 128 ∧ (TakenAsDigit a → TakenAsDigit b → ¬ InGap a ∧ ¬ InGap b)

section Equations

variable {c : UInt8} (s : Bytes)

theorem escapes_cons (hc : c ≠ 37) : escapes (c :: s) = escapes s := by
  rcases s with _ | ⟨a, _ | ⟨b, rest⟩⟩ <;> simp [escapes, hc]

theorem reference_cons (hc : c ≠ 37) :
    reference (c :: s) = (if c = 43 then 32 else c) :: reference s := by
  rcases s with _ | ⟨a, _ | ⟨b, rest⟩⟩ <;> simp [reference, hc]

theorem unescapeURL_cons (stray : UInt8 → UInt8) (hc : c ≠ 37) :
    unescapeURL stray (c :: s) = (if c = 43 then 32 else c) :: unescapeURL stray s := by
  rcases s with _ | ⟨a, _ | ⟨b, rest⟩⟩ <;> simp [unescapeURL, hc]

end Equations

/-! ## One pair of characters -/

/-- What `u_table` has for an ASCII character. -/
def tableValue (c : UInt8) : Nat := (uTable.getD c.toNat 0).toNat

/-- The entries of `u_table` for ASCII, with what the digit tests make of them. -/
theorem table_facts : ∀ c : UInt8, c < 128 →
    (TakenAsDigit c ↔ 48 ≤ tableValue c ∧ tableValue c ≤ 70) ∧
      hexValue? c =
        if TakenAsDigit c ∧ ¬ InGap c then some (hexDigit (tableValue c)) else none :=
  forall_byte (by decide +kernel)

section Pairs

variable {stray : UInt8 → UInt8} {a b c : UInt8}

theorem takenAsDigit_iff (hc : c < 128) :
    TakenAsDigit c ↔ 48 ≤ tableValue c ∧ tableValue c ≤ 70 :=
  (table_facts c hc).1

theorem hexValue?_eq (hc : c < 128) :
    hexValue? c = if TakenAsDigit c ∧ ¬ InGap c then some (hexDigit (tableValue c)) else none :=
  (table_facts c hc).2

theorem uTableAt_eq (hc : c < 128) : uTableAt stray c = tableValue c := by
  have hAscii : c < 0x80 := hc
  rw [uTableAt, if_pos hAscii, tableValue]

theorem unescaped_eq (ha : a < 128) (hb : b < 128) :
    unescaped stray a b =
      if TakenAsDigit a ∧ TakenAsDigit b then
        [UInt8.ofNat (hexDigit (tableValue a) * 16 + hexDigit (tableValue b))]
      else [] := by
  unfold unescaped
  rw [uTableAt_eq ha, uTableAt_eq hb,
    if_congr (and_congr (takenAsDigit_iff ha) (takenAsDigit_iff hb)) rfl rfl]
  dsimp only
  split_ifs <;> first | rfl | omega

theorem denoted_eq (ha : a < 128) (hb : b < 128) :
    denoted a b =
      if (TakenAsDigit a ∧ ¬ InGap a) ∧ (TakenAsDigit b ∧ ¬ InGap b) then
        [UInt8.ofNat (hexDigit (tableValue a) * 16 + hexDigit (tableValue b))]
      else [] := by
  unfold denoted
  rw [hexValue?_eq ha, hexValue?_eq hb]
  by_cases hA : TakenAsDigit a ∧ ¬ InGap a <;> by_cases hB : TakenAsDigit b ∧ ¬ InGap b <;>
    simp [hA, hB]

theorem unescaped_of_clean (stray : UInt8 → UInt8) (h : CleanPair a b) :
    unescaped stray a b = denoted a b := by
  obtain ⟨ha, hb, hGap⟩ := h
  rw [unescaped_eq ha hb, denoted_eq ha hb]
  by_cases hBoth : TakenAsDigit a ∧ TakenAsDigit b
  · have hFree := hGap hBoth.1 hBoth.2
    rw [if_pos hBoth, if_pos ⟨⟨hBoth.1, hFree.1⟩, hBoth.2, hFree.2⟩]
  · rw [if_neg hBoth, if_neg fun h => hBoth ⟨h.1.1, h.2.1⟩]

/-- A pair in ASCII that is not clean gives a byte and denotes none. -/
theorem unescaped_of_not_clean (stray : UInt8 → UInt8) (ha : a < 128) (hb : b < 128)
    (h : ¬ CleanPair a b) :
    (unescaped stray a b).length = 1 ∧ denoted a b = [] := by
  have hBoth : TakenAsDigit a ∧ TakenAsDigit b := by
    by_contra hNot
    exact h ⟨ha, hb, fun hA hB => absurd ⟨hA, hB⟩ hNot⟩
  have hGap : ¬ ((TakenAsDigit a ∧ ¬ InGap a) ∧ (TakenAsDigit b ∧ ¬ InGap b)) :=
    fun hFree => h ⟨ha, hb, fun _ _ => ⟨hFree.1.2, hFree.2.2⟩⟩
  rw [unescaped_eq ha hb, denoted_eq ha hb, if_pos hBoth, if_neg hGap]
  exact ⟨rfl, rfl⟩

end Pairs

/-! ## Rounds -/

/-- What `u_table` is given for an escape: its two characters, the NUL for the
second where `s` ends. -/
def lookupsOf (e : Bytes) : List Int :=
  if e = [] then [] else ((e ++ [0]).take 2).map charIndex

section Rounds

variable {stray : UInt8 → UInt8} {s p t : Bytes} {x : Unescape} {c : UInt8}

theorem charAt_append (hAt : x.i.toNat = p.length) : charAt (p ++ c :: t) x.i = c := by
  simp [charAt, hAt]

theorem toNat_add {i : UInt32} {n k : Nat} (hi : i.toNat = n) (hk : n + k < 2 ^ 32) :
    (i + UInt32.ofNat k).toNat = n + k := by
  rw [UInt32.toNat_add, UInt32.toNat_ofNat', hi]
  omega

theorem step_end (hAt : x.i.toNat = p.length) : unescapeStep stray p x = .inl x := by
  rw [unescapeStep, if_pos hAt.ge]

theorem step_copy (hAt : x.i.toNat = p.length) (hc : c ≠ 37) :
    unescapeStep stray (p ++ c :: t) x = .inr (x.copy (p ++ c :: t)) := by
  rw [unescapeStep, if_neg (by simp [hAt]), charAt_append hAt, if_neg hc]

/-- A `'%'` with nothing behind it ends the loop. -/
theorem step_bare (hAt : x.i.toNat = p.length) (hFits : p.length + 2 < 2 ^ 32) :
    unescapeStep stray (p ++ [37]) x = .inl { x with reads := x.reads ++ [x.i.toNat] } := by
  have hNext : (x.i + 2).toNat = p.length + 2 := toNat_add hAt hFits
  rw [unescapeStep, if_neg (by simp [hAt]), charAt_append hAt, if_pos rfl, if_pos (by simp [hNext])]

theorem step_escape (stray : UInt8 → UInt8) (hAt : x.i.toNat = p.length)
    (hFits : (x.i + 2).toNat ≤ p.length + 1 + t.length) :
    unescapeStep stray (p ++ 37 :: t) x = .inr (x.escape stray (p ++ 37 :: t)) := by
  have hLength : (p ++ 37 :: t).length = p.length + 1 + t.length := by simp; omega
  rw [unescapeStep, if_neg (by simp [hAt]), charAt_append hAt, if_pos rfl, if_neg (by omega)]

/-- The places that were read stay read. -/
theorem reads_of_ends {r : Unescape} (h : Loop.Ends (unescapeStep stray s) x r) {j : Nat}
    (hj : j ∈ x.reads) : j ∈ r.reads := by
  refine h.invariant (P := fun x => j ∈ x.reads) (Q := fun r => j ∈ r.reads) hj ?_ ?_
  · intro y y' hy hStep
    unfold unescapeStep at hStep
    split_ifs at hStep <;> cases hStep
    · exact List.mem_append_left _ hy
    · exact List.mem_append_left _ hy
  · intro y r hy hStep
    unfold unescapeStep at hStep
    split_ifs at hStep <;> cases hStep
    · exact hy
    · exact List.mem_append_left _ hy

/-- A text of `2 ^ 32` bytes or more is never at its end. -/
theorem not_ends_of_long (hLong : 2 ^ 32 ≤ s.length) (r : Unescape) :
    ¬ Loop.Ends (unescapeStep stray s) x r := by
  refine Loop.not_ends_of_round (P := fun _ => True) (fun y _ => ?_) trivial
  have hHere := y.i.toNat_lt
  have hNext := (y.i + 2).toNat_lt
  unfold unescapeStep
  split_ifs
  · omega
  · omega
  · exact ⟨_, rfl, trivial⟩
  · exact ⟨_, rfl, trivial⟩

/-! ## Runs -/

end Rounds

/-! ## Runs -/

/-- What a run does that comes to `rest`: it puts out `unescapeURL` of it, and
reads the NUL only for an escape of one character. -/
structure Unescaped (stray : UInt8 → UInt8) (s rest : Bytes) (x r : Unescape) : Prop where
  ends : Loop.Ends (unescapeStep stray s) x r
  a : r.a = x.a ++ unescapeURL stray rest
  lookups : r.lookups = x.lookups ++ (escapes rest).flatMap lookupsOf
  reads : ∀ j ∈ r.reads, j ∈ x.reads ∨ j < s.length ∨
    j = s.length ∧ ∃ e ∈ escapes rest, e.length = 1

section Runs

variable {stray : UInt8 → UInt8} {p rest : Bytes} {x r : Unescape}

theorem unescaped_end (hAt : x.i.toNat = p.length) : Unescaped stray p [] x x where
  ends := (Loop.ends_inl (step_end hAt)).2 rfl
  a := by simp [unescapeURL]
  lookups := by simp [escapes]
  reads := fun _ hj => .inl hj

/-- The index behind an escape. -/
theorem toNat_escape (stray : UInt8 → UInt8) {a b : UInt8} (hAt : x.i.toNat = p.length)
    (hLength : (p ++ 37 :: a :: b :: rest).length < 2 ^ 32) :
    ((x.escape stray (p ++ 37 :: a :: b :: rest)).i).toNat = (p ++ [37, a, b]).length := by
  simp only [List.length_append, List.length_cons] at hLength
  have hTwo : (x.i + 2).toNat = p.length + 2 := toNat_add (k := 2) hAt (by omega)
  have hThree : (x.i + 2 + 1).toNat = p.length + 3 := toNat_add (k := 1) hTwo (by omega)
  simpa [Unescape.escape] using hThree

/-- The index behind a character that is copied. -/
theorem toNat_copy {c : UInt8} {s : Bytes} (hAt : x.i.toNat = p.length)
    (hLength : (p ++ c :: s).length < 2 ^ 32) :
    ((x.copy (p ++ c :: s)).i).toNat = (p ++ [c]).length := by
  simp only [List.length_append, List.length_cons] at hLength
  have hOne : (x.i + 1).toNat = p.length + 1 := toNat_add (k := 1) hAt (by omega)
  simpa [Unescape.copy] using hOne

theorem unescaped_copy {c : UInt8} (hAt : x.i.toNat = p.length) (hc : c ≠ 37)
    (h : Unescaped stray (p ++ c :: rest) rest (x.copy (p ++ c :: rest)) r) :
    Unescaped stray (p ++ c :: rest) (c :: rest) x r where
  ends := (Loop.ends_inr (step_copy hAt hc)).2 h.ends
  a := by simp [h.a, Unescape.copy, charAt_append hAt, unescapeURL_cons rest stray hc]
  lookups := by simp [h.lookups, Unescape.copy, escapes_cons rest hc]
  reads := by
    intro j hj
    rcases h.reads j hj with hOld | hIn | hNul
    · simp only [Unescape.copy, List.mem_append, List.mem_singleton] at hOld
      rcases hOld with hOld | rfl
      · exact .inl hOld
      · exact .inr (.inl (by simp [hAt]))
    · exact .inr (.inl hIn)
    · exact .inr (.inr (by simpa [escapes_cons rest hc] using hNul))

theorem unescaped_bare (hAt : x.i.toNat = p.length) (hFits : p.length + 2 < 2 ^ 32) :
    Unescaped stray (p ++ [37]) [37] x { x with reads := x.reads ++ [x.i.toNat] } where
  ends := (Loop.ends_inl (step_bare hAt hFits)).2 rfl
  a := by simp [unescapeURL]
  lookups := by simp [escapes, lookupsOf]
  reads := by
    intro j hj
    simp only [List.mem_append, List.mem_singleton] at hj
    rcases hj with hOld | rfl
    · exact .inl hOld
    · exact .inr (.inl (by simp [hAt]))

/-- The two characters behind a `'%'`. -/
theorem charAt_escape (a b : UInt8) (rest : Bytes) (hAt : x.i.toNat = p.length)
    (hFits : p.length + 2 < 2 ^ 32) :
    charAt (p ++ 37 :: a :: b :: rest) (x.i + 1) = a ∧
      charAt (p ++ 37 :: a :: b :: rest) (x.i + 2) = b := by
  have hOne : (x.i + 1).toNat = p.length + 1 := toNat_add (k := 1) hAt (by omega)
  have hTwo : (x.i + 2).toNat = p.length + 2 := toNat_add (k := 2) hAt hFits
  simp [charAt, hOne, hTwo]

theorem unescaped_escape {a b : UInt8} (hAt : x.i.toNat = p.length)
    (hFits : p.length + 3 < 2 ^ 32)
    (h : Unescaped stray (p ++ 37 :: a :: b :: rest) rest
      (x.escape stray (p ++ 37 :: a :: b :: rest)) r) :
    Unescaped stray (p ++ 37 :: a :: b :: rest) (37 :: a :: b :: rest) x r := by
  have hOne : (x.i + 1).toNat = p.length + 1 := toNat_add (k := 1) hAt (by omega)
  have hTwo : (x.i + 2).toNat = p.length + 2 := toNat_add (k := 2) hAt (by omega)
  obtain ⟨hA, hB⟩ := charAt_escape a b rest hAt (by omega)
  have hStep := step_escape stray (t := a :: b :: rest) hAt (by simp; omega)
  refine ⟨(Loop.ends_inr hStep).2 h.ends, ?_, ?_, fun j hj => ?_⟩
  · rw [h.a]
    simp [Unescape.escape, unescapeURL, hA, hB]
  · rw [h.lookups]
    simp [Unescape.escape, escapes, lookupsOf, hA, hB]
  · rcases h.reads j hj with hOld | hIn | ⟨hNul, e, he, hLen⟩
    · simp only [Unescape.escape, List.mem_append, List.mem_cons, List.not_mem_nil, or_false,
        hAt, hOne, hTwo] at hOld
      rcases hOld with hOld | rfl | rfl | rfl
      · exact .inl hOld
      all_goals exact .inr (.inl (by simp))
    · exact .inr (.inl hIn)
    · exact .inr (.inr ⟨hNul, e, by simp [escapes, he], hLen⟩)

/-- The NUL is taken for the second character, and gives nothing. -/
theorem unescaped_nul (a : UInt8) : unescaped stray a 0 = [] := by
  have hNul : uTableAt stray 0 = 0 := rfl
  simp only [unescaped, hNul]
  split_ifs <;> first | rfl | omega

theorem unescaped_truncated {a : UInt8} (hAt : x.i.toNat = p.length)
    (hFits : p.length + 3 < 2 ^ 32) :
    Unescaped stray (p ++ [37, a]) [37, a] x (x.escape stray (p ++ [37, a])) := by
  have hOne : (x.i + 1).toNat = p.length + 1 := toNat_add (k := 1) hAt (by omega)
  have hTwo : (x.i + 2).toNat = p.length + 2 := toNat_add (k := 2) hAt (by omega)
  have hThree : (x.i + 2 + 1).toNat = p.length + 3 := toNat_add (k := 1) hTwo (by omega)
  have hA : charAt (p ++ [37, a]) (x.i + 1) = a := by simp [charAt, hOne]
  have hB : charAt (p ++ [37, a]) (x.i + 2) = 0 := by simp [charAt, hTwo]
  have hStep := step_escape stray (t := [a]) hAt (by simp; omega)
  have hEnd : unescapeStep stray (p ++ [37, a]) (x.escape stray (p ++ [37, a])) =
      .inl (x.escape stray (p ++ [37, a])) := by
    rw [unescapeStep, if_pos]
    simp only [Unescape.escape, hThree, List.length_append, List.length_cons, List.length_nil]
    omega
  refine ⟨(Loop.ends_inr hStep).2 ((Loop.ends_inl hEnd).2 rfl), ?_, ?_, fun j hj => ?_⟩
  · simp [Unescape.escape, unescapeURL, hA, hB, unescaped_nul]
  · simp [Unescape.escape, escapes, lookupsOf, hA, hB]
  · simp only [Unescape.escape, List.mem_append, List.mem_cons, List.not_mem_nil, or_false,
      hAt, hOne, hTwo] at hj
    rcases hj with hOld | rfl | rfl | rfl
    · exact .inl hOld
    · exact .inr (.inl (by simp))
    · exact .inr (.inl (by simp))
    · exact .inr (.inr ⟨by simp, [a], by simp [escapes], rfl⟩)

/-- Where the counter does not wrap, the run is one of `unescapeURL`. -/
theorem exists_unescaped (stray : UInt8 → UInt8) (rest : Bytes) :
    ∀ (p : Bytes) (x : Unescape), x.i.toNat = p.length → (p ++ rest).length < 2 ^ 32 →
      (∀ e ∈ escapes rest, e.length < 2 → (p ++ rest).length + 1 < 2 ^ 32) →
      ∃ r, Unescaped stray (p ++ rest) rest x r := by
  induction rest using escapes.induct with
  | case1 =>
      intro p x hAt _ _
      rw [List.append_nil]
      exact ⟨x, unescaped_end hAt⟩
  | case2 a b rest ih =>
      intro p x hAt hLength hFits
      have hSplit : p ++ 37 :: a :: b :: rest = (p ++ [37, a, b]) ++ rest := by simp
      have hSize : p.length + 3 + rest.length < 2 ^ 32 := by
        simp only [List.length_append, List.length_cons] at hLength
        omega
      have hNext := toNat_escape stray hAt hLength
      obtain ⟨r, hRun⟩ := ih (p ++ [37, a, b]) _ hNext (by rw [← hSplit]; exact hLength)
        (fun e he => by rw [← hSplit]; exact hFits e (by simp [escapes, he]))
      rw [← hSplit] at hRun
      exact ⟨r, unescaped_escape hAt (by omega) hRun⟩
  | case3 s hs =>
      intro p x hAt hLength hFits
      rcases s with _ | ⟨a, _ | ⟨b, rest⟩⟩
      · have hSize := hFits [] (by simp [escapes]) (by simp)
        exact ⟨_, unescaped_bare hAt (by simpa using hSize)⟩
      · have hSize := hFits [a] (by simp [escapes]) (by simp)
        exact ⟨_, unescaped_truncated hAt (by simpa using hSize)⟩
      · exact absurd rfl (hs a b rest)
  | case4 c s hc ih =>
      intro p x hAt hLength hFits
      have hSplit : p ++ c :: s = (p ++ [c]) ++ s := by simp
      have hNext := toNat_copy hAt hLength
      obtain ⟨r, hRun⟩ := ih (p ++ [c]) _ hNext (by rw [← hSplit]; exact hLength)
        (fun e he => by rw [← hSplit]; exact hFits e (by rwa [escapes_cons s hc]))
      rw [← hSplit] at hRun
      exact ⟨r, unescaped_copy hAt hc hRun⟩

/-- In a text of less than `2 ^ 32 - 1` bytes the loop ends, with `unescapeURL`
of the text. -/
theorem ends_unescape {s : Bytes} (hShort : s.length + 1 < 2 ^ 32) :
    ∃ r, Loop.Ends (unescapeStep stray s) {} r ∧ r.a = unescapeURL stray s := by
  obtain ⟨r, hRun⟩ := exists_unescaped stray s [] {} rfl
    (by simp only [List.nil_append]; omega) (fun _ _ _ => by simpa using hShort)
  exact ⟨r, hRun.ends, hRun.a⟩

/-- An escape of one character has the NUL read behind `s`; so has a bare `'%'`
where `i + 2` wraps. -/
theorem reads_of_short (rest : Bytes) :
    ∀ (p : Bytes) (x : Unescape), x.i.toNat = p.length → (p ++ rest).length < 2 ^ 32 →
      (∃ e ∈ escapes rest, e.length = 1 ∨ e = [] ∧ (p ++ rest).length + 1 = 2 ^ 32) →
      ∀ r, Loop.Ends (unescapeStep stray (p ++ rest)) x r → (p ++ rest).length ∈ r.reads := by
  induction rest using escapes.induct with
  | case1 =>
      rintro p x - - ⟨e, he, -⟩
      cases he
  | case2 a b rest ih =>
      intro p x hAt hLength ⟨e, he, hShort⟩ r hEnds
      have hSplit : p ++ 37 :: a :: b :: rest = (p ++ [37, a, b]) ++ rest := by simp
      have hSize : p.length + 3 + rest.length < 2 ^ 32 := by
        simp only [List.length_append, List.length_cons] at hLength
        omega
      have hStep := step_escape stray (t := a :: b :: rest) hAt (by simp; omega)
      have hNext := toNat_escape stray hAt hLength
      have he' : e ∈ escapes rest := by
        simp only [escapes, if_pos, List.mem_cons] at he
        rcases he with rfl | he
        · simp at hShort
        · exact he
      have hRun := ih (p ++ [37, a, b]) _ hNext (by rwa [← hSplit])
        ⟨e, he', by rwa [← hSplit]⟩ r (by rw [← hSplit]; exact (Loop.ends_inr hStep).1 hEnds)
      rwa [← hSplit] at hRun
  | case3 s hs =>
      intro p x hAt hLength ⟨e, he, hShort⟩ r hEnds
      have hOnly : e = s := by
        rcases s with _ | ⟨a, _ | ⟨b, rest⟩⟩
        · simpa [escapes] using he
        · simpa [escapes] using he
        · exact absurd rfl (hs a b rest)
      subst hOnly
      rcases hShort with hOne | ⟨rfl, hWrap⟩
      · obtain ⟨a, rfl⟩ := List.length_eq_one_iff.1 hOne
        simp only [List.length_append, List.length_cons, List.length_nil] at hLength ⊢
        have hTwo : (x.i + 2).toNat = p.length + 2 := toNat_add (k := 2) hAt (by omega)
        have hStep := step_escape stray (t := [a]) hAt (by simp; omega)
        exact reads_of_ends ((Loop.ends_inr hStep).1 hEnds) (by simp [Unescape.escape, hTwo])
      · simp only [List.length_append, List.length_cons, List.length_nil] at hLength hWrap ⊢
        have hOne : (x.i + 1).toNat = p.length + 1 := toNat_add (k := 1) hAt (by omega)
        have hTwo : (x.i + 2).toNat = 0 := by
          have hLast : x.i.toNat = 2 ^ 32 - 2 := by omega
          simp [UInt32.toNat_add, hLast]
        have hStep := step_escape stray (t := []) hAt (by omega)
        exact reads_of_ends ((Loop.ends_inr hStep).1 hEnds) (by simp [Unescape.escape, hOne])
  | case4 c s hc ih =>
      intro p x hAt hLength hShort r hEnds
      have hSplit : p ++ c :: s = (p ++ [c]) ++ s := by simp
      have hNext := toNat_copy hAt hLength
      rw [escapes_cons s hc, hSplit] at hShort
      have hRun := ih (p ++ [c]) _ hNext (by rwa [← hSplit]) hShort r
        (by rw [← hSplit]; exact (Loop.ends_inr (step_copy hAt hc)).1 hEnds)
      rwa [← hSplit] at hRun

end Runs

/-! ## When the loop is sane -/

/-- The loop ends, `u_table` is given indices of its own only, what is read is in
`s`, and what is put out is the reference decoding. -/
def Sane (stray : UInt8 → UInt8) (s : Bytes) : Prop :=
  ∃ r, Loop.Ends (unescapeStep stray s) {} r ∧ (∀ k ∈ r.lookups, 0 ≤ k ∧ k < 256) ∧
    (∀ j ∈ r.reads, j < s.length) ∧ r.a = reference s

/-- The texts that the loop is sane on. -/
structure Plain (s : Bytes) : Prop where
  /-- The counter reaches the end. -/
  short : s.length < 2 ^ 32
  pairs : ∀ a b, [a, b] ∈ escapes s → CleanPair a b
  /-- No escape has one character of its two. -/
  whole : ∀ a, [a] ∉ escapes s
  /-- A `'%'` at the end is found there: `i + 2` does not wrap. -/
  last : s.length + 1 = 2 ^ 32 → [] ∉ escapes s

section Sane

variable {stray : UInt8 → UInt8} {s : Bytes}

theorem charIndex_bounds (c : UInt8) : (0 ≤ charIndex c ∧ charIndex c < 256) ↔ c < 128 := by
  have hAll : ∀ n < 256, (0 ≤ charIndex (UInt8.ofNat n) ∧ charIndex (UInt8.ofNat n) < 256) ↔
      UInt8.ofNat n < 128 := by
    decide +kernel
  have hSame := hAll c.toNat c.toNat_lt
  rwa [UInt8.ofNat_toNat] at hSame

/-- An escape has at most two characters. -/
theorem length_of_mem_escapes {e : Bytes} (he : e ∈ escapes s) : e.length ≤ 2 := by
  induction s using escapes.induct with
  | case1 => cases he
  | case2 a b rest ih =>
      simp only [escapes, if_pos, List.mem_cons] at he
      rcases he with rfl | he
      · simp
      · exact ih he
  | case3 s hs =>
      rcases s with _ | ⟨a, _ | ⟨b, rest⟩⟩
      · simp_all [escapes]
      · simp_all [escapes]
      · exact absurd rfl (hs a b rest)
  | case4 c s hc ih => exact ih (by rwa [escapes_cons s hc] at he)

theorem unescapeURL_of_clean (h : ∀ a b, [a, b] ∈ escapes s → CleanPair a b) :
    unescapeURL stray s = reference s := by
  induction s using escapes.induct with
  | case1 => rfl
  | case2 a b rest ih =>
      have hPair := unescaped_of_clean stray (h a b (by simp [escapes]))
      have hRest := ih fun a' b' hMem => h a' b' (by simp [escapes, hMem])
      simp [unescapeURL, reference, hPair, hRest]
  | case3 s hs =>
      rcases s with _ | ⟨a, _ | ⟨b, rest⟩⟩
      · rfl
      · rfl
      · exact absurd rfl (hs a b rest)
  | case4 c s hc ih =>
      rw [unescapeURL_cons s stray hc, reference_cons s hc,
        ih fun a b hMem => h a b (by rwa [escapes_cons s hc])]

/-- In ASCII the loop puts out too much, if anything else than the reference. -/
theorem clean_of_unescapeURL (hAscii : ∀ a b, [a, b] ∈ escapes s → a < 128 ∧ b < 128) :
    (reference s).length ≤ (unescapeURL stray s).length ∧
      ((unescapeURL stray s).length = (reference s).length →
        ∀ a b, [a, b] ∈ escapes s → CleanPair a b) := by
  induction s using escapes.induct with
  | case1 => exact ⟨le_rfl, fun _ a b h => by cases h⟩
  | case2 a b rest ih =>
      obtain ⟨ha, hb⟩ := hAscii a b (by simp [escapes])
      obtain ⟨hLe, hEq⟩ := ih fun a' b' hMem => hAscii a' b' (by simp [escapes, hMem])
      by_cases hClean : CleanPair a b
      · have hPair := unescaped_of_clean stray hClean
        refine ⟨by simpa [unescapeURL, reference, hPair] using hLe, fun hSame a' b' hMem => ?_⟩
        simp only [escapes, if_pos, List.mem_cons, List.cons.injEq, and_true] at hMem
        rcases hMem with ⟨rfl, rfl⟩ | hMem
        · exact hClean
        · exact hEq (by simpa [unescapeURL, reference, hPair] using hSame) a' b' hMem
      · obtain ⟨hOne, hNone⟩ := unescaped_of_not_clean stray ha hb hClean
        simp only [unescapeURL, reference, if_pos, List.length_append, hOne, hNone]
        exact ⟨by simp; omega, fun hSame => by simp at hSame; omega⟩
  | case3 s hs =>
      rcases s with _ | ⟨a, _ | ⟨b, rest⟩⟩
      · exact ⟨le_rfl, fun _ a b h => by simp [escapes] at h⟩
      · exact ⟨le_rfl, fun _ a b h => by simp [escapes] at h⟩
      · exact absurd rfl (hs a b rest)
  | case4 c s hc ih =>
      rw [unescapeURL_cons s stray hc, reference_cons s hc, escapes_cons s hc]
      obtain ⟨hLe, hEq⟩ := ih fun a b hMem => hAscii a b (by rwa [escapes_cons s hc])
      exact ⟨by simpa using hLe, fun hSame => hEq (by simpa using hSame)⟩

theorem Sane.plain (h : Sane stray s) : Plain s := by
  obtain ⟨r, hEnds, hLookups, hReads, hA⟩ := h
  have hLong : s.length < 2 ^ 32 := by
    by_contra hNot
    exact not_ends_of_long (Nat.le_of_not_lt hNot) r hEnds
  -- an escape that is cut off would have had the NUL read
  have hShort : ∀ e ∈ escapes s, ¬ (e.length = 1 ∨ e = [] ∧ s.length + 1 = 2 ^ 32) := by
    intro e he hCut
    exact absurd (hReads _ (reads_of_short s [] {} rfl hLong ⟨e, he, hCut⟩ r hEnds)) (lt_irrefl _)
  have hFits : ∀ e ∈ escapes s, e.length < 2 → s.length + 1 < 2 ^ 32 := by
    intro e he hTwo
    have hNot := hShort e he
    have hNil : e.length = 0 → e = [] := List.length_eq_zero_iff.1
    by_contra hWrap
    exact hNot (.inr ⟨hNil (by omega), by omega⟩)
  obtain ⟨r', hRun⟩ := exists_unescaped stray s [] {} rfl hLong hFits
  obtain rfl : r' = r := hRun.ends.unique hEnds
  have hAscii : ∀ a b, [a, b] ∈ escapes s → a < 128 ∧ b < 128 := by
    intro a b hMem
    have hIn : ∀ k ∈ lookupsOf [a, b], k ∈ r'.lookups := by
      intro k hk
      rw [hRun.lookups]
      exact List.mem_append_right _ (List.mem_flatMap.2 ⟨_, hMem, hk⟩)
    exact ⟨(charIndex_bounds a).1 (hLookups _ (hIn _ (by simp [lookupsOf]))),
      (charIndex_bounds b).1 (hLookups _ (hIn _ (by simp [lookupsOf])))⟩
  have hSame : unescapeURL stray s = reference s := by
    rw [← hA, hRun.a]
    rfl
  exact
    { short := hLong
      pairs := (clean_of_unescapeURL hAscii).2 (congrArg List.length hSame)
      whole := fun a hMem => hShort [a] hMem (.inl rfl)
      last := fun hWrap hMem => hShort [] hMem (.inr ⟨rfl, hWrap⟩) }

theorem Plain.sane (h : Plain s) : Sane stray s := by
  have hFits : ∀ e ∈ escapes s, e.length < 2 → s.length + 1 < 2 ^ 32 := by
    intro e he hTwo
    have hShort := h.short
    rcases e with _ | ⟨a, _ | ⟨b, t⟩⟩
    · by_contra hWrap
      exact h.last (by omega) he
    · exact absurd he (h.whole a)
    · simp only [List.length_cons] at hTwo
      omega
  obtain ⟨r, hRun⟩ := exists_unescaped stray s [] {} rfl h.short hFits
  refine ⟨r, hRun.ends, fun k hk => ?_, fun j hj => ?_, ?_⟩
  · rw [hRun.lookups] at hk
    simp only [List.nil_append, List.mem_flatMap] at hk
    obtain ⟨e, he, hk⟩ := hk
    rcases e with _ | ⟨a, _ | ⟨b, t⟩⟩
    · cases hk
    · exact absurd he (h.whole a)
    · have hTwo := length_of_mem_escapes he
      obtain rfl : t = [] := List.length_eq_zero_iff.1 (by simpa using hTwo)
      obtain ⟨ha, hb, -⟩ := h.pairs a b he
      simp only [lookupsOf, List.cons_append, List.nil_append, List.take_succ_cons, List.take_zero,
        List.map_cons, List.map_nil, reduceCtorEq, if_false, List.mem_cons, List.not_mem_nil,
        or_false] at hk
      rcases hk with rfl | rfl
      · exact (charIndex_bounds a).2 ha
      · exact (charIndex_bounds b).2 hb
  · rcases hRun.reads j hj with hOld | hIn | ⟨-, e, he, hOne⟩
    · cases hOld
    · exact hIn
    · obtain ⟨a, rfl⟩ := List.length_eq_one_iff.1 hOne
      exact absurd he (h.whole a)
  · rw [hRun.a, unescapeURL_of_clean h.pairs]
    rfl

/--
**Unescaping of any text.** The loop ends, stays in `u_table` and in `s` and
decodes as the reference does, if and only if the text is plain.
-/
theorem sane_iff (stray : UInt8 → UInt8) (s : Bytes) : Sane stray s ↔ Plain s :=
  ⟨Sane.plain, Plain.sane⟩

/-- `"%\x80"` and a `'0'`: `u_table` is given -128. -/
theorem not_sane_of_high : ¬ ∀ (stray : UInt8 → UInt8) (s : Bytes), Sane stray s := by
  intro hAll
  have hPair := (hAll id [37, 128, 48]).plain.pairs 128 48 (by decide)
  exact absurd hPair.1 (by decide)

end Sane

end Megatron.CUtils
