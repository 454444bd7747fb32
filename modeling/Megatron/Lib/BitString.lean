import Mathlib.Data.List.Lex
import Mathlib.Data.Nat.Bitwise
import Mathlib.Data.Nat.Find
import Megatron.Lib.OrdSet

/-!
# The bits of byte strings

The bits of a byte string are counted from the highest bit of its first byte.
Strings of one length are ordered by the first bit in which they differ, so
that the strings that agree with one on its first `n` bits are an interval: it
begins with those bits and zeros, and ends with those bits and ones.

## Main results

* `lt_iff` — the order of byte strings by their bits.
* `block_iff` — the strings between the two ends of a block are those that
  agree on its first bits.
-/

namespace Megatron.Lib

/-- Bit `i` of a byte string. -/
def bit (x : List UInt8) (i : Nat) : Bool := (x.getD (i / 8) 0).toNat.testBit (7 - i % 8)

/-- `x` and `y` agree on their first `n` bits. -/
def Agree (n : Nat) (x y : List UInt8) : Prop := ∀ i < n, bit x i = bit y i

instance (n : Nat) (x y : List UInt8) : Decidable (Agree n x y) := by
  unfold Agree
  infer_instance

variable {n i : Nat} {x y : List UInt8}

theorem bit_cons_lt (b : UInt8) (h : i < 8) : bit (b :: x) i = b.toNat.testBit (7 - i) := by
  unfold bit
  rw [Nat.div_eq_of_lt h, Nat.mod_eq_of_lt h, List.getD_cons_zero]

theorem bit_cons_add (b : UInt8) : bit (b :: x) (i + 8) = bit x i := by
  unfold bit
  rw [Nat.add_div_right i (by decide), List.getD_cons_succ, Nat.add_mod_right]

theorem Agree.tail {b c : UInt8} (h : Agree (n + 8) (b :: x) (c :: y)) : Agree n x y := by
  intro i hi
  have hBit := h (i + 8) (by omega)
  rwa [bit_cons_add, bit_cons_add] at hBit

theorem testBit_byte_high (b : UInt8) (h : 8 ≤ i) : b.toNat.testBit i = false := by
  have hPow : 2 ^ 8 ≤ 2 ^ i := Nat.pow_le_pow_right (by decide) h
  exact Nat.testBit_lt_two_pow (Nat.lt_of_lt_of_le b.toNat_lt hPow)

/-- A byte is given by its eight bits. -/
theorem Agree.head {b c : UInt8} (h : Agree 8 (b :: x) (c :: y)) : b = c := by
  have hSame : b.toNat = c.toNat := by
    refine Nat.eq_of_testBit_eq fun j => ?_
    rcases Nat.lt_or_ge j 8 with hIn | hOut
    · have hBit := h (7 - j) (by omega)
      rw [bit_cons_lt b (by omega), bit_cons_lt c (by omega)] at hBit
      rwa [show 7 - (7 - j) = j by omega] at hBit
    · rw [testBit_byte_high b hOut, testBit_byte_high c hOut]
  exact UInt8.toNat_inj.1 hSame

theorem eq_of_agree (hLength : x.length = y.length) (h : Agree (8 * x.length) x y) : x = y := by
  induction x generalizing y with
  | nil => exact (List.length_eq_zero_iff.1 hLength.symm).symm
  | cons b x ih =>
      cases y with
      | nil => cases hLength
      | cons c y =>
          simp only [List.length_cons, Nat.add_right_cancel_iff] at hLength h
          have hHead : b = c := Agree.head fun i hi => h i (by omega)
          rw [hHead, ih hLength (Agree.tail h)]

/-- The first bit in which two strings differ decides. -/
theorem lt_of_bit (hLength : x.length = y.length) (hi : i < 8 * x.length) (hAgree : Agree i x y)
    (hx : bit x i = false) (hy : bit y i = true) : x < y := by
  induction x generalizing y i with
  | nil => cases hi
  | cons b x ih =>
      cases y with
      | nil => cases hLength
      | cons c y =>
          rw [List.cons_lt_cons_iff]
          rcases Nat.lt_or_ge i 8 with hIn | hOut
          · left
            rw [bit_cons_lt _ hIn] at hx hy
            refine Nat.lt_of_testBit (7 - i) hx hy fun j hj => ?_
            rcases Nat.lt_or_ge j 8 with hByte | hAbove
            · have hBit := hAgree (7 - j) (by omega)
              rw [bit_cons_lt b (by omega), bit_cons_lt c (by omega)] at hBit
              rwa [show 7 - (7 - j) = j by omega] at hBit
            · exact (testBit_byte_high b hAbove).trans (testBit_byte_high c hAbove).symm
          · right
            obtain ⟨k, rfl⟩ : ∃ k, i = k + 8 := ⟨i - 8, by omega⟩
            simp only [List.length_cons, Nat.add_right_cancel_iff] at hLength hi
            rw [bit_cons_add] at hx hy
            refine ⟨Agree.head fun j hj => hAgree j (by omega), ?_⟩
            exact ih hLength (by omega) (Agree.tail hAgree) hx hy

/-- Strings that differ have a first bit in which they do. -/
theorem exists_first_bit (hNot : ¬ Agree n x y) :
    ∃ i < n, Agree i x y ∧ bit x i ≠ bit y i := by
  unfold Agree at hNot
  push Not at hNot
  classical
  obtain ⟨hIn, hDiffer⟩ := Nat.find_spec hNot
  refine ⟨Nat.find hNot, hIn, fun j hj => ?_, hDiffer⟩
  by_contra hOther
  exact Nat.find_min hNot hj ⟨by omega, hOther⟩

theorem lt_iff (hLength : x.length = y.length) :
    x < y ↔ ∃ i < 8 * x.length, Agree i x y ∧ bit x i = false ∧ bit y i = true := by
  constructor
  · intro hLt
    have hNot : ¬ Agree (8 * x.length) x y := by
      intro hAgree
      rw [eq_of_agree hLength hAgree] at hLt
      exact List.lt_irrefl y hLt
    obtain ⟨i, hi, hAgree, hDiffer⟩ := exists_first_bit hNot
    cases hx : bit x i with
    | false =>
        rw [hx] at hDiffer
        exact ⟨i, hi, hAgree, hx, by simpa using hDiffer.symm⟩
    | true =>
        rw [hx] at hDiffer
        have hBack : y < x := lt_of_bit hLength.symm (hLength ▸ hi)
          (fun j hj => (hAgree j hj).symm) (by simpa using hDiffer.symm) hx
        exact absurd hLt (List.lt_asymm hBack)
  · rintro ⟨i, hi, hAgree, hx, hy⟩
    exact lt_of_bit hLength hi hAgree hx hy

/-! ## Blocks -/

/-- `y` is `x` with every bit from the `n`th on set to `value`. -/
structure Filled (value : Bool) (n : Nat) (x y : List UInt8) : Prop where
  length_eq : y.length = x.length
  bit_eq : ∀ i < 8 * x.length, bit y i = if i < n then bit x i else value

/-- A string below the zeros behind the first bits differs in one of these. -/
theorem Filled.le_iff {b : List UInt8} (h : Filled false n x b) (hLength : y.length = x.length) :
    b ≤ y ↔ ¬ ∃ i < min n (8 * x.length), Agree i y x ∧ bit y i = false ∧ bit x i = true := by
  rw [← not_lt, lt_iff (hLength.trans h.length_eq.symm), hLength, not_iff_not]
  constructor
  · rintro ⟨i, hi, hAgree, hy, hb⟩
    have hIn : i < n := by
      by_contra hOut
      rw [h.bit_eq i hi, if_neg hOut] at hb
      cases hb
    rw [h.bit_eq i hi, if_pos hIn] at hb
    refine ⟨i, by omega, fun j hj => ?_, hy, hb⟩
    rw [hAgree j hj, h.bit_eq j (by omega), if_pos (by omega)]
  · rintro ⟨i, hi, hAgree, hy, hx⟩
    have hIn : i < n ∧ i < 8 * x.length := by omega
    refine ⟨i, hIn.2, fun j hj => ?_, hy, ?_⟩
    · rw [hAgree j hj, h.bit_eq j (by omega), if_pos (by omega)]
    · rw [h.bit_eq i hIn.2, if_pos hIn.1, hx]

/-- A string above the ones behind the first bits differs in one of these. -/
theorem Filled.ge_iff {e : List UInt8} (h : Filled true n x e) (hLength : y.length = x.length) :
    y ≤ e ↔ ¬ ∃ i < min n (8 * x.length), Agree i y x ∧ bit y i = true ∧ bit x i = false := by
  rw [← not_lt, lt_iff (h.length_eq.trans hLength.symm), h.length_eq, not_iff_not]
  constructor
  · rintro ⟨i, hi, hAgree, he, hy⟩
    have hIn : i < n := by
      by_contra hOut
      rw [h.bit_eq i hi, if_neg hOut] at he
      cases he
    rw [h.bit_eq i hi, if_pos hIn] at he
    refine ⟨i, by omega, fun j hj => ?_, hy, he⟩
    rw [← hAgree j hj, h.bit_eq j (by omega), if_pos (by omega)]
  · rintro ⟨i, hi, hAgree, hy, hx⟩
    have hIn : i < n ∧ i < 8 * x.length := by omega
    refine ⟨i, hIn.2, fun j hj => ?_, ?_, hy⟩
    · rw [hAgree j hj, h.bit_eq j (by omega), if_pos (by omega)]
    · rw [h.bit_eq i hIn.2, if_pos hIn.1, hx]

/-- The strings of a block are those that agree on its first bits. -/
theorem block_iff {b e : List UInt8} (hb : Filled false n x b) (he : Filled true n x e)
    (hn : n ≤ 8 * x.length) (hLength : y.length = x.length) :
    b ≤ y ∧ y ≤ e ↔ Agree n y x := by
  rw [hb.le_iff hLength, he.ge_iff hLength, Nat.min_eq_left hn]
  constructor
  · rintro ⟨hBelow, hAbove⟩
    by_contra hNot
    obtain ⟨i, hi, hAgree, hDiffer⟩ := exists_first_bit hNot
    cases hy : bit y i with
    | false => exact hBelow ⟨i, hi, hAgree, hy, by simpa [hy] using hDiffer⟩
    | true => exact hAbove ⟨i, hi, hAgree, hy, by simpa [hy] using hDiffer⟩
  · intro hAgree
    constructor
    · rintro ⟨i, hi, -, hy, hx⟩
      rw [hAgree i hi, hx] at hy
      cases hy
    · rintro ⟨i, hi, -, hy, hx⟩
      rw [hAgree i hi, hx] at hy
      cases hy

/-- The beginning of a block is not behind its end. -/
theorem Filled.le {b e : List UInt8} (hb : Filled false n x b) (he : Filled true n x e) :
    b ≤ e := by
  rw [hb.le_iff he.length_eq]
  rintro ⟨i, hi, -, hFalse, hTrue⟩
  rw [he.bit_eq i (by omega), if_pos (by omega), hTrue] at hFalse
  cases hFalse

end Megatron.Lib
