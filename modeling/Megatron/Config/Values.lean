import Mathlib.Data.Rat.Floor
import Mathlib.Tactic.Linarith
import Mathlib.Tactic.Positivity
import Megatron.Config.Loading

/-!
# Values as text

What `appendLine` makes of a number, and what `atol` and `strtod` make of it
again.  `atol` gives a `long`, so an unsigned number from `2^63` on is not
given back.  `std::to_string` writes a `real` with six digits behind the point.

A `real` is a sign and a magnitude; which magnitudes there are, and how
`strtod` rounds to them, is a parameter.

## Main results

* `strtol_toText`, `strtol_toText_nat` — which integers come back.
* `Strtod.close` — a `real` comes back up to the last digit.
-/

namespace Megatron.Config

open Megatron.Corelib (Bytes cStr cStr_of_noNul)
open Megatron.Http

/-! ## Plain text -/

/-- Neither a NUL nor a line break stands in `s`. -/
def Plain (s : Bytes) : Prop := ∀ c ∈ s, c ≠ 0 ∧ c ∉ crlf

section Plain

variable {s t : Bytes}

theorem zero_notMem_cStr (s : Bytes) : 0 ∉ cStr s := by
  intro hMem
  simpa using List.mem_takeWhile_imp hMem

theorem Plain.zero_notMem (h : Plain s) : 0 ∉ s := fun hMem => (h 0 hMem).1 rfl

theorem Plain.cStr_eq (h : Plain s) : cStr s = s := cStr_of_noNul h.zero_notMem

theorem Plain.unbroken (h : Plain s) : Unbroken s := fun c hc => (h c hc).2

theorem Plain.append (hs : Plain s) (ht : Plain t) : Plain (s ++ t) :=
  fun c hc => (List.mem_append.1 hc).elim (hs c) (ht c)

theorem plain_singleton {c : UInt8} (h : c ≠ 0 ∧ c ∉ crlf) : Plain [c] := by
  intro d hd
  rw [List.mem_singleton.1 hd]
  exact h

theorem plain_of_digits (h : ∀ c ∈ s, isDigit c = true) : Plain s := by
  have hDigits : ∀ c, isDigit c = true → c ≠ 0 ∧ c ∉ crlf := forall_byte (by decide +kernel)
  exact fun c hc => hDigits c (h c hc)

end Plain

/-! ## Integers -/

/-- `std::to_string` of an integer. -/
def toText (n : Int) : Bytes :=
  if n < 0 then 45 :: text (toString n.natAbs) else text (toString n.natAbs)

theorem plain_toText (n : Int) : Plain (toText n) := by
  have hDigits := plain_of_digits (numeral_toString n.natAbs).isDigit
  rw [toText]
  split
  · exact (plain_singleton (by decide)).append hDigits
  · exact hDigits

/-- **A signed number comes back.** -/
theorem strtol_toText (n : Int64) : strtol (toText n.toInt) = n.toInt := by
  have hLow := n.le_toInt
  have hHigh := n.toInt_lt
  have hNumeral := numeral_toString n.toInt.natAbs
  rw [toText]
  split
  · have hValue : digits (text (toString n.toInt.natAbs)) = n.toInt.natAbs := hNumeral.digits_eq
    have hSpace : isSpace 45 = false := by decide
    rw [strtol, List.dropWhile_cons, hSpace]
    have hAbs : -((n.toInt.natAbs : Nat) : Int) = n.toInt := by omega
    simp only [Bool.false_eq_true, if_false, hValue, hAbs]
    omega
  · rw [hNumeral.strtol_eq (by omega)]
    omega

/-- **An unsigned number comes back as far as a `long` goes.** -/
theorem strtol_toText_nat (n : Nat) :
    strtol (toText n) = ((min n 9223372036854775807 : Nat) : Int) := by
  have hClamped := (numeral_toString n).strtol_clamped (t := []) (by simp)
  rw [List.append_nil] at hClamped
  rw [toText, if_neg (by omega), Int.natAbs_natCast, hClamped]
  omega

/-! ## `real` -/

/-- A `double`: `Q` holds of the magnitudes that there are. -/
inductive Real (Q : ℚ → Prop)
  | finite (negative : Bool) (magnitude : {q : ℚ // Q q})
  | infinite (negative : Bool)
  | nan (negative : Bool)

/-- A text behind the sign of a number. -/
def signed (negative : Bool) (s : Bytes) : Bytes := if negative then 45 :: s else s

/-- `k` millionths, with six digits behind the point. -/
def decimal (k : Nat) : Bytes :=
  let fraction := text (toString (k % 1000000))
  text (toString (k / 1000000)) ++ 46 :: (List.replicate (6 - fraction.length) 48 ++ fraction)

/-- The nearest number of millionths, the even one of two. -/
def millionths (q : ℚ) : Nat :=
  let k := ⌊q * 1000000⌋₊
  if q * 1000000 - k < 1 / 2 then k
  else if 1 / 2 < q * 1000000 - k then k + 1
  else k + k % 2

variable {Q : ℚ → Prop}

/-- `std::to_string` of a `real`. -/
def Real.toText : Real Q → Bytes
  | finite negative m => signed negative (decimal (millionths m))
  | infinite negative => signed negative (text "inf")
  | nan negative => signed negative (text "nan")

/-- The two numbers print the same, up to the last digit. -/
def Real.Close : Real Q → Real Q → Prop
  | finite negative m, finite negative' m' =>
      negative = negative' ∧ |(m : ℚ) - m'| ≤ 1 / 1000000
  | infinite negative, infinite negative' => negative = negative'
  | nan _, nan _ => True
  | _, _ => False

/-- `strtod`, as far as it is asked: a decimal number becomes the nearest
magnitude, where there is one within half a millionth. -/
structure Strtod (Q : ℚ → Prop) where
  strtod : Bytes → Real Q
  nonneg : ∀ q, Q q → 0 ≤ q
  nearest : ∀ (negative : Bool) (k : Nat) (q : ℚ), Q q → |q - (k : ℚ) / 1000000| ≤ 1 / 2000000 →
    ∃ m : {q : ℚ // Q q}, strtod (signed negative (decimal k)) = .finite negative m ∧
      |(m : ℚ) - (k : ℚ) / 1000000| ≤ |q - (k : ℚ) / 1000000|
  inf : ∀ negative, strtod (signed negative (text "inf")) = .infinite negative
  nan : ∀ negative, ∃ sign, strtod (signed negative (text "nan")) = .nan sign

section Reals

theorem Real.Close.refl (v : Real Q) : v.Close v := by
  cases v with
  | finite negative m => exact ⟨rfl, by simp⟩
  | infinite negative => rfl
  | nan negative => trivial

theorem plain_signed {s : Bytes} (negative : Bool) (h : Plain s) : Plain (signed negative s) := by
  cases negative with
  | false => exact h
  | true => exact (plain_singleton (by decide)).append h

theorem plain_decimal (k : Nat) : Plain (decimal k) := by
  have hWhole := plain_of_digits (numeral_toString (k / 1000000)).isDigit
  have hFraction := plain_of_digits (numeral_toString (k % 1000000)).isDigit
  have hZeros : ∀ n, Plain (List.replicate n 48) := by
    intro n c hc
    rw [List.eq_of_mem_replicate hc]
    decide
  exact hWhole.append ((plain_singleton (by decide)).append ((hZeros _).append hFraction))

theorem Real.plain_toText (v : Real Q) : Plain v.toText := by
  cases v with
  | finite negative m => exact plain_signed negative (plain_decimal _)
  | infinite negative => exact plain_signed negative (by unfold Plain; decide +kernel)
  | nan negative => exact plain_signed negative (by unfold Plain; decide +kernel)

/-- Six digits are right to half of the last. -/
theorem abs_sub_millionths_le {q : ℚ} (hq : 0 ≤ q) :
    |q - (millionths q : ℚ) / 1000000| ≤ 1 / 2000000 := by
  have hFloor := Nat.floor_le (show 0 ≤ q * 1000000 by positivity)
  have hNext := Nat.lt_floor_add_one (q * 1000000)
  have hParity : ((⌊q * 1000000⌋₊ % 2 : Nat) : ℚ) ≤ 1 := by
    exact_mod_cast Nat.le_of_lt_succ (Nat.mod_lt _ (by decide))
  have hZero : (0 : ℚ) ≤ ((⌊q * 1000000⌋₊ % 2 : Nat) : ℚ) := Nat.cast_nonneg _
  rw [millionths]
  split_ifs <;> push_cast at * <;> rw [abs_le] <;> constructor <;> linarith

/-- **A `real` comes back up to the last digit.** -/
theorem Strtod.close (t : Strtod Q) (v : Real Q) : v.Close (t.strtod v.toText) := by
  cases v with
  | finite negative m =>
      have hPrinted := abs_sub_millionths_le (t.nonneg m m.property)
      obtain ⟨m', hRead, hNear⟩ := t.nearest negative _ m m.property hPrinted
      rw [Real.toText, hRead]
      refine ⟨rfl, ?_⟩
      have hBoth := hNear.trans hPrinted
      rw [abs_le] at hPrinted hBoth ⊢
      constructor <;> linarith [hPrinted.1, hPrinted.2, hBoth.1, hBoth.2]
  | infinite negative =>
      rw [Real.toText, t.inf]
      rfl
  | nan negative =>
      obtain ⟨sign, hRead⟩ := t.nan negative
      rw [Real.toText, hRead]
      trivial

end Reals

end Megatron.Config
