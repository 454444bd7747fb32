import Mathlib.Data.List.TakeWhile
import Megatron.Http.Text

/-!
# Numbers and pieces of a text

A text that was put together of pieces and separators is cut into the pieces
again, and decimal digits are read as the number that they write.

## Main results

* `splitString_append` — what is in front of a separator is a piece.
* `Numeral.strtol_append` — digits in front of other text are their number.
* `exists_numeral`, `numeral_toString` — every number is written by digits, and
  by those of its decimal text.
-/

namespace Megatron.Http

open Megatron.Corelib (Bytes)

/-! ## Pieces -/

variable {seps p s t : Bytes}

theorem splitFrom_append (tmp : Bytes) (hFree : ∀ c ∈ p, c ∉ seps) :
    splitFrom seps tmp (p ++ s) = splitFrom seps (tmp ++ p) s := by
  induction p generalizing tmp with
  | nil => simp
  | cons c p ih =>
      have hHead : c ∉ seps := hFree c (List.mem_cons_self ..)
      rw [List.cons_append, splitFrom, if_pos hHead,
        ih (tmp ++ [c]) fun d hd => hFree d (List.mem_cons_of_mem c hd)]
      simp

theorem splitString_append {c : UInt8} (hp : p ≠ []) (hFree : ∀ d ∈ p, d ∉ seps)
    (hc : c ∈ seps) : splitString seps (p ++ c :: s) = p :: splitString seps s := by
  unfold splitString
  rw [splitFrom_append [] hFree, List.nil_append, splitFrom, if_neg (not_not.2 hc), if_neg hp]

theorem splitString_self (hp : p ≠ []) (hFree : ∀ d ∈ p, d ∉ seps) :
    splitString seps p = [p] := by
  have hAll := splitFrom_append (s := []) [] hFree
  rw [List.append_nil, List.nil_append] at hAll
  rw [splitString, hAll, splitFrom, if_neg hp]

/-! ## Digits -/

/-- The digits `s` write the number `n`. -/
structure Numeral (s : Bytes) (n : Nat) : Prop where
  ne_nil : s ≠ []
  isDigit : ∀ c ∈ s, isDigit c = true
  digits_eq : digits s = n

theorem toNat_of_isDigit {c : UInt8} (h : isDigit c = true) : 48 ≤ c.toNat ∧ c.toNat ≤ 57 := by
  simpa [isDigit, UInt8.le_iff_toNat_le] using h

/-- What follows the digits has no part in their number. -/
theorem digits_append (hDigits : ∀ c ∈ s, isDigit c = true)
    (hEnd : ∀ c, t.head? = some c → isDigit c = false) : digits (s ++ t) = digits s := by
  have hTail : t.takeWhile isDigit = [] := by
    cases t with
    | nil => rfl
    | cons c t => simp [hEnd c rfl]
  have hSelf : s.takeWhile isDigit = s := List.takeWhile_eq_self_iff.2 hDigits
  unfold digits
  rw [List.takeWhile_append_of_pos hDigits, hTail, List.append_nil, hSelf]

theorem digits_concat {c : UInt8} (hDigits : ∀ d ∈ s, isDigit d = true) (hc : isDigit c = true) :
    digits (s ++ [c]) = 10 * digits s + (c.toNat - 48) := by
  have hAll : ∀ d ∈ s ++ [c], isDigit d = true :=
    List.forall_mem_append.2 ⟨hDigits, List.forall_mem_singleton.2 hc⟩
  unfold digits
  rw [List.takeWhile_eq_self_iff.2 hAll, List.takeWhile_eq_self_iff.2 hDigits, List.foldl_append]
  rfl

theorem Numeral.of_digit {n : Nat} (h : n < 10) : Numeral [UInt8.ofNat (48 + n)] n := by
  have hByte : (UInt8.ofNat (48 + n)).toNat = 48 + n := by
    rw [UInt8.toNat_ofNat']
    omega
  have hDigit : Http.isDigit (UInt8.ofNat (48 + n)) = true := by
    simp only [Http.isDigit, UInt8.le_iff_toNat_le, hByte, Bool.and_eq_true, decide_eq_true_eq]
    exact ⟨by simp, by simp; omega⟩
  refine ⟨by simp, by simpa using hDigit, ?_⟩
  simp only [digits, List.takeWhile_cons, hDigit, if_true, List.takeWhile_nil, List.foldl_cons,
    List.foldl_nil, hByte]
  omega

theorem Numeral.concat {n d : Nat} (h : Numeral s n) (hd : d < 10) :
    Numeral (s ++ [UInt8.ofNat (48 + d)]) (10 * n + d) := by
  have hLast := Numeral.of_digit hd
  have hByte : (UInt8.ofNat (48 + d)).toNat = 48 + d := by
    rw [UInt8.toNat_ofNat']
    omega
  have hDigit := hLast.isDigit _ (List.mem_singleton_self _)
  refine ⟨by simp, List.forall_mem_append.2 ⟨h.isDigit, List.forall_mem_singleton.2 hDigit⟩, ?_⟩
  rw [digits_concat h.isDigit hDigit, h.digits_eq, hByte]
  omega

theorem exists_numeral (n : Nat) : ∃ s, Numeral s n := by
  induction n using Nat.strongRecOn with
  | ind n ih =>
      rcases Nat.lt_or_ge n 10 with hDigit | hMore
      · exact ⟨_, Numeral.of_digit hDigit⟩
      · obtain ⟨s, hs⟩ := ih (n / 10) (by omega)
        have hn := hs.concat (Nat.mod_lt n (by decide))
        rw [Nat.div_add_mod n 10] at hn
        exact ⟨_, hn⟩

theorem text_append (a b : String) : text (a ++ b) = text a ++ text b := by
  simp [text]

theorem text_digitChar {d : Nat} (hd : d < 10) :
    text (String.ofList [Nat.digitChar d]) = [UInt8.ofNat (48 + d)] := by
  have hAll : ∀ d < 10, text (String.ofList [Nat.digitChar d]) = [UInt8.ofNat (48 + d)] := by
    decide +kernel
  exact hAll d hd

theorem numeral_toString (n : Nat) : Numeral (text (toString n)) n := by
  rw [Nat.toString_eq_ofList_toDigits]
  induction n using Nat.strongRecOn with
  | ind n ih =>
      rcases Nat.lt_or_ge n 10 with hDigit | hMore
      · rw [Nat.toDigits_of_lt_base hDigit, text_digitChar hDigit]
        exact Numeral.of_digit hDigit
      · have hLast := Nat.mod_lt n (show 0 < 10 by decide)
        rw [Nat.toDigits_of_base_le (by decide) hMore, String.ofList_append, text_append,
          text_digitChar hLast]
        have hn := (ih (n / 10) (by omega)).concat hLast
        rwa [Nat.div_add_mod n 10] at hn

namespace Numeral

variable {n : Nat}

/-- Digits in front of other text are read as their number, as far as a `long`
goes. -/
theorem strtol_clamped (h : Numeral s n)
    (hEnd : ∀ c, t.head? = some c → Http.isDigit c = false) :
    strtol (s ++ t) = max (-2 ^ 63) (min (n : Int) (2 ^ 63 - 1)) := by
  obtain ⟨c, s', rfl⟩ := List.exists_cons_of_ne_nil h.ne_nil
  have hc := toNat_of_isDigit (h.isDigit c (List.mem_cons_self ..))
  have hSpace : isSpace c = false := by
    simp only [isSpace, Bool.or_eq_false_iff, Bool.and_eq_false_iff, decide_eq_false_iff_not,
      UInt8.le_iff_toNat_le, ← UInt8.toNat_inj]
    exact ⟨by simp; omega, Or.inr (by simp; omega)⟩
  have hValue : digits (c :: (s' ++ t)) = n := by
    rw [← List.cons_append, digits_append h.isDigit hEnd, h.digits_eq]
  have hMinus : c ≠ 45 := by
    rintro rfl
    exact absurd hc.1 (by decide)
  have hPlus : c ≠ 43 := by
    rintro rfl
    exact absurd hc.1 (by decide)
  unfold strtol
  rw [List.cons_append, List.dropWhile_cons, hSpace]
  simp only [Bool.false_eq_true, if_false]
  split
  · rename_i heq
    exact absurd (List.cons.inj heq).1 hMinus
  · rename_i heq
    exact absurd (List.cons.inj heq).1 hPlus
  · rw [hValue]

theorem strtol_append (h : Numeral s n) (hn : n < 2 ^ 63)
    (hEnd : ∀ c, t.head? = some c → Http.isDigit c = false) : strtol (s ++ t) = n := by
  rw [h.strtol_clamped hEnd]
  omega

theorem strtol_eq (h : Numeral s n) (hn : n < 2 ^ 63) : strtol s = n := by
  have hAll := h.strtol_append (t := []) hn (by simp)
  rwa [List.append_nil] at hAll

theorem atoi_eq (h : Numeral s n) (hn : n < 2 ^ 31) : atoi s = n := by
  unfold atoi
  rw [h.strtol_eq (by omega), Int.bmod_eq_of_le (by omega) (by omega)]

/-- No byte that is not a digit stands in a numeral. -/
theorem notMem (h : Numeral s n) {c : UInt8} (hc : Http.isDigit c = false) : c ∉ s := by
  intro hMem
  rw [h.isDigit c hMem] at hc
  cases hc

end Numeral

end Megatron.Http
