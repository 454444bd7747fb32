import Mathlib.Data.Nat.Bitwise
import Mathlib.Tactic.Ring

/-!
# Bits, the highest first

The bits of a number in a field of a given width, and of a byte string, as
lists, and the number that a list of bits is.

## Main results

* `valueOf_bitsOf`, `bitsOf_valueOf` — fields and numbers.
* `valueOf_cons`, `valueOf_concat` — a bit at either end.
* `toBits_append` — the bits of bytes behind bytes.
-/

namespace Megatron.Lib.Bits

/-- The lowest `w` bits of a number. -/
def bitsOf : ℕ → ℕ → List Bool
  | 0, _ => []
  | w + 1, v => v.testBit w :: bitsOf w v

/-- The number that the bits are. -/
def valueOf (bs : List Bool) : ℕ := bs.foldl (fun v b => 2 * v + b.toNat) 0

/-- The bits of a byte string. -/
def toBits (s : List UInt8) : List Bool := s.flatMap fun c => bitsOf 8 c.toNat

variable {w v n : ℕ} {bs bs' : List Bool} {s t : List UInt8}

@[simp] theorem length_bitsOf (w v : ℕ) : (bitsOf w v).length = w := by
  induction w with
  | zero => rfl
  | succ w ih => rw [bitsOf, List.length_cons, ih]

theorem drop_bitsOf (w k v : ℕ) : (bitsOf (w + k) v).drop k = bitsOf w v := by
  induction k with
  | zero => rfl
  | succ k ih => exact ih

/-! ## Values -/

@[simp] theorem valueOf_nil : valueOf [] = 0 := rfl

theorem foldl_eq (bs : List Bool) :
    ∀ v, bs.foldl (fun v b => 2 * v + b.toNat) v = v * 2 ^ bs.length + valueOf bs := by
  induction bs with
  | nil => simp
  | cons b bs ih =>
      intro v
      rw [valueOf, List.foldl_cons, List.foldl_cons, ih, ih (2 * 0 + b.toNat), List.length_cons,
        Nat.pow_succ]
      ring

theorem valueOf_concat (bs : List Bool) (b : Bool) :
    valueOf (bs ++ [b]) = 2 * valueOf bs + b.toNat := by
  rw [valueOf, List.foldl_append]
  rfl

/-- A bit that is shifted in. -/
theorem two_mul_add_mod (c m : ℕ) (b : Bool) :
    (2 * c + b.toNat) % (2 * m) = 2 * (c % m) + b.toNat := by
  rcases Nat.eq_zero_or_pos m with rfl | hPos
  · simp
  · have hRest := Nat.mod_lt c hPos
    have hBit : b.toNat ≤ 1 := Bool.toNat_le b
    have hSplit : 2 * c + b.toNat = 2 * m * (c / m) + (2 * (c % m) + b.toNat) := by
      have hParts := Nat.div_add_mod c m
      rw [Nat.mul_assoc]
      omega
    rw [hSplit, Nat.mul_add_mod, Nat.mod_eq_of_lt (by omega)]

theorem valueOf_cons (b : Bool) (bs : List Bool) :
    valueOf (b :: bs) = b.toNat * 2 ^ bs.length + valueOf bs := by
  rw [valueOf, List.foldl_cons, foldl_eq, Nat.mul_zero, Nat.zero_add]

theorem valueOf_lt (bs : List Bool) : valueOf bs < 2 ^ bs.length := by
  induction bs with
  | nil => exact Nat.one_pos
  | cons b bs ih =>
      rw [valueOf_cons, List.length_cons, Nat.pow_succ]
      cases b <;> simp <;> omega

/-- **A field** holds a number up to its width. -/
theorem valueOf_bitsOf (w v : ℕ) : valueOf (bitsOf w v) = v % 2 ^ w := by
  induction w with
  | zero => simp [bitsOf, Nat.mod_one]
  | succ w ih =>
      rw [bitsOf, valueOf_cons, ih, length_bitsOf, Nat.mod_pow_succ, Nat.toNat_testBit]
      ring

theorem valueOf_bitsOf_of_lt (h : v < 2 ^ w) : valueOf (bitsOf w v) = v := by
  rw [valueOf_bitsOf, Nat.mod_eq_of_lt h]

/-- Fields of one width with one value are equal. -/
theorem eq_of_valueOf (hLength : bs.length = bs'.length) (h : valueOf bs = valueOf bs') :
    bs = bs' := by
  induction bs generalizing bs' with
  | nil => exact (List.length_eq_zero_iff.1 hLength.symm).symm
  | cons b bs ih =>
      cases bs' with
      | nil => cases hLength
      | cons b' bs' =>
          have hTail : bs.length = bs'.length := Nat.succ.inj hLength
          rw [valueOf_cons, valueOf_cons, hTail] at h
          have hLt := valueOf_lt bs
          have hLt' := valueOf_lt bs'
          rw [hTail] at hLt
          have hHead : b = b' := by
            cases b <;> cases b' <;> simp at h ⊢ <;> omega
          subst hHead
          rw [ih hTail (Nat.add_left_cancel h)]

/-- **The bits of a value** are those it was made of. -/
theorem bitsOf_valueOf (bs : List Bool) : bitsOf bs.length (valueOf bs) = bs :=
  eq_of_valueOf (length_bitsOf _ _) (valueOf_bitsOf_of_lt (valueOf_lt bs))

/-! ## Bytes -/

@[simp] theorem toBits_nil : toBits [] = [] := rfl

@[simp] theorem toBits_cons (c : UInt8) (s : List UInt8) :
    toBits (c :: s) = bitsOf 8 c.toNat ++ toBits s := rfl

@[simp] theorem toBits_append (s t : List UInt8) : toBits (s ++ t) = toBits s ++ toBits t :=
  List.flatMap_append

theorem length_toBits (s : List UInt8) : (toBits s).length = 8 * s.length := by
  induction s with
  | nil => rfl
  | cons c s ih =>
      rw [toBits_cons, List.length_append, length_bitsOf, ih, List.length_cons]
      omega

end Megatron.Lib.Bits
