import Megatron.Corelib.BitStream
import Megatron.Lib.Bits

/-!
# What an `inBitStream` reads

The operations on bits take them from the front of those that are unread, which
are the rest of the byte at the position, highest first, and then the bits of
the bytes behind it.

## Main results

* `getBit_cons` — a bit is read.
* `getBits_append` — so is a field.
-/

namespace Megatron.Corelib.InBitStream

open Megatron.Lib
open Megatron.Lib.Bits
open Megatron.Lib.Stateful (bind_ok bind_error)

/-- At the beginning of a byte. -/
def AtBoundary (s : InBitStream) : Prop := s.mPos.bitsRemainsInByte = 8

variable {s : InBitStream} {b : Bool} {bs bs' : List Bool}

theorem boundary_eq (h : s.AtBoundary) : boundary s = (.ok (), s) := by
  rw [AtBoundary] at h
  rw [boundary, if_neg (not_not.2 h)]

theorem boundary_error (h : ¬ s.AtBoundary) : boundary s = (.error (boundaryError s.mPos), s) := by
  rw [AtBoundary] at h
  rw [boundary, if_pos h]

/-- A position in the array, or at its end and then at the beginning of a byte. -/
structure Valid (s : InBitStream) : Prop where
  mSize_eq : s.mSize.toNat = s.mData.length
  pos_le : s.mPos.pos.toNat ≤ s.mData.length
  rem_pos : 1 ≤ s.mPos.bitsRemainsInByte.toNat
  rem_le : s.mPos.bitsRemainsInByte.toNat ≤ 8
  rem_end : s.mPos.pos.toNat = s.mData.length → s.AtBoundary

/-- A position at the beginning of a byte. -/
theorem valid_of_boundary (hSize : s.mSize.toNat = s.mData.length)
    (hPos : s.mPos.pos.toNat ≤ s.mData.length) (h : s.AtBoundary) : s.Valid := by
  have hEight : s.mPos.bitsRemainsInByte.toNat = 8 := congrArg UInt64.toNat h
  exact ⟨hSize, hPos, by omega, by omega, fun _ => h⟩

theorem valid_ofObject (d : Object) : (ofObject d).Valid :=
  valid_of_boundary d.toNat_size (Nat.zero_le _) rfl

/-- The bits from the position on. -/
def unread (s : InBitStream) : List Bool :=
  (toBits (s.mData.drop s.mPos.pos.toNat)).drop (8 - s.mPos.bitsRemainsInByte.toNat)

theorem unread_of_boundary (h : s.AtBoundary) :
    s.unread = toBits (s.mData.drop s.mPos.pos.toNat) := by
  rw [AtBoundary] at h
  rw [unread, h]
  rfl

/-- What is left of the byte at the position, and the bytes behind it. -/
theorem unread_eq (h : s.Valid) {c : UInt8} (hGet : s.mData[s.mPos.pos.toNat]? = some c) :
    s.unread = bitsOf s.mPos.bitsRemainsInByte.toNat c.toNat ++
      toBits (s.mData.drop (s.mPos.pos.toNat + 1)) := by
  obtain ⟨hIn, hByte⟩ := List.getElem?_eq_some_iff.1 hGet
  have hRem := h.rem_le
  have hBits : bitsOf 8 c.toNat =
      bitsOf (s.mPos.bitsRemainsInByte.toNat + (8 - s.mPos.bitsRemainsInByte.toNat)) c.toNat := by
    rw [Nat.add_sub_of_le hRem]
  rw [unread, List.drop_eq_getElem_cons hIn, hByte, toBits_cons,
    List.drop_append_of_le_length (by rw [length_bitsOf]; exact Nat.sub_le _ _), hBits, drop_bitsOf]

/-- How many there are. -/
theorem length_unread (s : InBitStream) : s.unread.length =
    8 * (s.mData.length - s.mPos.pos.toNat) - (8 - s.mPos.bitsRemainsInByte.toNat) := by
  rw [unread, List.length_drop, length_toBits, List.length_drop]

/-- None are left at the end only. -/
theorem Valid.unread_eq_nil_iff (h : s.Valid) :
    s.unread = [] ↔ s.mPos.pos.toNat = s.mData.length := by
  have hPos := h.pos_le
  have hRem := h.rem_pos
  rw [← List.length_eq_zero_iff, length_unread]
  omega

/-! ## One bit -/

/-- `get_bit` beyond the end. -/
theorem getBit_nil (h : s.Valid) (hNil : s.unread = []) : getBit s = (.error .outside, s) := by
  have hEnd := h.unread_eq_nil_iff.1 hNil
  have hLoad : load s = (.error .outside, s) := by
    rw [load, List.getElem?_eq_none hEnd.ge]
  rw [getBit, bind_error hLoad]

/-- The bit that `get_bit` shifts out of a byte. -/
theorem decide_shift_eq (c : UInt8) {r : UInt64} (hPos : 1 ≤ r.toNat) (hLe : r.toNat ≤ 8) :
    decide (c >>> (r.toUInt8 - 1) &&& 1 = 1) = c.toNat.testBit (r.toNat - 1) := by
  have hByte : r.toUInt8.toNat = r.toNat := by
    rw [UInt64.toNat_toUInt8]
    omega
  have hLess : (r.toUInt8 - 1).toNat % 8 = r.toNat - 1 := by
    rw [UInt8.toNat_sub_of_le _ _ (UInt8.le_iff_toNat_le.2 (hByte.symm ▸ hPos)), hByte,
      show (1 : UInt8).toNat = 1 from rfl]
    omega
  have hBit : (c >>> (r.toUInt8 - 1) &&& 1).toNat = c.toNat / 2 ^ (r.toNat - 1) % 2 := by
    rw [UInt8.toNat_and, UInt8.toNat_shiftRight, hLess, Nat.shiftRight_eq_div_pow,
      show (1 : UInt8).toNat = 2 ^ 1 - 1 from rfl, Nat.and_two_pow_sub_one_eq_mod]
  rw [Nat.testBit_eq_decide_div_mod_eq]
  congr 1
  rw [← UInt8.toNat_inj, hBit]
  rfl

/-- **A bit is read**: the first of those that are unread. -/
theorem getBit_cons (h : s.Valid) (hNext : s.unread = b :: bs) :
    getBit s = (.ok b, { s with mPos := s.mPos.next }) ∧
      ({ s with mPos := s.mPos.next } : InBitStream).Valid ∧
      ({ s with mPos := s.mPos.next } : InBitStream).unread = bs := by
  have hSize := h.mSize_eq
  have hPos := h.pos_le
  have hRem := h.rem_pos
  have hLt := s.mSize.toNat_lt
  have hIn : s.mPos.pos.toNat < s.mData.length := by
    have hNot : s.mPos.pos.toNat ≠ s.mData.length := fun hEnd =>
      List.cons_ne_nil b bs (hNext.symm.trans (h.unread_eq_nil_iff.2 hEnd))
    omega
  have hGet : s.mData[s.mPos.pos.toNat]? = some s.mData[s.mPos.pos.toNat] :=
    List.getElem?_eq_getElem hIn
  generalize s.mData[s.mPos.pos.toNat] = c at hGet
  have hLoad : load s = (.ok c, s) := by rw [load, hGet]
  have hUnread := unread_eq h hGet
  obtain ⟨r, hr⟩ := Nat.exists_eq_add_of_le hRem
  rw [hNext, hr, Nat.add_comm 1 r, bitsOf, List.cons_append, List.cons.injEq] at hUnread
  obtain ⟨rfl, hRest⟩ := hUnread
  refine ⟨?_, ?_⟩
  · rw [getBit, bind_ok hLoad]
    show (Except.ok (decide _), _) = _
    rw [decide_shift_eq c hRem h.rem_le, hr, Nat.add_sub_cancel_left]
  · rcases s.mPos.next_eq hRem with ⟨hOne, hStep⟩ | ⟨hMore, hStep, hLess⟩
    · -- the last bit of its byte
      have hSum : (s.mPos.pos + 1).toNat = s.mPos.pos.toNat + 1 := by
        rw [UInt64.toNat_add, show (1 : UInt64).toNat = 1 from rfl]
        omega
      obtain rfl : r = 0 := by omega
      rw [hStep]
      have hStart : ({ s with mPos := ⟨s.mPos.pos + 1, 8⟩ } : InBitStream).AtBoundary := rfl
      refine ⟨valid_of_boundary hSize ?_ hStart, ?_⟩
      · show (s.mPos.pos + 1).toNat ≤ s.mData.length
        omega
      · rw [unread_of_boundary hStart, hRest]
        show toBits (s.mData.drop (s.mPos.pos + 1).toNat) = _
        rw [hSum]
        rfl
    · have hSame : s.mPos.next.pos = s.mPos.pos := by rw [hStep]
      have hRemLe := h.rem_le
      have hValid : ({ s with mPos := s.mPos.next } : InBitStream).Valid := by
        refine ⟨hSize, ?_, ?_, ?_, fun hEnd => ?_⟩
        · rw [hSame]
          exact hPos
        · show 1 ≤ s.mPos.next.bitsRemainsInByte.toNat
          omega
        · show s.mPos.next.bitsRemainsInByte.toNat ≤ 8
          omega
        · rw [hSame] at hEnd
          exact absurd hEnd hIn.ne
      refine ⟨hValid, ?_⟩
      have hGet' : s.mData[s.mPos.next.pos.toNat]? = some c := hSame.symm ▸ hGet
      rw [unread_eq hValid hGet', hRest]
      show bitsOf s.mPos.next.bitsRemainsInByte.toNat _ ++ toBits (s.mData.drop (s.mPos.next.pos.toNat + 1)) = _
      rw [hLess, hr, hSame, Nat.add_sub_cancel_left]

/-! ## Fields -/

/-- A bit is shifted into a number. -/
theorem shift_or_eq (v : UInt32) (b : Bool) :
    v <<< 1 ||| (if b then 1 else 0) = UInt32.ofNat (2 * v.toNat + b.toNat) := by
  have hLt := v.toNat_lt
  have hShift : (v <<< 1).toNat = 2 ^ 1 * (v.toNat % 2147483648) := by
    rw [UInt32.toNat_shiftLeft, show (1 : UInt32).toNat % 32 = 1 from rfl, Nat.shiftLeft_eq]
    omega
  apply UInt32.toNat_inj.1
  rw [UInt32.toNat_or, hShift, UInt32.toNat_ofNat']
  cases b with
  | false =>
      show 2 ^ 1 * (v.toNat % 2147483648) ||| 0 = (2 * v.toNat + 0) % 2 ^ 32
      rw [Nat.or_zero]
      omega
  | true =>
      show 2 ^ 1 * (v.toNat % 2147483648) ||| 1 = (2 * v.toNat + 1) % 2 ^ 32
      rw [← Nat.two_pow_add_eq_or_of_lt (by decide)]
      omega

/-- The loop of `get_bits`. -/
theorem getBitsLoop_append (bs : List Bool) :
    ∀ (v : ℕ) (s : InBitStream), s.Valid → s.unread = bs ++ bs' →
      ∃ s', getBitsLoop bs.length (UInt32.ofNat v) s =
          (.ok (UInt32.ofNat (v * 2 ^ bs.length + valueOf bs)), s') ∧
        s'.Valid ∧ s'.unread = bs' ∧ s'.mData = s.mData := by
  induction bs with
  | nil =>
      intro v s h hNext
      refine ⟨s, ?_, h, hNext, rfl⟩
      rw [List.length_nil, Nat.pow_zero, Nat.mul_one, valueOf_nil, Nat.add_zero]
      rfl
  | cons b bs ih =>
      intro v s h hNext
      obtain ⟨hBit, hValid, hRest⟩ := getBit_cons h hNext
      obtain ⟨s', hRun, hValid', hRest', hData⟩ := ih (2 * v + b.toNat) _ hValid hRest
      refine ⟨s', ?_, hValid', hRest', hData⟩
      have hStep : UInt32.ofNat v <<< 1 ||| (if b then 1 else 0) = UInt32.ofNat (2 * v + b.toNat) := by
        rw [shift_or_eq]
        apply UInt32.toNat_inj.1
        rw [UInt32.toNat_ofNat', UInt32.toNat_ofNat', UInt32.toNat_ofNat', Nat.add_mod, Nat.mul_mod,
          Nat.mod_mod, ← Nat.mul_mod, ← Nat.add_mod]
      have hSum : (2 * v + b.toNat) * 2 ^ bs.length + valueOf bs =
          v * 2 ^ (b :: bs).length + valueOf (b :: bs) := by
        rw [valueOf_cons, List.length_cons, Nat.pow_succ]
        ring
      rw [List.length_cons, getBitsLoop, bind_ok hBit, hStep, hRun, hSum, List.length_cons]

/-- **A field is read**. -/
theorem getBits_append {bitcount : Int32} (h : s.Valid) (hNext : s.unread = bs ++ bs')
    (hLength : bitcount.toInt.toNat = bs.length) :
    ∃ s', getBits bitcount s = (.ok (UInt32.ofNat (valueOf bs)), s') ∧ s'.Valid ∧
      s'.unread = bs' ∧ s'.mData = s.mData := by
  obtain ⟨s', hRun, hValid, hRest, hData⟩ := getBitsLoop_append bs 0 s h hNext
  rw [Nat.zero_mul, Nat.zero_add] at hRun
  exact ⟨s', by rw [getBits, hLength]; exact hRun, hValid, hRest, hData⟩

/-- The loop runs beyond the end where there are fewer bits. -/
theorem getBitsLoop_short (n : ℕ) :
    ∀ (v : UInt32) (s : InBitStream), s.Valid → s.unread.length < n →
      ∃ s', getBitsLoop n v s = (.error .outside, s') := by
  induction n with
  | zero => exact fun v s _ hLess => absurd hLess (Nat.not_lt_zero _)
  | succ n ih =>
      intro v s h hLess
      cases hNext : s.unread with
      | nil => exact ⟨s, by rw [getBitsLoop, bind_error (getBit_nil h hNext)]⟩
      | cons b bs =>
          obtain ⟨hBit, hValid, hRest⟩ := getBit_cons h hNext
          rw [hNext, List.length_cons] at hLess
          obtain ⟨s', hRun⟩ := ih (v <<< 1 ||| (if b then 1 else 0)) _ hValid
            (hRest.symm ▸ Nat.lt_of_succ_lt_succ hLess)
          exact ⟨s', by rw [getBitsLoop, bind_ok hBit, hRun]⟩

/-- The bits that are unread say where the position is. -/
theorem Valid.pos_eq (h : s.Valid) {tail : Bytes} (hUnread : s.unread = toBits tail) :
    s.AtBoundary ∧ s.mPos.pos.toNat + tail.length = s.mData.length := by
  have hLength := congrArg List.length hUnread
  have hPos := h.pos_le
  have hRem := h.rem_le
  have hRem' := h.rem_pos
  rw [length_unread, length_toBits] at hLength
  by_cases hEnd : s.mPos.pos.toNat = s.mData.length
  · exact ⟨h.rem_end hEnd, by omega⟩
  · have hEight : s.mPos.bitsRemainsInByte.toNat = 8 := by omega
    exact ⟨UInt64.toNat_inj.1 hEight, by omega⟩

end Megatron.Corelib.InBitStream
