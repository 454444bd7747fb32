import Megatron.Corelib.TlvLength
import Megatron.Lib.Machine

/-!
# Reading to the end of the data

The operations on bytes ask for what is left before they read.  The operations on
bits do not: where fewer bits are left than one takes, it reads beyond the array.  A
run is any sequence of operations, whose exceptions are caught.

## Main results

* `safely_run` — one operation.
* `run_outside` — an operation on bits that lacks data.
* `sound_iff_enoughBits` — the runs that stay in the array.
-/

namespace Megatron.Corelib.InBitStream

open Megatron.Lib
open Megatron.Lib.Bits
open Megatron.Lib.Stateful

variable {α : Type} {d : Object} {s s' : InBitStream} {Q Q' : α → InBitStream → Prop}
  {p : BitIn α} {n : ℕ}

/-! ## Operations that stay in the array -/

/-- The stream reads the bytes of the object. -/
structure Kept (d : Object) (s : InBitStream) : Prop where
  valid : s.Valid
  mData_eq : s.mData = d.val

theorem kept_ofObject (d : Object) : Kept d (ofObject d) := ⟨valid_ofObject d, rfl⟩

theorem Kept.length_lt (h : Kept d s) : s.mData.length < 2 ^ 63 := by
  rw [h.mData_eq]
  exact d.property

/-- From `s` the operation stays in the array and ends, with `Q` or with an
exception. -/
abbrev Safely (d : Object) (p : BitIn α) (s : InBitStream) (Q : α → InBitStream → Prop) : Prop :=
  Ends (Kept d) Stop.Exception p s Q

/-- The bytes from the position on. -/
def rest (s : InBitStream) : Bytes := s.mData.drop s.mPos.pos.toNat

theorem Valid.length_rest (h : s.Valid) :
    s.rest.length = s.mData.length - s.mPos.pos.toNat ∧ s.remains.toNat = s.rest.length := by
  have hSize := h.mSize_eq
  have hPos := h.pos_le
  have hLength : s.rest.length = s.mData.length - s.mPos.pos.toNat := List.length_drop
  refine ⟨hLength, ?_⟩
  rw [remains, UInt64.toNat_sub_of_le _ _ (UInt64.le_iff_toNat_le.2 (hSize.symm ▸ hPos)), hSize,
    hLength]

/-- At the beginning of a byte the test for it passes, and elsewhere it throws. -/
theorem safely_boundary (h : Kept d s) :
    Safely d boundary s fun _ s' => s' = s ∧ s.AtBoundary := by
  by_cases hStart : s.AtBoundary
  · exact ends_ok (boundary_eq hStart) h ⟨rfl, hStart⟩
  · exact ends_error (boundary_error hStart) h trivial

/-- The test of the size compares it with the bytes that are left. -/
theorem lacks_eq (h : Kept d s) (hn : n < 2 ^ 62) :
    lacks (UInt64.ofNat n) s = (.ok (decide (s.rest.length < n)), s) := by
  have hLt := h.length_lt
  have hSize := h.valid.mSize_eq
  have hPos := h.valid.pos_le
  obtain ⟨hLength, -⟩ := h.valid.length_rest
  have hN : (UInt64.ofNat n).toNat = n := UInt64.toNat_ofNat_of_lt' (hn.trans (by decide))
  have hSum : (s.mPos.pos + UInt64.ofNat n).toNat = s.mPos.pos.toNat + n := by
    rw [UInt64.toNat_add, hN]
    omega
  have hTest : s.mPos.pos + UInt64.ofNat n > s.mSize ↔ s.rest.length < n := by
    rw [gt_iff_lt, UInt64.lt_iff_toNat_lt, hSum, hSize]
    omega
  rw [lacks, decide_eq_decide.2 hTest]

/-- The position behind bytes that are there. -/
theorem Kept.advance (h : Kept d s) (hStart : s.AtBoundary) {k : UInt64}
    (hk : k.toNat ≤ s.rest.length) :
    Kept d { s with mPos := { s.mPos with pos := s.mPos.pos + k } } ∧
      ({ s with mPos := { s.mPos with pos := s.mPos.pos + k } } : InBitStream).rest =
        s.rest.drop k.toNat := by
  have hLt := h.length_lt
  have hPos := h.valid.pos_le
  obtain ⟨hLength, -⟩ := h.valid.length_rest
  have hSum : (s.mPos.pos + k).toNat = s.mPos.pos.toNat + k.toNat := by
    rw [UInt64.toNat_add]
    omega
  refine ⟨⟨valid_of_boundary h.valid.mSize_eq ?_ hStart, h.mData_eq⟩, ?_⟩
  · show (s.mPos.pos + k).toNat ≤ s.mData.length
    omega
  · show s.mData.drop (s.mPos.pos + k).toNat = (s.mData.drop s.mPos.pos.toNat).drop k.toNat
    rw [hSum, List.drop_drop]

/-- A load reads the first of the bytes that are left. -/
theorem safely_loadNext (h : Kept d s) (hStart : s.AtBoundary) {c : UInt8} {tail : Bytes}
    (hRest : s.rest = c :: tail) :
    Safely d loadNext s fun c' s' => c' = c ∧ s'.rest = tail ∧ s'.AtBoundary := by
  obtain ⟨hKept, hTail⟩ := h.advance hStart (k := 1) (by rw [hRest]; exact Nat.succ_pos _)
  have hLoad : load s = (.ok c, s) := by
    have hGet : s.mData[s.mPos.pos.toNat]? = some c := by
      rw [← List.head?_drop]
      exact (congrArg List.head? hRest).trans List.head?_cons
    rw [load, hGet]
  have hRun : loadNext s = (.ok c, { s with mPos := { s.mPos with pos := s.mPos.pos + 1 } }) := by
    rw [loadNext, bind_ok hLoad]
  refine ends_ok hRun hKept ⟨rfl, ?_, hStart⟩
  rw [hTail, hRest]
  rfl

/-- `n` loads read the first `n` of the bytes that are left. -/
theorem safely_loadBytes (n : ℕ) :
    ∀ s, Kept d s → s.AtBoundary → n ≤ s.rest.length →
      Safely d (loadBytes n) s fun l s' => l.length = n ∧ s.rest = l ++ s'.rest ∧ s'.AtBoundary := by
  induction n with
  | zero => exact fun s h hStart _ => ends_pure h ⟨rfl, rfl, hStart⟩
  | succ n ih =>
      intro s h hStart hThere
      obtain ⟨c, tail, hRest⟩ := List.exists_cons_of_length_pos (Nat.lt_of_succ_le
        ((Nat.succ_le_succ n.zero_le).trans hThere))
      refine (safely_loadNext h hStart hRest).bind fun c' s₁ h₁ hNext => ?_
      obtain ⟨rfl, hTail, hStart₁⟩ := hNext
      rw [hRest, List.length_cons, ← hTail] at hThere
      refine (ih s₁ h₁ hStart₁ (Nat.le_of_succ_le_succ hThere)).bind fun l s₂ h₂ hMore => ?_
      obtain ⟨hLength, hRest₂, hStart₂⟩ := hMore
      exact ends_pure h₂ ⟨congrArg Nat.succ hLength, by rw [hRest, ← hTail, hRest₂, List.cons_append],
        hStart₂⟩

/-- A number of `n` bytes is read, or there are too few and `what` is thrown. -/
theorem safely_getWide (h : Kept d s) (hn : n < 2 ^ 62) (what : String) :
    Safely d (getWide n what) s fun l s' =>
      l.length = n ∧ s.rest = l ++ s'.rest ∧ s'.AtBoundary := by
  by_cases hStart : s.AtBoundary
  · by_cases hLess : s.rest.length < n
    · refine ends_error (e := .thrown ⟨what⟩) ?_ h trivial
      rw [getWide, bind_ok (boundary_eq hStart), bind_ok (lacks_eq h hn), decide_eq_true hLess]
      rfl
    · refine Ends.of_eq ?_ (safely_loadBytes n s h hStart (Nat.not_lt.1 hLess))
      rw [getWide, bind_ok (boundary_eq hStart), bind_ok (lacks_eq h hn), decide_eq_false hLess]
      rfl
  · exact ends_error (bind_error (boundary_error hStart)) h trivial

/-- A number of `n` bytes is read, or there are too few and `success` is `false`. -/
theorem safely_getWideNothrow (h : Kept d s) (hn : n < 2 ^ 62) :
    Safely d (getWideNothrow n) s fun r s' => ∀ l, r = some l →
      l.length = n ∧ s.rest = l ++ s'.rest ∧ s'.AtBoundary := by
  by_cases hStart : s.AtBoundary
  · by_cases hLess : s.rest.length < n
    · refine ends_ok (x := none) (t := s) ?_ h (fun l hl => by cases hl)
      rw [getWideNothrow, bind_ok (boundary_eq hStart), bind_ok (lacks_eq h hn), decide_eq_true hLess]
      rfl
    · have hBytes := (safely_loadBytes n s h hStart (Nat.not_lt.1 hLess)).bind
        (f := fun l => (pure (some l) : BitIn (Option Bytes)))
        (R := fun r s' => ∀ l, r = some l → l.length = n ∧ s.rest = l ++ s'.rest ∧ s'.AtBoundary)
        fun l s' hKept hl => ends_pure hKept fun l' hl' => Option.some.inj hl' ▸ hl
      refine Ends.of_eq ?_ hBytes
      rw [getWideNothrow, bind_ok (boundary_eq hStart), bind_ok (lacks_eq h hn),
        decide_eq_false hLess]
      rfl
  · exact ends_error (bind_error (boundary_error hStart)) h trivial

/-- `get_8` takes the first of the bytes that are left. -/
theorem safely_get8 (h : Kept d s) :
    Safely d get8 s fun c s' => s.rest = c :: s'.rest ∧ s'.AtBoundary := by
  refine (safely_getWide h (by decide) _).bind fun l s' h' hl => ends_pure h' ?_
  obtain ⟨hOne, hRest, hStart⟩ := hl
  obtain ⟨c, rfl⟩ := List.length_eq_one_iff.1 hOne
  exact ⟨hRest, hStart⟩

theorem safely_get8Nothrow (h : Kept d s) :
    Safely d get8Nothrow s fun r s' => ∀ c, r = some c → s.rest = c :: s'.rest ∧ s'.AtBoundary := by
  refine (safely_getWideNothrow h (by decide)).bind fun r s' h' hr => ends_pure h' fun c hc => ?_
  cases r with
  | none => cases hc
  | some l =>
      obtain ⟨hOne, hRest, hStart⟩ := hr l rfl
      obtain ⟨c', rfl⟩ := List.length_eq_one_iff.1 hOne
      obtain rfl : c' = c := Option.some.inj hc
      exact ⟨hRest, hStart⟩

/-! ## Packed numbers and strings -/

/-- The packed number at the front of the bytes, and what follows it. -/
def packed : UInt64 → Bytes → Option (UInt64 × Bytes)
  | _, [] => none
  | nn, c :: tail =>
      if c < 0x80 then some (nn <<< 7 ||| c.toUInt64, tail)
      else packed (nn <<< 7 ||| (c &&& 0x7F).toUInt64) tail

theorem safely_getPNLoop (fuel : ℕ) :
    ∀ (nn : UInt64) (s : InBitStream), Kept d s → s.rest.length < fuel →
      Safely d (getPNLoop fuel nn) s fun v s' => packed nn s.rest = some (v, s'.rest) ∧ s'.AtBoundary := by
  induction fuel with
  | zero => exact fun nn s _ hLess => absurd hLess (Nat.not_lt_zero _)
  | succ fuel ih =>
      intro nn s h hLess
      refine (safely_get8 h).bind fun c s₁ h₁ hNext => ?_
      obtain ⟨hRest, hStart⟩ := hNext
      rw [hRest, packed]
      rw [hRest, List.length_cons] at hLess
      by_cases hLast : c < 0x80
      · rw [if_pos hLast, if_pos hLast]
        exact ends_pure h₁ ⟨rfl, hStart⟩
      · rw [if_neg hLast, if_neg hLast]
        exact ih _ s₁ h₁ (Nat.lt_of_succ_lt_succ hLess)

theorem safely_getPNNothrowLoop (fuel : ℕ) :
    ∀ (nn : UInt64) (s : InBitStream), Kept d s → s.rest.length < fuel →
      Safely d (getPNNothrowLoop fuel nn) s fun r s' => ∀ v, r = some v →
        packed nn s.rest = some (v, s'.rest) ∧ s'.AtBoundary := by
  induction fuel with
  | zero => exact fun nn s _ hLess => absurd hLess (Nat.not_lt_zero _)
  | succ fuel ih =>
      intro nn s h hLess
      refine (safely_get8Nothrow h).bind fun r s₁ h₁ hNext => ?_
      cases r with
      | none => exact ends_pure h₁ fun v hv => by cases hv
      | some c =>
          obtain ⟨hRest, hStart⟩ := hNext c rfl
          rw [hRest, packed]
          rw [hRest, List.length_cons] at hLess
          by_cases hLast : c < 0x80
          · simp only [if_pos hLast]
            exact ends_pure h₁ fun v hv => ⟨by rw [Option.some.inj hv], hStart⟩
          · simp only [if_neg hLast]
            exact ih _ s₁ h₁ (Nat.lt_of_succ_lt_succ hLess)

/-- The fuel of the loops exceeds the number of bytes that are left. -/
theorem Kept.fuel (h : Kept d s) : s.rest.length < s.mSize.toNat + 1 := by
  obtain ⟨hLength, -⟩ := h.valid.length_rest
  rw [h.valid.mSize_eq, hLength]
  omega

theorem safely_getPN (h : Kept d s) :
    Safely d getPN s fun v s' => packed 0 s.rest = some (v, s'.rest) ∧ s'.AtBoundary :=
  safely_getPNLoop _ 0 s h h.fuel

theorem safely_getPNNothrow (h : Kept d s) :
    Safely d getPNNothrow s fun r s' => ∀ v, r = some v →
      packed 0 s.rest = some (v, s'.rest) ∧ s'.AtBoundary :=
  safely_getPNNothrowLoop _ 0 s h h.fuel

theorem safely_beforeEnd (h : Kept d s) :
    Safely d beforeEnd s fun _ s' => s' = s := by
  refine (safely_boundary h).bind fun _ s₁ _ hSame => ?_
  obtain ⟨rfl, -⟩ := hSame
  exact ends_ok rfl h rfl

theorem safely_getPSTRLoop (n : ℕ) :
    ∀ (container : Bytes) (s : InBitStream), Kept d s →
      Safely d (getPSTRLoop n container) s fun _ _ => True := by
  induction n with
  | zero => exact fun container s h => ends_pure h trivial
  | succ n ih =>
      intro container s h
      refine (safely_beforeEnd h).bind fun b s₁ h₁ _ => ?_
      cases b with
      | false => exact ends_pure h₁ trivial
      | true => exact (safely_get8 h₁).bind fun c s₂ h₂ _ => ih _ s₂ h₂

theorem safely_getPSTRNothrowLoop (n : ℕ) :
    ∀ (container : Bytes) (s : InBitStream), Kept d s →
      Safely d (getPSTRNothrowLoop n container) s fun _ _ => True := by
  induction n with
  | zero => exact fun container s h => ends_pure h trivial
  | succ n ih =>
      intro container s h
      refine (safely_beforeEnd h).bind fun b s₁ h₁ _ => ?_
      cases b with
      | false => exact ends_pure h₁ trivial
      | true =>
          refine (safely_get8Nothrow h₁).bind fun r s₂ h₂ _ => ?_
          cases r with
          | none => exact ends_pure h₂ trivial
          | some c => exact ih _ s₂ h₂

/-- A packed number with as many bytes behind it as it says. -/
def HasString (s : InBitStream) : Prop :=
  ∃ e ∈ packed 0 s.rest, e.1.toNat ≤ e.2.length

theorem safely_getPSTR (h : Kept d s) : Safely d getPSTR s fun _ _ => s.HasString := by
  refine (safely_getPN h).bind fun sz s₁ h₁ hNumber => ?_
  obtain ⟨hPacked, -⟩ := hNumber
  obtain ⟨-, hLeft⟩ := h₁.valid.length_rest
  by_cases hShort : s₁.remains < sz
  · refine ends_error (e := shortError s₁) ?_ h₁ trivial
    rw [bind_ok (p := get) (t := s₁) rfl, if_pos hShort]
    rfl
  · refine Ends.of_eq (q := getPSTRLoop sz.toNat []) (t := s₁) ?_
      ((safely_getPSTRLoop _ _ s₁ h₁).mono fun _ _ _ _ => ⟨_, hPacked, ?_⟩)
    · rw [bind_ok (p := get) (t := s₁) rfl, if_neg hShort]
    · rw [UInt64.lt_iff_toNat_lt, hLeft] at hShort
      exact Nat.not_lt.1 hShort

theorem safely_getPSTRNothrow (h : Kept d s) :
    Safely d getPSTRNothrow s fun r _ => r.isSome → s.HasString := by
  refine (safely_getPNNothrow h).bind fun r s₁ h₁ hNumber => ?_
  cases r with
  | none => exact ends_pure h₁ fun hNone => by cases hNone
  | some sz =>
      obtain ⟨hPacked, -⟩ := hNumber sz rfl
      obtain ⟨-, hLeft⟩ := h₁.valid.length_rest
      by_cases hShort : s₁.remains < sz
      · refine ends_ok (x := none) (t := s₁) ?_ h₁ fun hNone => by cases hNone
        dsimp only
        rw [bind_ok (p := get) (t := s₁) rfl, if_pos hShort]
        rfl
      · refine Ends.of_eq (q := getPSTRNothrowLoop sz.toNat []) (t := s₁) ?_
          ((safely_getPSTRNothrowLoop _ _ s₁ h₁).mono fun _ _ _ _ _ => ⟨_, hPacked, ?_⟩)
        · dsimp only
          rw [bind_ok (p := get) (t := s₁) rfl, if_neg hShort]
        · rw [UInt64.lt_iff_toNat_lt, hLeft] at hShort
          exact Nat.not_lt.1 hShort

/-! ## Bytes as they are -/

theorem safely_unpackNothrow (h : Kept d s) (size : UInt64) :
    Safely d (unpackNothrow size) s fun r _ => r.isSome → size.toNat ≤ s.rest.length := by
  refine (safely_boundary h).bind fun _ s₁ _ hSame => ?_
  obtain ⟨rfl, hStart⟩ := hSame
  obtain ⟨hLength, hLeft⟩ := h.valid.length_rest
  by_cases hMore : size > s₁.mSize - s₁.mPos.pos
  · refine ends_ok (x := none) (t := s₁) ?_ h fun hNone => by cases hNone
    rw [if_pos hMore]
  · have hThere : size.toNat ≤ s₁.rest.length := by
      rw [gt_iff_lt, UInt64.lt_iff_toNat_lt, show (s₁.mSize - s₁.mPos.pos).toNat = _ from hLeft] at hMore
      exact Nat.not_lt.1 hMore
    have hPos := h.valid.pos_le
    obtain ⟨hKept, -⟩ := h.advance hStart hThere
    refine ends_ok (x := some ((s₁.mData.drop s₁.mPos.pos.toNat).take size.toNat))
      (t := { s₁ with mPos := { s₁.mPos with pos := s₁.mPos.pos + size } }) ?_ hKept fun _ => hThere
    rw [if_neg hMore, if_pos (by omega)]

theorem safely_unpack (h : Kept d s) (size : UInt64) :
    Safely d (unpack size) s fun _ _ => size.toNat ≤ s.rest.length := by
  refine (safely_unpackNothrow h size).bind fun r s₁ h₁ hr => ?_
  cases r with
  | none => exact ends_throw h₁ trivial
  | some l => exact ends_pure h₁ (hr rfl)

/-! ## Bits -/

/-- The bits that a length in TLV takes, if there are so many. -/
def lengthBits (bs : List Bool) : ℕ :=
  if bs.head? = some true ∧ valueOf ((bs.drop 1).take 7) ≤ 4 then
    8 + 8 * valueOf ((bs.drop 1).take 7)
  else 8

theorem eight_le_lengthBits (bs : List Bool) : 8 ≤ lengthBits bs := by
  rw [lengthBits]
  split <;> omega

theorem safely_getBits (h : Kept d s) {bitcount : Int32}
    (hThere : bitcount.toInt.toNat ≤ s.unread.length) :
    Safely d (getBits bitcount) s fun _ _ => True := by
  obtain ⟨s', hRun, hValid, -, hData⟩ := getBits_append h.valid
    (List.take_append_drop bitcount.toInt.toNat s.unread).symm
    (by rw [List.length_take, Nat.min_eq_left hThere])
  exact ends_ok hRun ⟨hValid, hData.trans h.mData_eq⟩ trivial

/-- Eight bits at the front, the first of them apart. -/
theorem exists_eight {bs : List Bool} (h : 8 ≤ bs.length) :
    ∃ b seven more, bs = b :: (seven ++ more) ∧ seven.length = 7 ∧ (bs.drop 1).take 7 = seven := by
  cases bs with
  | nil => exact absurd h (by decide)
  | cons b bs =>
      refine ⟨b, bs.take 7, bs.drop 7, by rw [List.take_append_drop], ?_, rfl⟩
      rw [List.length_cons] at h
      rw [List.length_take]
      omega

theorem safely_getTlvLength (h : Kept d s) (hThere : lengthBits s.unread ≤ s.unread.length) :
    Safely d getTlvLength s fun _ _ => True := by
  obtain ⟨b, seven, more, hNext, hSeven, hTake⟩ :=
    exists_eight ((eight_le_lengthBits s.unread).trans hThere)
  rw [lengthBits, hTake, hNext, List.head?_cons] at hThere
  cases b with
  | false =>
      obtain ⟨s', hRun, hValid, -, hData⟩ := getTlvLength_false h.valid hNext hSeven
      exact ends_ok hRun ⟨hValid, hData.trans h.mData_eq⟩ trivial
  | true =>
      by_cases hFew : valueOf seven ≤ 4
      · rw [if_pos ⟨rfl, hFew⟩, List.length_cons, List.length_append, hSeven] at hThere
        rw [← List.take_append_drop (8 * valueOf seven) more] at hNext
        obtain ⟨s', hRun, hValid, -, hData⟩ := getTlvLength_true h.valid hNext hSeven hFew
          (by rw [List.length_take]; omega)
        exact ends_ok hRun ⟨hValid, hData.trans h.mData_eq⟩ trivial
      · obtain ⟨e, s', hRun, hValid, hData⟩ :=
          getTlvLength_many h.valid hNext hSeven (Nat.not_le.1 hFew)
        exact ends_error hRun ⟨hValid, hData.trans h.mData_eq⟩ trivial

theorem getTlvLength_outside (h : s.Valid) (hLess : s.unread.length < lengthBits s.unread) :
    ∃ s', getTlvLength s = (.error .outside, s') := by
  by_cases hEight : 8 ≤ s.unread.length
  · obtain ⟨b, seven, more, hNext, hSeven, hTake⟩ := exists_eight hEight
    rw [lengthBits, hTake] at hLess
    by_cases hLong : s.unread.head? = some true ∧ valueOf seven ≤ 4
    · obtain ⟨hHead, hFew⟩ := hLong
      rw [if_pos ⟨hHead, hFew⟩, hNext, List.length_cons, List.length_append, hSeven] at hLess
      rw [hNext, List.head?_cons] at hHead
      obtain rfl : b = true := Option.some.inj hHead
      exact getTlvLength_cut h hNext hSeven hFew (by omega)
    · rw [if_neg hLong] at hLess
      exact absurd hEight (Nat.not_le.2 hLess)
  · exact getTlvLength_few h (Nat.not_le.1 hEight)

/-! ## Any operation -/

/-- The operations; `operator>>` is `get_PN` or `get_PSTR`. -/
inductive Op
  | get8
  | get8Nothrow
  | get16LE
  | get16LENothrow
  | get16BE
  | get32LE
  | get32BE
  | getPN
  | getPNNothrow
  | getPSTR
  | getPSTRNothrow
  | unpack (size : UInt64)
  | unpackNothrow (size : UInt64)
  | unpackRest
  | beforeEnd
  | getBit
  | getBits (bitcount : Int32)
  | getTlvLength

namespace Op

/-- Whether the operation, where it returns, reports success. -/
def run : Op → BitIn Bool
  | get8 => do let _ ← InBitStream.get8; return true
  | get8Nothrow => do return (← InBitStream.get8Nothrow).isSome
  | get16LE => do let _ ← InBitStream.get16LE; return true
  | get16LENothrow => do return (← InBitStream.get16LENothrow).isSome
  | get16BE => do let _ ← InBitStream.get16BE; return true
  | get32LE => do let _ ← InBitStream.get32LE; return true
  | get32BE => do let _ ← InBitStream.get32BE; return true
  | getPN => do let _ ← InBitStream.getPN; return true
  | getPNNothrow => do return (← InBitStream.getPNNothrow).isSome
  | getPSTR => do let _ ← InBitStream.getPSTR; return true
  | getPSTRNothrow => do return (← InBitStream.getPSTRNothrow).isSome
  | unpack size => do let _ ← InBitStream.unpack size; return true
  | unpackNothrow size => do return (← InBitStream.unpackNothrow size).isSome
  | unpackRest => do let _ ← InBitStream.unpackRest; return true
  | beforeEnd => do let _ ← InBitStream.beforeEnd; return true
  | getBit => do let _ ← InBitStream.getBit; return true
  | getBits bitcount => do let _ ← InBitStream.getBits bitcount; return true
  | getTlvLength => do let _ ← InBitStream.getTlvLength; return true

/-- There is less data than the operation takes. -/
def lacksData (s : InBitStream) : Op → Bool
  | get8 | get8Nothrow => decide (s.rest.length < 1)
  | get16LE | get16LENothrow | get16BE => decide (s.rest.length < 2)
  | get32LE | get32BE => decide (s.rest.length < 4)
  | getPN | getPNNothrow => (packed 0 s.rest).isNone
  | getPSTR | getPSTRNothrow => (packed 0 s.rest).all fun e => decide (e.2.length < e.1.toNat)
  | unpack size | unpackNothrow size => decide (s.rest.length < size.toNat)
  | unpackRest | beforeEnd => false
  | getBit => decide (s.unread.length < 1)
  | getBits bitcount => decide (s.unread.length < bitcount.toInt.toNat)
  | getTlvLength => decide (s.unread.length < lengthBits s.unread)

/-- The operations on bits. -/
def ofBits : Op → Bool
  | getBit | getBits _ | getTlvLength => true
  | _ => false

end Op

/-- An operation without `success` counts as successful where it returns. -/
theorem Safely.given {T : Prop} (h : Safely d p s fun _ _ => T) :
    Safely d (do let _ ← p; return true) s fun got _ => got = true → T :=
  Ends.bind h fun _ _ hKept hT => ends_pure hKept fun _ => hT

/-- An operation of the `nothrow` kind is successful where it says so. -/
theorem Safely.reported {p : BitIn (Option α)} {T : Prop}
    (h : Safely d p s fun r _ => r.isSome → T) :
    Safely d (do return (← p).isSome) s fun got _ => got = true → T :=
  Ends.bind h fun _ _ hKept hT => ends_pure hKept hT

/-- Where `n` bytes were read, no fewer were left. -/
theorem not_less_of_wide {l t : Bytes} (hLength : l.length = n) (hRest : s.rest = l ++ t) :
    decide (s.rest.length < n) = false := by
  rw [decide_eq_false_iff_not, hRest, List.length_append, hLength]
  omega

theorem safely_wide (h : Kept d s) (hn : n < 2 ^ 62) (what : String) {f : Bytes → α} :
    Safely d (do return f (← getWide n what)) s fun _ _ => decide (s.rest.length < n) = false :=
  (safely_getWide h hn what).bind fun _ _ h' hl => ends_pure h' (not_less_of_wide hl.1 hl.2.1)

theorem safely_wideNothrow (h : Kept d s) (hn : n < 2 ^ 62) {f : Bytes → α} :
    Safely d (do return (← getWideNothrow n).map f) s fun r _ =>
      r.isSome → decide (s.rest.length < n) = false := by
  refine (safely_getWideNothrow h hn).bind fun r _ h' hl => ends_pure h' fun hSome => ?_
  cases r with
  | none => cases hSome
  | some l => exact not_less_of_wide (hl l rfl).1 (hl l rfl).2.1

/-- `HasString` is that `get_PSTR` does not lack data. -/
theorem HasString.all_eq (h : s.HasString) :
    ((packed 0 s.rest).all fun e => decide (e.2.length < e.1.toNat)) = false := by
  obtain ⟨e, hMem, hLe⟩ := h
  rw [Option.mem_def.1 hMem, Option.all_some, decide_eq_false (Nat.not_lt.2 hLe)]

/-- **Any operation** stays in the array, but for one on bits that lacks data, and
one that lacks data throws or reports it. -/
theorem safely_run (h : Kept d s) (op : Op) (hBits : op.ofBits = true → op.lacksData s = false) :
    Safely d op.run s fun got _ => got = true → op.lacksData s = false := by
  cases op with
  | get8 => exact (safely_wide h (by decide) _).given
  | get8Nothrow => exact (safely_wideNothrow h (by decide)).reported
  | get16LE => exact (safely_wide h (by decide) _).given
  | get16LENothrow => exact (safely_wideNothrow h (by decide)).reported
  | get16BE => exact (safely_wide h (by decide) _).given
  | get32LE => exact (safely_wide h (by decide) _).given
  | get32BE => exact (safely_wide h (by decide) _).given
  | getPN =>
      refine Safely.given ((safely_getPN h).mono fun v s' _ hNumber => ?_)
      show (packed 0 s.rest).isNone = false
      rw [hNumber.1, Option.isNone_some]
  | getPNNothrow =>
      refine Safely.reported ((safely_getPNNothrow h).mono fun r s' _ hNumber hSome => ?_)
      obtain ⟨v, rfl⟩ := Option.isSome_iff_exists.1 hSome
      show (packed 0 s.rest).isNone = false
      rw [(hNumber v rfl).1, Option.isNone_some]
  | getPSTR => exact Safely.given ((safely_getPSTR h).mono fun _ _ _ hString => hString.all_eq)
  | getPSTRNothrow =>
      exact Safely.reported ((safely_getPSTRNothrow h).mono fun _ _ _ hString hSome =>
        (hString hSome).all_eq)
  | unpack size =>
      exact Safely.given ((safely_unpack h size).mono fun _ _ _ hLe =>
        decide_eq_false (Nat.not_lt.2 hLe))
  | unpackNothrow size =>
      exact Safely.reported ((safely_unpackNothrow h size).mono fun _ _ _ hLe hSome =>
        decide_eq_false (Nat.not_lt.2 (hLe hSome)))
  | unpackRest => exact Safely.given ((safely_unpack h s.remains).mono fun _ _ _ _ => rfl)
  | beforeEnd => exact Safely.given ((safely_beforeEnd h).mono fun _ _ _ _ => rfl)
  | getBit =>
      have hThere : ¬ s.unread.length < 1 := of_decide_eq_false (hBits rfl)
      obtain ⟨b, bs, hNext⟩ := List.exists_cons_of_length_pos (Nat.not_lt.1 hThere)
      obtain ⟨hRun, hValid, -⟩ := getBit_cons h.valid hNext
      exact Safely.given ((ends_ok (Q := fun _ _ => True) hRun ⟨hValid, h.mData_eq⟩ trivial).mono
        fun _ _ _ _ => hBits rfl)
  | getBits bitcount =>
      have hThere : ¬ s.unread.length < bitcount.toInt.toNat := of_decide_eq_false (hBits rfl)
      exact Safely.given ((safely_getBits h (Nat.not_lt.1 hThere)).mono fun _ _ _ _ => hBits rfl)
  | getTlvLength =>
      have hThere : ¬ s.unread.length < lengthBits s.unread := of_decide_eq_false (hBits rfl)
      exact Safely.given ((safely_getTlvLength h (Nat.not_lt.1 hThere)).mono fun _ _ _ _ => hBits rfl)

/-- **An operation on bits** that lacks data reads beyond the array. -/
theorem run_outside (h : s.Valid) {op : Op} (hBits : op.ofBits = true)
    (hLess : op.lacksData s = true) : ∃ s', op.run s = (.error .outside, s') := by
  cases op with
  | getBit =>
      have hNone : s.unread.length < 1 := of_decide_eq_true hLess
      exact ⟨s, bind_error (getBit_nil h (List.eq_nil_of_length_eq_zero (Nat.lt_one_iff.1 hNone)))⟩
  | getBits bitcount =>
      obtain ⟨s', hRun⟩ := getBitsLoop_short _ 0 s h (of_decide_eq_true hLess)
      exact ⟨s', bind_error (p := getBits bitcount) hRun⟩
  | getTlvLength =>
      obtain ⟨s', hRun⟩ := getTlvLength_outside h (of_decide_eq_true hLess)
      exact ⟨s', bind_error hRun⟩
  | _ => cases hBits

/-! ## Runs -/

/-- A stream that is read, whether an index was outside the array, and whether
an operation has returned as if it had had the data that it lacked. -/
structure Reader where
  stream : InBitStream
  outside : Bool
  missed : Bool

namespace Reader

/-- An operation; its exceptions are caught. -/
def step (r : Reader) (op : Op) : Reader :=
  if r.outside then r
  else match op.run r.stream with
    | (.ok got, s) => { r with stream := s, missed := r.missed || (got && op.lacksData r.stream) }
    | (.error .outside, s) | (.error .running, s) => { r with stream := s, outside := true }
    | (.error _, s) => { r with stream := s }

/-- A stream over the bytes of an object, and any operations. -/
def machine (d : Object) : Machine Reader Op where
  init r := r = ⟨ofObject d, false, false⟩
  enabled _ _ := True
  apply := step

/-- No index was outside, and what lacked data has said so. -/
def Sound (r : Reader) : Prop := r.outside = false ∧ r.missed = false

/-- An operation on bits takes no more of them than are left. -/
def EnoughBits (r : Reader) (op : Op) : Prop :=
  op.ofBits = true → op.lacksData r.stream = false

variable {r : Reader} {op : Op}

theorem step_of_enough (h : Kept d r.stream) (hIn : r.outside = false) (hEnough : EnoughBits r op) :
    Kept d (r.step op).stream ∧ (r.step op).outside = false ∧ (r.step op).missed = r.missed := by
  obtain ⟨res, s', hRun, hKept, hRes⟩ := safely_run h op hEnough
  rw [step, hIn, hRun]
  cases res with
  | error e =>
      cases e with
      | thrown e => exact ⟨hKept, rfl, rfl⟩
      | badAlloc => exact ⟨hKept, rfl, rfl⟩
      | outside => cases hRes
      | running => cases hRes
  | ok got =>
      refine ⟨hKept, rfl, ?_⟩
      cases got with
      | false => exact Bool.or_false _
      | true =>
          show (r.missed || (true && op.lacksData r.stream)) = r.missed
          rw [hRes rfl, Bool.and_false, Bool.or_false]

theorem step_outside (h : r.stream.Valid) (hIn : r.outside = false) (hEnough : ¬ EnoughBits r op) :
    (r.step op).outside = true := by
  rw [EnoughBits, Classical.not_imp, Bool.not_eq_false] at hEnough
  obtain ⟨s', hRun⟩ := run_outside h hEnough.1 hEnough.2
  rw [step, hIn, hRun]
  rfl

theorem step_of_outside (hOut : r.outside = true) : r.step op = r := by
  rw [step, hOut, if_pos rfl]

/-- **Runs in the array**: no index is outside, and what lacks data says so, if
and only if no operation on bits takes more of them than are left. -/
theorem sound_iff_enoughBits (d : Object) (ops : List Op) :
    (machine d).Along Sound ⟨ofObject d, false, false⟩ ops ↔
      ((machine d).guarded EnoughBits).Path ⟨ofObject d, false, false⟩ ops := by
  refine Machine.along_iff_path_guarded (J := fun r => r.outside = false → Kept d r.stream) ?_ ?_ ops _
    (fun _ => kept_ofObject d) ⟨rfl, rfl⟩ (Machine.path_of_enabled (fun _ _ => trivial) ops _)
  · intro r op h _ hIn'
    cases hIn : r.outside with
    | true =>
        rw [show (machine d).apply r op = r from step_of_outside hIn] at hIn'
        cases hIn.symm.trans hIn'
    | false =>
        by_cases hEnough : EnoughBits r op
        · exact (step_of_enough (h hIn) hIn hEnough).1
        · cases (step_outside (h hIn).valid hIn hEnough).symm.trans hIn'
  · intro r op h hs _
    obtain ⟨hIn, hMissed⟩ := hs
    constructor
    · intro hs'
      by_contra hEnough
      cases (step_outside (h hIn).valid hIn hEnough).symm.trans hs'.1
    · intro hEnough
      obtain ⟨-, hIn', hMissed'⟩ := step_of_enough (h hIn) hIn hEnough
      exact ⟨hIn', hMissed'.trans hMissed⟩

end Reader

end Megatron.Corelib.InBitStream
