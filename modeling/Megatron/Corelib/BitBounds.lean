import Megatron.Corelib.BitNumbers
import Megatron.Corelib.BitReaders

/-!
# Bounds of the bit streams

A run of an `outBitStream` is any sequence of its operations, with the answers
that `realloc` gives to each, and with its exceptions caught.  `adjust` is asked
for the bytes of a field of bits rounded down, and for five bytes before a
string: the last bit, or the end of a very long string, may lie beyond the
buffer.

## Main results

* `safely_run` — one operation that is covered.
* `sound_of_covered` — the runs of such operations.
* `bit_streams_bounded` — these, and the runs of an `inBitStream`.
-/

namespace Megatron.Corelib

open Megatron.Lib

namespace OutBitStream

open Megatron.Lib.Stateful

variable {o : OutBitStream} {n : UInt64} {s : Bytes} {k : ℕ}

/-! ## Operations that stay in the buffer -/

/-- The block is as large as `bufsize` says, memory is granted, and some bits are
left of the byte at the position. -/
structure Kept (o : OutBitStream) : Prop where
  allocated : o.Allocated
  granted : o.Granted
  rem_pos : 1 ≤ o.mPos.bitsRemainsInByte.toNat
  rem_le : o.mPos.bitsRemainsInByte.toNat ≤ 8

/-- From `o` the operation writes into the buffer only, and ends, with `Q` or with
an exception. -/
abbrev Safely {α : Type} (p : BitOut α) (o : OutBitStream) (Q : α → OutBitStream → Prop) : Prop :=
  Ends Kept Stop.Exception p o Q

theorem Kept.adjusted (h : o.Kept) (n : UInt64) : (o.adjusted n).Kept := by
  refine ⟨h.allocated.adjusted n, h.granted.adjusted n, ?_, ?_⟩
  · rw [mPos_adjusted]
    exact h.rem_pos
  · rw [mPos_adjusted]
    exact h.rem_le

theorem Kept.behind (h : o.Kept) (s : Bytes) : (o.behind s).Kept :=
  ⟨h.allocated.behind s, h.granted, h.rem_pos, h.rem_le⟩

/-- Moving the position by whole bytes. -/
theorem safely_advance (h : o.Kept) (n : UInt64) : Safely (advance n) o fun _ _ => True :=
  ends_ok rfl ⟨h.allocated, h.granted, h.rem_pos, h.rem_le⟩ trivial

theorem safely_adjust (h : o.Kept) (n : UInt64) :
    Safely (adjust n) o fun _ o' => o' = o.adjusted n :=
  ends_ok (adjust_eq h.granted n) (h.adjusted n) rfl

theorem safely_boundary (h : o.Kept) : Safely boundary o fun _ o' => o' = o ∧ o.AtBoundary := by
  by_cases hStart : o.AtBoundary
  · exact ends_ok (boundary_eq hStart) h ⟨rfl, hStart⟩
  · exact ends_error (boundary_error hStart) h trivial

theorem safely_store (h : o.Kept) (hFits : o.mPos.pos.toNat + s.length ≤ o.bufsize.toNat) :
    Safely (store s) o fun _ _ => True :=
  ends_ok (store_eq h.allocated hFits)
    ⟨⟨rfl, (Block.length_overlay _ _ _).trans h.allocated.2⟩, h.granted, h.rem_pos, h.rem_le⟩ trivial

/-- Room for bytes. -/
theorem fits_adjusted (hRoom : o.Roomy s.length) :
    (o.adjusted (UInt64.ofNat s.length)).mPos.pos.toNat + s.length ≤
      (o.adjusted (UInt64.ofNat s.length)).bufsize.toNat := by
  have hSize : (UInt64.ofNat s.length).toNat = s.length := by
    rw [Roomy] at hRoom
    exact UInt64.toNat_ofNat_of_lt' (Nat.lt_of_le_of_lt (by omega) hRoom)
  rw [mPos_adjusted]
  exact (lt_bufsize_adjusted hRoom hSize).le

theorem safely_putWide (h : o.Kept) (hRoom : o.AtBoundary → o.Roomy s.length) :
    Safely (putWide s) o fun _ _ => True := by
  refine (safely_boundary h).bind fun _ o₁ _ hSame => ?_
  obtain ⟨rfl, hStart⟩ := hSame
  refine (safely_adjust h _).bind fun _ o₂ h₂ hAdjusted => ?_
  subst hAdjusted
  exact ends_ok (putBytes_eq s _ h₂.allocated (fits_adjusted (hRoom hStart))) (h₂.behind s) trivial

theorem safely_pack (h : o.Kept) (hRoom : o.AtBoundary → o.Roomy s.length) :
    Safely (pack s) o fun _ _ => True := by
  refine (safely_boundary h).bind fun _ o₁ _ hSame => ?_
  obtain ⟨rfl, hStart⟩ := hSame
  refine (safely_adjust h _).bind fun _ o₂ h₂ hAdjusted => ?_
  subst hAdjusted
  exact (safely_store h₂ (fits_adjusted (hRoom hStart))).bind fun _ o₃ h₃ _ => safely_advance h₃ _

/-- `put_8$` throws where it does not begin at a byte. -/
theorem safely_putRaw8s (h : o.Kept)
    (hFits : o.AtBoundary → o.mPos.pos.toNat + s.length ≤ o.bufsize.toNat) :
    Safely (putRaw8s s) o fun _ o' => s ≠ [] → o.AtBoundary ∧ o' = o.behind s := by
  by_cases hStart : o.AtBoundary
  · exact ends_ok (putRaw8s_eq s o h.allocated hStart (hFits hStart)) (h.behind s)
      fun _ => ⟨hStart, rfl⟩
  · cases s with
    | nil => exact ends_pure h fun hNil => absurd rfl hNil
    | cons c s =>
        refine ends_error (e := boundaryError o.mPos) ?_ h trivial
        have hFirst : putRaw8 c o = (.error (boundaryError o.mPos), o) := by
          rw [putRaw8, bind_error (boundary_error hStart)]
        rw [putRaw8s, bind_error hFirst]

/-- A packed number is up to ten bytes. -/
theorem safely_packed (h : o.Kept) (hShort : s.length ≤ 10) (hRoom : o.AtBoundary → o.Roomy 10) :
    Safely (do adjust 10; putRaw8s s) o fun _ o' =>
      s ≠ [] → o.AtBoundary ∧ o' = (o.adjusted 10).behind s := by
  refine (safely_adjust h 10).bind fun _ o₁ h₁ hAdjusted => ?_
  subst hAdjusted
  have hSame : (o.adjusted 10).AtBoundary ↔ o.AtBoundary := by
    rw [AtBoundary, AtBoundary, mPos_adjusted]
  refine (safely_putRaw8s h₁ fun hStart => ?_).mono fun _ o₂ _ hEnd hNe => ?_
  · have hLt := lt_bufsize_adjusted (n := 10) (hRoom (hSame.1 hStart)) rfl
    rw [mPos_adjusted]
    omega
  · exact ⟨hSame.1 (hEnd hNe).1, (hEnd hNe).2⟩

theorem putPNFrom_ne_nil (n : UInt64) (k : ℕ) : putPNFrom n k ≠ [] := by
  induction k with
  | zero => exact List.cons_ne_nil _ _
  | succ k ih =>
      rw [putPNFrom]
      split
      · exact List.cons_ne_nil _ _
      · exact ih

/-- **`put_PSTR`**, where what `adjust(5 + size)` leaves is enough. -/
theorem safely_putPSTR (h : o.Kept) (hCovered : o.AtBoundary → o.Roomy (10 + s.length) ∧
      (o.mPos.pos.toNat + 5 + s.length < o.bufsize.toNat → o.mPos.pos.toNat +
        (putPNFrom (UInt64.ofNat s.length) 8).length + s.length ≤ o.bufsize.toNat)) :
    Safely (putPSTR s) o fun _ _ => True := by
  have hShort := length_putPNFrom_le (UInt64.ofNat s.length) 8
  refine (safely_adjust h _).bind fun _ o₁ h₁ hAdjusted => ?_
  subst hAdjusted
  have hPos := mPos_adjusted o (5 + UInt64.ofNat s.length)
  have hSame : (o.adjusted (5 + UInt64.ofNat s.length)).AtBoundary ↔ o.AtBoundary := by
    rw [AtBoundary, AtBoundary, hPos]
  have hTen : o.AtBoundary → (o.adjusted (5 + UInt64.ofNat s.length)).Roomy 10 := by
    intro hStart
    have hAll := (hCovered hStart).1
    rw [Roomy] at hAll ⊢
    rw [hPos]
    omega
  refine (safely_packed h₁ (by omega) fun hStart => hTen (hSame.1 hStart)).bind
    fun _ o₂ h₂ hNumber => ?_
  obtain ⟨hStart, rfl⟩ := hNumber (putPNFrom_ne_nil _ _)
  refine (safely_boundary h₂).bind fun _ o₃ _ hSame₃ => ?_
  obtain ⟨rfl, -⟩ := hSame₃
  obtain ⟨hAll, hFits⟩ := hCovered (hSame.1 hStart)
  rw [Roomy] at hAll
  have hSize : (UInt64.ofNat s.length).toNat = s.length :=
    UInt64.toNat_ofNat_of_lt' (Nat.lt_of_le_of_lt (by omega) hAll)
  have hFive : (5 + UInt64.ofNat s.length).toNat = 5 + s.length := by
    rw [UInt64.toNat_add, hSize, show (5 : UInt64).toNat = 5 from rfl]
    omega
  have hFirst := bufsize_adjusted (o := o) (k := 5 + s.length) (by rw [Roomy]; omega) hFive
  have hSecond := bufsize_adjusted (n := 10) (hTen (hSame.1 hStart)) rfl
  rw [hPos] at hSecond
  have hEnough : o.mPos.pos.toNat + (putPNFrom (UInt64.ofNat s.length) 8).length + s.length ≤
      (o.adjusted (5 + UInt64.ofNat s.length)).bufsize.toNat := by
    rw [hFirst]
    split <;> omega
  have hEnough' : o.mPos.pos.toNat + (putPNFrom (UInt64.ofNat s.length) 8).length + s.length ≤
      ((o.adjusted (5 + UInt64.ofNat s.length)).adjusted 10).bufsize.toNat := by
    rw [hSecond]
    split <;> omega
  refine (safely_store h₂ ?_).bind fun _ o₄ h₄ _ => safely_advance h₄ _
  have hBehind := toNat_behind (o := (o.adjusted (5 + UInt64.ofNat s.length)).adjusted 10)
    (s := putPNFrom (UInt64.ofNat s.length) 8) (by rw [mPos_adjusted, hPos]; omega)
  rw [mPos_adjusted, hPos] at hBehind
  rw [hBehind]
  exact hEnough'

/-! ## Bits -/

theorem Kept.withBit (h : o.Kept) (bit : Bool) : (o.withBit bit).Kept := by
  have hRem := h.rem_pos
  have hLe := h.rem_le
  have hAllocated : (o.withBit bit).Allocated :=
    ⟨rfl, (Block.length_overlay _ _ _).trans h.allocated.2⟩
  refine ⟨hAllocated, h.granted, ?_, ?_⟩
  · show 1 ≤ o.mPos.next.bitsRemainsInByte.toNat
    rcases o.mPos.next_eq hRem with ⟨-, hNext⟩ | ⟨hMore, -, hLess⟩
    · rw [hNext]
      show 1 ≤ (8 : UInt64).toNat
      decide
    · omega
  · show o.mPos.next.bitsRemainsInByte.toNat ≤ 8
    rcases o.mPos.next_eq hRem with ⟨-, hNext⟩ | ⟨-, -, hLess⟩
    · rw [hNext]
      show (8 : UInt64).toNat ≤ 8
      decide
    · omega

/-- How many bits were put into the byte at the position. -/
def used (o : OutBitStream) : ℕ := 8 - o.mPos.bitsRemainsInByte.toNat

theorem used_of_boundary (h : o.AtBoundary) : o.used = 0 := by
  rw [used, show o.mPos.bitsRemainsInByte = 8 from h]
  rfl

theorem Kept.used_lt (h : o.Kept) : o.used < 8 := by
  have hRem := h.rem_pos
  rw [used]
  omega

/-- The position after a bit. -/
theorem withBit_pos (h : o.Kept) (hRoom : o.mPos.pos.toNat < o.bufsize.toNat) (bit : Bool) :
    8 * (o.withBit bit).mPos.pos.toNat + (o.withBit bit).used =
      8 * o.mPos.pos.toNat + o.used + 1 := by
  have hRem := h.rem_pos
  have hLe := h.rem_le
  have hLt := o.bufsize.toNat_lt
  show 8 * o.mPos.next.pos.toNat + (8 - o.mPos.next.bitsRemainsInByte.toNat) = _
  rw [used]
  rcases o.mPos.next_eq hRem with ⟨hOne, hNext⟩ | ⟨hMore, hNext, hLess⟩
  · have hPos : (o.mPos.pos + 1).toNat = o.mPos.pos.toNat + 1 := by
      rw [UInt64.toNat_add, show (1 : UInt64).toNat = 1 from rfl]
      omega
    rw [hNext]
    show 8 * (o.mPos.pos + 1).toNat + (8 - 8) = _
    omega
  · have hPos : o.mPos.next.pos = o.mPos.pos := by rw [hNext]
    rw [hLess, hPos]
    omega

/-- The loop of `put_bits`, where there is room for the last bit. -/
theorem safely_putBitsLoop (val : UInt32) (i : ℕ) :
    ∀ o : OutBitStream, o.Kept →
      (0 < i → 8 * o.mPos.pos.toNat + o.used + i ≤ 8 * o.bufsize.toNat) →
      Safely (putBitsLoop val i) o fun _ o' => o'.bufsize = o.bufsize ∧
        8 * o'.mPos.pos.toNat + o'.used = 8 * o.mPos.pos.toNat + o.used + i := by
  induction i with
  | zero => exact fun o h _ => ends_pure h ⟨rfl, rfl⟩
  | succ i ih =>
      intro o h hRoom
      have hLast := hRoom (Nat.succ_pos i)
      have hHere : o.mPos.pos.toNat < o.bufsize.toNat := by omega
      have hStep := withBit_pos h hHere (bitOf val i)
      refine (ends_ok (Q := fun _ o' => o' = o.withBit (bitOf val i))
        (putBit_eq h.allocated hHere _) (h.withBit _) rfl).bind fun _ o₁ h₁ hSame => ?_
      subst hSame
      have hSize : (o.withBit (bitOf val i)).bufsize = o.bufsize := rfl
      refine (ih _ h₁ fun _ => ?_).mono fun _ o₂ _ hEnd => ⟨hEnd.1, ?_⟩
      · rw [hSize]
        omega
      · rw [hEnd.2]
        omega

/-- `put_bits` writes inside of the buffer: `adjust` enlarges it, or the last bit
lies inside of it anyway. -/
def CoversBits (o : OutBitStream) (n : ℕ) : Prop :=
  o.Roomy (n / 8) ∧ (o.bufsize.toNat ≤ o.mPos.pos.toNat + n / 8 ∨
    8 * o.mPos.pos.toNat + o.used + n ≤ 8 * o.bufsize.toNat)

/-- **`put_bits`**, where it does. -/
theorem safely_putBits (h : o.Kept) (val : UInt32) (bitcount : Int32)
    (hCovers : 0 < bitcount.toInt → o.CoversBits bitcount.toInt.toNat) :
    Safely (putBits val bitcount) o fun _ o' => 8 * o'.mPos.pos.toNat + o'.used =
      8 * o.mPos.pos.toNat + o.used + bitcount.toInt.toNat := by
  have hRem := h.rem_pos
  have hNot : ¬ o.mPos.bitsRemainsInByte = 0 := by
    intro hZero
    rw [hZero] at hRem
    exact absurd hRem (by decide)
  have hPos := mPos_adjusted o (UInt64.ofInt (bitcount.toInt.tdiv 8))
  have hUsed : (o.adjusted (UInt64.ofInt (bitcount.toInt.tdiv 8))).used = o.used := by
    rw [used, used, hPos]
  have hBlock : Safely (do
      adjust (UInt64.ofInt (bitcount.toInt.tdiv 8))
      putBitsLoop val bitcount.toInt.toNat) o fun _ o' => 8 * o'.mPos.pos.toNat + o'.used =
        8 * o.mPos.pos.toNat + o.used + bitcount.toInt.toNat := by
    refine (safely_adjust h _).bind fun _ o₁ h₁ hAdjusted => ?_
    subst hAdjusted
    refine (safely_putBitsLoop val _ _ h₁ fun hMore => ?_).mono fun _ o₂ _ hEnd => ?_
    · obtain ⟨hRoom, hFits⟩ := hCovers (by omega)
      have hNonneg : 0 ≤ bitcount.toInt := by omega
      have hSize := bufsize_adjusted hRoom (toNat_bytes hNonneg)
      have hLess := h.used_lt
      rw [hPos, hUsed, hSize]
      split <;> omega
    · rw [hEnd.2, hPos, hUsed]
  refine Ends.of_eq ?_ hBlock
  rw [putBits, if_neg hNot]

/-- A field that needs no more than the bytes that are made room for, and the one
at the position. -/
theorem coversBits_of_le {n : ℕ} (hRoom : o.Roomy (n / 8)) (hn : o.used + n ≤ 8 * (n / 8 + 1)) :
    o.CoversBits n := by
  refine ⟨hRoom, ?_⟩
  by_cases hGrow : o.bufsize.toNat ≤ o.mPos.pos.toNat + n / 8
  · exact Or.inl hGrow
  · exact Or.inr (by omega)

theorem Safely.annotate {α : Type} {text : String} {p : BitOut α} {Q : α → OutBitStream → Prop}
    (h : Safely p o Q) : Safely (Corelib.annotate text p) o Q := by
  obtain ⟨r, o', hRun, hKept, hr⟩ := h
  cases r with
  | ok x => exact ends_ok (annotate_ok hRun) hKept hr
  | error e =>
      cases e with
      | thrown e => exact ends_error (annotate_thrown hRun) hKept trivial
      | badAlloc =>
          refine ends_error (e := .badAlloc) ?_ hKept trivial
          rw [Corelib.annotate, hRun]
      | outside => exact absurd hr id
      | running => exact absurd hr id

/-- The bit that a length begins with, and the seven that follow it. -/
theorem safely_one (h : o.Kept) (hStart : o.AtBoundary) (hRoom : o.Roomy 5) (val : UInt32) :
    Safely (putBits val 1) o fun _ o' => 8 * o'.mPos.pos.toNat + o'.used = 8 * o.mPos.pos.toNat + 1 := by
  have hUsed := used_of_boundary hStart
  rw [Roomy] at hRoom
  refine (safely_putBits h val 1 fun _ => coversBits_of_le (n := 1) (by rw [Roomy]; omega)
    (by omega)).mono fun _ o' _ hEnd => ?_
  rw [hEnd, hUsed]
  rfl

theorem safely_seven {o₁ : OutBitStream} (h₁ : o₁.Kept) (hRoom : o.Roomy 5)
    (hPos : 8 * o₁.mPos.pos.toNat + o₁.used = 8 * o.mPos.pos.toNat + 1) (val : UInt32) :
    Safely (putBits val 7) o₁ fun _ o' =>
      8 * o'.mPos.pos.toNat + o'.used = 8 * o.mPos.pos.toNat + 8 := by
  have hLess := h₁.used_lt
  rw [Roomy] at hRoom
  refine (safely_putBits h₁ val 7 fun _ => coversBits_of_le (n := 7) (by rw [Roomy]; omega)
    (by omega)).mono fun _ o' _ hEnd => ?_
  rw [hEnd, hPos]
  rfl

/-- The long form of a length. -/
theorem safely_long (h : o.Kept) (hStart : o.AtBoundary) (hRoom : o.Roomy 5) (count val : UInt32)
    {bitcount : Int32} {k : ℕ} (hk : k ≤ 4) (hBits : bitcount.toInt.toNat = 8 * k) :
    Safely (do putBits 1 1; putBits count 7; putBits val bitcount) o fun _ _ => True := by
  refine (safely_one h hStart hRoom 1).bind fun _ o₁ h₁ hEnd₁ => ?_
  refine (safely_seven h₁ hRoom hEnd₁ count).bind fun _ o₂ h₂ hEnd₂ => ?_
  have hLess := h₂.used_lt
  rw [Roomy] at hRoom
  refine (safely_putBits h₂ val bitcount fun _ => ?_).mono fun _ _ _ _ => trivial
  rw [hBits]
  exact coversBits_of_le (by rw [Roomy]; omega) (by omega)

theorem safely_putTLVLength (h : o.Kept) (hRoom : o.AtBoundary → o.Roomy 5) (len : UInt64) :
    Safely (putTLVLength len) o fun _ _ => True := by
  refine (safely_boundary h).bind fun _ o₁ _ hSame => ?_
  obtain ⟨rfl, hStart⟩ := hSame
  have hFive := hRoom hStart
  refine Safely.annotate ?_
  split
  · exact (safely_one h hStart hFive 0).bind fun _ o₂ h₂ hEnd =>
      (safely_seven h₂ hFive hEnd _).mono fun _ _ _ _ => trivial
  · split
    · exact safely_long h hStart hFive 2 _ (k := 2) (by decide) rfl
    · split
      · exact safely_long h hStart hFive 3 _ (k := 3) (by decide) rfl
      · exact safely_long h hStart hFive 4 _ (k := 4) (by decide) rfl

/-! ## Any operation -/

/-- The operations; `operator<<` is one of the packed numbers or `put_PSTR`. -/
inductive Op
  | pack (s : Bytes)
  | put8 (c : UInt8)
  | put16LE (l : UInt16)
  | put16BE (l : UInt16)
  | put32LE (l : UInt32)
  | put32BE (l : UInt32)
  | putPN (n : UInt64)
  | putUInt64 (n : UInt64)
  | putInt64 (n : Int64)
  | putSmall (n : Int)
  | putPSTR (c : Bytes)
  | putBits (val : UInt32) (bitcount : Int32)
  | putTLVLength (len : UInt64)
  | adjust (n : UInt64)
  | clear
  | asString
  | size

namespace Op

def run : Op → BitOut Unit
  | pack s => OutBitStream.pack s
  | put8 c => OutBitStream.put8 c
  | put16LE l => OutBitStream.put16LE l
  | put16BE l => OutBitStream.put16BE l
  | put32LE l => OutBitStream.put32LE l
  | put32BE l => OutBitStream.put32BE l
  | putPN n => OutBitStream.putPN n
  | putUInt64 n => OutBitStream.putUInt64 n
  | putInt64 n => OutBitStream.putInt64 n
  | putSmall n => OutBitStream.putSmall n
  | putPSTR c => OutBitStream.putPSTR c
  | putBits val bitcount => OutBitStream.putBits val bitcount
  | putTLVLength len => OutBitStream.putTLVLength len
  | adjust n => OutBitStream.adjust n
  | clear => OutBitStream.clear
  | asString => do let _ ← OutBitStream.asString; return
  | size => do let _ ← OutBitStream.size; return

/-- The members that only read. -/
def isConst : Op → Bool
  | asString | size => true
  | _ => false

/-- The sums that the operation makes do not overflow and, for bits and strings,
the room that it makes reaches to the end. -/
def Covered (o : OutBitStream) : Op → Prop
  | pack s => o.AtBoundary → o.Roomy s.length
  | put8 _ => o.AtBoundary → o.Roomy 1
  | put16LE _ | put16BE _ => o.AtBoundary → o.Roomy 2
  | put32LE _ | put32BE _ => o.AtBoundary → o.Roomy 4
  | putPN _ | putUInt64 _ | putInt64 _ | putSmall _ => o.AtBoundary → o.Roomy 10
  | putPSTR c => o.AtBoundary → o.Roomy (10 + c.length) ∧
      (o.mPos.pos.toNat + 5 + c.length < o.bufsize.toNat →
        o.mPos.pos.toNat + (putPNFrom (UInt64.ofNat c.length) 8).length + c.length ≤ o.bufsize.toNat)
  | putBits _ bitcount => 0 < bitcount.toInt → o.CoversBits bitcount.toInt.toNat
  | putTLVLength _ => o.AtBoundary → o.Roomy 5
  | adjust _ | clear | asString | size => True

end Op

/-- **An operation that is covered** writes into the buffer only. -/
theorem safely_run (h : o.Kept) {op : Op} (hConst : op.isConst = false) (hCovered : op.Covered o) :
    Safely op.run o fun _ _ => True := by
  cases op with
  | pack s => exact safely_pack h hCovered
  | put8 c => exact safely_putWide h hCovered
  | put16LE l => exact safely_putWide h hCovered
  | put16BE l => exact safely_putWide h hCovered
  | put32LE l => exact safely_putWide h hCovered
  | put32BE l => exact safely_putWide h hCovered
  | putPN n =>
      exact (safely_packed h ((length_putPNFrom_le n 8).trans (by decide)) hCovered).mono
        fun _ _ _ _ => trivial
  | putUInt64 n =>
      exact (safely_packed h ((length_putPNFrom_le n 8).trans (by decide)) hCovered).mono
        fun _ _ _ _ => trivial
  | putInt64 n =>
      refine (safely_packed (s := putIntFrom n 8) h ?_ hCovered).mono fun _ _ _ _ => trivial
      rw [putIntFrom_eq n le_rfl]
      exact (length_putPNFrom_le _ 8).trans (by decide)
  | putSmall n =>
      exact (safely_packed h ((length_putPNFrom_le _ 8).trans (by decide)) hCovered).mono
        fun _ _ _ _ => trivial
  | putPSTR c => exact safely_putPSTR h hCovered
  | putBits val bitcount => exact (safely_putBits h val bitcount hCovered).mono fun _ _ _ _ => trivial
  | putTLVLength len => exact safely_putTLVLength h hCovered len
  | adjust n => exact (safely_adjust h n).mono fun _ _ _ _ => trivial
  | clear =>
      have hEight : (8 : UInt64).toNat = 8 := rfl
      exact ends_ok rfl ⟨h.allocated, h.granted, hEight.symm ▸ (by decide), hEight.le⟩ trivial
  | asString => cases hConst
  | size => cases hConst

/-- The members that only read leave the stream as it is. -/
theorem run_const {op : Op} (hConst : op.isConst = true) (o : OutBitStream) :
    (op.run o).2 = o := by
  cases op with
  | asString =>
      by_cases hStart : o.AtBoundary
      · by_cases hIn : o.mPos.pos.toNat ≤ o.block.length
        · have hRun : asString o = (.ok (o.block.take o.mPos.pos.toNat), o) := by
            rw [asString, bind_ok (boundary_eq hStart), if_pos hIn]
          exact congrArg Prod.snd (bind_ok hRun)
        · have hRun : asString o = (.error .outside, o) := by
            rw [asString, bind_ok (boundary_eq hStart), if_neg hIn]
          exact congrArg Prod.snd (bind_error hRun)
      · have hRun : asString o = (.error (boundaryError o.mPos), o) := by
          rw [asString, bind_error (boundary_error hStart)]
        exact congrArg Prod.snd (bind_error hRun)
  | size =>
      by_cases hStart : o.AtBoundary
      · have hRun : size o = (.ok o.mPos.pos, o) := by
          rw [size, bind_ok (boundary_eq hStart)]
        exact congrArg Prod.snd (bind_ok hRun)
      · have hRun : size o = (.error (boundaryError o.mPos), o) := by
          rw [size, bind_error (boundary_error hStart)]
        exact congrArg Prod.snd (bind_error hRun)
  | _ => cases hConst

/-! ## Runs -/

/-- A stream that is written, and whether an index was outside the buffer. -/
structure Writer where
  stream : OutBitStream
  outside : Bool

namespace Writer

/-- A stream that was just made. -/
def start (stale : ℕ → UInt8) : Writer := ⟨construct [] stale, false⟩

/-- An operation, and what `realloc` answers to it; its exceptions are caught. -/
def step (w : Writer) (a : Op × List Bool) : Writer :=
  if w.outside then w
  else match a.1.run { w.stream with answers := a.2 } with
    | (.error .outside, o) => { stream := o, outside := !a.1.isConst }
    | (_, o) => { w with stream := o }

def machine : Machine Writer (Op × List Bool) where
  init w := ∃ stale, w = start stale
  enabled _ _ := True
  apply := step

/-- No index was outside, and `bufsize` is the size of the block. -/
structure Sound (w : Writer) : Prop where
  inside : w.outside = false
  allocated : w.stream.Allocated
  rem_pos : 1 ≤ w.stream.mPos.bitsRemainsInByte.toNat
  rem_le : w.stream.mPos.bitsRemainsInByte.toNat ≤ 8

/-- Memory is granted, and the operation is covered. -/
def Covered (w : Writer) (a : Op × List Bool) : Prop := false ∉ a.2 ∧ a.1.Covered w.stream

theorem sound_start (stale : ℕ → UInt8) : (start stale).Sound where
  inside := rfl
  allocated := (proper_construct [] stale).allocated
  rem_pos := by
    show 1 ≤ (8 : UInt64).toNat
    decide
  rem_le := by
    show (8 : UInt64).toNat ≤ 8
    decide

/-- **One operation.** -/
theorem sound_step {w : Writer} {a : Op × List Bool} (h : w.Sound) (hCovered : Covered w a) :
    (w.step a).Sound := by
  obtain ⟨op, answers⟩ := a
  obtain ⟨hGranted, hOp⟩ := hCovered
  rw [step, h.inside, if_neg Bool.false_ne_true]
  cases hConst : op.isConst with
  | true =>
      have hSame := run_const hConst { w.stream with answers := answers }
      cases hRun : op.run { w.stream with answers := answers } with
      | mk r o' =>
      rw [hRun] at hSame
      obtain rfl : o' = { w.stream with answers := answers } := hSame
      cases r with
      | ok x => exact ⟨rfl, h.allocated, h.rem_pos, h.rem_le⟩
      | error e => cases e <;> exact ⟨rfl, h.allocated, h.rem_pos, h.rem_le⟩
  | false =>
      have hKept : Kept { w.stream with answers := answers } :=
        ⟨h.allocated, hGranted, h.rem_pos, h.rem_le⟩
      have hOp' : op.Covered { w.stream with answers := answers } := by
        cases op <;> exact hOp
      obtain ⟨r, o', hRun, hKept', hr⟩ := safely_run hKept hConst hOp'
      rw [hRun]
      cases r with
      | ok x => exact ⟨rfl, hKept'.allocated, hKept'.rem_pos, hKept'.rem_le⟩
      | error e =>
          cases e with
          | thrown e => exact ⟨rfl, hKept'.allocated, hKept'.rem_pos, hKept'.rem_le⟩
          | badAlloc => exact ⟨rfl, hKept'.allocated, hKept'.rem_pos, hKept'.rem_le⟩
          | outside => exact absurd hr id
          | running => exact absurd hr id

/-- **Any run** of operations that are covered. -/
theorem sound_of_covered (stale : ℕ → UInt8) (acts : List (Op × List Bool))
    (hCovered : (machine.guarded Covered).Path (start stale) acts) :
    machine.Along Sound (start stale) acts :=
  Machine.along_of_path_guarded (fun _ _ h _ hStep => sound_step h hStep) acts _ (sound_start stale)
    hCovered

end Writer

end OutBitStream

open OutBitStream (Writer) in
open InBitStream (Reader) in
/-- **Bounds.**  No run of an `outBitStream` whose operations are covered writes
outside of its buffer, which is as large as `bufsize` says.  The runs of an
`inBitStream` that read inside of the array, and in which what lacks data says
so, are those in which no operation on bits takes more of them than are left. -/
theorem bit_streams_bounded (stale : ℕ → UInt8) (acts : List (OutBitStream.Op × List Bool))
    (d : Object) (ops : List InBitStream.Op) :
    ((Writer.machine.guarded Writer.Covered).Path (Writer.start stale) acts →
        Writer.machine.Along Writer.Sound (Writer.start stale) acts) ∧
      ((Reader.machine d).Along Reader.Sound ⟨.ofObject d, false, false⟩ ops ↔
        ((Reader.machine d).guarded Reader.EnoughBits).Path ⟨.ofObject d, false, false⟩ ops) :=
  ⟨Writer.sound_of_covered stale acts, Reader.sound_iff_enoughBits d ops⟩

open OutBitStream (Writer) in
open InBitStream (Reader) in
/-- A field of bits and a byte that are written, and read again. -/
theorem bit_streams_bounded_of_field :
    Writer.machine.Along Writer.Sound (Writer.start fun _ => 0)
        [(.putBits 5 8, []), (.put8 7, []), (.asString, [])] ∧
      (Reader.machine ⟨[5, 7], by decide⟩).Along Reader.Sound
        ⟨.ofObject ⟨[5, 7], by decide⟩, false, false⟩ [.getBits 8, .get8, .get8] := by
  obtain ⟨hWriter, hReader⟩ := bit_streams_bounded (fun _ => 0)
    [(.putBits 5 8, []), (.put8 7, []), (.asString, [])] ⟨[5, 7], by decide⟩
    [.getBits 8, .get8, .get8]
  refine ⟨hWriter ?_, hReader.2 ?_⟩
  · refine ⟨⟨trivial, List.not_mem_nil, fun _ => ⟨?_, Or.inr ?_⟩⟩,
      ⟨trivial, List.not_mem_nil, fun _ => ?_⟩, ⟨trivial, List.not_mem_nil, trivial⟩, trivial⟩
    · show 0 + 8 / 8 + 1024 < 2 ^ 64
      decide
    · decide +kernel
    · rw [OutBitStream.Roomy]
      decide +kernel
  · exact ⟨⟨trivial, fun _ => by decide +kernel⟩, ⟨trivial, fun h => by cases h⟩,
      ⟨trivial, fun h => by cases h⟩, trivial⟩

/-- 254 bytes and seven bits leave nine bits of the buffer, and fifteen are put. -/
def pastTheEnd : List (OutBitStream.Op × List Bool) :=
  [(.pack (List.replicate 254 0), []), (.putBits 0 7, []), (.putBits 0 15, [])]

open OutBitStream (Writer) in
open InBitStream (Reader) in
/-- The last of the bits is written behind the buffer; and a bit is read behind
the end of an empty array. -/
theorem bit_streams_out_of_bounds :
    ¬ Writer.machine.Along Writer.Sound (Writer.start fun _ => 0) pastTheEnd ∧
      ¬ (Reader.machine ⟨[], by decide⟩).Along Reader.Sound
        ⟨.ofObject ⟨[], by decide⟩, false, false⟩ [.getBit] := by
  have hOut : (Writer.machine.exec (Writer.start fun _ => 0) pastTheEnd).outside = true := by
    decide +kernel
  refine ⟨fun h => ?_, fun h => ?_⟩
  · have hEnd : (Writer.machine.exec (Writer.start fun _ => 0) pastTheEnd).Sound := h.2.2.2
    cases hEnd.inside.symm.trans hOut
  · have hEnd : (Reader.step ⟨.ofObject ⟨[], by decide⟩, false, false⟩ .getBit).Sound := h.2
    cases hEnd.1

end Megatron.Corelib
