import Megatron.Corelib.BitReading
import Megatron.Corelib.BitWriting

/-!
# Bit fields

Fields of any widths that `put_bits` puts one behind the other and that together
are whole bytes.  `get_bits` takes them from these bytes again.

## Main results

* `putFields_holds` — the bits of the fields are behind those that were there.
* `getFields_append` — they are read from the front of those that are unread.
* `getFields_putFields` — what is read is what was written.
-/

namespace Megatron.Corelib

open Megatron.Lib
open Megatron.Lib.Bits
open Megatron.Lib.Stateful (bind_ok)

/-- A number and the width of the field that it is put into. -/
structure BitField where
  val : UInt32
  bitcount : Int32
  bitcount_nonneg : 0 ≤ bitcount.toInt
  bitcount_le : bitcount.toInt ≤ 32
  val_lt : val.toNat < 2 ^ bitcount.toInt.toNat

namespace BitField

/-- The width. -/
def width (f : BitField) : ℕ := f.bitcount.toInt.toNat

/-- The bits. -/
def bits (f : BitField) : List Bool := bitsOf f.width f.val.toNat

@[simp] theorem length_bits (f : BitField) : f.bits.length = f.width := length_bitsOf _ _

theorem width_le (f : BitField) : f.width ≤ 32 := by
  have hLe := f.bitcount_le
  rw [width]
  omega

theorem valueOf_bits (f : BitField) : valueOf f.bits = f.val.toNat :=
  valueOf_bitsOf_of_lt f.val_lt

/-- The width of all fields. -/
def total (fs : List BitField) : ℕ := (fs.map width).sum

@[simp] theorem total_cons (f : BitField) (fs : List BitField) :
    total (f :: fs) = f.width + total fs := by
  rw [total, List.map_cons, List.sum_cons, total]

end BitField

variable {fs : List BitField}

/-! ## Writing -/

namespace OutBitStream

variable {o : OutBitStream} {old : Block UInt8} {full : Bytes} {part : List Bool}

/-- `put_bits` for every field. -/
def putFields : List BitField → BitOut Unit
  | [] => return
  | f :: fs => do
      putBits f.val f.bitcount
      putFields fs

/-- There is room up to the byte `last`.  If no byte is left behind it `adjust`
may ask for more, and must get it. -/
structure Reaches (o : OutBitStream) (last : ℕ) : Prop where
  sums : last + 1024 < 2 ^ 64
  room : last ≤ o.bufsize.toNat
  granted : last = o.bufsize.toNat → o.Granted

/-- `adjust` where there is room. -/
theorem Reaches.adjust_eq {last k : ℕ} {n : UInt64} (h : o.Reaches last) (hn : n.toNat = k)
    (hk : o.mPos.pos.toNat + k ≤ last) :
    adjust n o = (.ok (), o.adjusted n) ∧ (o.adjusted n).Reaches last := by
  have hSums := h.sums
  have hRoom := h.room
  have hRoomy : o.Roomy k := by
    rw [Roomy]
    omega
  obtain ⟨hSum, hNew⟩ := hRoomy.toNat_add hn
  by_cases hGrow : o.mPos.pos + n ≥ o.bufsize
  · have hAll : last = o.bufsize.toNat := by
      rw [ge_iff_le, UInt64.le_iff_toNat_le, hSum] at hGrow
      omega
    have hGranted := h.granted hAll
    have hSize := bufsize_adjusted hRoomy hn
    refine ⟨OutBitStream.adjust_eq hGranted n, hSums, ?_, fun _ => hGranted.adjusted n⟩
    rw [hSize]
    split <;> omega
  · have hSame : o.adjusted n = o := by rw [adjusted, if_neg hGrow]
    refine ⟨?_, hSame.symm ▸ h⟩
    rw [adjust, if_neg hGrow, hSame]

/-- **The bits of the fields** are put behind those that are there. -/
theorem putFields_holds (fs : List BitField) :
    ∀ (o : OutBitStream) (full : Bytes) (part : List Bool), o.Holds old full part →
      o.Reaches (old.length + (8 * full.length + part.length + BitField.total fs) / 8) →
      8 ∣ 8 * full.length + part.length + BitField.total fs →
      ∃ o' full' part', putFields fs o = (.ok (), o') ∧ o'.Holds old full' part' ∧
        toBits full' ++ part' = toBits full ++ part ++ fs.flatMap BitField.bits := by
  induction fs with
  | nil =>
      intro o full part h _ _
      exact ⟨o, full, part, rfl, h, by simp⟩
  | cons f fs ih =>
      intro o full part h hReaches hDvd
      rw [BitField.total_cons] at hReaches hDvd
      have hBytes := toNat_bytes f.bitcount_nonneg
      have hWidth : f.width = f.bitcount.toInt.toNat := rfl
      have hPos := h.pos_eq
      have hPart := h.part_lt
      have hSums := hReaches.sums
      obtain ⟨hAdjust, hReaches₁⟩ := hReaches.adjust_eq hBytes (by omega)
      have hRoomy : o.Roomy (f.bitcount.toInt.toNat / 8) := by
        rw [Roomy]
        omega
      have hRoom := hReaches₁.room
      obtain ⟨o₁, full₁, part₁, hRun, h₁, hBits, hSize, hAnswers⟩ :=
        h.putBits f.val f.bitcount_nonneg hRoomy hAdjust (by omega)
      have hLength := Holds.length_eq hBits
      rw [length_loopBits, ← hWidth] at hLength
      have hTotal : 8 * full.length + part.length + (f.width + BitField.total fs) =
          8 * full₁.length + part₁.length + BitField.total fs := by omega
      rw [hTotal] at hReaches₁ hDvd
      obtain ⟨o', full', part', hRun', h', hBits'⟩ := ih o₁ full₁ part₁ h₁
        ⟨hReaches₁.sums, hSize ▸ hReaches₁.room, fun hAll => by
          rw [Granted, hAnswers]
          exact hReaches₁.granted (hSize ▸ hAll)⟩ hDvd
      refine ⟨o', full', part', ?_, h', ?_⟩
      · rw [putFields, bind_ok hRun, hRun']
      · rw [hBits', hBits, ← hWidth, loopBits_eq f.val f.width_le, List.flatMap_cons, List.append_assoc,
          List.append_assoc, List.append_assoc]
        rfl

end OutBitStream

/-! ## Reading -/

namespace InBitStream

/-- `get_bits` for every width. -/
def getFields : List Int32 → BitIn (List UInt32)
  | [] => return []
  | n :: ns => do
      let val ← getBits n
      return val :: (← getFields ns)

/-- **Fields are read** from the front of the bits that are unread. -/
theorem getFields_append (fs : List BitField) :
    ∀ (s : InBitStream) (bs : List Bool), s.Valid →
      s.unread = fs.flatMap BitField.bits ++ bs →
      ∃ s', getFields (fs.map BitField.bitcount) s = (.ok (fs.map BitField.val), s') ∧ s'.Valid ∧
        s'.unread = bs ∧ s'.mData = s.mData := by
  induction fs with
  | nil => exact fun s bs h hNext => ⟨s, rfl, h, hNext, rfl⟩
  | cons f fs ih =>
      intro s bs h hNext
      rw [List.flatMap_cons, List.append_assoc] at hNext
      obtain ⟨s₁, hRun, h₁, hNext₁, hData⟩ := getBits_append h hNext f.length_bits.symm
      rw [f.valueOf_bits, UInt32.ofNat_toNat] at hRun
      obtain ⟨s', hRun', h', hNext', hData'⟩ := ih s₁ bs h₁ hNext₁
      refine ⟨s', ?_, h', hNext', hData'.trans hData⟩
      rw [List.map_cons, getFields, bind_ok hRun, bind_ok hRun']
      rfl

end InBitStream

/-! ## Both -/

/-- **Bit fields round trip.**  Where the stream has room for the bytes that the
fields are, they are written, and from these bytes the same widths give the
values, with nothing left of the bytes. -/
theorem getFields_putFields {o : OutBitStream} (hAllocated : o.Allocated) (hStart : o.AtBoundary)
    (hMultiple : 8 ∣ BitField.total fs)
    (hRoom : o.Reaches (o.mPos.pos.toNat + BitField.total fs / 8)) :
    ∃ o' full, OutBitStream.putFields fs o = (.ok (), o') ∧ o'.AtBoundary ∧
      full.length = BitField.total fs / 8 ∧
      o'.mPos.pos.toNat = o.mPos.pos.toNat + full.length ∧
      o'.written = o.written ++ full.map some ∧
      ∀ (s : InBitStream) (tail : Bytes), s.Valid → s.AtBoundary →
        s.mData.drop s.mPos.pos.toNat = full ++ tail →
        ∃ s', InBitStream.getFields (fs.map BitField.bitcount) s = (.ok (fs.map BitField.val), s') ∧
          s'.AtBoundary ∧ s'.mPos.pos.toNat = s.mPos.pos.toNat + full.length := by
  have hIn : o.mPos.pos.toNat ≤ o.bufsize.toNat := le_trans (Nat.le_add_right _ _) hRoom.room
  have hOld := OutBitStream.length_written hAllocated hIn
  have hHolds := OutBitStream.holds_written hAllocated hStart hIn
  obtain ⟨o', full, part, hRun, h', hBits⟩ := OutBitStream.putFields_holds fs o [] [] hHolds
    (by rw [hOld]; simpa using hRoom) (by simpa using hMultiple)
  have hLength := OutBitStream.Holds.length_eq hBits
  have hFields : (fs.flatMap BitField.bits).length = BitField.total fs := by
    rw [List.length_flatMap, BitField.total]
    simp only [BitField.length_bits]
  rw [hFields, List.length_nil, List.length_nil] at hLength
  have hPart := h'.part_lt
  obtain rfl : part = [] := List.eq_nil_of_length_eq_zero (by omega)
  have hRem := h'.rem_eq
  rw [List.append_nil, toBits_nil, List.append_nil, List.nil_append] at hBits
  have hPos : o'.mPos.pos.toNat = o.mPos.pos.toNat + full.length := by rw [h'.pos_eq, hOld]
  refine ⟨o', full, hRun, UInt64.toNat_inj.1 hRem, ?_, hPos, h'.take_eq, ?_⟩
  · rw [List.length_nil] at hLength
    omega
  · intro s tail hs hsStart hNext
    have hUnread : s.unread = fs.flatMap BitField.bits ++ toBits tail := by
      rw [InBitStream.unread_of_boundary hsStart, hNext, toBits_append, hBits]
    obtain ⟨s', hRead, hs', hRest, hData⟩ := InBitStream.getFields_append fs s _ hs hUnread
    obtain ⟨hEnd, hEndPos⟩ := hs'.pos_eq hRest
    refine ⟨s', hRead, hEnd, ?_⟩
    have hAll := congrArg List.length hNext
    have hIn := hs.pos_le
    rw [List.length_drop, List.length_append] at hAll
    rw [hData] at hEndPos
    omega

/-- A field of three bits and one of thirteen. -/
def threeAndThirteen : List BitField :=
  [⟨5, 3, by decide, by decide, by decide⟩, ⟨0x1001, 13, by decide, by decide, by decide⟩]

theorem getFields_putFields_of_two :
    ∃ o' full, OutBitStream.putFields threeAndThirteen (.construct [] fun _ => 0xAA) = (.ok (), o') ∧
      full.length = 2 ∧ o'.written = full.map some ∧
      ∃ s', InBitStream.getFields [3, 13] ⟨full, 2, ⟨0, 8⟩⟩ = (.ok [5, 0x1001], s') ∧
        s'.mPos.pos.toNat = 2 := by
  have hMultiple : 8 ∣ BitField.total threeAndThirteen := by decide
  have hAllocated : (OutBitStream.construct [] fun _ => 0xAA).Allocated :=
    ⟨rfl, Block.length_malloc 256⟩
  obtain ⟨o', full, hRun, -, hLength, -, hTake, hRead⟩ :=
    getFields_putFields hAllocated rfl hMultiple
      ⟨by show 0 + 2 + 1024 < 2 ^ 64; decide, by show 0 + 2 ≤ 256; decide,
        fun hAll => absurd hAll (by show 0 + 2 ≠ 256; decide)⟩
  have hTwo : full.length = 2 := hLength
  have hNone : (OutBitStream.construct [] fun _ => 0xAA).written = [] := List.take_zero
  rw [hNone, List.nil_append] at hTake
  obtain ⟨s', hGet, -, hAt⟩ := hRead ⟨full, 2, ⟨0, 8⟩⟩ []
    (InBitStream.valid_of_boundary hTwo.symm (Nat.zero_le _) rfl) rfl (List.append_nil _).symm
  refine ⟨o', full, hRun, hTwo, hTake, s', hGet, ?_⟩
  rw [hAt, hTwo]
  rfl

end Megatron.Corelib
