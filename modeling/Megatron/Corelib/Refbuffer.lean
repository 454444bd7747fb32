import Megatron.Corelib.IoBuffer
import Megatron.Lib.Block

/-!
# Reference-counted byte buffers

A `refbuffer` is an allocated block with two sizes beside it: how many of its
bytes are data (`size_`) and how many it is believed to hold (`capacity`).
The three are set apart from each other by every function that makes or
changes one, so nothing but the functions themselves keeps them together.

`size_t` is `UInt64` here: its sums wrap as they do in the source.
-/

namespace Megatron.Corelib

open Megatron.Lib

/-- The bytes of one object: `ptrdiff_t` bounds the size of an object. -/
abbrev Object := { d : Bytes // d.length < 2 ^ 63 }

namespace Object

/-- `s.size()`. -/
def size (s : Object) : UInt64 := UInt64.ofNat s.val.length

@[simp] theorem toNat_size (s : Object) : s.size.toNat = s.val.length :=
  UInt64.toNat_ofNat_of_lt' (Nat.lt_trans s.property (by decide))

end Object

/-- `NULL` is `none`. -/
structure Refbuffer where
  buffer : Option (Block UInt8)
  size_ : UInt64
  capacity : UInt64
  deriving DecidableEq, Repr

namespace Refbuffer

/-- `refbuffer::refbuffer`. -/
def new : Refbuffer := ⟨none, 0, 0⟩

/-- The number of bytes `malloc` handed out. -/
def allocated (r : Refbuffer) : Nat := (r.buffer.getD []).length

/-- The `size_` bytes from `buffer` on. -/
def bytes (r : Refbuffer) : Block UInt8 := (r.buffer.getD []).take r.size_.toNat

/-- `refbuffer::alloc`; `capacity` is left as it was. -/
def alloc (r : Refbuffer) (sz : UInt64) : Refbuffer :=
  if r.size_ ≥ sz ∧ r.buffer.isSome then r
  else { r with buffer := some (Block.malloc (sz + 0x20).toNat), size_ := sz + 10 }

/-- `toRef`; an empty text gives a refbuffer without a block. -/
def toRef (s : Object) : Option Refbuffer :=
  if s.size ≠ 0 then do
    let capacity := s.size + 0x20
    let block ← (Block.malloc capacity.toNat).write 0 s.val
    return ⟨some block, s.size, capacity⟩
  else some new

/-- The data fits the capacity, and the capacity the block. -/
structure Sized (r : Refbuffer) : Prop where
  size_le : r.size_.toNat ≤ r.capacity.toNat
  capacity_le : r.capacity.toNat ≤ r.allocated

theorem sized_new : new.Sized := ⟨Nat.le_refl _, Nat.zero_le _⟩

theorem toRef_eq (s : Object) :
    ∃ r, toRef s = some r ∧ r.Sized ∧ r.bytes = s.val.map some := by
  rw [toRef]
  have hSize := s.toNat_size
  have hLt := s.property
  by_cases h0 : s.size ≠ 0
  · have hCap : (s.size + 0x20).toNat = s.val.length + 0x20 := by
      rw [UInt64.toNat_add, hSize, show (0x20 : UInt64).toNat = 0x20 from rfl]
      omega
    have hFits : 0 + s.val.length ≤ (Block.malloc (s.size + 0x20).toNat : Block UInt8).length := by
      rw [Block.length_malloc, hCap]
      omega
    rw [if_pos h0]
    simp only [Block.write_of_fits hFits]
    refine ⟨_, rfl, ⟨?_, ?_⟩, ?_⟩
    · show s.size.toNat ≤ (s.size + 0x20).toNat
      omega
    · simp [allocated]
    · have hTake := Block.take_overlay_end hFits
      rw [Nat.zero_add] at hTake
      simpa [bytes] using hTake
  · have hNil : s.val = [] := by
      rw [not_not] at h0
      rw [← List.length_eq_zero_iff, ← hSize, h0]
      rfl
    rw [if_neg h0, hNil]
    exact ⟨new, rfl, sized_new, rfl⟩

/-- **What `alloc` keeps.** Where it takes a new block, `size_` runs ahead of
a `capacity` nobody has set. -/
theorem sized_alloc_iff {r : Refbuffer} (h : r.Sized) (sz : UInt64) :
    (r.alloc sz).Sized ↔ (sz ≤ r.size_ ∧ r.buffer.isSome) ∨
      ((sz + 10).toNat ≤ r.capacity.toNat ∧ r.capacity.toNat ≤ (sz + 0x20).toNat) := by
  rw [alloc]
  by_cases hEnough : r.size_ ≥ sz ∧ r.buffer.isSome
  · rw [if_pos hEnough]
    exact ⟨fun _ => Or.inl hEnough, fun _ => h⟩
  · rw [if_neg hEnough]
    constructor
    · intro hSized
      have hCap := hSized.capacity_le
      simp only [allocated, Option.getD_some, Block.length_malloc] at hCap
      exact Or.inr ⟨hSized.size_le, hCap⟩
    · rintro (hOld | ⟨hSize, hCap⟩)
      · exact absurd hOld hEnough
      · exact ⟨hSize, by simpa [allocated] using hCap⟩

end Refbuffer

end Megatron.Corelib
