import Megatron.Corelib.Refbuffer

/-!
# AES payloads

`st_AES_impl::encrypt` makes the text a multiple of the block size before it
encrypts it, and it does so in the buffer it was given: the padding goes
behind the `size_` bytes and counts as part of them from then on.
`st_AES_impl::decrypt` takes it off again: the last byte of what it decrypted,
as a `char`, says how much.

The block function is a parameter, `cipher`.  Of `encrypt` only the padding is
here, which is all it does to its argument.
-/

namespace Megatron.Ssl

open Megatron.Corelib Megatron.Lib

/-- `AES_BLOCK_SIZE`. -/
def blockSize : UInt64 := 16

/-- The number of bytes to add. -/
def padding (size_ : UInt64) : UInt64 :=
  if size_ % blockSize ≠ 0 then blockSize - size_ % blockSize else 0x10

/-- `addl`: as many bytes as are missing, each of them that number. -/
def addl (size_ : UInt64) : Bytes :=
  List.replicate (padding size_).toNat (padding size_).toUInt8

/-- What `st_AES_impl::encrypt` does to its argument: the refbuffer after it,
or what it throws; no result is a write outside the block. -/
def pad (inited : Bool) (buf : Refbuffer) : Option (Except CommonError Refbuffer) :=
  if !inited then some (.error ⟨"st_AES not inited "⟩)
  else if buf.capacity - buf.size_ ≥ padding buf.size_ then do
    let block ← buf.buffer
    let block ← block.write buf.size_.toNat (addl buf.size_)
    return .ok { buf with buffer := some block, size_ := buf.size_ + padding buf.size_ }
  else some (.error ⟨"if(buf->capacity - buf->size >= addl.size())"⟩)

/-- The key schedule of `st_AES_impl`; `none` is `inited = false`. -/
abbrev Aes := Option Bytes

/-- The 16 bytes that `st_AES_impl::init` makes of a key. -/
def keyBuff (key : Bytes) : Bytes := (List.replicate 16 key).flatten.take 16

/-- `st_AES_impl::init`. -/
def Aes.init (key : Bytes) : Except CommonError Aes :=
  if key = [] then .error ⟨"password size == 0"⟩ else .ok (some (keyBuff key))

/-- The blocks of a text. -/
def blocks (d : Bytes) : List Bytes :=
  (List.range (d.length / 16)).map fun i => (d.drop (16 * i)).take 16

/-- `(char)n`, where it is taken off a `size_t`. -/
def asChar (n : UInt8) : UInt64 := ⟨n.toBitVec.signExtend 64⟩

/-- `st_AES_impl::decrypt` of the bytes of a refbuffer. -/
def Aes.decrypt (cipher : Bytes → Bytes → Bytes) (aes : Aes) (d : Bytes) :
    Except CommonError Refbuffer :=
  match aes with
  | none => .error ⟨"st_AES not inited "⟩
  | some key =>
      if d.length % 16 ≠ 0 then .error ⟨"buf.size() mod AES_BLOCK_SIZE!=0"⟩
      else
        let o := (blocks d).flatMap (cipher key)
        let size_ := UInt64.ofNat d.length
        match o.getLast? with
        | some n => .ok ⟨some (o.map some), size_ - asChar n, size_⟩
        | none => .error ⟨"empty AES buffer"⟩

/-- The bytes that are missing to the next block. -/
theorem toNat_padding (size_ : UInt64) : (padding size_).toNat = 16 - size_.toNat % 16 := by
  have hMod : (size_ % blockSize).toNat = size_.toNat % 16 := UInt64.toNat_mod _ _
  have hLt := Nat.mod_lt size_.toNat (show 0 < 16 by decide)
  rw [padding]
  split
  · have hLe : size_ % blockSize ≤ blockSize := by
      rw [UInt64.le_iff_toNat_le, hMod]
      exact hLt.le
    rw [UInt64.toNat_sub_of_le _ _ hLe, hMod, show blockSize.toNat = 16 from rfl]
  · rename_i hWhole
    rw [ne_eq, not_not] at hWhole
    rw [hWhole] at hMod
    rw [← hMod]
    rfl

theorem padding_range (size_ : UInt64) :
    0 < (padding size_).toNat ∧ (padding size_).toNat ≤ 16 := by
  have hLt := Nat.mod_lt size_.toNat (show 0 < 16 by decide)
  rw [toNat_padding]
  omega

/-- **Padding a refbuffer in order.** It stays inside the block, and so do
the sizes. -/
theorem sized_pad (inited : Bool) {buf : Refbuffer} (h : buf.Sized) :
    ∃ r, pad inited buf = some r ∧ ∀ buf', r = .ok buf' → buf'.Sized := by
  obtain ⟨hPos, -⟩ := padding_range buf.size_
  have hSize := h.size_le
  have hCap := h.capacity_le
  rw [pad]
  split
  · exact ⟨_, rfl, by simp⟩
  · split
    · rename_i hRoom
      rw [ge_iff_le, UInt64.le_iff_toNat_le,
        UInt64.toNat_sub_of_le _ _ (UInt64.le_iff_toNat_le.2 hSize)] at hRoom
      have hSum : (buf.size_ + padding buf.size_).toNat =
          buf.size_.toNat + (padding buf.size_).toNat := by
        have := buf.capacity.toNat_lt
        rw [UInt64.toNat_add]
        omega
      cases hBuf : buf.buffer with
      | none =>
          rw [Refbuffer.allocated, hBuf] at hCap
          have hZero : buf.capacity.toNat ≤ 0 := hCap
          omega
      | some b =>
          rw [Refbuffer.allocated, hBuf, Option.getD_some] at hCap
          have hFits : buf.size_.toNat + (addl buf.size_).length ≤ b.length := by
            rw [addl, List.length_replicate]
            omega
          refine ⟨_, by simp only [Option.bind_eq_bind, Option.bind_some,
            Block.write_of_fits hFits]; rfl, ?_⟩
          rintro _ ⟨rfl⟩
          refine ⟨?_, ?_⟩
          · show (buf.size_ + padding buf.size_).toNat ≤ buf.capacity.toNat
            omega
          · simpa [Refbuffer.allocated] using hCap
    · exact ⟨_, rfl, by simp⟩

/-- The capacity is only read. -/
theorem capacity_pad {inited : Bool} {buf buf' : Refbuffer}
    (h : pad inited buf = some (.ok buf')) : buf'.capacity = buf.capacity := by
  rw [pad] at h
  split at h
  · cases h
  · split at h
    · simp only [Option.bind_eq_bind, Option.bind_eq_some_iff, Option.pure_def,
        Option.some.injEq, Except.ok.injEq] at h
      obtain ⟨b, -, b', -, rfl⟩ := h
      rfl
    · cases h

end Megatron.Ssl
