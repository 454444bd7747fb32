import Megatron.Corelib.BitStream
import Megatron.Lib.Bits

/-!
# What an `outBitStream` writes

Where there is room, the operations on bytes put them at the position, and the
operations on bits fill the byte at the position from the right and go on to the
next when it is full.

## Main results

* `adjust_eq` — how room is made.
* `putBytes_eq`, `putRaw8s_eq` — bytes are put one behind the other.
* `Holds.withBit`, `Holds.putBitsLoop` — bits are put one behind the other.
-/

namespace Megatron.Corelib.OutBitStream

open Megatron.Lib
open Megatron.Lib.Bits
open Megatron.Lib.Stateful (bind_ok bind_error)

variable {o : OutBitStream} {n : UInt64} {s t : Bytes}

/-- `bufsize` is the size of the block. -/
def Allocated (o : OutBitStream) : Prop := o.buffer.isSome ∧ o.block.length = o.bufsize.toNat

/-! ## Room -/

/-- The next `realloc` succeeds. -/
def Granted (o : OutBitStream) : Prop := false ∉ o.answers

/-- `adjust(n)` and the operations behind it do not overflow. -/
def Roomy (o : OutBitStream) (n : ℕ) : Prop := o.mPos.pos.toNat + n + 1024 < 2 ^ 64

/-- The stream after `adjust`. -/
def adjusted (o : OutBitStream) (n : UInt64) : OutBitStream :=
  if o.mPos.pos + n ≥ o.bufsize then
    { o with
      buffer := some (o.block.realloc (o.mPos.pos + n + 1024).toNat)
      bufsize := o.mPos.pos + n + 1024
      answers := o.answers.tail }
  else o

/-- **Room is made**, or `adjust` throws because it is refused. -/
theorem adjust_cases (o : OutBitStream) (n : UInt64) :
    adjust n o = (.ok (), o.adjusted n) ∨
      o.answers.head? = some false ∧ ∃ e o', adjust n o = (.error (.thrown e), o') := by
  rw [adjust, adjusted]
  by_cases hGrow : o.mPos.pos + n ≥ o.bufsize
  · rw [if_pos hGrow, if_pos hGrow]
    dsimp only
    by_cases hRefused : o.answers.head? = some false
    · rw [if_pos hRefused]
      exact Or.inr ⟨hRefused, _, _, rfl⟩
    · rw [if_neg hRefused]
      exact Or.inl rfl
  · rw [if_neg hGrow, if_neg hGrow]
    exact Or.inl rfl

theorem adjust_eq (h : o.Granted) (n : UInt64) : adjust n o = (.ok (), o.adjusted n) := by
  rcases adjust_cases o n with hRun | ⟨hHead, -⟩
  · exact hRun
  · exact absurd (List.mem_of_mem_head? hHead) h

@[simp] theorem mPos_adjusted (o : OutBitStream) (n : UInt64) : (o.adjusted n).mPos = o.mPos := by
  rw [adjusted]
  split <;> rfl

theorem Granted.adjusted (h : o.Granted) (n : UInt64) : (o.adjusted n).Granted := by
  rw [OutBitStream.adjusted]
  split
  · exact fun hMem => h (List.mem_of_mem_tail hMem)
  · exact h

theorem Allocated.adjusted (h : o.Allocated) (n : UInt64) : (o.adjusted n).Allocated := by
  rw [OutBitStream.adjusted]
  split
  · exact ⟨rfl, Block.length_realloc _ _⟩
  · exact h

/-- The sums that `adjust(n)` makes do not overflow. -/
theorem Roomy.toNat_add {k : ℕ} (h : o.Roomy k) (hn : n.toNat = k) :
    (o.mPos.pos + n).toNat = o.mPos.pos.toNat + k ∧
      (o.mPos.pos + n + 1024).toNat = o.mPos.pos.toNat + k + 1024 := by
  rw [Roomy] at h
  have hSum : (o.mPos.pos + n).toNat = o.mPos.pos.toNat + k := by
    rw [UInt64.toNat_add]
    omega
  refine ⟨hSum, ?_⟩
  rw [UInt64.toNat_add, hSum, show (1024 : UInt64).toNat = 1024 from rfl]
  omega

/-- After `adjust(n)` there is room for `n` bytes and one more. -/
theorem lt_bufsize_adjusted {k : ℕ} (h : o.Roomy k) (hn : n.toNat = k) :
    o.mPos.pos.toNat + k < (o.adjusted n).bufsize.toNat := by
  obtain ⟨hSum, hNew⟩ := h.toNat_add hn
  rw [adjusted]
  split
  · show _ < (o.mPos.pos + n + 1024).toNat
    omega
  · rename_i hLess
    rw [ge_iff_le, UInt64.le_iff_toNat_le, hSum] at hLess
    exact Nat.not_le.1 hLess

/-- `adjust(n)` that grows the buffer makes room for `n` bytes and 1024 more. -/
theorem bufsize_adjusted {k : ℕ} (h : o.Roomy k) (hn : n.toNat = k) :
    (o.adjusted n).bufsize.toNat =
      if o.bufsize.toNat ≤ o.mPos.pos.toNat + k then o.mPos.pos.toNat + k + 1024
      else o.bufsize.toNat := by
  obtain ⟨hSum, hNew⟩ := h.toNat_add hn
  rw [adjusted]
  by_cases hGrow : o.bufsize.toNat ≤ o.mPos.pos.toNat + k
  · rw [if_pos hGrow, if_pos (by rwa [ge_iff_le, UInt64.le_iff_toNat_le, hSum])]
    exact hNew
  · rw [if_neg hGrow, if_neg (by rwa [ge_iff_le, UInt64.le_iff_toNat_le, hSum])]

/-- `adjust` keeps what lies below the old size. -/
theorem take_adjusted {k : ℕ} (hAlloc : o.Allocated) (h : o.Roomy k) (hn : n.toNat = k) {i : ℕ}
    (hi : i ≤ o.bufsize.toNat) : (o.adjusted n).block.take i = o.block.take i := by
  obtain ⟨hSum, hNew⟩ := h.toNat_add hn
  rw [adjusted]
  split
  · rename_i hGrow
    rw [ge_iff_le, UInt64.le_iff_toNat_le, hSum] at hGrow
    exact Block.take_realloc (hAlloc.2.symm ▸ hi) (by omega)
  · rfl

/-! ## Bytes -/

/-- The stream behind bytes that it has room for. -/
def behind (o : OutBitStream) (s : Bytes) : OutBitStream :=
  { o with
    buffer := some (o.block.overlay o.mPos.pos.toNat s)
    mPos := { o.mPos with pos := o.mPos.pos + UInt64.ofNat s.length } }

theorem store_eq (h : o.Allocated) (hFits : o.mPos.pos.toNat + s.length ≤ o.bufsize.toNat) :
    store s o = (.ok (), { o with buffer := some (o.block.overlay o.mPos.pos.toNat s) }) := by
  obtain ⟨b, hb⟩ := Option.isSome_iff_exists.1 h.1
  have hBlock : o.block = b := by rw [block, hb, Option.getD_some]
  rw [store]
  by_cases hNil : s = []
  · rw [if_pos hNil, hNil, Block.overlay_nil, hBlock, ← hb]
  · have hIn : o.mPos.pos.toNat + s.length ≤ b.length := by rwa [← hBlock, h.2]
    rw [if_neg hNil, if_pos hFits, hb, Option.bind_some, Block.write_of_fits hIn, hBlock]

theorem behind_nil (h : o.Allocated) : o.behind [] = o := by
  obtain ⟨b, hb⟩ := Option.isSome_iff_exists.1 h.1
  have hBlock : some o.block = o.buffer := by rw [block, hb, Option.getD_some]
  rw [behind, Block.overlay_nil, hBlock, List.length_nil]
  simp

theorem Allocated.behind (h : o.Allocated) (s : Bytes) : (o.behind s).Allocated :=
  ⟨rfl, (Block.length_overlay _ _ _).trans h.2⟩

/-- The position behind bytes that fit. -/
theorem toNat_behind (hFits : o.mPos.pos.toNat + s.length ≤ o.bufsize.toNat) :
    (o.behind s).mPos.pos.toNat = o.mPos.pos.toNat + s.length := by
  have hLt := o.bufsize.toNat_lt
  show (o.mPos.pos + UInt64.ofNat s.length).toNat = _
  rw [UInt64.toNat_add, UInt64.toNat_ofNat_of_lt' (Nat.lt_of_le_of_lt (by omega) hLt)]
  omega

theorem behind_behind (hFits : o.mPos.pos.toNat + s.length ≤ o.bufsize.toNat) (t : Bytes) :
    (o.behind s).behind t = o.behind (s ++ t) := by
  have hPos := toNat_behind hFits
  have hBlock : (o.behind s).block = o.block.overlay o.mPos.pos.toNat s := rfl
  have hSum : (o.behind s).mPos.pos + UInt64.ofNat t.length =
      o.mPos.pos + UInt64.ofNat (s ++ t).length := by
    show o.mPos.pos + UInt64.ofNat s.length + UInt64.ofNat t.length = _
    rw [List.length_append, UInt64.ofNat_add, UInt64.add_assoc]
  rw [behind, hSum, hPos, hBlock, ← Block.overlay_append]
  rfl

/-- **What is behind the position** after bytes that fit. -/
theorem take_behind (h : o.Allocated) (hFits : o.mPos.pos.toNat + s.length ≤ o.bufsize.toNat) :
    (o.behind s).block.take (o.mPos.pos.toNat + s.length) =
      o.block.take o.mPos.pos.toNat ++ s.map some :=
  Block.take_overlay_end (h.2.symm ▸ hFits)

theorem putByte_eq (h : o.Allocated) {c : UInt8}
    (hFits : o.mPos.pos.toNat + 1 ≤ o.bufsize.toNat) : putByte c o = (.ok (), o.behind [c]) := by
  rw [putByte, bind_ok (store_eq h (s := [c]) hFits)]
  rfl

/-- Of bytes that fit, the first fits, and behind it the others fit. -/
theorem room_behind {c : UInt8} {s : Bytes}
    (hFits : o.mPos.pos.toNat + (c :: s).length ≤ o.bufsize.toNat) :
    o.mPos.pos.toNat + [c].length ≤ o.bufsize.toNat ∧
      (o.behind [c]).mPos.pos.toNat + s.length ≤ (o.behind [c]).bufsize.toNat := by
  rw [List.length_cons] at hFits
  have hOne : o.mPos.pos.toNat + [c].length ≤ o.bufsize.toNat := by
    rw [List.length_singleton]
    omega
  have hPos := toNat_behind hOne
  rw [List.length_singleton] at hPos
  refine ⟨hOne, ?_⟩
  show (o.behind [c]).mPos.pos.toNat + s.length ≤ o.bufsize.toNat
  omega

/-- **Bytes are put** one behind the other by `putBytes`. -/
theorem putBytes_eq (s : Bytes) :
    ∀ o : OutBitStream, o.Allocated → o.mPos.pos.toNat + s.length ≤ o.bufsize.toNat →
      putBytes s o = (.ok (), o.behind s) := by
  induction s with
  | nil =>
      intro o h _
      rw [behind_nil h]
      rfl
  | cons c s ih =>
      intro o h hFits
      obtain ⟨hOne, hMore⟩ := room_behind hFits
      rw [putBytes, bind_ok (putByte_eq h hOne), ih (o.behind [c]) (h.behind _) hMore,
        behind_behind hOne]
      rfl

/-- All eight bits of the byte at the position are left. -/
def AtBoundary (o : OutBitStream) : Prop := o.mPos.bitsRemainsInByte = 8

theorem boundary_eq (h : o.AtBoundary) : boundary o = (.ok (), o) := by
  rw [AtBoundary] at h
  rw [boundary, if_neg (not_not.2 h)]

theorem boundary_error (h : ¬ o.AtBoundary) : boundary o = (.error (boundaryError o.mPos), o) := by
  rw [AtBoundary] at h
  rw [boundary, if_pos h]

/-- Calls of `put_8$` put bytes one behind the other. -/
theorem putRaw8s_eq (s : Bytes) :
    ∀ o : OutBitStream, o.Allocated → o.AtBoundary →
      o.mPos.pos.toNat + s.length ≤ o.bufsize.toNat → putRaw8s s o = (.ok (), o.behind s) := by
  induction s with
  | nil =>
      intro o h _ _
      rw [behind_nil h]
      rfl
  | cons c s ih =>
      intro o h hStart hFits
      obtain ⟨hOne, hMore⟩ := room_behind hFits
      have hFirst : putRaw8 c o = (.ok (), o.behind [c]) := by
        rw [putRaw8, bind_ok (boundary_eq hStart), putByte_eq h hOne]
      rw [putRaw8s, bind_ok hFirst, ih (o.behind [c]) (h.behind _) hStart hMore, behind_behind hOne]
      rfl

/-! ## Bits -/

/-- The byte at the position. -/
def cell (o : OutBitStream) : UInt8 :=
  ((o.block[o.mPos.pos.toNat]?).join).getD (o.stale o.mPos.pos.toNat)

/-- A bit is shifted into a byte. -/
def shiftIn (c : UInt8) (bit : Bool) : UInt8 := c <<< 1 ||| (if bit then 1 else 0)

/-- The stream behind a bit that it has room for. -/
def withBit (o : OutBitStream) (bit : Bool) : OutBitStream :=
  { o with
    buffer := some (o.block.overlay o.mPos.pos.toNat [shiftIn o.cell bit])
    mPos := o.mPos.next }

theorem putBit_eq (h : o.Allocated) (hRoom : o.mPos.pos.toNat < o.bufsize.toNat) (bit : Bool) :
    putBit bit o = (.ok (), o.withBit bit) := by
  have hStore := store_eq h (s := [shiftIn o.cell bit]) hRoom
  rw [shiftIn, cell] at hStore
  rw [putBit, hStore]
  rfl

theorem toNat_shiftIn (c : UInt8) (bit : Bool) :
    (shiftIn c bit).toNat = (2 * c.toNat + bit.toNat) % 256 := by
  have hShift : (c <<< 1).toNat = 2 ^ 1 * (c.toNat % 128) := by
    rw [UInt8.toNat_shiftLeft, show (1 : UInt8).toNat % 8 = 1 from rfl, Nat.shiftLeft_eq]
    omega
  have hLt := c.toNat_lt
  rw [shiftIn, UInt8.toNat_or, hShift]
  cases bit with
  | false =>
      show 2 ^ 1 * (c.toNat % 128) ||| 0 = (2 * c.toNat + 0) % 256
      rw [Nat.or_zero]
      omega
  | true =>
      show 2 ^ 1 * (c.toNat % 128) ||| 1 = (2 * c.toNat + 1) % 256
      rw [← Nat.two_pow_add_eq_or_of_lt (by decide)]
      omega

/-- Behind the cells `old` the stream holds bits: those of whole bytes, and then
some that are the lower end of the byte at the position. -/
structure Holds (o : OutBitStream) (old : Block UInt8) (full : Bytes) (part : List Bool) : Prop where
  allocated : o.Allocated
  part_lt : part.length < 8
  pos_eq : o.mPos.pos.toNat = old.length + full.length
  rem_eq : o.mPos.bitsRemainsInByte.toNat = 8 - part.length
  take_eq : o.block.take o.mPos.pos.toNat = old ++ full.map some
  room : part ≠ [] → o.mPos.pos.toNat < o.bufsize.toNat
  cell_eq : o.cell.toNat % 2 ^ part.length = valueOf part

variable {old : Block UInt8} {full : Bytes} {part : List Bool}

/-- A stream at the beginning of a byte, in a block of a size that there is. -/
structure Proper (o : OutBitStream) : Prop where
  allocated : o.Allocated
  boundary : o.AtBoundary
  pos_le : o.mPos.pos.toNat ≤ o.bufsize.toNat
  bufsize_lt : o.bufsize.toNat < 2 ^ 63

theorem proper_construct (answers : List Bool) (stale : ℕ → UInt8) :
    (construct answers stale).Proper where
  allocated := ⟨rfl, Block.length_malloc 256⟩
  boundary := rfl
  pos_le := Nat.zero_le _
  bufsize_lt := by
    show 256 < 2 ^ 63
    decide

theorem Proper.roomy (h : o.Proper) {k : ℕ} (hk : k + 1024 ≤ 2 ^ 63) : o.Roomy k := by
  have hPos := h.pos_le
  have hLt := h.bufsize_lt
  rw [Roomy]
  omega

/-- What is behind the position. -/
def written (o : OutBitStream) : Block UInt8 := o.block.take o.mPos.pos.toNat

theorem length_written (hAllocated : o.Allocated) (hPos : o.mPos.pos.toNat ≤ o.bufsize.toNat) :
    o.written.length = o.mPos.pos.toNat := by
  rw [written, List.length_take, hAllocated.2, Nat.min_eq_left hPos]

/-- A stream at the beginning of a byte holds no bits yet. -/
theorem holds_written (hAllocated : o.Allocated) (hStart : o.AtBoundary)
    (hPos : o.mPos.pos.toNat ≤ o.bufsize.toNat) : o.Holds o.written [] [] := by
  refine ⟨hAllocated, by decide, ?_, ?_, ?_, fun hNil => absurd rfl hNil, ?_⟩
  · rw [length_written hAllocated hPos, List.length_nil, Nat.add_zero]
  · exact congrArg UInt64.toNat hStart
  · rw [List.map_nil, List.append_nil, written]
  · rw [List.length_nil, Nat.pow_zero, Nat.mod_one, valueOf_nil]

/-- A bit that is shifted into a byte comes behind the bits at its lower end. -/
theorem cell_shifted {c : UInt8} (hCell : c.toNat % 2 ^ part.length = valueOf part)
    (hPart : part.length < 8) (bit : Bool) :
    (shiftIn c bit).toNat % 2 ^ (part ++ [bit]).length = valueOf (part ++ [bit]) := by
  have hDvd : 2 ^ (part.length + 1) ∣ 256 := Nat.pow_dvd_pow 2 (n := 8) hPart
  rw [toNat_shiftIn, List.length_append, List.length_singleton, Nat.mod_mod_of_dvd _ hDvd,
    valueOf_concat, Nat.pow_succ, Nat.mul_comm (2 ^ part.length), two_mul_add_mod, hCell]

/-- **A bit is put** behind the bits that are there. -/
theorem Holds.withBit (h : o.Holds old full part) (hRoom : o.mPos.pos.toNat < o.bufsize.toNat)
    (bit : Bool) :
    ∃ full' part', (o.withBit bit).Holds old full' part' ∧
      toBits full' ++ part' = toBits full ++ part ++ [bit] := by
  have hPart := h.part_lt
  have hRem := h.rem_eq
  have hLt := o.bufsize.toNat_lt
  have hIn : o.mPos.pos.toNat < o.block.length := by
    rw [h.allocated.2]
    exact hRoom
  have hAllocated : (o.withBit bit).Allocated :=
    ⟨rfl, (Block.length_overlay _ _ _).trans h.allocated.2⟩
  have hBlock : (o.withBit bit).block = o.block.overlay o.mPos.pos.toNat [shiftIn o.cell bit] := rfl
  have hValue := cell_shifted h.cell_eq hPart bit
  rcases o.mPos.next_eq (by omega) with ⟨hOne, hNext⟩ | ⟨hMore, hNext, hLess⟩
  · -- the byte is full
    have hEight : (part ++ [bit]).length = 8 := by
      rw [List.length_append, List.length_singleton]
      omega
    have hPos : (o.mPos.pos + 1).toNat = o.mPos.pos.toNat + 1 := by
      rw [UInt64.toNat_add, show (1 : UInt64).toNat = 1 from rfl]
      omega
    have hStep : (o.withBit bit).mPos = ⟨o.mPos.pos + 1, 8⟩ := hNext
    have hByte : bitsOf 8 (shiftIn o.cell bit).toNat = part ++ [bit] := by
      rw [hEight, Nat.mod_eq_of_lt (UInt8.toNat_lt _)] at hValue
      rw [hValue, ← hEight, bitsOf_valueOf]
    refine ⟨full ++ [shiftIn o.cell bit], [], ⟨hAllocated, by decide, ?_, ?_, ?_, ?_, ?_⟩, ?_⟩
    · rw [hStep, hPos, h.pos_eq, List.length_append, List.length_singleton, Nat.add_assoc]
    · rw [hStep]
      rfl
    · rw [hStep, hPos, hBlock]
      refine (Block.take_overlay_end (s := [shiftIn o.cell bit]) (Nat.succ_le_of_lt hIn)).trans ?_
      rw [h.take_eq, List.map_append, List.append_assoc]
    · exact fun hNil => absurd rfl hNil
    · rw [List.length_nil, Nat.pow_zero, Nat.mod_one, valueOf_nil]
    · rw [toBits_append, toBits_cons, toBits_nil, hByte, List.append_nil, List.append_nil,
        List.append_assoc]
  · have hStep : (o.withBit bit).mPos.pos = o.mPos.pos := by
      show o.mPos.next.pos = _
      rw [hNext]
    refine ⟨full, part ++ [bit], ⟨hAllocated, ?_, ?_, ?_, ?_, ?_, ?_⟩, ?_⟩
    · rw [List.length_append, List.length_singleton]
      omega
    · rw [hStep, h.pos_eq]
    · refine Eq.trans hLess ?_
      rw [List.length_append, List.length_singleton]
      omega
    · rw [hStep, hBlock, Block.take_overlay_of_le le_rfl, h.take_eq]
    · exact fun _ => hStep.symm ▸ hRoom
    · have hCell : (o.withBit bit).cell = shiftIn o.cell bit := by
        rw [cell, hStep, hBlock, Block.getElem?_overlay hIn]
        rfl
      rw [hCell, hValue]
    · rw [List.append_assoc]

/-! ## Fields of bits -/

/-- The bits that the loop of `put_bits` puts. -/
def loopBits (val : UInt32) : ℕ → List Bool
  | 0 => []
  | i + 1 => bitOf val i :: loopBits val i

@[simp] theorem length_loopBits (val : UInt32) (i : ℕ) : (loopBits val i).length = i := by
  induction i with
  | zero => rfl
  | succ i ih => rw [loopBits, List.length_cons, ih]

theorem bitOf_eq (val : UInt32) {i : ℕ} (hi : i < 32) : bitOf val i = val.toNat.testBit i := by
  have hShift : (UInt32.ofNat i).toNat % 32 = i := by
    rw [UInt32.toNat_ofNat']
    omega
  have hBit : (val >>> UInt32.ofNat i &&& 1).toNat = val.toNat / 2 ^ i % 2 := by
    rw [UInt32.toNat_and, UInt32.toNat_shiftRight, hShift, Nat.shiftRight_eq_div_pow,
      show (1 : UInt32).toNat = 2 ^ 1 - 1 from rfl, Nat.and_two_pow_sub_one_eq_mod]
  rw [bitOf, Nat.testBit_eq_decide_div_mod_eq]
  congr 1
  rw [← UInt32.toNat_inj, hBit]
  rfl

theorem loopBits_eq (val : UInt32) {i : ℕ} (hi : i ≤ 32) : loopBits val i = bitsOf i val.toNat := by
  induction i with
  | zero => rfl
  | succ i ih => rw [loopBits, bitsOf, bitOf_eq val (by omega), ih (by omega)]

/-- The bits in whole bytes and behind them, counted. -/
theorem Holds.length_eq {full' : Bytes} {part' bs : List Bool}
    (h : toBits full' ++ part' = toBits full ++ part ++ bs) :
    8 * full'.length + part'.length = 8 * full.length + part.length + bs.length := by
  have hLength := congrArg List.length h
  simpa only [List.length_append, length_toBits] using hLength

/-- **The loop of `put_bits`**, where there is room for the last bit. -/
theorem Holds.putBitsLoop (val : UInt32) (i : ℕ) :
    ∀ (o : OutBitStream) (full : Bytes) (part : List Bool), o.Holds old full part →
      (0 < i → old.length + (8 * full.length + part.length + (i - 1)) / 8 < o.bufsize.toNat) →
      ∃ o' full' part', OutBitStream.putBitsLoop val i o = (.ok (), o') ∧ o'.Holds old full' part' ∧
        toBits full' ++ part' = toBits full ++ part ++ loopBits val i ∧
        o'.bufsize = o.bufsize ∧ o'.answers = o.answers := by
  induction i with
  | zero => exact fun o full part h _ => ⟨o, full, part, rfl, h, by simp [loopBits], rfl, rfl⟩
  | succ i ih =>
      intro o full part h hRoom
      have hLast := hRoom (Nat.succ_pos i)
      have hPart := h.part_lt
      have hHere : o.mPos.pos.toNat < o.bufsize.toNat := by
        rw [h.pos_eq]
        omega
      obtain ⟨full₁, part₁, h₁, hBits⟩ := h.withBit hHere (bitOf val i)
      have hLength := Holds.length_eq hBits
      rw [List.length_singleton] at hLength
      obtain ⟨o', full', part', hRun, h', hBits', hSize, hAnswers⟩ :=
        ih (o.withBit (bitOf val i)) full₁ part₁ h₁ (by
          intro hMore
          show _ < o.bufsize.toNat
          rw [hLength]
          omega)
      refine ⟨o', full', part', ?_, h', ?_, hSize, hAnswers⟩
      · rw [OutBitStream.putBitsLoop, bind_ok (putBit_eq h.allocated hHere _), hRun]
      · rw [hBits', hBits, loopBits, List.append_assoc, List.singleton_append]

/-- Making room keeps what the stream holds. -/
theorem Holds.adjusted (h : o.Holds old full part) {k : ℕ} (hRoom : o.Roomy k)
    (hn : n.toNat = k) : (o.adjusted n).Holds old full part := by
  have hLt := lt_bufsize_adjusted hRoom hn
  have hOld : o.mPos.pos.toNat ≤ o.bufsize.toNat := by
    have hLength := congrArg List.length h.take_eq
    rw [List.length_take, h.allocated.2, List.length_append, List.length_map, ← h.pos_eq] at hLength
    omega
  have hTake := take_adjusted h.allocated hRoom hn hOld
  refine ⟨h.allocated.adjusted n, h.part_lt, ?_, ?_, ?_, fun _ => ?_, ?_⟩
  · rw [mPos_adjusted, h.pos_eq]
  · rw [mPos_adjusted, h.rem_eq]
  · rw [mPos_adjusted, hTake, h.take_eq]
  · rw [mPos_adjusted]
    omega
  · by_cases hNil : part = []
    · rw [hNil, List.length_nil, Nat.pow_zero, Nat.mod_one, valueOf_nil]
    · have hIn := h.room hNil
      have hNext := take_adjusted h.allocated hRoom hn (Nat.succ_le_of_lt hIn)
      have hGet := congrArg (·[o.mPos.pos.toNat]?) hNext
      simp only [List.getElem?_take_of_lt (Nat.lt_succ_self _)] at hGet
      have hStale : (o.adjusted n).stale = o.stale := by
        rw [OutBitStream.adjusted]
        split <;> rfl
      rw [cell, mPos_adjusted, hGet, hStale]
      exact h.cell_eq

/-- The bytes that `put_bits` makes room for. -/
theorem toNat_bytes {bitcount : Int32} (h : 0 ≤ bitcount.toInt) :
    (UInt64.ofInt (bitcount.toInt.tdiv 8)).toNat = bitcount.toInt.toNat / 8 := by
  have hLt := bitcount.toInt_lt
  obtain ⟨k, hk⟩ := Int.eq_ofNat_of_zero_le h
  rw [hk] at hLt
  have hDiv : (k : ℤ).tdiv 8 = ((k / 8 : ℕ) : ℤ) := (Int.ofNat_tdiv k 8).symm
  have hSmall : ((k / 8 : ℕ) : ℤ) % 2 ^ 64 = ((k / 8 : ℕ) : ℤ) := by
    omega
  have hFits : k / 8 < UInt64.size := Nat.lt_of_lt_of_le (by omega : k / 8 < 2 ^ 31) (by decide)
  rw [hk, hDiv, UInt64.ofInt, hSmall, Int.toNat_natCast, Int.toNat_natCast,
    UInt64.toNat_ofNat_of_lt' hFits]

/-- **`put_bits`**, where there is room for the last bit. -/
theorem Holds.putBits (h : o.Holds old full part) (val : UInt32) {bitcount : Int32}
    (hCount : 0 ≤ bitcount.toInt) (hRoom : o.Roomy (bitcount.toInt.toNat / 8))
    (hAdjust : adjust (UInt64.ofInt (bitcount.toInt.tdiv 8)) o =
      (.ok (), o.adjusted (UInt64.ofInt (bitcount.toInt.tdiv 8))))
    (hFits : 0 < bitcount.toInt.toNat →
      old.length + (8 * full.length + part.length + (bitcount.toInt.toNat - 1)) / 8 <
        (o.adjusted (UInt64.ofInt (bitcount.toInt.tdiv 8))).bufsize.toNat) :
    ∃ o' full' part', OutBitStream.putBits val bitcount o = (.ok (), o') ∧ o'.Holds old full' part' ∧
      toBits full' ++ part' = toBits full ++ part ++ loopBits val bitcount.toInt.toNat ∧
      o'.bufsize = (o.adjusted (UInt64.ofInt (bitcount.toInt.tdiv 8))).bufsize ∧
      o'.answers = (o.adjusted (UInt64.ofInt (bitcount.toInt.tdiv 8))).answers := by
  have hBytes := toNat_bytes hCount
  have hRem := h.rem_eq
  have hPart := h.part_lt
  have hNot : ¬ o.mPos.bitsRemainsInByte = 0 := by
    intro hZero
    rw [hZero] at hRem
    have hNone : (0 : UInt64).toNat = 0 := rfl
    omega
  obtain ⟨o', full', part', hRun, h', hBits, hSize, hAnswers⟩ :=
    (h.adjusted hRoom hBytes).putBitsLoop val bitcount.toInt.toNat _ full part hFits
  refine ⟨o', full', part', ?_, h', hBits, hSize, hAnswers⟩
  rw [OutBitStream.putBits, if_neg hNot, bind_ok hAdjust, hRun]

end Megatron.Corelib.OutBitStream
