import Megatron.Corelib.Refbuffer
import Megatron.Lib.Machine

/-!
# `outBuffer` over allocated memory

`putPN`, `putPSTR` and `putRefbuffer` say which bytes an `outBuffer` appends.
Here is where it puts them: into the block of one `refbuffer`, which it
enlarges on demand (`adjust`), hands out (`asString`, which cuts the block
down to what was written) and goes on using.

Beside the two sizes of the `refbuffer` there are two more: `bufsize`, the
room `adjust` believes in, and `cur_pos`.  A write outside the block has no
result.  Allocations succeed.

## Main results

* `Stored` — what a write does to the block, and how two of them compose.
* `stored_putPSTR` — one write for each kind of value, the position apart.
-/

namespace Megatron.Corelib

open Megatron.Lib

structure OutBuffer where
  buffer : Refbuffer
  bufsize : UInt64
  curPos : UInt64
  deriving DecidableEq, Repr

/-- `(int)n`, where it is added to a `size_t`. -/
def asInt (n : UInt64) : UInt64 := ⟨(n.toBitVec.setWidth 32).signExtend 64⟩

namespace OutBuffer

/-- `outBuffer::construct`. -/
def construct : OutBuffer where
  buffer := ⟨some (Block.malloc 0x400), 0, 0x400⟩
  bufsize := 0x400
  curPos := 0

/-- The cells of the block; none where it is `NULL`. -/
def block (o : OutBuffer) : Block UInt8 := o.buffer.buffer.getD []

/-- `outBuffer::adjust`. -/
def adjust (o : OutBuffer) (n : UInt64) : OutBuffer :=
  if o.curPos + n ≥ o.bufsize then
    let nnew := o.curPos + n + 0x10000
    { o with
      buffer := { o.buffer with buffer := some (o.block.realloc nnew.toNat) }
      bufsize := nnew }
  else o

/-- Stores `s` at `cur_pos` and moves on by `step`. -/
def copy (o : OutBuffer) (s : Bytes) (step : UInt64) : Option OutBuffer := do
  let block ← o.buffer.buffer
  let block ← block.write o.curPos.toNat s
  return { o with
    buffer := { o.buffer with buffer := some block }
    curPos := o.curPos + step }

/-- `put_8$`. -/
def putRaw8 (o : OutBuffer) (c : UInt8) : Option OutBuffer := o.copy [c] 1

/-- `Pack$`; the position moves on by an `int`. -/
def packRaw (o : OutBuffer) (s : Bytes) : Option OutBuffer :=
  o.copy s (asInt (UInt64.ofNat s.length))

/-- `outBuffer::put_8`. -/
def put8 (o : OutBuffer) (c : UInt8) : Option OutBuffer := (o.adjust 1).putRaw8 c

/-- `outBuffer::put_PN` and `put_PN$`. -/
def putPN (o : OutBuffer) (n : UInt64) : Option OutBuffer :=
  (Corelib.putPN n).foldlM putRaw8 (o.adjust 10)

/-- `outBuffer::pack`. -/
def pack (o : OutBuffer) (s : Bytes) : Option OutBuffer :=
  (o.adjust (UInt64.ofNat s.length)).copy s (UInt64.ofNat s.length)

/-- `outBuffer::put_PSTR`. -/
def putPSTR (o : OutBuffer) (s : Bytes) : Option OutBuffer := do
  let size := UInt64.ofNat s.length
  let o ← (o.adjust (10 + size)).putPN size
  o.packRaw s

/-- `operator<< (outBuffer&, const REF_getter<refbuffer>&)`; `none` is an
invalid reference or one without a buffer. -/
def putRefbuffer (o : OutBuffer) : Option Bytes → Option OutBuffer
  | some s => do
      let o ← o.putPN (UInt64.ofNat s.length)
      o.pack s
  | none => o.putPN 0

/-- `outBuffer::clear`. -/
def clear (o : OutBuffer) : OutBuffer := { o with curPos := 0 }

/-- `outBuffer::asString`; the `refbuffer` it returns is its own. -/
def asString (o : OutBuffer) : OutBuffer :=
  { o with buffer := {
      buffer := some (o.block.realloc (o.curPos + 0x20).toNat)
      size_ := o.curPos
      capacity := o.curPos + 0x20 } }

/-! ## Storing bytes -/

/-- `o'` is `o` with `s` stored at the position of `o`, wherever its own
position is. -/
structure Stored (o : OutBuffer) (s : Bytes) (o' : OutBuffer) : Prop where
  isSome : o'.buffer.buffer.isSome
  size_eq : o'.buffer.size_ = o.buffer.size_
  capacity_eq : o'.buffer.capacity = o.buffer.capacity
  bufsize_le : o.bufsize.toNat ≤ o'.bufsize.toNat
  fits : o.curPos.toNat + s.length ≤ o'.bufsize.toNat
  allocated : o'.bufsize.toNat ≤ o'.block.length
  old : ∀ k ≤ o.bufsize.toNat, o'.block.take k = Block.overlay (o.block.take k) o.curPos.toNat s
  ends : o'.block.take (o.curPos.toNat + s.length) =
    o.block.take o.curPos.toNat ++ s.map some
  exact : o.bufsize.toNat = o.block.length → o'.bufsize.toNat = o'.block.length
  written_le : o'.block.written ≤ o.block.written + s.length

/-- A position inside the room, and the room inside the block. -/
structure Proper (o : OutBuffer) : Prop where
  isSome : o.buffer.buffer.isSome
  curPos_le : o.curPos.toNat ≤ o.bufsize.toNat
  bufsize_le : o.bufsize.toNat ≤ o.block.length

variable {o o₁ o₂ : OutBuffer} {s t : Bytes}

theorem Stored.nil (h : o.Proper) : o.Stored [] o where
  isSome := h.isSome
  size_eq := rfl
  capacity_eq := rfl
  bufsize_le := Nat.le_refl _
  fits := h.curPos_le
  allocated := h.bufsize_le
  old k _ := (Block.overlay_nil _ _).symm
  ends := by simp
  exact := id
  written_le := Nat.le_refl _

theorem Stored.trans (h₁ : o.Stored s o₁) (h₂ : o₁.Stored t o₂)
    (hPos : o₁.curPos.toNat = o.curPos.toNat + s.length) : o.Stored (s ++ t) o₂ where
  isSome := h₂.isSome
  size_eq := h₂.size_eq.trans h₁.size_eq
  capacity_eq := h₂.capacity_eq.trans h₁.capacity_eq
  bufsize_le := Nat.le_trans h₁.bufsize_le h₂.bufsize_le
  fits := by
    have := h₂.fits
    rw [List.length_append]
    omega
  allocated := h₂.allocated
  old k hk := by
    rw [h₂.old k (Nat.le_trans hk h₁.bufsize_le), h₁.old k hk, hPos, Block.overlay_append]
  ends := by
    rw [List.length_append, ← Nat.add_assoc, ← hPos, h₂.ends, hPos, h₁.ends, List.map_append,
      List.append_assoc]
  exact h := h₂.exact (h₁.exact h)
  written_le := by
    have := h₁.written_le
    have := h₂.written_le
    rw [List.length_append]
    omega

/-- `adjust(n)` cannot overflow. -/
def Roomy (o : OutBuffer) (n : Nat) : Prop := o.curPos.toNat + n + 0x10000 < 2 ^ 64

instance (o : OutBuffer) (n : Nat) : Decidable (o.Roomy n) := inferInstanceAs (Decidable (_ < _))

theorem curPos_adjust (o : OutBuffer) (n : UInt64) : (o.adjust n).curPos = o.curPos := by
  rw [adjust]
  split <;> rfl

/-- What a `copy` that has a result has done. -/
theorem copy_cases {step : UInt64} (h : o.copy s step = some o₁) :
    ∃ b, o.block.write o.curPos.toNat s = some b ∧
      o₁ = { o with buffer := { o.buffer with buffer := some b }, curPos := o.curPos + step } := by
  rw [copy] at h
  cases hb : o.buffer.buffer with
  | none => simp [hb] at h
  | some b =>
      simp only [hb, Option.bind_eq_bind, Option.bind_some, Option.bind_eq_some_iff,
        Option.pure_def, Option.some.injEq] at h
      obtain ⟨b', hWrite, rfl⟩ := h
      exact ⟨b', by rw [block, hb, Option.getD_some, hWrite], rfl⟩

theorem curPos_copy {step : UInt64} (h : o.copy s step = some o₁) :
    o₁.curPos = o.curPos + step := by
  obtain ⟨_, _, rfl⟩ := copy_cases h
  rfl

/-- A realloc to `nnew` bytes that does not lose any below `bufsize`. -/
theorem stored_grow (h : o.Proper) {nnew : UInt64} (hNew : o.bufsize.toNat ≤ nnew.toNat) :
    o.Stored [] { o with
      buffer := { o.buffer with buffer := some (o.block.realloc nnew.toNat) }
      bufsize := nnew } := by
  have hOld := h.bufsize_le
  have hPos := h.curPos_le
  refine ⟨rfl, rfl, rfl, hNew, hPos.trans hNew, ?_, ?_, ?_, ?_, ?_⟩
  · exact (Block.length_realloc _ _).ge
  · intro k hk
    rw [Block.overlay_nil]
    exact Block.take_realloc (hk.trans hOld) (hk.trans hNew)
  · simp only [List.length_nil, Nat.add_zero, List.map_nil, List.append_nil]
    exact Block.take_realloc (hPos.trans hOld) (hPos.trans hNew)
  · exact fun _ => (Block.length_realloc _ _).symm
  · exact Block.written_realloc_le _ _

/-- The sums that `adjust` makes. -/
theorem toNat_grown {n : UInt64} (hRoom : o.Roomy n.toNat) :
    (o.curPos + n).toNat = o.curPos.toNat + n.toNat ∧
      (o.curPos + n + 0x10000).toNat = o.curPos.toNat + n.toNat + 0x10000 := by
  simp only [Roomy] at hRoom
  have hSum : (o.curPos + n).toNat = o.curPos.toNat + n.toNat := by
    rw [UInt64.toNat_add]
    omega
  refine ⟨hSum, ?_⟩
  rw [UInt64.toNat_add, hSum, show (0x10000 : UInt64).toNat = 0x10000 by simp]
  omega

/-- `adjust` makes room and stores nothing. -/
theorem stored_adjust (h : o.Proper) {n : UInt64} (hRoom : o.Roomy n.toNat) :
    o.Stored [] (o.adjust n) ∧ o.curPos.toNat + n.toNat < (o.adjust n).bufsize.toNat := by
  obtain ⟨hSum, hNew⟩ := toNat_grown hRoom
  rw [adjust]
  split
  · rename_i hGrow
    rw [ge_iff_le, UInt64.le_iff_toNat_le, hSum] at hGrow
    refine ⟨stored_grow h (by omega), ?_⟩
    show _ < (o.curPos + n + 0x10000).toNat
    omega
  · rename_i hGrow
    rw [ge_iff_le, UInt64.le_iff_toNat_le, hSum] at hGrow
    exact ⟨Stored.nil h, Nat.not_le.1 hGrow⟩

theorem proper_adjust (h : o.Proper) {n : UInt64} (hRoom : o.Roomy n.toNat) :
    (o.adjust n).Proper := by
  obtain ⟨hStored, hFits⟩ := stored_adjust h hRoom
  refine ⟨hStored.isSome, ?_, hStored.allocated⟩
  rw [curPos_adjust]
  omega

/-- What fits below `bufsize` is stored. -/
theorem stored_copy (h : o.Proper) (hFits : o.curPos.toNat + s.length ≤ o.bufsize.toNat)
    (step : UInt64) :
    ∃ o', o.copy s step = some o' ∧ o.Stored s o' ∧ o'.curPos = o.curPos + step := by
  obtain ⟨b, hb⟩ := Option.isSome_iff_exists.1 h.isSome
  have hBlock : o.block = b := by rw [block, hb, Option.getD_some]
  have hRoom := h.bufsize_le
  rw [hBlock] at hRoom
  have hWrite := Block.write_of_fits (Nat.le_trans hFits hRoom)
  refine ⟨_, by simp only [copy, hb, hWrite, Option.bind_eq_bind, Option.bind_some]; rfl, ?_, rfl⟩
  refine ⟨rfl, rfl, rfl, Nat.le_refl _, hFits, ?_, ?_, ?_, ?_, ?_⟩
  · simpa [block] using hRoom
  · intro k _
    rw [hBlock]
    exact Block.take_overlay _ _ _ _
  · rw [hBlock]
    exact Block.take_overlay_end (Nat.le_trans hFits hRoom)
  · rw [hBlock]
    simp [block]
  · rw [hBlock]
    exact Block.written_overlay_le _ _ _

/-- A write that ends at its position leaves a proper buffer. -/
theorem Stored.proper (h : o.Stored s o₁) (hPos : o₁.curPos.toNat = o.curPos.toNat + s.length) :
    o₁.Proper :=
  ⟨h.isSome, hPos.le.trans h.fits, h.allocated⟩

theorem stored_putRaw8s (s : Bytes) :
    ∀ o : OutBuffer, o.Proper → o.curPos.toNat + s.length ≤ o.bufsize.toNat →
      ∃ o', s.foldlM putRaw8 o = some o' ∧ o.Stored s o' ∧
        o'.curPos.toNat = o.curPos.toNat + s.length := by
  induction s with
  | nil => exact fun o h _ => ⟨o, rfl, Stored.nil h, rfl⟩
  | cons c s ih =>
      intro o h hFits
      rw [List.length_cons] at hFits
      obtain ⟨o₁, hCopy, hStored, hPos⟩ := stored_copy h (s := [c])
        (by rw [List.length_singleton]; omega) 1
      have hStep : o₁.curPos.toNat = o.curPos.toNat + [c].length := by
        have hLt := o.bufsize.toNat_lt
        rw [hPos, UInt64.toNat_add, show (1 : UInt64).toNat = 1 from rfl, List.length_singleton]
        omega
      have hLen := hStored.bufsize_le
      obtain ⟨o₂, hRest, hStored₂, hPos₂⟩ := ih o₁ (hStored.proper hStep)
        (by rw [hStep, List.length_singleton]; omega)
      refine ⟨o₂, ?_, hStored.trans hStored₂ hStep, ?_⟩
      · rw [List.foldlM_cons, putRaw8, hCopy]
        exact hRest
      · rw [hPos₂, hStep, List.length_singleton, List.length_cons]
        omega

theorem length_putPN_le (n : UInt64) : (Corelib.putPN n).length ≤ 10 := by
  have hFrom : ∀ k, (putPNFrom n k).length ≤ k + 1 := by
    intro k
    induction k with
    | zero => exact (length_putPNTail n 0).le
    | succ k ih =>
        rw [putPNFrom]
        split
        · exact (length_putPNTail n (k + 1)).le
        · omega
  exact hFrom 9

theorem stored_putPN (h : o.Proper) (hRoom : o.Roomy 10) (n : UInt64) :
    ∃ o', o.putPN n = some o' ∧ o.Stored (Corelib.putPN n) o' ∧
      o'.curPos.toNat = o.curPos.toNat + (Corelib.putPN n).length := by
  have hLen := length_putPN_le n
  obtain ⟨hAdjust, hFits⟩ := stored_adjust (n := 10) h hRoom
  obtain ⟨o', hFold, hStored, hPos⟩ := stored_putRaw8s (Corelib.putPN n) (o.adjust 10)
    (proper_adjust (n := 10) h hRoom)
    (by rw [curPos_adjust]; exact (Nat.add_le_add_left hLen _).trans hFits.le)
  rw [curPos_adjust] at hPos
  exact ⟨o', hFold, hAdjust.trans hStored (by rw [curPos_adjust]; rfl), hPos⟩

/-- `adjust(n)`, the bytes, and `cur_pos+=n`. -/
theorem stored_adjust_copy (h : o.Proper) {n : UInt64} (hRoom : o.Roomy n.toNat)
    (hLen : s.length = n.toNat) :
    ∃ o', (o.adjust n).copy s n = some o' ∧ o.Stored s o' ∧
      o'.curPos.toNat = o.curPos.toNat + s.length := by
  obtain ⟨hAdjust, hFits⟩ := stored_adjust h hRoom
  obtain ⟨o', hCopy, hStored, hPos⟩ := stored_copy (s := s) (proper_adjust h hRoom)
    (by rw [curPos_adjust, hLen]; exact hFits.le) n
  have hTrans := hAdjust.trans hStored (by rw [curPos_adjust]; rfl)
  rw [curPos_adjust] at hPos
  refine ⟨o', hCopy, hTrans, ?_⟩
  rw [hPos, UInt64.toNat_add, hLen]
  simp only [Roomy] at hRoom
  omega

theorem stored_put8 (h : o.Proper) (hRoom : o.Roomy 1) (c : UInt8) :
    ∃ o', o.put8 c = some o' ∧ o.Stored [c] o' ∧
      o'.curPos.toNat = o.curPos.toNat + [c].length :=
  stored_adjust_copy (n := 1) h hRoom rfl

/-- The length of what fits is its `size()`. -/
theorem Roomy.toNat_size {k : Nat} (hRoom : o.Roomy (k + s.length)) :
    (UInt64.ofNat s.length).toNat = s.length := by
  simp only [Roomy] at hRoom
  exact UInt64.toNat_ofNat_of_lt' (Nat.lt_of_le_of_lt (by omega) hRoom)

theorem stored_pack (h : o.Proper) (s : Bytes) (hRoom : o.Roomy s.length) :
    ∃ o', o.pack s = some o' ∧ o.Stored s o' ∧
      o'.curPos.toNat = o.curPos.toNat + s.length := by
  have hSize : (UInt64.ofNat s.length).toNat = s.length :=
    Roomy.toNat_size (o := o) (k := 0) (by rwa [Nat.zero_add])
  rw [← hSize] at hRoom
  exact stored_adjust_copy h hRoom hSize.symm

theorem stored_putRefbuffer (h : o.Proper) (s : Option Bytes)
    (hRoom : o.Roomy (10 + (s.elim 0 List.length))) :
    ∃ o', o.putRefbuffer s = some o' ∧ o.Stored (Corelib.putRefbuffer s) o' ∧
      o'.curPos.toNat = o.curPos.toNat + (Corelib.putRefbuffer s).length := by
  cases s with
  | none => exact stored_putPN h hRoom 0
  | some d =>
      have hLen := length_putPN_le (UInt64.ofNat d.length)
      simp only [Roomy, Option.elim_some] at hRoom
      obtain ⟨o₁, hPN, hStored, hPos⟩ :=
        stored_putPN h (by simp only [Roomy]; omega) (UInt64.ofNat d.length)
      obtain ⟨o₂, hPack, hStored₂, hPos₂⟩ := stored_pack (hStored.proper hPos) d
        (by simp only [Roomy]; omega)
      refine ⟨o₂, ?_, hStored.trans hStored₂ hPos, ?_⟩
      · simp only [putRefbuffer, hPN, Option.bind_eq_bind, Option.bind_some, hPack]
      · rw [hPos₂, hPos]
        simp only [Corelib.putRefbuffer, List.length_append]
        omega

/-! ## The position after a string -/

/-- Where `put_PSTR` leaves the position: the length of the string counts as
an `int`. -/
theorem stored_putPSTR (h : o.Proper) (s : Bytes) (hRoom : o.Roomy (10 + s.length)) :
    ∃ o', o.putPSTR s = some o' ∧ o.Stored (Corelib.putPSTR s) o' ∧
      o'.curPos = o.curPos + UInt64.ofNat (Corelib.putPN (UInt64.ofNat s.length)).length +
        asInt (UInt64.ofNat s.length) := by
  have hSize := hRoom.toNat_size
  generalize hEq : UInt64.ofNat s.length = size at hSize
  have hTen : (10 + size).toNat = 10 + s.length := by
    rw [UInt64.toNat_add, hSize, show (10 : UInt64).toNat = 10 from rfl]
    simp only [Roomy] at hRoom
    omega
  have hLen := length_putPN_le size
  rw [← hTen] at hRoom
  obtain ⟨hAdjust, hFits⟩ := stored_adjust h hRoom
  have hProper := proper_adjust h hRoom
  rw [hTen] at hRoom hFits
  simp only [Roomy] at hRoom
  obtain ⟨o₁, hPN, hStored, hPos⟩ := stored_putPN hProper
    (by simp only [Roomy, curPos_adjust]; omega) size
  rw [curPos_adjust] at hPos
  have hRoom₁ := hStored.bufsize_le
  obtain ⟨o₂, hPack, hStored₂, hPos₂⟩ := stored_copy (s := s)
    (hStored.proper (by rw [curPos_adjust, hPos])) (by omega) (asInt size)
  have hTrans := hAdjust.trans (hStored.trans hStored₂ (by rw [curPos_adjust, hPos]))
    (by rw [curPos_adjust]; rfl)
  refine ⟨o₂, ?_, ?_, ?_⟩
  · simp only [putPSTR, hEq, hPN, Option.bind_eq_bind, Option.bind_some, packRaw]
    exact hPack
  · rw [Corelib.putPSTR, hEq]
    exact hTrans
  · have hEq : o₁.curPos = o.curPos + UInt64.ofNat (Corelib.putPN size).length := by
      apply UInt64.toNat_inj.1
      rw [hPos, UInt64.toNat_add, UInt64.toNat_ofNat_of_lt' (Nat.lt_of_le_of_lt hLen (by decide))]
      omega
    rw [hPos₂, hEq]

theorem toNat_asInt (n : UInt64) :
    (asInt n).toNat = if n.toNat % 2 ^ 32 < 2 ^ 31 then n.toNat % 2 ^ 32
      else n.toNat % 2 ^ 32 + (2 ^ 64 - 2 ^ 32) := by
  have hLow : (n.toBitVec.setWidth 32).toNat = n.toNat % 2 ^ 32 := BitVec.toNat_setWidth _ _
  show ((n.toBitVec.setWidth 32).signExtend 64).toNat = _
  rw [BitVec.toNat_signExtend, BitVec.toNat_setWidth, BitVec.msb_eq_decide, hLow]
  split
  · rename_i hMsb
    simp only [decide_eq_true_eq] at hMsb
    rw [if_neg (by omega)]
    omega
  · rename_i hMsb
    simp only [decide_eq_true_eq] at hMsb
    rw [if_pos (by omega)]
    omega

end OutBuffer

end Megatron.Corelib
