import Megatron.Corelib.Handout
import Megatron.Corelib.Hostile
import Megatron.Ssl.Aes

/-!
# The sizes of a `refbuffer`

Everything that makes or changes a `refbuffer`, in any order: the
constructor, `alloc`, both forms of `toRef`, an `outBuffer` that fills and
hands out its own, `operator>>` on any bytes, also where it throws between the
size and the bytes, and the padding of `encrypt`.  Allocations succeed, of the
size that is requested modulo `2^64`.

A run ends where the program writes outside a block.

## Main results

* `refbuffer_sized` — along steps that meet `Fits`,
  `size_ <= capacity <=` the bytes allocated.
* `alloc_breaks` — `alloc` and a size read off the wire, each on its own.
-/

namespace Megatron.Corelib

open Megatron.Lib

/-- `toRef(const uint8_t*, int)`; the sum is one of `int`s. -/
def Refbuffer.toRefInt (s : Object) : Option Refbuffer :=
  if s.size ≠ 0 then do
    let capacity := asInt (s.size + 0x20)
    let block ← (Block.malloc capacity.toNat).write 0 s.val
    return ⟨some block, asInt s.size, capacity⟩
  else some new

/-- A refbuffer, alone or as the one of an `outBuffer`. -/
inductive Held
  | plain (r : Refbuffer)
  | shared (o : OutBuffer)

/-- The operations; those of an `outBuffer` need one. -/
inductive RefOp
  | construct
  | alloc (sz : UInt64)
  | toRef (s : Object)
  | toRefInt (s : Object) (h : s.val.length < 2 ^ 31)
  | outBuffer
  | write (w : Write)
  | clear
  | asString
  | deserialise (d : Object)
  | encrypt (inited : Bool)

namespace Held

def ref : Held → Refbuffer
  | plain r => r
  | shared o => o.buffer

/-- The same holder, its refbuffer changed. -/
def setRef : Held → Refbuffer → Held
  | plain _, r => plain r
  | shared o, r => shared { o with buffer := r }

@[simp] theorem ref_setRef (h : Held) (r : Refbuffer) : (h.setRef r).ref = r := by
  cases h <;> rfl

def step (h : Held) : RefOp → Option Held
  | .construct => some (plain .new)
  | .alloc sz => some (h.setRef (h.ref.alloc sz))
  | .toRef s => (Refbuffer.toRef s).map plain
  | .toRefInt s _ => (Refbuffer.toRefInt s).map plain
  | .outBuffer => some (shared OutBuffer.construct)
  | .write w =>
      match h with
      | shared o => (o.put w).map shared
      | plain _ => none
  | .clear =>
      match h with
      | shared o => some (shared o.clear)
      | plain _ => none
  | .asString =>
      match h with
      | shared o => some (shared o.asString)
      | plain _ => none
  | .deserialise d =>
      match Cursor.getPN (.ofObject d), Cursor.readRefbuffer .plain h.ref (.ofObject d) with
      | (.error _, _), _ => some h
      | (.ok _, _), (.error .outside, _, _) => none
      | (.ok _, _), (_, r, _) => some (plain r)
  | .encrypt inited => do
      match ← Ssl.pad inited h.ref with
      | .ok r => return h.setRef r
      | .error _ => return h

def machine : Machine Held RefOp where
  init h := h = plain .new
  enabled h op := (h.step op).isSome
  apply h op := (h.step op).getD h

instance (h : Held) (op : RefOp) : Decidable (machine.enabled h op) :=
  inferInstanceAs (Decidable ((h.step op).isSome = true))

/-- What a step must meet: `alloc` finds enough bytes or a capacity that suits
the new block, and no sum of a size wraps. -/
def Fits (h : Held) : RefOp → Prop
  | .alloc sz => (sz ≤ h.ref.size_ ∧ h.ref.buffer.isSome) ∨
      ((sz + 10).toNat ≤ h.ref.capacity.toNat ∧ h.ref.capacity.toNat ≤ (sz + 0x20).toNat)
  | .write w => ∀ o, h = shared o → o.Roomy w.room ∧ w.Lands o
  | .asString => ∀ o, h = shared o → o.curPos.toNat + 0x20 < 2 ^ 64
  | .deserialise d => ∀ size s, Cursor.getPN (.ofObject d) = (.ok size, s) →
      size.toNat + 0x20 < 2 ^ 64
  | _ => True

end Held

/-! ## What a write does to the sizes -/

namespace OutBuffer

/-- The position is below `bufsize`, the capacity not far above it. -/
structure Paced (o : OutBuffer) : Prop where
  curPos_le : o.curPos.toNat ≤ o.bufsize.toNat
  capacity_le : o.buffer.capacity.toNat ≤ o.bufsize.toNat + 0x20

/-- The sizes of the refbuffer stay, and a new block is above the capacity. -/
structure Spares (o o' : OutBuffer) : Prop where
  size_eq : o'.buffer.size_ = o.buffer.size_
  capacity_eq : o'.buffer.capacity = o.buffer.capacity
  bufsize_le : o.bufsize.toNat ≤ o'.bufsize.toNat
  allocated : o.Paced → o.buffer.capacity.toNat ≤ o.buffer.allocated →
    o.buffer.capacity.toNat ≤ o'.buffer.allocated

variable {o o₁ o₂ : OutBuffer}

theorem Spares.refl (o : OutBuffer) : o.Spares o := ⟨rfl, rfl, Nat.le_refl _, fun _ h => h⟩

/-- A realloc to `nnew` bytes above `bufsize` and its slack. -/
theorem spares_grow {nnew : UInt64} (hNew : o.bufsize.toNat + 0x20 ≤ nnew.toNat) :
    o.Spares { o with
      buffer := { o.buffer with buffer := some (o.block.realloc nnew.toNat) }
      bufsize := nnew } where
  size_eq := rfl
  capacity_eq := rfl
  bufsize_le := (Nat.le_add_right _ _).trans hNew
  allocated hPaced _ := by
    show o.buffer.capacity.toNat ≤ (o.block.realloc nnew.toNat).length
    rw [Block.length_realloc]
    exact hPaced.capacity_le.trans hNew

theorem spares_adjust {n : UInt64} (hRoom : o.Roomy n.toNat) :
    o.Spares (o.adjust n) ∧ o.curPos.toNat + n.toNat < (o.adjust n).bufsize.toNat := by
  obtain ⟨hSum, hNew⟩ := toNat_grown hRoom
  rw [adjust]
  split
  · rename_i hGrow
    rw [ge_iff_le, UInt64.le_iff_toNat_le, hSum] at hGrow
    refine ⟨spares_grow (by omega), ?_⟩
    show _ < (o.curPos + n + 0x10000).toNat
    omega
  · rename_i hGrow
    rw [ge_iff_le, UInt64.le_iff_toNat_le, hSum] at hGrow
    exact ⟨Spares.refl o, Nat.not_le.1 hGrow⟩

theorem spares_copy {s : Bytes} {step : UInt64} (h : o.copy s step = some o₁) :
    o.Spares o₁ ∧ o₁.curPos = o.curPos + step ∧ o₁.bufsize = o.bufsize := by
  obtain ⟨b, hWrite, rfl⟩ := copy_cases h
  refine ⟨⟨rfl, rfl, Nat.le_refl _, fun _ hCap => ?_⟩, rfl, rfl⟩
  rw [Block.write_eq_some] at hWrite
  show o.buffer.capacity.toNat ≤ b.length
  rw [hWrite.2, Block.length_overlay]
  exact hCap

theorem Spares.paced (h : o.Spares o₁) (hPaced : o.Paced)
    (hPos : o₁.curPos.toNat ≤ o₁.bufsize.toNat) : o₁.Paced := by
  have := hPaced.capacity_le
  have := h.bufsize_le
  refine ⟨hPos, ?_⟩
  rw [h.capacity_eq]
  omega

theorem Spares.trans (h₁ : o.Spares o₁) (h₂ : o₁.Spares o₂)
    (hPos : o₁.curPos.toNat ≤ o₁.bufsize.toNat) : o.Spares o₂ where
  size_eq := h₂.size_eq.trans h₁.size_eq
  capacity_eq := h₂.capacity_eq.trans h₁.capacity_eq
  bufsize_le := h₁.bufsize_le.trans h₂.bufsize_le
  allocated hPaced hCap := by
    have hMid := h₁.allocated hPaced hCap
    rw [← h₁.capacity_eq] at hMid ⊢
    exact h₂.allocated (h₁.paced hPaced hPos) hMid

theorem spares_putRaw8s (s : Bytes) :
    ∀ o : OutBuffer, s.foldlM putRaw8 o = some o₁ →
      o.curPos.toNat + s.length ≤ o.bufsize.toNat →
      o.Spares o₁ ∧ o₁.curPos.toNat = o.curPos.toNat + s.length ∧ o₁.bufsize = o.bufsize := by
  induction s with
  | nil =>
      intro o h _
      obtain rfl := Option.some.inj h
      exact ⟨Spares.refl o, rfl, rfl⟩
  | cons c s ih =>
      intro o h hFits
      rw [List.length_cons] at hFits
      rw [List.foldlM_cons, Option.bind_eq_bind, Option.bind_eq_some_iff] at h
      obtain ⟨o', hCopy, hRest⟩ := h
      obtain ⟨hSpares, hPos, hBuf⟩ := spares_copy hCopy
      have hStep : o'.curPos.toNat = o.curPos.toNat + 1 := by
        have := o.bufsize.toNat_lt
        rw [hPos, UInt64.toNat_add, show (1 : UInt64).toNat = 1 from rfl]
        omega
      obtain ⟨hSpares', hPos', hBuf'⟩ := ih o' hRest (by rw [hBuf]; omega)
      refine ⟨hSpares.trans hSpares' (by rw [hBuf]; omega), ?_, hBuf'.trans hBuf⟩
      rw [hPos', hStep, List.length_cons]
      omega

theorem spares_putPN (hRoom : o.Roomy 10) {n : UInt64}
    (h : o.putPN n = some o₁) :
    o.Spares o₁ ∧ o₁.curPos.toNat = o.curPos.toNat + (Corelib.putPN n).length ∧
      o.curPos.toNat + 10 < o₁.bufsize.toNat := by
  have hLen := length_putPN_le n
  obtain ⟨hAdjust, hFits⟩ := spares_adjust (n := 10) hRoom
  have hTen : (10 : UInt64).toNat = 10 := rfl
  have hSame := curPos_adjust o 10
  obtain ⟨hSpares, hPos, hBuf⟩ := spares_putRaw8s (Corelib.putPN n) (o.adjust 10) h
    (by rw [hSame]; omega)
  refine ⟨hAdjust.trans hSpares (by rw [hSame]; omega), by rw [hPos, hSame], ?_⟩
  rw [hBuf]
  exact hFits

theorem spares_adjust_copy {n : UInt64} (hRoom : o.Roomy n.toNat) {s : Bytes}
    (h : (o.adjust n).copy s n = some o₁) :
    o.Spares o₁ ∧ o₁.curPos.toNat = o.curPos.toNat + n.toNat ∧
      o₁.curPos.toNat ≤ o₁.bufsize.toNat := by
  obtain ⟨hAdjust, hFits⟩ := spares_adjust hRoom
  obtain ⟨hSpares, hPos, hBuf⟩ := spares_copy h
  have hSame := curPos_adjust o n
  have hSum : o₁.curPos.toNat = o.curPos.toNat + n.toNat := by
    simp only [Roomy] at hRoom
    rw [hPos, hSame, UInt64.toNat_add]
    omega
  exact ⟨hAdjust.trans hSpares (by rw [hSame]; omega), hSum, by rw [hBuf]; omega⟩

/-- **One write**, wherever it goes. -/
theorem spares_put (hPaced : o.Paced) {w : Write} (hRoom : o.Roomy w.room)
    (hLands : w.Lands o) (h : o.put w = some o₁) : o.Spares o₁ ∧ o₁.Paced := by
  have done : o.Spares o₁ → o₁.curPos.toNat ≤ o₁.bufsize.toNat → o.Spares o₁ ∧ o₁.Paced :=
    fun hSpares hPos => ⟨hSpares, hSpares.paced hPaced hPos⟩
  cases w with
  | pack s =>
      rw [Write.room, ← s.toNat_size] at hRoom
      obtain ⟨hSpares, -, hPos⟩ := spares_adjust_copy hRoom h
      exact done hSpares hPos
  | put8 c =>
      obtain ⟨hSpares, -, hPos⟩ := spares_adjust_copy (n := 1) hRoom h
      exact done hSpares hPos
  | putPN n =>
      have hLen := length_putPN_le n
      obtain ⟨hSpares, hPos, hFits⟩ := spares_putPN hRoom h
      exact done hSpares (by omega)
  | putRefbuffer s =>
      cases s with
      | none =>
          have hLen := length_putPN_le 0
          obtain ⟨hSpares, hPos, hFits⟩ := spares_putPN hRoom h
          exact done hSpares (by omega)
      | some d =>
          have hLen := length_putPN_le d.size
          simp only [Roomy, Write.room, Option.map_some, Option.elim_some] at hRoom
          simp only [put, Option.map_some, putRefbuffer, Option.bind_eq_bind,
            Option.bind_eq_some_iff] at h
          rw [← Object.size] at h
          obtain ⟨o', hPN, hPack⟩ := h
          obtain ⟨hSpares, hPos, hFits⟩ := spares_putPN (by simp only [Roomy]; omega) hPN
          have hSize := d.toNat_size
          obtain ⟨hSpares', -, hPos'⟩ := spares_adjust_copy (n := d.size)
            (by simp only [Roomy]; omega) hPack
          exact done (hSpares.trans hSpares' (by omega)) hPos'
  | putPSTR s =>
      have hLen := length_putPN_le s.size
      have hSize := s.toNat_size
      have hLt := s.property
      simp only [Roomy, Write.room] at hRoom
      simp only [Write.Lands] at hLands
      have hTen : (10 + s.size).toNat = 10 + s.val.length := by
        rw [UInt64.toNat_add, hSize, show (10 : UInt64).toNat = 10 from rfl]
        omega
      simp only [put, putPSTR, Option.bind_eq_bind, Option.bind_eq_some_iff] at h
      rw [← Object.size] at h
      obtain ⟨o', hPN, hPack⟩ := h
      obtain ⟨hAdjust, hFits⟩ := spares_adjust (o := o) (n := 10 + s.size)
        (by simp only [Roomy]; omega)
      have hSame := curPos_adjust o (10 + s.size)
      obtain ⟨hSpares, hPos, -⟩ := spares_putPN
        (by simp only [Roomy, hSame]; omega) hPN
      obtain ⟨hSpares', hPos', hBuf⟩ := spares_copy hPack
      rw [← Object.size] at hPos'
      have hRoom' := hSpares.bufsize_le
      refine done ((hAdjust.trans hSpares (by rw [hSame]; omega)).trans hSpares'
        (by rw [hPos, hSame]; omega)) ?_
      rw [hBuf, hPos', UInt64.toNat_add, hPos, hSame, toNat_asInt, hSize]
      split
      · omega
      · omega

end OutBuffer

/-! ## One operation -/

theorem sized_toRefInt {s : Object} (h : s.val.length < 2 ^ 31) {r : Refbuffer}
    (hRun : Refbuffer.toRefInt s = some r) : r.Sized := by
  have hSize := s.toNat_size
  rw [Refbuffer.toRefInt] at hRun
  split at hRun
  · simp only [Option.bind_eq_bind, Option.bind_eq_some_iff, Option.pure_def,
      Option.some.injEq] at hRun
    obtain ⟨b, hWrite, rfl⟩ := hRun
    rw [Block.write_eq_some] at hWrite
    have hSum : (s.size + 0x20).toNat = s.val.length + 0x20 := by
      rw [UInt64.toNat_add, hSize, show (0x20 : UInt64).toNat = 0x20 from rfl]
      omega
    refine ⟨?_, ?_⟩
    · show (asInt s.size).toNat ≤ (asInt (s.size + 0x20)).toNat
      rw [OutBuffer.toNat_asInt, OutBuffer.toNat_asInt, hSum, hSize]
      split
      · split
        · omega
        · omega
      · omega
    · show (asInt (s.size + 0x20)).toNat ≤ b.length
      rw [hWrite.2, Block.length_overlay, Block.length_malloc]
  · obtain rfl := Option.some.inj hRun
    exact Refbuffer.sized_new

/-- The refbuffer behind the reference once the size has been read. -/
theorem readRefbuffer_shape (pl : Platform) (old : Refbuffer) {s s' : Cursor} {size : UInt64}
    (h : Cursor.getPN s = (.ok size, s')) :
    (Cursor.readRefbuffer pl old s).2.1 = .new ∨
      ∃ b : Block UInt8, (Cursor.readRefbuffer pl old s).2.1 = ⟨some b, size, size + 0x20⟩ ∧
        b.length = (size + 0x20).toNat := by
  simp only [Cursor.readRefbuffer, h]
  split
  · split
    · refine Or.inr ?_
      split
      · exact ⟨_, rfl, Block.length_malloc _⟩
      · split
        · rename_i hWrite
          rw [Block.write_eq_some] at hWrite
          exact ⟨_, rfl, by rw [hWrite.2, Block.length_overlay, Block.length_malloc]⟩
        · exact ⟨_, rfl, Block.length_malloc _⟩
    · exact Or.inl rfl
  · exact Or.inl rfl

theorem sized_of_shape {r : Refbuffer} {size : UInt64} (hFits : size.toNat + 0x20 < 2 ^ 64)
    (h : r = .new ∨ ∃ b : Block UInt8, r = ⟨some b, size, size + 0x20⟩ ∧
      b.length = (size + 0x20).toNat) : r.Sized := by
  rcases h with rfl | ⟨b, rfl, hLen⟩
  · exact Refbuffer.sized_new
  · refine ⟨?_, ?_⟩
    · show size.toNat ≤ (size + 0x20).toNat
      rw [UInt64.toNat_add, show (0x20 : UInt64).toNat = 0x20 from rfl]
      omega
    · exact hLen.ge

namespace Held

/-- The refbuffer is in order, and its `outBuffer`, if it has one, at a
position below `bufsize`. -/
structure Ordered (h : Held) : Prop where
  sized : h.ref.Sized
  paced : ∀ o, h = shared o → o.Paced

variable {h h' : Held}

theorem ordered_plain {r : Refbuffer} (hr : r.Sized) : (plain r).Ordered := ⟨hr, by simp⟩

/-- A change of the refbuffer that leaves its capacity. -/
theorem Ordered.setRef (hOrd : h.Ordered) {r : Refbuffer} (hr : r.Sized)
    (hCap : r.capacity = h.ref.capacity) : (h.setRef r).Ordered := by
  cases h with
  | plain r₀ => exact ordered_plain hr
  | shared o =>
      have hPaced := hOrd.paced o rfl
      refine ⟨hr, ?_⟩
      rintro _ ⟨rfl⟩
      refine ⟨hPaced.curPos_le, ?_⟩
      show r.capacity.toNat ≤ o.bufsize.toNat + 0x20
      rw [hCap]
      exact hPaced.capacity_le

theorem ordered_construct : (shared OutBuffer.construct).Ordered := by
  refine ⟨⟨Nat.zero_le _, ?_⟩, ?_⟩
  · show 0x400 ≤ (List.replicate 0x400 none).length
    rw [List.length_replicate]
  · rintro _ ⟨rfl⟩
    exact ⟨by decide, by decide⟩

theorem ordered_write (hOrd : h.Ordered) {w : Write} (hFits : h.Fits (.write w))
    (hStep : h.step (.write w) = some h') : h'.Ordered := by
  cases h with
  | plain r => cases hStep
  | shared o =>
      obtain ⟨o', hPut, rfl⟩ := Option.map_eq_some_iff.1 hStep
      obtain ⟨hRoom, hLands⟩ := hFits o rfl
      have hPaced := hOrd.paced o rfl
      obtain ⟨hSpares, hPaced'⟩ := OutBuffer.spares_put hPaced hRoom hLands hPut
      refine ⟨⟨?_, ?_⟩, ?_⟩
      · show o'.buffer.size_.toNat ≤ o'.buffer.capacity.toNat
        rw [hSpares.size_eq, hSpares.capacity_eq]
        exact hOrd.sized.size_le
      · show o'.buffer.capacity.toNat ≤ o'.buffer.allocated
        rw [hSpares.capacity_eq]
        exact hSpares.allocated hPaced hOrd.sized.capacity_le
      · rintro _ ⟨rfl⟩
        exact hPaced'

theorem ordered_asString (hOrd : h.Ordered) (hFits : h.Fits .asString)
    (hStep : h.step .asString = some h') : h'.Ordered := by
  cases h with
  | plain r => cases hStep
  | shared o =>
      obtain rfl := Option.some.inj hStep
      have hSum : (o.curPos + 0x20).toNat = o.curPos.toNat + 0x20 := by
        rw [UInt64.toNat_add, show (0x20 : UInt64).toNat = 0x20 from rfl,
          Nat.mod_eq_of_lt (hFits o rfl)]
      have hPos := (hOrd.paced o rfl).curPos_le
      refine ⟨⟨?_, ?_⟩, ?_⟩
      · show o.curPos.toNat ≤ (o.curPos + 0x20).toNat
        omega
      · exact (Block.length_realloc _ _).ge
      · rintro _ ⟨rfl⟩
        refine ⟨hPos, ?_⟩
        show (o.curPos + 0x20).toNat ≤ o.bufsize.toNat + 0x20
        omega

theorem ordered_deserialise (hOrd : h.Ordered) {d : Object} (hFits : h.Fits (.deserialise d))
    (hStep : h.step (.deserialise d) = some h') : h'.Ordered := by
  rcases hPN : Cursor.getPN (.ofObject d) with ⟨r, s⟩
  cases r with
  | error e =>
      simp only [step, hPN] at hStep
      obtain rfl := Option.some.inj hStep
      exact hOrd
  | ok size =>
      have hShape := readRefbuffer_shape .plain h.ref hPN
      have hSized := sized_of_shape (hFits size s hPN) hShape
      rcases hRun : Cursor.readRefbuffer .plain h.ref (.ofObject d) with ⟨r, b, s'⟩
      rw [hRun] at hSized
      have hPlain : h' = plain b := by
        simp only [step, hPN, hRun] at hStep
        split at hStep
        · rename_i hEq
          cases hEq
        · cases hStep
        · rename_i hEq
          cases hEq
          exact (Option.some.inj hStep).symm
      rw [hPlain]
      exact ordered_plain hSized

theorem ordered_step (hOrd : h.Ordered) {op : RefOp} (hFits : h.Fits op)
    (hStep : h.step op = some h') : h'.Ordered := by
  cases op with
  | construct =>
      obtain rfl := Option.some.inj hStep
      exact ordered_plain Refbuffer.sized_new
  | alloc sz =>
      obtain rfl := Option.some.inj hStep
      refine hOrd.setRef ((Refbuffer.sized_alloc_iff hOrd.sized sz).2 hFits) ?_
      rw [Refbuffer.alloc]
      split <;> rfl
  | toRef s =>
      obtain ⟨r, hRun, hSized, -⟩ := Refbuffer.toRef_eq s
      rw [step, hRun] at hStep
      obtain rfl := Option.some.inj hStep
      exact ordered_plain hSized
  | toRefInt s hLen =>
      obtain ⟨r, hRun, rfl⟩ := Option.map_eq_some_iff.1 hStep
      exact ordered_plain (sized_toRefInt hLen hRun)
  | outBuffer =>
      obtain rfl := Option.some.inj hStep
      exact ordered_construct
  | write w => exact ordered_write hOrd hFits hStep
  | clear =>
      cases h with
      | plain r => cases hStep
      | shared o =>
          obtain rfl := Option.some.inj hStep
          refine ⟨hOrd.sized, ?_⟩
          rintro _ ⟨rfl⟩
          exact ⟨Nat.zero_le _, (hOrd.paced o rfl).capacity_le⟩
  | asString => exact ordered_asString hOrd hFits hStep
  | deserialise d => exact ordered_deserialise hOrd hFits hStep
  | encrypt inited =>
      obtain ⟨r, hPad, hSized⟩ := Ssl.sized_pad inited hOrd.sized
      simp only [step, hPad, Option.bind_eq_bind, Option.bind_some] at hStep
      cases r with
      | error e =>
          obtain rfl := Option.some.inj hStep
          exact hOrd
      | ok buf =>
          obtain rfl := Option.some.inj hStep
          exact hOrd.setRef (hSized buf rfl) (Ssl.capacity_pad hPad)

/--
**The sizes of a refbuffer.** After every run of operations whose steps all
meet `Fits`, `size_ <= capacity <=` the bytes allocated.
-/
theorem refbuffer_sized (hReach : (machine.guarded Fits).Reachable h) : h.ref.Sized := by
  refine (Machine.Reachable.invariant (I := Ordered) ?_ ?_ hReach).sized
  · rintro _ rfl
    exact ordered_plain Refbuffer.sized_new
  · intro h op hOrd hEn
    obtain ⟨h', hStep⟩ := Option.isSome_iff_exists.1 hEn.1
    show ((h.step op).getD h).Ordered
    rw [hStep]
    exact ordered_step hOrd hEn.2 hStep

/-- Two bytes behind their length, padded to a block. -/
def received : List RefOp :=
  [.outBuffer, .asString, .deserialise ⟨[2, 7, 8], by decide⟩, .encrypt true]

theorem received_sized : (machine.exec (plain .new) received).ref.Sized := by
  refine refbuffer_sized ⟨plain .new, received, rfl,
    ⟨⟨rfl, trivial⟩, ⟨rfl, ?_⟩, ⟨by decide +kernel, ?_⟩, ⟨by decide +kernel, trivial⟩, trivial⟩,
    Machine.exec_guarded _ _ _ _⟩
  · rintro _ ⟨rfl⟩
    decide
  · intro size s hPN
    have hTwo : Cursor.getPN (.ofObject ⟨[2, 7, 8], by decide⟩) =
        (.ok 2, { Cursor.ofObject ⟨[2, 7, 8], by decide⟩ with outPos := 1 }) := rfl
    rw [hTwo] at hPN
    cases hPN
    decide

/-- The longest length there is, and no bytes. -/
def endless : Object := ⟨Corelib.putPN 0xFFFFFFFFFFFFFFFF, by decide⟩

/-- A first `alloc` leaves `capacity` at zero, and a length from the wire that
wraps the allocation stays in `size_` after the exception. -/
theorem alloc_breaks :
    ¬ (machine.exec (plain .new) [.alloc 1]).ref.Sized ∧
    ¬ (machine.exec (plain .new) [.deserialise endless]).ref.Sized ∧
    ¬ ∀ h, machine.Reachable h → h.ref.Sized := by
  have hAlloc : ¬ (machine.exec (plain .new) [.alloc 1]).ref.Sized :=
    fun h => absurd h.size_le (by decide +kernel)
  have hWire : ¬ (machine.exec (plain .new) [.deserialise endless]).ref.Sized :=
    fun h => absurd h.size_le (by decide +kernel)
  exact ⟨hAlloc, hWire, fun hAll => hAlloc (hAll _ ⟨_, [.alloc 1], rfl, ⟨rfl, trivial⟩, rfl⟩)⟩

end Held

end Megatron.Corelib
