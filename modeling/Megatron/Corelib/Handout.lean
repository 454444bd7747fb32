import Megatron.Corelib.OutBuffer

/-!
# What an `outBuffer` has handed out

The public operations of an `outBuffer` in any order, and beside it the bytes
of every `refbuffer` that `asString` returned, as they were when it returned.
All of these are one object, the buffer's own: `asString` cuts its block down
to `0x20` bytes behind the written ones, does not tell `bufsize`, and the
next write goes where it went before.

## Main results

* `outBuffer_sound` — a run whose steps all meet `Fits` keeps the sizes in
  order, writes inside the block and leaves alone what it handed out.
* `asString_breaks` — three runs of at most four steps, each of which breaks
  one of these.
-/

namespace Megatron.Corelib

open Megatron.Lib

/-- The operations that append; `operator<<` is one of these for every value
that is not a container, and a sequence of them for a container. -/
inductive Write
  | pack (s : Object)
  | put8 (c : UInt8)
  | putPN (n : UInt64)
  | putPSTR (s : Object)
  | putRefbuffer (s : Option Object)

/-- The public operations. -/
inductive OutOp
  | write (w : Write)
  | clear
  | asString

namespace Write

/-- The bytes it appends. -/
def bytes : Write → Bytes
  | pack s => s.val
  | put8 c => [c]
  | putPN n => Corelib.putPN n
  | putPSTR s => Corelib.putPSTR s.val
  | putRefbuffer s => Corelib.putRefbuffer (s.map Subtype.val)

/-- The room it asks for, over all its calls of `adjust`. -/
def room : Write → Nat
  | pack s => s.val.length
  | put8 _ => 1
  | putPN _ => 10
  | putPSTR s => 10 + s.val.length
  | putRefbuffer s => 10 + (s.map Subtype.val).elim 0 List.length

/-- The position the length of a string, taken as an `int`, does not move
below zero. -/
def Lands (o : OutBuffer) : Write → Prop
  | putPSTR s => s.val.length % 2 ^ 32 < 2 ^ 31 ∨
      2 ^ 32 ≤ o.curPos.toNat + (Corelib.putPN s.size).length + s.val.length % 2 ^ 32
  | _ => True

instance (o : OutBuffer) : (w : Write) → Decidable (w.Lands o)
  | putPSTR _ => inferInstanceAs (Decidable (_ ∨ _))
  | pack _ | put8 _ | putPN _ | putRefbuffer _ => .isTrue trivial

end Write

namespace OutBuffer

def put (o : OutBuffer) : Write → Option OutBuffer
  | .pack s => o.pack s.val
  | .put8 c => o.put8 c
  | .putPN n => o.putPN n
  | .putPSTR s => o.putPSTR s.val
  | .putRefbuffer s => o.putRefbuffer (s.map Subtype.val)

/-- **One write.** It stores its bytes, and where it lands it ends inside the
room. -/
theorem stored_put {o : OutBuffer} (h : o.Proper) (w : Write) (hRoom : o.Roomy w.room) :
    ∃ o', o.put w = some o' ∧ o.Stored w.bytes o' ∧
      (w.Lands o → o'.curPos.toNat ≤ o'.bufsize.toNat) := by
  have ends : ∀ {s : Bytes} {o' : OutBuffer}, o.Stored s o' →
      o'.curPos.toNat = o.curPos.toNat + s.length → o'.curPos.toNat ≤ o'.bufsize.toNat :=
    fun hStored hPos => hPos.le.trans hStored.fits
  cases w with
  | pack s =>
      obtain ⟨o', hPut, hStored, hPos⟩ := stored_pack h s.val hRoom
      exact ⟨o', hPut, hStored, fun _ => ends hStored hPos⟩
  | put8 c =>
      obtain ⟨o', hPut, hStored, hPos⟩ := stored_put8 h hRoom c
      exact ⟨o', hPut, hStored, fun _ => ends hStored hPos⟩
  | putPN n =>
      obtain ⟨o', hPut, hStored, hPos⟩ := stored_putPN h hRoom n
      exact ⟨o', hPut, hStored, fun _ => ends hStored hPos⟩
  | putRefbuffer s =>
      obtain ⟨o', hPut, hStored, hPos⟩ := stored_putRefbuffer h (s.map Subtype.val) hRoom
      exact ⟨o', hPut, hStored, fun _ => ends hStored hPos⟩
  | putPSTR s =>
      obtain ⟨o', hPut, hStored, hPos⟩ := stored_putPSTR h s.val hRoom
      refine ⟨o', hPut, hStored, fun hLands => ?_⟩
      have hFits := hStored.fits
      have hLen := length_putPN_le s.size
      have hLt := s.property
      simp only [Roomy, Write.room] at hRoom
      simp only [Write.Lands] at hLands
      simp only [Corelib.putPSTR, List.length_append] at hFits
      rw [← Object.size] at hFits hPos
      rw [hPos, UInt64.toNat_add, UInt64.toNat_add,
        UInt64.toNat_ofNat_of_lt' (Nat.lt_of_le_of_lt hLen (by decide)), toNat_asInt, s.toNat_size]
      split
      · omega
      · omega

end OutBuffer

/-- An `outBuffer` and the bytes of the refbuffers it has returned. -/
structure Handout where
  out : OutBuffer
  returned : List (Block UInt8)

namespace Handout

def fresh : Handout := ⟨OutBuffer.construct, []⟩

def step (h : Handout) : OutOp → Option Handout
  | .write w => do
      let out ← h.out.put w
      return { h with out := out }
  | .clear => some { h with out := h.out.clear }
  | .asString =>
      let out := h.out.asString
      some ⟨out, h.returned ++ [out.buffer.bytes]⟩

/-- Every order of operations; `none` is a program that has written outside
the block. -/
def machine : Machine (Option Handout) OutOp where
  init s := s = some fresh
  enabled _ _ := True
  apply s op := s.bind fun h => h.step op

/-- The sizes are in order, and every refbuffer that was returned still holds
the bytes it was returned with. -/
structure Sound (h : Handout) : Prop where
  curPos_le : h.out.curPos.toNat ≤ h.out.bufsize.toNat
  bufsize_le : h.out.bufsize.toNat ≤ h.out.buffer.allocated
  kept : ∀ snap ∈ h.returned, snap <+: h.out.buffer.bytes

/-- What a step must meet: `adjust` cannot overflow, the position stays
above zero and no byte that was handed out changes; a buffer is handed out
with no more than `0x20` bytes to spare, and not shorter than before. -/
def Fits (h : Handout) : OutOp → Prop
  | .write w => h.out.Roomy w.room ∧ w.Lands h.out ∧
      ∀ snap ∈ h.returned, Block.overlay snap h.out.curPos.toNat w.bytes = snap
  | .clear => True
  | .asString => h.out.bufsize.toNat ≤ h.out.curPos.toNat + 0x20 ∧
      h.out.curPos.toNat + 0x20 < 2 ^ 64 ∧
      ∀ snap ∈ h.returned, snap.length ≤ h.out.curPos.toNat

instance (h : Handout) : (op : OutOp) → Decidable (h.Fits op)
  | .write _ => inferInstanceAs (Decidable (_ ∧ _))
  | .clear => .isTrue trivial
  | .asString => inferInstanceAs (Decidable (_ ∧ _))

/-- `Fits`, as a condition on the steps of the machine. -/
def fits (s : Option Handout) (op : OutOp) : Prop := ∀ h ∈ s, h.Fits op

instance (s : Option Handout) (op : OutOp) : Decidable (fits s op) :=
  inferInstanceAs (Decidable (∀ h ∈ s, h.Fits op))

/-- `Sound`, and what was handed out lies below `bufsize`. -/
structure Kept (h : Handout) : Prop extends Sound h where
  isSome : h.out.buffer.buffer.isSome
  below : ∀ snap ∈ h.returned, snap.length ≤ h.out.bufsize.toNat

variable {h : Handout}

theorem kept_fresh : fresh.Kept where
  curPos_le := by decide
  bufsize_le := by
    show 0x400 ≤ (List.replicate 0x400 none).length
    rw [List.length_replicate]
  kept := by simp [fresh]
  isSome := rfl
  below := by simp [fresh]

theorem Kept.proper (hk : h.Kept) : h.out.Proper :=
  ⟨hk.isSome, hk.curPos_le, hk.bufsize_le⟩

theorem kept_write (hk : h.Kept) {w : Write} (hf : h.Fits (.write w)) :
    ∃ h', h.step (.write w) = some h' ∧ h'.Kept := by
  obtain ⟨hRoom, hLands, hSame⟩ := hf
  obtain ⟨o', hPut, hStored, hEnds⟩ := OutBuffer.stored_put hk.proper w hRoom
  refine ⟨⟨o', h.returned⟩, by simp only [step, hPut]; rfl,
    ⟨hEnds hLands, hStored.allocated, ?_⟩, hStored.isSome, ?_⟩
  · intro snap hSnap
    have hBelow := hk.below snap hSnap
    have hPre := hk.kept snap hSnap
    -- the bytes below the old `bufsize` are the old ones, overlaid
    have hOld : o'.block.take snap.length = snap := by
      rw [hStored.old snap.length hBelow]
      have hTake : h.out.block.take snap.length = snap := by
        have hLen := hPre.length_le
        rw [Refbuffer.bytes, List.length_take] at hLen
        rw [Refbuffer.bytes] at hPre
        have := List.prefix_iff_eq_take.1 hPre
        rw [List.take_take, Nat.min_eq_left (by omega)] at this
        exact this.symm
      rw [hTake, hSame snap hSnap]
    have hSize : snap.length ≤ o'.buffer.size_.toNat := by
      have hLen := hPre.length_le
      rw [Refbuffer.bytes, List.length_take] at hLen
      rw [hStored.size_eq]
      omega
    rw [Refbuffer.bytes, List.prefix_iff_eq_take, List.take_take, Nat.min_eq_left hSize]
    exact hOld.symm
  · exact fun snap hSnap => (hk.below snap hSnap).trans hStored.bufsize_le

theorem kept_asString (hk : h.Kept) (hf : h.Fits .asString) :
    ∃ h', h.step .asString = some h' ∧ h'.Kept := by
  obtain ⟨hSpare, hSum, hLonger⟩ := hf
  have hPos := hk.curPos_le
  have hBuf : h.out.bufsize.toNat ≤ h.out.block.length := hk.bufsize_le
  have hNew : (h.out.curPos + 0x20).toNat = h.out.curPos.toNat + 0x20 := by
    rw [UInt64.toNat_add, show (0x20 : UInt64).toNat = 0x20 from rfl, Nat.mod_eq_of_lt hSum]
  have hBytes : h.out.asString.buffer.bytes = h.out.block.take h.out.curPos.toNat := by
    show (h.out.block.realloc (h.out.curPos + 0x20).toNat).take h.out.curPos.toNat = _
    exact Block.take_realloc (by omega) (by omega)
  refine ⟨_, rfl, ⟨hPos, ?_, ?_⟩, rfl, ?_⟩
  · show h.out.bufsize.toNat ≤ (h.out.block.realloc (h.out.curPos + 0x20).toNat).length
    rw [Block.length_realloc, hNew]
    exact hSpare
  · intro snap hSnap
    rw [hBytes]
    rcases List.mem_append.1 hSnap with hSnap | hSnap
    · have hPre : snap <+: h.out.block := (hk.kept snap hSnap).trans (List.take_prefix _ _)
      refine List.prefix_of_prefix_length_le hPre (List.take_prefix _ _) ?_
      have := hLonger snap hSnap
      rw [List.length_take]
      omega
    · obtain rfl := (List.mem_singleton.1 hSnap).trans hBytes
      exact List.prefix_refl _
  · intro snap hSnap
    rcases List.mem_append.1 hSnap with hSnap | hSnap
    · exact hk.below snap hSnap
    · rw [List.mem_singleton.1 hSnap, hBytes, List.length_take]
      exact (Nat.min_le_left _ _).trans hPos

theorem kept_step (hk : h.Kept) {op : OutOp} (hf : h.Fits op) :
    ∃ h', h.step op = some h' ∧ h'.Kept := by
  cases op with
  | write w => exact kept_write hk hf
  | clear => exact ⟨_, rfl, ⟨Nat.zero_le _, hk.bufsize_le, hk.kept⟩, hk.isSome, hk.below⟩
  | asString => exact kept_asString hk hf

/--
**The sizes and what was handed out.** In every run whose steps all meet
`Fits`, no write leaves the block, `cur_pos <= bufsize <=` the bytes
allocated, and a refbuffer that was returned keeps its bytes.
-/
theorem outBuffer_sound {s : Option Handout} (hReach : (machine.guarded fits).Reachable s) :
    ∃ h, s = some h ∧ h.Sound := by
  have hKept : ∃ h, s = some h ∧ h.Kept := by
    refine Machine.Reachable.invariant (I := fun s => ∃ h, s = some h ∧ h.Kept) ?_ ?_ hReach
    · rintro _ rfl
      exact ⟨fresh, rfl, kept_fresh⟩
    · rintro _ op ⟨h, rfl, hk⟩ hEn
      obtain ⟨h', hStep, hk'⟩ := kept_step hk (hEn.2 h rfl)
      exact ⟨h', hStep, hk'⟩
  obtain ⟨h, rfl, hk⟩ := hKept
  exact ⟨h, rfl, hk.toSound⟩

/-- `n` zero bytes. -/
def zeros (n : Nat) (h : n < 2 ^ 63) : Object :=
  ⟨List.replicate n 0, by rwa [List.length_replicate]⟩

/-- The writes leave exactly `0x20` bytes of the first block. -/
def nearlyFull : List OutOp := [.write (.pack (zeros 0x3E0 (by decide))), .asString]

theorem nearlyFull_sound :
    ∃ h, machine.exec (some fresh) nearlyFull = some h ∧ h.Sound :=
  outBuffer_sound ⟨some fresh, nearlyFull, rfl,
    ⟨⟨trivial, by decide +kernel⟩, ⟨trivial, by decide +kernel⟩, trivial⟩,
    Machine.exec_guarded _ _ _ _⟩

/-- One byte, handed out, and another one in its place. -/
def overwritten : List OutOp := [.write (.put8 1), .asString, .clear, .write (.put8 2)]

/-- Handing out an empty buffer leaves `bufsize` above the block, a write of
0x40 bytes then runs out of it, and a write after `clear` changes what was
handed out. -/
theorem asString_breaks :
    (∃ h ∈ machine.exec (some fresh) [.asString],
      h.out.buffer.allocated < h.out.bufsize.toNat) ∧
    machine.exec (some fresh) [.asString, .write (.pack (zeros 0x40 (by decide)))] = none ∧
    (∃ h ∈ machine.exec (some fresh) overwritten,
      ∃ snap ∈ h.returned, ¬ snap <+: h.out.buffer.bytes) ∧
    ¬ ∀ s, machine.Reachable s → ∃ h, s = some h ∧ h.Sound := by
  have hAsString : ∃ h ∈ machine.exec (some fresh) [.asString],
      h.out.buffer.allocated < h.out.bufsize.toNat := by decide +kernel
  refine ⟨hAsString, by decide +kernel, by decide +kernel, fun hAll => ?_⟩
  obtain ⟨h, hExec, hLt⟩ := hAsString
  obtain ⟨h', hEq, hSound⟩ := hAll (some h) ⟨some fresh, [.asString], rfl, ⟨trivial, trivial⟩, hExec⟩
  obtain rfl := Option.some.inj hEq
  exact absurd hSound.bufsize_le (Nat.not_le.2 hLt)

end Handout

end Megatron.Corelib
