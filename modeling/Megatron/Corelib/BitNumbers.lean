import Mathlib.Tactic.IntervalCases
import Megatron.Corelib.BitReading
import Megatron.Corelib.BitWriting
import Megatron.Corelib.RoundTrip

/-!
# Packed numbers in bit streams

`outBitStream` has three copies of the loop that packs a number: `put_PN$` and
the `operator<<` of the two 64 bit types.  They begin with the bits from 56 on,
where `outBuffer` begins with bit 63, so the highest bit of a number is lost.

## Main results

* `appends_putPN`, `appends_putInt64` — the bytes that are written.
* `putPNFrom_eq_iff` — which numbers `outBuffer` packs in the same way.
* `interchange_iff` — the numbers that the two kinds of streams exchange.
-/

namespace Megatron.Corelib

open Megatron.Lib
open Megatron.Lib.Stateful (bind_ok bind_error)

namespace OutBitStream

/-! ## What is written -/

/-- A stream at the beginning of a byte that gets the memory it asks for. -/
structure Ready (o : OutBitStream) : Prop extends o.Proper where
  granted : o.Granted

theorem ready_construct (stale : ℕ → UInt8) : (construct [] stale).Ready :=
  ⟨proper_construct [] stale, List.not_mem_nil⟩

/-- The bytes are put at the position, and the position behind them. -/
def Appends (w : BitOut Unit) (b : Bytes) : Prop :=
  ∀ o : OutBitStream, o.Ready → ∃ o', w o = (.ok (), o') ∧ o'.Allocated ∧ o'.AtBoundary ∧
    o'.mPos.pos.toNat = o.mPos.pos.toNat + b.length ∧ o'.written = o.written ++ b.map some

/-- The loops write no more bytes than there are groups. -/
theorem length_putPNFrom_le (n : UInt64) (k : ℕ) : (putPNFrom n k).length ≤ k + 1 := by
  induction k with
  | zero => exact (length_putPNTail n 0).le
  | succ k ih =>
      rw [putPNFrom]
      split
      · exact (length_putPNTail n (k + 1)).le
      · exact ih.trans (Nat.le_succ _)

/-- `adjust(10)`, and at most as many bytes. -/
theorem appends_of_length {b : Bytes} (hLength : b.length ≤ 10) :
    Appends (do adjust 10; putRaw8s b) b := by
  intro o h
  have hRoomy : o.Roomy 10 := h.roomy (by decide)
  have hRoom := lt_bufsize_adjusted (n := 10) hRoomy rfl
  have hTake := take_adjusted (n := 10) h.allocated hRoomy rfl h.pos_le
  have hAlloc := h.allocated.adjusted 10
  have hPos : (o.adjusted 10).mPos = o.mPos := mPos_adjusted o 10
  have hFits : (o.adjusted 10).mPos.pos.toNat + b.length ≤ (o.adjusted 10).bufsize.toNat := by
    rw [hPos]
    omega
  have hStart : (o.adjusted 10).AtBoundary := by
    rw [AtBoundary, hPos]
    exact h.boundary
  have hEnd := toNat_behind hFits
  refine ⟨(o.adjusted 10).behind b, ?_, hAlloc.behind b, hStart, ?_, ?_⟩
  · rw [bind_ok (adjust_eq h.granted 10), putRaw8s_eq b _ hAlloc hStart hFits]
  · rw [hEnd, hPos]
  · rw [written, written, hEnd, take_behind hAlloc hFits, hPos, hTake]

theorem appends_putPN (n : UInt64) : Appends (putPN n) (putPNFrom n 8) :=
  appends_of_length ((length_putPNFrom_le n 8).trans (by decide))

theorem appends_putUInt64 (n : UInt64) : Appends (putUInt64 n) (putPNFrom n 8) :=
  appends_of_length ((length_putPNFrom_le n 8).trans (by decide))

/-- The arithmetic shift brings its copies of the sign in above the seven bits. -/
theorem groupInt_eq (n : Int64) {k : ℕ} (hk : k ≤ 8) : groupInt n k = group n.toUInt64 k := by
  apply UInt8.toBitVec_inj.1
  have hShift : ((Int64.ofNat (7 * k)).toBitVec.smod 64).toNat = 7 * k := by
    interval_cases k <;> rfl
  have hShift' : ((UInt64.ofNat (7 * k)).toBitVec % 64).toNat = 7 * k := by
    interval_cases k <;> rfl
  show ((n >>> Int64.ofNat (7 * k) &&& 0x7F).toBitVec.setWidth 8) =
    ((n.toUInt64 >>> UInt64.ofNat (7 * k) &&& 0x7F).toBitVec.setWidth 8)
  rw [Int64.toBitVec_and, UInt64.toBitVec_and, Int64.toBitVec_shiftRight, UInt64.toBitVec_shiftRight]
  refine BitVec.eq_of_getLsbD_eq fun i hi => ?_
  rw [BitVec.getLsbD_setWidth, BitVec.getLsbD_setWidth, BitVec.getLsbD_and, BitVec.getLsbD_and,
    BitVec.getLsbD_sshiftRight', hShift]
  by_cases hTop : i = 7
  · subst hTop
    simp
  · have hIn : 7 * k + i < 64 := by omega
    have hNot : ¬ 64 ≤ i := by omega
    rw [if_pos hIn, BitVec.ushiftRight_eq', hShift', BitVec.getLsbD_ushiftRight, decide_eq_false hNot]
    rfl

theorem putIntTail_eq (n : Int64) {k : ℕ} (hk : k ≤ 8) :
    putIntTail n k = putPNTail n.toUInt64 k := by
  induction k with
  | zero => rw [putIntTail, putPNTail, groupInt_eq n hk]
  | succ k ih => rw [putIntTail, putPNTail, groupInt_eq n hk, ih (by omega)]

/-- The loop for an `int64_t` writes what the others do. -/
theorem putIntFrom_eq (n : Int64) {k : ℕ} (hk : k ≤ 8) :
    putIntFrom n k = putPNFrom n.toUInt64 k := by
  induction k with
  | zero => rw [putIntFrom, putPNFrom, putIntTail_eq n hk]
  | succ k ih =>
      rw [putIntFrom, putPNFrom, groupInt_eq n hk, putIntTail_eq n hk, ih (by omega)]

theorem appends_putInt64 (n : Int64) : Appends (putInt64 n) (putPNFrom n.toUInt64 8) := by
  have hAppends := appends_of_length (b := putIntFrom n 8)
    (by rw [putIntFrom_eq n le_rfl]; exact (length_putPNFrom_le _ 8).trans (by decide))
  rw [← putIntFrom_eq n le_rfl]
  exact hAppends

/-- There is one answer to what is written. -/
theorem Appends.length_unique {w : BitOut Unit} {b b' : Bytes} (h : Appends w b)
    (h' : Appends w b') : b.length = b'.length := by
  obtain ⟨o₁, hRun₁, -, -, hPos₁, -⟩ := h _ (ready_construct fun _ => 0)
  obtain ⟨o₂, hRun₂, -, -, hPos₂, -⟩ := h' _ (ready_construct fun _ => 0)
  obtain rfl : o₁ = o₂ := (Prod.mk.inj (hRun₁.symm.trans hRun₂)).2
  omega

end OutBitStream

/-- **The two first groups**: where the highest bit is set the loop from bit 56
on comes to another end. -/
theorem putPNFrom_eq_iff (n : UInt64) : (putPNFrom n 8).length = (putPN n).length ↔ n.toNat < 2 ^ 63 := by
  have hTop := toNat_group n (k := 9) le_rfl
  have hLt := n.toNat_lt
  by_cases hZero : group n 9 = 0
  · rw [hZero, show (0 : UInt8).toNat = 0 from rfl] at hTop
    refine iff_of_true ?_ (by omega)
    rw [putPN, putPNFrom.eq_def n 9]
    simp only [ne_eq, hZero, not_true_eq_false, if_false]
  · have hNe : (group n 9).toNat ≠ 0 := fun h => hZero (UInt8.toNat_inj.1 h)
    rw [hTop] at hNe
    refine iff_of_false ?_ (by omega)
    have hShort := OutBitStream.length_putPNFrom_le n 8
    rw [putPN, putPNFrom.eq_def n 9]
    simp only [ne_eq, hZero, not_false_eq_true, if_true, length_putPNTail]
    omega

theorem putPNFrom_eq {n : UInt64} (h : n.toNat < 2 ^ 63) : putPNFrom n 8 = putPN n := by
  have hTop := toNat_group n (k := 9) le_rfl
  have hZero : group n 9 = 0 := by
    apply UInt8.toNat_inj.1
    rw [hTop, show (0 : UInt8).toNat = 0 from rfl]
    omega
  rw [putPN, putPNFrom.eq_def n 9]
  simp only [ne_eq, hZero, not_true_eq_false, if_false]

namespace InBitStream

/-! ## What is read -/

/-- The stream as an `inBuffer`, which has no bits. -/
def cursor (s : InBitStream) : Cursor := ⟨s.mData, s.mSize, s.mPos.pos, 0, 0⟩

variable {s : InBitStream}

/-- A byte that an `inBuffer` reads. -/
theorem get8_of_cursor (h : s.AtBoundary) {c : UInt8} {c' : Cursor}
    (hRun : Cursor.get8 s.cursor = (.ok c, c')) :
    ∃ s', get8 s = (.ok c, s') ∧ s'.cursor = c' ∧ s'.AtBoundary := by
  rw [Cursor.get8] at hRun
  split at hRun
  · cases hRun
  · rename_i hThere
    split at hRun
    · rename_i d hByte
      cases hRun
      refine ⟨{ s with mPos := { s.mPos with pos := s.mPos.pos + 1 } }, ?_, rfl, h⟩
      have hLoad : load s = (.ok c, s) := by
        rw [load]
        have hGet : s.mData[s.mPos.pos.toNat]? = some c := hByte
        rw [hGet]
      have hNext : loadNext s = (.ok c, { s with mPos := { s.mPos with pos := s.mPos.pos + 1 } }) := by
        rw [loadNext, bind_ok hLoad]
      have hLacks : lacks (UInt64.ofNat 1) s = (.ok false, s) := by
        show (Except.ok (decide (s.mPos.pos + 1 > s.mSize)), s) = _
        rw [show decide (s.mPos.pos + 1 > s.mSize) = false from decide_eq_false hThere]
      have hBytes : loadBytes 1 s =
          (.ok [c], { s with mPos := { s.mPos with pos := s.mPos.pos + 1 } }) := by
        rw [loadBytes, bind_ok hNext]
        rfl
      have hWide : getWide 1 "inBitStream::get_8: noenough" s =
          (.ok [c], { s with mPos := { s.mPos with pos := s.mPos.pos + 1 } }) := by
        rw [getWide, bind_ok (boundary_eq h), bind_ok hLacks]
        exact hBytes
      rw [get8, bind_ok hWide]
      rfl
    · cases hRun

/-- A number that an `inBuffer` reads. -/
theorem getPNLoop_of_cursor (fuel : ℕ) :
    ∀ (nn : UInt64) (s : InBitStream), s.AtBoundary → ∀ {n : UInt64} {c' : Cursor},
      Cursor.getPNLoop fuel nn s.cursor = (.ok n, c') →
      ∃ s', getPNLoop fuel nn s = (.ok n, s') ∧ s'.cursor = c' ∧ s'.AtBoundary := by
  induction fuel with
  | zero =>
      intro nn s _ n c' hRun
      cases hRun
  | succ fuel ih =>
      intro nn s h n c' hRun
      rw [Cursor.getPNLoop] at hRun
      cases hGet : Cursor.get8 s.cursor with
      | mk r s₁ =>
      cases r with
      | error e =>
          rw [Cursor.bind_error hGet] at hRun
          cases hRun
      | ok c =>
          obtain ⟨s', hRun', hCursor, h'⟩ := get8_of_cursor h hGet
          rw [Cursor.bind_ok hGet] at hRun
          rw [getPNLoop, bind_ok hRun']
          by_cases hLast : c < 0x80
          · rw [if_pos hLast] at hRun
            rw [if_pos hLast]
            cases hRun
            exact ⟨s', rfl, hCursor, h'⟩
          · rw [if_neg hLast, ← hCursor] at hRun
            rw [if_neg hLast]
            exact ih _ s' h' hRun

/-- From the bytes, wherever they lie, `get_PN` gives the number, and leaves
what follows them. -/
def Reads (b : Bytes) (n : UInt64) : Prop :=
  ∀ (s : InBitStream) (tail : Bytes), s.cursor.Valid → s.AtBoundary → s.cursor.rest = b ++ tail →
    ∃ s', getPN s = (.ok n, s') ∧ s'.AtBoundary ∧ s'.cursor.rest = tail

theorem reads_putPN (n : UInt64) : Reads (Corelib.putPN n) n := by
  intro s tail hs h hRest
  obtain ⟨_, c', hRun, -, hRest', rfl⟩ := Cursor.gives_getPN n s.cursor tail hs hRest
  obtain ⟨s', hRun', rfl, h'⟩ := getPNLoop_of_cursor _ 0 s h hRun
  exact ⟨s', hRun', h', hRest'⟩

end InBitStream

/-! ## Both streams -/

/-- Two answers to what an `outBuffer` writes are as long. -/
theorem Writes.length_unique {w : OutBuffer → Option OutBuffer} {b b' : Bytes} (h : Writes w b)
    (h' : Writes w b') (hShort : b.length ≤ 10) (hShort' : b'.length ≤ 10) :
    b.length = b'.length := by
  have hStart : OutBuffer.construct.curPos.toNat = 0 := rfl
  obtain ⟨o₁, hRun₁, -, hPos₁⟩ := h _ proper_construct (by omega)
  obtain ⟨o₂, hRun₂, -, hPos₂⟩ := h' _ proper_construct (by omega)
  obtain rfl : o₁ = o₂ := Option.some.inj (hRun₁.symm.trans hRun₂)
  omega

/-- `w` writes the number in the bytes in which an `outBuffer` does, and each of
the two readers reads it there. -/
def Interchange (w : BitOut Unit) (n : UInt64) : Prop :=
  ∃ b : Bytes, OutBitStream.Appends w b ∧ Writes (fun o => o.putPN n) b ∧ InBitStream.Reads b n ∧
    Cursor.Gives Cursor.getPN b fun _ _ m => m = n

/-- The loops that begin with bit 56. -/
theorem interchange_of_appends {w : BitOut Unit} {n : UInt64}
    (h : OutBitStream.Appends w (putPNFrom n 8)) : Interchange w n ↔ n.toNat < 2 ^ 63 := by
  constructor
  · rintro ⟨b, hAppends, hWrites, -⟩
    have hLength := hAppends.length_unique h
    have hShort := OutBitStream.length_putPNFrom_le n 8
    have hSame := hWrites.length_unique (writes_putPN n) (by omega) (OutBuffer.length_putPN_le n)
    exact (putPNFrom_eq_iff n).1 (hLength.symm.trans hSame)
  · intro hn
    rw [putPNFrom_eq hn] at h
    exact ⟨putPN n, h, writes_putPN n, InBitStream.reads_putPN n, Cursor.gives_getPN n⟩

/-- A number that is not negative has bit 63 clear. -/
theorem toNat_toUInt64_lt_iff (n : Int64) : n.toUInt64.toNat < 2 ^ 63 ↔ 0 ≤ n.toInt := by
  have hLt := n.toUInt64.toNat_lt
  have hInt : n.toInt = (n.toUInt64.toNat : ℤ).bmod (2 ^ 64) :=
    BitVec.toInt_eq_toNat_bmod n.toBitVec
  rw [hInt, Int.bmod_def]
  split <;> omega

/-- **Packed numbers of the two kinds of streams**: the bit streams write what
the byte streams write, and read it, for the numbers below `2 ^ 63`. -/
theorem interchange_iff (n : UInt64) (i : Int64) :
    (Interchange (OutBitStream.putPN n) n ↔ n.toNat < 2 ^ 63) ∧
      (Interchange (OutBitStream.putUInt64 n) n ↔ n.toNat < 2 ^ 63) ∧
      (Interchange (OutBitStream.putInt64 i) i.toUInt64 ↔ 0 ≤ i.toInt) :=
  ⟨interchange_of_appends (OutBitStream.appends_putPN n),
    interchange_of_appends (OutBitStream.appends_putUInt64 n),
    (interchange_of_appends (OutBitStream.appends_putInt64 i)).trans (toNat_toUInt64_lt_iff i)⟩

/-- The number that has only the highest bit. -/
theorem no_interchange_of_top :
    ¬ ∀ n : UInt64, Interchange (OutBitStream.putPN n) n := by
  intro h
  have hAll : ∀ n : UInt64, n.toNat < 2 ^ 63 :=
    fun n => (interchange_of_appends (OutBitStream.appends_putPN n)).1 (h n)
  exact absurd (hAll 9223372036854775808) (by decide)

end Megatron.Corelib
