import Megatron.Corelib.Typed

/-!
# Reading hostile bytes

Every sequence of read operations on an array whose bytes somebody else has
chosen, an exception caught after each.  Lengths come off the wire as 64-bit
numbers; none of them is used before it has been compared with what is left.

## Main results

* `safe_extract` — `operator>>` at every type.
* `reads_safe` — the position stays inside the array, nothing outside it is
  read, every operation ends, a container read inserts no more elements than
  it takes bytes, and the two forms of a reader agree.
-/

namespace Megatron.Corelib

open Megatron.Lib

namespace Cursor

variable {pl : Platform}

theorem safe_getCount : Safe 1 getCount := safe_getPN.map UInt64.toUInt32

theorem safe_reserve (kind : Seq) (elem : Ty) (n : UInt32) :
    Safe 0 (reserve pl kind elem n) := by
  rw [reserve]
  split
  · exact safe_throw trivial
  · exact safe_pure ()

/-- An insertion uses up one byte taken before. -/
theorem safe_insertion {α : Type} (x : α) : Safe (-1) (insertion x) := fun s hs =>
  ⟨_, _, rfl, ⟨⟨hs.mSize_eq, hs.mSize_lt, hs.outPos_le⟩, rfl, Nat.le_refl _, Nat.le_refl _⟩, by
    simp only
    omega⟩

theorem safe_fill {α : Type} {add : List α → α → List α} {get : In α} (h : Safe 1 get) (n : Nat) :
    ∀ v : List α, Safe 0 (fill add get n v) := by
  induction n with
  | zero => exact fun v => safe_pure v
  | succ n ih =>
      intro v
      exact Safe.bind (m := 1) (n := -1) h fun t =>
        Safe.bind (m := -1) (n := 0) (safe_insertion (add v t)) ih

/-- What `operator>>` leaves of a refbuffer: a block that takes the bytes it
was allocated for, since a size that wraps the allocation is beyond every
array. -/
theorem readRefbuffer_cases (pl : Platform) (old : Refbuffer) {s : Cursor} (hs : s.Valid) :
    ∃ r b s', readRefbuffer pl old s = (r, b, s') ∧ Kept s s' ∧
      match r with
      | .ok _ => (s'.inserted : Int) + s.outPos.toNat + 1 ≤ s.inserted + s'.outPos.toNat ∧
          s.made < s'.made
      | .error e => e.Exception := by
  obtain ⟨r, s₁, hRun, hKept, hr⟩ := safe_getPN s hs
  cases r with
  | error e => exact ⟨.error e, old, s₁, by simp only [readRefbuffer, hRun], hKept, hr⟩
  | ok size =>
      have hValid := hKept.valid
      have hKept' : Kept s { s₁ with made := s₁.made + 1 } :=
        ⟨⟨hValid.mSize_eq, hValid.mSize_lt, hValid.outPos_le⟩, hKept.mData_eq, hKept.outPos_le,
          Nat.le_succ_of_le hKept.made_le⟩
      have hMade := hKept.made_le
      simp only [readRefbuffer, hRun]
      simp only at hr
      by_cases h0 : size ≠ 0
      · rw [if_pos h0]
        by_cases hMalloc : pl.malloc (size + 0x20) = true
        · rw [if_pos hMalloc]
          rcases take_cases hKept'.valid size with ⟨-, -, hTake⟩ | ⟨hLe, -, hTake, hSum, hTaken⟩
          · rw [hTake]
            exact ⟨_, _, _, rfl, hKept', trivial⟩
          · have hLen := UInt64.le_iff_toNat_le.1 hLe
            rw [hKept'.valid.length_rest] at hLen
            have hAll : (rest { s₁ with made := s₁.made + 1 }).length < 2 ^ 63 := by
              have := hKept'.valid.mSize_lt
              rw [rest, List.length_drop]
              omega
            have hRoom : (size + 0x20).toNat = size.toNat + 0x20 := by
              rw [UInt64.toNat_add, show (0x20 : UInt64).toNat = 0x20 from rfl]
              omega
            have hFits : 0 + ((rest { s₁ with made := s₁.made + 1 }).take size.toNat).length ≤
                (Block.malloc (size + 0x20).toNat : Block UInt8).length := by
              rw [Block.length_malloc, List.length_take, hRoom]
              omega
            rw [hTake]
            simp only [Block.write_of_fits hFits]
            refine ⟨_, _, _, rfl, hKept'.trans hTaken, ?_, ?_⟩
            · show (s₁.inserted : Int) + s.outPos.toNat + 1 ≤
                s.inserted + (s₁.outPos + size).toNat
              have hSum' : (s₁.outPos + size).toNat = s₁.outPos.toNat + size.toNat := hSum
              omega
            · exact Nat.lt_succ_of_le hMade
        · rw [if_neg hMalloc]
          exact ⟨_, _, _, rfl, hKept', trivial⟩
      · rw [if_neg h0]
        exact ⟨_, _, _, rfl, hKept', hr, Nat.lt_succ_of_le hMade⟩

theorem safe_getRef : Safe 1 (getRef pl) := by
  intro s hs
  obtain ⟨r, b, s', hRun, hKept, hr⟩ := readRefbuffer_cases pl .new hs
  cases r with
  | error e => exact ⟨.error e, s', by simp only [getRef, hRun], hKept, hr⟩
  | ok u =>
      exact ⟨.ok ⟨pl.address (s'.made - 1), b.bytes.filterMap id⟩, s', by simp only [getRef, hRun],
        hKept, hr.1⟩

/-- **Every type.** A value takes at least one byte more than it inserts
elements. -/
theorem safe_extract (pl : Platform) (t : Ty) : Safe 1 (extract pl t) := by
  induction t with
  | int signed width => exact safe_getPN.map _
  | bool => exact safe_getPN.map _
  | real => exact safe_getPSTR
  | string => exact safe_getPSTR
  | refbuffer => exact safe_getRef
  | seq kind elem ih =>
      exact Safe.bind (m := 1) (n := 0) safe_getCount fun n =>
        Safe.bind (m := 0) (n := 0) (safe_reserve kind elem n) fun _ => safe_fill ih n.toNat []
  | set elem ih =>
      exact Safe.bind (m := 1) (n := 0) safe_getCount fun n => safe_fill ih n.toNat []
  | map key value ihKey ihValue =>
      refine Safe.bind (m := 1) (n := 0) safe_getCount fun n => safe_fill ?_ n.toNat []
      refine Safe.mono (m := 1 + (1 + 0)) ?_ (by decide)
      exact ihKey.bind fun a => ihValue.bind fun b => safe_pure (a, b)
  | pair first second ihFirst ihSecond =>
      refine Safe.mono (m := 1 + (1 + 0)) ?_ (by decide)
      exact ihFirst.bind fun a => ihSecond.bind fun b => safe_pure (a, b)

end Cursor

/-- The read operations of an `inBuffer`. -/
inductive ReadOp
  | get8
  | get8Nothrow
  | getPN
  | getPNNothrow
  | getPSTR
  | getPSTRNothrow
  | unpack (size : Int64)
  | unpackInto (sz : UInt64)
  | unpackNothrow (size : UInt64)
  | unpackRest
  | extract (t : Ty)

namespace Cursor

/-- An operation, whatever it returns. -/
def read (pl : Platform) : ReadOp → In Unit
  | .get8 => do let _ ← get8; return ()
  | .get8Nothrow => do let _ ← get8Nothrow; return ()
  | .getPN => do let _ ← getPN; return ()
  | .getPNNothrow => do let _ ← getPNNothrow; return ()
  | .getPSTR => do let _ ← getPSTR; return ()
  | .getPSTRNothrow => do let _ ← getPSTRNothrow; return ()
  | .unpack size => do let _ ← unpack size; return ()
  | .unpackInto sz => do let _ ← unpackInto sz; return ()
  | .unpackNothrow size => do let _ ← unpackNothrow size; return ()
  | .unpackRest => do let _ ← unpackRest; return ()
  | .extract t => do let _ ← extract pl t; return ()

/-- Every order of operations on every array; what is thrown is caught. -/
def machine (pl : Platform) : Machine Cursor ReadOp where
  init s := ∃ d, s = ofObject d
  enabled _ _ := True
  apply s op := (read pl op s).2

variable {pl : Platform} {s : Cursor}

/-- The operation keeps the position inside the array and ends, if only by an
exception. -/
def Tame {α : Type} (p : In α) : Prop :=
  ∀ s : Cursor, s.Valid → ∃ r s', p s = (r, s') ∧ Kept s s' ∧ ∀ e, r = .error e → e.Exception

theorem Safe.tame {α : Type} {m : Int} {p : In α} (h : Safe m p) : Tame p := by
  intro s hs
  obtain ⟨r, s', hRun, hKept, hr⟩ := h s hs
  refine ⟨r, s', hRun, hKept, ?_⟩
  rintro e rfl
  exact hr

theorem Tame.discard {α : Type} {p : In α} (h : Tame p) : Tame (do let _ ← p; return ()) := by
  intro s hs
  obtain ⟨r, s', hRun, hKept, hr⟩ := h s hs
  cases r with
  | ok x => exact ⟨.ok (), s', bind_ok hRun, hKept, by simp⟩
  | error e => exact ⟨.error e, s', bind_error hRun, hKept, by simpa using hr e rfl⟩

/-- The form that reports its failure is as tame as the one that throws it. -/
theorem Tame.nothrow {α : Type} {p : In α} {q : In (Option α)} (hp : Tame p)
    (hEq : ∀ s : Cursor, s.Valid → q s = (nothrow (p s).1, (p s).2)) : Tame q := by
  intro s hs
  obtain ⟨r, s', hRun, hKept, hr⟩ := hp s hs
  refine ⟨Cursor.nothrow r, s', by rw [hEq s hs, hRun], hKept, ?_⟩
  cases r with
  | ok x => simp [Cursor.nothrow]
  | error e =>
      have he := hr e rfl
      cases e with
      | thrown e => simp [Cursor.nothrow]
      | badAlloc => simpa [Cursor.nothrow] using he
      | outside => exact absurd he id
      | running => exact absurd he id

/-- **One operation.** -/
theorem tame_read (pl : Platform) (op : ReadOp) : Tame (read pl op) := by
  cases op with
  | get8 => exact safe_get8.tame.discard
  | get8Nothrow => exact safe_get8Nothrow.tame.discard
  | getPN => exact safe_getPN.tame.discard
  | getPNNothrow => exact (safe_getPN.tame.nothrow fun _ => getPNNothrow_eq).discard
  | getPSTR => exact safe_getPSTR.tame.discard
  | getPSTRNothrow => exact (safe_getPSTR.tame.nothrow fun _ => getPSTRNothrow_eq).discard
  | unpack size => exact (safe_unpack size).tame.discard
  | unpackInto sz => exact (safe_unpackInto sz).tame.discard
  | unpackNothrow size => exact (safe_unpackNothrow size).tame.discard
  | unpackRest => exact safe_unpackRest.tame.discard
  | extract t => exact (safe_extract _ t).tame.discard

theorem valid_reachable (h : (machine pl).Reachable s) : s.Valid := by
  refine Machine.Reachable.invariant ?_ ?_ h
  · rintro _ ⟨d, rfl⟩
    exact valid_ofObject d
  · intro s op hs _
    obtain ⟨r, s', hRun, hKept, -⟩ := tame_read pl op s hs
    show (read pl op s).2.Valid
    rw [hRun]
    exact hKept.valid

/--
**Hostile bytes.** After any sequence of reads of any array, exceptions
caught: the position is inside it, whatever is read next ends by returning or
by an exception and leaves the position inside (no index outside, no endless
loop), a value that is read has taken at least as many bytes as it inserted
elements, and the throwing and the reporting form of a reader fail together
and otherwise read the same up to the same position.
-/
theorem reads_safe (h : (machine pl).Reachable s) :
    s.outPos.toNat ≤ s.mSize.toNat ∧
    (∀ op, ∃ r s', read pl op s = (r, s') ∧ s'.outPos.toNat ≤ s'.mSize.toNat ∧
      ∀ e, r = .error e → e.Exception) ∧
    (∀ t v s', extract pl t s = (.ok v, s') →
      s'.inserted - s.inserted ≤ s'.outPos.toNat - s.outPos.toNat) ∧
    getPNNothrow s = (nothrow (getPN s).1, (getPN s).2) ∧
    getPSTRNothrow s = (nothrow (getPSTR s).1, (getPSTR s).2) := by
  have hs := valid_reachable h
  refine ⟨hs.outPos_le, ?_, ?_, getPNNothrow_eq hs, getPSTRNothrow_eq hs⟩
  · intro op
    obtain ⟨r, s', hRun, hKept, hr⟩ := tame_read pl op s hs
    exact ⟨r, s', hRun, hKept.valid.outPos_le, hr⟩
  · intro t v s' hRun
    obtain ⟨r, s₁, hRun₁, hKept, hr⟩ := safe_extract pl t s hs
    rw [hRun] at hRun₁
    cases hRun₁
    simp only at hr
    omega

/-- Two marked bytes: a number that never ends. -/
def truncated : Cursor :=
  (machine .plain).exec (ofObject ⟨[0x81, 0x82], by decide⟩) [.getPN]

/-- The number is thrown at the end of the array, where a string can be
asked for. -/
theorem truncated_safe :
    truncated.outPos = 2 ∧ (∃ r s', read .plain .getPSTR truncated = (r, s') ∧
      s'.outPos.toNat ≤ s'.mSize.toNat ∧ ∀ e, r = .error e → e.Exception) := by
  have hReach : (machine .plain).Reachable truncated :=
    ⟨_, [.getPN], ⟨⟨[0x81, 0x82], by decide⟩, rfl⟩, ⟨trivial, trivial⟩, rfl⟩
  exact ⟨by decide +kernel, (reads_safe hReach).2.1 .getPSTR⟩

end Cursor

end Megatron.Corelib
