import Megatron.Corelib.Typed

/-!
# `operator<<`

The writers of every type, down to the block they write into.  Their bytes are
`Ty.put`; where they leave the position is another matter, since `Pack$` moves
it on by the length of a string as an `int`.

## Main results

* `writes_write` — while every string is shorter than `2^31`, the bytes of a
  value are stored and the position is behind them.
* `moves_write` — in any case the position is behind them less `2^32` for each
  time a length did not fit an `int` (`skip`).
-/

namespace Megatron.Corelib

open Megatron.Lib

namespace Ty

/-- `v.size()` of a container. -/
def writeCount (n : Nat) (o : OutBuffer) : Option OutBuffer :=
  o.putPN (UInt32.ofNat n).toUInt64

/-- `operator<<`. -/
def write : (t : Ty) → t.Val → OutBuffer → Option OutBuffer
  | int signed _, v, o => o.putPN (toWord signed v)
  | bool, v, o => o.putPN (Bool.toUInt64 v)
  | real, v, o => o.putPSTR v
  | string, v, o => o.putPSTR v
  | refbuffer, v, o => o.putRefbuffer (some v.text)
  | seq _ elem, l, o => do
      let o ← writeCount (List.length l) o
      List.foldlM (fun o x => elem.write x o) o l
  | set elem, l, o => do
      let o ← writeCount (List.length l) o
      List.foldlM (fun o x => elem.write x o) o l
  | map key value, l, o => do
      let o ← writeCount (List.length l) o
      List.foldlM (fun o e => do
        let o ← key.write e.1 o
        value.write e.2 o) o l
  | pair first second, v, o => do
      let o ← first.write v.1 o
      second.write v.2 o

/-- What is written with `put_PSTR`. -/
def strings : (t : Ty) → t.Val → List Bytes
  | int _ _, _ | bool, _ | refbuffer, _ => []
  | real, v => [v]
  | string, v => [v]
  | seq _ elem, l => List.flatMap elem.strings l
  | set elem, l => List.flatMap elem.strings l
  | map key value, l => List.flatMap (fun e => key.strings e.1 ++ value.strings e.2) l
  | pair first second, v => first.strings v.1 ++ second.strings v.2

end Ty

/-! ## Where the bytes go -/

/-- `w` stores the bytes `s` and ends behind them. -/
def Writes (w : OutBuffer → Option OutBuffer) (s : Bytes) : Prop :=
  ∀ o : OutBuffer, o.Proper → o.curPos.toNat + s.length + 0x20000 < 2 ^ 64 →
    ∃ o', w o = some o' ∧ o.Stored s o' ∧ o'.curPos.toNat = o.curPos.toNat + s.length

/-- `w` moves the position on by `n`, less `k`. -/
def Moves (w : OutBuffer → Option OutBuffer) (n k : Nat) : Prop :=
  ∀ o o' : OutBuffer, w o = some o' →
    o'.curPos + UInt64.ofNat k = o.curPos + UInt64.ofNat n

section Sequence

variable {α : Type} {w w' : OutBuffer → Option OutBuffer} {s s' : Bytes} {n n' k k' : Nat}

theorem Writes.bind (h : Writes w s) (h' : Writes w' s') :
    Writes (fun o => (w o).bind w') (s ++ s') := by
  intro o hProper hRoom
  rw [List.length_append] at hRoom
  obtain ⟨o₁, hRun, hStored, hPos⟩ := h o hProper (by omega)
  obtain ⟨o₂, hRun₂, hStored₂, hPos₂⟩ := h' o₁ (hStored.proper hPos) (by omega)
  refine ⟨o₂, by simp only [hRun, Option.bind_some, hRun₂], hStored.trans hStored₂ hPos, ?_⟩
  rw [hPos₂, hPos, List.length_append, Nat.add_assoc]

theorem Moves.bind (h : Moves w n k) (h' : Moves w' n' k') :
    Moves (fun o => (w o).bind w') (n + n') (k + k') := by
  intro o o' hRun
  obtain ⟨o₁, hFirst, hSecond⟩ := Option.bind_eq_some_iff.1 hRun
  have hPos := h o o₁ hFirst
  have hPos₂ := h' o₁ o' hSecond
  calc o'.curPos + UInt64.ofNat (k + k')
      = o'.curPos + UInt64.ofNat k' + UInt64.ofNat k := by
        rw [UInt64.ofNat_add, UInt64.add_comm (UInt64.ofNat k), UInt64.add_assoc]
    _ = o₁.curPos + UInt64.ofNat k + UInt64.ofNat n' := by
        rw [hPos₂, UInt64.add_assoc, UInt64.add_comm (UInt64.ofNat n'), UInt64.add_assoc]
    _ = o.curPos + UInt64.ofNat (n + n') := by
        rw [hPos, UInt64.ofNat_add, UInt64.add_assoc]

theorem writes_foldlM {f : α → OutBuffer → Option OutBuffer} {g : α → Bytes} {l : List α}
    (h : ∀ x ∈ l, Writes (f x) (g x)) :
    Writes (fun o => l.foldlM (fun o x => f x o) o) (l.flatMap g) := by
  induction l with
  | nil => exact fun o hProper _ => ⟨o, rfl, OutBuffer.Stored.nil hProper, rfl⟩
  | cons x l ih =>
      exact (h x List.mem_cons_self).bind (ih fun y hy => h y (List.mem_cons_of_mem x hy))

theorem moves_foldlM {f : α → OutBuffer → Option OutBuffer} {a b : α → Nat} {l : List α}
    (h : ∀ x ∈ l, Moves (f x) (a x) (b x)) :
    Moves (fun o => l.foldlM (fun o x => f x o) o) (l.map a).sum (l.map b).sum := by
  induction l with
  | nil =>
      intro o o' hRun
      obtain rfl := Option.some.inj hRun
      rfl
  | cons x l ih =>
      exact (h x List.mem_cons_self).bind (ih fun y hy => h y (List.mem_cons_of_mem x hy))

end Sequence

/-! ### Short strings -/

theorem writes_putPN (n : UInt64) : Writes (fun o => o.putPN n) (putPN n) :=
  fun o hProper hRoom => OutBuffer.stored_putPN hProper
    (by simp only [OutBuffer.Roomy]; omega) n

/-- An `int` holds the length of a short string. -/
theorem writes_putPSTR {s : Bytes} (hLen : s.length < 2 ^ 31) :
    Writes (fun o => o.putPSTR s) (putPSTR s) := by
  intro o hProper hRoom
  rw [putPSTR, List.length_append] at hRoom
  obtain ⟨o', hPut, hStored, hPos⟩ := OutBuffer.stored_putPSTR hProper s
    (by simp only [OutBuffer.Roomy]; omega)
  have hSize : (UInt64.ofNat s.length).toNat = s.length :=
    UInt64.toNat_ofNat_of_lt' (hLen.trans (by decide))
  have hPN := OutBuffer.length_putPN_le (UInt64.ofNat s.length)
  refine ⟨o', hPut, hStored, ?_⟩
  rw [hPos, UInt64.toNat_add, UInt64.toNat_add, OutBuffer.toNat_asInt, hSize,
    UInt64.toNat_ofNat_of_lt' (Nat.lt_of_le_of_lt hPN (by decide)), if_pos (by omega), putPSTR,
    List.length_append]
  omega

theorem writes_putRefbuffer (s : Bytes) :
    Writes (fun o => o.putRefbuffer (some s)) (putRefbuffer (some s)) := by
  intro o hProper hRoom
  rw [putRefbuffer, List.length_append] at hRoom
  exact OutBuffer.stored_putRefbuffer hProper (some s)
    (by simp only [OutBuffer.Roomy, Option.elim_some]; omega)

/-- **Short strings.** -/
theorem writes_write : ∀ {t : Ty} {v : t.Val}, (∀ s ∈ t.strings v, s.length < 2 ^ 31) →
    Writes (t.write v) (t.put v) := by
  intro t
  induction t with
  | int signed width => exact fun {v} _ => writes_putPN (Ty.toWord signed v)
  | bool => exact fun {v} _ => writes_putPN (Bool.toUInt64 v)
  | real => exact fun {v} h => writes_putPSTR (h v List.mem_cons_self)
  | string => exact fun {v} h => writes_putPSTR (h v List.mem_cons_self)
  | refbuffer => exact fun {v} _ => writes_putRefbuffer v.text
  | seq kind elem ih =>
      exact fun {v} h => (writes_putPN _).bind (writes_foldlM fun x hx =>
        ih fun s hs => h s (List.mem_flatMap_of_mem hx hs))
  | set elem ih =>
      exact fun {v} h => (writes_putPN _).bind (writes_foldlM fun x hx =>
        ih fun s hs => h s (List.mem_flatMap_of_mem hx hs))
  | map key value ihKey ihValue =>
      refine fun {v} h => (writes_putPN _).bind (writes_foldlM fun e he => ?_)
      refine (ihKey fun s hs => h s ?_).bind (ihValue fun s hs => h s ?_)
      · exact List.mem_flatMap_of_mem he (List.mem_append_left _ hs)
      · exact List.mem_flatMap_of_mem he (List.mem_append_right _ hs)
  | pair first second ihFirst ihSecond =>
      intro v h
      refine (ihFirst fun s hs => h s ?_).bind (ihSecond fun s hs => h s ?_)
      · exact List.mem_append_left _ hs
      · exact List.mem_append_right _ hs

/-! ### Strings of any length -/

/-- By how much a length exceeds what an `int` makes of it. -/
def skip (n : Nat) : Nat := 2 ^ 32 * ((n + 2 ^ 31) / 2 ^ 32)

/-- All that is missing from the position after these strings. -/
def skips (ss : List Bytes) : Nat := (ss.map fun s => skip s.length).sum

theorem skips_singleton (s : Bytes) : skips [s] = skip s.length := by
  rw [skips, List.map_singleton, List.sum_singleton]

theorem skips_append (ss ss' : List Bytes) : skips (ss ++ ss') = skips ss + skips ss' := by
  rw [skips, List.map_append, List.sum_append]
  rfl

theorem skips_flatMap {α : Type} (f : α → List Bytes) (l : List α) :
    skips (l.flatMap f) = (l.map fun x => skips (f x)).sum := by
  induction l with
  | nil => rfl
  | cons x l ih => rw [List.flatMap_cons, skips_append, ih, List.map_cons, List.sum_cons]

theorem skip_eq_zero (n : Nat) : skip n = 0 ↔ n < 2 ^ 31 := by
  rw [skip]
  omega

/-- Nothing is missing exactly after short strings. -/
theorem skips_eq_zero {ss : List Bytes} : skips ss = 0 ↔ ∀ s ∈ ss, s.length < 2 ^ 31 := by
  induction ss with
  | nil => exact iff_of_true rfl fun _ h => absurd h List.not_mem_nil
  | cons s ss ih =>
      rw [← List.singleton_append, skips_append, skips_singleton, Nat.add_eq_zero_iff, skip_eq_zero,
        ih, List.singleton_append, List.forall_mem_cons]

theorem asInt_add_skip (n : Nat) :
    asInt (UInt64.ofNat n) + UInt64.ofNat (skip n) = UInt64.ofNat n := by
  apply UInt64.toNat_inj.1
  rw [UInt64.toNat_add, OutBuffer.toNat_asInt, UInt64.toNat_ofNat', UInt64.toNat_ofNat', skip]
  split
  · omega
  · omega

theorem moves_putPN (n : UInt64) : Moves (fun o => o.putPN n) (putPN n).length 0 := by
  have hStep : ∀ c ∈ putPN n, Moves (fun o => o.putRaw8 c) 1 0 := by
    intro c _ o o' h
    rw [OutBuffer.curPos_copy h]
    exact UInt64.add_zero _
  intro o o' h
  have hMoves := moves_foldlM hStep (o.adjust 10) o' h
  rw [OutBuffer.curPos_adjust] at hMoves
  simpa using hMoves

theorem moves_pack (s : Bytes) : Moves (fun o => o.pack s) s.length 0 := by
  intro o o' h
  rw [OutBuffer.curPos_copy h, OutBuffer.curPos_adjust]
  exact UInt64.add_zero _

theorem moves_packRaw (s : Bytes) : Moves (fun o => o.packRaw s) s.length (skip s.length) := by
  intro o o' h
  rw [OutBuffer.curPos_copy h, UInt64.add_assoc, asInt_add_skip]

theorem moves_putPSTR (s : Bytes) :
    Moves (fun o => o.putPSTR s) (putPSTR s).length (skips [s]) := by
  intro o o' h
  have hMoves := ((moves_putPN (UInt64.ofNat s.length)).bind (moves_packRaw s))
    (o.adjust (10 + UInt64.ofNat s.length)) o' h
  rw [OutBuffer.curPos_adjust, Nat.zero_add] at hMoves
  rw [putPSTR, List.length_append, skips_singleton]
  exact hMoves

theorem moves_putRefbuffer (s : Bytes) :
    Moves (fun o => o.putRefbuffer (some s)) (putRefbuffer (some s)).length 0 := by
  intro o o' h
  have hMoves := ((moves_putPN (UInt64.ofNat s.length)).bind (moves_pack s)) o o' h
  rw [putRefbuffer, List.length_append]
  exact hMoves

/-- The elements of a container. -/
theorem moves_elements {α : Type} {l : List α} (f : α → OutBuffer → Option OutBuffer)
    (enc : α → Bytes) (ss : α → List Bytes)
    (h : ∀ x ∈ l, Moves (f x) (enc x).length (skips (ss x))) (n : UInt64) :
    Moves (fun o => (o.putPN n).bind fun o => l.foldlM (fun o x => f x o) o)
      (putPN n ++ l.flatMap enc).length (skips (l.flatMap ss)) := by
  have hMoves := (moves_putPN n).bind (moves_foldlM h)
  rw [List.length_append, List.length_flatMap, skips_flatMap]
  rw [Nat.zero_add] at hMoves
  exact hMoves

/-- **Strings of any length.** -/
theorem moves_write :
    ∀ {t : Ty} (v : t.Val), Moves (t.write v) (t.put v).length (skips (t.strings v)) := by
  intro t
  induction t with
  | int signed width => exact fun v => moves_putPN (Ty.toWord signed v)
  | bool => exact fun v => moves_putPN (Bool.toUInt64 v)
  | real => exact fun v => moves_putPSTR v
  | string => exact fun v => moves_putPSTR v
  | refbuffer => exact fun v => moves_putRefbuffer v.text
  | seq kind elem ih => exact fun v => moves_elements elem.write elem.put elem.strings (fun x _ => ih x) _
  | set elem ih => exact fun v => moves_elements elem.write elem.put elem.strings (fun x _ => ih x) _
  | map key value ihKey ihValue =>
      refine fun v => moves_elements _ (fun e : key.Val × value.Val => key.put e.1 ++ value.put e.2)
        (fun e : key.Val × value.Val => key.strings e.1 ++ value.strings e.2) (fun e _ => ?_) _
      rw [List.length_append, skips_append]
      exact (ihKey e.1).bind (ihValue e.2)
  | pair first second ihFirst ihSecond =>
      intro v
      have hMoves := (ihFirst v.1).bind (ihSecond v.2)
      rw [← List.length_append, ← skips_append] at hMoves
      exact hMoves

theorem skips_singleton_le (s : Bytes) : skips [s] ≤ 2 * (putPSTR s).length := by
  rw [skips_singleton, putPSTR, List.length_append, skip]
  omega

theorem skips_flatMap_le {α : Type} {l : List α} (enc : α → Bytes) (ss : α → List Bytes)
    (h : ∀ x ∈ l, skips (ss x) ≤ 2 * (enc x).length) :
    skips (l.flatMap ss) ≤ 2 * (l.flatMap enc).length := by
  induction l with
  | nil => exact Nat.zero_le _
  | cons x l ih =>
      have hHead := h x List.mem_cons_self
      have hTail := ih fun y hy => h y (List.mem_cons_of_mem x hy)
      rw [List.flatMap_cons, List.flatMap_cons, skips_append, List.length_append]
      omega

theorem skips_elements_le {α : Type} {l : List α} (enc : α → Bytes) (ss : α → List Bytes)
    (h : ∀ x ∈ l, skips (ss x) ≤ 2 * (enc x).length) (head : Bytes) :
    skips (l.flatMap ss) ≤ 2 * (head ++ l.flatMap enc).length := by
  have hAll := skips_flatMap_le enc ss h
  rw [List.length_append]
  omega

theorem skips_pair_le {ss ss' : List Bytes} {enc enc' : Bytes} (h : skips ss ≤ 2 * enc.length)
    (h' : skips ss' ≤ 2 * enc'.length) : skips (ss ++ ss') ≤ 2 * (enc ++ enc').length := by
  rw [skips_append, List.length_append]
  omega

/-- What is missing is at most twice what was written. -/
theorem skips_strings_le : ∀ {t : Ty} (v : t.Val), skips (t.strings v) ≤ 2 * (t.put v).length := by
  intro t
  induction t with
  | int signed width => exact fun _ => Nat.zero_le _
  | bool => exact fun _ => Nat.zero_le _
  | real => exact fun v => skips_singleton_le v
  | string => exact fun v => skips_singleton_le v
  | refbuffer => exact fun _ => Nat.zero_le _
  | seq kind elem ih => exact fun v => skips_elements_le elem.put elem.strings (fun x _ => ih x) _
  | set elem ih => exact fun v => skips_elements_le elem.put elem.strings (fun x _ => ih x) _
  | map key value ihKey ihValue =>
      exact fun v => skips_elements_le (fun e : key.Val × value.Val => key.put e.1 ++ value.put e.2)
        (fun e : key.Val × value.Val => key.strings e.1 ++ value.strings e.2)
        (fun e _ => skips_pair_le (ihKey e.1) (ihValue e.2)) _
  | pair first second ihFirst ihSecond =>
      exact fun v => skips_pair_le (ihFirst v.1) (ihSecond v.2)

end Megatron.Corelib
