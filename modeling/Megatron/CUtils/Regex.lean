import Mathlib.Data.List.TakeDrop
import Megatron.Corelib.Address
import Megatron.Corelib.OutBuffer
import Megatron.Lib.Leftmost
import Megatron.Lib.Loop

/-!
# Searching and replacing

`rxfind` calls `regexec` on the rest of the buffer again and again, and keeps the
whole match and its groups, up to the first that is not set, one behind the other
in one list.  It goes on where the last of them ends.  `str_replace` puts the new
text in the place of everything in that list.

`regexec` is a parameter: it finds the first match of a text, and says which
groups it sets.  A rest that begins in the middle of the buffer has a start of its
own, where `^` matches.

## Main results

* `ends_findStep` — the rounds of the search.
* `Found.inside` — every search begins inside the buffer.
* `exists_found` — what a search finds that meets `Clean` on its way.
* `clean_of_found` — a search that finds the matches has met it.
* `replaces_iff` — when `str_replace` replaces the matches.
-/

namespace Megatron.CUtils

open Megatron.Corelib (Bytes Object cStr length_cStr_le)
open Megatron.Lib
open Megatron.Lib.Pattern

/-! ## `regexec` -/

/-- What `regexec` stores: the whole match, and the groups `pm[1]` to `pm[9]`. -/
structure Pmatch where
  whole : Nat × Nat
  groups : List (Option (Nat × Nat))
  deriving DecidableEq, Repr

/-- `regexec` for a compiled expression. -/
structure Regexec (P : Pattern UInt8) where
  exec : Bytes → Option Pmatch
  none_match : ∀ {s}, exec s = none → ∀ so eo, ¬ P.Match s so eo
  first : ∀ {s pm}, exec s = some pm → P.First s 0 pm.whole.1 pm.whole.2
  groups_length : ∀ {s pm}, exec s = some pm → pm.groups.length = 9
  group_inside : ∀ {s pm m}, exec s = some pm → some m ∈ pm.groups →
    pm.whole.1 ≤ m.1 ∧ m.1 ≤ m.2 ∧ m.2 ≤ pm.whole.2

namespace Pmatch

/-- The loop over `pm`, up to the first that is not set. -/
def set (pm : Pmatch) : List (Nat × Nat) :=
  pm.whole :: (pm.groups.takeWhile Option.isSome).filterMap id

/-- `lpos` after the loop. -/
def lpos (pm : Pmatch) : Nat := (pm.set.getLast (List.cons_ne_nil _ _)).2

/-- The first group is not set, or there is none. -/
def Ungrouped (pm : Pmatch) : Prop := ∀ m, pm.groups.head? ≠ some (some m)

theorem ungrouped_iff {pm : Pmatch} : pm.Ungrouped ↔ pm.set = [pm.whole] := by
  rw [Ungrouped, set]
  cases hGroups : pm.groups with
  | nil => simp
  | cons g groups => cases g <;> simp

theorem lpos_of_ungrouped {pm : Pmatch} (h : pm.Ungrouped) : pm.lpos = pm.whole.2 := by
  have hSet := ungrouped_iff.1 h
  simp only [lpos, hSet, List.getLast_singleton]

end Pmatch

/-! ## `rxfind` -/

/-- `rxfind_data`; an `int` is what it is as a `size_t`. -/
structure Entry where
  so : UInt64
  eo : UInt64
  deriving DecidableEq, Repr

/-- The entry for a part of the buffer. -/
def Entry.of (m : Nat × Nat) : Entry :=
  ⟨Corelib.asInt (UInt64.ofNat m.1), Corelib.asInt (UInt64.ofNat m.2)⟩

/-- The offsets in the entry are those of a part of the buffer. -/
structure Entry.At (e : Entry) (m : Nat × Nat) : Prop where
  so_eq : e.so.toNat = m.1
  eo_eq : e.eo.toNat = m.2

/-- The loop of `rxfind`; what one round pushes is kept together. -/
structure Find where
  lastpos : Nat
  res : List (List Entry)

/-- The entries of a round. -/
def entries (lastpos : Nat) (pm : Pmatch) : List Entry :=
  pm.set.map fun m => Entry.of (m.1 + lastpos, m.2 + lastpos)

variable {P : Pattern UInt8}

/-- One round of `rxfind`. -/
def findStep (R : Regexec P) (buffer : Bytes) (x : Find) : List (List Entry) ⊕ Find :=
  match R.exec (buffer.drop x.lastpos) with
  | none => .inl x.res
  | some pm => .inr ⟨x.lastpos + pm.lpos, x.res ++ [entries x.lastpos pm]⟩

/-- The entries for `pm[0]`. -/
def wholes (res : List (List Entry)) : List Entry := res.filterMap List.head?

/-! ## `str_replace` -/

/-- `std::string::substr`; `none` is `std::out_of_range`. -/
def substr (s : Bytes) (pos n : UInt64) : Option Bytes :=
  if pos.toNat ≤ s.length then some ((s.drop pos.toNat).take n.toNat) else none

/-- The loop of `str_replace`, and what comes behind it. -/
def replaceFrom (sr : Bytes) (src : Object) (lpz : UInt64) (a : Bytes) :
    List Entry → Option Bytes
  | [] =>
      let eo := Corelib.asInt (src.size - lpz)
      (substr src.val lpz eo).map fun t => a ++ t
  | e :: r =>
      let eo := Corelib.asInt (e.so - lpz)
      (substr src.val lpz eo).bind fun t => replaceFrom sr src e.eo (a ++ t ++ sr) r

/-- `CUtils::str_replace`, with what `rxfind` has found. -/
def strReplace (sr : Bytes) (src : Object) (r : List Entry) : Option Bytes :=
  replaceFrom sr src 0 [] r

/-- The search ends, its entries for whole matches are the successive matches of
the buffer, and these are replaced, whatever the new text is. -/
def Replaces (R : Regexec P) (src : Object) : Prop :=
  ∃ res l, Loop.Ends (findStep R (cStr src.val)) ⟨0, []⟩ res ∧
    P.Successive (cStr src.val) 0 l ∧ List.Forall₂ Entry.At (wholes res) l ∧
    ∀ sr, strReplace sr src res.flatten = some (replaced sr src.val 0 l)

/-- What is left from `p` on has a length that is an `int`, or one that is taken
for a number that is too large. -/
def LastFits (src : Object) (p : Nat) : Prop :=
  src.val.length - p < 2 ^ 32 ∨ 2 ^ 31 ≤ (src.val.length - p) % 2 ^ 32

/-- What the code relies on where a search begins, at `p`: the match that is next
is not empty, and sets no group; what begins at the start of the rest begins there
in the buffer; the offset is an `int`, and what is left behind the last fits. -/
structure Clean (R : Regexec P) (src : Object) (p : Nat) : Prop where
  nonempty : ∀ so eo, P.First (cStr src.val) p so eo → so < eo
  ungrouped : ∀ pm, R.exec ((cStr src.val).drop p) = some pm → pm.Ungrouped
  begins : ∀ x, P.First ((cStr src.val).drop p) 0 0 x → P.Match (cStr src.val) p (p + x)
  fits : p < 2 ^ 31
  last : (∀ so eo, P.Match (cStr src.val) so eo → so < p) → LastFits src p

/-! ## The search -/

section Search

variable {R : Regexec P} {s : Bytes} {src : Object} {p : Nat}

/-- The rounds of a search from `p` on: where each begins, and what it finds. -/
inductive Found (R : Regexec P) (s : Bytes) : Nat → List (Nat × Pmatch) → Prop
  | done {p : Nat} (h : R.exec (s.drop p) = none) : Found R s p []
  | round {p : Nat} {pm : Pmatch} {rs : List (Nat × Pmatch)} (h : R.exec (s.drop p) = some pm)
      (rest : Found R s (p + pm.lpos) rs) : Found R s p ((p, pm) :: rs)

/-- **The rounds of the loop.** -/
theorem ends_findStep (acc res : List (List Entry)) :
    Loop.Ends (findStep R s) ⟨p, acc⟩ res ↔
      ∃ rs, Found R s p rs ∧ res = acc ++ rs.map fun r => entries r.1 r.2 := by
  constructor
  · rintro ⟨n, hRun⟩
    induction n generalizing p acc with
    | zero => cases hRun
    | succ n ih =>
        cases hExec : R.exec (s.drop p) with
        | none =>
            have hStep : findStep R s ⟨p, acc⟩ = .inl acc := by simp only [findStep, hExec]
            rw [Loop.run, hStep] at hRun
            refine ⟨[], .done hExec, ?_⟩
            rw [List.map_nil, List.append_nil]
            exact (Option.some.inj hRun).symm
        | some pm =>
            have hStep : findStep R s ⟨p, acc⟩ = .inr ⟨p + pm.lpos, acc ++ [entries p pm]⟩ := by
              simp only [findStep, hExec]
            rw [Loop.run, hStep] at hRun
            obtain ⟨rs, hFound, hRes⟩ := ih _ hRun
            exact ⟨(p, pm) :: rs, .round hExec hFound, by
              rw [hRes, List.map_cons, List.append_assoc, List.singleton_append]⟩
  · rintro ⟨rs, hFound, rfl⟩
    induction hFound generalizing acc with
    | @done p hExec =>
        have hStep : findStep R s ⟨p, acc⟩ = .inl acc := by simp only [findStep, hExec]
        exact (Loop.ends_inl hStep).2 (List.append_nil _)
    | @round p pm rs hExec _ ih =>
        have hStep : findStep R s ⟨p, acc⟩ = .inr ⟨p + pm.lpos, acc ++ [entries p pm]⟩ := by
          simp only [findStep, hExec]
        rw [Loop.ends_inr hStep]
        have hNext := ih (acc ++ [entries p pm])
        rwa [List.append_assoc] at hNext

/-- A search that makes no way does not end. -/
theorem not_found_of_stuck {pm : Pmatch} (hExec : R.exec (s.drop p) = some pm)
    (hStuck : pm.lpos = 0) (rs : List (Nat × Pmatch)) : ¬ Found R s p rs := by
  induction rs with
  | nil =>
      intro h
      cases h with
      | done hNone =>
          rw [hExec] at hNone
          cases hNone
  | cons r rs ih =>
      intro h
      cases h with
      | round hSome hRest =>
          rw [hExec] at hSome
          obtain rfl := Option.some.inj hSome
          rw [hStuck, Nat.add_zero] at hRest
          exact ih hRest

/-- The part of the buffer that a round has found. -/
def part (r : Nat × Pmatch) : Nat × Nat := (r.2.whole.1 + r.1, r.2.whole.2 + r.1)

theorem wholes_entries (rs : List (Nat × Pmatch)) :
    wholes (rs.map fun r => entries r.1 r.2) = (rs.map part).map Entry.of := by
  induction rs with
  | nil => rfl
  | cons r rs ih =>
      rw [wholes] at ih
      rw [wholes, List.map_cons, List.map_cons, List.filterMap_cons, ih]
      rfl

/-- Rounds that set no group have one entry each. -/
theorem flatten_entries (rs : List (Nat × Pmatch)) (hUngrouped : ∀ r ∈ rs, r.2.Ungrouped) :
    (rs.map fun r => entries r.1 r.2).flatten = (rs.map part).map Entry.of := by
  induction rs with
  | nil => rfl
  | cons r rs ih =>
      rw [List.forall_mem_cons] at hUngrouped
      rw [List.map_cons, List.flatten_cons, ih hUngrouped.2, entries,
        Pmatch.ungrouped_iff.1 hUngrouped.1]
      rfl

/-- Where nothing more is entered than the rounds, no round sets a group. -/
theorem ungrouped_of_length (rs : List (Nat × Pmatch))
    (h : (rs.map fun r => entries r.1 r.2).flatten.length = rs.length) :
    ∀ r ∈ rs, r.2.Ungrouped := by
  have hLeast : ∀ rs : List (Nat × Pmatch),
      rs.length ≤ (rs.map fun r => entries r.1 r.2).flatten.length := by
    intro rs
    induction rs with
    | nil => exact Nat.le_refl _
    | cons r rs ih =>
        simp only [List.map_cons, List.flatten_cons, List.length_append, entries, Pmatch.set,
          List.length_cons] at ih ⊢
        omega
  induction rs with
  | nil => exact fun r hr => absurd hr List.not_mem_nil
  | cons r rs ih =>
      have hRest := hLeast rs
      simp only [List.map_cons, List.flatten_cons, List.length_append, List.length_cons] at h
      have hOne : (entries r.1 r.2).length = r.2.set.length := List.length_map _
      have hSome : r.2.set.length =
          1 + ((r.2.groups.takeWhile Option.isSome).filterMap id).length := by
        rw [Pmatch.set, List.length_cons, Nat.add_comm]
      rw [List.forall_mem_cons]
      refine ⟨Pmatch.ungrouped_iff.2 ?_, ih (by omega)⟩
      have hNil : ((r.2.groups.takeWhile Option.isSome).filterMap id).length = 0 := by omega
      rw [Pmatch.set, List.length_eq_zero_iff.1 hNil]

end Search

/-! ## Offsets that are `int`s -/

section Offsets

theorem asInt_of_lt {n : Nat} (h : n < 2 ^ 31) :
    Corelib.asInt (UInt64.ofNat n) = UInt64.ofNat n := by
  apply UInt64.toNat_inj.1
  rw [Corelib.OutBuffer.toNat_asInt, UInt64.toNat_ofNat_of_lt' (show n < 2 ^ 64 by omega),
    Nat.mod_eq_of_lt (by omega), if_pos h]

theorem Entry.of_at {m : Nat × Nat} (hLe : m.1 ≤ m.2) (h : m.2 < 2 ^ 31) : (Entry.of m).At m := by
  refine ⟨?_, ?_⟩
  · rw [Entry.of, asInt_of_lt (by omega)]
    exact UInt64.toNat_ofNat_of_lt' (show m.1 < 2 ^ 64 by omega)
  · rw [Entry.of, asInt_of_lt h]
    exact UInt64.toNat_ofNat_of_lt' (show m.2 < 2 ^ 64 by omega)

/-- An `int` that is no negative number is the low part of what it was made of. -/
theorem mod_eq_of_asInt {n k : Nat} (hn : n < 2 ^ 64) (hk : k < 2 ^ 63)
    (h : (Corelib.asInt (UInt64.ofNat n)).toNat = k) : k < 2 ^ 31 ∧ n % 2 ^ 32 = k := by
  rw [Corelib.OutBuffer.toNat_asInt, UInt64.toNat_ofNat_of_lt' hn] at h
  split at h <;> omega

/-- The `int` that a length becomes is enough for it. -/
theorem le_asInt_iff {n : Nat} (h : n < 2 ^ 63) :
    n ≤ (Corelib.asInt (UInt64.ofNat n)).toNat ↔ n < 2 ^ 32 ∨ 2 ^ 31 ≤ n % 2 ^ 32 := by
  rw [Corelib.OutBuffer.toNat_asInt, UInt64.toNat_ofNat_of_lt' (show n < 2 ^ 64 by omega)]
  split <;> omega

theorem ofNat_sub {a b : Nat} (hLe : b ≤ a) :
    UInt64.ofNat a - UInt64.ofNat b = UInt64.ofNat (a - b) :=
  (UInt64.ofNat_sub hLe).symm

end Offsets

/-! ## The replacement -/

section Replacement

variable {src : Object} {p : Nat} {l : List (Nat × Nat)} {r : List Entry} {sr a : Bytes}

/-- Where the last match ends. -/
def lastEnd : Nat → List (Nat × Nat) → Nat
  | p, [] => p
  | _, (_, eo) :: l => lastEnd eo l

theorem substr_of_le {s : Bytes} {pos n : Nat} (hPos : pos ≤ s.length) (hLen : s.length < 2 ^ 64)
    (size : UInt64) (hSize : size.toNat = n) :
    substr s (UInt64.ofNat pos) size = some ((s.drop pos).take n) := by
  rw [substr, UInt64.toNat_ofNat_of_lt' (Nat.lt_of_le_of_lt hPos hLen), if_pos hPos, hSize]

/-- What the loop makes of offsets that are `int`s: all but the last piece is
right, and of that as much as an `int` says. -/
theorem replaceFrom_eq (sr : Bytes) (src : Object) (hOrdered : Ordered p l)
    (hEnds : ∀ m ∈ l, m.2 < 2 ^ 31 ∧ m.2 ≤ src.val.length) (hFits : p < 2 ^ 31)
    (hInside : p ≤ src.val.length) (a : Bytes) :
    ∃ front, replaceFrom sr src (UInt64.ofNat p) a (l.map Entry.of) =
        some (a ++ front ++ (src.val.drop (lastEnd p l)).take
          (Corelib.asInt (UInt64.ofNat (src.val.length - lastEnd p l))).toNat) ∧
      replaced sr src.val p l = front ++ src.val.drop (lastEnd p l) := by
  have hLen := src.property
  induction l generalizing p a with
  | nil =>
      refine ⟨[], ?_, rfl⟩
      rw [List.map_nil, replaceFrom, Object.size, ofNat_sub hInside,
        substr_of_le hInside (by omega) _ rfl, lastEnd, Option.map_some, List.append_nil]
  | cons m l ih =>
      obtain ⟨so, eo⟩ := m
      obtain ⟨hBehind, hMatch, hRest⟩ := hOrdered
      rw [List.forall_mem_cons] at hEnds
      obtain ⟨⟨hEo, hEoInside⟩, hEnds⟩ := hEnds
      simp only at hEo hEoInside
      obtain ⟨front, hLoop, hReplaced⟩ := ih hRest hEnds hEo hEoInside
        (a ++ (src.val.drop p).take (so - p) ++ sr)
      have hSo : Corelib.asInt (UInt64.ofNat so) = UInt64.ofNat so := asInt_of_lt (by omega)
      have hPiece : (Corelib.asInt (UInt64.ofNat (so - p))).toNat = so - p := by
        rw [asInt_of_lt (by omega)]
        exact UInt64.toNat_ofNat_of_lt' (show so - p < 2 ^ 64 by omega)
      refine ⟨(src.val.drop p).take (so - p) ++ sr ++ front, ?_, ?_⟩
      · rw [List.map_cons, replaceFrom, Entry.of, hSo, asInt_of_lt hEo, ofNat_sub hBehind,
          substr_of_le hInside (by omega) _ hPiece, Option.bind_some, hLoop, lastEnd]
        simp only [List.append_assoc]
      · rw [replaced, hReplaced, lastEnd]
        simp only [List.append_assoc]

/-- **The replacement is right** where the last piece is whole. -/
theorem strReplace_eq_iff (sr : Bytes) (src : Object) (hOrdered : Ordered 0 l)
    (hEnds : ∀ m ∈ l, m.2 < 2 ^ 31 ∧ m.2 ≤ src.val.length) :
    strReplace sr src (l.map Entry.of) = some (replaced sr src.val 0 l) ↔
      LastFits src (lastEnd 0 l) := by
  have hLen := src.property
  obtain ⟨front, hLoop, hReplaced⟩ := replaceFrom_eq sr src hOrdered hEnds (by decide)
    (Nat.zero_le _) []
  have hStart : strReplace sr src (l.map Entry.of) = _ := hLoop
  rw [LastFits, hStart, hReplaced, ← le_asInt_iff (by omega), List.nil_append, Option.some.injEq,
    List.append_cancel_left_eq, List.take_eq_self_iff, List.length_drop]

/-- Every entry puts the new text in once. -/
theorem exists_length_replaceFrom (src : Object) (r : List Entry) (lpz : UInt64) :
    ∃ k, ∀ sr a out, replaceFrom sr src lpz a r = some out →
      out.length = a.length + k + r.length * sr.length := by
  induction r generalizing lpz with
  | nil =>
      cases hPiece : substr src.val lpz (Corelib.asInt (src.size - lpz)) with
      | none => exact ⟨0, fun sr a out h => by simp [replaceFrom, hPiece] at h⟩
      | some t =>
          refine ⟨t.length, fun sr a out h => ?_⟩
          simp only [replaceFrom, hPiece, Option.map_some, Option.some.injEq] at h
          simp [← h]
  | cons e r ih =>
      obtain ⟨k, hk⟩ := ih e.eo
      cases hPiece : substr src.val lpz (Corelib.asInt (e.so - lpz)) with
      | none => exact ⟨0, fun sr a out h => by simp [replaceFrom, hPiece] at h⟩
      | some t =>
          refine ⟨t.length + k, fun sr a out h => ?_⟩
          simp only [replaceFrom, hPiece, Option.bind_some] at h
          rw [hk _ _ _ h, List.length_append, List.length_append, List.length_cons, Nat.succ_mul]
          omega

/-- Where the matches are replaced whatever the new text is, nothing else is
entered. -/
theorem length_eq_of_strReplace
    (h : ∀ sr, strReplace sr src r = some (replaced sr src.val 0 l)) : r.length = l.length := by
  obtain ⟨k, hk⟩ := exists_length_replaceFrom src r 0
  obtain ⟨j, hj⟩ := exists_length_replaced src.val 0 l
  have hNone := hk [] [] _ (h [])
  have hOne := hk [0] [] _ (h [0])
  rw [hj] at hNone hOne
  simp only [List.length_nil, List.length_singleton, Nat.mul_zero, Nat.mul_one] at hNone hOne
  omega

end Replacement

/-! ## What a search finds -/

section Rounds

variable {R : Regexec P} {s : Bytes} {src : Object} {p so eo : Nat} {pm : Pmatch}
  {rs : List (Nat × Pmatch)} {l : List (Nat × Nat)}

theorem lpos_le (hExec : R.exec s = some pm) : pm.lpos ≤ pm.whole.2 := by
  have hLast := List.getLast_mem (List.cons_ne_nil pm.whole
    ((pm.groups.takeWhile Option.isSome).filterMap id))
  rcases List.mem_cons.1 hLast with hWhole | hGroup
  · exact Nat.le_of_eq (congrArg Prod.snd hWhole)
  · obtain ⟨g, hMem, hSome⟩ := List.mem_filterMap.1 hGroup
    have hSet := List.takeWhile_subset _ hMem
    rw [id_eq] at hSome
    rw [hSome] at hSet
    exact (R.group_inside hExec hSet).2.2

/-- What `regexec` finds in the rest is a match of the rest. -/
theorem part_inside (hExec : R.exec (s.drop p) = some pm) (hInside : p ≤ s.length) :
    (part (p, pm)).1 ≤ (part (p, pm)).2 ∧ (part (p, pm)).2 ≤ s.length := by
  have hMatch := P.inside (R.first hExec).isMatch
  rw [List.length_drop] at hMatch
  exact ⟨Nat.add_le_add_right hMatch.1 p, by simp only [part]; omega⟩

/-- Every search begins inside the buffer. -/
theorem Found.inside (hFound : Found R s p rs) (hInside : p ≤ s.length) :
    ∀ r ∈ rs, r.1 ≤ s.length ∧ (part r).1 ≤ (part r).2 ∧ (part r).2 ≤ s.length := by
  induction hFound with
  | done => exact fun r hr => absurd hr List.not_mem_nil
  | @round p pm rs hExec _ ih =>
      have hPart := part_inside hExec hInside
      have hLpos := lpos_le hExec
      refine List.forall_mem_cons.2 ⟨⟨hInside, hPart⟩, ih ?_⟩
      have hEnd := hPart.2
      simp only [part] at hEnd
      omega

theorem Found.parts_inside (hFound : Found R s p rs) (hInside : p ≤ s.length) :
    ∀ m ∈ rs.map part, m.1 ≤ m.2 ∧ m.2 ≤ s.length := by
  intro m hm
  obtain ⟨r, hr, rfl⟩ := List.mem_map.1 hm
  exact (hFound.inside hInside r hr).2

/-- Where what begins at the start of the rest begins there in the text, the first
match of the rest is the first of the text. -/
theorem first_of_exec (hExec : R.exec (s.drop p) = some pm)
    (hBegins : ∀ x, P.First (s.drop p) 0 0 x → P.Match s p (p + x)) :
    P.First s p (part (p, pm)).1 (part (p, pm)).2 := by
  have hFirst := R.first hExec
  obtain ⟨⟨a, b⟩, groups⟩ := pm
  simp only at hFirst
  rw [part, Nat.add_comm a, Nat.add_comm b]
  refine hFirst.of_drop ?_
  cases a with
  | zero => exact hBegins b hFirst
  | succ a => exact P.undrop (Nat.succ_pos a) hFirst.isMatch

theorem no_match_of_exec (hExec : R.exec (s.drop p) = none) (hMatch : P.Match s so eo) :
    so < p := by
  by_contra hLe
  exact R.none_match hExec _ _ (match_drop hMatch (Nat.le_of_not_lt hLe))

end Rounds

section Clean

variable {R : Regexec P} {src : Object} {p so eo : Nat} {pm : Pmatch}
  {rs : List (Nat × Pmatch)} {l : List (Nat × Nat)}

/-- **A clean search.** It finds the successive matches and sets no group, and the
offsets are `int`s. -/
theorem exists_found (hClean : ∀ q, P.Reached (cStr src.val) p q → Clean R src q)
    (hInside : p ≤ (cStr src.val).length) :
    ∃ rs, Found R (cStr src.val) p rs ∧ (∀ r ∈ rs, r.2.Ungrouped) ∧
      P.Successive (cStr src.val) p (rs.map part) ∧ (∀ m ∈ rs.map part, m.2 < 2 ^ 31) ∧
      LastFits src (lastEnd p (rs.map part)) := by
  induction hRest : (cStr src.val).length - p using Nat.strong_induction_on generalizing p with
  | _ n ih =>
      have hHere := hClean p .here
      cases hExec : R.exec ((cStr src.val).drop p) with
      | none =>
          have hNone : ∀ so eo, P.Match (cStr src.val) so eo → so < p :=
            fun so eo hMatch => no_match_of_exec hExec hMatch
          exact ⟨[], .done hExec, fun r hr => absurd hr List.not_mem_nil, .done hNone,
            fun m hm => absurd hm List.not_mem_nil, hHere.last hNone⟩
      | some pm =>
          have hFirst := first_of_exec hExec hHere.begins
          have hUngrouped := hHere.ungrouped _ hExec
          have hNonempty := hHere.nonempty _ _ hFirst
          have hEnd := (part_inside hExec hInside).2
          have hBehind := hFirst.behind
          have hLater : ∀ q, P.Reached (cStr src.val) (part (p, pm)).2 q → Clean R src q :=
            fun q hReached => hClean q (.behind hFirst hReached)
          obtain ⟨rs, hFound, hGroups, hSuccessive, hFits, hLast⟩ :=
            ih _ (by omega) hLater hEnd rfl
          refine ⟨(p, pm) :: rs, .round hExec ?_, List.forall_mem_cons.2 ⟨hUngrouped, hGroups⟩,
            .next_of_lt hFirst hNonempty hSuccessive,
            List.forall_mem_cons.2 ⟨(hLater _ .here).fits, hFits⟩, hLast⟩
          rw [Pmatch.lpos_of_ungrouped hUngrouped, Nat.add_comm]
          exact hFound

/-- No match of a rest is `2^32` bytes long. -/
def Short (P : Pattern UInt8) (s : Bytes) : Prop :=
  ∀ q so eo, P.Match (s.drop q) so eo → eo - so < 2 ^ 32

/-- An entry that is right says where the round was, if the match is shorter than
`2^32` bytes. -/
theorem part_eq (hExec : R.exec ((cStr src.val).drop p) = some pm)
    (hFirst : P.First (cStr src.val) p so eo) (hAt : (Entry.of (part (p, pm))).At (so, eo))
    (hShort : Short P (cStr src.val)) : part (p, pm) = (so, eo) ∧ eo < 2 ^ 31 := by
  have hLen := src.property
  have hText := length_cStr_le src.val
  have hMatch := P.inside hFirst.isMatch
  have hBehind := hFirst.behind
  have hRest := match_drop hFirst.isMatch hBehind
  have hPart := part_inside hExec (by omega)
  have hLeft := (R.first hExec).leftmost _ _ hRest (Nat.zero_le _)
  have hLong := (R.first hExec).longest (eo - p)
  have hPiece := hShort p _ _ (R.first hExec).isMatch
  obtain ⟨⟨a, b⟩, groups⟩ := pm
  simp only [part] at *
  have hSo := mod_eq_of_asInt (by omega) (by omega) hAt.so_eq
  have hEo := mod_eq_of_asInt (by omega) (by omega) hAt.eo_eq
  simp only at hSo hEo
  -- the round cannot find a match further on than the next, so its start is below `2^32`
  obtain rfl : a = so - p := by omega
  have hLong := hLong hRest
  exact ⟨Prod.ext (by omega) (by omega), hEo.1⟩

/-- Behind an empty match the loop searches where it has found it, and the entry is
not that of a match further on. -/
theorem nonempty_of_found (hMatch : P.Match (cStr src.val) so eo)
    (hFound : Found R (cStr src.val) eo rs)
    (hSuccessive : P.Successive (cStr src.val) (if so < eo then eo else eo + 1) l)
    (hAt : List.Forall₂ Entry.At ((rs.map part).map Entry.of) l) : so < eo := by
  by_contra hEmpty
  rw [if_neg hEmpty] at hSuccessive
  have hLen := src.property
  have hText := length_cStr_le src.val
  have hInside := P.inside hMatch
  obtain rfl : so = eo := by omega
  have hHere := match_drop hMatch (Nat.le_refl so)
  rw [Nat.sub_self] at hHere
  cases hFound with
  | done hExec => exact R.none_match hExec _ _ hHere
  | @round _ pm rs hExec _ =>
      have hStart := (R.first hExec).leftmost _ _ hHere (Nat.le_refl 0)
      cases hAt with
      | cons hEntry _ =>
          cases hSuccessive with
          | next hNext _ =>
              have hBehind := hNext.behind
              have hNextInside := P.inside hNext.isMatch
              have hSo := mod_eq_of_asInt (by simp only [part]; omega) (by simp only; omega)
                hEntry.so_eq
              simp only [part] at hSo
              omega

/-- Where the search finds nothing more, only the length of what is left counts. -/
theorem clean_of_none (hExec : R.exec ((cStr src.val).drop p) = none) (hFits : p < 2 ^ 31)
    (hLast : LastFits src p) : Clean R src p where
  nonempty _ _ hFirst :=
    absurd (no_match_of_exec hExec hFirst.isMatch) (Nat.not_lt_of_le hFirst.behind)
  ungrouped pm hSome := by
    rw [hExec] at hSome
    cases hSome
  begins x hFirst := absurd hFirst.isMatch (R.none_match hExec 0 x)
  fits := hFits
  last _ := hLast

/-- Where the search finds the match that is next, and that is not empty. -/
theorem clean_of_some (hExec : R.exec ((cStr src.val).drop p) = some pm)
    (hFirst : P.First (cStr src.val) p so eo) (hPart : part (p, pm) = (so, eo)) (hLt : so < eo)
    (hUngrouped : pm.Ungrouped) (hFits : p < 2 ^ 31) : Clean R src p where
  nonempty so' eo' hFirst' := by
    obtain ⟨rfl, rfl⟩ := hFirst.unique hFirst'
    exact hLt
  ungrouped pm' hSome := by
    rw [hExec] at hSome
    obtain rfl := Option.some.inj hSome
    exact hUngrouped
  begins x hBegin := by
    obtain ⟨hStart, hStop⟩ := hBegin.unique (R.first hExec)
    obtain ⟨hSo, hEo⟩ := Prod.mk.inj hPart
    have hMatch := hFirst.isMatch
    rwa [← hSo, ← hEo, ← hStart, ← hStop, Nat.zero_add, Nat.add_comm x] at hMatch
  fits := hFits
  last hNone := absurd (hNone _ _ hFirst.isMatch) (Nat.not_lt_of_le hFirst.behind)

/-- **A search that finds the matches.** It has met what the code relies on at
every place where it began. -/
theorem clean_of_found (hShort : Short P (cStr src.val)) (hFound : Found R (cStr src.val) p rs)
    (hUngrouped : ∀ r ∈ rs, r.2.Ungrouped) (hSuccessive : P.Successive (cStr src.val) p l)
    (hAt : List.Forall₂ Entry.At ((rs.map part).map Entry.of) l) (hFits : p < 2 ^ 31) :
    rs.map part = l ∧ (∀ m ∈ l, m.2 < 2 ^ 31) ∧
      (LastFits src (lastEnd p l) → ∀ q, P.Reached (cStr src.val) p q → Clean R src q) := by
  induction hFound generalizing l with
  | @done p hExec =>
      cases hAt
      refine ⟨rfl, fun m hm => absurd hm List.not_mem_nil, fun hLast q hReached => ?_⟩
      cases hReached with
      | here => exact clean_of_none hExec hFits hLast
      | behind hFirst _ =>
          exact absurd (no_match_of_exec hExec hFirst.isMatch) (Nat.not_lt_of_le hFirst.behind)
  | @round p pm rs hExec hRest ih =>
      rw [List.forall_mem_cons] at hUngrouped
      cases hAt with
      | cons hEntry hEntries =>
          cases hSuccessive with
          | @next _ so eo l hFirst hNext =>
              obtain ⟨hPart, hEo⟩ := part_eq hExec hFirst hEntry hShort
              have hEnd : p + pm.lpos = eo := by
                rw [Pmatch.lpos_of_ungrouped hUngrouped.1, Nat.add_comm]
                exact congrArg Prod.snd hPart
              rw [hEnd] at hRest ih
              have hLt := nonempty_of_found hFirst.isMatch hRest hNext hEntries
              rw [if_pos hLt] at hNext
              obtain ⟨hParts, hFitsAll, hClean⟩ := ih hUngrouped.2 hNext hEntries hEo
              refine ⟨by rw [List.map_cons, hPart, hParts],
                List.forall_mem_cons.2 ⟨hEo, hFitsAll⟩, fun hLast q hReached => ?_⟩
              cases hReached with
              | here => exact clean_of_some hExec hFirst hPart hLt hUngrouped.1 hFits
              | behind hFirst' hReached =>
                  obtain ⟨rfl, rfl⟩ := hFirst.unique hFirst'
                  exact hClean hLast q hReached

end Clean

/-! ## The matches are replaced -/

section Replaces

variable {R : Regexec P} {src : Object}

theorem replaces_of_clean
    (hClean : ∀ q, P.Reached (cStr src.val) 0 q → Clean R src q) : Replaces R src := by
  obtain ⟨rs, hFound, hUngrouped, hSuccessive, hFits, hLast⟩ :=
    exists_found hClean (Nat.zero_le _)
  have hParts := hFound.parts_inside (Nat.zero_le _)
  have hText := length_cStr_le src.val
  have hEnds : Loop.Ends (findStep R (cStr src.val)) ⟨0, []⟩
      (rs.map fun r => entries r.1 r.2) :=
    (ends_findStep [] _).2 ⟨rs, hFound, (List.nil_append _).symm⟩
  refine ⟨_, _, hEnds, hSuccessive, ?_, fun sr => ?_⟩
  · rw [wholes_entries, List.forall₂_map_left_iff, List.forall₂_same]
    exact fun m hm => Entry.of_at (hParts m hm).1 (hFits m hm)
  · rw [flatten_entries rs hUngrouped]
    exact (strReplace_eq_iff sr src hSuccessive.ordered fun m hm =>
      ⟨hFits m hm, Nat.le_trans (hParts m hm).2 hText⟩).2 hLast

theorem clean_of_replaces (hShort : Short P (cStr src.val)) (h : Replaces R src) :
    ∀ q, P.Reached (cStr src.val) 0 q → Clean R src q := by
  obtain ⟨res, l, hEnds, hSuccessive, hAt, hReplace⟩ := h
  obtain ⟨rs, hFound, rfl⟩ := (ends_findStep [] _).1 hEnds
  have hInside := hFound.parts_inside (Nat.zero_le _)
  have hText := length_cStr_le src.val
  rw [List.nil_append] at hAt hReplace
  rw [wholes_entries] at hAt
  have hLength : rs.length = l.length := by
    rw [← hAt.length_eq, List.length_map, List.length_map]
  have hUngrouped := ungrouped_of_length rs (by rw [length_eq_of_strReplace hReplace, hLength])
  obtain ⟨hParts, hFits, hClean⟩ :=
    clean_of_found hShort hFound hUngrouped hSuccessive hAt (by decide)
  rw [hParts] at hInside
  refine hClean ((strReplace_eq_iff [] src hSuccessive.ordered fun m hm =>
    ⟨hFits m hm, Nat.le_trans (hInside m hm).2 hText⟩).1 ?_)
  rw [← hReplace, flatten_entries rs hUngrouped, hParts]

/-- **The search and the replacement.** They are right where the code relies on
nothing that does not hold, at `0` and behind every match of the buffer; and,
unless a rest has a match of `2^32` bytes, only there. -/
theorem replaces_iff (R : Regexec P) (src : Object) :
    ((∀ q, P.Reached (cStr src.val) 0 q → Clean R src q) → Replaces R src) ∧
      (Short P (cStr src.val) →
        (Replaces R src ↔ ∀ q, P.Reached (cStr src.val) 0 q → Clean R src q)) :=
  ⟨replaces_of_clean, fun hShort => ⟨clean_of_replaces hShort, replaces_of_clean⟩⟩

end Replaces

/-! ## Two expressions -/

/-- `c`, for a byte that is no operator. -/
def bytePattern (c : UInt8) : Pattern UInt8 where
  Match s so eo := s[so]? = some c ∧ eo = so + 1
  inside := by
    rintro s so eo ⟨hByte, rfl⟩
    obtain ⟨hLt, -⟩ := List.getElem?_eq_some_iff.1 hByte
    omega
  drop := by
    rintro s p so eo ⟨hByte, hEnd⟩
    exact ⟨by rwa [List.getElem?_drop], by omega⟩
  undrop := by
    rintro s p so eo - ⟨hByte, rfl⟩
    exact ⟨by rwa [List.getElem?_drop] at hByte, by omega⟩

/-- `(c)`. -/
def captured (c : UInt8) : Regexec (bytePattern c) where
  exec s := (s.findIdx? (· == c)).map fun i =>
    ⟨(i, i + 1), some (i, i + 1) :: List.replicate 8 none⟩
  none_match := by
    rintro s hExec so eo ⟨hByte, -⟩
    rw [Option.map_eq_none_iff, List.findIdx?_eq_none_iff] at hExec
    have hNe := hExec c (List.mem_of_getElem? hByte)
    rw [beq_self_eq_true] at hNe
    cases hNe
  first := by
    intro s pm hExec
    obtain ⟨i, hIdx, rfl⟩ := Option.map_eq_some_iff.1 hExec
    obtain ⟨hLt, hByte, hBefore⟩ := List.findIdx?_eq_some_iff_getElem.1 hIdx
    refine ⟨⟨?_, rfl⟩, Nat.zero_le _, fun so eo hMatch _ => ?_, fun eo hMatch => ?_⟩
    · rw [List.getElem?_eq_getElem hLt, beq_iff_eq.1 hByte]
    · by_contra hLess
      obtain ⟨hSo, hEq⟩ := List.getElem?_eq_some_iff.1 hMatch.1
      exact hBefore so (Nat.lt_of_not_le hLess) (beq_iff_eq.2 hEq)
    · exact Nat.le_of_eq hMatch.2
  groups_length := by
    intro s pm hExec
    obtain ⟨i, -, rfl⟩ := Option.map_eq_some_iff.1 hExec
    rfl
  group_inside := by
    intro s pm m hExec hMem
    obtain ⟨i, -, rfl⟩ := Option.map_eq_some_iff.1 hExec
    rcases List.mem_cons.1 hMem with hGroup | hRest
    · obtain rfl := Option.some.inj hGroup
      exact ⟨Nat.le_refl _, Nat.le_succ _, Nat.le_refl _⟩
    · cases List.eq_of_mem_replicate hRest

/-- `c{0}`: the empty part of the text, everywhere. -/
def emptyPattern : Pattern UInt8 where
  Match s so eo := so = eo ∧ eo ≤ s.length
  inside h := ⟨Nat.le_of_eq h.1, h.2⟩
  drop := by
    rintro s p so eo ⟨hEq, hInside⟩
    rw [List.length_drop]
    omega
  undrop := by
    rintro s p so eo hPos ⟨hEq, hInside⟩
    rw [List.length_drop] at hInside
    omega

/-- `regexec` for it. -/
def emptied : Regexec emptyPattern where
  exec _ := some ⟨(0, 0), List.replicate 9 none⟩
  none_match hExec := by cases hExec
  first := by
    rintro s pm ⟨⟩
    exact ⟨⟨rfl, Nat.zero_le _⟩, Nat.zero_le _, fun _ _ _ hBehind => hBehind,
      fun _ hMatch => Nat.le_of_eq hMatch.1.symm⟩
  groups_length := by
    rintro s pm ⟨⟩
    rfl
  group_inside := by
    rintro s pm m ⟨⟩ hMem
    cases List.eq_of_mem_replicate hMem

/-- In `a`, what `(a)` has matched is not replaced, and the search for `b{0}` does
not end. -/
theorem not_replaces_of_group :
    ¬ Replaces (captured 97) ⟨[97], by decide⟩ ∧
      ∀ res, ¬ Loop.Ends (findStep emptied (cStr [97])) ⟨0, []⟩ res := by
  constructor
  · intro hReplaces
    have hShort : Short (bytePattern 97) (cStr [97]) := by
      rintro q so eo ⟨-, rfl⟩
      omega
    exact (clean_of_replaces hShort hReplaces 0 .here).ungrouped _ rfl (0, 1) rfl
  · intro res hEnds
    obtain ⟨rs, hFound, -⟩ := (ends_findStep [] res).1 hEnds
    exact not_found_of_stuck rfl rfl rs hFound

end Megatron.CUtils
