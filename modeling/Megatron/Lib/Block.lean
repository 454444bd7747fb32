import Mathlib.Data.List.Basic

/-!
# Allocated blocks

What `malloc` hands out: a fixed number of cells, `none` where nothing has
been written yet.  A write that does not fit has no result, since the program
has no defined behaviour from there on.

`overlay` is the write without the test: what lies beyond the end is dropped.
A prefix of an overlaid block is the overlay of the prefix (`take_overlay`),
so one function says both what a write stores and what it does to a part of
the block that somebody else still reads.

## Main results

* `write_eq_some` — a write succeeds exactly when it fits, and is an overlay.
* `take_overlay`, `take_overlay_end` — a prefix of the result.
* `overlay_append` — two adjacent writes are one.
* `written_overlay_le`, `written_realloc_le` — how many cells hold a value.
-/

namespace Megatron.Lib

universe u

/-- The cells of an allocated block. -/
abbrev Block (β : Type u) := List (Option β)

namespace Block

variable {β : Type u}

/-- `n` cells that hold nothing yet. -/
def malloc (n : Nat) : Block β := List.replicate n none

/-- The first `n` cells, and as many new ones as are missing. -/
def realloc (b : Block β) (n : Nat) : Block β := b.take n ++ malloc (n - b.length)

/-- `s` from `pos` on, as far as the block reaches. -/
def overlay : Block β → Nat → List β → Block β
  | [], _, _ => []
  | c :: b, pos + 1, s => c :: overlay b pos s
  | c :: b, 0, [] => c :: b
  | _ :: b, 0, x :: s => some x :: overlay b 0 s

attribute [local simp] overlay

/-- `s` from `pos` on; `none` is a write beyond the end. -/
def write (b : Block β) (pos : Nat) (s : List β) : Option (Block β) :=
  if pos + s.length ≤ b.length then some (b.overlay pos s) else none

@[simp] theorem length_malloc (n : Nat) : (malloc n : Block β).length = n :=
  List.length_replicate

@[simp] theorem length_realloc (b : Block β) (n : Nat) : (b.realloc n).length = n := by
  simp only [realloc, List.length_append, List.length_take, length_malloc]
  omega

theorem take_realloc {b : Block β} {k n : Nat} (hb : k ≤ b.length) (hn : k ≤ n) :
    (b.realloc n).take k = b.take k := by
  have hk : k ≤ (b.take n).length := by
    rw [List.length_take]
    omega
  rw [realloc, List.take_append_of_le_length hk, List.take_take, Nat.min_eq_left hn]

theorem write_eq_some {b b' : Block β} {pos : Nat} {s : List β} :
    b.write pos s = some b' ↔ pos + s.length ≤ b.length ∧ b' = b.overlay pos s := by
  rw [write]
  split
  · rename_i hFits
    simp only [hFits, true_and, Option.some.injEq]
    exact eq_comm
  · rename_i hFits
    simp [hFits]

theorem write_of_fits {b : Block β} {pos : Nat} {s : List β} (h : pos + s.length ≤ b.length) :
    b.write pos s = some (b.overlay pos s) :=
  write_eq_some.2 ⟨h, rfl⟩

/-! ## Overlays -/

@[simp] theorem length_overlay (b : Block β) (pos : Nat) (s : List β) :
    (b.overlay pos s).length = b.length := by
  induction b, pos, s using overlay.induct with
  | case1 pos s => rfl
  | case2 c b pos s ih => simp [overlay, ih]
  | case3 c b => rfl
  | case4 c b x s ih => simp [overlay, ih]

theorem overlay_nil (b : Block β) (pos : Nat) : b.overlay pos [] = b := by
  induction b generalizing pos with
  | nil => rfl
  | cons c b ih => cases pos <;> simp [overlay, ih]

theorem take_overlay (b : Block β) (pos : Nat) (s : List β) (k : Nat) :
    (b.overlay pos s).take k = overlay (b.take k) pos s := by
  induction b, pos, s using overlay.induct generalizing k with
  | case1 pos s => simp [overlay]
  | case2 c b pos s ih => cases k <;> simp [overlay, ih]
  | case3 c b => rw [overlay, overlay_nil]
  | case4 c b x s ih => cases k <;> simp [overlay, ih]

/-- A write that fits ends where its bytes end. -/
theorem take_overlay_end {b : Block β} {pos : Nat} {s : List β}
    (h : pos + s.length ≤ b.length) :
    (b.overlay pos s).take (pos + s.length) = b.take pos ++ s.map some := by
  induction b, pos, s using overlay.induct with
  | case1 pos s =>
      rw [List.length_nil, Nat.le_zero, Nat.add_eq_zero_iff, List.length_eq_zero_iff] at h
      simp [overlay, h.2]
  | case2 c b pos s ih =>
      rw [Nat.succ_add] at h ⊢
      simp only [overlay, List.take_succ_cons, ih (Nat.le_of_succ_le_succ h), List.cons_append]
  | case3 c b => rfl
  | case4 c b x s ih =>
      rw [Nat.zero_add, List.length_cons] at h ⊢
      rw [Nat.zero_add] at ih
      simp [overlay, ih (Nat.le_of_succ_le_succ h)]

/-- A write behind the end. -/
theorem overlay_of_length_le {b : Block β} {pos : Nat} (h : b.length ≤ pos) (s : List β) :
    b.overlay pos s = b := by
  induction b, pos, s using overlay.induct with
  | case1 pos s => rfl
  | case2 c b pos s ih => rw [overlay, ih (Nat.le_of_succ_le_succ h)]
  | case3 c b => rfl
  | case4 c b x s ih => exact absurd h (Nat.not_succ_le_zero _)

/-- What lies before a write stays. -/
theorem take_overlay_of_le {k pos : Nat} (h : k ≤ pos) (b : Block β) (s : List β) :
    (b.overlay pos s).take k = b.take k := by
  rw [take_overlay, overlay_of_length_le (Nat.le_trans (List.length_take_le _ _) h)]

theorem getElem?_overlay {b : Block β} {pos : Nat} (h : pos < b.length) (x : β) :
    (b.overlay pos [x])[pos]? = some (some x) := by
  have hEnds := take_overlay_end (s := [x]) (Nat.succ_le_of_lt h)
  have hLength : (b.take pos).length = pos := List.length_take_of_le (Nat.le_of_lt h)
  have hGet := congrArg (·[pos]?) hEnds
  simp only [List.length_singleton, List.getElem?_take_of_lt (Nat.lt_succ_self pos), List.map_cons,
    List.map_nil] at hGet
  rw [hGet, List.getElem?_append_right (Nat.le_of_eq hLength), hLength, Nat.sub_self]
  rfl

theorem overlay_append (b : Block β) (pos : Nat) (s t : List β) :
    b.overlay pos (s ++ t) = (b.overlay pos s).overlay (pos + s.length) t := by
  induction b, pos, s using overlay.induct with
  | case1 pos s => rfl
  | case2 c b pos s ih =>
      rw [Nat.succ_add]
      simp [overlay, ih]
  | case3 c b => rfl
  | case4 c b x s ih =>
      rw [Nat.zero_add] at ih ⊢
      simp [overlay, ih]

/-! ## The cells that hold a value -/

/-- How many cells have been written. -/
def written (b : Block β) : Nat := b.countP Option.isSome

theorem written_overlay_le (b : Block β) (pos : Nat) (s : List β) :
    (b.overlay pos s).written ≤ b.written + s.length := by
  induction b, pos, s using overlay.induct with
  | case1 pos s => exact Nat.zero_le _
  | case2 c b pos s ih =>
      simp only [written, overlay, List.countP_cons] at ih ⊢
      omega
  | case3 c b => exact Nat.le_refl _
  | case4 c b x s ih =>
      simp only [written, overlay, List.countP_cons, List.length_cons, Option.isSome_some,
        if_true] at ih ⊢
      omega

theorem written_realloc_le (b : Block β) (n : Nat) : (b.realloc n).written ≤ b.written := by
  have hNew : (malloc (n - b.length) : Block β).countP Option.isSome = 0 := by
    simp [malloc, List.countP_replicate]
  rw [written, realloc, List.countP_append, hNew]
  exact (List.take_sublist n b).countP_le

end Block

end Megatron.Lib
