import Mathlib.Data.List.Basic

/-!
# Lines with a cursor

A line that is being edited is what is in front of the cursor and what is
behind it, so that the cursor cannot leave it.  `text` and `cursor` are the
representation by a string and a position, and for every operation there is the
change of the position and of the string by index.

## Main results

* `cursor_ofText` — the line of a text has the cursor it was asked for.
* `cursor_le` — the cursor is in the text.
* `text_insert`, `text_overtype`, `text_backspace`, `text_delete` — the
  operations by index.
-/

namespace Megatron.Lib

universe u

/-- A line, in front of the cursor and behind it. -/
structure EditLine (α : Type u) where
  before : List α
  behind : List α
  deriving DecidableEq

/-- What can be done to it. -/
inductive Edit (α : Type u) where
  | keep
  | insert (c : α)
  | overtype (c : α)
  | backspace
  | delete
  | left
  | right
  | start
  | append (w : List α)
  | load (line : List α)

namespace EditLine

variable {α : Type u}

def text (l : EditLine α) : List α := l.before ++ l.behind

def cursor (l : EditLine α) : Nat := l.before.length

/-- The line of a text with the cursor at `n`. -/
def ofText (text : List α) (n : Nat) : EditLine α := ⟨text.take n, text.drop n⟩

/-- The operations; those that find nothing on their side of the cursor do
nothing. -/
def apply (l : EditLine α) : Edit α → EditLine α
  | .keep => l
  | .insert c => ⟨l.before ++ [c], l.behind⟩
  | .overtype c => ⟨l.before ++ [c], l.behind.tail⟩
  | .backspace => ⟨l.before.dropLast, l.behind⟩
  | .delete => ⟨l.before, l.behind.tail⟩
  | .left => ⟨l.before.dropLast, l.before.getLast?.toList ++ l.behind⟩
  | .right => ⟨l.before ++ l.behind.head?.toList, l.behind.tail⟩
  | .start => ⟨[], l.text⟩
  | .append w => EditLine.ofText (l.text ++ w) (l.cursor + w.length)
  | .load line => ⟨line, []⟩

attribute [local simp] apply

/-! ## Text and cursor -/

theorem cursor_le (l : EditLine α) : l.cursor ≤ l.text.length := by
  simp [cursor, text]

@[simp] theorem text_ofText (text : List α) (n : Nat) : (EditLine.ofText text n).text = text :=
  List.take_append_drop n text

theorem cursor_ofText {text : List α} {n : Nat} (h : n ≤ text.length) :
    (EditLine.ofText text n).cursor = n := by
  simp [EditLine.ofText, cursor, h]

@[simp] theorem take_cursor (l : EditLine α) : l.text.take l.cursor = l.before := by
  simp [text, cursor]

@[simp] theorem drop_cursor (l : EditLine α) : l.text.drop l.cursor = l.behind := by
  simp [text, cursor]

/-! ## The operations by index -/

theorem text_insert (l : EditLine α) (c : α) :
    (l.apply (.insert c)).text = l.text.take l.cursor ++ [c] ++ l.text.drop l.cursor := by
  rw [take_cursor, drop_cursor]
  rfl

@[simp] theorem cursor_insert (l : EditLine α) (c : α) :
    (l.apply (.insert c)).cursor = l.cursor + 1 := by
  simp [apply, cursor]

theorem text_overtype (l : EditLine α) (c : α) :
    (l.apply (.overtype c)).text =
      if l.cursor = l.text.length then l.text ++ [c] else l.text.set l.cursor c := by
  obtain ⟨before, behind⟩ := l
  cases behind with
  | nil => simp [apply, text, cursor]
  | cons x behind => simp [apply, text, cursor]

@[simp] theorem cursor_overtype (l : EditLine α) (c : α) :
    (l.apply (.overtype c)).cursor = l.cursor + 1 := by
  simp [apply, cursor]

theorem text_backspace {l : EditLine α} (h : 0 < l.cursor) :
    (l.apply .backspace).text = l.text.eraseIdx (l.cursor - 1) := by
  have hLt : l.cursor - 1 < l.before.length := Nat.sub_lt h Nat.one_pos
  have hEnd : l.before.length ≤ l.cursor - 1 + 1 := Nat.le_of_eq (Nat.sub_add_cancel h).symm
  rw [text, text, List.eraseIdx_append_of_lt_length hLt, List.eraseIdx_eq_take_drop_succ,
    List.drop_eq_nil_of_le hEnd, List.append_nil]
  simp [apply, cursor, List.dropLast_eq_take]

@[simp] theorem cursor_backspace (l : EditLine α) :
    (l.apply .backspace).cursor = l.cursor - 1 := by
  simp [apply, cursor]

theorem text_delete (l : EditLine α) :
    (l.apply .delete).text = l.text.eraseIdx l.cursor := by
  obtain ⟨before, behind⟩ := l
  cases behind with
  | nil => simp [apply, text, cursor, List.eraseIdx_of_length_le]
  | cons x behind => simp [apply, text, cursor, List.eraseIdx_append_of_length_le]

@[simp] theorem cursor_delete (l : EditLine α) : (l.apply .delete).cursor = l.cursor := rfl

@[simp] theorem text_left (l : EditLine α) : (l.apply .left).text = l.text := by
  obtain ⟨before, behind⟩ := l
  rcases List.eq_nil_or_concat before with rfl | ⟨front, x, rfl⟩
  · rfl
  · simp [apply, text]

@[simp] theorem cursor_left (l : EditLine α) : (l.apply .left).cursor = l.cursor - 1 := by
  simp [apply, cursor]

@[simp] theorem text_right (l : EditLine α) : (l.apply .right).text = l.text := by
  obtain ⟨before, behind⟩ := l
  cases behind <;> simp [apply, text]

theorem cursor_right {l : EditLine α} (h : l.cursor < l.text.length) :
    (l.apply .right).cursor = l.cursor + 1 := by
  obtain ⟨before, behind⟩ := l
  cases behind with
  | nil => simp [text, cursor] at h
  | cons x behind => simp [apply, cursor]

@[simp] theorem text_start (l : EditLine α) : (l.apply .start).text = l.text := rfl

@[simp] theorem cursor_start (l : EditLine α) : (l.apply .start).cursor = 0 := rfl

@[simp] theorem text_append (l : EditLine α) (w : List α) :
    (l.apply (.append w)).text = l.text ++ w := text_ofText _ _

@[simp] theorem cursor_append (l : EditLine α) (w : List α) :
    (l.apply (.append w)).cursor = l.cursor + w.length := by
  refine cursor_ofText ?_
  have hLe := l.cursor_le
  rw [List.length_append]
  omega

@[simp] theorem text_load (l : EditLine α) (line : List α) :
    (l.apply (.load line)).text = line := List.append_nil line

@[simp] theorem cursor_load (l : EditLine α) (line : List α) :
    (l.apply (.load line)).cursor = line.length := rfl

end EditLine

end Megatron.Lib
