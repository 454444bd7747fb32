import Megatron.Lib.EditLine
import Megatron.Telnet.Safety

/-!
# The line a telnet client edits

While the cursor is in the line, the line and the cursor are an `EditLine`, and
every key is an edit of it.  Two keys are the exception: Enter empties the line
and leaves the cursor where it is, and Up and Down at an end of the history show
an empty line and leave the old one to Enter.

## Main results

* `onKey_edits` — every key but Enter is an edit of the line.
* `shows_iff` — when Up and Down show the line that Enter would run.
* `edited_line_iff` — along a run the cursor is in the line and Up and Down show it,
  exactly when Enter comes only with the cursor at the start, and Up and Down
  only within the history or to an empty line.
* `editing_goes_wrong` — the two exceptions.
-/

namespace Megatron.Telnet

open Megatron.Corelib (Bytes)
open Megatron.Lib

namespace Session

variable {s : Session} {l : EditLine UInt8}

/-! ## The line with its cursor -/

/-- The cursor is in the line. -/
def Inside (s : Session) : Prop :=
  0 ≤ s.curpos ∧ s.curpos ≤ s.mxCurrentCommandLine.length

instance decidableInside (s : Session) : Decidable s.Inside :=
  inferInstanceAs (Decidable (_ ∧ _))

/-- The line and the cursor of the session are those of `l`. -/
structure Edits (s : Session) (l : EditLine UInt8) : Prop where
  line : s.mxCurrentCommandLine = l.text
  curpos : s.curpos = l.cursor

/-- A cursor in the line is all it takes. -/
theorem inside_iff : s.Inside ↔ ∃ l, s.Edits l := by
  constructor
  · rintro ⟨hNonneg, hLe⟩
    refine ⟨.ofText s.mxCurrentCommandLine s.curpos.toNat, ?_, ?_⟩
    · rw [EditLine.text_ofText]
    · rw [EditLine.cursor_ofText (by omega)]
      omega
  · rintro ⟨l, hLine, hCur⟩
    have hLe := l.cursor_le
    rw [Inside, hLine, hCur]
    omega

/-! ## Keys as edits -/

/-- What Up and Down do to the line. -/
def recalled (s : Session) (next : Int) : Edit UInt8 :=
  if s.mxCommandHistory = [] then .keep
  else if s.InHistory next then
    (s.mxCommandHistory[sizeT (s.historyIdx next)]?).elim .keep .load
  else .start

/-- What a character does to it; Enter is none of them. -/
def editChar (s : Session) (c : UInt8) : Edit UInt8 :=
  if c = 3 ∨ c = 9 then .keep
  else if s.insertMode then .insert c
  else .overtype c

/-- What a key does to it. -/
def editKey (sv : Service) (s : Session) (out : Bytes) : Edit UInt8 :=
  match TKey.of out with
  | some .bs1 => .backspace
  | some .bs2 => .backspace
  | some .delete => .delete
  | some .left => .left
  | some .right => .right
  | some .up => s.recalled (-1)
  | some .down => s.recalled 1
  | some .tab => .append (s.completion sv)
  | some _ => .keep
  | none => out.head?.elim .keep s.editChar

theorem edits_onTkeyBs (h : s.Sound) (hEdits : s.Edits l) :
    s.onTkeyBs.session.Edits (l.apply .backspace) := by
  have hLe := l.cursor_le
  have hLine := hEdits.line
  have hCur := hEdits.curpos
  rw [onTkeyBs_eq h.toBounded]
  by_cases hPos : 0 < s.curpos
  · have hLt : s.curpos - 1 < s.mxCurrentCommandLine.length := by
      rw [hLine]
      omega
    rw [if_pos hPos, if_pos hLt]
    constructor
    · have hIdx : (s.curpos - 1).toNat = l.cursor - 1 := by omega
      rw [EditLine.text_backspace (by omega)]
      simp only [hIdx, hLine]
    · rw [EditLine.cursor_backspace]
      show s.curpos - 1 = _
      omega
  · have hZero : l.before = [] := List.length_eq_zero_iff.1 (by
      show l.cursor = 0
      omega)
    rw [if_neg hPos]
    refine ⟨?_, ?_⟩
    · show s.mxCurrentCommandLine = _
      rw [hLine]
      simp [EditLine.apply, EditLine.text, hZero]
    · rw [EditLine.cursor_backspace]
      show s.curpos = _
      omega

theorem edits_onDelete (h : s.Sound) (hEdits : s.Edits l) :
    s.onDelete.session.Edits (l.apply .delete) := by
  have hLine := hEdits.line
  have hCur := hEdits.curpos
  rw [onDelete_eq h.toBounded]
  split
  · have hIdx : s.curpos.toNat = l.cursor := by omega
    refine ⟨?_, hCur.trans (congrArg Nat.cast (EditLine.cursor_delete l).symm)⟩
    rw [EditLine.text_delete]
    simp only [hIdx, hLine]
  · rename_i hNot
    refine ⟨?_, hCur.trans (congrArg Nat.cast (EditLine.cursor_delete l).symm)⟩
    rw [EditLine.text_delete, List.eraseIdx_of_length_le (by rw [hLine] at hNot; omega)]
    exact hLine

theorem edits_onLeft (hEdits : s.Edits l) : s.onLeft.session.Edits (l.apply .left) := by
  have hLine := hEdits.line
  have hCur := hEdits.curpos
  obtain ⟨sent, hLeft⟩ := onLeft_eq s
  rw [hLeft]
  split
  · refine ⟨hLine.trans l.text_left.symm, ?_⟩
    rw [EditLine.cursor_left]
    show s.curpos - 1 = _
    omega
  · refine ⟨hLine.trans l.text_left.symm, ?_⟩
    rw [EditLine.cursor_left]
    show s.curpos = _
    omega

theorem edits_onRight (h : s.Sound) (hEdits : s.Edits l) :
    s.onRight.session.Edits (l.apply .right) := by
  have hLine := hEdits.line
  have hCur := hEdits.curpos
  obtain ⟨sent, hRight⟩ := onRight_eq h.toBounded
  rw [hRight]
  split
  · rename_i hLt
    refine ⟨hLine.trans l.text_right.symm, ?_⟩
    rw [EditLine.cursor_right (by rw [hLine] at hLt; omega)]
    show s.curpos + 1 = _
    omega
  · rename_i hNot
    have hEnd : l.behind = [] := by
      have hLe := l.cursor_le
      have hDrop : l.text.drop l.cursor = [] :=
        List.drop_eq_nil_of_le (by rw [hLine] at hNot; omega)
      rwa [EditLine.drop_cursor] at hDrop
    refine ⟨hLine.trans l.text_right.symm, ?_⟩
    show s.curpos = _
    rw [hCur]
    simp [EditLine.apply, EditLine.cursor, hEnd]

theorem edits_onText (h : s.Sound) (hRoom : s.mxCurrentCommandLine.length + 1 < 2 ^ 31)
    (hEdits : s.Edits l) (c : UInt8) :
    (s.onText c).session.Edits
      (l.apply (if s.insertMode then .insert c else .overtype c)) := by
  have hLe := l.cursor_le
  have hLine := hEdits.line
  have hCur := hEdits.curpos
  have hPos : s.textPos = l.cursor := by
    rw [textPos, hLine, hCur]
    omega
  have hAt : s.textPos.toNat = l.cursor := by omega
  rw [onText_eq h.toBounded hRoom, hAt, hPos, lineWith, hLine]
  split
  · refine ⟨?_, ?_⟩
    · rw [EditLine.text_insert]
    · simp
  · refine ⟨?_, ?_⟩
    · rw [EditLine.text_overtype]
    · simp

theorem edits_onTab (sv : Service) (h : s.Sound)
    (hRoom : s.curpos + (s.completion sv).length < 2 ^ 31) (hEdits : s.Edits l) :
    (s.onTab sv).session.Edits (l.apply (.append (s.completion sv))) := by
  rw [onTab_eq sv h.toBounded hRoom]
  refine ⟨?_, ?_⟩
  · rw [EditLine.text_append, ← hEdits.line]
  · rw [EditLine.cursor_append, hEdits.curpos]
    simp

theorem edits_onHistory (sv : Service) (h : s.Sound) {next : Int}
    (hNext : next = 1 ∨ next = -1) (hEdits : s.Edits l) :
    (s.onHistory sv next).session.Edits (l.apply (s.recalled next)) := by
  rw [onHistory, recalled]
  by_cases hNil : s.mxCommandHistory = []
  · rw [if_pos hNil, if_pos hNil]
    exact hEdits
  by_cases hIn : s.InHistory next
  · obtain ⟨hNonneg, hLt⟩ := hIn.bounds h.toRecorded hNext
    have hAt : sizeT (s.historyIdx next) < s.mxCommandHistory.length := by
      have hSize := sizeT_le hNonneg
      omega
    obtain ⟨line, hLine⟩ : ∃ line, s.mxCommandHistory[sizeT (s.historyIdx next)]? = some line :=
      ⟨_, List.getElem?_eq_getElem hAt⟩
    have hCur : int32 line.length = line.length :=
      int32_nat (h.lines_lt line (List.mem_of_getElem? hLine))
    rw [if_neg hNil, if_neg hNil, if_pos hIn, if_pos hIn, hLine]
    simp only [hCur]
    exact ⟨(EditLine.text_load l line).symm,
      congrArg Nat.cast (EditLine.cursor_load l line).symm⟩
  · rw [if_neg hNil, if_neg hNil, if_neg hIn, if_neg hIn]
    refine ⟨hEdits.line.trans (EditLine.text_start l).symm, ?_⟩
    rw [EditLine.cursor_start]
    rfl

theorem edits_onChar (sv : Service) (h : s.Sound) {c : UInt8} (hNot : c ≠ 13)
    (hRoom : c ∉ [3, 9, 13] → s.mxCurrentCommandLine.length + 1 < 2 ^ 31) (hEdits : s.Edits l) :
    (s.onChar sv c).session.Edits (l.apply (s.editChar c)) := by
  rw [onChar, editChar]
  by_cases hCtrlC : c = 3
  · rw [if_pos hCtrlC, if_pos (Or.inl hCtrlC)]
    exact hEdits
  by_cases hTab : c = 9
  · rw [if_neg hCtrlC, if_pos hTab, if_pos (Or.inr hTab)]
    exact hEdits
  · simp only [hCtrlC, hTab, hNot, or_self, if_false]
    exact edits_onText h (hRoom (by simp [hCtrlC, hTab, hNot])) hEdits c

/--
**Keys as edits.** A key that is not Enter does to the line and the cursor of
the session what the edit does to a line with its cursor.
-/
theorem onKey_edits (sv : Service) (h : s.Sound) {out : Bytes} (hRoom : s.HasRoom sv out)
    (hNot : TKey.of out = none → out.head? ≠ some 13) (hEdits : s.Edits l) :
    (s.onKey sv out).session.Edits (l.apply (s.editKey sv out)) := by
  unfold onKey editKey
  cases hKey : TKey.of out with
  | none =>
      cases out with
      | nil => exact hEdits
      | cons c rest =>
          exact edits_onChar sv h (fun hc => hNot hKey (by rw [hc]; rfl))
            (hRoom.text hKey c rfl) hEdits
  | some k =>
      cases k with
      | insert => exact ⟨hEdits.line, hEdits.curpos⟩
      | bs1 => exact edits_onTkeyBs h hEdits
      | bs2 => exact edits_onTkeyBs h hEdits
      | delete => exact edits_onDelete h hEdits
      | left => exact edits_onLeft hEdits
      | right => exact edits_onRight h hEdits
      | up => exact edits_onHistory sv h (Or.inr rfl) hEdits
      | down => exact edits_onHistory sv h (Or.inl rfl) hEdits
      | tab => exact edits_onTab sv h (hRoom.tab hKey).1 hEdits
      | _ => exact hEdits

/-! ## Where the cursor leaves the line -/

/-- Enter comes only with the cursor at the start. -/
def EntersAtStart (s : Session) (out : Bytes) : Prop :=
  TKey.of out = none → out.head? = some 13 → s.curpos = 0

instance decidableEntersAtStart (s : Session) (out : Bytes) :
    Decidable (s.EntersAtStart out) :=
  inferInstanceAs (Decidable (_ → _ → _))

/-- Behind Enter the cursor is where it was, in an empty line. -/
theorem inside_processCommand (sv : Service) (s : Session) :
    (sv.processCommand s).session.Inside ↔ s.curpos = 0 := by
  obtain ⟨⟨d, hSession⟩, -⟩ := sv.processCommand_spec s
  rw [hSession]
  constructor
  · rintro ⟨hNonneg, hLe⟩
    exact le_antisymm hLe hNonneg
  · exact fun hZero => ⟨hZero.ge, hZero.le⟩

theorem inside_onKey (sv : Service) (h : s.Sound) {out : Bytes} (hRoom : s.HasRoom sv out)
    (hInside : s.Inside) : (s.onKey sv out).session.Inside ↔ s.EntersAtStart out := by
  by_cases hEnter : TKey.of out = none ∧ out.head? = some 13
  · obtain ⟨hKey, hHead⟩ := hEnter
    cases out with
    | nil => cases hHead
    | cons c rest =>
        obtain rfl : c = 13 := Option.some.inj hHead
        have hTurn : s.onKey sv (13 :: rest) = sv.processCommand s := by
          rw [onKey, hKey]
          rfl
        rw [hTurn, inside_processCommand]
        exact ⟨fun hZero _ _ => hZero, fun hZero => hZero hKey hHead⟩
  · obtain ⟨l, hEdits⟩ := inside_iff.1 hInside
    have hNot : TKey.of out = none → out.head? ≠ some 13 := fun hKey hHead => hEnter ⟨hKey, hHead⟩
    refine iff_of_true ?_ fun hKey hHead => absurd hHead (hNot hKey)
    exact inside_iff.2 ⟨_, onKey_edits sv h hRoom hNot hEdits⟩

/-! ## What is shown -/

/-- What Up and Down wrote last is the line that Enter would run; or they did
nothing, and the line is the old one. -/
def Shows (s : Session) (t : Turn) : Prop :=
  t.sent.getLast? = some (.write t.session.mxCurrentCommandLine) ∨
    t.sent = [] ∧ t.session.mxCurrentCommandLine = s.mxCurrentCommandLine

instance decidableShows (s : Session) (t : Turn) : Decidable (s.Shows t) :=
  inferInstanceAs (Decidable (_ ∨ _))

/-- There is no history, or a line of it, or nothing that could be shown. -/
def Recalls (s : Session) (next : Int) : Prop :=
  s.mxCommandHistory = [] ∨ s.InHistory next ∨ s.mxCurrentCommandLine = []

instance decidableRecalls (s : Session) (next : Int) : Decidable (s.Recalls next) :=
  inferInstanceAs (Decidable (_ ∨ _))

theorem shows_iff (sv : Service) (h : s.Sound) {next : Int} (hNext : next = 1 ∨ next = -1)
    (hInt : -2 ^ 31 ≤ s.commandHistoryPos + next) :
    s.Shows (s.onHistory sv next) ↔ s.Recalls next := by
  rcases onHistory_cases sv h.toRecorded hNext hInt with
    ⟨hNil, hQuiet⟩ | ⟨line, -, hIn, -, -, hShow⟩ | ⟨hSome, hOut, hShow⟩
  · rw [hQuiet]
    exact iff_of_true (Or.inr ⟨rfl, rfl⟩) (Or.inl hNil)
  · rw [hShow]
    exact iff_of_true (Or.inl rfl) (Or.inr (Or.inl hIn))
  · rw [hShow]
    have hLast : ({ s with curpos := 0 }.showCommand sv []).sent.getLast? = some (.write []) := rfl
    rw [Shows, Recalls, hLast]
    constructor
    · rintro (hLine | ⟨hNone, -⟩)
      · exact Or.inr (Or.inr (Sent.write.inj (Option.some.inj hLine)).symm)
      · cases hNone
    · rintro (hNil | hIn | hLine)
      · exact absurd hNil hSome
      · exact absurd hIn hOut
      · exact Or.inl (congrArg (fun line => some (Sent.write line)) hLine.symm)

end Session

/-! ## Runs -/

/-- What is left of a chunk, and the session it comes to. -/
def Console.rest (c : Console) (a : Service × Bytes) : Session × Bytes :=
  c.session.negotiate a.2

/-- Up or Down shows the line that Enter would run. -/
def ShowsLine (c : Console) (a : Service × Bytes) : Prop :=
  TKey.of (c.rest a).2 = some .up ∨ TKey.of (c.rest a).2 = some .down →
    c.session.Shows (c.session.onStreamRead a.1 a.2)

instance decidableShowsLine (c : Console) (a : Service × Bytes) : Decidable (ShowsLine c a) :=
  inferInstanceAs (Decidable (_ → _))

/-- Enter comes only with the cursor at the start of the line, and Up and Down
only within the history, or where the line or the history is empty. -/
@[mk_iff]
structure Orderly (c : Console) (a : Service × Bytes) : Prop where
  enter : (c.rest a).1.EntersAtStart (c.rest a).2
  up : TKey.of (c.rest a).2 = some .up → (c.rest a).1.Recalls (-1)
  down : TKey.of (c.rest a).2 = some .down → (c.rest a).1.Recalls 1

instance decidableOrderly (c : Console) (a : Service × Bytes) : Decidable (Orderly c a) :=
  decidable_of_iff _ (orderly_iff c a).symm

/-- The telnet commands of a chunk touch neither the line nor the cursor. -/
theorem edits_rest {c : Console} {l : EditLine UInt8} (h : c.session.Edits l)
    (a : Service × Bytes) : (c.rest a).1.Edits l := by
  obtain ⟨width, height, hWindow⟩ := Session.negotiate_window c.session a.2
  rw [Console.rest, hWindow]
  exact ⟨h.line, h.curpos⟩

theorem shows_rest (c : Console) (a : Service × Bytes) (t : Turn) :
    c.session.Shows t ↔ (c.rest a).1.Shows t := by
  obtain ⟨width, height, hWindow⟩ := Session.negotiate_window c.session a.2
  rw [Console.rest, hWindow]
  exact Iff.rfl

/-- Up and Down of one chunk. -/
theorem showsLine_iff {c : Console} {a : Service × Bytes} (h : c.session.Sound)
    (hRoom : Room c a) :
    ShowsLine c a ↔ (TKey.of (c.rest a).2 = some .up → (c.rest a).1.Recalls (-1)) ∧
      (TKey.of (c.rest a).2 = some .down → (c.rest a).1.Recalls 1) := by
  have hSound : (c.rest a).1.Sound := h.negotiate a.2
  have hPos := hSound.pos_int
  have hTurn : c.session.onStreamRead a.1 a.2 = (c.rest a).1.onKey a.1 (c.rest a).2 := rfl
  rw [ShowsLine, shows_rest c a, hTurn]
  by_cases hUp : TKey.of (c.rest a).2 = some .up
  · have hRoomUp := hRoom.up hUp
    have hKey : (c.rest a).1.onKey a.1 (c.rest a).2 = (c.rest a).1.onHistory a.1 (-1) := by
      simp only [Session.onKey, hUp]
    have hLt : -2 ^ 31 < (c.rest a).1.commandHistoryPos := hRoomUp
    have hInt : -2 ^ 31 ≤ (c.rest a).1.commandHistoryPos + -1 := by omega
    have hShows := Session.shows_iff a.1 hSound (Or.inr rfl) hInt
    simp [hUp, hKey, hShows]
  by_cases hDown : TKey.of (c.rest a).2 = some .down
  · have hKey : (c.rest a).1.onKey a.1 (c.rest a).2 = (c.rest a).1.onHistory a.1 1 := by
      simp only [Session.onKey, hDown]
    have hInt : -2 ^ 31 ≤ (c.rest a).1.commandHistoryPos + 1 := by omega
    have hShows := Session.shows_iff a.1 hSound (Or.inl rfl) hInt
    simp [hDown, hKey, hShows]
  · simp [hUp, hDown]

/-- One chunk. -/
theorem orderly_step {c : Console} {a : Service × Bytes} (h : c.session.Sound)
    (hInside : c.session.Inside) (hRoom : Room c a) :
    (machine.apply c a).session.Inside ∧ ShowsLine c a ↔ Orderly c a := by
  obtain ⟨l, hEdits⟩ := Session.inside_iff.1 hInside
  have hRest : (c.rest a).1.Inside := Session.inside_iff.2 ⟨l, edits_rest hEdits a⟩
  have hStep : (machine.apply c a).session.Inside ↔
      (c.rest a).1.EntersAtStart (c.rest a).2 :=
    Session.inside_onKey a.1 (h.negotiate a.2) hRoom hRest
  rw [hStep, showsLine_iff h hRoom, orderly_iff]

/--
**The edited line.** Along a run in which every chunk finds room the cursor is
in the line and Up and Down show the line that Enter would run, exactly when
every chunk is orderly.
-/
theorem edited_line_iff {c : Console} (h0 : machine.init c) {acts : List (Service × Bytes)}
    (hPath : (machine.guarded Room).Path c acts) :
    (machine.guarded Room).Along (fun c => c.session.Inside) c acts ∧
        ((machine.guarded Room).guarded ShowsLine).Path c acts ↔
      ((machine.guarded Room).guarded Orderly).Path c acts := by
  obtain ⟨sv, rfl⟩ := h0
  refine Machine.along_and_path_guarded_iff (m := machine.guarded Room)
    (J := fun c => c.session.Sound) ?_ ?_ acts _ Session.sound_fresh
    ⟨Int.le_refl 0, Int.le_refl 0⟩ hPath
  · intro c a h hEn
    exact (sound_apply h hEn.2).1
  · intro c a h hInside hEn
    exact orderly_step h hInside hEn.2

/-- Text, Left to the start, Enter, and Up to the line again. -/
def careful : List (Service × Bytes) :=
  [(bare, [97]), (bare, TKey.left.code), (bare, [13]), (bare, TKey.up.code)]

theorem careful_edited_line :
    (machine.guarded Room).Along (fun c => c.session.Inside) (accepted bare) careful ∧
      ((machine.guarded Room).guarded ShowsLine).Path (accepted bare) careful :=
  (edited_line_iff ⟨bare, rfl⟩ (by decide)).2 (by decide)

/-- A character and Enter leave the cursor behind an empty line. And where a line
is recalled, Down shows an empty one, but Enter would run the first. -/
theorem editing_goes_wrong :
    (∃ c acts, machine.init c ∧ machine.Path c acts ∧ acts = [(bare, [97]), (bare, [13])] ∧
      (machine.exec c acts).session.mxCurrentCommandLine = [] ∧
      (machine.exec c acts).session.curpos = 1 ∧ ¬ (machine.exec c acts).session.Inside) ∧
    (∃ c acts a, machine.init c ∧ machine.Path c (acts ++ [a]) ∧
      acts = [(bare, [97]), (bare, TKey.left.code), (bare, [13]), (bare, TKey.up.code)] ∧
      a = (bare, TKey.down.code) ∧ ¬ ShowsLine (machine.exec c acts) a ∧
      (machine.exec c (acts ++ [a])).session.mxCurrentCommandLine = [97]) := by
  refine ⟨⟨accepted bare, _, ⟨bare, rfl⟩, ?_, rfl, by decide, by decide, by decide⟩,
    accepted bare, _, _, ⟨bare, rfl⟩, ?_, rfl, rfl, by decide, by decide⟩
  · decide
  · decide

end Megatron.Telnet
