import Megatron.Telnet.Keys

/-!
# What a telnet client can make fail

The window width comes from the client, and Left and Right take the cursor
modulo it.  A parameter type may be registered with a pattern that does not
compile; the command that has such a parameter throws when its words are
entered.  Nothing else fails, in any order of chunks, as long as the line, the
cursor and the place in the history stay within an `int`.

## Main results

* `onKey_spec` — one chunk within the bounds: the session stays within them,
  and exactly two things fail.
* `never_fails_iff` — a run never fails exactly when none of its steps does one
  of the two.
* `zero_width_fails` — a window of width 0.
-/

namespace Megatron.Telnet

open Megatron.Corelib (Bytes)
open Megatron.Lib

namespace Session

/-! ## Bounds -/

/-- The line, the cursor and the history are within the bounds of an `int`. -/
structure Sound (s : Session) : Prop extends Bounded s, Recorded s

/-- A key finds room: a completion in the line and in front of the cursor, Up in
the history, a character in the line. -/
@[mk_iff]
structure HasRoom (sv : Service) (s : Session) (out : Bytes) : Prop where
  tab : TKey.of out = some .tab → s.curpos + (s.completion sv).length < 2 ^ 31 ∧
    s.mxCurrentCommandLine.length + (s.completion sv).length < 2 ^ 31
  up : TKey.of out = some .up → -2 ^ 31 < s.commandHistoryPos
  text : TKey.of out = none →
    ∀ c ∈ out.head?, c ∉ [3, 9, 13] → s.mxCurrentCommandLine.length + 1 < 2 ^ 31

instance decidableHasRoom (sv : Service) (s : Session) (out : Bytes) :
    Decidable (s.HasRoom sv out) :=
  -- the first byte is looked at, not every byte
  letI : Decidable (∀ c ∈ out.head?, c ∉ [3, 9, 13] →
      s.mxCurrentCommandLine.length + 1 < 2 ^ 31) := Option.decidableForallMem _
  decidable_of_iff _ (hasRoom_iff sv s out).symm

/-- Left and Right do not move through a window without a width, and Enter does
not come to a pattern that does not compile. -/
@[mk_iff]
structure Harmless (sv : Service) (s : Session) (out : Bytes) : Prop where
  left : TKey.of out = some .left → 0 < s.curpos → s.width ≠ 0
  right : TKey.of out = some .right → s.curpos < s.mxCurrentCommandLine.length → s.width ≠ 0
  enter : TKey.of out = none → out.head? = some 13 → ¬ sv.EnterStuck s

instance decidableHarmless (sv : Service) (s : Session) (out : Bytes) :
    Decidable (s.Harmless sv out) :=
  decidable_of_iff _ (harmless_iff sv s out).symm

variable {s : Session}

theorem sound_fresh : Session.fresh.Sound where
  curpos_nonneg := by decide
  curpos_lt := by decide
  line_lt := by decide
  lines_lt := by simp [Session.fresh]
  pos_ge := by decide
  pos_le := by decide
  pos_int := by decide

/-! ## Telnet commands -/

/-- The telnet commands change nothing but the window. -/
theorem takeCommand_window {s' : Session} {chars rest : Bytes}
    (h : s.takeCommand chars = some (s', rest)) :
    ∃ width height, s' = { s with width := width, height := height } := by
  have hSame : ∃ width height, s = { s with width := width, height := height } := ⟨_, _, rfl⟩
  cases chars with
  | nil => simp [takeCommand] at h
  | cons cmd1 chars =>
      simp only [takeCommand] at h
      split at h
      · cases h
      · split at h
        · obtain ⟨rfl, -⟩ := Prod.mk.inj (Option.some.inj h)
          exact hSame
        · split at h
          · obtain ⟨rfl, -⟩ := Prod.mk.inj (Option.some.inj h)
            exact hSame
          · split at h
            · rename_i chars _ _
              cases chars with
              | nil =>
                  obtain ⟨rfl, -⟩ := Prod.mk.inj (Option.some.inj h)
                  exact hSame
              | cons cmd3 chars =>
                  simp only [subnegotiation] at h
                  split at h
                  · obtain ⟨rfl, -⟩ := Prod.mk.inj (Option.some.inj h)
                    exact hSame
                  · split at h
                    · obtain ⟨rfl, -⟩ := Prod.mk.inj (Option.some.inj h)
                      exact ⟨_, _, rfl⟩
                    · obtain ⟨rfl, -⟩ := Prod.mk.inj (Option.some.inj h)
                      exact hSame
            · obtain ⟨rfl, -⟩ := Prod.mk.inj (Option.some.inj h)
              exact hSame

theorem negotiate_window (s : Session) (chars : Bytes) :
    ∃ width height, (s.negotiate chars).1 = { s with width := width, height := height } := by
  rw [negotiate]
  generalize chars.length = fuel
  induction fuel generalizing s chars with
  | zero => exact ⟨_, _, rfl⟩
  | succ fuel ih =>
      rw [negotiateFrom]
      cases hTake : s.takeCommand chars with
      | none => exact ⟨_, _, rfl⟩
      | some next =>
          obtain ⟨s', rest⟩ := next
          obtain ⟨width, height, rfl⟩ := takeCommand_window hTake
          exact ih _ rest

theorem Sound.negotiate (h : s.Sound) (chars : Bytes) : (s.negotiate chars).1.Sound := by
  obtain ⟨width, height, hWindow⟩ := negotiate_window s chars
  rw [hWindow]
  exact ⟨⟨h.curpos_nonneg, h.curpos_lt, h.line_lt⟩, ⟨h.lines_lt, h.pos_ge, h.pos_le, h.pos_int⟩⟩

/-! ## Keys -/

/-- A handler that leaves the history as it is. -/
theorem Sound.edit (h : s.Sound) {curpos : Int} {line : Bytes} {insertMode : Bool}
    (h0 : 0 ≤ curpos) (hCur : curpos < 2 ^ 31) (hLine : line.length < 2 ^ 31) :
    ({ s with
        curpos := curpos
        mxCurrentCommandLine := line
        insertMode := insertMode } : Session).Sound :=
  ⟨⟨h0, hCur, hLine⟩, ⟨h.lines_lt, h.pos_ge, h.pos_le, h.pos_int⟩⟩

theorem sound_onTkeyBs (h : s.Sound) :
    s.onTkeyBs.session.Sound ∧ s.onTkeyBs.fault = none := by
  have hCur := h.curpos_lt
  have hLine := h.line_lt
  rw [onTkeyBs_eq h.toBounded]
  split
  · split
    · refine ⟨h.edit (by omega) (by omega) ?_, rfl⟩
      exact (List.length_eraseIdx_le _ _).trans_lt h.line_lt
    · exact ⟨h.edit (by omega) (by omega) hLine, rfl⟩
  · exact ⟨h, rfl⟩

theorem sound_onDelete (h : s.Sound) :
    s.onDelete.session.Sound ∧ s.onDelete.fault = none := by
  rw [onDelete_eq h.toBounded]
  split
  · refine ⟨h.edit h.curpos_nonneg h.curpos_lt ?_, rfl⟩
    exact (List.length_eraseIdx_le _ _).trans_lt h.line_lt
  · exact ⟨h, rfl⟩

theorem sound_onLeft (h : s.Sound) :
    s.onLeft.session.Sound ∧ (s.onLeft.fault = none ↔ (0 < s.curpos → s.width ≠ 0)) := by
  have hCur := h.curpos_lt
  obtain ⟨sent, hLeft⟩ := onLeft_eq s
  rw [hLeft]
  split
  · rename_i hPos
    exact ⟨h.edit (by omega) (by omega) h.line_lt, by simp [hPos]⟩
  · rename_i hNot
    exact ⟨h, by simp [quiet, hNot]⟩

theorem sound_onRight (h : s.Sound) :
    s.onRight.session.Sound ∧
      (s.onRight.fault = none ↔
        (s.curpos < s.mxCurrentCommandLine.length → s.width ≠ 0)) := by
  have hNonneg := h.curpos_nonneg
  have hLine := h.line_lt
  obtain ⟨sent, hRight⟩ := onRight_eq h.toBounded
  rw [hRight]
  split
  · rename_i hLt
    exact ⟨h.edit (by omega) (by omega) hLine, by simp [hLt]⟩
  · rename_i hNot
    exact ⟨h, by simp [quiet, hNot]⟩

theorem sound_onHistory (sv : Service) (h : s.Sound) {next : Int} (hNext : next = 1 ∨ next = -1)
    (hInt : -2 ^ 31 ≤ s.commandHistoryPos + next) :
    (s.onHistory sv next).session.Sound ∧ (s.onHistory sv next).fault = none := by
  rcases onHistory_cases sv h.toRecorded hNext hInt with
    ⟨-, hQuiet⟩ | ⟨line, hMem, -, hNeg, hGe, hShow⟩ | ⟨-, -, hShow⟩
  · rw [hQuiet]
    exact ⟨h, rfl⟩
  · rw [hShow]
    have hLine := h.lines_lt line hMem
    refine ⟨⟨⟨?_, ?_, hLine⟩, ⟨h.lines_lt, hGe, hNeg.le, hInt⟩⟩, rfl⟩
    · exact Int.natCast_nonneg line.length
    · show (line.length : Int) < 2 ^ 31
      omega
  · rw [hShow]
    exact ⟨h.edit (by omega) (by omega) h.line_lt, rfl⟩

theorem sound_onTab (sv : Service) (h : s.Sound)
    (hCur : s.curpos + (s.completion sv).length < 2 ^ 31)
    (hLine : s.mxCurrentCommandLine.length + (s.completion sv).length < 2 ^ 31) :
    (s.onTab sv).session.Sound ∧ (s.onTab sv).fault = none := by
  have hNonneg := h.curpos_nonneg
  rw [onTab_eq sv h.toBounded hCur]
  refine ⟨h.edit (by omega) hCur ?_, rfl⟩
  rw [List.length_append]
  exact hLine

theorem sound_onText (h : s.Sound) (hRoom : s.mxCurrentCommandLine.length + 1 < 2 ^ 31)
    (c : UInt8) : (s.onText c).session.Sound ∧ (s.onText c).fault = none := by
  have hNonneg := h.curpos_nonneg
  have hPos : 0 ≤ s.textPos ∧ s.textPos ≤ s.mxCurrentCommandLine.length := by
    rw [textPos]
    omega
  have hIn : s.textPos.toNat ≤ s.mxCurrentCommandLine.length := by omega
  have hLen := length_lineWith c hIn
  rw [onText_eq h.toBounded hRoom]
  exact ⟨h.edit (by omega) (by omega) (by omega), rfl⟩

/-- The line that was entered is a line of the history from now on. -/
theorem sound_processCommand (sv : Service) (h : s.Sound) :
    (sv.processCommand s).session.Sound := by
  obtain ⟨⟨d, hSession⟩, -⟩ := sv.processCommand_spec s
  rw [hSession]
  refine ⟨⟨h.curpos_nonneg, h.curpos_lt, Nat.two_pow_pos 31⟩,
    ⟨?_, ?_, Int.le_refl 0, (by decide : (-2 ^ 31 : Int) ≤ 0)⟩⟩
  · intro line hMem
    rcases List.mem_append.1 hMem with hMem | hMem
    · exact h.lines_lt line hMem
    · rw [List.mem_singleton.1 hMem]
      exact h.line_lt
  · show -((s.mxCommandHistory ++ [s.mxCurrentCommandLine]).length : Int) ≤ 0
    omega

theorem onChar_spec (sv : Service) (h : s.Sound) {c : UInt8}
    (hRoom : c ∉ [3, 9, 13] → s.mxCurrentCommandLine.length + 1 < 2 ^ 31) :
    (s.onChar sv c).session.Sound ∧
      ((s.onChar sv c).fault = none ↔ (c = 13 → ¬ sv.EnterStuck s)) := by
  rw [onChar]
  by_cases hCtrlC : c = 3
  · subst hCtrlC
    exact ⟨h, by simp⟩
  by_cases hTab : c = 9
  · subst hTab
    exact ⟨h, by simp [quiet]⟩
  by_cases hEnter : c = 13
  · subst hEnter
    exact ⟨sound_processCommand sv h, by simp [(sv.processCommand_spec s).2]⟩
  · simp only [hCtrlC, hTab, hEnter, if_false, false_imp_iff, iff_true]
    exact sound_onText h (hRoom (by simp [hCtrlC, hTab, hEnter])) c

/--
**One key.** A session within the bounds stays within them where there is room,
and a key fails exactly where it is not harmless.
-/
theorem onKey_spec (sv : Service) (h : s.Sound) {out : Bytes} (hRoom : s.HasRoom sv out) :
    (s.onKey sv out).session.Sound ∧
      ((s.onKey sv out).fault = none ↔ s.Harmless sv out) := by
  rw [harmless_iff]
  unfold onKey
  cases hKey : TKey.of out with
  | none =>
      cases out with
      | nil => exact ⟨h, by simp [quiet]⟩
      | cons c rest => simpa using onChar_spec sv h (hRoom.text hKey c rfl)
  | some k =>
      have hPos := h.pos_int
      cases k with
      | insert => exact ⟨h.edit h.curpos_nonneg h.curpos_lt h.line_lt, by simp [onInsert]⟩
      | bs1 => simpa using sound_onTkeyBs h
      | bs2 => simpa using sound_onTkeyBs h
      | delete => simpa using sound_onDelete h
      | left => simpa using sound_onLeft h
      | right => simpa using sound_onRight h
      | up =>
          have hUp := hRoom.up hKey
          simpa using sound_onHistory sv h (Or.inr rfl) (by omega)
      | down => simpa using sound_onHistory sv h (Or.inl rfl) (by omega)
      | tab =>
          have hTab := hRoom.tab hKey
          simpa using sound_onTab sv h hTab.1 hTab.2
      | _ => exact ⟨h, by simp [quiet]⟩

end Session

/-! ## Runs -/

/-- What is left of the chunk finds room in the session. -/
def Room (c : Console) (a : Service × Bytes) : Prop :=
  (c.session.negotiate a.2).1.HasRoom a.1 (c.session.negotiate a.2).2

/-- What is left of the chunk is harmless in the window that its telnet commands
leave. -/
def Harmless (c : Console) (a : Service × Bytes) : Prop :=
  (c.session.negotiate a.2).1.Harmless a.1 (c.session.negotiate a.2).2

instance decidableRoom (c : Console) (a : Service × Bytes) : Decidable (Room c a) :=
  inferInstanceAs (Decidable (Session.HasRoom _ _ _))

instance decidableHarmless (c : Console) (a : Service × Bytes) : Decidable (Harmless c a) :=
  inferInstanceAs (Decidable (Session.Harmless _ _ _))

/-- One chunk. -/
theorem sound_apply {c : Console} {a : Service × Bytes} (h : c.session.Sound)
    (hRoom : Room c a) :
    (machine.apply c a).session.Sound ∧
      ((machine.apply c a).fault = none ↔ Harmless c a) :=
  Session.onKey_spec a.1 (h.negotiate a.2) hRoom

/--
**A session that never fails.** A run in which every chunk finds room never
fails exactly when every chunk is harmless.
-/
theorem never_fails_iff {c : Console} (h0 : machine.init c) {acts : List (Service × Bytes)}
    (hPath : (machine.guarded Room).Path c acts) :
    (machine.guarded Room).Along (fun c => c.fault = none) c acts ↔
      ((machine.guarded Room).guarded Harmless).Path c acts := by
  obtain ⟨sv, rfl⟩ := h0
  refine Machine.along_iff_path_guarded (m := machine.guarded Room)
    (J := fun c => c.session.Sound) ?_ ?_ acts _ Session.sound_fresh rfl hPath
  · intro c a h hEn
    exact (sound_apply h hEn.2).1
  · intro c a h _ hEn
    exact (sound_apply h hEn.2).2

/-! ## A window without a width -/

/-- A service without commands, at a C library that takes no pattern. -/
def bare : Service where
  cmdEntries :=
    { node := fun _ => ⟨[], ∅, ∅⟩
      types := ∅
      registered := fun _ _ hc => absurd hc List.not_mem_nil }
  mDeviceName := []
  regcomp _ := .error []

/-- A session that has just been accepted. -/
def accepted (sv : Service) : Console := ⟨(onAccepted sv).session, (onAccepted sv).sent, none⟩

/-- The window of a client, with the end of the subnegotiation. -/
def window (width height : UInt8) : Bytes :=
  [ArpaTelnet.IAC, ArpaTelnet.SB, ArpaTelnet.TELOPT_NAWS, 0, width, 0, height, ArpaTelnet.IAC,
    ArpaTelnet.SE]

/-- A window with a width, text, Left and Enter. -/
def plainInput : List (Service × Bytes) :=
  [(bare, window 120 40), (bare, [97]), (bare, TKey.left.code), (bare, [13])]

theorem plainInput_never_fails :
    (machine.guarded Room).Along (fun c => c.fault = none) (accepted bare) plainInput :=
  (never_fails_iff ⟨bare, rfl⟩ (by decide)).2 (by decide)

/-- The client has no width to tell, and goes one character back. -/
theorem zero_width_fails : ∃ c acts, machine.init c ∧ machine.Path c acts ∧
    acts = [(bare, window 0 0), (bare, [97]), (bare, TKey.left.code)] ∧
    (machine.exec c acts).fault = some .divideByZero :=
  ⟨accepted bare, _, ⟨bare, rfl⟩, by decide, rfl, by decide⟩

end Megatron.Telnet
