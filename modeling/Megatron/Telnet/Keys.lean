import Megatron.Telnet.Service

/-!
# What the keys do within the bounds of an `int`

Where the line and the cursor stay below 2^31 and the cursor is not negative,
no conversion changes a value, and every handler has a short equation.

## Main results

* `onText_eq`, `onTkeyBs_eq`, `onDelete_eq`, `onLeft_eq`, `onRight_eq`,
  `onTab_eq` — what a key makes of the line and the cursor.
* `onHistory_cases` — the three things that Up and Down do.
* `processCommand_spec` — what Enter does to the session, and when it throws.
* `findCommand_fails` — the search for a command throws exactly at a parameter
  whose pattern does not compile.
-/

namespace Megatron.Telnet

open Megatron.Corelib (Bytes)
open Megatron.Http (splitString strlower text)

/-! ## Conversions -/

theorem int32_eq {x : Int} (h0 : -2 ^ 31 ≤ x) (hLt : x < 2 ^ 31) : int32 x = x :=
  Int.bmod_eq_of_le (by omega) (by omega)

theorem int32_nat {n : Nat} (h : n < 2 ^ 31) : int32 (n : Int) = n :=
  int32_eq (by omega) (by omega)

theorem int32_bounds (x : Int) : -2 ^ 31 ≤ int32 x ∧ int32 x < 2 ^ 31 := by
  have hGe := Int.le_bmod (x := x) (m := 2 ^ 32) (by decide)
  have hLt := Int.bmod_lt (x := x) (m := 2 ^ 32) (by decide)
  rw [int32]
  omega

theorem sizeT_eq {x : Int} (h0 : 0 ≤ x) (hLt : x < 2 ^ 64) : sizeT x = x.toNat := by
  rw [sizeT, Int.emod_eq_of_lt h0 hLt]

theorem sizeT_le {x : Int} (h0 : 0 ≤ x) : (sizeT x : Int) ≤ x := by
  rw [sizeT]
  omega

theorem substr_eq {s : Bytes} {pos n : Nat} (h : pos ≤ s.length) :
    substr s pos n = some ((s.drop pos).take n) := if_pos h

namespace Session

/-- The cursor is not negative, and it and the size of the line fit into an `int`. -/
structure Bounded (s : Session) : Prop where
  curpos_nonneg : 0 ≤ s.curpos
  curpos_lt : s.curpos < 2 ^ 31
  line_lt : s.mxCurrentCommandLine.length < 2 ^ 31

variable {s : Session}

theorem Bounded.lineSize (h : s.Bounded) : s.lineSize = s.mxCurrentCommandLine.length :=
  int32_nat h.line_lt

/-! ## Cutting a character out -/

theorem withoutChar_eq {curpos : Int} (h0 : 0 ≤ curpos)
    (hLt : curpos < s.mxCurrentCommandLine.length) (hLine : s.mxCurrentCommandLine.length < 2 ^ 31) :
    s.withoutChar curpos = some (s.mxCurrentCommandLine.eraseIdx curpos.toNat) := by
  have hFront : sizeT curpos = curpos.toNat := sizeT_eq h0 (by omega)
  have hBack : sizeT (curpos + 1) = curpos.toNat + 1 := by
    rw [sizeT_eq (by omega) (by omega)]
    omega
  have hRest : sizeT (s.mxCurrentCommandLine.length - curpos - 1) =
      s.mxCurrentCommandLine.length - (curpos.toNat + 1) := by
    rw [sizeT_eq (by omega) (by omega)]
    omega
  simp only [withoutChar, hFront, hBack, hRest]
  rw [substr_eq (Nat.zero_le _), substr_eq (by omega)]
  rw [List.eraseIdx_eq_take_drop_succ]
  simp [List.take_of_length_le]

theorem onTkeyBs_eq (h : s.Bounded) :
    s.onTkeyBs =
      if 0 < s.curpos then
        if s.curpos - 1 < s.mxCurrentCommandLine.length then
          ⟨{ s with
              curpos := s.curpos - 1
              mxCurrentCommandLine := s.mxCurrentCommandLine.eraseIdx (s.curpos - 1).toNat },
            [.write (Vt100.cursorBackOne ++ Vt100.erase)], none⟩
        else { s with curpos := s.curpos - 1 }.quiet
      else s.quiet := by
  have hSize : ({ s with curpos := s.curpos - 1 } : Session).lineSize =
      s.mxCurrentCommandLine.length := h.lineSize
  rw [onTkeyBs]
  by_cases hPos : 0 < s.curpos
  · by_cases hLt : s.curpos - 1 < s.mxCurrentCommandLine.length
    · have hCut : ({ s with curpos := s.curpos - 1 } : Session).withoutChar (s.curpos - 1) =
          some (s.mxCurrentCommandLine.eraseIdx (s.curpos - 1).toNat) :=
        withoutChar_eq (by omega) hLt h.line_lt
      simp [hPos, hSize, hLt, hCut]
    · simp [hPos, hSize, hLt]
  · simp [hPos]

theorem onDelete_eq (h : s.Bounded) :
    s.onDelete =
      if s.curpos < s.mxCurrentCommandLine.length then
        ⟨{ s with
            mxCurrentCommandLine := s.mxCurrentCommandLine.eraseIdx s.curpos.toNat },
          [.write Vt100.erase], none⟩
      else s.quiet := by
  rw [onDelete, h.lineSize]
  split
  · rename_i hLt
    simp [withoutChar_eq h.curpos_nonneg hLt h.line_lt]
  · rfl

/-! ## Moving the cursor -/

/-- Where a width of 0 makes the modulus fail. -/
def modFault (s : Session) : Option Fault := if s.width = 0 then some .divideByZero else none

@[simp] theorem modFault_eq_none : s.modFault = none ↔ s.width ≠ 0 := by
  by_cases h : s.width = 0 <;> simp [modFault, h]

/-- The cursor has moved by then. -/
theorem onLeft_eq (s : Session) :
    ∃ sent, s.onLeft =
      if 0 < s.curpos then ⟨{ s with curpos := s.curpos - 1 }, sent, s.modFault⟩
      else s.quiet := by
  rw [onLeft, modFault]
  by_cases hPos : 0 < s.curpos
  · by_cases hWidth : s.width = 0
    · exact ⟨[], by simp [hPos, hWidth]⟩
    by_cases hMod : s.curpos.tmod s.width = 0
    · simp only [hPos, hWidth, hMod, if_true, if_false]
      exact ⟨_, rfl⟩
    · simp only [hPos, hWidth, hMod, if_true, if_false]
      exact ⟨_, rfl⟩
  · exact ⟨[], by simp [hPos]⟩

theorem onRight_eq (h : s.Bounded) :
    ∃ sent, s.onRight =
      if s.curpos < s.mxCurrentCommandLine.length then
        ⟨{ s with curpos := s.curpos + 1 }, sent, s.modFault⟩
      else s.quiet := by
  have hNonneg := h.curpos_nonneg
  have hLine := h.line_lt
  rw [onRight, h.lineSize, modFault]
  by_cases hLt : s.curpos < s.mxCurrentCommandLine.length
  · rw [int32_eq (by omega) (by omega)]
    by_cases hWidth : s.width = 0
    · exact ⟨[], by simp [hLt, hWidth]⟩
    by_cases hMod : (s.curpos + 1).tmod s.width = 0
    · simp only [hLt, hWidth, hMod, if_true, if_false]
      exact ⟨_, rfl⟩
    · simp only [hLt, hWidth, hMod, if_true, if_false]
      exact ⟨_, rfl⟩
  · exact ⟨[], by simp [hLt]⟩

/-! ## Text -/

/-- Where a character goes: a cursor behind the line is put at its end. -/
def textPos (s : Session) : Int := min s.curpos s.mxCurrentCommandLine.length

theorem Bounded.clamped (h : s.Bounded) : s.clamped = { s with curpos := s.textPos } := by
  have hNonneg := h.curpos_nonneg
  rw [Session.clamped, h.lineSize, textPos]
  congr 1
  split <;> split <;> omega

/-- The line with a character at `pos`. -/
def lineWith (s : Session) (c : UInt8) (pos : Nat) : Bytes :=
  if s.insertMode then
    s.mxCurrentCommandLine.take pos ++ [c] ++ s.mxCurrentCommandLine.drop pos
  else if pos = s.mxCurrentCommandLine.length then s.mxCurrentCommandLine ++ [c]
  else s.mxCurrentCommandLine.set pos c

theorem length_lineWith {pos : Nat} (c : UInt8) (h : pos ≤ s.mxCurrentCommandLine.length) :
    pos + 1 ≤ (s.lineWith c pos).length ∧
      (s.lineWith c pos).length ≤ s.mxCurrentCommandLine.length + 1 := by
  rw [lineWith]
  split
  · simp only [List.length_append, List.length_take, List.length_drop, List.length_singleton]
    omega
  · split
    · simp only [List.length_append, List.length_singleton]
      omega
    · simp only [List.length_set]
      omega

theorem withInserted_eq (h0 : 0 ≤ s.curpos) (hLe : s.curpos ≤ s.mxCurrentCommandLine.length)
    (hLine : s.mxCurrentCommandLine.length < 2 ^ 31) (c : UInt8) :
    s.withInserted c = some (s.mxCurrentCommandLine.take s.curpos.toNat ++ [c] ++
      s.mxCurrentCommandLine.drop s.curpos.toNat) := by
  have hFront : sizeT s.curpos = s.curpos.toNat := sizeT_eq h0 (by omega)
  have hRest : sizeT (s.mxCurrentCommandLine.length - s.curpos) =
      s.mxCurrentCommandLine.length - s.curpos.toNat := by
    rw [sizeT_eq (by omega) (by omega)]
    omega
  simp only [withInserted, hFront, hRest]
  rw [substr_eq (Nat.zero_le _), substr_eq (by omega)]
  simp [List.take_of_length_le]

theorem withReplaced_eq (h : s.Bounded) (hLe : s.curpos ≤ s.mxCurrentCommandLine.length)
    (c : UInt8) :
    s.withReplaced c = some (if s.curpos.toNat = s.mxCurrentCommandLine.length then
      s.mxCurrentCommandLine ++ [c] else s.mxCurrentCommandLine.set s.curpos.toNat c) := by
  have hNonneg := h.curpos_nonneg
  have hLine := h.line_lt
  rw [withReplaced, h.lineSize, sizeT_eq hNonneg (by omega)]
  by_cases hEnd : s.curpos = s.mxCurrentCommandLine.length
  · simp [hEnd]
  · have hLt : s.curpos.toNat < s.mxCurrentCommandLine.length := by omega
    simp [hEnd, hLt, hLt.ne]

theorem onText_eq (h : s.Bounded) (hRoom : s.mxCurrentCommandLine.length + 1 < 2 ^ 31)
    (c : UInt8) :
    s.onText c =
      ⟨{ s with
          mxCurrentCommandLine := s.lineWith c s.textPos.toNat
          curpos := s.textPos + 1 }, [.write [c]], none⟩ := by
  have hNonneg := h.curpos_nonneg
  have hPos : 0 ≤ s.textPos ∧ s.textPos ≤ s.mxCurrentCommandLine.length := by
    rw [textPos]
    omega
  have hIn : ({ s with curpos := s.textPos } : Session).Bounded :=
    ⟨hPos.1, show s.textPos < 2 ^ 31 by omega, h.line_lt⟩
  have hLine : (if s.insertMode then ({ s with curpos := s.textPos } : Session).withInserted c
      else ({ s with curpos := s.textPos } : Session).withReplaced c) =
        some (s.lineWith c s.textPos.toNat) := by
    rw [lineWith]
    split
    · exact withInserted_eq (s := { s with curpos := s.textPos }) hPos.1 hPos.2 h.line_lt c
    · exact withReplaced_eq hIn hPos.2 c
  have hNext : int32 (s.textPos + 1) = s.textPos + 1 := int32_eq (by omega) (by omega)
  simp only [onText, h.clamped, hLine, hNext]

/-! ## Completion -/

theorem onTab_eq (sv : Service) (h : s.Bounded)
    (hRoom : s.curpos + (s.completion sv).length < 2 ^ 31) :
    s.onTab sv =
      ⟨{ s with
          mxCurrentCommandLine := s.mxCurrentCommandLine ++ s.completion sv
          curpos := s.curpos + (s.completion sv).length },
        [.write (s.completion sv)], none⟩ := by
  have hNonneg := h.curpos_nonneg
  have hCur : int32 (s.curpos + (s.completion sv).length) =
      s.curpos + (s.completion sv).length := int32_eq (by omega) hRoom
  simp only [onTab, hCur]

/-! ## History -/

/-- The lines of the history fit into an `int`, and the position in it counts
back from its end. -/
structure Recorded (s : Session) : Prop where
  lines_lt : ∀ line ∈ s.mxCommandHistory, line.length < 2 ^ 31
  pos_ge : -(s.mxCommandHistory.length : Int) ≤ s.commandHistoryPos
  pos_le : s.commandHistoryPos ≤ 0
  pos_int : -2 ^ 31 ≤ s.commandHistoryPos

/-- What the comparisons in `int` say of the index itself, however long the
history is. -/
theorem InHistory.bounds {next : Int} (hIn : s.InHistory next) (h : s.Recorded)
    (hNext : next = 1 ∨ next = -1) :
    0 ≤ s.historyIdx next ∧ s.historyIdx next < s.mxCommandHistory.length := by
  obtain ⟨hNonneg, hLt⟩ := hIn
  have hGe := h.pos_ge
  have hLe := h.pos_le
  have hIdx : s.historyIdx next = s.mxCommandHistory.length + s.commandHistoryPos + next := rfl
  have hSize := int32_bounds s.mxCommandHistory.length
  have hWrapIdx := Int.bmod_eq_self_sub_mul_bdiv (s.historyIdx next) (2 ^ 32)
  have hWrapSize := Int.bmod_eq_self_sub_mul_bdiv (s.mxCommandHistory.length : Int) (2 ^ 32)
  rw [← int32] at hWrapIdx hWrapSize
  constructor
  · by_contra hNeg
    have hMinus : s.historyIdx next = -1 := by omega
    rw [hMinus, int32_eq (by decide) (by decide)] at hNonneg
    omega
  · omega

/-- Up and Down do nothing without a history; else they go to a line of it, or
write an empty line and put the cursor to its start. -/
theorem onHistory_cases (sv : Service) (h : s.Recorded) {next : Int}
    (hNext : next = 1 ∨ next = -1) (hInt : -2 ^ 31 ≤ s.commandHistoryPos + next) :
    s.mxCommandHistory = [] ∧ s.onHistory sv next = s.quiet ∨
      (∃ line ∈ s.mxCommandHistory, s.InHistory next ∧
        s.commandHistoryPos + next < 0 ∧
        -(s.mxCommandHistory.length : Int) ≤ s.commandHistoryPos + next ∧
        s.onHistory sv next =
          { s with
            mxCurrentCommandLine := line
            curpos := line.length
            commandHistoryPos := s.commandHistoryPos + next }.showCommand sv line) ∨
      s.mxCommandHistory ≠ [] ∧ ¬ s.InHistory next ∧
        s.onHistory sv next = { s with curpos := 0 }.showCommand sv [] := by
  by_cases hNil : s.mxCommandHistory = []
  · exact Or.inl ⟨hNil, by rw [onHistory, if_pos hNil]⟩
  by_cases hIn : s.InHistory next
  · obtain ⟨hNonneg, hLt⟩ := hIn.bounds h hNext
    have hLe := h.pos_le
    have hIdx : s.historyIdx next = s.mxCommandHistory.length + s.commandHistoryPos + next := rfl
    have hAt : sizeT (s.historyIdx next) < s.mxCommandHistory.length := by
      have hSize := sizeT_le hNonneg
      omega
    have hMem := List.getElem_mem hAt
    refine Or.inr (Or.inl ⟨_, hMem, hIn, by omega, by omega, ?_⟩)
    rw [onHistory, if_neg hNil, if_pos hIn, List.getElem?_eq_getElem hAt]
    simp only [int32_nat (h.lines_lt _ hMem), int32_eq hInt (by omega)]
  · exact Or.inr (Or.inr ⟨hNil, hIn, by rw [onHistory, if_neg hNil, if_neg hIn]⟩)

end Session

/-! ## Commands -/

namespace Service

variable {sv : Service}

/-- The pattern of the type does not compile. -/
def Refused (sv : Service) (param : Bytes) : Prop :=
  ∃ regexp err, sv.cmdEntries.getRegex param = some regexp ∧
    sv.regcomp (cStr regexp) = .error err

/-- The parameters match up to one whose pattern does not compile. -/
inductive ParamsStuck (sv : Service) : List Bytes → List Bytes → Prop where
  | here {param exp params exps} (hRefused : sv.Refused param) :
      ParamsStuck sv (param :: params) (exp :: exps)
  | later {param exp params exps} (hMatch : sv.paramMatch param exp = .ok true)
      (hRest : ParamsStuck sv params exps) : ParamsStuck sv (param :: params) (exp :: exps)

/-- The search for the command that `tokens` call comes to a parameter whose
pattern does not compile. -/
inductive Stuck (sv : Service) (tokens : List Bytes) : List Command → Prop where
  | here {c cs} (hCalled : Called c tokens)
      (hParams : sv.ParamsStuck c.params (tokens.drop c.cmd.length)) : Stuck sv tokens (c :: cs)
  | other {c cs} (hNot : ¬ Called c tokens) (hRest : Stuck sv tokens cs) :
      Stuck sv tokens (c :: cs)
  | mismatch {c cs} (hCalled : Called c tokens)
      (hNot : sv.paramsMatch c.params (tokens.drop c.cmd.length) = .ok false)
      (hRest : Stuck sv tokens cs) : Stuck sv tokens (c :: cs)

theorem paramMatch_fails {param : Bytes} (hReg : (sv.cmdEntries.getRegex param).isSome)
    (exp : Bytes) : (∃ f, sv.paramMatch param exp = .error f) ↔ sv.Refused param := by
  obtain ⟨regexp, hRegexp⟩ := Option.isSome_iff_exists.1 hReg
  cases hComp : sv.regcomp (cStr regexp) with
  | error err => simp [paramMatch, Refused, hRegexp, hComp]
  | ok regexec =>
      cases hExec : regexec (cStr exp) <;> simp [paramMatch, Refused, hRegexp, hComp, hExec]

/-- The loop over the parameters throws exactly at such a pattern. -/
theorem paramsMatch_fails {params : List Bytes}
    (hReg : ∀ p ∈ params, (sv.cmdEntries.getRegex p).isSome) (exps : List Bytes) :
    (∃ f, sv.paramsMatch params exps = .error f) ↔ sv.ParamsStuck params exps := by
  induction params generalizing exps with
  | nil =>
      refine iff_of_false (by simp [paramsMatch]) ?_
      intro h
      cases h
  | cons param params ih =>
      cases exps with
      | nil =>
          refine iff_of_false (by simp [paramsMatch]) ?_
          intro h
          cases h
      | cons exp exps =>
          have hHead := paramMatch_fails (hReg param List.mem_cons_self) exp
          have hTail := ih (fun p hp => hReg p (List.mem_cons_of_mem _ hp)) exps
          cases hMatch : sv.paramMatch param exp with
          | error f =>
              refine iff_of_true ⟨f, by simp [paramsMatch, hMatch, bind, Except.bind]⟩ ?_
              exact .here (hHead.1 ⟨f, hMatch⟩)
          | ok found =>
              have hNot : ¬ sv.Refused param := fun hRefused => by
                obtain ⟨f, hf⟩ := hHead.2 hRefused
                rw [hMatch] at hf
                cases hf
              cases found with
              | true =>
                  have hStep : sv.paramsMatch (param :: params) (exp :: exps) =
                      sv.paramsMatch params exps := by
                    simp [paramsMatch, hMatch, bind, Except.bind]
                  rw [hStep, hTail]
                  constructor
                  · exact fun h => .later hMatch h
                  · intro h
                    cases h with
                    | here hRefused => exact absurd hRefused hNot
                    | later _ hRest => exact hRest
              | false =>
                  refine iff_of_false ?_ ?_
                  · simp [paramsMatch, hMatch, bind, Except.bind, pure, Except.pure]
                  · intro h
                    cases h with
                    | here hRefused => exact hNot hRefused
                    | later hTrue _ =>
                        rw [hMatch] at hTrue
                        cases hTrue

/-- The search for a command throws exactly where it gets stuck. -/
theorem findCommand_fails {tokens : List Bytes} {cs : List Command}
    (hReg : ∀ c ∈ cs, ∀ p ∈ c.params, (sv.cmdEntries.getRegex p).isSome) :
    (∃ f, sv.findCommand tokens cs = .error f) ↔ sv.Stuck tokens cs := by
  induction cs with
  | nil =>
      refine iff_of_false (by simp [findCommand]) ?_
      intro h
      cases h
  | cons c cs ih =>
      have hParams := paramsMatch_fails (hReg c List.mem_cons_self) (tokens.drop c.cmd.length)
      have hTail := ih fun c' hc' => hReg c' (List.mem_cons_of_mem _ hc')
      by_cases hCalled : Called c tokens
      · cases hMatch : sv.paramsMatch c.params (tokens.drop c.cmd.length) with
        | error f =>
            refine iff_of_true ⟨f, by simp [findCommand, hCalled, hMatch, bind, Except.bind]⟩ ?_
            exact .here hCalled (hParams.1 ⟨f, hMatch⟩)
        | ok found =>
            have hNot : ¬ sv.ParamsStuck c.params (tokens.drop c.cmd.length) := fun hStuck => by
              obtain ⟨f, hf⟩ := hParams.2 hStuck
              rw [hMatch] at hf
              cases hf
            cases found with
            | true =>
                refine iff_of_false ?_ ?_
                · simp [findCommand, hCalled, hMatch, bind, Except.bind, pure, Except.pure]
                · intro h
                  cases h with
                  | here _ hStuck => exact hNot hStuck
                  | other hOther _ => exact hOther hCalled
                  | mismatch _ hFalse _ =>
                      rw [hMatch] at hFalse
                      cases hFalse
            | false =>
                have hStep : sv.findCommand tokens (c :: cs) = sv.findCommand tokens cs := by
                  simp [findCommand, hCalled, hMatch, bind, Except.bind]
                rw [hStep, hTail]
                constructor
                · exact fun h => .mismatch hCalled hMatch h
                · intro h
                  cases h with
                  | here _ hStuck => exact absurd hStuck hNot
                  | other _ hRest => exact hRest
                  | mismatch _ _ hRest => exact hRest
      · have hStep : sv.findCommand tokens (c :: cs) = sv.findCommand tokens cs := by
          simp [findCommand, hCalled]
        rw [hStep, hTail]
        constructor
        · exact fun h => .other hCalled h
        · intro h
          cases h with
          | here hYes _ => exact absurd hYes hCalled
          | other _ hRest => exact hRest
          | mismatch hYes _ _ => exact absurd hYes hCalled

/-- The first word is no built-in command and no directory, so the commands of
the node are searched. -/
def Searches (sv : Service) (s : Session) (tokens : List Bytes) : Prop :=
  ∃ word ∈ tokens.head?, strlower word ∉ [text "quit", text "ls", text "help", text "cd"] ∧
    word ≠ text ".." ∧ word ∉ (sv.node s).children

theorem callCommand_spec (sv : Service) (s : Session) (cmd : Bytes) (tokens : List Bytes) :
    (sv.callCommand s cmd tokens).session = s ∧
      ((sv.callCommand s cmd tokens).fault = none ↔
        ¬ sv.Stuck tokens (sv.node s).commandList) := by
  have hReg : ∀ c ∈ (sv.node s).commandList, ∀ p ∈ c.params,
      (sv.cmdEntries.getRegex p).isSome :=
    fun _ hc _ hp => sv.cmdEntries.getRegex_isSome hc hp
  rw [← findCommand_fails hReg, callCommand]
  split
  · rename_i f hf
    exact ⟨rfl, by simp [hf]⟩
  · rename_i hf
    exact ⟨rfl, by simp [hf, invalid]⟩
  · rename_i c hf
    exact ⟨rfl, by simp [hf]⟩

/-- Only the node of the session is changed by a command, and what fails is the
search. -/
theorem execute_spec (sv : Service) (s : Session) (cmd : Bytes) (tokens : List Bytes) :
    (∃ d, (sv.execute s cmd tokens).session = { s with mxDefaultNode := d }) ∧
      ((sv.execute s cmd tokens).fault = none ↔
        ¬ (sv.Searches s tokens ∧ sv.Stuck tokens (sv.node s).commandList)) := by
  cases tokens with
  | nil => exact ⟨⟨_, rfl⟩, by simp [execute, invalid, Searches]⟩
  | cons word words =>
      by_cases hQuit : strlower word = text "quit"
      · simp only [execute, if_pos hQuit]
        exact ⟨⟨_, rfl⟩, by simp [Searches, hQuit]⟩
      by_cases hHelp : strlower word = text "ls" ∨ strlower word = text "help"
      · have hSession : ∀ tokens, (sv.help s tokens).session = s ∧
            (sv.help s tokens).fault = none := by
          intro tokens
          simp only [help]
          split
          · exact ⟨rfl, rfl⟩
          · split <;> exact ⟨rfl, rfl⟩
        have hNot : ¬ sv.Searches s (word :: words) := by
          rintro ⟨w, hw, hNone, -, -⟩
          obtain rfl : word = w := by simpa using hw
          simp only [List.mem_cons, not_or] at hNone
          rcases hHelp with hHelp | hHelp
          · exact hNone.2.1 hHelp
          · exact hNone.2.2.1 hHelp
        simp only [execute, if_neg hQuit, if_pos hHelp]
        exact ⟨⟨_, (hSession _).1⟩, by simp [(hSession _).2, hNot]⟩
      by_cases hCd : strlower word = text "cd"
      · simp only [execute, if_neg hQuit, if_neg hHelp, if_pos hCd]
        exact ⟨⟨_, rfl⟩, by simp [invalid, Searches, hCd]⟩
      by_cases hUp : word = text ".."
      · simp only [execute, if_neg hQuit, if_neg hHelp, if_neg hCd, if_pos hUp]
        exact ⟨⟨_, rfl⟩, by simp [Searches, hUp]⟩
      by_cases hDir : word ∈ (sv.node s).children
      · simp only [execute, if_neg hQuit, if_neg hHelp, if_neg hCd, if_neg hUp, if_pos hDir]
        exact ⟨⟨_, rfl⟩, by simp [Searches, hDir]⟩
      have hSearches : sv.Searches s (word :: words) := by
        refine ⟨word, rfl, ?_, hUp, hDir⟩
        simp only [List.mem_cons, List.not_mem_nil, or_false, not_or]
        exact ⟨hQuit, fun h => hHelp (Or.inl h), fun h => hHelp (Or.inr h), hCd⟩
      simp only [execute, if_neg hQuit, if_neg hHelp, if_neg hCd, if_neg hUp, if_neg hDir,
        hSearches, true_and]
      exact ⟨⟨_, (callCommand_spec sv s cmd _).1⟩, (callCommand_spec sv s cmd _).2⟩

/-- The line, as the words that Enter looks up. -/
def words (s : Session) : List Bytes := splitString [32, 9] s.mxCurrentCommandLine

/-- Enter on this line comes to a pattern that does not compile. -/
def EnterStuck (sv : Service) (s : Session) : Prop :=
  sv.Searches s (words s) ∧ sv.Stuck (words s) (sv.node s).commandList

/-- The line goes into the history, and the cursor stays where it is. -/
theorem processCommand_spec (sv : Service) (s : Session) :
    (∃ d, (sv.processCommand s).session =
        { s with
          mxDefaultNode := d
          mxCurrentCommandLine := []
          mxCommandHistory := s.mxCommandHistory ++ [s.mxCurrentCommandLine]
          commandHistoryPos := 0 }) ∧
      ((sv.processCommand s).fault = none ↔ ¬ sv.EnterStuck s) :=
  sv.execute_spec { s with
    mxCurrentCommandLine := []
    mxCommandHistory := s.mxCommandHistory ++ [s.mxCurrentCommandLine]
    commandHistoryPos := 0 } s.mxCurrentCommandLine (words s)

instance decidableEnterStuck (sv : Service) (s : Session) : Decidable (sv.EnterStuck s) :=
  decidable_of_iff ((sv.processCommand s).fault ≠ none) (by
    rw [ne_eq, (sv.processCommand_spec s).2, not_not])

end Service

end Megatron.Telnet
