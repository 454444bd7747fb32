import Megatron.Telnet.Safety

/-!
# Cutting the input of a telnet client into chunks

A chunk is taken for telnet commands at its front and one key behind them.  So
the input is handled item by item where each chunk holds nothing else.  Of two
characters in one chunk the second is lost; a key that is cut in two, or has
something behind it, is typed as a character.

A subnegotiation is read up to where the loop knows its option; the rest of it
is read as commands, as is its end, or as text.  `Negotiation.Whole` are the
commands that the loop reads to the end.  Where only commands are left of a
subnegotiation they may come in the next chunk.

## Main results

* `negotiate_whole` — a command that is read to the end, in front of anything.
* `paced_outcome` — where each chunk holds such commands and one more item at
  most, or begins a subnegotiation that the next one ends, a session ends as it
  does with a chunk for every item.
* `onStreamRead_first`, `behind_text_dropped` — what is not one key is its first
  byte; what is behind a character in a chunk is lost.
* `pasted_text_lost` — two characters in one chunk.
-/

namespace Megatron.Telnet

open Megatron.Corelib (Bytes RouteT)
open Megatron.Lib
open ArpaTelnet

/-! ## The loop over the telnet commands -/

theorem length_slc_le (chars : Bytes) : (slc chars).length ≤ chars.length := by
  fun_induction slc chars <;> simp_all <;> omega

theorem length_lineMode_le (chars : Bytes) : (lineMode chars).length ≤ chars.length := by
  cases chars with
  | nil => exact Nat.le_refl 0
  | cons cmd4 chars =>
      have hSlc := length_slc_le chars
      rw [lineMode]
      split
      · exact hSlc.trans (Nat.le_succ _)
      · exact Nat.le_succ _

namespace Session

variable {s s' : Session} {chars rest : Bytes}

theorem length_subnegotiation_le (s : Session) (chars : Bytes) :
    (s.subnegotiation chars).2.length ≤ chars.length := by
  cases chars with
  | nil => exact Nat.le_refl 0
  | cons cmd3 chars =>
      have hMode := length_lineMode_le chars
      rw [subnegotiation]
      split
      · exact hMode.trans (Nat.le_succ _)
      · split
        · simp only [List.length_drop, List.length_cons]
          omega
        · exact Nat.le_succ _

/-- A turn of the loop takes a byte at least. -/
theorem length_takeCommand_lt (h : s.takeCommand chars = some (s', rest)) :
    rest.length < chars.length := by
  cases chars with
  | nil => simp [takeCommand] at h
  | cons cmd1 chars =>
      simp only [takeCommand] at h
      split at h
      · cases h
      · split at h
        · obtain ⟨-, rfl⟩ := Prod.mk.inj (Option.some.inj h)
          exact Nat.succ_pos _
        · rename_i cmd2 chars
          split at h
          · obtain ⟨-, rfl⟩ := Prod.mk.inj (Option.some.inj h)
            simp only [List.length_drop, List.length_cons]
            omega
          · split at h
            · have hSub := length_subnegotiation_le s chars
              rw [Option.some.inj h] at hSub
              exact Nat.lt_succ_of_lt (Nat.lt_succ_of_le hSub)
            · obtain ⟨-, rfl⟩ := Prod.mk.inj (Option.some.inj h)
              simp only [List.length_cons]
              omega

/-- More turns than bytes make no difference. -/
theorem negotiateFrom_fuel {fuel fuel' : Nat} (h : chars.length ≤ fuel)
    (h' : chars.length ≤ fuel') : negotiateFrom fuel s chars = negotiateFrom fuel' s chars := by
  induction fuel generalizing fuel' s chars with
  | zero =>
      obtain rfl : chars = [] := List.length_eq_zero_iff.1 (Nat.le_zero.1 h)
      cases fuel' <;> rfl
  | succ fuel ih =>
      cases fuel' with
      | zero =>
          obtain rfl : chars = [] := List.length_eq_zero_iff.1 (Nat.le_zero.1 h')
          rfl
      | succ fuel' =>
          rw [negotiateFrom, negotiateFrom]
          cases hTake : s.takeCommand chars with
          | none => rfl
          | some next =>
              obtain ⟨s', rest⟩ := next
              have hLt := length_takeCommand_lt hTake
              exact ih (by omega) (by omega)

theorem negotiate_take (h : s.takeCommand chars = some (s', rest)) :
    s.negotiate chars = s'.negotiate rest := by
  have hLt := length_takeCommand_lt h
  rw [negotiate, negotiate]
  cases hLen : chars.length with
  | zero => omega
  | succ fuel =>
      rw [negotiateFrom, h]
      exact negotiateFrom_fuel (by omega) (Nat.le_refl _)

/-- The loop ends at the first byte that is no `IAC`. -/
theorem negotiate_stop {c : UInt8} (hNot : c ≠ IAC) (s : Session) (chars : Bytes) :
    s.negotiate (c :: chars) = (s, c :: chars) := by
  simp [negotiate, negotiateFrom, takeCommand, hNot]

@[simp] theorem negotiate_nil (s : Session) : s.negotiate [] = (s, []) := rfl

end Session

/-! ## What a client sends -/

/-- A telnet command: two bytes, three for an option, and a subnegotiation up to
its end, with the bytes between as they are on the wire. -/
inductive Negotiation where
  | plain (cmd2 : UInt8) (hPlain : cmd2 ∉ [WILL, WONT, DONT, DO, SB])
  | option (verb : UInt8) (hVerb : verb ∈ [WILL, WONT, DONT, DO]) (opt : UInt8)
  | sub (opt : UInt8) (payload : Bytes)

namespace Negotiation

def bytes : Negotiation → Bytes
  | plain cmd2 _ => [IAC, cmd2]
  | option verb _ opt => [IAC, verb, opt]
  | sub opt payload => IAC :: SB :: opt :: (payload ++ [IAC, SE])

/-- The functions of `LM_SLC`, each with its two bytes, and bytes that are no
function; nowhere between them is there an end. -/
def SlcWhole : Bytes → Prop
  | [] => True
  | [cmd5] => isSlc cmd5 = false
  | cmd5 :: c :: chars =>
      ¬ (cmd5 = IAC ∧ c = SE) ∧
        if isSlc cmd5 then
          match chars with
          | [] => False
          | _ :: chars => SlcWhole chars
        else SlcWhole (c :: chars)

/-- Bytes that are commands of two or three bytes to the loop, such as an `IAC`
that is doubled. -/
def Commands : Bytes → Prop
  | [] => True
  | [_] => False
  | [cmd1, cmd2] => cmd1 = IAC ∧ cmd2 ∉ [WILL, WONT, DONT, DO, SB]
  | cmd1 :: cmd2 :: opt :: chars =>
      cmd1 = IAC ∧ cmd2 ≠ SB ∧
        if cmd2 ∈ [WILL, WONT, DONT, DO] then Commands chars else Commands (opt :: chars)

/-- The loop reads a subnegotiation to its end: an `LM_SLC`; or `Commands` behind
a window size of four bytes, one byte of another `LINEMODE`, or nothing of any
other option. -/
def SubWhole (opt : UInt8) (payload : Bytes) : Prop :=
  if opt = TELOPT_LINEMODE then
    match payload with
    | [] => False
    | cmd4 :: chars => if cmd4 = LM_SLC then SlcWhole chars else Commands chars
  else if opt = TELOPT_NAWS then 4 ≤ payload.length ∧ Commands (payload.drop 4)
  else Commands payload

/-- The loop reads the command to its end. -/
def Whole : Negotiation → Prop
  | plain _ _ => True
  | option _ _ _ => True
  | sub opt payload => SubWhole opt payload

/-- The command has two or three bytes. -/
def Short : Negotiation → Prop
  | plain _ _ | option _ _ _ => True
  | sub _ _ => False

theorem Short.whole : ∀ {n : Negotiation}, n.Short → n.Whole
  | plain _ _, _ => trivial
  | option _ _ _, _ => trivial

/-- The window that a command leaves. -/
def apply (s : Session) : Negotiation → Session
  | sub opt payload => if opt = TELOPT_NAWS then s.naws payload else s
  | _ => s

theorem Short.apply (s : Session) : ∀ {n : Negotiation}, n.Short → n.apply s = s
  | plain _ _, _ => rfl
  | option _ _ _, _ => rfl

theorem slc_end (rest : Bytes) : slc (IAC :: SE :: rest) = rest := by
  rw [slc.eq_def]
  simp

theorem slc_known {cmd5 : UInt8} (hSlc : isSlc cmd5 = true) (c c' : UInt8) (chars : Bytes) :
    slc (cmd5 :: c :: c' :: chars) = slc chars := by
  have hNot : cmd5 ≠ IAC := by
    rintro rfl
    exact absurd hSlc (by decide)
  rw [slc.eq_def]
  simp [hNot, hSlc]

theorem slc_unknown {cmd5 c : UInt8} (hNot : ¬ (cmd5 = IAC ∧ c = SE))
    (hSlc : isSlc cmd5 = false) (chars : Bytes) :
    slc (cmd5 :: c :: chars) = slc (c :: chars) := by
  rw [slc.eq_def]
  simp [hNot, hSlc]

/-- The loop of `LM_SLC` goes to the end of the data. -/
theorem slc_append {payload rest : Bytes} (h : SlcWhole payload) (hRest : rest.head? ≠ some SE) :
    slc (payload ++ rest) = slc rest := by
  fun_induction slc payload with
  | case1 => rfl
  | case2 cmd5 =>
      cases rest with
      | nil => rfl
      | cons c rest =>
          have hNot : ¬ (cmd5 = IAC ∧ c = SE) := fun hEnd => hRest (congrArg some hEnd.2)
          exact slc_unknown hNot h rest
  | case3 cmd5 c chars hEnd =>
      rw [SlcWhole.eq_def] at h
      exact absurd hEnd h.1
  | case4 cmd5 c hNot hSlc =>
      have hFalse := h.2
      simp [hSlc] at hFalse
  | case5 cmd5 c hNot hSlc c' chars ih =>
      have hChars := h.2
      simp only [hSlc, if_true] at hChars
      exact (slc_known hSlc c c' _).trans (ih hChars)
  | case6 cmd5 c chars hNot hSlc ih =>
      rw [SlcWhole.eq_def] at h
      have hChars := h.2
      rw [if_neg hSlc] at hChars
      exact (slc_unknown hNot (by simpa using hSlc) _).trans (ih hChars)

/-- The end of a subnegotiation is a command by itself to the loop. -/
theorem negotiate_end (s : Session) (rest : Bytes) :
    s.negotiate (IAC :: SE :: rest) = s.negotiate rest :=
  Session.negotiate_take rfl

/-- A command of two bytes, in front of anything. -/
theorem negotiate_pair {cmd2 : UInt8} (hPlain : cmd2 ∉ [WILL, WONT, DONT, DO, SB]) (s : Session)
    (rest : Bytes) : s.negotiate (IAC :: cmd2 :: rest) = s.negotiate rest := by
  simp only [List.mem_cons, List.not_mem_nil, or_false, not_or] at hPlain
  refine Session.negotiate_take ?_
  simp [Session.takeCommand, hPlain]

/-- A command with an option, in front of anything. -/
theorem negotiate_option {verb : UInt8} (hVerb : verb ∈ [WILL, WONT, DONT, DO]) (s : Session)
    (opt : UInt8) (rest : Bytes) :
    s.negotiate (IAC :: verb :: opt :: rest) = s.negotiate rest := by
  have hOption : verb = WILL ∨ verb = WONT ∨ verb = DONT ∨ verb = DO := by simpa using hVerb
  refine Session.negotiate_take ?_
  simp [Session.takeCommand, hOption]

/-- Commands of two and three bytes, in front of anything. -/
theorem negotiate_commands {chars : Bytes} (h : Commands chars) (s : Session) (rest : Bytes) :
    s.negotiate (chars ++ rest) = s.negotiate rest := by
  fun_induction Commands chars with
  | case1 => rfl
  | case2 _ => exact h.elim
  | case3 cmd1 cmd2 =>
      obtain ⟨rfl, hPlain⟩ := h
      exact negotiate_pair hPlain s rest
  | case4 cmd1 cmd2 opt chars ihOption ihPair =>
      obtain ⟨rfl, hSub, hChars⟩ := h
      by_cases hVerb : cmd2 ∈ [WILL, WONT, DONT, DO]
      · rw [if_pos hVerb] at hChars
        exact (negotiate_option hVerb s opt _).trans (ihOption hChars)
      · rw [if_neg hVerb] at hChars
        have hPlain : cmd2 ∉ [WILL, WONT, DONT, DO, SB] := by
          simp only [List.mem_cons, List.not_mem_nil, or_false, not_or] at hVerb ⊢
          exact ⟨hVerb.1, hVerb.2.1, hVerb.2.2.1, hVerb.2.2.2, hSub⟩
        exact (negotiate_pair hPlain s _).trans (ihPair hChars)

/-- A window size is its first four bytes. -/
theorem naws_append {payload : Bytes} (h : 4 ≤ payload.length) (s : Session) (rest : Bytes) :
    s.naws (payload ++ rest) = s.naws payload := by
  have hByte : ∀ i < 4, windowByte (payload ++ rest) i = windowByte payload i := by
    intro i hi
    have hLt : i < payload.length := hi.trans_le h
    simp [windowByte, List.getElem?_append_left hLt]
  simp only [Session.naws, hByte 0 (by decide), hByte 1 (by decide), hByte 2 (by decide),
    hByte 3 (by decide)]

/-- A subnegotiation, in front of its end or at the end of a chunk. -/
theorem negotiate_sub {opt : UInt8} {payload rest : Bytes} (h : SubWhole opt payload)
    (hRest : rest = [] ∨ ∃ r, rest = IAC :: SE :: r) (s : Session) :
    s.negotiate (IAC :: SB :: opt :: (payload ++ rest)) =
      (apply s (sub opt payload)).negotiate rest := by
  have hTake : s.takeCommand (IAC :: SB :: opt :: (payload ++ rest)) =
      some (s.subnegotiation (opt :: (payload ++ rest))) := by
    simp [Session.takeCommand, SB, WILL, WONT, DONT, DO]
  have hNaws : TELOPT_LINEMODE ≠ TELOPT_NAWS := by decide
  unfold SubWhole at h
  by_cases hMode : opt = TELOPT_LINEMODE
  · rw [if_pos hMode] at h
    have hApply : apply s (sub opt payload) = s := by simp [apply, hMode, hNaws]
    rw [hApply]
    cases payload with
    | nil => exact h.elim
    | cons cmd4 chars =>
        by_cases hSlc : cmd4 = LM_SLC
        · -- its loop takes the end too, where there is one
          have hHead : rest.head? ≠ some SE := by
            rcases hRest with rfl | ⟨r, rfl⟩ <;> simp [IAC, SE]
          have hRead := slc_append (by simpa [hSlc] using h) hHead
          have hEnd : s.negotiate (slc rest) = s.negotiate rest := by
            rcases hRest with rfl | ⟨r, rfl⟩
            · rfl
            · rw [slc_end, negotiate_end]
          rw [← hEnd, ← hRead]
          refine Session.negotiate_take (hTake.trans ?_)
          simp [Session.subnegotiation, hMode, lineMode, hSlc]
        · have hBehind : Commands chars := by simpa [hSlc] using h
          rw [← negotiate_commands hBehind s rest]
          refine Session.negotiate_take (hTake.trans ?_)
          simp [Session.subnegotiation, hMode, lineMode, hSlc]
  · rw [if_neg hMode] at h
    by_cases hWindow : opt = TELOPT_NAWS
    · rw [if_pos hWindow] at h
      obtain ⟨hFour, hBehind⟩ := h
      have hApply : apply s (sub opt payload) = s.naws payload := by simp [apply, hWindow]
      have hDrop : (payload ++ rest).drop 4 = payload.drop 4 ++ rest :=
        List.drop_append_of_le_length hFour
      rw [hApply, ← negotiate_commands hBehind (s.naws payload) rest]
      refine Session.negotiate_take (hTake.trans ?_)
      rw [Session.subnegotiation, if_neg hMode, if_pos hWindow, naws_append hFour, hDrop]
    · rw [if_neg hWindow] at h
      have hApply : apply s (sub opt payload) = s := by simp [apply, hWindow]
      rw [hApply, ← negotiate_commands h s rest]
      refine Session.negotiate_take (hTake.trans ?_)
      simp [Session.subnegotiation, hMode, hWindow]

/-- A command that is read to its end, in front of anything. -/
theorem negotiate_whole {n : Negotiation} (h : n.Whole) (s : Session) (rest : Bytes) :
    s.negotiate (n.bytes ++ rest) = (n.apply s).negotiate rest := by
  cases n with
  | plain cmd2 hPlain => exact negotiate_pair hPlain s rest
  | option verb hVerb opt => exact negotiate_option hVerb s opt rest
  | sub opt payload =>
      have hBytes : bytes (sub opt payload) ++ rest =
          IAC :: SB :: opt :: (payload ++ IAC :: SE :: rest) := by simp [bytes]
      rw [hBytes, negotiate_sub h (Or.inr ⟨rest, rfl⟩), negotiate_end]

/-- A subnegotiation of which the end is missing. -/
theorem negotiate_start {opt : UInt8} {read : Bytes} (h : SubWhole opt read) (s : Session) :
    s.negotiate (IAC :: SB :: opt :: read) = (apply s (sub opt read), []) := by
  have hSub := negotiate_sub h (Or.inl rfl) s
  rwa [List.append_nil] at hSub

/-- What is read of a window size is all of it. -/
theorem apply_start {opt : UInt8} {read : Bytes} (hRead : SubWhole opt read) (rest : Bytes)
    (s : Session) :
    apply s (sub opt read) = apply s (sub opt (read ++ rest)) := by
  by_cases hWindow : opt = TELOPT_NAWS
  · have hMode : opt ≠ TELOPT_LINEMODE := by
      rw [hWindow]
      decide
    unfold SubWhole at hRead
    rw [if_neg hMode, if_pos hWindow] at hRead
    simp only [apply, if_pos hWindow, naws_append hRead.1]
  · simp [apply, hWindow]

end Negotiation

/-- A telnet command, a key with a code, or a character. -/
inductive Item where
  | negotiation (n : Negotiation)
  | key (k : TKey)
  | text (c : UInt8) (hText : c ≠ IAC)

def Item.bytes : Item → Bytes
  | negotiation n => n.bytes
  | key k => k.code
  | text c _ => [c]

/-- What is behind the telnet commands of a chunk: nothing, an item, or a
subnegotiation that goes on behind `read` in the next chunk. -/
inductive Last where
  | nothing
  | item (i : Item)
  | start (opt : UInt8) (read rest : Bytes) (hRead : Negotiation.SubWhole opt read)
    (hWhole : Negotiation.SubWhole opt (read ++ rest))

namespace Last

def items : Last → List Item
  | nothing => []
  | item i => [i]
  | start opt read rest _ _ => [.negotiation (.sub opt (read ++ rest))]

def bytes : Last → Bytes
  | nothing => []
  | item i => i.bytes
  | start opt read _ _ _ => IAC :: SB :: opt :: read

end Last

/-- What the chunks of a client hold: what is left of a subnegotiation, where that
looks like commands of two or three bytes, telnet commands that are read to
their end, and one item more at most. -/
structure Portion where
  before : List Negotiation
  negotiations : List Negotiation
  last : Last
  short : ∀ n ∈ before, n.Short
  whole : ∀ n ∈ negotiations, n.Whole

namespace Portion

def items (p : Portion) : List Item := p.negotiations.map .negotiation ++ p.last.items

def bytes (p : Portion) : Bytes :=
  (p.before ++ p.negotiations).flatMap Negotiation.bytes ++ p.last.bytes

end Portion

/-- The input is cut into portions. -/
def Paced (items : List Item) (chunks : List Bytes) : Prop :=
  chunks.flatten = items.flatMap Item.bytes ∧
    ∃ portions : List Portion, items = portions.flatMap Portion.items ∧
      chunks = portions.map Portion.bytes

/-! ## Runs -/

/-- The chunks of a client, one after the other, at a service that stays as it
is; a division by zero ends the program. -/
def feed (sv : Service) : Console → List Bytes → Console
  | c, [] => c
  | c, chunk :: chunks =>
      if c.fault = some .divideByZero then c else feed sv (machine.apply c (sv, chunk)) chunks

/-- What the client can tell of a session. -/
structure Outcome where
  line : Bytes
  curpos : Int
  insertMode : Bool
  width : Int
  height : Int
  executed : List (List Bytes × RouteT)
  deriving DecidableEq

def Console.outcome (c : Console) : Outcome where
  line := c.session.mxCurrentCommandLine
  curpos := c.session.curpos
  insertMode := c.session.insertMode
  width := c.session.width
  height := c.session.height
  executed := c.sent.filterMap fun
    | .commandEntered tokens route => some (tokens, route)
    | _ => none

/-- Two consoles that go on in the same way; an exception of the last chunk
does not matter. -/
structure Alike (c c' : Console) : Prop where
  session : c.session = c'.session
  sent : c.sent = c'.sent
  ended : c.fault = some .divideByZero ↔ c'.fault = some .divideByZero

section

variable {sv : Service} {c c' c'' : Console}

theorem Alike.trans (h : Alike c c') (h' : Alike c' c'') : Alike c c'' :=
  ⟨h.session.trans h'.session, h.sent.trans h'.sent, h.ended.trans h'.ended⟩

theorem Alike.symm (h : Alike c c') : Alike c' c := ⟨h.session.symm, h.sent.symm, h.ended.symm⟩

theorem Alike.refl (c : Console) : Alike c c := ⟨rfl, rfl, Iff.rfl⟩

theorem Alike.outcome (h : Alike c c') : c.outcome = c'.outcome := by
  simp only [Console.outcome, h.session, h.sent]

/-- A chunk does not see where the last one failed. -/
theorem Alike.apply (h : Alike c c') (a : Service × Bytes) :
    machine.apply c a = machine.apply c' a := by
  simp only [machine, Console.then, h.session, h.sent]

theorem feed_ended (h : c.fault = some .divideByZero) (chunks : List Bytes) :
    feed sv c chunks = c := by
  cases chunks with
  | nil => rfl
  | cons chunk chunks => rw [feed, if_pos h]

theorem feed_alive (h : c.fault ≠ some .divideByZero) (chunk : Bytes) (chunks : List Bytes) :
    feed sv c (chunk :: chunks) = feed sv (machine.apply c (sv, chunk)) chunks := by
  rw [feed, if_neg h]

theorem feed_append (sv : Service) (c : Console) (xs ys : List Bytes) :
    feed sv c (xs ++ ys) = feed sv (feed sv c xs) ys := by
  induction xs generalizing c with
  | nil => rfl
  | cons x xs ih =>
      by_cases hEnded : c.fault = some .divideByZero
      · rw [feed_ended hEnded, feed_ended hEnded, feed_ended hEnded]
      · rw [List.cons_append, feed_alive hEnded, feed_alive hEnded, ih]

theorem Alike.feed (h : Alike c c') (chunks : List Bytes) :
    Alike (feed sv c chunks) (feed sv c' chunks) := by
  by_cases hEnded : c.fault = some .divideByZero
  · rw [feed_ended hEnded, feed_ended (h.ended.1 hEnded)]
    exact h
  · cases chunks with
    | nil => exact h
    | cons chunk chunks =>
        have hAlive : c'.fault ≠ some .divideByZero := fun h' => hEnded (h.ended.2 h')
        rw [feed_alive hEnded, feed_alive hAlive, h.apply]
        exact Alike.refl _

end

/-! ## Portions -/

/-- The window that commands leave, one after the other. -/
def applyAll (s : Session) (ns : List Negotiation) : Session := ns.foldl Negotiation.apply s

theorem negotiate_all {ns : List Negotiation} (h : ∀ n ∈ ns, n.Whole) (s : Session)
    (rest : Bytes) :
    s.negotiate (ns.flatMap Negotiation.bytes ++ rest) = (applyAll s ns).negotiate rest := by
  induction ns generalizing s with
  | nil => rfl
  | cons n ns ih =>
      have hTail : ∀ n ∈ ns, n.Whole := fun n hn => h n (List.mem_cons_of_mem _ hn)
      rw [List.flatMap_cons, List.append_assoc,
        Negotiation.negotiate_whole (h n List.mem_cons_self), ih hTail]
      rfl

/-- In front of anything the commands change the window and nothing else. -/
theorem onStreamRead_all {ns : List Negotiation} (h : ∀ n ∈ ns, n.Whole) (sv : Service)
    (s : Session) (rest : Bytes) :
    s.onStreamRead sv (ns.flatMap Negotiation.bytes ++ rest) =
      (applyAll s ns).onStreamRead sv rest := by
  rw [Session.onStreamRead, negotiate_all h]
  rfl

/-- A command in a chunk of its own. -/
theorem onStreamRead_whole {n : Negotiation} (h : n.Whole) (sv : Service) (s : Session) :
    s.onStreamRead sv n.bytes = (n.apply s).quiet := by
  have hRead := Negotiation.negotiate_whole h s []
  rw [List.append_nil] at hRead
  rw [Session.onStreamRead, hRead]
  rfl

/-- Each of them in a chunk of its own. -/
theorem feed_negotiations {ns : List Negotiation} (h : ∀ n ∈ ns, n.Whole) (sv : Service)
    {c : Console} (hAlive : c.fault ≠ some .divideByZero) :
    Alike (feed sv c (ns.map Negotiation.bytes)) ⟨applyAll c.session ns, c.sent, none⟩ := by
  induction ns generalizing c with
  | nil => exact ⟨rfl, rfl, iff_of_false hAlive (by simp)⟩
  | cons n ns ih =>
      have hTail : ∀ n ∈ ns, n.Whole := fun n hn => h n (List.mem_cons_of_mem _ hn)
      have hApply : machine.apply c (sv, n.bytes) = ⟨n.apply c.session, c.sent, none⟩ := by
        simp [machine, Console.then, onStreamRead_whole (h n List.mem_cons_self), Session.quiet]
      rw [List.map_cons, feed_alive hAlive, hApply]
      exact ih hTail (by simp)

/-- The rest of a subnegotiation changes nothing. -/
theorem applyAll_short {ns : List Negotiation} (h : ∀ n ∈ ns, n.Short) (s : Session) :
    applyAll s ns = s := by
  induction ns with
  | nil => rfl
  | cons n ns ih =>
      rw [applyAll, List.foldl_cons, (h n List.mem_cons_self).apply]
      exact ih fun n hn => h n (List.mem_cons_of_mem _ hn)

/-- The commands of a portion, in front of what is last. -/
theorem onStreamRead_portion (sv : Service) (s : Session) (p : Portion) :
    s.onStreamRead sv p.bytes = (applyAll s p.negotiations).onStreamRead sv p.last.bytes := by
  have hWhole : ∀ n ∈ p.before ++ p.negotiations, n.Whole := by
    intro n hn
    exact (List.mem_append.1 hn).elim (fun h => (p.short n h).whole) (p.whole n)
  rw [Portion.bytes, onStreamRead_all hWhole, applyAll, List.foldl_append, ← applyAll, ← applyAll,
    applyAll_short p.short]

/-- What is last of a portion, in one chunk and as its items. -/
theorem feed_last (sv : Service) {c : Console} (hAlive : c.fault ≠ some .divideByZero)
    (l : Last) :
    Alike (machine.apply c (sv, l.bytes)) (feed sv c (l.items.map Item.bytes)) := by
  cases l with
  | nothing =>
      have hQuiet : machine.apply c (sv, Last.nothing.bytes) = ⟨c.session, c.sent ++ [], none⟩ := rfl
      rw [hQuiet, List.append_nil]
      exact ⟨rfl, rfl, iff_of_false (by simp) hAlive⟩
  | item i =>
      rw [Last.items, List.map_singleton, feed_alive hAlive]
      exact Alike.refl _
  | start opt read rest hRead hWhole =>
      have hStart : c.session.onStreamRead sv (Last.start opt read rest hRead hWhole).bytes =
          ((Negotiation.sub opt (read ++ rest)).apply c.session).quiet := by
        rw [Last.bytes, Session.onStreamRead, Negotiation.negotiate_start hRead,
          Negotiation.apply_start hRead rest]
        rfl
      have hItem := onStreamRead_whole (n := .sub opt (read ++ rest)) hWhole sv c.session
      rw [Last.items, List.map_singleton, Item.bytes, feed_alive hAlive]
      simp only [machine, hStart, hItem]
      exact Alike.refl _

/-- A portion in one chunk, and each of its items in one. -/
theorem feed_portion (sv : Service) (c : Console) (p : Portion) :
    Alike (feed sv c [p.bytes]) (feed sv c (p.items.map Item.bytes)) := by
  by_cases hEnded : c.fault = some .divideByZero
  · rw [feed_ended hEnded, feed_ended hEnded]
    exact Alike.refl c
  have hNegotiations := feed_negotiations p.whole sv hEnded
  have hItems : p.items.map Item.bytes = p.negotiations.map Negotiation.bytes ++
      p.last.items.map Item.bytes := by
    rw [Portion.items, List.map_append, List.map_map]
    rfl
  have hTurn : machine.apply c (sv, p.bytes) =
      machine.apply ⟨applyAll c.session p.negotiations, c.sent, none⟩ (sv, p.last.bytes) := by
    simp only [machine, onStreamRead_portion]
    rfl
  rw [hItems, feed_append, feed_alive hEnded, hTurn]
  exact (feed_last sv (by simp) p.last).trans (hNegotiations.feed _).symm

/--
**Portions.** Where every chunk is a portion, a session at any point goes on as
it does with a chunk for every item.
-/
theorem feed_paced (sv : Service) {items : List Item} {chunks : List Bytes}
    (h : Paced items chunks) (c : Console) :
    Alike (feed sv c chunks) (feed sv c (items.map Item.bytes)) := by
  obtain ⟨-, portions, rfl, rfl⟩ := h
  induction portions generalizing c with
  | nil => exact Alike.refl c
  | cons p portions ih =>
      rw [List.map_cons, ← List.singleton_append, feed_append, List.flatMap_cons, List.map_append,
        feed_append]
      exact (ih _).trans ((feed_portion sv c p).feed _)

/-- The client cannot tell the difference. -/
theorem paced_outcome (sv : Service) {items : List Item} {chunks : List Bytes}
    (h : Paced items chunks) (c : Console) :
    (feed sv c chunks).outcome = (feed sv c (items.map Item.bytes)).outcome :=
  (feed_paced sv h c).outcome

/-- A terminal type with a doubled `IAC`; a window size is cut in front of another
one and its end, a character is behind it, and a key in the next chunk. -/
def cutPortions : List Portion :=
  [{ before := []
     negotiations := [.sub 24 [IAC, IAC]]
     last := .start TELOPT_NAWS [0, 120, 0, 40] [IAC, IAC] ⟨by decide, trivial⟩
      ⟨by decide, rfl, by decide⟩
     short := by simp
     whole := by
      intro n hn
      obtain rfl := List.mem_singleton.1 hn
      exact ⟨rfl, by decide⟩ },
    { before := [.plain IAC (by decide), .plain SE (by decide)]
      negotiations := []
      last := .item (.text 97 (by decide))
      short := by simp [Negotiation.Short]
      whole := by simp },
    { before := []
      negotiations := []
      last := .item (.key .left)
      short := by simp
      whole := by simp }]

theorem cutPortions_outcome :
    (feed bare (accepted bare) (cutPortions.map Portion.bytes)).outcome =
      (feed bare (accepted bare)
        ((cutPortions.flatMap Portion.items).map Item.bytes)).outcome := by
  have hPaced : Paced (cutPortions.flatMap Portion.items) (cutPortions.map Portion.bytes) :=
    ⟨rfl, cutPortions, rfl, rfl⟩
  exact paced_outcome bare hPaced (accepted bare)

/-! ## What is lost -/

/-- What is no telnet command and not one key is its first byte, also where that
begins a key. -/
theorem onStreamRead_first (sv : Service) (s : Session) {c : UInt8} {rest : Bytes}
    (hText : c ≠ IAC) (hKey : TKey.of (c :: rest) = none) :
    s.onStreamRead sv (c :: rest) = s.onChar sv c := by
  rw [Session.onStreamRead, Session.negotiate_stop hText]
  simp only [Session.onKey, hKey]

/-- A character that is no key, and whatever is behind it: the chunk is handled
as the character. -/
theorem behind_text_dropped (sv : Service) (s : Session) {c : UInt8} {rest : Bytes}
    (hText : c ≠ IAC) (hKey : TKey.of [c] = none) (hRest : TKey.of (c :: rest) = none) :
    s.onStreamRead sv (c :: rest) = s.onStreamRead sv [c] :=
  (onStreamRead_first sv s hText hRest).trans (onStreamRead_first sv s hText hKey).symm

/-- A code begins with `ESC` or is one byte. -/
theorem of_two {c : UInt8} (hEsc : c ≠ 27) (d : UInt8) (rest : Bytes) :
    TKey.of (c :: d :: rest) = none := by
  cases hKey : TKey.of (c :: d :: rest) with
  | none => rfl
  | some k =>
      have hCode := TKey.code_of hKey
      cases k <;> simp [TKey.code] at hCode <;> exact absurd hCode.1.symm hEsc

theorem onStreamRead_text (sv : Service) (s : Session) {c : UInt8}
    (hc : c ∉ [3, 9, 13, 27, IAC]) (hKey : TKey.of [c] = none) :
    s.onStreamRead sv [c] = s.onText c := by
  simp only [List.mem_cons, List.not_mem_nil, or_false, not_or] at hc
  rw [onStreamRead_first sv s hc.2.2.2.2 hKey]
  simp only [Session.onChar, hc, if_false]

/-- In insert mode a character makes the line longer. -/
theorem length_onText {s : Session} (h : s.Sound) (hMode : s.insertMode = true)
    (hRoom : s.mxCurrentCommandLine.length + 1 < 2 ^ 31) (c : UInt8) :
    (s.onText c).session.insertMode = true ∧
      (s.onText c).session.mxCurrentCommandLine.length = s.mxCurrentCommandLine.length + 1 := by
  have hNonneg := h.curpos_nonneg
  rw [Session.onText_eq h.toBounded hRoom]
  refine ⟨hMode, ?_⟩
  simp only [Session.lineWith, hMode, if_true, List.length_append, List.length_take,
    List.length_drop, List.length_singleton]
  omega

/-- Two characters in one chunk leave the line a character shorter than in a
chunk each. -/
theorem second_character_lost (sv : Service) {s : Session} (h : s.Sound)
    (hMode : s.insertMode = true) (hRoom : s.mxCurrentCommandLine.length + 2 < 2 ^ 31)
    {c d : UInt8} (hc : c ∉ [3, 9, 13, 27, IAC]) (hd : d ∉ [3, 9, 13, 27, IAC])
    (hKeyC : TKey.of [c] = none) (hKeyD : TKey.of [d] = none) :
    ((s.onStreamRead sv [c]).session.onStreamRead sv [d]).session.mxCurrentCommandLine.length =
      (s.onStreamRead sv [c, d]).session.mxCurrentCommandLine.length + 1 := by
  have hNot : c ≠ IAC ∧ c ≠ 27 := by
    simp only [List.mem_cons, List.not_mem_nil, or_false, not_or] at hc
    exact ⟨hc.2.2.2.2, hc.2.2.2.1⟩
  have hRoomOne : s.mxCurrentCommandLine.length + 1 < 2 ^ 31 := by omega
  have hSound := (Session.sound_onText h hRoomOne c).1
  obtain ⟨hModeC, hLenC⟩ := length_onText h hMode hRoomOne c
  have hRoomTwo : (s.onText c).session.mxCurrentCommandLine.length + 1 < 2 ^ 31 := by omega
  rw [behind_text_dropped sv s hNot.1 hKeyC (of_two hNot.2 d []), onStreamRead_text sv s hc hKeyC,
    onStreamRead_text sv _ hd hKeyD]
  exact (length_onText hSound hModeC hRoomTwo d).2

/-- `ab` in one chunk and in two. -/
theorem pasted_text_lost : ∃ (sv : Service) (c : Console) (items : List Item)
    (chunks : List Bytes), machine.init c ∧ chunks.flatten = items.flatMap Item.bytes ∧
    items.map Item.bytes = [[97], [98]] ∧ chunks = [[97, 98]] ∧
    (feed sv c chunks).outcome ≠ (feed sv c (items.map Item.bytes)).outcome :=
  ⟨bare, accepted bare, [.text 97 (by decide), .text 98 (by decide)], [[97, 98]], ⟨bare, rfl⟩,
    rfl, rfl, rfl, by decide⟩

end Megatron.Telnet
