import Megatron.Lib.Machine
import Megatron.Telnet.Entries

/-!
# `Telnet`: the console of a session

`on_StreamRead` takes everything that has arrived as one chunk.  It consumes
the telnet commands at its front, and compares what is left with the codes of
the keys; where it is none of them, its first byte is a character and the rest
is dropped.

The cursor is an `int`, and so is what is computed with it; it wraps where the
code overflows.  A handler is a function from the session to a `Turn`: the
session it leaves, what it does to the connection, in order, and where it fails.
Passing `CommandEntered` on does not fail: the route of a registration is one
that `passEvent` takes (`BackRoute.passEvent_popped`).

Regular expressions are those of the C library, a parameter.  Set aside are the
sockets, the dumps and the log.
-/

namespace Megatron.Telnet

open Megatron.Corelib (Bytes RouteT)
open Megatron.Http (splitString strlower text crlf)
open Megatron.Lib

/-! ## Integers and strings -/

/-- A value in an `int`. -/
def int32 (x : Int) : Int := x.bmod (2 ^ 32)

/-- An `int` as an index. -/
def sizeT (x : Int) : Nat := (x % 2 ^ 64).toNat

/-- `substr`; it throws behind the end. -/
def substr (s : Bytes) (pos n : Nat) : Option Bytes :=
  if pos ≤ s.length then some ((s.drop pos).take n) else none

/-- `join`. -/
def join (pattern : Bytes) (arr : List Bytes) : Bytes := pattern.intercalate arr

/-- The decimal digits of a number, with its sign. -/
def decimal (n : Int) : Bytes := text (toString n)

/-! ## `vt100` -/

namespace Vt100

def attributeReset : Bytes := [27, 91, 48, 109]
def attributeBright : Bytes := [27, 91, 49, 109]
def eraseLine : Bytes := [27, 91, 50, 75]
def cursorUp : Bytes := [27, 91, 65]
def cursorDown : Bytes := [27, 91, 66]
def cursorForward (n : Int) : Bytes := [27, 91] ++ decimal n ++ [67]
def cursorBack (n : Int) : Bytes := [27, 91] ++ decimal n ++ [68]
def cursorBackOne : Bytes := [27, 91, 68]
def erase : Bytes := [27, 91, 80]
def insertMode : Bytes := [27, 91, 52, 104]
def replaceMode : Bytes := [27, 91, 52, 108]

end Vt100

def bright (s : Bytes) : Bytes := Vt100.attributeBright ++ s ++ Vt100.attributeReset

/-! ## `telnet_keys.h` -/

/-- The keys that have a code. -/
inductive TKey where
  | f1 | f2 | f3 | f4 | f5 | f6 | f7 | f8 | f9 | f10 | f11 | f12
  | esc | tab | up | down | right | left
  | home | end1 | home2 | insert | delete | end2 | pgup | pgdn | bs1 | bs2
  deriving DecidableEq

namespace TKey

/-- The code of a key. -/
def code : TKey → Bytes
  | f1 => [27, 79, 80]
  | f2 => [27, 79, 81]
  | f3 => [27, 79, 82]
  | f4 => [27, 79, 83]
  | f5 => [27, 91, 49, 53, 126]
  | f6 => [27, 91, 49, 55, 126]
  | f7 => [27, 91, 49, 56, 126]
  | f8 => [27, 91, 49, 57, 126]
  | f9 => [27, 91, 50, 48, 126]
  | f10 => [27, 91, 50, 49, 126]
  | f11 => [27, 91, 50, 51, 126]
  | f12 => [27, 91, 50, 52, 126]
  | esc => [27]
  | tab => [9]
  | up => [27, 91, 65]
  | down => [27, 91, 66]
  | right => [27, 91, 67]
  | left => [27, 91, 68]
  | home => [27, 79, 72]
  | end1 => [27, 79, 70]
  | home2 => [27, 91, 49, 126]
  | insert => [27, 91, 50, 126]
  | delete => [27, 91, 51, 126]
  | end2 => [27, 91, 52, 126]
  | pgup => [27, 91, 53, 126]
  | pgdn => [27, 91, 54, 126]
  | bs1 => [8]
  | bs2 => [127]

/-- All of them. -/
def all : List TKey :=
  [f1, f2, f3, f4, f5, f6, f7, f8, f9, f10, f11, f12, esc, tab, up, down, right, left,
    home, end1, home2, insert, delete, end2, pgup, pgdn, bs1, bs2]

/-- The key with the code `out`. -/
def of (out : Bytes) : Option TKey := all.find? (·.code = out)

/-- No code is that of two keys, so the order of the comparisons is no matter. -/
@[simp] theorem of_code (k : TKey) : of k.code = some k := by
  cases k <;> decide

theorem code_of {out : Bytes} {k : TKey} (h : of out = some k) : k.code = out := by
  simpa using List.find?_some h

end TKey

/-! ## Data -/

/-- What a handler does to the connection or sends. -/
inductive Sent where
  | write (s : Bytes)
  | markedToDestroyOnSend
  | commandEntered (tokens : List Bytes) (route : RouteT)
  deriving DecidableEq

/-- `Session`.  `mx_defaultNode` is known by the names that lead to it. -/
structure Session where
  mxDefaultNode : List Bytes
  mxCurrentCommandLine : Bytes
  mxCommandHistory : List Bytes
  curpos : Int
  commandHistoryPos : Int
  insertMode : Bool
  width : Int
  height : Int
  deriving DecidableEq

/-- What `on_StreamRead` reads of the service, and `regcomp` of the C library:
for a pattern that it takes the place of the first match in a string, else the
text of the error. -/
structure Service where
  cmdEntries : CommandEntries
  mDeviceName : Bytes
  regcomp : Bytes → Except Bytes (Bytes → Option (Nat × Nat))

/-- Where a handler fails. -/
inductive Fault where
  | divideByZero
  | outOfRange
  | thrown (what : String)
  deriving DecidableEq

structure Turn where
  session : Session
  sent : List Sent
  fault : Option Fault

/-- What was sent before. -/
def Turn.after (t : Turn) (sent : List Sent) : Turn := { t with sent := sent ++ t.sent }

/-- The constructor of `Session`; `cmdEntries.root()` has no names before it. -/
def Session.fresh : Session where
  mxDefaultNode := []
  mxCurrentCommandLine := []
  mxCommandHistory := []
  curpos := 0
  commandHistoryPos := 0
  insertMode := true
  width := 80
  height := 25

/-! ## Telnet commands -/

namespace ArpaTelnet

def IAC : UInt8 := 255
def DONT : UInt8 := 254
def DO : UInt8 := 253
def WONT : UInt8 := 252
def WILL : UInt8 := 251
def SB : UInt8 := 250
def SE : UInt8 := 240
def TELOPT_NAWS : UInt8 := 31
def TELOPT_LINEMODE : UInt8 := 34
def LM_SLC : UInt8 := 3

end ArpaTelnet

open ArpaTelnet

/-- `SLC_SYNCH` to `SLC_FORW2`. -/
def isSlc (cmd5 : UInt8) : Bool := 1 ≤ cmd5 && cmd5 ≤ 18

/-- The loop of `LM_SLC`: a function takes two bytes more, and what is unknown
is taken alone. -/
def slc : Bytes → Bytes
  | [] => []
  | [_] => []
  | cmd5 :: c :: chars =>
      if cmd5 = IAC ∧ c = SE then chars
      else if isSlc cmd5 then
        match chars with
        | [] => []
        | _ :: chars => slc chars
      else slc (c :: chars)

/-- `SB LINEMODE`. -/
def lineMode : Bytes → Bytes
  | [] => []
  | cmd4 :: chars => if cmd4 = LM_SLC then slc chars else chars

/-- A byte of a window size; one that has not arrived is 0. -/
def windowByte (chars : Bytes) (i : Nat) : Int := (chars.getD i 0).toNat

namespace Session

/-- `SB NAWS`. -/
def naws (s : Session) (chars : Bytes) : Session :=
  { s with
    width := windowByte chars 0 * 256 + windowByte chars 1
    height := windowByte chars 2 * 256 + windowByte chars 3 }

/-- `SB`.  Only two options are read any further. -/
def subnegotiation (s : Session) : Bytes → Session × Bytes
  | [] => (s, [])
  | cmd3 :: chars =>
      if cmd3 = TELOPT_LINEMODE then (s, lineMode chars)
      else if cmd3 = TELOPT_NAWS then (s.naws chars, chars.drop 4)
      else (s, chars)

/-- One turn of the loop over the telnet commands, which ends at the first byte
that is no `IAC`. -/
def takeCommand (s : Session) : Bytes → Option (Session × Bytes)
  | [] => none
  | cmd1 :: chars =>
      if cmd1 ≠ IAC then none
      else
        match chars with
        | [] => some (s, [])
        | cmd2 :: chars =>
            if cmd2 = WILL ∨ cmd2 = WONT ∨ cmd2 = DONT ∨ cmd2 = DO then some (s, chars.drop 1)
            else if cmd2 = SB then some (s.subnegotiation chars)
            else some (s, chars)

/-- The loop, with the number of turns bounded. -/
def negotiateFrom : Nat → Session → Bytes → Session × Bytes
  | 0, s, chars => (s, chars)
  | fuel + 1, s, chars =>
      match s.takeCommand chars with
      | none => (s, chars)
      | some (s, chars) => negotiateFrom fuel s chars

/-- The loop over the telnet commands; every turn takes a byte at least. -/
def negotiate (s : Session) (chars : Bytes) : Session × Bytes :=
  negotiateFrom chars.length s chars

end Session

/-! ## Completion -/

/-- How far two strings agree. -/
def strmax : Bytes → Bytes → Nat
  | a :: as, b :: bs => if a = b then strmax as bs + 1 else 0
  | _, _ => 0

/-- `getAutoAppendString`: what all the strings that start with `templ` have in
common behind it. -/
def getAutoAppendString (v : List Bytes) (templ : Bytes) : Bytes :=
  match v.filter (templ.isPrefixOf ·) with
  | [] => []
  | w :: vm =>
      let max := (w :: vm).foldl (fun max x => if strmax w x < max then strmax w x else max)
        w.length
      (w.drop templ.length).take (max - templ.length)

namespace Service

variable (sv : Service)

/-- The node of the session. -/
def node (s : Session) : Node := sv.cmdEntries.node s.mxDefaultNode

/-- `Node::path`; the root has an empty name. -/
def path (s : Session) : Bytes := join (text "/") ([] :: s.mxDefaultNode)

def promptString (s : Session) : Bytes := sv.mDeviceName ++ text ":" ++ path s ++ text "$ "

def prompt (s : Session) : Sent := .write (sv.promptString s)

/-- The line is erased and the cursor put in front of it. -/
def eraseLine (s : Session) : Sent :=
  .write (Vt100.eraseLine ++
    Vt100.cursorBack (int32 ((sv.promptString s).length + s.curpos + 100)))

/-! ## `processCommand` -/

/-- What a C function reads of a string. -/
def cStr (s : Bytes) : Bytes := s.takeWhile (· ≠ 0)

/-- `paramMatch`. -/
def paramMatch (param exp : Bytes) : Except Fault Bool :=
  match sv.cmdEntries.getRegex param with
  | none => .error (.thrown "param type '%s' is not defined")
  | some regexp =>
      match sv.regcomp (cStr regexp) with
      | .error _ => .error (.thrown "regex '%s' %s")
      | .ok regexec =>
          match regexec (cStr exp) with
          | none => .ok false
          | some (rmSo, rmEo) => .ok (rmEo - rmSo = exp.length)

/-- The loop over the parameters of a command. -/
def paramsMatch : List Bytes → List Bytes → Except Fault Bool
  | param :: params, exp :: exps => do
      if ← sv.paramMatch param exp then paramsMatch params exps else return false
  | _, _ => .ok true

/-- The words of the line are as many as those of the command and its
parameters, and begin with those of the command. -/
def Called (c : Command) (tokens : List Bytes) : Prop :=
  tokens.length = c.cmd.length + c.params.length ∧ tokens.take c.cmd.length = c.cmd

instance decidableCalled (c : Command) (tokens : List Bytes) : Decidable (Called c tokens) :=
  inferInstanceAs (Decidable (_ ∧ _))

/-- The loop over the commands of a node. -/
def findCommand (tokens : List Bytes) : List Command → Except Fault (Option Command)
  | [] => .ok none
  | c :: cs =>
      if Called c tokens then do
        if ← sv.paramsMatch c.params (tokens.drop c.cmd.length) then return some c
        else findCommand tokens cs
      else findCommand tokens cs

/-- The end of `processCommand`. -/
def invalid (s : Session) (cmd : Bytes) : Turn :=
  ⟨s, (if cmd ≠ [] then [.write (cmd ++ text ": invalid command" ++ crlf)] else []) ++
    [sv.prompt s], none⟩

/-- A line of a help page. -/
def helpLine (i : Bytes × Bytes) : Sent := .write (bright i.1 ++ text " - " ++ i.2 ++ crlf)

/-- What the help says of a command. -/
def commandLine (c : Command) : Bytes × Bytes :=
  (if c.params ≠ [] then
      join (text " ") c.cmd ++ text " [" ++ join (text " ") c.params ++ text "]"
    else join (text " ") c.cmd, c.help)

/-- `ls` and `help`. -/
def help (s : Session) (tokens : List Bytes) : Turn :=
  if (tokens[1]?).map strlower = some (text "types") then
    ⟨s, .write (text "Registered types " ++ crlf ++ crlf) ::
      sv.cmdEntries.getHelpOnTypes.map helpLine ++ [sv.prompt s], none⟩
  else if (tokens[1]?).map strlower = some (text "typex") then
    ⟨s, .write (text "Templates of registered types " ++ crlf ++ crlf) ::
      sv.cmdEntries.getHelpOnRe.map helpLine ++ [sv.prompt s], none⟩
  else
    let path := if path s = [] then text "/" else path s
    ⟨s, .write (text "Commands in '" ++ path ++ text "'" ++ crlf ++ crlf) ::
      [(text "help", text "display this page"),
        (text "help types", text "display types of parameters"),
        (text "help typex", text "display regex of parameters"),
        (text "quit", text "quit console"),
        (text "..", text "go to parent directory")].map helpLine ++
      (sv.node s).children.toList.map (fun name =>
        helpLine (name, (sv.cmdEntries.node (s.mxDefaultNode ++ [name])).help)) ++
      (sv.node s).commandList.map (fun c => helpLine (commandLine c)) ++ [sv.prompt s], none⟩

/-- The line is none of the built-in commands and no directory. -/
def callCommand (s : Session) (cmd : Bytes) (tokens : List Bytes) : Turn :=
  match sv.findCommand tokens (sv.node s).commandList with
  | .error fault => ⟨s, [], some fault⟩
  | .ok none => sv.invalid s cmd
  | .ok (some c) => ⟨s, [.commandEntered tokens c.dstService.popped], none⟩

/-- `processCommand` behind the splitting. -/
def execute (s : Session) (cmd : Bytes) (tokens : List Bytes) : Turn :=
  match tokens with
  | [] => sv.invalid s cmd
  | word :: _ =>
      if strlower word = text "quit" then ⟨s, [.write crlf, .markedToDestroyOnSend], none⟩
      else if strlower word = text "ls" ∨ strlower word = text "help" then sv.help s tokens
      else if strlower word = text "cd" then sv.invalid s cmd
      else if word = text ".." then
        -- the root has no parent
        let s := { s with mxDefaultNode := s.mxDefaultNode.dropLast }
        ⟨s, [sv.prompt s], none⟩
      else if word ∈ (sv.node s).children then
        let s := { s with mxDefaultNode := s.mxDefaultNode ++ [word] }
        ⟨s, [sv.prompt s], none⟩
      else sv.callCommand s cmd tokens

/-- `processCommand`. -/
def processCommand (s : Session) : Turn :=
  let cmd := s.mxCurrentCommandLine
  let s := { s with
    mxCurrentCommandLine := []
    mxCommandHistory := s.mxCommandHistory ++ [cmd]
    commandHistoryPos := 0 }
  (sv.execute s cmd (splitString [32, 9] cmd)).after [.write crlf]

end Service

/-! ## Keys -/

namespace Session

/-- The session is as it was, and nothing is sent. -/
def quiet (s : Session) : Turn := ⟨s, [], none⟩

/-- The size of the line as an `int`. -/
def lineSize (s : Session) : Int := int32 s.mxCurrentCommandLine.length

/-- The line without the character at `curpos`; two handlers cut it out. -/
def withoutChar (s : Session) (curpos : Int) : Option Bytes := do
  let line := s.mxCurrentCommandLine
  let front ← substr line 0 (sizeT curpos)
  let back ← substr line (sizeT (curpos + 1)) (sizeT (line.length - curpos - 1))
  return front ++ back

def onInsert (s : Session) : Turn :=
  let s := { s with insertMode := !s.insertMode }
  ⟨s, [.write (if s.insertMode then Vt100.insertMode else Vt100.replaceMode)], none⟩

/-- `on_TKEY_BS`, and what is written. -/
def onTkeyBs (s : Session) : Turn :=
  if s.curpos > 0 then
    let s := { s with curpos := s.curpos - 1 }
    if s.curpos < s.lineSize then
      match s.withoutChar s.curpos with
      | none => ⟨s, [], some .outOfRange⟩
      | some line =>
          ⟨{ s with mxCurrentCommandLine := line },
            [.write (Vt100.cursorBackOne ++ Vt100.erase)], none⟩
    else s.quiet
  else s.quiet

def onDelete (s : Session) : Turn :=
  if s.curpos < s.lineSize then
    match s.withoutChar s.curpos with
    | none => ⟨s, [], some .outOfRange⟩
    | some line => ⟨{ s with mxCurrentCommandLine := line }, [.write Vt100.erase], none⟩
  else s.quiet

def onLeft (s : Session) : Turn :=
  let cp := s.curpos
  if cp > 0 then
    let s := { s with curpos := cp - 1 }
    if s.width = 0 then ⟨s, [], some .divideByZero⟩
    else if cp.tmod s.width = 0 then
      ⟨s, [.write (Vt100.cursorUp ++ Vt100.cursorForward (s.width - 1))], none⟩
    else ⟨s, [.write TKey.left.code], none⟩
  else s.quiet

def onRight (s : Session) : Turn :=
  if s.curpos < s.lineSize then
    let s := { s with curpos := int32 (s.curpos + 1) }
    if s.width = 0 then ⟨s, [], some .divideByZero⟩
    else if s.curpos.tmod s.width = 0 then
      ⟨s, [.write (Vt100.cursorDown ++ Vt100.cursorBack (s.width - 1))], none⟩
    else ⟨s, [.write TKey.right.code], none⟩
  else s.quiet

/-- The line of the history `next` goes to. -/
def historyIdx (s : Session) (next : Int) : Int :=
  s.mxCommandHistory.length + s.commandHistoryPos + next

/-- There is a line `next` further on in the history. -/
def InHistory (s : Session) (next : Int) : Prop :=
  0 ≤ int32 (s.historyIdx next) ∧ int32 (s.historyIdx next) < int32 s.mxCommandHistory.length

instance decidableInHistory (s : Session) (next : Int) : Decidable (s.InHistory next) :=
  inferInstanceAs (Decidable (_ ∧ _))

/-- What is written at the end of `TKEY_UP` and `TKEY_DOWN`. -/
def showCommand (sv : Service) (s : Session) (cmd : Bytes) : Turn :=
  ⟨s, [sv.eraseLine s, sv.prompt s, .write cmd], none⟩

/-- `TKEY_UP` and `TKEY_DOWN`. -/
def onHistory (sv : Service) (s : Session) (next : Int) : Turn :=
  if s.mxCommandHistory = [] then s.quiet
  else if s.InHistory next then
    match s.mxCommandHistory[sizeT (s.historyIdx next)]? with
    | none => ⟨s, [], some .outOfRange⟩
    | some line =>
        { s with
          mxCurrentCommandLine := line
          curpos := int32 line.length
          commandHistoryPos := int32 (s.commandHistoryPos + next) }.showCommand sv line
  else { s with curpos := 0 }.showCommand sv []

/-- What `TKEY_TAB` appends: the names of the commands and the directories are
completed as far as they agree. -/
def completion (sv : Service) (s : Session) : Bytes :=
  let commands := (sv.node s).commands.toList.map (fun i => join (text " ") i.1) ++
    (sv.node s).children.toList
  getAutoAppendString commands s.mxCurrentCommandLine

def onTab (sv : Service) (s : Session) : Turn :=
  let append := s.completion sv
  ⟨{ s with
      mxCurrentCommandLine := s.mxCurrentCommandLine ++ append
      curpos := int32 (s.curpos + append.length) }, [.write append], none⟩

/-- The cursor is put into the line before a character is. -/
def clamped (s : Session) : Session :=
  let curpos := if s.curpos < 0 then 0 else s.curpos
  { s with curpos := if curpos > s.lineSize then s.lineSize else curpos }

/-- The line with a character in insert mode. -/
def withInserted (s : Session) (c : UInt8) : Option Bytes := do
  let line := s.mxCurrentCommandLine
  let front ← substr line 0 (sizeT s.curpos)
  let back ← substr line (sizeT s.curpos) (sizeT (line.length - s.curpos))
  return front ++ [c] ++ back

/-- The line with a character in replace mode. -/
def withReplaced (s : Session) (c : UInt8) : Option Bytes :=
  let line := s.mxCurrentCommandLine
  if s.curpos = s.lineSize then some (line ++ [c])
  else if sizeT s.curpos < line.length then some (line.set (sizeT s.curpos) c)
  else none

/-- A character of text. -/
def onText (s : Session) (c : UInt8) : Turn :=
  let s := s.clamped
  match if s.insertMode then s.withInserted c else s.withReplaced c with
  | none => ⟨s, [], some .outOfRange⟩
  | some line =>
      ⟨{ s with mxCurrentCommandLine := line, curpos := int32 (s.curpos + 1) },
        [.write [c]], none⟩

/-- The first byte of what is no key; the rest is dropped. -/
def onChar (sv : Service) (s : Session) (c : UInt8) : Turn :=
  if c = 3 then ⟨s, [.write (text "^C" ++ crlf), .markedToDestroyOnSend], none⟩
  else if c = 9 then s.quiet
  else if c = 13 then sv.processCommand s
  else s.onText c

/-- The comparisons of `on_StreamRead` with the codes of the keys. -/
def onKey (sv : Service) (s : Session) (out : Bytes) : Turn :=
  match TKey.of out with
  | some .insert => s.onInsert
  | some .bs1 => s.onTkeyBs
  | some .bs2 => s.onTkeyBs
  | some .delete => s.onDelete
  | some .left => s.onLeft
  | some .right => s.onRight
  | some .up => s.onHistory sv (-1)
  | some .down => s.onHistory sv 1
  | some .esc => ⟨s, [sv.eraseLine s, sv.prompt s], none⟩
  | some .tab => s.onTab sv
  | some _ => s.quiet
  | none =>
      match out with
      | [] => s.quiet
      | c :: _ => s.onChar sv c

/-- `on_StreamRead`. -/
def onStreamRead (sv : Service) (s : Session) (chunk : Bytes) : Turn :=
  (s.negotiate chunk).1.onKey sv (s.negotiate chunk).2

end Session

/-! ## Runs -/

/-- `on_Accepted`: the options are negotiated, and the window size is asked for. -/
def onAccepted (sv : Service) : Turn :=
  ⟨.fresh, [.write ([255, 253, 34, 255, 251, 1] ++ Vt100.insertMode),
    .write [IAC, DO, TELOPT_NAWS], sv.prompt .fresh], none⟩

/-- A session, what was done to its connection, and where the last chunk
failed. -/
structure Console where
  session : Session
  sent : List Sent
  fault : Option Fault

/-- The next turn of a console. -/
def Console.then (c : Console) (t : Turn) : Console := ⟨t.session, c.sent ++ t.sent, t.fault⟩

/-- The chunks of a client, each with the service as it is when the chunk comes:
other services may have registered types and commands in between.  An exception
ends the handler, a division by zero the program. -/
def machine : Machine Console (Service × Bytes) where
  init c := ∃ sv, c = ⟨(onAccepted sv).session, (onAccepted sv).sent, none⟩
  enabled c _ := c.fault ≠ some .divideByZero
  apply c a := c.then (c.session.onStreamRead a.1 a.2)

instance decidableMachineEnabled (c : Console) (a : Service × Bytes) :
    Decidable (machine.enabled c a) :=
  inferInstanceAs (Decidable (c.fault ≠ some .divideByZero))

end Megatron.Telnet
