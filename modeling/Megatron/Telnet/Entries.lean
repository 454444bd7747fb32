import Megatron.Http.Text
import Megatron.Lib.OrdMap
import Megatron.Referrer.Service

/-!
# The commands of a telnet console

Services register commands in a tree of directories, with a type for every
parameter.  A node is known by the names that lead to it from the root: nodes
are only ever added, and a child is found under its own name.

That every parameter of a registered command has a registered type is checked
at the registration, and types stay; it is a field of `CommandEntries`.

## Main results

* `getRegex_isSome` — the type of a parameter is found.
-/

namespace Megatron.Telnet

open Megatron.Corelib (Bytes)
open Megatron.Http (splitString text)
open Megatron.Lib
open Megatron.Referrer (BackRoute)

/-- `_Command`.  `dstService` is the route of the registration, whose front is
popped before it is stored. -/
structure Command where
  dstService : BackRoute
  cmd : List Bytes
  params : List Bytes
  help : Bytes

/-- `Node`, without its name and its parent, which the way to it gives. -/
structure Node where
  help : Bytes
  children : OrdSet Bytes
  commands : OrdMap (List Bytes) Command

/-- The commands of a node, as they are walked. -/
def Node.commandList (n : Node) : List Command := n.commands.toList.map (·.2)

/-- `CommandEntries`: the nodes by the names that lead to them, and the pattern
and the help of every type. -/
structure CommandEntries where
  node : List Bytes → Node
  types : OrdMap Bytes (Bytes × Bytes)
  registered : ∀ d, ∀ c ∈ (node d).commandList, ∀ p ∈ c.params, (types.get? p).isSome

namespace CommandEntries

/-- `getRegex`; it throws where the type is not registered. -/
def getRegex (e : CommandEntries) (param : Bytes) : Option Bytes :=
  (e.types.get? param).map (·.1)

/-- `getHelpOnTypes`. -/
def getHelpOnTypes (e : CommandEntries) : List (Bytes × Bytes) :=
  e.types.toList.map fun i => (i.1, i.2.2)

/-- `getHelpOnRe`. -/
def getHelpOnRe (e : CommandEntries) : List (Bytes × Bytes) :=
  e.types.toList.map fun i => (i.1, i.2.1)

theorem getRegex_isSome (e : CommandEntries) {d : List Bytes} {c : Command}
    (hc : c ∈ (e.node d).commandList) {p : Bytes} (hp : p ∈ c.params) :
    (e.getRegex p).isSome := by
  simpa [getRegex] using e.registered d c hc p hp

/-! ## Registration -/

/-- `registerType`: the first pattern stays. -/
def registerType (e : CommandEntries) (name pattern help : Bytes) : CommandEntries :=
  if h : (e.types.get? name).isSome then e
  else
    { e with
      types := e.types.insert name (pattern, help)
      registered := by
        intro d c hc p hp
        have hOld := e.registered d c hc p hp
        have hNe : p ≠ name := by
          rintro rfl
          exact h hOld
        rwa [OrdMap.get?_insert_of_ne hNe] }

/-- The walk of `getSubDir` from the root; where it fails the registration
throws. -/
def Reaches (e : CommandEntries) : List Bytes → List Bytes → Prop
  | _, [] => True
  | d, name :: names => name ∈ (e.node d).children ∧ e.Reaches (d ++ [name]) names

instance decidableReaches (e : CommandEntries) :
    ∀ d names, Decidable (e.Reaches d names)
  | _, [] => .isTrue trivial
  | d, name :: names =>
      @instDecidableAnd _ _ (OrdSet.instDecidableMem name (e.node d).children)
        (decidableReaches e (d ++ [name]) names)

/-- A node is put in the place of another. -/
def setNode (e : CommandEntries) (d : List Bytes) (n : Node)
    (hn : ∀ c ∈ n.commandList, ∀ p ∈ c.params, (e.types.get? p).isSome) : CommandEntries where
  node := Function.update e.node d n
  types := e.types
  registered := by
    intro d' c hc p hp
    by_cases hd : d' = d
    · subst hd
      rw [Function.update_self] at hc
      exact hn c hc p hp
    · rw [Function.update_of_ne hd] at hc
      exact e.registered d' c hc p hp

/-- `registerDirectory`; a child that is there stays. -/
def registerDirectory (e : CommandEntries) (d : List Bytes) (name help : Bytes) :
    Except String CommandEntries :=
  if ¬ e.Reaches [] d then .error "cannot find subdir '%s'"
  else if name ∈ (e.node d).children then .ok e
  else
    .ok <|
      (e.setNode d { e.node d with children := (e.node d).children.insert name }
          (e.registered d)).setNode
        (d ++ [name]) ⟨help, ∅, ∅⟩ (fun _ hc => absurd hc List.not_mem_nil)

theorem mem_commandList_insert {n : Node} {cmd : List Bytes} {c c' : Command}
    (h : c' ∈ ({ n with commands := n.commands.insert cmd c } : Node).commandList) :
    c' = c ∨ c' ∈ n.commandList := by
  obtain ⟨x, hx, rfl⟩ := List.mem_map.1 h
  rcases OrdMap.mem_insertList hx with rfl | hx
  · exact Or.inl rfl
  · exact Or.inr (List.mem_map_of_mem hx)

/-- `registerCommand`; a command of the same words is replaced. -/
def registerCommand (e : CommandEntries) (d : List Bytes) (cmd help : Bytes) (dst : BackRoute)
    (params : Bytes) : Except String CommandEntries :=
  let pars := splitString (text " ") params
  if hTypes : ∀ p ∈ pars, (e.types.get? p).isSome then
    if ¬ e.Reaches [] d then .error "cannot find subdir '%s'"
    else
      let words := splitString (text " ") cmd
      .ok <| e.setNode d
        { e.node d with commands := (e.node d).commands.insert words ⟨dst, words, pars, help⟩ }
        (fun c hc => by
          rcases mem_commandList_insert hc with rfl | hc
          · exact hTypes
          · exact e.registered d c hc)
  else .error "param type '%s' is not defined"

/-- `on_RegisterCommand`: the directories on the way are made first. -/
def onRegisterCommand (e : CommandEntries) (directory cmd help params : Bytes)
    (route : BackRoute) : Except String CommandEntries :=
  let d := splitString (text "/") directory
  let rec makeDirectories (e : CommandEntries) (dbase : List Bytes) :
      List Bytes → Except String CommandEntries
    | [] => .ok e
    | name :: names => do
        let e ← e.registerDirectory dbase name (text "Directory")
        makeDirectories e (dbase ++ [name]) names
  do
    let e ← makeDirectories e [] d
    e.registerCommand d cmd help route params

end CommandEntries

end Megatron.Telnet
