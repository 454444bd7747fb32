import Mathlib.Data.Multiset.Defs
import Megatron.Corelib.Cursor
import Megatron.Corelib.OutBuffer
import Megatron.Lib.Comparator

/-!
# Typed values

`operator<<` and `operator>>` for every type the corelib defines them for:
integers, `bool`, strings, refbuffers and the containers of such values, to
any depth.  `Ty` is the types; `Ty.Val` the values of one, the elements of an
ordered container in the order of its comparator.

A refbuffer is compared by its address, not by its bytes, so what a set of
them looks like after it has been read depends on where the new ones lie
(`Platform.address`).  `Ty.content` is a value without the addresses and
without the order that they make.
-/

namespace Megatron.Corelib

open Megatron.Lib

inductive Width
  | w8 | w16 | w32 | w64
  deriving DecidableEq, Repr

def Width.bits : Width → Nat
  | w8 => 8
  | w16 => 16
  | w32 => 32
  | w64 => 64

/-- The sequence containers. -/
inductive Seq
  | vector | list | deque
  deriving DecidableEq, Repr

/-- The types; `real` is `double` and `float`, which travel as text. -/
inductive Ty
  | int (signed : Bool) (width : Width)
  | bool
  | real
  | string
  | refbuffer
  | seq (kind : Seq) (elem : Ty)
  | set (elem : Ty)
  | map (key value : Ty)
  | pair (first second : Ty)
  deriving DecidableEq, Repr

/-- A valid reference to a refbuffer: its address and its bytes. -/
structure Ref where
  addr : Nat
  text : Bytes
  deriving DecidableEq, Repr

namespace Ty

/-- The values of a type. -/
def Val : Ty → Type
  | int _ width => BitVec width.bits
  | bool => Bool
  | real => Bytes
  | string => Bytes
  | refbuffer => Ref
  | seq _ elem => List elem.Val
  | set elem => List elem.Val
  | map key value => List (key.Val × value.Val)
  | pair first second => first.Val × second.Val

/-- What a value says, without the addresses and without their order. -/
def Content : Ty → Type
  | int _ width => BitVec width.bits
  | bool => Bool
  | real => Bytes
  | string => Bytes
  | refbuffer => Bytes
  | seq _ elem => List elem.Content
  | set elem => Multiset elem.Content
  | map key value => Multiset (key.Content × value.Content)
  | pair first second => first.Content × second.Content

def content : (t : Ty) → t.Val → t.Content
  | int _ _, v => v
  | bool, v => v
  | real, v => v
  | string, v => v
  | refbuffer, v => v.text
  | seq _ elem, l => List.map elem.content l
  | set elem, l => Multiset.ofList (List.map elem.content l)
  | map key value, l => Multiset.ofList (List.map (fun e => (key.content e.1, value.content e.2)) l)
  | pair first second, v => (first.content v.1, second.content v.2)

/-- The addresses of the refbuffers in a value. -/
def addrs : (t : Ty) → t.Val → List Nat
  | int _ _, _ | bool, _ | real, _ | string, _ => []
  | refbuffer, v => [v.addr]
  | seq _ elem, l => List.flatMap elem.addrs l
  | set elem, l => List.flatMap elem.addrs l
  | map key value, l => List.flatMap (fun e => key.addrs e.1 ++ value.addrs e.2) l
  | pair first second, v => first.addrs v.1 ++ second.addrs v.2

end Ty

/-- What the platform decides: which allocations are granted, where the
refbuffers lie that a program makes (the `n`th at `address n`), how the texts
of two floating-point numbers compare. -/
structure Platform where
  malloc : UInt64 → Bool
  reserve : Ty → UInt32 → Bool
  address : Nat → Nat
  address_injective : Function.Injective address
  realLt : Bytes → Bytes → Bool

/-- One that grants everything and lays out its refbuffers in order. -/
def Platform.plain : Platform := ⟨fun _ => true, fun _ _ => true, id, Function.injective_id,
  fun _ _ => false⟩

namespace Ty

/-- An integer as `static_cast<uint64_t>` makes it. -/
def toWord (signed : Bool) {width : Width} (v : BitVec width.bits) : UInt64 :=
  ⟨if signed then v.signExtend 64 else v.setWidth 64⟩

/-- `v.size()` as an `unsigned int`, written as a packed number. -/
def putCount (n : Nat) : Bytes := putPN (UInt32.ofNat n).toUInt64

/-- The bytes `operator<<` appends. -/
def put : (t : Ty) → t.Val → Bytes
  | int signed _, v => putPN (toWord signed v)
  | bool, v => putPN (Bool.toUInt64 v)
  | real, v => putPSTR v
  | string, v => putPSTR v
  | refbuffer, v => putRefbuffer (some v.text)
  | seq _ elem, l => putCount (List.length l) ++ List.flatMap elem.put l
  | set elem, l => putCount (List.length l) ++ List.flatMap elem.put l
  | map key value, l =>
      putCount (List.length l) ++ List.flatMap (fun e => key.put e.1 ++ value.put e.2) l
  | pair first second, v => first.put v.1 ++ second.put v.2

/-- `operator<`. -/
def lt (pl : Platform) : (t : Ty) → t.Val → t.Val → Bool
  | int signed _, x, y => if signed then BitVec.slt x y else BitVec.ult x y
  | bool, x, y => !x && y
  | real, x, y => pl.realLt x y
  | string, x, y => lexLt (fun a b => decide (a < b)) x y
  | refbuffer, x, y => decide (x.addr < y.addr)
  | seq _ elem, x, y => lexLt (elem.lt pl) x y
  | set elem, x, y => lexLt (elem.lt pl) x y
  | map key value, x, y => lexLt (pairLt (key.lt pl) (value.lt pl)) x y
  | pair first second, x, y => pairLt (first.lt pl) (second.lt pl) x y

end Ty

namespace Cursor

/-- `operator>> (inBuffer&, REF_getter<refbuffer>&)`: how it ends, the
refbuffer the reference then points to, and the buffer. -/
def readRefbuffer (pl : Platform) (old : Refbuffer) (s : Cursor) :
    Except Stop Unit × Refbuffer × Cursor :=
  match getPN s with
  | (.error e, s) => (.error e, old, s)
  | (.ok size, s) =>
      let s := { s with made := s.made + 1 }
      if size ≠ 0 then
        if pl.malloc (size + 0x20) then
          let block : Block UInt8 := Block.malloc (size + 0x20).toNat
          match unpackInto size s with
          | (.error e, s) => (.error e, ⟨some block, size, size + 0x20⟩, s)
          | (.ok d, s) =>
              match block.write 0 d with
              | some block => (.ok (), ⟨some block, size, size + 0x20⟩, s)
              | none => (.error .outside, ⟨some block, size, size + 0x20⟩, s)
        else (.error (.thrown ⟨"memory alloc error "⟩), .new, s)
      else (.ok (), .new, s)

/-- `readRefbuffer` into a new reference. -/
def getRef (pl : Platform) : In Ref := fun s =>
  match readRefbuffer pl .new s with
  | (.ok _, r, s) => (.ok ⟨pl.address (s.made - 1), r.bytes.filterMap id⟩, s)
  | (.error e, _, s) => (.error e, s)

/-- `unsigned int n; b >> n;` -/
def getCount : In UInt32 := do return (← getPN).toUInt32

/-- `v.reserve(n)`, which only vectors ask for. -/
def reserve (pl : Platform) (kind : Seq) (elem : Ty) (n : UInt32) : In Unit :=
  if kind = .vector ∧ pl.reserve elem n = false then throw .badAlloc else return ()

/-- `v.push_back(t)` or `v.insert(t)`. -/
def insertion {α : Type} (x : α) : In α := fun s =>
  (.ok x, { s with inserted := s.inserted + 1 })

/-- The loop over the elements: `n` more of them, each read by `get` and put
by `add` into the container. -/
def fill {α : Type} (add : List α → α → List α) (get : In α) : Nat → List α → In (List α)
  | 0, v => return v
  | n + 1, v => do
      let t ← get
      let v ← insertion (add v t)
      fill add get n v

/-- `operator>>`. -/
def extract (pl : Platform) : (t : Ty) → In t.Val
  | .int _ width => do return (← getPN).toBitVec.setWidth width.bits
  | .bool => do return (← getPN) != 0
  | .real => getPSTR
  | .string => getPSTR
  | .refbuffer => getRef pl
  | .seq kind elem => do
      let n ← getCount
      reserve pl kind elem n
      fill (fun v t => v ++ [t]) (extract pl elem) n.toNat []
  | .set elem => do
      let n ← getCount
      fill (fun v t => insertBy (elem.lt pl) t v) (extract pl elem) n.toNat []
  | .map key value => do
      let n ← getCount
      fill (fun v t => insertBy (fun x y => key.lt pl x.1 y.1) t v)
        (do
          let t1 ← extract pl key
          let t2 ← extract pl value
          return (t1, t2)) n.toNat []
  | .pair first second => do
      let a ← extract pl first
      let b ← extract pl second
      return (a, b)

end Cursor

end Megatron.Corelib
