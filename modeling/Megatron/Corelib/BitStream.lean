import Megatron.Corelib.Cursor
import Megatron.Corelib.OutBuffer
import Megatron.Lib.Stateful

/-!
# Streams of bytes and bits

`outBitStream` and `inBitStream`: like `outBuffer` and `inBuffer`, with a
position that also counts the bits that are left of the byte it is in.  The
operations on bytes throw unless these are eight.  A bit is shifted into its
byte from the right, whatever the byte held before.

What the platform decides is part of an `OutBitStream`: the answers of
`realloc`, and what memory holds that nothing was written to.  A read or a write
of a byte that is not there stops the program (`Stop.outside`).  In the texts of
the exceptions the file and the line are left out.
-/

namespace Megatron.Corelib

open Megatron.Lib

/-- `BitsPosition`. -/
structure BitsPosition where
  pos : UInt64
  bitsRemainsInByte : UInt64 := 8

/-- The exception of an operation on bytes that starts inside of one. -/
def boundaryError (p : BitsPosition) : Stop :=
  .thrown ⟨"boundary error on BitStream remainder " ++ toString p.bitsRemainsInByte⟩

/-- The position behind one bit. -/
def BitsPosition.next (p : BitsPosition) : BitsPosition :=
  if p.bitsRemainsInByte - 1 = 0 then ⟨p.pos + 1, 8⟩ else ⟨p.pos, p.bitsRemainsInByte - 1⟩

/-- The position after a bit. -/
theorem BitsPosition.next_eq (p : BitsPosition) (hRem : 1 ≤ p.bitsRemainsInByte.toNat) :
    (p.bitsRemainsInByte.toNat = 1 ∧ p.next = ⟨p.pos + 1, 8⟩) ∨
      (1 < p.bitsRemainsInByte.toNat ∧ p.next = ⟨p.pos, p.bitsRemainsInByte - 1⟩ ∧
        p.next.bitsRemainsInByte.toNat = p.bitsRemainsInByte.toNat - 1) := by
  have hLess : (p.bitsRemainsInByte - 1).toNat = p.bitsRemainsInByte.toNat - 1 :=
    UInt64.toNat_sub_of_le _ _ (UInt64.le_iff_toNat_le.2 hRem)
  rw [BitsPosition.next]
  by_cases hLast : p.bitsRemainsInByte - 1 = 0
  · have hZero := congrArg UInt64.toNat hLast
    rw [hLess] at hZero
    rw [if_pos hLast]
    exact Or.inl ⟨by
      have hEnd : p.bitsRemainsInByte.toNat - 1 = 0 := hZero
      omega, rfl⟩
  · have hMore : p.bitsRemainsInByte.toNat - 1 ≠ 0 := by
      intro hZero
      exact hLast (UInt64.toNat_inj.1 (hLess.trans hZero))
    rw [if_neg hLast]
    exact Or.inr ⟨by omega, rfl, hLess⟩

/-- `e.append(text); throw;`. -/
def annotate {σ α : Type} (text : String) (p : Stateful Stop σ α) : Stateful Stop σ α := fun s =>
  match p s with
  | (.error (.thrown e), s') => (.error (.thrown ⟨e.what ++ text⟩), s')
  | r => r

/-! ## `outBitStream` -/

structure OutBitStream where
  buffer : Option (Block UInt8)
  bufsize : UInt64
  mPos : BitsPosition
  /-- Whether the next calls of `realloc` succeed; behind these all do. -/
  answers : List Bool
  /-- What is in the cells that hold nothing yet. -/
  stale : ℕ → UInt8

/-- An operation on an `outBitStream`. -/
abbrev BitOut := Stateful Stop OutBitStream

namespace OutBitStream

/-- The constructor, where `malloc` succeeds. -/
def construct (answers : List Bool) (stale : ℕ → UInt8) : OutBitStream where
  buffer := some (Block.malloc 256)
  bufsize := 256
  mPos := ⟨0, 8⟩
  answers := answers
  stale := stale

/-- The cells of the block; none where it is `NULL`. -/
def block (o : OutBitStream) : Block UInt8 := o.buffer.getD []

/-- The test that the operations on bytes begin with. -/
def boundary : BitOut Unit := fun o =>
  if o.mPos.bitsRemainsInByte ≠ 8 then (.error (boundaryError o.mPos), o) else (.ok (), o)

/-- `adjust`; a `realloc` that fails has replaced the pointer already. -/
def adjust (n : UInt64) : BitOut Unit := fun o =>
  if o.mPos.pos + n ≥ o.bufsize then
    let nnew := o.mPos.pos + n + 1024
    if o.answers.head? = some false then
      (.error (.thrown ⟨"alloc error sz=" ++ toString nnew.toUInt32.toInt32.toInt⟩),
        { o with buffer := none, answers := o.answers.tail })
    else
      (.ok (), { o with
        buffer := some (o.block.realloc nnew.toNat)
        bufsize := nnew
        answers := o.answers.tail })
  else (.ok (), o)

/-- Bytes are written at the position. -/
def store (s : Bytes) : BitOut Unit := fun o =>
  if s = [] then (.ok (), o)
  else if o.mPos.pos.toNat + s.length ≤ o.bufsize.toNat then
    match o.buffer.bind fun b => b.write o.mPos.pos.toNat s with
    | some b => (.ok (), { o with buffer := some b })
    | none => (.error .outside, o)
  else (.error .outside, o)

/-- `m_pos.pos += n`. -/
def advance (n : UInt64) : BitOut Unit := fun o =>
  (.ok (), { o with mPos := { o.mPos with pos := o.mPos.pos + n } })

/-- `buffer[m_pos.pos++] = c`. -/
def putByte (c : UInt8) : BitOut Unit := do
  store [c]
  advance 1

/-- `pack`, all three of them. -/
def pack (s : Bytes) : BitOut Unit := do
  boundary
  adjust (UInt64.ofNat s.length)
  store s
  advance (UInt64.ofNat s.length)

/-- Bytes that are written one after the other. -/
def putBytes : Bytes → BitOut Unit
  | [] => return
  | c :: s => do
      putByte c
      putBytes s

/-- What `put_8`, `put_16LE` and the others have in common. -/
def putWide (s : Bytes) : BitOut Unit := do
  boundary
  adjust (UInt64.ofNat s.length)
  putBytes s

def put8 (c : UInt8) : BitOut Unit := putWide [c]

def put16LE (l : UInt16) : BitOut Unit := putWide [(l &&& 0xFF).toUInt8, (l >>> 8 &&& 0xFF).toUInt8]

def put16BE (l : UInt16) : BitOut Unit := putWide [(l >>> 8 &&& 0xFF).toUInt8, (l &&& 0xFF).toUInt8]

def put32LE (l : UInt32) : BitOut Unit :=
  putWide [(l &&& 0xFF).toUInt8, (l >>> 8 &&& 0xFF).toUInt8, (l >>> 16 &&& 0xFF).toUInt8,
    (l >>> 24 &&& 0xFF).toUInt8]

def put32BE (l : UInt32) : BitOut Unit :=
  putWide [(l >>> 24 &&& 0xFF).toUInt8, (l >>> 16 &&& 0xFF).toUInt8, (l >>> 8 &&& 0xFF).toUInt8,
    (l &&& 0xFF).toUInt8]

/-- `put_8$`. -/
def putRaw8 (c : UInt8) : BitOut Unit := do
  boundary
  putByte c

/-- `Pack$`; the position moves on by an `int`. -/
def packRaw (s : Bytes) : BitOut Unit := do
  boundary
  store s
  advance (asInt (UInt64.ofNat s.length))

/-- Bytes that are written by `put_8$`. -/
def putRaw8s : Bytes → BitOut Unit
  | [] => return
  | c :: s => do
      putRaw8 c
      putRaw8s s

/-- The seven bits of an `int64_t` from bit `7 * k` on, which are shifted out of
it arithmetically. -/
def groupInt (n : Int64) (k : Nat) : UInt8 := ((n >>> Int64.ofNat (7 * k)) &&& 0x7F).toUInt64.toUInt8

/-- The inner loop of `operator<<` for an `int64_t`. -/
def putIntTail (n : Int64) : Nat → Bytes
  | 0 => [groupInt n 0]
  | k + 1 => (groupInt n (k + 1) ||| 0x80) :: putIntTail n k

/-- The outer loop. -/
def putIntFrom (n : Int64) : Nat → Bytes
  | 0 => putIntTail n 0
  | k + 1 => if groupInt n (k + 1) ≠ 0 then putIntTail n (k + 1) else putIntFrom n k

/-- `put_PN` and `put_PN$`; the loop starts at bit 56. -/
def putPN (n : UInt64) : BitOut Unit := do
  adjust 10
  putRaw8s (putPNFrom n 8)

/-- `operator<<` for a `uint64_t`. -/
def putUInt64 (n : UInt64) : BitOut Unit := do
  adjust 10
  putRaw8s (putPNFrom n 8)

/-- `operator<<` for an `int64_t`. -/
def putInt64 (n : Int64) : BitOut Unit := do
  adjust 10
  putRaw8s (putIntFrom n 8)

/-- `operator<<` for the smaller numbers, which are converted. -/
def putSmall (n : Int) : BitOut Unit := putPN (UInt64.ofInt n)

/-- `put_PSTR`. -/
def putPSTR (c : Bytes) : BitOut Unit := do
  adjust (5 + UInt64.ofNat c.length)
  putPN (UInt64.ofNat c.length)
  packRaw c

/-- One bit: the byte at the position is shifted and the bit set. -/
def putBit (bit : Bool) : BitOut Unit := fun o =>
  let c := ((o.block[o.mPos.pos.toNat]?).join).getD (o.stale o.mPos.pos.toNat)
  match store [c <<< 1 ||| (if bit then 1 else 0)] o with
  | (.ok _, o) => (.ok (), { o with mPos := o.mPos.next })
  | (.error e, o) => (.error e, o)

/-- `(val >> i) & 1`. -/
def bitOf (val : UInt32) (i : Nat) : Bool := decide (val >>> UInt32.ofNat i &&& 1 = 1)

/-- The loop of `put_bits`, from bit `i - 1` down. -/
def putBitsLoop (val : UInt32) : Nat → BitOut Unit
  | 0 => return
  | i + 1 => do
      putBit (bitOf val i)
      putBitsLoop val i

/-- `put_bits`; the number of bytes to make room for is rounded down. -/
def putBits (val : UInt32) (bitcount : Int32) : BitOut Unit := fun o =>
  if o.mPos.bitsRemainsInByte = 0 then (.error (boundaryError o.mPos), o)
  else (do
    adjust (UInt64.ofInt (bitcount.toInt.tdiv 8))
    putBitsLoop val bitcount.toInt.toNat) o

/-- `putTLVLength`; `put_bits` takes an `unsigned int`. -/
def putTLVLength (len : UInt64) : BitOut Unit := do
  boundary
  annotate "->outBitStream::putTLVLength" (
    if len < 128 then do
      putBits 0 1
      putBits len.toUInt32 7
    else do
      putBits 1 1
      if len < 0x10000 then do
        putBits 2 7
        putBits len.toUInt32 16
      else if len < 0x1000000 then do
        putBits 3 7
        putBits len.toUInt32 24
      else do
        putBits 4 7
        putBits len.toUInt32 32)

/-- `clear`. -/
def clear : BitOut Unit := fun o => (.ok (), { o with mPos := ⟨0, 8⟩ })

/-- `asString`: the cells up to the position. -/
def asString : BitOut (Block UInt8) := do
  boundary
  fun o =>
    if o.mPos.pos.toNat ≤ o.block.length then (.ok (o.block.take o.mPos.pos.toNat), o)
    else (.error .outside, o)

/-- `size`. -/
def size : BitOut UInt64 := do
  boundary
  fun o => (.ok o.mPos.pos, o)

end OutBitStream

/-! ## `inBitStream` -/

structure InBitStream where
  mData : Bytes
  mSize : UInt64
  mPos : BitsPosition

/-- An operation on an `inBitStream`. -/
abbrev BitIn := Stateful Stop InBitStream

namespace InBitStream

/-- The constructors, over the bytes of an object. -/
def ofObject (d : Object) : InBitStream := ⟨d.val, d.size, ⟨0, 8⟩⟩

/-- `remains`. -/
def remains (s : InBitStream) : UInt64 := s.mSize - s.mPos.pos

/-- The test that the operations on bytes begin with. -/
def boundary : BitIn Unit := fun s =>
  if s.mPos.bitsRemainsInByte ≠ 8 then (.error (boundaryError s.mPos), s) else (.ok (), s)

/-- `m_data[m_pos.pos]`. -/
def load : BitIn UInt8 := fun s =>
  match s.mData[s.mPos.pos.toNat]? with
  | some c => (.ok c, s)
  | none => (.error .outside, s)

/-- `m_data[m_pos.pos++]`. -/
def loadNext : BitIn UInt8 := do
  let c ← load
  fun s => (.ok c, { s with mPos := { s.mPos with pos := s.mPos.pos + 1 } })

/-- `m_pos.pos + n > m_size`. -/
def lacks (n : UInt64) : BitIn Bool := fun s => (.ok (decide (s.mPos.pos + n > s.mSize)), s)

/-- Bytes that are read one after the other. -/
def loadBytes : Nat → BitIn Bytes
  | 0 => return []
  | n + 1 => do
      let c ← loadNext
      return c :: (← loadBytes n)

/-- What `get_8`, `get_16LE` and the others have in common. -/
def getWide (n : Nat) (what : String) : BitIn Bytes := do
  boundary
  if ← lacks (UInt64.ofNat n) then throw (.thrown ⟨what⟩)
  loadBytes n

/-- What `get_8_nothrow` and the others have in common; `none` is `success = false`. -/
def getWideNothrow (n : Nat) : BitIn (Option Bytes) := do
  boundary
  if ← lacks (UInt64.ofNat n) then return none
  return some (← loadBytes n)

/-- The number with these bytes, the lowest first. -/
def littleEndian (s : Bytes) : UInt32 := s.foldr (fun c v => v <<< 8 + c.toUInt32) 0

/-- The number with these bytes, the highest first. -/
def bigEndian (s : Bytes) : UInt32 := s.foldl (fun v c => v <<< 8 + c.toUInt32) 0

def get8 : BitIn UInt8 := do
  return (← getWide 1 "inBitStream::get_8: noenough").headD 0

def get8Nothrow : BitIn (Option UInt8) := do
  return (← getWideNothrow 1).map fun s => s.headD 0

def get16LE : BitIn UInt16 := do
  return (littleEndian (← getWide 2 "get_16LE: noenough")).toUInt16

def get16LENothrow : BitIn (Option UInt16) := do
  return (← getWideNothrow 2).map fun s => (littleEndian s).toUInt16

def get16BE : BitIn UInt16 := do
  return (bigEndian (← getWide 2 "get_16BE: noenough")).toUInt16

def get32LE : BitIn UInt32 := do
  return littleEndian (← getWide 4 "get_32LE: noenough")

def get32BE : BitIn UInt32 := do
  return bigEndian (← getWide 4 "get_32BE: noenough")

/-- The loop of `get_PN`. -/
def getPNLoop : Nat → UInt64 → BitIn UInt64
  | 0, _ => throw .running
  | fuel + 1, nn => do
      let c ← get8
      if c < 0x80 then return nn <<< 7 ||| c.toUInt64
      else getPNLoop fuel (nn <<< 7 ||| (c &&& 0x7F).toUInt64)

/-- `get_PN`, watched for one round more than there are bytes. -/
def getPN : BitIn UInt64 := fun s => getPNLoop (s.mSize.toNat + 1) 0 s

/-- The loop of `get_PN_nothrow`. -/
def getPNNothrowLoop : Nat → UInt64 → BitIn (Option UInt64)
  | 0, _ => throw .running
  | fuel + 1, nn => do
      match ← get8Nothrow with
      | none => return none
      | some c =>
          if c < 0x80 then return some (nn <<< 7 ||| c.toUInt64)
          else getPNNothrowLoop fuel (nn <<< 7 ||| (c &&& 0x7F).toUInt64)

/-- `get_PN_nothrow`. -/
def getPNNothrow : BitIn (Option UInt64) := fun s => getPNNothrowLoop (s.mSize.toNat + 1) 0 s

/-- `beforeEnd`. -/
def beforeEnd : BitIn Bool := do
  boundary
  fun s => (.ok (decide (s.mPos.pos < s.mSize)), s)

/-- The loop of `get_PSTR`, with `sz - i` rounds to go. -/
def getPSTRLoop : Nat → Bytes → BitIn Bytes
  | 0, container => return container
  | n + 1, container => do
      if ← beforeEnd then getPSTRLoop n (container ++ [← get8])
      else return container

/-- The exception where a string is longer than what is left. -/
def shortError (s : InBitStream) : Stop :=
  .thrown ⟨"remains()<sz remains(" ++ toString s.remains.toUInt32.toInt32.toInt ++ ") size(" ++
    toString s.mSize.toUInt32.toInt32.toInt ++ ")"⟩

/-- `get_PSTR`. -/
def getPSTR : BitIn Bytes := do
  let sz ← getPN
  if (← get).remains < sz then throw (shortError (← get))
  getPSTRLoop sz.toNat []

/-- The loop of `get_PSTR_nothrow`. -/
def getPSTRNothrowLoop : Nat → Bytes → BitIn (Option Bytes)
  | 0, container => return some container
  | n + 1, container => do
      if ← beforeEnd then
        match ← get8Nothrow with
        | none => return none
        | some c => getPSTRNothrowLoop n (container ++ [c])
      else return some container

/-- `get_PSTR_nothrow`. -/
def getPSTRNothrow : BitIn (Option Bytes) := do
  match ← getPNNothrow with
  | none => return none
  | some sz =>
      if (← get).remains < sz then return none
      getPSTRNothrowLoop sz.toNat []

/-- `unpack_nothrow`. -/
def unpackNothrow (size : UInt64) : BitIn (Option Bytes) := do
  boundary
  fun s =>
    if size > s.mSize - s.mPos.pos then (.ok none, s)
    else if s.mPos.pos.toNat + size.toNat ≤ s.mData.length then
      (.ok (some ((s.mData.drop s.mPos.pos.toNat).take size.toNat)),
        { s with mPos := { s.mPos with pos := s.mPos.pos + size } })
    else (.error .outside, s)

/-- `unpack`. -/
def unpack (size : UInt64) : BitIn Bytes := do
  match ← unpackNothrow size with
  | some s => return s
  | none => throw (.thrown ⟨"inBitStream unpack: not enough buffer "⟩)

/-- `unpackRest`. -/
def unpackRest : BitIn Bytes := fun s => unpack s.remains s

/-- `get_bit`, which does not ask for the size. -/
def getBit : BitIn Bool := do
  let c ← load
  fun s => (.ok (decide (c >>> (s.mPos.bitsRemainsInByte.toUInt8 - 1) &&& 1 = 1)),
    { s with mPos := s.mPos.next })

/-- The loop of `get_bits`. -/
def getBitsLoop : Nat → UInt32 → BitIn UInt32
  | 0, val => return val
  | n + 1, val => do
      let bit ← getBit
      getBitsLoop n (val <<< 1 ||| (if bit then 1 else 0))

/-- `get_bits`; the `int` is its 32 bits. -/
def getBits (bitcount : Int32) : BitIn UInt32 := getBitsLoop bitcount.toInt.toNat 0

/-- `getTlvLength`. -/
def getTlvLength : BitIn UInt32 :=
  annotate "->getTlvLength" (do
    let b ← getBit
    if !b then getBits 7
    else do
      let llen ← getBits 7
      if llen > 4 then throw (.thrown ⟨"if(llen>4) "⟩)
      getBits (llen * 8).toInt32)

end InBitStream

end Megatron.Corelib
