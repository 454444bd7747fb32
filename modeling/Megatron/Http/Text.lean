import Mathlib.Data.List.Lex
import Megatron.Corelib.IoBuffer
import Megatron.Lib.OrdSet
import Megatron.Lib.Search

/-!
# The text functions of `CUtils`

What `HTTP::Service` uses of `CUtils` and of the C library to take a request
apart: `splitString`, `strupper`, `strlower`, `unescapeURL` and `atoi`.  A
`std::string` is the list of its bytes, `find` and the two `substr` behind it
are `List.dropInfix?`.

## Main results

* `splitString_crlf_append` — an empty line in front of a text adds no line.
-/

namespace Megatron.Http

open Megatron.Corelib (Bytes)
open Megatron.Lib

/-- The bytes of a string literal. -/
def text (s : String) : Bytes := s.toUTF8.data.toList

/-- `"\r\n"`. -/
def crlf : Bytes := [13, 10]

/-! ## `splitString` -/

/-- The loop of `splitString`; `tmp` is what was read since the last separator. -/
def splitFrom (seps tmp : Bytes) : Bytes → List Bytes
  | [] => if tmp = [] then [] else [tmp]
  | c :: src =>
      if c ∉ seps then splitFrom seps (tmp ++ [c]) src
      else if tmp = [] then splitFrom seps [] src
      else tmp :: splitFrom seps [] src

/-- `CUtils::splitString`: the pieces between bytes of `seps`, without the
empty ones. -/
def splitString (seps src : Bytes) : List Bytes := splitFrom seps [] src

theorem splitString_crlf_append (src : Bytes) :
    splitString crlf (crlf ++ src) = splitString crlf src := by
  simp [splitString, splitFrom, crlf]

/-! ## Case and escapes -/

/-- A fact of all bytes can be looked up in a table. -/
theorem forall_byte {P : UInt8 → Prop} (h : ∀ n < 256, P (UInt8.ofNat n)) (c : UInt8) : P c := by
  have hByte := h c.toNat c.toNat_lt
  rwa [UInt8.ofNat_toNat] at hByte

def lTable : List UInt8 :=
  [0x00, 0x01, 0x02, 0x03, 0x04, 0x05, 0x06, 0x07, 0x08, 0x09, 0x0a, 0x0b, 0x0c, 0x0d, 0x0e, 0x0f,
   0x10, 0x11, 0x12, 0x13, 0x14, 0x15, 0x16, 0x17, 0x18, 0x19, 0x1a, 0x1b, 0x1c, 0x1d, 0x1e, 0x1f,
   0x20, 0x21, 0x22, 0x23, 0x24, 0x25, 0x26, 0x27, 0x28, 0x29, 0x2a, 0x2b, 0x2c, 0x2d, 0x2e, 0x2f,
   0x30, 0x31, 0x32, 0x33, 0x34, 0x35, 0x36, 0x37, 0x38, 0x39, 0x3a, 0x3b, 0x3c, 0x3d, 0x3e, 0x3f,
   0x40, 0x61, 0x62, 0x63, 0x64, 0x65, 0x66, 0x67, 0x68, 0x69, 0x6a, 0x6b, 0x6c, 0x6d, 0x6e, 0x6f,
   0x70, 0x71, 0x72, 0x73, 0x74, 0x75, 0x76, 0x77, 0x78, 0x79, 0x7a, 0x5b, 0x5c, 0x5d, 0x5e, 0x5f,
   0x60, 0x61, 0x62, 0x63, 0x64, 0x65, 0x66, 0x67, 0x68, 0x69, 0x6a, 0x6b, 0x6c, 0x6d, 0x6e, 0x6f,
   0x70, 0x71, 0x72, 0x73, 0x74, 0x75, 0x76, 0x77, 0x78, 0x79, 0x7a, 0x7b, 0x7c, 0x7d, 0x7e, 0x7f,
   0x90, 0x83, 0x82, 0x83, 0x84, 0x85, 0x86, 0x87, 0x88, 0x89, 0x9a, 0x8b, 0x9c, 0x9d, 0x9e, 0x9f,
   0x90, 0x91, 0x92, 0x93, 0x94, 0x95, 0x96, 0x97, 0x98, 0x99, 0x9a, 0x9b, 0x9c, 0x9d, 0x9e, 0x9f,
   0xa0, 0xa2, 0xa2, 0xbc, 0xa4, 0xb4, 0xa6, 0xa7, 0xb8, 0xa9, 0xba, 0xab, 0xac, 0xad, 0xae, 0xbf,
   0xb0, 0xb1, 0xb3, 0xb3, 0xb4, 0xb5, 0xb6, 0xb7, 0xb8, 0xb9, 0xba, 0xbb, 0xbc, 0xbe, 0xbe, 0xbf,
   0xe0, 0xe1, 0xe2, 0xe3, 0xe4, 0xe5, 0xe6, 0xe7, 0xe8, 0xe9, 0xea, 0xeb, 0xec, 0xed, 0xee, 0xef,
   0xf0, 0xf1, 0xf2, 0xf3, 0xf4, 0xf5, 0xf6, 0xf7, 0xf8, 0xf9, 0xfa, 0xfb, 0xfc, 0xfd, 0xfe, 0xff,
   0xe0, 0xe1, 0xe2, 0xe3, 0xe4, 0xe5, 0xe6, 0xe7, 0xe8, 0xe9, 0xea, 0xeb, 0xec, 0xed, 0xee, 0xef,
   0xf0, 0xf1, 0xf2, 0xf3, 0xf4, 0xf5, 0xf6, 0xf7, 0xf8, 0xf9, 0xfa, 0xfb, 0xfc, 0xfd, 0xfe, 0xff]

def uTable : List UInt8 :=
  [0x00, 0x01, 0x02, 0x03, 0x04, 0x05, 0x06, 0x07, 0x08, 0x09, 0x0a, 0x0b, 0x0c, 0x0d, 0x0e, 0x0f,
   0x10, 0x11, 0x12, 0x13, 0x14, 0x15, 0x16, 0x17, 0x18, 0x19, 0x1a, 0x1b, 0x1c, 0x1d, 0x1e, 0x1f,
   0x20, 0x21, 0x22, 0x23, 0x24, 0x25, 0x26, 0x27, 0x28, 0x29, 0x2a, 0x2b, 0x2c, 0x2d, 0x2e, 0x2f,
   0x30, 0x31, 0x32, 0x33, 0x34, 0x35, 0x36, 0x37, 0x38, 0x39, 0x3a, 0x3b, 0x3c, 0x3d, 0x3e, 0x3f,
   0x40, 0x41, 0x42, 0x43, 0x44, 0x45, 0x46, 0x47, 0x48, 0x49, 0x4a, 0x4b, 0x4c, 0x4d, 0x4e, 0x4f,
   0x50, 0x51, 0x52, 0x53, 0x54, 0x55, 0x56, 0x57, 0x58, 0x59, 0x5a, 0x5b, 0x5c, 0x5d, 0x5e, 0x5f,
   0x60, 0x41, 0x42, 0x43, 0x44, 0x45, 0x46, 0x47, 0x48, 0x49, 0x4a, 0x4b, 0x4c, 0x4d, 0x4e, 0x4f,
   0x50, 0x51, 0x52, 0x53, 0x54, 0x55, 0x56, 0x57, 0x58, 0x59, 0x5a, 0x7b, 0x7c, 0x7d, 0x7e, 0x7f,
   0x80, 0x81, 0x82, 0x81, 0x84, 0x85, 0x86, 0x87, 0x88, 0x89, 0x8a, 0x8b, 0x8c, 0x8d, 0x8e, 0x8f,
   0x80, 0x91, 0x92, 0x93, 0x94, 0x95, 0x96, 0x97, 0x98, 0x99, 0x8a, 0x9b, 0x8c, 0x8d, 0x8e, 0x8f,
   0xa0, 0xa1, 0xa1, 0xa3, 0xa4, 0xa5, 0xa6, 0xa7, 0xa8, 0xa9, 0xaa, 0xab, 0xac, 0xad, 0xae, 0xaf,
   0xb0, 0xb1, 0xb2, 0xb2, 0xa5, 0xb5, 0xb6, 0xb7, 0xa8, 0xb9, 0xaa, 0xbb, 0xa3, 0xbd, 0xbd, 0xaf,
   0xc0, 0xc1, 0xc2, 0xc3, 0xc4, 0xc5, 0xc6, 0xc7, 0xc8, 0xc9, 0xca, 0xcb, 0xcc, 0xcd, 0xce, 0xcf,
   0xd0, 0xd1, 0xd2, 0xd3, 0xd4, 0xd5, 0xd6, 0xd7, 0xd8, 0xd9, 0xda, 0xdb, 0xdc, 0xdd, 0xde, 0xdf,
   0xc0, 0xc1, 0xc2, 0xc3, 0xc4, 0xc5, 0xc6, 0xc7, 0xc8, 0xc9, 0xca, 0xcb, 0xcc, 0xcd, 0xce, 0xcf,
   0xd0, 0xd1, 0xd2, 0xd3, 0xd4, 0xd5, 0xd6, 0xd7, 0xd8, 0xd9, 0xda, 0xdb, 0xdc, 0xdd, 0xde, 0xdf]

def strupper (s : Bytes) : Bytes := s.map fun z => uTable.getD z.toNat 0

def strlower (s : Bytes) : Bytes := s.map fun z => lTable.getD z.toNat 0

/-- The value of a hexadecimal digit, given by its entry in `u_table`; the
characters between `'9'` and `'A'` pass as they are. -/
def hexDigit (c : Nat) : Nat :=
  if 48 ≤ c ∧ c ≤ 57 then c - 48 else if 65 ≤ c ∧ c ≤ 70 then c - 55 else c

section Unescape

-- The index of `u_table` in `unescapeURL` is a signed `char`.  What stands in
-- front of the table, where a byte from `0x80` on leads, is `stray`.
variable (stray : UInt8 → UInt8)

def uTableAt (c : UInt8) : Nat :=
  (if c < 0x80 then uTable.getD c.toNat 0 else stray c).toNat

/-- What the two characters behind a `'%'` give. -/
def unescaped (a b : UInt8) : Bytes :=
  let c1 := uTableAt stray a
  let c2 := uTableAt stray b
  if 70 < c1 ∨ 70 < c2 then []
  else if c1 < 48 ∨ c2 < 48 then []
  else [UInt8.ofNat (hexDigit c1 * 16 + hexDigit c2)]

/-- `CUtils::unescapeURL`.  A `'%'` with one character behind it takes the
terminating NUL for the second and gives nothing. -/
def unescapeURL : Bytes → Bytes
  | [] => []
  | c :: s =>
      if c = 37 then
        match s with
        | a :: b :: rest => unescaped stray a b ++ unescapeURL rest
        | _ => []
      else (if c = 43 then 32 else c) :: unescapeURL s

end Unescape

/-! ## `atoi` -/

def isSpace (c : UInt8) : Bool := c = 32 || (9 ≤ c && c ≤ 13)

def isDigit (c : UInt8) : Bool := 48 ≤ c && c ≤ 57

/-- The number that the digits at the front of a text write. -/
def digits (s : Bytes) : Int :=
  (s.takeWhile isDigit).foldl (fun n c => 10 * n + (c.toNat - 48 : Int)) 0

/-- `strtol` to base 10, which stops at the ends of a `long`. -/
def strtol (s : Bytes) : Int :=
  let v := match s.dropWhile isSpace with
    | 45 :: t => -digits t
    | 43 :: t => digits t
    | t => digits t
  max (-2 ^ 63) (min v (2 ^ 63 - 1))

/-- `atoi`: the low 32 bits of `strtol`, as an `int`. -/
def atoi (s : Bytes) : Int := (strtol s).bmod (2 ^ 32)

example : (atoi (text " 12;3"), atoi (text "-1"), atoi (text "x")) = (12, -1, 0) := by
  decide +kernel

example : splitString crlf (text "a\r\n\r\nb") = [text "a", text "b"] := by decide +kernel

example : unescapeURL id (text "%2E%2e+%4") = text ".. " := by decide +kernel

end Megatron.Http
