import Mathlib.Data.Int.DivMod
import Megatron.CUtils.Unescape

/-!
# Base64

`Ns_HtuuEncode` and `Ns_HtuuDecode` are pointer loops over whole groups, three
bytes on one side and four characters on the other.  Both go on over the end of
what they are given, and correct what they return by a look back.  A function
here is `none` where the code leaves a table, a text with its NUL or a buffer,
and where an `int` overflows; an allocation always succeeds.

## Main results

* `ends_encodeFrom` — the loop puts out groups of four, the last padded with `'='`.
* `base64_encode` — `Base64Encode` returns the encoding, and stays in its buffer.
-/

namespace Megatron.CUtils

open Megatron.Corelib (Bytes)
open Megatron.Http (text forall_byte)
open Megatron.Lib

/-! ## Tables and buffers -/

def six2pr : Bytes := text "ABCDEFGHIJKLMNOPQRSTUVWXYZabcdefghijklmnopqrstuvwxyz0123456789+/"

/-- `MAXVAL`, the largest value of a character of `six2pr`. -/
def maxVal : UInt8 := 63

/-- The table that the first call of `Ns_HtuuDecode` sets up. -/
def pr2six : List UInt8 :=
  (List.range 64).foldl (fun t j => t.set (six2pr.getD j 0).toNat (UInt8.ofNat j))
    (List.replicate 256 (maxVal + 1))

/-- `'='`. -/
def padding : UInt8 := 61

/-- One more byte behind what has been written to a buffer of `cap` bytes. -/
def put (cap : Nat) (out : Bytes) (c : UInt8) : Option Bytes :=
  if out.length < cap then some (out ++ [c]) else none

/-- `outptr[-k] = c`. -/
def putBack (k : Nat) (c : UInt8) (out : Bytes) : Option Bytes :=
  if k ≤ out.length then some (out.set (out.length - k) c) else none

/-- A value as an `int`, which an `int` may not leave. -/
def asInt (n : Int) : Option Int := if -2 ^ 31 ≤ n ∧ n < 2 ^ 31 then some n else none

/-! ## The encoder -/

/-- `ENC(c)`. -/
def enc (c : UInt8) : UInt8 := six2pr.getD c.toNat 0

/-! The values of the four characters for three bytes. -/

def six1 (a : UInt8) : UInt8 := a >>> 2

def six2 (a b : UInt8) : UInt8 := (a <<< 4 &&& (48 : UInt8)) ||| (b >>> 4 &&& (15 : UInt8))

def six3 (b c : UInt8) : UInt8 := (b <<< 2 &&& (60 : UInt8)) ||| (c >>> 6 &&& (3 : UInt8))

def six4 (c : UInt8) : UInt8 := c &&& 63

def encodeGroup (a b c : UInt8) : Bytes :=
  [enc (six1 a), enc (six2 a b), enc (six3 b c), enc (six4 c)]

structure Encode where
  i : UInt32 := 0
  bufin : Nat := 0
  /-- What is written in front of `outptr`. -/
  out : Bytes := []

section Encoder

-- What stands behind the NUL of a text, where the last group reads on.
variable (beyond : Nat → UInt8) (s : Bytes)

def byteAt (j : Nat) : UInt8 := (s ++ [0]).getD j (beyond j)

variable (cap : Nat) (nbytes : UInt32)

/-- What is behind the loop: `'='` over the characters too many, and a NUL. -/
def encodeEnd (x : Encode) : Option Bytes := do
  let out ←
    if x.i = nbytes + 1 then putBack 1 padding x.out
    else if x.i = nbytes + 2 then do
      let out ← putBack 1 padding x.out
      putBack 2 padding out
    else some x.out
  let _ ← put cap out 0
  some out

/-- A round of `Ns_HtuuEncode`. -/
def encodeStep (x : Encode) : Option Bytes ⊕ Encode :=
  if x.i < nbytes then
    let group := encodeGroup (byteAt beyond s x.bufin) (byteAt beyond s (x.bufin + 1))
      (byteAt beyond s (x.bufin + 2))
    match group.foldlM (put cap) x.out with
    | none => .inl none
    | some out => .inr { i := x.i + 3, bufin := x.bufin + 3, out := out }
  else .inl (encodeEnd cap nbytes x)

end Encoder

/-- `CUtils::Base64Encode` returns `r`: the zeroes, the encoding and the copy of
the `outlen` bytes, an `int`. -/
def Base64Encode (beyond : Nat → UInt8) (s r : Bytes) : Prop :=
  let cap := s.length * 2 + 10
  s.length * 2 + 2 ≤ cap ∧
    ∃ out, Loop.Ends (encodeStep beyond s cap (UInt32.ofNat s.length)) {} (some out) ∧
      ∃ outlen : Nat, (out.length : Int).bmod (2 ^ 32) = outlen ∧ r = out.take outlen

/-! ## The decoder -/

/-- `DEC(c)`, with a signed `char` for the index. -/
def dec (c : UInt8) : Option UInt8 :=
  if 0 ≤ charIndex c ∧ charIndex c < 256 then some (pr2six.getD (charIndex c).toNat 0) else none

/-- How many characters stand in front of one that is not in `six2pr`.  At the
end the NUL is read. -/
def scan : Bytes → Option Nat
  | [] => do
      let v ← dec 0
      if v ≤ maxVal then none else some 0
  | c :: t => do
      let v ← dec c
      if v ≤ maxVal then (scan t).map (· + 1) else some 0

/-- The three bytes for the values of four characters. -/
def decodeGroup (a b c d : UInt8) : Bytes :=
  [(a <<< 2) ||| (b >>> 4), (b <<< 4) ||| (c >>> 2), (c <<< 6) ||| d]

structure Decode where
  /-- How far `bufin` has come from `bufcoded`. -/
  bufin : Nat := 0
  nprbytes : Int
  /-- What is written in front of `bufout`. -/
  out : Bytes := []

/-- `while (nprbytes > 0)`, over what is left of the text and its NUL. -/
def decodeGroups (cap : Nat) : Bytes → Decode → Option Decode
  | c1 :: c2 :: c3 :: c4 :: rest, x =>
      if x.nprbytes ≤ 0 then some x
      else do
        let v1 ← dec c1
        let v2 ← dec c2
        let v3 ← dec c3
        let v4 ← dec c4
        let out ← (decodeGroup v1 v2 v3 v4).foldlM (put cap) x.out
        decodeGroups cap rest { bufin := x.bufin + 4, nprbytes := x.nprbytes - 4, out := out }
  | _, x => if x.nprbytes ≤ 0 then some x else none

def isBlank (c : UInt8) : Bool := c == 32 || c == 9

/-- `bufin[-2]`, where `bufin` is a place of the text. -/
def lookBack (s : Bytes) (bufin : Nat) : Option UInt8 :=
  if 2 ≤ bufin then (s ++ [0])[bufin - 2]? else none

/-- `nbytesdecoded` at first: three bytes for a group, begun or whole. -/
def byteCount (nprbytes : Int) : Option Int :=
  (asInt (nprbytes + 3)).map fun sum => sum.tdiv 4 * 3

/-- `nprbytes`, adjusted downwards to what fits into the buffer. -/
def charCount (outbufsize nbytesdecoded nprbytes : Int) : Option Int :=
  if nbytesdecoded > outbufsize then (asInt (outbufsize * 4)).map (Int.tdiv · 3)
  else some nprbytes

/-- What is returned.  `nprbytes & 03` of a negative number is its remainder from
below. -/
def corrected (s : Bytes) (bufin : Nat) (nprbytes nbytesdecoded : Int) : Option Int :=
  if nprbytes % 4 = 0 then some nbytesdecoded
  else do
    let c ← lookBack s bufin
    let v ← dec c
    some (nbytesdecoded - if v > maxVal then 2 else 1)

/-- `Ns_HtuuDecode`, with what it has written and what it returns. -/
def htuuDecode (cap : Nat) (outbufsize : Int) (s : Bytes) : Option (Bytes × Int) := do
  let bufcoded := s.dropWhile isBlank
  let n ← scan bufcoded
  let nprbytes := (n : Int).bmod (2 ^ 32)
  let nbytesdecoded ← byteCount nprbytes
  let nprbytes ← charCount outbufsize nbytesdecoded nprbytes
  let x ← decodeGroups cap (bufcoded ++ [0]) { nprbytes := nprbytes }
  let outlen ← corrected s (s.length - bufcoded.length + x.bufin) x.nprbytes nbytesdecoded
  some (x.out, outlen)

/-- A decoding none of whose steps fails. -/
theorem htuuDecode_eq {cap n : Nat} {outbufsize nbytesdecoded nprbytes outlen : Int} {s : Bytes}
    {x : Decode} (hScan : scan (s.dropWhile isBlank) = some n)
    (hBytes : byteCount ((n : Int).bmod (2 ^ 32)) = some nbytesdecoded)
    (hChars : charCount outbufsize nbytesdecoded ((n : Int).bmod (2 ^ 32)) = some nprbytes)
    (hLoop : decodeGroups cap (s.dropWhile isBlank ++ [0]) { nprbytes := nprbytes } = some x)
    (hLast : corrected s (s.length - (s.dropWhile isBlank).length + x.bufin) x.nprbytes
      nbytesdecoded = some outlen) :
    htuuDecode cap outbufsize s = some (x.out, outlen) := by
  unfold htuuDecode
  dsimp only
  rw [hScan, Option.bind_eq_bind, Option.bind_some, hBytes, Option.bind_eq_bind, Option.bind_some,
    hChars, Option.bind_eq_bind, Option.bind_some, hLoop, Option.bind_some, hLast,
    Option.bind_some]

/-- `CUtils::Base64Decode`: zeroes, the decoding and the copy of `outlen` bytes.
What neither the one nor the other has written is `beyond`. -/
def Base64Decode (beyond : Nat → UInt8) (s : Bytes) : Option Bytes :=
  if s = [] then some []
  else do
    let len := s.length
    let (out, outlen) ← htuuDecode (len + 10) ((len : Int).bmod (2 ^ 32)) s
    if outlen < 0 ∨ (len + 10 : Nat) < outlen then none
    else
      some ((List.range outlen.toNat).map fun j =>
        out.getD j (if j < len + 2 then 0 else beyond j))

/-! ## The tables, written out -/

theorem six2pr_eq : six2pr =
    (List.range' 65 26 ++ List.range' 97 26 ++ List.range' 48 10).map UInt8.ofNat ++ [43, 47] := by
  decide +kernel

theorem pr2six_eq : pr2six =
    List.replicate 43 64 ++ [62, 64, 64, 64, 63] ++ (List.range' 52 10).map UInt8.ofNat ++
      List.replicate 7 64 ++ (List.range' 0 26).map UInt8.ofNat ++ List.replicate 6 64 ++
      (List.range' 26 26).map UInt8.ofNat ++ List.replicate 133 64 := by
  decide +kernel

/-! ## One group -/

section Group

/-- A character of `six2pr` decodes to its place there, and is no blank. -/
theorem enc_facts : ∀ v : UInt8, v < 64 →
    dec (enc v) = some v ∧ isBlank (enc v) = false ∧ enc v ∈ six2pr := by
  simp only [dec, enc, pr2six_eq, six2pr_eq]
  exact forall_byte (by decide +kernel)

variable {v : UInt8} (hv : v < 64)

include hv

theorem dec_enc : dec (enc v) = some v := (enc_facts v hv).1

theorem isBlank_enc : isBlank (enc v) = false := (enc_facts v hv).2.1

theorem enc_mem : enc v ∈ six2pr := (enc_facts v hv).2.2

end Group

theorem dec_padding : dec padding = some 64 := by
  rw [dec, pr2six_eq]
  decide +kernel

theorem dec_nul : dec 0 = some 64 := by
  rw [dec, pr2six_eq]
  decide +kernel

/-- What the shifts of a byte do to its bits. -/
theorem shift_facts : ∀ c : UInt8,
    (((c >>> 2) <<< 2) ||| ((c <<< 4 &&& (48 : UInt8)) >>> 4) = c ∧
      (c <<< 4 &&& (48 : UInt8)) <<< 4 = 0) ∧
    ((c >>> 4 &&& (15 : UInt8)) >>> 4 = 0 ∧
      ((c >>> 4 &&& (15 : UInt8)) <<< 4) ||| ((c <<< 2 &&& (60 : UInt8)) >>> 2) = c ∧
      (c <<< 2 &&& (60 : UInt8)) <<< 6 = 0) ∧
    (c >>> 6 &&& (3 : UInt8)) >>> 2 = 0 ∧
      ((c >>> 6 &&& (3 : UInt8)) <<< 6) ||| (c &&& (63 : UInt8)) = c :=
  forall_byte (by decide +kernel)

section Sixes

variable (a b c : UInt8)

theorem and_lt {m : UInt8} (hm : m < 64) : a &&& m < 64 := by
  rw [UInt8.lt_iff_toNat_lt, UInt8.toNat_and]
  exact lt_of_le_of_lt Nat.and_le_right (UInt8.lt_iff_toNat_lt.1 hm)

theorem or_lt {a b : UInt8} (ha : a < 64) (hb : b < 64) : a ||| b < 64 := by
  rw [UInt8.lt_iff_toNat_lt] at *
  rw [UInt8.toNat_or]
  exact Nat.or_lt_two_pow (n := 6) ha hb

theorem six1_lt : six1 a < 64 := by
  have hLess := a.toNat_lt
  rw [six1, UInt8.lt_iff_toNat_lt, UInt8.toNat_shiftRight]
  simp only [Nat.shiftRight_eq_div_pow]
  simp
  omega

theorem six2_lt : six2 a b < 64 := or_lt (and_lt _ (by decide)) (and_lt _ (by decide))

theorem six3_lt : six3 b c < 64 := or_lt (and_lt _ (by decide)) (and_lt _ (by decide))

theorem six4_lt : six4 c < 64 := and_lt _ (by decide)

/-- The first byte is in the first two characters. -/
theorem first_byte : (six1 a <<< 2) ||| (six2 a b >>> 4) = a := by
  obtain ⟨⟨hA, -⟩, -⟩ := shift_facts a
  obtain ⟨-, ⟨hB, -⟩, -⟩ := shift_facts b
  rw [six1, six2, UInt8.shiftRight_or, hB, UInt8.or_zero, hA]

theorem second_byte : (six2 a b <<< 4) ||| (six3 b c >>> 2) = b := by
  obtain ⟨⟨-, hA⟩, -⟩ := shift_facts a
  obtain ⟨-, ⟨-, hB, -⟩, -⟩ := shift_facts b
  obtain ⟨-, -, hC, -⟩ := shift_facts c
  rw [six2, six3, UInt8.shiftLeft_or, UInt8.shiftRight_or, hA, hC, UInt8.zero_or, UInt8.or_zero, hB]

theorem third_byte : (six3 b c <<< 6) ||| six4 c = c := by
  obtain ⟨-, ⟨-, -, hB⟩, -⟩ := shift_facts b
  obtain ⟨-, -, -, hC⟩ := shift_facts c
  rw [six3, six4, UInt8.shiftLeft_or, hB, UInt8.zero_or, hC]

end Sixes

/-! ## The encoding -/

/-- What the encoding of a text is to be: four characters for three bytes, with
`'='` for the bytes that the last group lacks. -/
def base64 : Bytes → Bytes
  | [] => []
  | [a] => [enc (six1 a), enc (six2 a 0), padding, padding]
  | [a, b] => [enc (six1 a), enc (six2 a b), enc (six3 b 0), padding]
  | a :: b :: c :: s => encodeGroup a b c ++ base64 s

/-- The number of groups. -/
def groups (n : Nat) : Nat := (n + 2) / 3

/-- The number of `'='`. -/
def pads (n : Nat) : Nat := (3 - n % 3) % 3

theorem groups_add (n : Nat) : groups (n + 3) = groups n + 1 := by
  unfold groups
  omega

theorem pads_add (n : Nat) : pads (n + 3) = pads n := by
  unfold pads
  omega

theorem length_base64 (s : Bytes) : (base64 s).length = 4 * groups s.length := by
  induction s using base64.induct with
  | case1 => rfl
  | case2 a => simp [base64, groups]
  | case3 a b => simp [base64, groups]
  | case4 a b c s ih =>
      simp only [base64, encodeGroup, List.length_append, List.length_cons, List.length_nil, ih,
        groups_add]
      omega

/-- Characters of `six2pr`, and at the end as many `'='` as bytes are lacking. -/
theorem base64_eq (s : Bytes) :
    ∃ w : Bytes, base64 s = w ++ List.replicate (pads s.length) padding ∧
      (∀ c ∈ w, ∃ v < 64, c = enc v) ∧ w.length + pads s.length = 4 * groups s.length := by
  induction s using base64.induct with
  | case1 => exact ⟨[], rfl, by simp, rfl⟩
  | case2 a =>
      refine ⟨[enc (six1 a), enc (six2 a 0)], rfl, ?_, by simp [pads, groups]⟩
      simp only [List.mem_cons, List.not_mem_nil, or_false]
      rintro c (rfl | rfl)
      · exact ⟨_, six1_lt a, rfl⟩
      · exact ⟨_, six2_lt a 0, rfl⟩
  | case3 a b =>
      refine ⟨[enc (six1 a), enc (six2 a b), enc (six3 b 0)], rfl, ?_, by simp [pads, groups]⟩
      simp only [List.mem_cons, List.not_mem_nil, or_false]
      rintro c (rfl | rfl | rfl)
      · exact ⟨_, six1_lt a, rfl⟩
      · exact ⟨_, six2_lt a b, rfl⟩
      · exact ⟨_, six3_lt b 0, rfl⟩
  | case4 a b c s ih =>
      obtain ⟨w, hEq, hChars, hLength⟩ := ih
      refine ⟨encodeGroup a b c ++ w, ?_, ?_, ?_⟩
      · rw [base64, hEq, List.length_cons, List.length_cons, List.length_cons, pads_add,
          List.append_assoc]
      · intro c' hMem
        rcases List.mem_append.1 hMem with hMem | hMem
        · simp only [encodeGroup, List.mem_cons, List.not_mem_nil, or_false] at hMem
          rcases hMem with rfl | rfl | rfl | rfl
          · exact ⟨_, six1_lt a, rfl⟩
          · exact ⟨_, six2_lt a b, rfl⟩
          · exact ⟨_, six3_lt b c, rfl⟩
          · exact ⟨_, six4_lt c, rfl⟩
        · exact hChars c' hMem
      · simp only [encodeGroup, List.length_append, List.length_cons, List.length_nil, pads_add,
          groups_add]
        omega

/-! ## The rounds of the encoder -/

section Rounds

variable {cap : Nat}

theorem foldlM_put {out : Bytes} (cs : Bytes) (hFits : out.length + cs.length ≤ cap) :
    cs.foldlM (put cap) out = some (out ++ cs) := by
  induction cs generalizing out with
  | nil => simp
  | cons c cs ih =>
      rw [List.length_cons] at hFits
      have hNext := @ih (out ++ [c]) (by simp; omega)
      rw [List.foldlM_cons, put, if_pos (by omega)]
      simpa using hNext

variable {nbytes : UInt32} {x : Encode}

theorem encodeEnd_whole (hi : x.i.toNat = nbytes.toNat) (hWrap : nbytes.toNat + 2 < 2 ^ 32)
    (hFits : x.out.length < cap) : encodeEnd cap nbytes x = some x.out := by
  have hOne : x.i ≠ nbytes + 1 := fun h => by
    have hNext : (nbytes + 1).toNat = nbytes.toNat + 1 := toNat_add (k := 1) rfl (by omega)
    rw [← UInt32.toNat_inj, hNext] at h
    omega
  have hTwo : x.i ≠ nbytes + 2 := fun h => by
    have hNext : (nbytes + 2).toNat = nbytes.toNat + 2 := toNat_add (k := 2) rfl (by omega)
    rw [← UInt32.toNat_inj, hNext] at h
    omega
  simp [encodeEnd, hOne, hTwo, put, hFits]

theorem encodeEnd_two {o : Bytes} {c1 c2 c3 c4 : UInt8} (hi : x.i = nbytes + 1)
    (hOut : x.out = o ++ [c1, c2, c3, c4]) (hFits : x.out.length < cap) :
    encodeEnd cap nbytes x = some (o ++ [c1, c2, c3, padding]) := by
  have hPut : put cap (o ++ [c1, c2, c3, padding]) 0 = some (o ++ [c1, c2, c3, padding] ++ [0]) :=
    if_pos (by rw [hOut] at hFits; simpa using hFits)
  have hBack : putBack 1 padding x.out = some (o ++ [c1, c2, c3, padding]) := by
    rw [putBack, hOut, if_pos (by simp)]
    simp
  simp [encodeEnd, hi, hBack, hPut]

theorem encodeEnd_one {o : Bytes} {c1 c2 c3 c4 : UInt8} (hi : x.i = nbytes + 2)
    (hOut : x.out = o ++ [c1, c2, c3, c4]) (hFits : x.out.length < cap) :
    encodeEnd cap nbytes x = some (o ++ [c1, c2, padding, padding]) := by
  have hPut : put cap (o ++ [c1, c2, padding, padding]) 0 =
      some (o ++ [c1, c2, padding, padding] ++ [0]) :=
    if_pos (by rw [hOut] at hFits; simpa using hFits)
  have hBack : putBack 1 padding x.out = some (o ++ [c1, c2, c3, padding]) := by
    rw [putBack, hOut, if_pos (by simp)]
    simp
  have hBack' : putBack 2 padding (o ++ [c1, c2, c3, padding]) =
      some (o ++ [c1, c2, padding, padding]) := by
    rw [putBack, if_pos (by simp)]
    simp
  simp [encodeEnd, hi, hBack, hBack', hPut]

end Rounds

section Encoding

variable {beyond : Nat → UInt8} {cap : Nat} {nbytes : UInt32} {p rest : Bytes} {x : Encode}

/-- A round writes a group, if there is room for it. -/
theorem encodeStep_group (beyond : Nat → UInt8) {s : Bytes} {a b c : UInt8} (hi : x.i < nbytes)
    (hA : byteAt beyond s x.bufin = a) (hB : byteAt beyond s (x.bufin + 1) = b)
    (hC : byteAt beyond s (x.bufin + 2) = c) (hFits : x.out.length + 4 ≤ cap) :
    encodeStep beyond s cap nbytes x =
      .inr { i := x.i + 3, bufin := x.bufin + 3, out := x.out ++ encodeGroup a b c } := by
  rw [encodeStep, if_pos hi, hA, hB, hC]
  dsimp only
  rw [foldlM_put _ (by simpa [encodeGroup] using hFits)]

theorem encodeStep_end {s : Bytes} (hi : nbytes.toNat ≤ x.i.toNat) :
    encodeStep beyond s cap nbytes x = .inl (encodeEnd cap nbytes x) := by
  rw [encodeStep, if_neg]
  rw [UInt32.lt_iff_toNat_lt]
  omega

/-- From any group on, the encoder puts out the encoding of what is left, and
stays in a buffer that has room for it and the NUL. -/
theorem ends_encodeFrom (beyond : Nat → UInt8) (cap : Nat) (rest : Bytes) :
    ∀ (p : Bytes) (x : Encode), x.i.toNat = p.length → x.bufin = p.length →
      nbytes.toNat = (p ++ rest).length → (p ++ rest).length + 3 < 2 ^ 32 →
      x.out.length + 4 * groups rest.length < cap →
      Loop.Ends (encodeStep beyond (p ++ rest) cap nbytes) x (some (x.out ++ base64 rest)) := by
  induction rest using base64.induct with
  | case1 =>
      intro p x hi hbufin hNbytes hWrap hFits
      simp only [List.append_nil] at hNbytes hWrap ⊢
      rw [Loop.ends_inl (encodeStep_end (by omega)),
        encodeEnd_whole (by omega) (by omega) (by simp [groups] at hFits; omega)]
      simp [base64]
  | case2 a =>
      intro p x hi hbufin hNbytes hWrap hFits
      simp only [List.length_append, List.length_cons, List.length_nil, groups] at hNbytes hWrap hFits
      have hLess : x.i < nbytes := UInt32.lt_iff_toNat_lt.2 (by omega)
      have hThree : (x.i + 3).toNat = p.length + 3 := toNat_add (k := 3) hi (by omega)
      have hTwo : (nbytes + 2).toNat = p.length + 3 := toNat_add (k := 2) hNbytes (by omega)
      -- two of the three bytes are not of the text
      have hStep := encodeStep_group beyond (s := p ++ [a]) (a := a) (b := 0)
        hLess (by simp [byteAt, hbufin]) (by simp [byteAt, hbufin])
        rfl (show x.out.length + 4 ≤ cap by omega)
      rw [Loop.ends_inr hStep, Loop.ends_inl (encodeStep_end (by dsimp only; omega)),
        encodeEnd_one (o := x.out) (UInt32.toNat_inj.1 (hThree.trans hTwo.symm)) rfl
          (by simp [encodeGroup]; omega)]
      rfl
  | case3 a b =>
      intro p x hi hbufin hNbytes hWrap hFits
      simp only [List.length_append, List.length_cons, List.length_nil, groups] at hNbytes hWrap hFits
      have hLess : x.i < nbytes := UInt32.lt_iff_toNat_lt.2 (by omega)
      have hThree : (x.i + 3).toNat = p.length + 3 := toNat_add (k := 3) hi (by omega)
      have hOne : (nbytes + 1).toNat = p.length + 3 := toNat_add (k := 1) hNbytes (by omega)
      have hStep := encodeStep_group beyond (s := p ++ [a, b]) (a := a) (b := b) (c := 0)
        hLess (by simp [byteAt, hbufin]) (by simp [byteAt, hbufin])
        (by simp [byteAt, hbufin]) (show x.out.length + 4 ≤ cap by omega)
      rw [Loop.ends_inr hStep, Loop.ends_inl (encodeStep_end (by dsimp only; omega)),
        encodeEnd_two (o := x.out) (UInt32.toNat_inj.1 (hThree.trans hOne.symm)) rfl
          (by simp [encodeGroup]; omega)]
      rfl
  | case4 a b c s ih =>
      intro p x hi hbufin hNbytes hWrap hFits
      have hSplit : p ++ a :: b :: c :: s = (p ++ [a, b, c]) ++ s := by simp
      have hGroups : groups (a :: b :: c :: s).length = groups s.length + 1 := groups_add _
      rw [hGroups] at hFits
      have hLength : (p ++ a :: b :: c :: s).length = p.length + 3 + s.length := by simp; omega
      have hLess : x.i < nbytes := UInt32.lt_iff_toNat_lt.2 (by omega)
      have hThree : (x.i + 3).toNat = p.length + 3 := toNat_add (k := 3) hi (by omega)
      have hStep := encodeStep_group beyond (s := p ++ a :: b :: c :: s) (a := a) (b := b) (c := c)
        hLess (by simp [byteAt, hbufin]) (by simp [byteAt, hbufin])
        (by simp [byteAt, hbufin]) (show x.out.length + 4 ≤ cap by omega)
      have hRest := ih (p ++ [a, b, c])
        { i := x.i + 3, bufin := x.bufin + 3, out := x.out ++ encodeGroup a b c }
        (by simpa using hThree) (by simp [hbufin]) (by rw [← hSplit]; exact hNbytes)
        (by rw [← hSplit]; exact hWrap) (by simp [encodeGroup]; omega)
      rw [← hSplit] at hRest
      rw [Loop.ends_inr hStep]
      simpa [base64] using hRest

end Encoding

/-- The whole encoding of a text of less than `2 ^ 29` bytes. -/
theorem base64_encode (beyond : Nat → UInt8) {s : Bytes} (hShort : s.length < 2 ^ 29) :
    Base64Encode beyond s (base64 s) := by
  have hNbytes : (UInt32.ofNat s.length).toNat = s.length := by
    rw [UInt32.toNat_ofNat']
    omega
  have hGroups : 4 * groups s.length < s.length * 2 + 10 := by
    unfold groups
    omega
  have hEnds := ends_encodeFrom beyond (s.length * 2 + 10) s [] {} rfl rfl hNbytes
    (by simp; omega) (by simpa using hGroups)
  have hLength := length_base64 s
  refine ⟨by omega, base64 s, by simpa using hEnds, (base64 s).length, ?_, by simp⟩
  apply Int.bmod_eq_of_le <;> omega

end Megatron.CUtils
