import Mathlib.Data.Int.DivMod
import Megatron.CUtils.Unescape

/-!
# Percent-encoding

`CUtils::uriEncode` copies the unreserved characters and writes `'%'` and two
hexadecimal digits for any other; `uriDecode` reads the digits with `sscanf`,
`unescapeURL` with `u_table`.  The encoder counts in an `int`, `unescapeURL` in
an `unsigned int`.

## Main results

* `uriDecode_encoded`, `unescapeURL_encoded` — either decoder undoes the encoding
  of a text, byte by byte.
* `round_trip_iff` — when the two round trips hold over the counters of the
  program.
-/

namespace Megatron.CUtils

open Megatron.Corelib (Bytes)
open Megatron.Http
open Megatron.Lib

/-! ## The encoder -/

/-- A digit of `char2hex`, from its value. -/
def hexChar (dig : UInt8) : UInt8 := if dig ≤ 9 then dig + 48 else dig + (97 - 10)

def dig1 (dec : UInt8) : UInt8 := hexChar ((dec &&& 0xF0) >>> 4)

def dig2 (dec : UInt8) : UInt8 := hexChar (dec &&& 0x0F)

def char2hex (dec : UInt8) : Bytes := [dig1 dec, dig2 dec]

/-- The characters that `uriEncode` copies: digits, letters and `"~!*()'"`.  A
byte from `0x80` on is a negative `char`, and in none of the ranges. -/
def isKept (c : UInt8) : Bool :=
  (48 ≤ c && c ≤ 57) || (65 ≤ c && c ≤ 90) || (97 ≤ c && c ≤ 122) ||
    c == 126 || c == 33 || c == 42 || c == 40 || c == 41 || c == 39

def encoded (c : UInt8) : Bytes := if isKept c then [c] else 37 :: char2hex c

/-- `CUtils::uriEncode`, whose `int max = c.length()` wraps. -/
def uriEncode (c : Bytes) : Bytes :=
  let max := (c.length : Int).bmod (2 ^ 32)
  (c.take max.toNat).flatMap encoded

/-! ## The decoder -/

def isHex (c : UInt8) : Bool := (hexValue? c).isSome

/-- The number that the hexadecimal digits at the front of a text write, if
there are any. -/
def hexNumber (s : Bytes) : Option Int :=
  match s.takeWhile isHex with
  | [] => none
  | digits => some (digits.foldl (fun n c => 16 * n + ((hexValue? c).getD 0 : Nat)) 0)

/-- `sscanf` with `"%x"`: blanks, a sign and `"0x"` may stand in front of the
digits.  A text of two characters overflows nothing. -/
def sscanfHex (s : Bytes) : Option Int :=
  let unsigned : Bytes → Option Int
    | 48 :: 120 :: t => hexNumber t
    | 48 :: 88 :: t => hexNumber t
    | t => hexNumber t
  match (s.takeWhile (· ≠ 0)).dropWhile isSpace with
  | 45 :: t => (unsigned t).map (- ·)
  | 43 :: t => unsigned t
  | t => unsigned t

/-- The loop of `uriDecode`; `ii` keeps its value where `sscanf` finds no
number. -/
def uriDecodeFrom (ii : Int) : Bytes → Bytes
  | [] => []
  | c :: s =>
      if c = 37 then
        let ii := (sscanfHex (s.take 2)).getD ii
        UInt8.ofInt ii ::
          match s with
          | _ :: _ :: rest => uriDecodeFrom ii rest
          | _ => []
      else c :: uriDecodeFrom ii s

/-- `CUtils::uriDecode`, with what is on the stack at first for `ii`. -/
def uriDecode (ii : Int) (s : Bytes) : Bytes := uriDecodeFrom ii s

/-! ## One character -/

/-- Letters, digits and the marks `"-_.!~*'()"`. -/
def isUnreserved (c : UInt8) : Bool :=
  (48 ≤ c && c ≤ 57) || (65 ≤ c && c ≤ 90) || (97 ≤ c && c ≤ 122) || c ∈ text "-_.!~*'()"

/-- What is copied means itself to the decoders. -/
theorem kept_iff : ∀ c, isKept c = true → isUnreserved c = true ∧ c ≠ 37 ∧ c ≠ 43 :=
  forall_byte (by decide +kernel)

/-- Either decoder has the character for its two digits. -/
theorem digit_facts : ∀ c,
    isHex (dig1 c) = true ∧ isHex (dig2 c) = true ∧ dig1 c < 128 ∧ dig2 c < 128 ∧
      ¬ InGap (dig1 c) ∧ ¬ InGap (dig2 c) ∧ denoted (dig1 c) (dig2 c) = [c] ∧
      sscanfHex [dig1 c, dig2 c] = some (c.toNat : Int) :=
  forall_byte (by decide +kernel)

section Characters

variable (c : UInt8)

theorem isHex_digits : isHex (dig1 c) = true ∧ isHex (dig2 c) = true :=
  ⟨(digit_facts c).1, (digit_facts c).2.1⟩

theorem unescaped_digits (stray : UInt8 → UInt8) : unescaped stray (dig1 c) (dig2 c) = [c] := by
  obtain ⟨-, -, hA, hB, hGapA, hGapB, hDenoted, -⟩ := digit_facts c
  rw [unescaped_of_clean stray ⟨hA, hB, fun _ _ => ⟨hGapA, hGapB⟩⟩, hDenoted]

theorem sscanfHex_digits : sscanfHex [dig1 c, dig2 c] = some (c.toNat : Int) := by
  obtain ⟨-, -, -, -, -, -, -, hRead⟩ := digit_facts c
  exact hRead

end Characters

/-! ## Texts -/

section Texts

variable (s : Bytes)

/-- `uriDecode` undoes the encoding, whatever was on the stack. -/
theorem uriDecode_encoded (ii : Int) : uriDecode ii (s.flatMap encoded) = s := by
  unfold uriDecode
  induction s generalizing ii with
  | nil => rfl
  | cons c s ih =>
      rw [List.flatMap_cons, encoded]
      split
      · rename_i hKept
        obtain ⟨-, hPercent, -⟩ := kept_iff c hKept
        rw [List.singleton_append, uriDecodeFrom, if_neg hPercent, ih]
      · have hByte : UInt8.ofInt (c.toNat : Int) = c := by
          rw [UInt8.ofInt, ← UInt8.toNat_inj, UInt8.toNat_ofNat']
          have hLess := c.toNat_lt
          omega
        simp only [char2hex, List.cons_append, List.nil_append]
        rw [uriDecodeFrom, if_pos rfl]
        simp only [List.take_succ_cons, List.take_zero, sscanfHex_digits, Option.getD_some, hByte,
          ih]

theorem unescapeURL_encoded (stray : UInt8 → UInt8) :
    unescapeURL stray (s.flatMap encoded) = s := by
  induction s with
  | nil => rfl
  | cons c s ih =>
      rw [List.flatMap_cons, encoded]
      split
      · rename_i hKept
        obtain ⟨-, hPercent, hPlus⟩ := kept_iff c hKept
        rw [List.singleton_append, unescapeURL_cons _ stray hPercent, if_neg hPlus, ih]
      · simp only [char2hex, List.cons_append, List.nil_append]
        rw [unescapeURL, if_pos rfl, unescaped_digits, ih]
        rfl

/-- Every `'%'` of an encoding has its two digits. -/
theorem escapes_encoded : ∀ e ∈ escapes (s.flatMap encoded), e.length = 2 := by
  induction s with
  | nil => intro e he; cases he
  | cons c s ih =>
      intro e he
      rw [List.flatMap_cons, encoded] at he
      split at he
      · rename_i hKept
        obtain ⟨-, hPercent, -⟩ := kept_iff c hKept
        rw [List.singleton_append, escapes_cons _ hPercent] at he
        exact ih e he
      · simp only [char2hex, List.cons_append, List.nil_append, escapes, if_pos,
          List.mem_cons] at he
        rcases he with rfl | he
        · rfl
        · exact ih e he

end Texts

/-- Made of unreserved characters, and of `'%'` with two hexadecimal digits
behind it. -/
inductive Encoding : Bytes → Prop where
  | nil : Encoding []
  | char {c : UInt8} {s : Bytes} (hc : isUnreserved c = true) (hs : Encoding s) : Encoding (c :: s)
  | escape {a b : UInt8} {s : Bytes} (ha : isHex a = true) (hb : isHex b = true)
      (hs : Encoding s) : Encoding (37 :: a :: b :: s)

theorem encoding_encoded (s : Bytes) : Encoding (s.flatMap encoded) := by
  induction s with
  | nil => exact .nil
  | cons c s ih =>
      rw [List.flatMap_cons, encoded]
      split
      · rename_i hKept
        exact .char (kept_iff c hKept).1 ih
      · exact .escape (isHex_digits c).1 (isHex_digits c).2 ih

/-- An escape takes two bytes more than the character. -/
theorem length_encoded (s : Bytes) :
    (s.flatMap encoded).length = s.length + 2 * s.countP (fun c => !isKept c) := by
  induction s with
  | nil => rfl
  | cons c s ih =>
      rw [List.flatMap_cons, List.length_append, ih, encoded, List.countP_cons, List.length_cons]
      by_cases hKept : isKept c = true
      · simp [hKept]; omega
      · simp [hKept, char2hex]; omega

/-! ## The counters -/

section Counters

variable {s : Bytes}

/-- What `uriEncode` encodes is the front of the text, and the whole of it if its
length is an `int`. -/
theorem uriEncode_eq (s : Bytes) :
    ∃ n, uriEncode s = (s.take n).flatMap encoded ∧ (s.length ≤ n ↔ s.length < 2 ^ 31) := by
  refine ⟨_, rfl, ?_⟩
  by_cases hSmall : s.length < 2 ^ 31
  · have hSame : (s.length : Int).bmod (2 ^ 32) = s.length := by
      apply Int.bmod_eq_of_le <;> omega
    rw [hSame]
    omega
  · have hBound := Int.bmod_lt (x := (s.length : Int)) (m := 2 ^ 32) (by decide)
    simp only [hSmall, iff_false]
    omega

/-- The two round trips, and what an encoding is made of. -/
def RoundTrip (stray : UInt8 → UInt8) (ii : Int) (s : Bytes) : Prop :=
  uriDecode ii (uriEncode s) = s ∧
    (∃ r, Loop.Ends (unescapeStep stray (uriEncode s)) {} r ∧ r.a = s) ∧ Encoding (uriEncode s)

theorem uriEncode_of_lt (hSmall : s.length < 2 ^ 31) : uriEncode s = s.flatMap encoded := by
  obtain ⟨n, hEq, hWhole⟩ := uriEncode_eq s
  rw [hEq, List.take_of_length_le (hWhole.2 hSmall)]

theorem RoundTrip.length_lt {stray : UInt8 → UInt8} {ii : Int} (h : RoundTrip stray ii s) :
    s.length < 2 ^ 31 := by
  obtain ⟨n, hEq, hWhole⟩ := uriEncode_eq s
  have hDecode := h.1
  rw [hEq, uriDecode_encoded] at hDecode
  have hLength := congrArg List.length hDecode
  rw [List.length_take] at hLength
  exact hWhole.1 (by omega)

/--
**The round trips.** They hold if and only if the length of the text is an `int`,
and the length of its encoding an `unsigned int`.
-/
theorem round_trip_iff (stray : UInt8 → UInt8) (ii : Int) (s : Bytes) :
    RoundTrip stray ii s ↔
      s.length < 2 ^ 31 ∧ s.length + 2 * s.countP (fun c => !isKept c) < 2 ^ 32 := by
  rw [← length_encoded]
  constructor
  · intro h
    have hSmall := h.length_lt
    refine ⟨hSmall, ?_⟩
    by_contra hLong
    obtain ⟨r, hEnds, -⟩ := h.2.1
    rw [uriEncode_of_lt hSmall] at hEnds
    exact not_ends_of_long (Nat.le_of_not_lt hLong) r hEnds
  · rintro ⟨hSmall, hFits⟩
    unfold RoundTrip
    rw [uriEncode_of_lt hSmall]
    -- with whole escapes only, the counter may come as far as the end
    obtain ⟨r, hRun⟩ := exists_unescaped stray (s.flatMap encoded) [] {} rfl hFits
      (fun e he hCut => absurd (escapes_encoded s e he) (by omega))
    refine ⟨uriDecode_encoded s ii, ⟨r, hRun.ends, ?_⟩, encoding_encoded s⟩
    rw [hRun.a, unescapeURL_encoded]
    rfl

/-- Of `2 ^ 31` bytes `"a"` nothing is encoded. -/
theorem not_round_trip_of_long :
    ¬ ∀ (stray : UInt8 → UInt8) (ii : Int) (s : Bytes), RoundTrip stray ii s := by
  intro hAll
  have hLength := (hAll id 0 (List.replicate (2 ^ 31) 97)).length_lt
  rw [List.length_replicate] at hLength
  exact lt_irrefl _ hLength

example : uriEncode (text "a b-\x00\xff") = text "a%20b%2d%00%c3%bf" := by decide +kernel

end Counters

end Megatron.CUtils
