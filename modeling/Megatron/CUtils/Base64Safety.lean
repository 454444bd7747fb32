import Megatron.CUtils.Base64RoundTrip

/-!
# Decoding any text

`Ns_HtuuDecode` is given what a peer sent.  It stops at the first character that
is not in `six2pr`, but decodes whole groups, so that it may read what stands
behind that character and behind the end of the text; a `char` from `0x80` on is
a negative index of `pr2six`; and for a text of `2 ^ 31 - 3` bytes or more what
it counts in an `int` is no longer the length.

## Main results

* `decodeGroups_iff` — how far the loop comes is a matter of what it reads.
* `safe_iff_safeText` — the texts whose decoding stays in the table, the text and
  the buffer, and returns no more than was written.
-/

namespace Megatron.CUtils

open Megatron.Corelib (Bytes)
open Megatron.Http (forall_byte)

/-! ## What is read -/

/-- The first `n` bytes of `u` are there, and in ASCII. -/
def AsciiFront (n : Nat) (u : Bytes) : Prop := ∀ i < n, ∃ c, u[i]? = some c ∧ c < 128

section Front

variable {n : Nat} {c : UInt8} {u : Bytes}

@[simp] theorem asciiFront_zero : AsciiFront 0 u := by
  intro i hi
  omega

@[simp] theorem not_asciiFront_nil : ¬ AsciiFront (n + 1) [] := by
  intro h
  obtain ⟨c, hc, -⟩ := h 0 (Nat.succ_pos n)
  cases hc

@[simp] theorem asciiFront_cons : AsciiFront (n + 1) (c :: u) ↔ c < 128 ∧ AsciiFront n u := by
  constructor
  · intro h
    refine ⟨?_, fun i hi => by simpa using h (i + 1) (by omega)⟩
    obtain ⟨c', hc, hLess⟩ := h 0 (Nat.succ_pos n)
    simp only [List.getElem?_cons_zero, Option.some.injEq] at hc
    rwa [hc]
  · rintro ⟨hc, h⟩ i hi
    cases i with
    | zero => exact ⟨c, rfl, hc⟩
    | succ i => simpa using h i (by omega)

theorem AsciiFront.mono {m : Nat} (h : AsciiFront n u) (hLe : m ≤ n) : AsciiFront m u :=
  fun i hi => h i (by omega)

end Front

/-- The characters of `six2pr` at the front of a text. -/
def codes (t : Bytes) : Nat := (t.takeWhile (· ∈ six2pr)).length

/-- The table is for ASCII, and what is no more than `maxVal` in it is the place of
the character in `six2pr`. -/
theorem dec_facts : ∀ c : UInt8,
    (dec c).isSome = decide (c < 128) ∧
      (dec c).all (fun v => maxVal < v || enc v == c) = true := by
  simp only [dec, enc, pr2six_eq, six2pr_eq]
  exact forall_byte (by decide +kernel)

section Characters

variable {c : UInt8}

theorem exists_enc (hMem : c ∈ six2pr) : ∃ v < 64, c = enc v := by
  obtain ⟨i, hi, rfl⟩ := List.mem_iff_getElem.1 hMem
  have hLength : six2pr.length = 64 := by decide +kernel
  have hLess : i < 64 := by omega
  have hPlace : (UInt8.ofNat i).toNat = i := UInt8.toNat_ofNat_of_lt' (show i < 256 by omega)
  refine ⟨UInt8.ofNat i, ?_, ?_⟩
  · rw [UInt8.lt_iff_toNat_lt, hPlace]
    exact hLess
  · rw [enc, hPlace, List.getD_eq_getElem?_getD, List.getElem?_eq_getElem hi, Option.getD_some]

theorem exists_dec (hc : c < 128) : ∃ v, dec c = some v ∧ (v ≤ maxVal ↔ c ∈ six2pr) := by
  obtain ⟨hSome, hPlace⟩ := dec_facts c
  rw [decide_eq_true hc] at hSome
  obtain ⟨v, hv⟩ := Option.isSome_iff_exists.1 hSome
  refine ⟨v, hv, fun hLe => ?_, fun hMem => ?_⟩
  · have hBelow : v < 64 := UInt8.lt_of_le_of_lt hLe (by decide)
    simp only [hv, Option.all_some, Bool.or_eq_true, decide_eq_true_eq, beq_iff_eq] at hPlace
    rcases hPlace with hOver | rfl
    · exact absurd hLe (UInt8.not_le.2 hOver)
    · exact enc_mem hBelow
  · obtain ⟨w, hw, rfl⟩ := exists_enc hMem
    rw [dec_enc hw] at hv
    obtain rfl := Option.some.inj hv
    exact UInt8.le_iff_toNat_le.2 (Nat.le_of_lt_succ (UInt8.lt_iff_toNat_lt.1 hw))

theorem dec_eq_none (hc : ¬ c < 128) : dec c = none ∧ c ∉ six2pr := by
  obtain ⟨hSome, -⟩ := dec_facts c
  rw [decide_eq_false hc] at hSome
  have hNone := Option.isSome_eq_false_iff.1 hSome
  rw [Option.isNone_iff_eq_none] at hNone
  refine ⟨hNone, fun hMem => ?_⟩
  obtain ⟨v, hv, rfl⟩ := exists_enc hMem
  rw [dec_enc hv] at hNone
  cases hNone

theorem isSome_dec : (dec c).isSome = true ↔ c < 128 := by
  constructor
  · intro h
    by_contra hNot
    rw [(dec_eq_none hNot).1] at h
    cases h
  · intro hc
    obtain ⟨v, hv, -⟩ := exists_dec hc
    rw [hv]
    rfl

end Characters

/-- The scan finds the characters of `six2pr`, if the one behind them is in
ASCII. -/
theorem scan_eq_some_iff {t : Bytes} {n : Nat} :
    scan t = some n ↔ n = codes t ∧ AsciiFront (codes t + 1) (t ++ [0]) := by
  induction t generalizing n with
  | nil => simp [scan, dec_nul, codes, maxVal, eq_comm]
  | cons c t ih =>
      by_cases hc : c < 128
      · obtain ⟨v, hv, hCode⟩ := exists_dec hc
        by_cases hMem : c ∈ six2pr
        · have hCount : codes (c :: t) = codes t + 1 := by simp [codes, hMem]
          simp only [scan, hv, Option.bind_eq_bind, Option.bind_some, hCode.2 hMem, if_true, hCount,
            List.cons_append, asciiFront_cons, hc, true_and, Option.map_eq_some_iff, ih]
          constructor
          · rintro ⟨m, ⟨rfl, hFront⟩, rfl⟩
            exact ⟨rfl, hFront⟩
          · rintro ⟨rfl, hFront⟩
            exact ⟨_, ⟨rfl, hFront⟩, rfl⟩
        · have hCount : codes (c :: t) = 0 := by simp [codes, hMem]
          simp [scan, hv, mt hCode.1 hMem, hCount, hc, eq_comm]
      · obtain ⟨hv, hMem⟩ := dec_eq_none hc
        have hCount : codes (c :: t) = 0 := by simp [codes, hMem]
        simp [scan, hv, hCount, hc]

/-! ## The loop over the groups -/

/-- The rounds of the loop for so many characters. -/
def rounds (nprbytes : Int) : Nat := ((nprbytes + 3) / 4).toNat

/-- What `k` rounds of the loop leave. -/
structure Looped (k : Nat) (x y : Decode) : Prop where
  bufin : y.bufin = x.bufin + 4 * k
  nprbytes : y.nprbytes = x.nprbytes - 4 * k
  length : y.out.length = x.out.length + 3 * k

section Groups

variable {cap : Nat}

theorem lt_of_dec {c v : UInt8} (h : dec c = some v) : c < 128 := isSome_dec.1 (by rw [h]; rfl)

/-- A round that goes through has read four characters in ASCII. -/
theorem ascii_of_decodeGroups {c1 c2 c3 c4 : UInt8} {rest : Bytes} {x y : Decode}
    (hMore : 0 < x.nprbytes)
    (h : decodeGroups cap (c1 :: c2 :: c3 :: c4 :: rest) x = some y) :
    c1 < 128 ∧ c2 < 128 ∧ c3 < 128 ∧ c4 < 128 := by
  rw [decodeGroups, if_neg (by omega)] at h
  simp only [Option.bind_eq_bind, Option.bind_eq_some_iff] at h
  obtain ⟨v1, h1, v2, h2, v3, h3, v4, h4, -⟩ := h
  exact ⟨lt_of_dec h1, lt_of_dec h2, lt_of_dec h3, lt_of_dec h4⟩

/-- In a buffer with room for it, the loop comes to its end if and only if all
that it reads is there and in ASCII. -/
theorem decodeGroups_iff (cap k : Nat) :
    ∀ (u : Bytes) (x : Decode), rounds x.nprbytes = k → x.out.length + 3 * k ≤ cap →
      ((∃ y, decodeGroups cap u x = some y) ↔ AsciiFront (4 * k) u) ∧
        ∀ y, decodeGroups cap u x = some y → Looped k x y := by
  induction k with
  | zero =>
      intro u x hRounds _
      have hDone : x.nprbytes ≤ 0 := by
        unfold rounds at hRounds
        omega
      rw [decodeGroups_done hDone]
      refine ⟨by simp, fun y hy => ?_⟩
      obtain rfl : x = y := Option.some.inj hy
      exact ⟨by omega, by omega, by omega⟩
  | succ k ih =>
      intro u x hRounds hRoom
      have hMore : 0 < x.nprbytes := by
        unfold rounds at hRounds
        omega
      have hFour : 4 * (k + 1) = 4 * k + 1 + 1 + 1 + 1 := by omega
      rcases u with _ | ⟨c1, _ | ⟨c2, _ | ⟨c3, _ | ⟨c4, rest⟩⟩⟩⟩
      · simp [decodeGroups, hMore, hFour]
      · simp [decodeGroups, hMore, hFour]
      · simp [decodeGroups, hMore, hFour]
      · simp [decodeGroups, hMore, hFour]
      · rw [hFour, asciiFront_cons, asciiFront_cons, asciiFront_cons, asciiFront_cons]
        by_cases hAll : c1 < 128 ∧ c2 < 128 ∧ c3 < 128 ∧ c4 < 128
        · obtain ⟨h1, h2, h3, h4⟩ := hAll
          obtain ⟨v1, hv1, -⟩ := exists_dec h1
          obtain ⟨v2, hv2, -⟩ := exists_dec h2
          obtain ⟨v3, hv3, -⟩ := exists_dec h3
          obtain ⟨v4, hv4, -⟩ := exists_dec h4
          rw [decodeGroups_group _ hv1 hv2 hv3 hv4 hMore (by omega)]
          obtain ⟨hIff, hShape⟩ := ih rest
            { bufin := x.bufin + 4, nprbytes := x.nprbytes - 4
              out := x.out ++ decodeGroup v1 v2 v3 v4 }
            (by unfold rounds at *; dsimp only; omega) (by simp [decodeGroup]; omega)
          refine ⟨by simp [hIff, h1, h2, h3, h4], fun y hy => ?_⟩
          obtain ⟨hBufin, hNpr, hLength⟩ := hShape y hy
          dsimp only at hBufin hNpr
          simp only [decodeGroup, List.length_append, List.length_cons, List.length_nil] at hLength
          exact ⟨by omega, by omega, by omega⟩
        · have hNot : ∀ y, decodeGroups cap (c1 :: c2 :: c3 :: c4 :: rest) x ≠ some y :=
            fun y hy => hAll (ascii_of_decodeGroups hMore hy)
          refine ⟨iff_of_false (not_exists.2 hNot) ?_, fun y hy => absurd hy (hNot y)⟩
          rintro ⟨h1, h2, h3, h4, -⟩
          exact hAll ⟨h1, h2, h3, h4⟩

end Groups

/-! ## What is returned -/

section Returned

variable {s t : Bytes} {bufin : Nat} {nprbytes nbytesdecoded : Int}

/-- The look back takes one or two off, if anything. -/
theorem corrected_cases {n : Int} (h : corrected s bufin nprbytes nbytesdecoded = some n) :
    nprbytes % 4 = 0 ∧ n = nbytesdecoded ∨
      nprbytes % 4 ≠ 0 ∧ (n = nbytesdecoded - 1 ∨ n = nbytesdecoded - 2) := by
  unfold corrected at h
  split at h
  · rename_i hWhole
    exact .inl ⟨hWhole, (Option.some.inj h).symm⟩
  · rename_i hPart
    simp only [Option.bind_eq_bind, Option.bind_eq_some_iff, Option.some.injEq] at h
    obtain ⟨c, -, v, -, rfl⟩ := h
    refine .inr ⟨hPart, ?_⟩
    split <;> simp

/-- Behind a round, what is looked back at has been read. -/
theorem exists_corrected (nprbytes nbytesdecoded : Int) {p : Bytes} {k : Nat}
    (hFront : AsciiFront (4 * (k + 1)) (t ++ [0]))
    (hText : s = p ++ t) :
    ∃ n, corrected s (s.length - t.length + 4 * (k + 1)) nprbytes nbytesdecoded = some n := by
  obtain ⟨c, hc, hAscii⟩ := hFront (4 * k + 2) (by omega)
  obtain ⟨v, hv, -⟩ := exists_dec hAscii
  have hBack : lookBack s (s.length - t.length + 4 * (k + 1)) = some c := by
    have hPlace : s.length - t.length + 4 * (k + 1) - 2 = p.length + (4 * k + 2) := by
      simp [hText]
      omega
    rw [lookBack, if_pos (by omega), hPlace, hText, List.append_assoc,
      List.getElem?_append_right (by omega), ← hc]
    congr 1
    omega
  unfold corrected
  split
  · exact ⟨_, rfl⟩
  · simp [hBack, hv]

end Returned

/-! ## Safety -/

/-- Every index is one of `pr2six`, every read is in the text with its NUL, every
write in the buffer, and what is returned is between 0 and the number of bytes
written. -/
def Safe (s : Bytes) : Prop :=
  s = [] ∨ ∃ out n, htuuDecode (s.length + 10) ((s.length : Int).bmod (2 ^ 32)) s = some (out, n) ∧
    0 ≤ n ∧ n ≤ out.length

/-- The text behind its blanks, with the NUL. -/
def unblanked (s : Bytes) : Bytes := s.dropWhile isBlank ++ [0]

/-- For a text of less than `2 ^ 31 - 3` bytes: what the scan and the last group
read is there, and in ASCII. -/
def SafeShort (s : Bytes) : Prop :=
  let n := codes (s.dropWhile isBlank)
  AsciiFront (max (n + 1) (4 * ((n + 3) / 4))) (unblanked s)

/-- For any text: `n` and `size` are the `int`s that the program has for the
number of characters and for the size, and `decoded` what it makes of `n`. -/
def SafeLong (s : Bytes) : Prop :=
  let n := (codes (s.dropWhile isBlank) : Int).bmod (2 ^ 32)
  let size := (s.length : Int).bmod (2 ^ 32)
  let decoded := 3 * (n + 3).tdiv 4
  AsciiFront (codes (s.dropWhile isBlank) + 1) (unblanked s) ∧ n + 3 < 2 ^ 31 ∧
    (decoded ≤ size ∧
        (0 < n ∧ AsciiFront (4 * rounds n) (unblanked s) ∨ n = 0 ∨ n = -4) ∨
      size < decoded ∧ -2 ^ 29 ≤ size ∧ size < 2 ^ 29 ∧
        (0 < size ∧ size % 3 ≠ 0 ∧ decoded = 3 * (size / 3 + 1) ∧
            AsciiFront (4 * rounds (4 * size / 3)) (unblanked s) ∨
          size < 0 ∧ size % 3 = 0 ∧ decoded = 0))

section Safe

variable {s : Bytes}

/-- What the counts are to be, for what is returned to be right. -/
def CountsFit (nbytesdecoded nprbytes : Int) : Prop :=
  (if nprbytes % 4 = 0 then 0 else 3) ≤ nbytesdecoded ∧ nbytesdecoded ≤ 3 * rounds nprbytes

/-- Division in C, which cuts towards zero. -/
theorem tdiv_cases (a b : Int) :
    0 ≤ a ∧ a.tdiv b = a / b ∨ a < 0 ∧ a.tdiv b = -(-a / b) := by
  by_cases ha : 0 ≤ a
  · exact .inl ⟨ha, Int.tdiv_eq_ediv_of_nonneg ha⟩
  · refine .inr ⟨by omega, ?_⟩
    rw [← Int.tdiv_eq_ediv_of_nonneg (by omega), Int.neg_tdiv, Int.neg_neg]

/-- What an `int` makes of a length is no more than the length. -/
theorem bmod_le_self (n m : Nat) : (n : Int).bmod m ≤ n := by
  have hMod : ((n : Int) % m) ≤ n := by
    rw [← Int.natCast_mod]
    exact_mod_cast Nat.mod_le n m
  rw [Int.bmod_def]
  split <;> omega

section Counts

variable {n nbytesdecoded nprbytes size : Int}

theorem byteCount_eq_some_iff :
    byteCount n = some nbytesdecoded ↔
      -2 ^ 31 ≤ n + 3 ∧ n + 3 < 2 ^ 31 ∧ nbytesdecoded = 3 * (n + 3).tdiv 4 := by
  unfold byteCount asInt
  split
  · rename_i h
    simp only [Option.map_some, Option.some.injEq, h.1, h.2, true_and]
    omega
  · rename_i h
    simp only [Option.map_none, reduceCtorEq, false_iff]
    omega

theorem charCount_eq_some_iff :
    charCount size nbytesdecoded n = some nprbytes ↔
      nbytesdecoded ≤ size ∧ nprbytes = n ∨
        size < nbytesdecoded ∧ -2 ^ 29 ≤ size ∧ size < 2 ^ 29 ∧ nprbytes = (4 * size).tdiv 3 := by
  unfold charCount asInt
  rw [Int.mul_comm size 4]
  split_ifs
  · simp only [Option.map_some, Option.some.injEq]
    omega
  · simp only [Option.map_none, reduceCtorEq, false_iff]
    omega
  · simp only [Option.some.injEq]
    omega

/-- The loop never leaves the buffer. -/
theorem room_of_counts {len : Nat} (hSize : size ≤ len)
    (hBytes : byteCount n = some nbytesdecoded)
    (hChars : charCount size nbytesdecoded n = some nprbytes) :
    3 * rounds nprbytes ≤ len + 10 := by
  obtain ⟨-, -, hBytes⟩ := byteCount_eq_some_iff.1 hBytes
  have hThree := tdiv_cases (n + 3) 4
  have hSizeDiv := tdiv_cases (4 * size) 3
  unfold rounds
  rcases charCount_eq_some_iff.1 hChars with ⟨hFits, rfl⟩ | ⟨hOver, -, -, rfl⟩
  · omega
  · omega

end Counts

theorem safe_iff_counts (hSome : s ≠ []) :
    Safe s ↔ ∃ nbytesdecoded nprbytes,
      AsciiFront (codes (s.dropWhile isBlank) + 1) (unblanked s) ∧
      byteCount ((codes (s.dropWhile isBlank) : Int).bmod (2 ^ 32)) = some nbytesdecoded ∧
      charCount ((s.length : Int).bmod (2 ^ 32)) nbytesdecoded
          ((codes (s.dropWhile isBlank) : Int).bmod (2 ^ 32)) = some nprbytes ∧
      AsciiFront (4 * rounds nprbytes) (unblanked s) ∧ CountsFit nbytesdecoded nprbytes := by
  constructor
  · rintro (hNil | ⟨out, outlen, hDecode, hLow, hHigh⟩)
    · exact absurd hNil hSome
    unfold htuuDecode at hDecode
    simp only [Option.bind_eq_bind, Option.bind_eq_some_iff, Option.some.injEq, Prod.mk.injEq]
      at hDecode
    obtain ⟨n, hScan, nb, hBytes, np, hChars, x, hLoop, outlen', hLast, rfl, rfl⟩ := hDecode
    obtain ⟨rfl, hFront⟩ := scan_eq_some_iff.1 hScan
    have hRoom := room_of_counts (bmod_le_self s.length _) hBytes hChars
    obtain ⟨hIff, hShape⟩ := decodeGroups_iff (s.length + 10) (rounds np)
      (s.dropWhile isBlank ++ [0]) { nprbytes := np } rfl (by simpa using hRoom)
    obtain ⟨-, hNpr, hLength⟩ := hShape x hLoop
    refine ⟨nb, np, hFront, hBytes, hChars, hIff.1 ⟨x, hLoop⟩, ?_⟩
    obtain ⟨-, -, hThree⟩ := byteCount_eq_some_iff.1 hBytes
    simp only [List.length_nil] at hNpr hLength
    unfold CountsFit
    rcases corrected_cases hLast with ⟨hWhole, hSame⟩ | ⟨hPart, hSame⟩
    · rw [if_pos (by omega)]
      omega
    · rw [if_neg (by omega)]
      omega
  · rintro ⟨nb, np, hFront, hBytes, hChars, hGroups, hFit⟩
    have hRoom := room_of_counts (bmod_le_self s.length _) hBytes hChars
    obtain ⟨hIff, hShape⟩ := decodeGroups_iff (s.length + 10) (rounds np)
      (s.dropWhile isBlank ++ [0]) { nprbytes := np } rfl (by simpa using hRoom)
    obtain ⟨x, hLoop⟩ := hIff.2 hGroups
    obtain ⟨hBufin, hNpr, hLength⟩ := hShape x hLoop
    obtain ⟨-, -, hThree⟩ := byteCount_eq_some_iff.1 hBytes
    dsimp only at hBufin hNpr hLength
    rw [List.length_nil] at hLength
    rw [Nat.zero_add] at hBufin
    unfold CountsFit at hFit
    obtain ⟨outlen, hLast, hRange⟩ : ∃ outlen,
        corrected s (s.length - (s.dropWhile isBlank).length + x.bufin) x.nprbytes nb =
          some outlen ∧ 0 ≤ outlen ∧ outlen ≤ x.out.length := by
      cases hRounds : rounds np with
      | zero =>
          rw [hRounds] at hFit hNpr hLength
          have hWhole : np % 4 = 0 := by
            by_contra hPart
            rw [if_neg hPart] at hFit
            omega
          rw [if_pos hWhole] at hFit
          exact ⟨nb, by rw [corrected, if_pos (by omega)], by omega, by omega⟩
      | succ k =>
          rw [hRounds] at hFit hGroups hNpr hLength hBufin
          obtain ⟨outlen, hLast⟩ := exists_corrected x.nprbytes nb hGroups
            (List.takeWhile_append_dropWhile (p := isBlank) (l := s)).symm
          rw [← hBufin] at hLast
          refine ⟨outlen, hLast, ?_⟩
          rcases corrected_cases hLast with ⟨hWhole, hSame⟩ | ⟨hPart, hSame⟩
          · rw [if_pos (by omega)] at hFit
            omega
          · rw [if_neg (by omega)] at hFit
            omega
    exact .inr ⟨x.out, outlen, htuuDecode_eq (scan_eq_some_iff.2 ⟨rfl, hFront⟩) hBytes hChars hLoop
      hLast, hRange⟩

theorem safe_iff_long (hSome : s ≠ []) : Safe s ↔ SafeLong s := by
  rw [safe_iff_counts hSome]
  unfold SafeLong CountsFit
  have hInt := Int.le_bmod (x := (codes (s.dropWhile isBlank) : Int)) (m := 2 ^ 32) (by decide)
  generalize (codes (s.dropWhile isBlank) : Int).bmod (2 ^ 32) = n at hInt ⊢
  generalize (s.length : Int).bmod (2 ^ 32) = size
  have hThree := tdiv_cases (n + 3) 4
  have hDiv := tdiv_cases (4 * size) 3
  constructor
  · rintro ⟨nb, np, hFront, hBytes, hChars, hGroups, hFit⟩
    obtain ⟨-, hSmall, rfl⟩ := byteCount_eq_some_iff.1 hBytes
    refine ⟨hFront, hSmall, ?_⟩
    rcases charCount_eq_some_iff.1 hChars with ⟨hLe, rfl⟩ | ⟨hOver, hLow, hHigh, rfl⟩
    · refine .inl ⟨hLe, ?_⟩
      by_cases hPos : 0 < np
      · exact .inl ⟨hPos, hGroups⟩
      · right
        unfold rounds at hFit
        split at hFit <;> omega
    · refine .inr ⟨hOver, hLow, hHigh, ?_⟩
      by_cases hPos : 0 < size
      · have hSame : (4 * size).tdiv 3 = 4 * size / 3 := by omega
        rw [hSame] at hGroups hFit
        refine .inl ⟨hPos, ?_, ?_, hGroups⟩
        · unfold rounds at hFit
          split at hFit <;> omega
        · unfold rounds at hFit
          split at hFit <;> omega
      · right
        unfold rounds at hFit
        split at hFit <;> omega
  · rintro ⟨hFront, hSmall, hCases⟩
    have hBytes : byteCount n = some (3 * (n + 3).tdiv 4) :=
      byteCount_eq_some_iff.2 ⟨by omega, hSmall, rfl⟩
    rcases hCases with ⟨hLe, hRead⟩ | ⟨hOver, hLow, hHigh, hRead⟩
    · refine ⟨_, n, hFront, hBytes, charCount_eq_some_iff.2 (.inl ⟨hLe, rfl⟩), ?_, ?_⟩
      · rcases hRead with ⟨-, hGroups⟩ | rfl | rfl
        · exact hGroups
        · exact asciiFront_zero
        · exact asciiFront_zero
      · unfold rounds
        split <;> omega
    · refine ⟨_, _, hFront, hBytes, charCount_eq_some_iff.2 (.inr ⟨hOver, hLow, hHigh, rfl⟩), ?_, ?_⟩
      · rcases hRead with ⟨hPos, -, -, hGroups⟩ | ⟨hNeg, -⟩
        · have hSame : (4 * size).tdiv 3 = 4 * size / 3 := by omega
          rwa [hSame]
        · have hNone : rounds ((4 * size).tdiv 3) = 0 := by
            unfold rounds
            omega
          rw [hNone]
          exact asciiFront_zero
      · unfold rounds
        split <;> omega

theorem AsciiFront.le_length {n : Nat} {u : Bytes} (h : AsciiFront n u) : n ≤ u.length := by
  by_contra hLong
  obtain ⟨c, hc, -⟩ := h u.length (by omega)
  rw [List.getElem?_eq_none (le_refl _)] at hc
  cases hc

theorem asciiFront_max {n m : Nat} {u : Bytes} :
    AsciiFront (max n m) u ↔ AsciiFront n u ∧ AsciiFront m u := by
  constructor
  · intro h
    exact ⟨h.mono (le_max_left n m), h.mono (le_max_right n m)⟩
  · rintro ⟨hn, hm⟩ i hi
    rcases lt_max_iff.1 hi with hi | hi
    · exact hn i hi
    · exact hm i hi

/-- Below `2 ^ 31 - 3` bytes the counts are right.  A buffer that is too small is
one for a text that ends within a group. -/
theorem safeLong_iff_safeShort (hShort : s.length + 3 < 2 ^ 31) : SafeLong s ↔ SafeShort s := by
  have hDrop : (s.dropWhile isBlank).length ≤ s.length := (List.dropWhile_sublist _).length_le
  have hCodes : codes (s.dropWhile isBlank) ≤ (s.dropWhile isBlank).length :=
    (List.takeWhile_sublist _).length_le
  have hUnblanked : (unblanked s).length = (s.dropWhile isBlank).length + 1 := by
    simp [unblanked]
  have hLength : (s.length : Int).bmod (2 ^ 32) = s.length := by
    apply Int.bmod_eq_of_le <;> omega
  have hCount : (codes (s.dropWhile isBlank) : Int).bmod (2 ^ 32) =
      codes (s.dropWhile isBlank) := by
    apply Int.bmod_eq_of_le <;> omega
  unfold SafeLong SafeShort
  rw [hLength, hCount]
  dsimp only
  rw [asciiFront_max]
  generalize codes (s.dropWhile isBlank) = n at hCodes ⊢
  have hRounds : rounds (n : Int) = (n + 3) / 4 := by
    unfold rounds
    omega
  have hThree := tdiv_cases ((n : Int) + 3) 4
  rw [hRounds]
  constructor
  · rintro ⟨hFront, -, ⟨-, hRead⟩ | ⟨hOver, -, -, hRead⟩⟩
    · refine ⟨hFront, ?_⟩
      rcases hRead with ⟨-, hGroups⟩ | hZero | hNeg
      · exact hGroups
      · have hNone : (n + 3) / 4 = 0 := by omega
        rw [hNone]
        exact asciiFront_zero
      · omega
    · rcases hRead with ⟨-, -, -, hGroups⟩ | ⟨hNeg, -⟩
      · have hLe := hGroups.le_length
        have hFew : s.length = 1 ∨ s.length = 2 ∨ s.length = 5 := by omega
        unfold rounds at hLe
        rcases hFew with hSize | hSize | hSize <;> rw [hSize] at hLe <;> omega
      · omega
  · rintro ⟨hFront, hGroups⟩
    have hLe := hGroups.le_length
    refine ⟨hFront, by omega, .inl ⟨by omega, ?_⟩⟩
    by_cases hPos : 0 < n
    · exact .inl ⟨by omega, hGroups⟩
    · exact .inr (.inl (by omega))

/-- The texts whose decoding is safe. -/
def SafeText (s : Bytes) : Prop :=
  if s.length + 3 < 2 ^ 31 then SafeShort s else SafeLong s

theorem safeShort_nil : SafeShort [] := by
  intro i hi
  have hZero : i = 0 := by simpa [codes] using hi
  exact ⟨0, by rw [hZero]; rfl, by decide⟩

theorem safe_of_safeText (h : SafeText s) : Safe s := by
  by_cases hSome : s = []
  · exact .inl hSome
  · rw [safe_iff_long hSome]
    unfold SafeText at h
    split at h
    · rename_i hShort
      exact (safeLong_iff_safeShort hShort).2 h
    · exact h

theorem safeText_of_safe (h : Safe s) : SafeText s := by
  unfold SafeText
  by_cases hSome : s = []
  · subst hSome
    rw [if_pos (by decide)]
    exact safeShort_nil
  · rw [safe_iff_long hSome] at h
    split
    · rename_i hShort
      exact (safeLong_iff_safeShort hShort).1 h
    · exact h

/--
**Safety of the decoder.** Decoding a text stays in the table, the text and the
buffer, and returns no more than was written, if and only if what the scan and
the groups read is there and in ASCII, and the `int`s are the counts.
-/
theorem safe_iff_safeText (s : Bytes) : Safe s ↔ SafeText s :=
  ⟨safeText_of_safe, safe_of_safeText⟩

/-- One byte from `0x80` on is an index in front of `pr2six`. -/
theorem not_safe_of_high : ¬ ∀ s : Bytes, Safe s := by
  intro hAll
  have hFront : SafeShort [0x80] := safeText_of_safe (hAll [0x80])
  have hFirst : AsciiFront 1 (unblanked [0x80]) := hFront.mono (le_max_left _ _)
  obtain ⟨c, hc, hAscii⟩ := hFirst 0 (by decide)
  have hHigh : c = 0x80 := by simpa [unblanked, isBlank] using hc.symm
  rw [hHigh] at hAscii
  exact absurd hAscii (by decide)

end Safe

end Megatron.CUtils
