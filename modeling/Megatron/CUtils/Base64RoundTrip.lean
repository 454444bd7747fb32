import Megatron.CUtils.Base64

/-!
# Decoding what was encoded

`Ns_HtuuDecode` counts the characters in front of the first `'='`, decodes whole
groups, the `'='` with them, and takes off what the look back at the last group
says is too much.

## Main results

* `decodeGroups_base64` — the loop over an encoding.
* `base64_round_trip` — the decoder gives back what was encoded.
-/

namespace Megatron.CUtils

open Megatron.Corelib (Bytes)
open Megatron.Http (text)

section Scanning

theorem scan_append {w t : Bytes} (hChars : ∀ c ∈ w, ∃ v < 64, c = enc v) (hEnd : scan t = some 0) :
    scan (w ++ t) = some w.length := by
  induction w with
  | nil => exact hEnd
  | cons c w ih =>
      obtain ⟨v, hv, rfl⟩ := hChars c List.mem_cons_self
      have hRest := ih fun c hc => hChars c (List.mem_cons_of_mem _ hc)
      have hValue : v ≤ maxVal := by
        rw [UInt8.le_iff_toNat_le]
        exact Nat.le_of_lt_succ (UInt8.lt_iff_toNat_lt.1 hv)
      simp [scan, dec_enc hv, hValue, hRest]

theorem scan_padding (n : Nat) : scan (List.replicate n padding) = some 0 := by
  have hOver : ¬ (64 : UInt8) ≤ maxVal := by decide
  cases n with
  | zero => simp [scan, dec_nul, hOver]
  | succ n => simp [List.replicate_succ, scan, dec_padding, hOver]

theorem scan_base64 (s : Bytes) :
    ∃ n, scan (base64 s) = some n ∧ n + pads s.length = 4 * groups s.length := by
  obtain ⟨w, hEq, hChars, hLength⟩ := base64_eq s
  exact ⟨w.length, by rw [hEq, scan_append hChars (scan_padding _)], hLength⟩

/-- No encoding begins with a blank. -/
theorem dropWhile_base64 (s : Bytes) : (base64 s).dropWhile isBlank = base64 s := by
  rcases s with _ | ⟨a, _ | ⟨b, _ | ⟨c, s⟩⟩⟩
  · rfl
  all_goals
    have hNot := isBlank_enc (six1_lt a)
    simp [base64, encodeGroup, hNot]

end Scanning

/-! ## The loop over the groups -/

section Groups

variable {cap : Nat} {x : Decode} {c1 c2 c3 c4 v1 v2 v3 v4 : UInt8}

theorem decodeGroups_group (rest : Bytes) (h1 : dec c1 = some v1) (h2 : dec c2 = some v2)
    (h3 : dec c3 = some v3) (h4 : dec c4 = some v4) (hMore : 0 < x.nprbytes)
    (hFits : x.out.length + 3 ≤ cap) :
    decodeGroups cap (c1 :: c2 :: c3 :: c4 :: rest) x =
      decodeGroups cap rest
        { bufin := x.bufin + 4, nprbytes := x.nprbytes - 4
          out := x.out ++ decodeGroup v1 v2 v3 v4 } := by
  rw [decodeGroups, if_neg (by omega), h1, h2, h3, h4]
  simp only [Option.bind_eq_bind, Option.bind_some]
  rw [foldlM_put _ (by simpa [decodeGroup] using hFits)]
  rfl

theorem decodeGroups_done (hDone : x.nprbytes ≤ 0) : decodeGroups cap rest x = some x := by
  rcases rest with _ | ⟨c1, _ | ⟨c2, _ | ⟨c3, _ | ⟨c4, rest⟩⟩⟩⟩ <;>
    rw [decodeGroups] <;> simp [hDone]

/-- What the loop does to an encoding: the bytes come out, and behind them those
that the padding makes. -/
structure Decoded (cap : Nat) (s : Bytes) (x y : Decode) : Prop where
  loop : decodeGroups cap (base64 s ++ [0]) x = some y
  bufin : y.bufin = x.bufin + 4 * groups s.length
  nprbytes : y.nprbytes = -pads s.length
  out : ∃ d, y.out = x.out ++ d ∧ d.length = 3 * groups s.length ∧ d.take s.length = s

theorem decodeGroups_base64 (cap : Nat) (s : Bytes) :
    ∀ x : Decode, x.nprbytes = 4 * groups s.length - pads s.length →
      x.out.length + 3 * groups s.length ≤ cap → ∃ y, Decoded cap s x y := by
  induction s using base64.induct with
  | case1 =>
      intro x hNpr _
      have hZero : x.nprbytes = 0 := by simpa [groups, pads] using hNpr
      exact ⟨x, decodeGroups_done (by omega), by simp [groups], by simpa [pads] using hZero,
        [], by simp, by simp [groups], rfl⟩
  | case2 a =>
      intro x hNpr hFits
      have hTwo : x.nprbytes = 2 := by simpa [groups, pads] using hNpr
      have hStep := decodeGroups_group [0] (dec_enc (six1_lt a)) (dec_enc (six2_lt a 0))
        dec_padding dec_padding (show 0 < x.nprbytes by omega)
        (show x.out.length + 3 ≤ cap by simpa [groups] using hFits)
      refine ⟨_, hStep.trans (decodeGroups_done (by simp; omega)), by simp [groups], ?_,
        _, rfl, by simp [decodeGroup, groups], ?_⟩
      · simp [hTwo, pads]
      · simp [decodeGroup, first_byte]
  | case3 a b =>
      intro x hNpr hFits
      have hThree : x.nprbytes = 3 := by simpa [groups, pads] using hNpr
      have hStep := decodeGroups_group [0] (dec_enc (six1_lt a)) (dec_enc (six2_lt a b))
        (dec_enc (six3_lt b 0)) dec_padding (show 0 < x.nprbytes by omega)
        (show x.out.length + 3 ≤ cap by simpa [groups] using hFits)
      refine ⟨_, hStep.trans (decodeGroups_done (by simp; omega)), by simp [groups], ?_,
        _, rfl, by simp [decodeGroup, groups], ?_⟩
      · simp [hThree, pads]
      · simp [decodeGroup, first_byte, second_byte]
  | case4 a b c s ih =>
      intro x hNpr hFits
      have hGroups : groups (a :: b :: c :: s).length = groups s.length + 1 := groups_add _
      have hPads : pads (a :: b :: c :: s).length = pads s.length := pads_add _
      have hSmall : pads s.length ≤ 2 := by unfold pads; omega
      rw [hGroups] at hNpr hFits
      rw [hPads] at hNpr
      have hStep := decodeGroups_group (base64 s ++ [0]) (dec_enc (six1_lt a))
        (dec_enc (six2_lt a b)) (dec_enc (six3_lt b c)) (dec_enc (six4_lt c))
        (show 0 < x.nprbytes by omega) (show x.out.length + 3 ≤ cap by omega)
      obtain ⟨y, hLoop, hBufin, hLast, d, hOut, hLength, hTake⟩ :=
        ih { bufin := x.bufin + 4, nprbytes := x.nprbytes - 4
             out := x.out ++ decodeGroup (six1 a) (six2 a b) (six3 b c) (six4 c) }
          (by dsimp only; omega) (by simp [decodeGroup]; omega)
      refine ⟨y, hStep.trans hLoop, by dsimp only at hBufin; omega, by rw [hLast, hPads], _,
        hOut.trans (List.append_assoc _ _ _), ?_, ?_⟩
      · rw [List.length_append, hLength, hGroups]
        simp only [decodeGroup, List.length_cons, List.length_nil]
        omega
      · simp [decodeGroup, first_byte, second_byte, third_byte, hTake]

end Groups

/-! ## The look back -/

/-- The last but one character of an encoding. -/
theorem lookBack_base64 {s : Bytes} (hSome : s ≠ []) :
    ∃ c v, lookBack (base64 s) (4 * groups s.length) = some c ∧ dec c = some v ∧
      (pads s.length = 1 → v ≤ maxVal) ∧ (pads s.length = 2 → maxVal < v) := by
  obtain ⟨w, hEq, hChars, hLength⟩ := base64_eq s
  have hGroups : 1 ≤ groups s.length := by
    have hPos := List.length_pos_iff.2 hSome
    unfold groups
    omega
  have hSmall : pads s.length ≤ 2 := by unfold pads; omega
  rw [lookBack, if_pos (by omega), hEq, List.append_assoc]
  by_cases hTwo : pads s.length = 2
  · refine ⟨padding, 64, ?_, dec_padding, fun h => by omega, fun _ => by decide⟩
    rw [List.getElem?_append_right (by omega), hTwo]
    have hAt : 4 * groups s.length - 2 - w.length = 0 := by omega
    simp [hAt, List.replicate_succ]
  · have hLess : 4 * groups s.length - 2 < w.length := by omega
    obtain ⟨v, hv, hc⟩ := hChars _ (List.getElem_mem hLess)
    refine ⟨enc v, v, ?_, dec_enc hv, fun _ => ?_, fun h => by omega⟩
    · rw [List.getElem?_append_left hLess, List.getElem?_eq_getElem hLess, hc]
    · rw [UInt8.le_iff_toNat_le]
      exact Nat.le_of_lt_succ (UInt8.lt_iff_toNat_lt.1 hv)

/-! ## The round trip -/

section RoundTrip

variable {s : Bytes}

theorem byteCount_of_lt {n : Nat} (h : n + 3 < 2 ^ 31) :
    byteCount n = some (3 * (((n + 3) / 4 : Nat) : Int)) := by
  rw [byteCount, asInt, if_pos (by omega), Option.map_some, Int.tdiv_eq_ediv_of_nonneg (by omega)]
  congr 1
  omega

/-- What the look back makes of the three bytes for every group. -/
theorem corrected_base64 (hSome : s ≠ []) :
    corrected (base64 s) (4 * groups s.length) (-pads s.length) (3 * groups s.length) =
      some (s.length : Int) := by
  have hBounds : 3 * groups s.length = s.length + pads s.length ∧ pads s.length ≤ 2 := by
    unfold groups pads
    omega
  obtain ⟨c, v, hBack, hDec, hOne, hTwo⟩ := lookBack_base64 hSome
  have hCases : pads s.length = 0 ∨ pads s.length = 1 ∨ pads s.length = 2 := by omega
  unfold corrected
  simp only [hBack, hDec, Option.bind_eq_bind, Option.bind_some]
  rcases hCases with hPads | hPads | hPads
  · have hLen : (3 * groups s.length : Int) = s.length := by omega
    rw [hPads, if_pos (by decide), hLen]
  · have hLen : (3 * groups s.length : Int) - 1 = s.length := by omega
    rw [hPads, if_neg (by decide), if_neg (by simpa using hOne hPads), hLen]
  · have hLen : (3 * groups s.length : Int) - 2 = s.length := by omega
    rw [hPads, if_neg (by decide), if_pos (hTwo hPads), hLen]

theorem htuuDecode_base64 (hSome : s ≠ []) (hShort : s.length < 2 ^ 29) :
    ∃ out : Bytes, htuuDecode ((base64 s).length + 10) ((base64 s).length : Int) (base64 s) =
        some (out, (s.length : Int)) ∧ s.length ≤ out.length ∧ out.take s.length = s := by
  have hEnc := length_base64 s
  have hBounds : 3 * groups s.length = s.length + pads s.length ∧ pads s.length ≤ 2 := by
    unfold groups pads
    omega
  obtain ⟨n, hScan, hn⟩ := scan_base64 s
  obtain ⟨y, hLoop, hBufin, hLast, d, hOut, hLength, hTake⟩ :=
    decodeGroups_base64 ((base64 s).length + 10) s { nprbytes := (n : Int) }
      (by dsimp only; omega) (by simp; omega)
  have hInt : (n : Int).bmod (2 ^ 32) = n := by apply Int.bmod_eq_of_le <;> omega
  have hBytes : byteCount n = some (3 * groups s.length : Int) := by
    have hGroups : (n + 3) / 4 = groups s.length := by omega
    rw [byteCount_of_lt (by omega), hGroups]
  have hChars : charCount ((base64 s).length : Int) (3 * groups s.length) n = some (n : Int) :=
    if_neg (by omega)
  have hAt : y.bufin = 4 * groups s.length := by simpa using hBufin
  refine ⟨d, ?_, by omega, hTake⟩
  have hDecode := htuuDecode_eq (s := base64 s) (n := n) (x := y)
    (by rw [dropWhile_base64, hScan]) (by rw [hInt, hBytes]) (by rw [hInt, hChars])
    (by rw [dropWhile_base64, hLoop])
    (by rw [dropWhile_base64, Nat.sub_self, Nat.zero_add, hAt, hLast, corrected_base64 hSome])
  rw [hDecode, hOut, List.nil_append]

/-- Of what was written nothing else is copied. -/
theorem copy_eq {out : Bytes} {n : Nat} {other : Nat → UInt8} (hLe : n ≤ out.length) :
    (List.range n).map (fun j => out.getD j (other j)) = out.take n := by
  refine List.ext_getElem (by simp [hLe]) ?_
  intro j hj _
  have hLess : j < out.length := by
    rw [List.length_map, List.length_range] at hj
    omega
  simp [List.getElem?_eq_getElem hLess]

theorem base64Decode_base64 (beyond : Nat → UInt8) (hShort : s.length < 2 ^ 29) :
    Base64Decode beyond (base64 s) = some s := by
  by_cases hNil : s = []
  · rw [hNil]
    rfl
  obtain ⟨out, hDecode, hLe, hTake⟩ := htuuDecode_base64 hNil hShort
  have hEnc := length_base64 s
  have hGroups : s.length ≤ 3 * groups s.length ∧ groups s.length < 2 ^ 28 := by
    unfold groups
    omega
  have hPos := List.length_pos_iff.2 hNil
  have hSome : base64 s ≠ [] := List.length_pos_iff.1 (by omega)
  have hInt : ((base64 s).length : Int).bmod (2 ^ 32) = (base64 s).length := by
    apply Int.bmod_eq_of_le <;> omega
  have hOk : ¬ ((s.length : Int) < 0 ∨ (((base64 s).length + 10 : Nat) : Int) < s.length) := by
    omega
  unfold Base64Decode
  rw [if_neg hSome]
  dsimp only
  rw [hInt, hDecode, Option.bind_eq_bind, Option.bind_some]
  dsimp only
  rw [if_neg hOk, Int.toNat_natCast, copy_eq hLe, hTake]

/--
**The round trip.** For a text of less than `2 ^ 29` bytes the encoder returns
four characters for three bytes, of `six2pr` and padded with `'='`; the decoder
gives back the text; neither writes outside of its buffer.
-/
theorem base64_round_trip (beyond : Nat → UInt8) (s : Bytes) (hShort : s.length < 2 ^ 29) :
    ∃ r, Base64Encode beyond s r ∧ r.length = 4 * ((s.length + 2) / 3) ∧
      (∃ w : Bytes, (∀ c ∈ w, c ∈ six2pr) ∧
        r = w ++ List.replicate ((3 - s.length % 3) % 3) padding) ∧
      Base64Decode beyond r = some s := by
  obtain ⟨w, hEq, hChars, -⟩ := base64_eq s
  refine ⟨base64 s, base64_encode beyond hShort, length_base64 s, ⟨w, fun c hc => ?_, hEq⟩,
    base64Decode_base64 beyond hShort⟩
  obtain ⟨v, hv, rfl⟩ := hChars c hc
  exact enc_mem hv

/-- `"akakist"`, of two groups and one byte. -/
theorem base64_round_trip_akakist :
    ∃ r, Base64Encode (fun _ => 0xff) (text "akakist") r ∧ r.length = 12 ∧
      Base64Decode (fun _ => 0xff) r = some (text "akakist") := by
  obtain ⟨r, hEncode, hLength, -, hDecode⟩ :=
    base64_round_trip (fun _ => 0xff) (text "akakist") (by decide +kernel)
  have hTwelve : 4 * (((text "akakist").length + 2) / 3) = 12 := by decide +kernel
  exact ⟨r, hEncode, hLength.trans hTwelve, hDecode⟩

example : Base64Decode (fun _ => 0) (text " \tYWtha2lzdA==") = some (text "akakist") := by
  decide +kernel

end RoundTrip

end Megatron.CUtils
