import Megatron.Corelib.IoBuffer
import Megatron.Lib.Loop
import Megatron.Lib.Slices

/-!
# Texts under RSA

`st_rsa_impl` encrypts a text of any length block by block: `size() - 11` bytes go
into one call of OpenSSL, as many as PKCS #1 padding leaves room for, and `size()`
bytes come out.  Every function has two forms: one returns the text and throws, the
other appends to `out` and returns 0 or 1.

OpenSSL is a parameter: `RSA_size`, a function on one block, which is
`RSA_public_encrypt`, `RSA_private_decrypt`, `RSA_private_encrypt` or
`RSA_public_decrypt`, and what `ERR_error_string_n` says after it has refused one.

## Main results

* `decrypt_encrypt` — what one key of a pair has encrypted the other decrypts, and
  how long it is in between.
* `decryptInto_cases` — what the two forms of `decrypt` have to do with each other,
  and what is left in `out` when a block is refused.
-/

namespace Megatron.Ssl

open Megatron.Corelib Megatron.Lib

/-- `RSA_PKCS1_PADDING_SIZE`. -/
def rsaPkcs1PaddingSize : Nat := 11

/-- A function of OpenSSL on one block, under a key whose `RSA_size` is `size`; no
result is -1. A call of `encrypt` or `decrypt` ends at the first block that is
refused, and `errbuf` is OpenSSL's text for it. -/
structure RsaKey where
  size : Nat
  func : Bytes → Option Bytes
  errbuf : String

/-! ## The loops -/

/-- The error of `decrypt` on a text that is not a whole number of blocks; the call stack
that `_DMI` adds is left out. -/
def invalidSize (key : RsaKey) (m : Bytes) : CommonError :=
  ⟨"rsa: invalid buffer size buffer size " ++ toString m.length ++ ", rsa size " ++
    toString key.size ++ " "⟩

/-- The error of `encrypt` and `decrypt` on a block that OpenSSL refuses. -/
def rsaError (key : RsaKey) : CommonError := ⟨"rsa error " ++ key.errbuf⟩

/-- One pass of the loop of `encrypt`, over `i` and `out`.  It ends with `out`, and
`false` where OpenSSL has refused a block. -/
def encryptStep (key : RsaKey) (ms : Bytes) : UInt64 × Bytes → (Bytes × Bool) ⊕ (UInt64 × Bytes)
  | (i, out) =>
      let rsize := UInt64.ofInt ((key.size : Int) - rsaPkcs1PaddingSize)
      if i < UInt64.ofNat ms.length then
        let sz :=
          if i + rsize > UInt64.ofNat ms.length then UInt64.ofNat ms.length - i else rsize
        match key.func ((ms.drop i.toNat).take sz.toNat) with
        | none => .inl (out, false)
        | some ret => .inr (i + rsize, out ++ ret)
      else .inl (out, true)

/-- One pass of the loop of `decrypt`. -/
def decryptStep (key : RsaKey) (m : Bytes) : UInt64 × Bytes → (Bytes × Bool) ⊕ (UInt64 × Bytes)
  | (i, out) =>
      let rsize := UInt64.ofNat key.size
      if i < UInt64.ofNat m.length then
        match key.func ((m.drop i.toNat).take rsize.toNat) with
        | none => .inl (out, false)
        | some ret => .inr (i + rsize, out ++ ret)
      else .inl (out, true)

/-- The form that throws; no result means that `fuel` passes are not enough. -/
def encrypt (rsa : Option RsaKey) (fuel : Nat) (ms : Bytes) : Option (Except CommonError Bytes) :=
  match rsa with
  | none => some (.error ⟨"!rsa_xxx"⟩)
  | some key =>
      (Loop.run (encryptStep key ms) fuel (0, [])).map fun r =>
        if r.2 then .ok r.1 else .error (rsaError key)

/-- The form that appends to `out`. -/
def encryptInto (rsa : Option RsaKey) (fuel : Nat) (ms out : Bytes) :
    Option (Except CommonError (Nat × Bytes)) :=
  match rsa with
  | none => some (.error ⟨"!rsa_xxx"⟩)
  | some key =>
      (Loop.run (encryptStep key ms) fuel (0, out)).map fun r => .ok (if r.2 then 0 else 1, r.1)

/-- The form that throws. -/
def decrypt (rsa : Option RsaKey) (fuel : Nat) (m : Bytes) : Option (Except CommonError Bytes) :=
  match rsa with
  | none => some (.error ⟨"!rsa_xxx"⟩)
  | some key =>
      if m.length % key.size ≠ 0 then
        some (.error (invalidSize key m))
      else
        (Loop.run (decryptStep key m) fuel (0, [])).map fun r =>
          if r.2 then .ok r.1 else .error (rsaError key)

/-- The form that appends to `out`. -/
def decryptInto (rsa : Option RsaKey) (fuel : Nat) (m out : Bytes) :
    Option (Except CommonError (Nat × Bytes)) :=
  match rsa with
  | none => some (.error ⟨"!rsa_xxx"⟩)
  | some key =>
      if m.length % key.size ≠ 0 then
        some (.error (invalidSize key m))
      else
        (Loop.run (decryptStep key m) fuel (0, out)).map fun r => .ok (if r.2 then 0 else 1, r.1)

/-- The function of the other key takes back what that of this one makes of a block
that leaves room for the padding; both keys are of one size. -/
structure Paired (key key' : RsaKey) : Prop where
  size_eq : key'.size = key.size
  large : rsaPkcs1PaddingSize < key.size
  trip : ∀ b : Bytes, b.length ≤ key.size - rsaPkcs1PaddingSize →
    ∃ c, key.func b = some c ∧ c.length = key.size ∧ key'.func c = some b

/-! ## The loops are translations -/

/-- One pass of a loop that takes slices of `n` bytes. -/
def sliceStep (f : Bytes → Option Bytes) (n : Nat) (ms : Bytes) :
    UInt64 × Bytes → (Bytes × Bool) ⊕ (UInt64 × Bytes)
  | (i, out) =>
      if i.toNat < ms.length then
        match f ((ms.drop i.toNat).take n) with
        | none => .inl (out, false)
        | some ret => .inr (i + UInt64.ofNat n, out ++ ret)
      else .inl (out, true)

section Loops

variable {f : Bytes → Option Bytes} {n fuel : Nat} {ms m : Bytes} {key : RsaKey}

theorem sliceStep_progress (hn : 0 < n) (hFits : ms.length + n < 2 ^ 64) (x : UInt64 × Bytes) :
    Loop.Progress (fun x => ms.length - x.1.toNat)
      (fun x => (x.2 ++ (Lib.translate f (slices n (ms.drop x.1.toNat))).1,
        (Lib.translate f (slices n (ms.drop x.1.toNat))).2)) x (sliceStep f n ms x) := by
  obtain ⟨i, out⟩ := x
  rw [sliceStep]
  by_cases hMore : i.toNat < ms.length
  · have hNonempty : ms.drop i.toNat ≠ [] := by
      rw [ne_eq, List.drop_eq_nil_iff]
      omega
    have hSlices := slices_cons hn hNonempty
    have hNext : (i + UInt64.ofNat n).toNat = i.toNat + n := by
      rw [UInt64.toNat_add, UInt64.toNat_ofNat_of_lt' (show n < 2 ^ 64 by omega),
        Nat.mod_eq_of_lt (by omega)]
    have hLess : ms.length - (i.toNat + n) < ms.length - i.toNat := by omega
    rw [if_pos hMore]
    cases hf : f ((ms.drop i.toNat).take n) with
    | none =>
        dsimp only [Loop.Progress]
        rw [hSlices, translate_cons_none hf, List.append_nil]
    | some ret =>
        dsimp only [Loop.Progress]
        rw [hSlices, translate_cons_some hf, hNext, List.append_assoc, List.drop_drop]
        exact ⟨hLess, rfl⟩
  · have hDone : ms.drop i.toNat = [] := List.drop_eq_nil_iff.2 (not_lt.1 hMore)
    rw [if_neg hMore]
    dsimp only [Loop.Progress]
    rw [hDone, slices_nil, translate_nil, List.append_nil]

theorem run_sliceStep (hn : 0 < n) (hFits : ms.length + n < 2 ^ 64) (out : Bytes)
    (hFuel : ms.length < fuel) :
    Loop.run (sliceStep f n ms) fuel (0, out) =
      some (out ++ (Lib.translate f (slices n ms)).1, (Lib.translate f (slices n ms)).2) :=
  Loop.run_of_lt (sliceStep_progress hn hFits) fuel (0, out) hFuel

theorem ofInt_natCast (n : Nat) : UInt64.ofInt n = UInt64.ofNat n := by
  rw [← UInt64.toNat_inj, UInt64.ofInt, UInt64.toNat_ofNat', UInt64.toNat_ofNat']
  omega

theorem encryptStep_eq (hLarge : rsaPkcs1PaddingSize < key.size)
    (hFits : ms.length + key.size < 2 ^ 64) :
    encryptStep key ms = sliceStep key.func (key.size - rsaPkcs1PaddingSize) ms := by
  obtain ⟨n, hn⟩ : ∃ n, key.size - rsaPkcs1PaddingSize = n := ⟨_, rfl⟩
  have hSize : UInt64.ofInt ((key.size : Int) - rsaPkcs1PaddingSize) = UInt64.ofNat n := by
    rw [← Int.ofNat_sub (Nat.le_of_lt hLarge), hn, ofInt_natCast]
  have hShort : n ≤ key.size := hn ▸ Nat.sub_le _ _
  have hRsize : (UInt64.ofNat n).toNat = n :=
    UInt64.toNat_ofNat_of_lt' (show n < 2 ^ 64 by omega)
  have hLength : (UInt64.ofNat ms.length).toNat = ms.length :=
    UInt64.toNat_ofNat_of_lt' (show ms.length < 2 ^ 64 by omega)
  funext ⟨i, out⟩
  simp only [encryptStep, sliceStep, hSize, hn, UInt64.lt_iff_toNat_lt, gt_iff_lt, hLength]
  by_cases hMore : i.toNat < ms.length
  · have hSum : (i + UInt64.ofNat n).toNat = i.toNat + n := by
      rw [UInt64.toNat_add, hRsize, Nat.mod_eq_of_lt (by omega)]
    have hBlock : (ms.drop i.toNat).take
        (if ms.length < (i + UInt64.ofNat n).toNat then UInt64.ofNat ms.length - i
          else UInt64.ofNat n).toNat = (ms.drop i.toNat).take n := by
      by_cases hLast : ms.length < i.toNat + n
      · -- the last block is shorter
        have hLe : i ≤ UInt64.ofNat ms.length := by
          rw [UInt64.le_iff_toNat_le, hLength]
          omega
        have hRest : (ms.drop i.toNat).length = ms.length - i.toNat := List.length_drop
        rw [if_pos (hSum.symm ▸ hLast), UInt64.toNat_sub_of_le _ _ hLe, hLength, ← hRest,
          List.take_length, List.take_of_length_le (by omega)]
      · rw [if_neg (hSum.symm ▸ hLast), hRsize]
    rw [if_pos hMore, if_pos hMore, hBlock]
  · rw [if_neg hMore, if_neg hMore]

theorem decryptStep_eq (hFits : m.length + key.size < 2 ^ 64) :
    decryptStep key m = sliceStep key.func key.size m := by
  have hRsize : (UInt64.ofNat key.size).toNat = key.size :=
    UInt64.toNat_ofNat_of_lt' (show key.size < 2 ^ 64 by omega)
  have hLength : (UInt64.ofNat m.length).toNat = m.length :=
    UInt64.toNat_ofNat_of_lt' (show m.length < 2 ^ 64 by omega)
  funext ⟨i, out⟩
  simp only [decryptStep, sliceStep, UInt64.lt_iff_toNat_lt, hLength, hRsize]

/-- What `encrypt` comes to. -/
def cipherText (key : RsaKey) (ms : Bytes) : Bytes × Bool :=
  Lib.translate key.func (slices (key.size - rsaPkcs1PaddingSize) ms)

/-- What the loop of `decrypt` comes to. -/
def plainText (key : RsaKey) (m : Bytes) : Bytes × Bool :=
  Lib.translate key.func (slices key.size m)

theorem run_encryptStep (hLarge : rsaPkcs1PaddingSize < key.size)
    (hFits : ms.length + key.size < 2 ^ 64) (out : Bytes) (hFuel : ms.length < fuel) :
    Loop.run (encryptStep key ms) fuel (0, out) =
      some (out ++ (cipherText key ms).1, (cipherText key ms).2) := by
  have hShort := Nat.sub_le key.size rsaPkcs1PaddingSize
  rw [encryptStep_eq hLarge hFits]
  exact run_sliceStep (Nat.sub_pos_of_lt hLarge) (by omega) out hFuel

theorem run_decryptStep (hPos : 0 < key.size) (hFits : m.length + key.size < 2 ^ 64) (out : Bytes)
    (hFuel : m.length < fuel) :
    Loop.run (decryptStep key m) fuel (0, out) =
      some (out ++ (plainText key m).1, (plainText key m).2) := by
  rw [decryptStep_eq hFits]
  exact run_sliceStep hPos hFits out hFuel

end Loops

/-! ## The two keys of a pair -/

section Pair

variable {key key' : RsaKey}

/-- The blocks of one key, put through the other. -/
theorem cipherText_trip (hPair : Paired key key') (ms : Bytes) :
    ∃ c, cipherText key ms = (c, true) ∧
      c.length = key.size * ((ms.length + (key.size - rsaPkcs1PaddingSize) - 1) /
        (key.size - rsaPkcs1PaddingSize)) ∧
      plainText key' c = (ms, true) := by
  have hRoom := Nat.sub_pos_of_lt hPair.large
  obtain ⟨c, hThere, hLen, hBack⟩ := translate_slices_trip hRoom
    (Nat.lt_of_lt_of_le hRoom (Nat.sub_le _ _)) (fun b _ hb => hPair.trip b hb) ms
  refine ⟨c, hThere, hLen, ?_⟩
  rw [plainText, hPair.size_eq, hBack]

/-- What is encrypted is at least as long. -/
theorem length_le_cipherText (hPair : Paired key key') (ms : Bytes) :
    ms.length ≤ key.size * ((ms.length + (key.size - rsaPkcs1PaddingSize) - 1) /
      (key.size - rsaPkcs1PaddingSize)) := by
  have hRoom := Nat.sub_pos_of_lt hPair.large
  have hDiv := Nat.lt_mul_div_succ (ms.length + (key.size - rsaPkcs1PaddingSize) - 1) hRoom
  rw [Nat.mul_add, Nat.mul_one] at hDiv
  refine Nat.le_trans ?_ (Nat.mul_le_mul_right _ (Nat.sub_le key.size rsaPkcs1PaddingSize))
  omega

/--
**Round trip.** A text that one key of a pair has encrypted, the other decrypts; in
between it is one block of `size()` bytes for every `size() - 11` that have been
begun.  The functions that append to `out` do the same.
-/
theorem decrypt_encrypt (hPair : Paired key key') {ms : Bytes} {count : Nat}
    (hCount : count = (ms.length + (key.size - rsaPkcs1PaddingSize) - 1) /
      (key.size - rsaPkcs1PaddingSize))
    (hFits : key.size * (count + 1) < 2 ^ 64) :
    ∃ c : Bytes, c.length = key.size * count ∧ ∀ fuel, c.length < fuel →
      encrypt (some key) fuel ms = some (.ok c) ∧
      decrypt (some key') fuel c = some (.ok ms) ∧
      ∀ out, encryptInto (some key) fuel ms out = some (.ok (0, out ++ c)) ∧
        decryptInto (some key') fuel c out = some (.ok (0, out ++ ms)) := by
  have hPos : 0 < key.size := Nat.lt_of_le_of_lt (Nat.zero_le _) hPair.large
  have hLonger := length_le_cipherText hPair ms
  obtain ⟨c, hThere, hLen, hBack⟩ := cipherText_trip hPair ms
  rw [← hCount] at hLonger hLen
  rw [← hLen] at hLonger
  rw [Nat.mul_add, Nat.mul_one, ← hLen] at hFits
  have hWhole : c.length % key'.size = 0 := by
    rw [hLen, hPair.size_eq, Nat.mul_mod_right]
  refine ⟨c, hLen, fun fuel hFuel => ?_⟩
  have hEncrypt : ∀ out, Loop.run (encryptStep key ms) fuel (0, out) = some (out ++ c, true) := by
    intro out
    rw [run_encryptStep hPair.large (by omega) out (by omega), hThere]
  have hDecrypt : ∀ out, Loop.run (decryptStep key' c) fuel (0, out) = some (out ++ ms, true) := by
    intro out
    rw [run_decryptStep (hPair.size_eq ▸ hPos) (by rw [hPair.size_eq]; exact hFits) out hFuel,
      hBack]
  refine ⟨?_, ?_, fun out => ⟨?_, ?_⟩⟩
  · rw [encrypt, hEncrypt]
    rfl
  · rw [decrypt, if_neg (not_not.2 hWhole), hDecrypt]
    rfl
  · rw [encryptInto, hEncrypt]
    rfl
  · rw [decryptInto, if_neg (not_not.2 hWhole), hDecrypt]
    rfl

end Pair

/-- PKCS #1 padding, with no arithmetic behind it. -/
def paddingKey (size : Nat) : RsaKey where
  size := size
  func b :=
    if b.length + rsaPkcs1PaddingSize ≤ size then
      some (0 :: 2 :: (List.replicate (size - 3 - b.length) 0xFF ++ 0 :: b))
    else none
  errbuf := "error:0406D06E:rsa routines"

/-- The padding taken off. -/
def strippingKey (size : Nat) : RsaKey where
  size := size
  func
    | 0 :: 2 :: c => some (c.dropWhile (· != 0)).tail
    | _ => none
  errbuf := "error:0407106B:rsa routines"

theorem paired_padding {size : Nat} (h : rsaPkcs1PaddingSize < size) :
    Paired (paddingKey size) (strippingKey size) where
  size_eq := rfl
  large := h
  trip b hb := by
    have hEleven : rsaPkcs1PaddingSize = 11 := rfl
    have hSize : (paddingKey size).size = size := rfl
    rw [hSize] at hb ⊢
    refine ⟨0 :: 2 :: (List.replicate (size - 3 - b.length) 0xFF ++ 0 :: b),
      if_pos (by omega), ?_, ?_⟩
    · rw [List.length_cons, List.length_cons, List.length_append, List.length_replicate,
        List.length_cons]
      omega
    · have hOff : ∀ n, ((List.replicate n (0xFF : UInt8) ++ 0 :: b).dropWhile (· != 0)) = 0 :: b := by
        intro n
        induction n with
        | zero => rfl
        | succ n ih => exact ih
      exact congrArg (fun c => some (List.tail c)) (hOff _)

/-- Twelve bytes hold one. -/
theorem decrypt_encrypt_twelve :
    ∃ c : Bytes, c.length = 12 * 3 ∧ ∀ fuel, c.length < fuel →
      encrypt (some (paddingKey 12)) fuel [1, 0, 2] = some (.ok c) ∧
      decrypt (some (strippingKey 12)) fuel c = some (.ok [1, 0, 2]) ∧
      ∀ out, encryptInto (some (paddingKey 12)) fuel [1, 0, 2] out = some (.ok (0, out ++ c)) ∧
        decryptInto (some (strippingKey 12)) fuel c out = some (.ok (0, out ++ [1, 0, 2])) :=
  decrypt_encrypt (paired_padding (by decide)) rfl (by decide)

/-! ## The two forms -/

/--
**The two forms of `decrypt`.** Where the one returns a text, the other appends it
and returns 0.  Where the one throws, the other returns 1 and has appended what lies
before the first block that OpenSSL refuses.
-/
theorem decryptInto_cases {key : RsaKey} {m : Bytes} (hPos : 0 < key.size)
    (hWhole : m.length % key.size = 0) (hFits : m.length + key.size < 2 ^ 64) {fuel : Nat}
    (hFuel : m.length < fuel) :
    (∃ t, decrypt (some key) fuel m = some (.ok t) ∧
      ∀ out, decryptInto (some key) fuel m out = some (.ok (0, out ++ t))) ∨
    (∃ front b rest t, m = front ++ b ++ rest ∧ front.length % key.size = 0 ∧
      b.length = key.size ∧ key.func b = none ∧
      decrypt (some key) fuel front = some (.ok t) ∧
      decrypt (some key) fuel m = some (.error (rsaError key)) ∧
      ∀ out, decryptInto (some key) fuel m out = some (.ok (1, out ++ t))) := by
  have hRun := fun out => run_decryptStep hPos hFits out hFuel
  cases hAll : (plainText key m).2 with
  | true =>
      refine Or.inl ⟨(plainText key m).1, ?_, fun out => ?_⟩
      · rw [decrypt, if_neg (not_not.2 hWhole), hRun, hAll]
        rfl
      · rw [decryptInto, if_neg (not_not.2 hWhole), hRun, hAll]
        rfl
  | false =>
      obtain ⟨as, b, cs, hSlices, hNone, hFront⟩ := translate_snd_eq_false hAll
      have hLengths : ∀ x ∈ slices key.size m, x.length = key.size := fun x hx =>
        length_of_mem_slices_of_dvd hPos (Nat.dvd_of_mod_eq_zero hWhole) hx
      have hText : m = as.flatten ++ b ++ cs.flatten := by
        rw [← flatten_slices hPos m, hSlices, List.flatten_append, List.flatten_cons,
          List.append_assoc]
      have hBefore : ∀ x ∈ as, x.length = key.size := fun x hx =>
        hLengths x (hSlices ▸ List.mem_append_left _ hx)
      have hFrontWhole : as.flatten.length % key.size = 0 := by
        rw [List.length_flatten, List.map_congr_left hBefore, List.map_const',
          List.sum_replicate_nat, Nat.mul_mod_left]
      have hShorter : as.flatten.length ≤ m.length := by
        rw [hText, List.append_assoc, List.length_append]
        exact Nat.le_add_right _ _
      have hFrontText : plainText key as.flatten = ((plainText key m).1, true) := by
        rw [plainText, slices_flatten hPos hBefore, hFront, plainText]
      have hFrontRun := run_decryptStep (m := as.flatten) hPos (by omega) [] (by omega : _ < fuel)
      refine Or.inr ⟨as.flatten, b, cs.flatten, (plainText key m).1, hText, hFrontWhole,
        hLengths b (hSlices ▸ List.mem_append_right _ List.mem_cons_self), hNone, ?_, ?_,
        fun out => ?_⟩
      · rw [decrypt, if_neg (not_not.2 hFrontWhole), hFrontRun, hFrontText]
        rfl
      · rw [decrypt, if_neg (not_not.2 hWhole), hRun, hAll]
        rfl
      · rw [decryptInto, if_neg (not_not.2 hWhole), hRun, hAll]
        rfl

/-- A block that is padded, and one that is not. -/
def halfRefused : Bytes := 0 :: 2 :: (List.replicate 8 0xFF ++ [0, 7]) ++ List.replicate 12 1

theorem decryptInto_halfRefused :
    (∃ t, decrypt (some (strippingKey 12)) 25 halfRefused = some (.ok t) ∧
      ∀ out, decryptInto (some (strippingKey 12)) 25 halfRefused out =
        some (.ok (0, out ++ t))) ∨
    (∃ front b rest t, halfRefused = front ++ b ++ rest ∧ front.length % 12 = 0 ∧
      b.length = 12 ∧ (strippingKey 12).func b = none ∧
      decrypt (some (strippingKey 12)) 25 front = some (.ok t) ∧
      decrypt (some (strippingKey 12)) 25 halfRefused =
        some (.error ⟨"rsa error error:0407106B:rsa routines"⟩) ∧
      ∀ out, decryptInto (some (strippingKey 12)) 25 halfRefused out =
        some (.ok (1, out ++ t))) :=
  decryptInto_cases (by decide) (by decide) (by decide) (by decide)

end Megatron.Ssl
