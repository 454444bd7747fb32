import Mathlib.Data.Set.Function
import Megatron.Ssl.Encrypt

/-!
# Decrypting what a peer sent

`st_AES_impl::decrypt` makes sure that the text is whole blocks, and some.  How
much of it is padding it reads from the last byte it has deciphered, a `char`,
and takes that off a `size_t` without a test.  The byte is whatever the peer
wants it to be.

`Aes.decryptCall` is the call with its loop, which an `unsigned` counts;
`Aes.decrypt` is what it returns below 4 GiB.

## Main results

* `decryptCall_eq` — the call returns what `Aes.decrypt` says.
* `decryptCall_endless` — from 4 GiB on it does not return.
* `decryptsSafely_iff` — which texts leave a refbuffer in order.
* `tampered_unsafe` — a last byte of `0xFF` makes the text longer.
-/

namespace Megatron.Ssl

open Megatron.Corelib Megatron.Lib

/-- `st_AES_impl::decrypt`.  There is no result where it reads a byte that
nobody has written, or runs out of `fuel`. -/
def Aes.decryptCall (cipher : Bytes → Bytes → Bytes) (aes : Aes) (fuel : Nat) (buf : Refbuffer) :
    Option (Except CommonError Refbuffer) :=
  match aes with
  | none => some (.error ⟨"st_AES not inited "⟩)
  | some key =>
      if buf.size_ % blockSize ≠ 0 then some (.error ⟨"buf.size() mod AES_BLOCK_SIZE!=0"⟩)
      else do
        let ib ← buf.bytes.mapM id
        let o ← ecb (cipher key) ib fuel 0
        if buf.size_ ≠ 0 then
          let n ← o[(buf.size_ - 1).toNat]?
          return .ok ⟨some (o.map some), buf.size_ - asChar n, buf.size_⟩
        else return .error ⟨"empty AES buffer"⟩

/-- A permutation of the blocks of 16 bytes, for each key. -/
def Permutes (cipher : Bytes → Bytes → Bytes) : Prop :=
  ∀ key, Set.BijOn (cipher key) {b | b.length = 16} {b | b.length = 16}

/-- The call throws, or it returns a refbuffer in order that has lost between
1 and 16 bytes. -/
def DecryptsSafely (cipher : Bytes → Bytes → Bytes) (aes : Aes) (buf : Refbuffer) : Prop :=
  ∃ fuel r, Aes.decryptCall cipher aes fuel buf = some r ∧ ∀ o, r = .ok o →
    o.size_ ≤ buf.size_ ∧ o.size_ ≤ o.capacity ∧
      ∃ n, 1 ≤ n ∧ n ≤ 16 ∧ o.size_.toNat + n = buf.size_.toNat

/-- The last block of a text. -/
def lastBlock (s : Bytes) : Bytes := s.drop (s.length - 16)

/-- The number that the last byte of a block gives. -/
def padByte (b : Bytes) : Nat := (b.getLast?.getD 0).toNat

/-! ## The loop -/

/-- With more fuel the loop ends in the same way. -/
theorem ecb_add (f : Bytes → Bytes) {ib ob : Bytes} (fuel k : Nat) :
    ∀ i, ecb f ib fuel i = some ob → ecb f ib (fuel + k) i = some ob := by
  induction fuel generalizing ob with
  | zero => exact fun i h => by cases h
  | succ fuel ih =>
      intro i h
      rw [ecb] at h
      rw [Nat.succ_add, ecb]
      split at h
      · rename_i hMore
        obtain ⟨rest, hRest, hOut⟩ := Option.bind_eq_some_iff.1 h
        rw [if_pos hMore, ih _ hRest]
        exact hOut
      · rename_i hEnd
        rw [if_neg hEnd]
        exact h

theorem ecb_unique (f : Bytes → Bytes) {ib ob ob' : Bytes} {fuel fuel' : Nat} {i : UInt32}
    (h : ecb f ib fuel i = some ob) (h' : ecb f ib fuel' i = some ob') : ob = ob' := by
  have hMore := ecb_add f fuel fuel' i h
  have hMore' := ecb_add f fuel' fuel i h'
  rw [Nat.add_comm] at hMore'
  exact Option.some.inj (hMore.symm.trans hMore')

section Decryption

variable {cipher : Bytes → Bytes → Bytes} {aes : Aes} {key : Bytes} {buf : Refbuffer} {s : Bytes}

theorem Permutes.length_eq (h : Permutes cipher) (key : Bytes) {b : Bytes} (hb : b.length = 16) :
    (cipher key b).length = 16 :=
  (h key).mapsTo hb

theorem Holds.size_mod (h : Holds buf s) : (buf.size_ % blockSize).toNat = s.length % 16 := by
  rw [h.length_eq]
  exact UInt64.toNat_mod _ _

theorem Holds.test_iff (h : Holds buf s) : buf.size_ % blockSize ≠ 0 ↔ s.length % 16 ≠ 0 := by
  rw [not_iff_not, ← UInt64.toNat_inj, h.size_mod]
  rfl

/-- What is deciphered of whole blocks: as many bytes, the last block last. -/
theorem deciphered (h : Permutes cipher) (key : Bytes) (hWhole : s.length % 16 = 0) (hSome : s ≠ []) :
    ∃ init : Bytes, (blocks s).flatMap (cipher key) = init ++ cipher key (lastBlock s) ∧
      init.length + 16 = s.length ∧ (lastBlock s).length = 16 := by
  obtain ⟨bs, -, hAll, hFlat⟩ := exists_blocks (s.length / 16) s (by omega)
  obtain ⟨init, b, rfl⟩ := (List.eq_nil_or_concat bs).resolve_left fun hNil => hSome (by
    rw [← hFlat, hNil]
    rfl)
  rw [List.concat_eq_append] at hAll hFlat
  have hb : b.length = 16 := hAll b (by simp)
  have hInit : ∀ x ∈ init.map (cipher key), x.length = 16 := by
    intro x hx
    obtain ⟨y, hy, rfl⟩ := List.mem_map.1 hx
    exact h.length_eq key (hAll y (by simp [hy]))
  have hLen : s.length = 16 * init.length + 16 := by
    rw [← hFlat, length_flatten_blocks hAll, List.length_append, List.length_singleton]
    omega
  have hLast : lastBlock s = b := by
    have hSplit : s = init.flatten ++ b := by
      rw [← hFlat]
      simp
    have hFront : init.flatten.length = s.length - 16 := by
      rw [length_flatten_blocks fun x hx => hAll x (by simp [hx])]
      omega
    rw [lastBlock, ← hFront]
    conv_lhs => rw [hSplit]
    exact List.drop_left
  refine ⟨(init.map (cipher key)).flatten, ?_, ?_, by rw [hLast, hb]⟩
  · rw [hLast, ← hFlat, blocks_flatten hAll, List.flatMap_append, List.flatMap_singleton,
      List.flatMap_def]
  · rw [length_flatten_blocks hInit, List.length_map]
    omega

/-- Below 4 GiB the loop puts out what is deciphered of the blocks. -/
theorem ecb_deciphered (key : Bytes) (hWhole : s.length % 16 = 0) (hShort : s.length < 2 ^ 32) :
    ∃ fuel, ecb (cipher key) s fuel 0 = some ((blocks s).flatMap (cipher key)) := by
  obtain ⟨bs, -, hAll, hFlat⟩ := exists_blocks (s.length / 16) s (by omega)
  have hLoop := ecb_flatten (cipher key) bs [] (i := 0) hAll (by simpa [hFlat] using hShort) rfl
  rw [List.nil_append, hFlat] at hLoop
  refine ⟨bs.length + 1, hLoop.trans ?_⟩
  rw [← hFlat, blocks_flatten hAll]

/-- What is no whole blocks is refused. -/
theorem decryptCall_broken (h : Holds buf s) (hWhole : s.length % 16 ≠ 0) (fuel : Nat) :
    Aes.decryptCall cipher (some key) fuel buf =
      some (.error ⟨"buf.size() mod AES_BLOCK_SIZE!=0"⟩) := by
  rw [Aes.decryptCall]
  exact if_pos (h.test_iff.2 hWhole)

/-- The byte that `decrypt` looks at is the last one deciphered. -/
theorem getElem?_deciphered (hPerm : Permutes cipher) (key : Bytes) (h : Holds buf s)
    (hWhole : s.length % 16 = 0) (hSome : s ≠ []) :
    ∃ n, ((blocks s).flatMap (cipher key))[(buf.size_ - 1).toNat]? = some n ∧
      ((blocks s).flatMap (cipher key)).getLast? = some n := by
  obtain ⟨init, hOut, hInit, hLast⟩ := deciphered hPerm key hWhole hSome
  have hTotal : ((blocks s).flatMap (cipher key)).length = s.length := by
    rw [hOut, List.length_append, hPerm.length_eq key hLast]
    exact hInit
  have hPos := List.length_pos_iff.2 hSome
  have hOne : (1 : UInt64).toNat = 1 := rfl
  have hIndex : (buf.size_ - 1).toNat = s.length - 1 := by
    have hLe : (1 : UInt64) ≤ buf.size_ := by
      rw [UInt64.le_iff_toNat_le, ← h.length_eq, hOne]
      exact hPos
    rw [UInt64.toNat_sub_of_le _ _ hLe, ← h.length_eq, hOne]
  have hLt : s.length - 1 < ((blocks s).flatMap (cipher key)).length := by omega
  refine ⟨((blocks s).flatMap (cipher key))[s.length - 1], ?_, ?_⟩
  · rw [hIndex, List.getElem?_eq_getElem hLt]
  · rw [List.getLast?_eq_getElem?, hTotal, List.getElem?_eq_getElem hLt]

/-- **What the call returns.** -/
theorem decryptCall_eq (aes : Aes) (hPerm : Permutes cipher) (h : Holds buf s)
    (hShort : s.length < 2 ^ 32) :
    ∃ fuel, Aes.decryptCall cipher aes fuel buf = some (Aes.decrypt cipher aes s) := by
  have hSize : UInt64.ofNat s.length = buf.size_ := by
    rw [h.length_eq, UInt64.ofNat_toNat]
  cases aes with
  | none => exact ⟨0, rfl⟩
  | some key =>
      by_cases hWhole : s.length % 16 = 0
      · have hTest : ¬ buf.size_ % blockSize ≠ 0 := fun hTest => h.test_iff.1 hTest hWhole
        obtain ⟨fuel, hLoop⟩ : ∃ fuel, ecb (cipher key) s fuel 0 = _ :=
          ecb_deciphered key hWhole hShort
        refine ⟨fuel, ?_⟩
        rw [Aes.decryptCall, Aes.decrypt]
        simp only [if_neg hTest, hWhole, ne_eq, not_true_eq_false, if_false, h.bytes_eq,
          mapM_id_map_some, Option.bind_eq_bind, Option.bind_some, hLoop, hSize]
        by_cases hSome : s = []
        · have hZero : buf.size_ = 0 := by
            rw [← hSize, hSome]
            rfl
          rw [if_neg (not_not.2 hZero), hSome]
          rfl
        · have hNonzero : ¬ buf.size_ = 0 := by
            intro hZero
            have hLen := h.length_eq
            rw [hZero] at hLen
            exact hSome (List.length_eq_zero_iff.1 hLen)
          obtain ⟨n, hByte, hGet⟩ := getElem?_deciphered hPerm key h hWhole hSome
          rw [if_pos hNonzero, hByte, hGet]
          rfl
      · refine ⟨0, (decryptCall_broken h hWhole 0).trans ?_⟩
        rw [Aes.decrypt]
        simp only [if_pos (show s.length % 16 ≠ 0 from hWhole)]

/-- **From 4 GiB on** the loop starts again and again at the first block. -/
theorem decryptCall_endless (h : Holds buf s) (hWhole : s.length % 16 = 0)
    (hLong : 2 ^ 32 ≤ s.length) (fuel : Nat) :
    Aes.decryptCall cipher (some key) fuel buf = none := by
  have hTest : ¬ buf.size_ % blockSize ≠ 0 := fun hTest => h.test_iff.1 hTest hWhole
  have hLen : s.length < 2 ^ 64 := by
    rw [h.length_eq]
    exact buf.size_.toNat_lt
  rw [Aes.decryptCall]
  simp only [if_neg hTest, h.bytes_eq, mapM_id_map_some, Option.bind_eq_bind, Option.bind_some,
    ecb_endless (cipher key) hLong hLen fuel, Option.bind_none]

/-! ## The padding -/

/-- A `char` from `0x80` on is negative, which makes a `size_t` near `2 ^ 64`. -/
theorem toNat_asChar (n : UInt8) :
    (asChar n).toNat = n.toNat + if 128 ≤ n.toNat then 2 ^ 64 - 2 ^ 8 else 0 := by
  have hWidth : (n.toBitVec.signExtend 64).toNat = _ := BitVec.toNat_signExtend _
  have hLt := n.toNat_lt
  rw [BitVec.toNat_setWidth, BitVec.msb_eq_decide] at hWidth
  have hNat : (asChar n).toNat = (n.toBitVec.signExtend 64).toNat := rfl
  rw [hNat, hWidth, UInt8.toNat_toBitVec, Nat.mod_eq_of_lt (by omega)]
  simp only [decide_eq_true_eq]

/-- Taken off a size of a block or more, the `char` leaves the right number of
bytes only where it is between 1 and 16. -/
theorem taken_off_iff {size : UInt64} (hSize : 16 ≤ size.toNat) (n : UInt8) :
    (∃ m, 1 ≤ m ∧ m ≤ 16 ∧ (size - asChar n).toNat + m = size.toNat) ↔
      1 ≤ n.toNat ∧ n.toNat ≤ 16 := by
  have hChar := toNat_asChar n
  have hByte := n.toNat_lt
  have hLt := size.toNat_lt
  have hSub := UInt64.toNat_sub size (asChar n)
  constructor
  · rintro ⟨m, hPos, hLe, hSum⟩
    split at hChar <;> omega
  · rintro ⟨hPos, hLe⟩
    rw [if_neg (by omega)] at hChar
    exact ⟨n.toNat, hPos, hLe, by omega⟩

/-- What `decrypt` returns of whole blocks, and what it takes off. -/
theorem decrypt_whole (key : Bytes) (hPerm : Permutes cipher) (h : Holds buf s)
    (hWhole : s.length % 16 = 0) (hSome : s ≠ []) :
    ∃ o n, Aes.decrypt cipher (some key) s = .ok o ∧ o.size_ = buf.size_ - asChar n ∧
      o.capacity = buf.size_ ∧ n.toNat = padByte (cipher key (lastBlock s)) := by
  obtain ⟨init, hOut, -, hLast⟩ := deciphered hPerm key hWhole hSome
  have hSize : UInt64.ofNat s.length = buf.size_ := by
    rw [h.length_eq, UInt64.ofNat_toNat]
  have hBlock : cipher key (lastBlock s) ≠ [] := by
    intro hNil
    have hLen := hPerm.length_eq key hLast
    rw [hNil] at hLen
    cases hLen
  have hGet : ((blocks s).flatMap (cipher key)).getLast? =
      some ((cipher key (lastBlock s)).getLast hBlock) := by
    rw [hOut, List.getLast?_append_of_ne_nil _ hBlock, List.getLast?_eq_some_getLast hBlock]
  refine ⟨⟨some (((blocks s).flatMap (cipher key)).map some),
    buf.size_ - asChar ((cipher key (lastBlock s)).getLast hBlock), buf.size_⟩, _, ?_, rfl, rfl, ?_⟩
  · rw [Aes.decrypt]
    simp only [hWhole, ne_eq, not_true_eq_false, if_false, hGet, hSize]
  · rw [padByte, List.getLast?_eq_some_getLast hBlock, Option.getD_some]

/-- The call returns once at most, so it is safe where what it returns is. -/
theorem decryptsSafely_of_eq {fuel : Nat} {r : Except CommonError Refbuffer}
    (hCall : Aes.decryptCall cipher aes fuel buf = some r)
    (hUnique : ∀ fuel' r', Aes.decryptCall cipher aes fuel' buf = some r' → r' = r) :
    DecryptsSafely cipher aes buf ↔ ∀ o, r = .ok o →
      o.size_ ≤ buf.size_ ∧ o.size_ ≤ o.capacity ∧
        ∃ n, 1 ≤ n ∧ n ≤ 16 ∧ o.size_.toNat + n = buf.size_.toNat := by
  constructor
  · rintro ⟨fuel', r', hCall', hAll⟩
    rwa [hUnique fuel' r' hCall'] at hAll
  · intro hAll
    exact ⟨fuel, r, hCall, hAll⟩

/-- More fuel or less, the result is the same. -/
theorem decryptCall_unique {fuel fuel' : Nat} {r r' : Except CommonError Refbuffer}
    (h : Aes.decryptCall cipher aes fuel buf = some r)
    (h' : Aes.decryptCall cipher aes fuel' buf = some r') : r' = r := by
  cases aes with
  | none => exact Option.some.inj (h'.symm.trans h)
  | some key =>
      rw [Aes.decryptCall] at h h'
      split at h
      · rename_i hTest
        rw [if_pos hTest] at h'
        exact Option.some.inj (h'.symm.trans h)
      · rename_i hTest
        rw [if_neg hTest] at h'
        simp only [Option.bind_eq_bind, Option.bind_eq_some_iff] at h h'
        obtain ⟨ib, hBytes, o, hLoop, hRest⟩ := h
        obtain ⟨ib', hBytes', o', hLoop', hRest'⟩ := h'
        obtain rfl : ib' = ib := Option.some.inj (hBytes'.symm.trans hBytes)
        obtain rfl : o' = o := ecb_unique _ hLoop' hLoop
        exact Option.some.inj (hRest'.symm.trans hRest)

/-- Below 4 GiB the call is safe on whole blocks where the last deciphered byte
is a padding. -/
theorem decryptsSafely_whole (hPerm : Permutes cipher) (h : Holds buf s)
    (hShort : s.length < 2 ^ 32) (hWhole : s.length % 16 = 0) (hSome : s ≠ []) :
    DecryptsSafely cipher (some key) buf ↔ 1 ≤ padByte (cipher key (lastBlock s)) ∧
      padByte (cipher key (lastBlock s)) ≤ 16 := by
  obtain ⟨fuel, hCall⟩ := decryptCall_eq (some key) hPerm h hShort
  obtain ⟨o, n, hDecrypt, hSize, hCap, hByte⟩ := decrypt_whole key hPerm h hWhole hSome
  have hBlock : 16 ≤ buf.size_.toNat := by
    have hPos := List.length_pos_iff.2 hSome
    have hLen := h.length_eq
    omega
  rw [decryptsSafely_of_eq hCall fun _ _ h' => decryptCall_unique hCall h', hDecrypt, ← hByte,
    ← taken_off_iff hBlock n, ← hSize]
  constructor
  · intro hAll
    exact (hAll o rfl).2.2
  · rintro hNum _ ⟨rfl⟩
    have hLess : o.size_ ≤ buf.size_ := by
      obtain ⟨m, -, -, hSum⟩ := hNum
      rw [UInt64.le_iff_toNat_le]
      omega
    exact ⟨hLess, hCap ▸ hLess, hNum⟩

/-- What is refused is safe, and so is an empty text. -/
theorem decryptsSafely_refused (hPerm : Permutes cipher) (h : Holds buf s)
    (hRead : ¬ (s ≠ [] ∧ s.length % 16 = 0)) : DecryptsSafely cipher (some key) buf := by
  by_cases hWhole : s.length % 16 = 0
  · obtain rfl : s = [] := by
      by_contra hSome
      exact hRead ⟨hSome, hWhole⟩
    obtain ⟨fuel, hCall⟩ := decryptCall_eq (some key) hPerm h (by decide)
    exact ⟨fuel, _, hCall, by rintro o ⟨⟩⟩
  · exact ⟨0, _, decryptCall_broken h hWhole 0, by rintro o ⟨⟩⟩

/-- **Hostile ciphertext.** The call is safe where the text is no whole
blocks, and otherwise where there are less than 4 GiB of them and the last
deciphered byte is a padding. -/
theorem decryptsSafely_iff (hPerm : Permutes cipher) (h : Holds buf s) :
    DecryptsSafely cipher aes buf ↔
      ∀ key ∈ aes, s ≠ [] → s.length % 16 = 0 →
        s.length < 2 ^ 32 ∧ 1 ≤ padByte (cipher key (lastBlock s)) ∧
          padByte (cipher key (lastBlock s)) ≤ 16 := by
  cases aes with
  | none =>
      refine iff_of_true ⟨0, _, rfl, by rintro o ⟨⟩⟩ ?_
      rintro key ⟨⟩
  | some key =>
      by_cases hRead : s ≠ [] ∧ s.length % 16 = 0
      · obtain ⟨hSome, hWhole⟩ := hRead
        by_cases hShort : s.length < 2 ^ 32
        · rw [decryptsSafely_whole hPerm h hShort hWhole hSome]
          constructor
          · rintro hNum _ ⟨rfl⟩ - -
            exact ⟨hShort, hNum⟩
          · intro hAll
            exact (hAll key rfl hSome hWhole).2
        · refine iff_of_false ?_ fun hAll => hShort (hAll key rfl hSome hWhole).1
          rintro ⟨fuel, r, hCall, -⟩
          rw [decryptCall_endless h hWhole (not_lt.1 hShort)] at hCall
          cases hCall
      · exact iff_of_true (decryptsSafely_refused hPerm h hRead)
          fun _ _ hSome hWhole => absurd ⟨hSome, hWhole⟩ hRead

end Decryption

/-! ## A permutation to run -/

theorem permutes_mask : Permutes mask := by
  intro key
  have hInv := inverts_mask
  have hMaps : Set.MapsTo (mask key) {b | b.length = 16} {b | b.length = 16} :=
    fun b hb => hInv.length_enc key b hb
  have hLeft : Set.LeftInvOn (mask key) (mask key) {b | b.length = 16} :=
    fun b hb => hInv.dec_enc key b hb
  exact Set.InvOn.bijOn ⟨hLeft, hLeft⟩ hMaps hMaps

/-- A block whose last byte is deciphered to `n`. -/
def ciphertext (n : UInt8) : Bytes := mask [] (List.replicate 15 7 ++ [n])

/-- It, as it comes off the network. -/
def received (n : UInt8) : Refbuffer := ⟨some ((ciphertext n).map some), 16, 16⟩

theorem decryptsSafely_three :
    DecryptsSafely mask (some [7]) (received 3) ↔
      ∀ key ∈ (some [7] : Aes), ciphertext 3 ≠ [] → (ciphertext 3).length % 16 = 0 →
        (ciphertext 3).length < 2 ^ 32 ∧ 1 ≤ padByte (mask key (lastBlock (ciphertext 3))) ∧
          padByte (mask key (lastBlock (ciphertext 3))) ≤ 16 :=
  decryptsSafely_iff permutes_mask ⟨⟨by decide, by decide⟩, by decide⟩

/-- **A last byte of `0xFF`** gives one byte more than was allocated. -/
theorem tampered_unsafe :
    (Aes.decryptCall mask (some [7]) 2 (received 0xFF)).map
        (Except.map fun o => (o.size_, o.capacity)) = some (.ok (17, 16)) ∧
      ¬ ∀ cipher aes buf s, Permutes cipher → Holds buf s → DecryptsSafely cipher aes buf := by
  have hCall : (Aes.decryptCall mask (some [7]) 2 (received 0xFF)).map
      (Except.map fun o => (o.size_, o.capacity)) = some (.ok (17, 16)) := by decide
  refine ⟨hCall, fun hAll => ?_⟩
  obtain ⟨fuel, r, hSafe, hOk⟩ := hAll mask (some [7]) (received 0xFF) (ciphertext 0xFF)
    permutes_mask ⟨⟨by decide, by decide⟩, by decide⟩
  obtain ⟨r', hRun, hSizes⟩ := Option.map_eq_some_iff.1 hCall
  obtain rfl := decryptCall_unique hRun hSafe
  cases r with
  | error e => cases hSizes
  | ok o =>
      obtain ⟨hSize, hCap⟩ := Prod.ext_iff.1 (Except.ok.inj hSizes)
      have hLe := (hOk o rfl).2.1
      simp only at hSize hCap
      rw [hSize, hCap] at hLe
      exact absurd hLe (by decide)

end Megatron.Ssl
