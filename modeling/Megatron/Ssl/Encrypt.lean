import Megatron.Corelib.Sizes

/-!
# The AES round trip

`st_AES_impl::encrypt` followed by `decrypt`.  The block functions are
parameters; all that is asked of them is that one inverts the other on blocks
of 16 bytes.

The text survives the trip where there is room behind it for the padding and
where the `unsigned` that counts the bytes reaches the end.  The argument does
not: its `size_` counts the padding from then on, so what is sent the next
time is the padded text.

## Main results

* `ecb_flatten`, `ecb_endless` — the loop over the blocks.
* `encrypt_eq` — what `encrypt` returns and what it leaves of its argument.
* `decrypt_encrypted` — `decrypt` takes the padding off.
* `encrypt_consumes` — when the text survives, and that the argument never does.
-/

namespace Megatron.Ssl

open Megatron.Corelib Megatron.Lib

/-- The loop over the blocks, which `unsigned i` counts: each pass puts out one
more of them.  `fuel` bounds the passes. -/
def ecb (f : Bytes → Bytes) (ib : Bytes) : Nat → UInt32 → Option Bytes
  | 0, _ => none
  | fuel + 1, i =>
      if i.toUInt64 < UInt64.ofNat ib.length then do
        let ob ← ecb f ib fuel (i + 16)
        return f ((ib.drop i.toNat).take 16) ++ ob
      else some []

/-- `st_AES_impl::encrypt`: the new refbuffer, and the argument as it is left.
There is no result where it writes outside the block, reads a byte that nobody
has written, or runs out of `fuel`. -/
def Aes.encrypt (cipher : Bytes → Bytes → Bytes) (aes : Aes) (fuel : Nat) (buf : Refbuffer) :
    Option (Except CommonError (Refbuffer × Refbuffer)) := do
  match ← pad aes.isSome buf with
  | .error e => return .error e
  | .ok buf =>
      let ib ← buf.bytes.mapM id
      let ob ← ecb (cipher (aes.getD [])) ib fuel 0
      return .ok (⟨some (ob.map some), buf.size_, buf.size_⟩, buf)

/-- `s`, in a refbuffer whose sizes are in order. -/
structure Holds (buf : Refbuffer) (s : Bytes) : Prop extends buf.Sized where
  bytes_eq : buf.bytes = s.map some

/-- There is room behind the text for its padding. -/
def Room (buf : Refbuffer) : Prop := buf.capacity - buf.size_ ≥ padding buf.size_

instance (buf : Refbuffer) : Decidable (Room buf) :=
  inferInstanceAs (Decidable (_ ≥ _))

/-- On blocks of 16 bytes `dec` inverts `enc`, whatever the key. -/
structure Inverts (enc dec : Bytes → Bytes → Bytes) : Prop where
  length_enc : ∀ key b, b.length = 16 → (enc key b).length = 16
  dec_enc : ∀ key b, b.length = 16 → dec key (enc key b) = b

section Properties

variable (enc dec : Bytes → Bytes → Bytes) (aes : Aes) (buf : Refbuffer)

/-- `decrypt(encrypt(x))` has the bytes of `x`. -/
def RoundTrips : Prop :=
  ∃ fuel out buf' d back, Aes.encrypt enc aes fuel buf = some (.ok (out, buf')) ∧
    out.bytes = d.map some ∧ Aes.decrypt dec aes d = .ok back ∧ back.bytes = buf.bytes

/-- `encrypt(x)` returns, and leaves the bytes and `size_` of `x` as they were. -/
def Spares : Prop :=
  ∃ fuel out buf', Aes.encrypt enc aes fuel buf = some (.ok (out, buf')) ∧
    buf'.bytes = buf.bytes ∧ buf'.size_ = buf.size_

/-- `n` calls of `encrypt` in a row, all with the same refbuffer. -/
def Sends : Nat → Refbuffer → Refbuffer → Prop
  | 0, buf, buf' => buf' = buf
  | n + 1, buf, buf' => ∃ fuel out buf₁,
      Aes.encrypt enc aes fuel buf = some (.ok (out, buf₁)) ∧ Sends n buf₁ buf'

end Properties

/-! ## Blocks -/

theorem length_flatten_blocks {bs : List Bytes} (h : ∀ b ∈ bs, b.length = 16) :
    bs.flatten.length = 16 * bs.length := by
  induction bs with
  | nil => rfl
  | cons b bs ih =>
      rw [List.flatten_cons, List.length_append, h b List.mem_cons_self,
        ih fun x hx => h x (List.mem_cons_of_mem _ hx), List.length_cons]
      omega

theorem blocks_flatten {bs : List Bytes} (h : ∀ b ∈ bs, b.length = 16) :
    blocks bs.flatten = bs := by
  rw [blocks, length_flatten_blocks h, Nat.mul_div_cancel_left _ (by decide)]
  induction bs with
  | nil => rfl
  | cons b bs ih =>
      have hb : b.length = 16 := h b List.mem_cons_self
      have hRest := ih fun x hx => h x (List.mem_cons_of_mem _ hx)
      rw [List.length_cons, List.range_succ_eq_map, List.map_cons, List.map_map]
      congr 1
      · simpa using List.take_left' hb
      · refine Eq.trans (List.map_congr_left fun i _ => ?_) hRest
        have hSplit : 16 * (i + 1) = b.length + 16 * i := by omega
        simp only [Function.comp_apply, Nat.succ_eq_add_one]
        rw [hSplit, List.flatten_cons, List.drop_length_add_append]

/-- A text of whole blocks is made of them. -/
theorem exists_blocks (n : Nat) :
    ∀ d : Bytes, d.length = 16 * n → ∃ bs : List Bytes, bs.length = n ∧
      (∀ b ∈ bs, b.length = 16) ∧ bs.flatten = d := by
  induction n with
  | zero =>
      intro d hd
      exact ⟨[], rfl, by simp, (List.eq_nil_of_length_eq_zero hd).symm⟩
  | succ n ih =>
      intro d hd
      obtain ⟨bs, hLen, hAll, hFlat⟩ := ih (d.drop 16) (by rw [List.length_drop]; omega)
      refine ⟨d.take 16 :: bs, by rw [List.length_cons, hLen], ?_, ?_⟩
      · intro b hb
        rcases List.mem_cons.1 hb with rfl | hb
        · rw [List.length_take]
          omega
        · exact hAll b hb
      · rw [List.flatten_cons, hFlat, List.take_append_drop]

/-- From a block on, the loop puts out the blocks that are left. -/
theorem ecb_flatten (f : Bytes → Bytes) (bs : List Bytes) :
    ∀ (pre : List Bytes) {i : UInt32}, (∀ b ∈ pre ++ bs, b.length = 16) →
      (pre ++ bs).flatten.length < 2 ^ 32 → i.toNat = 16 * pre.length →
      ecb f (pre ++ bs).flatten (bs.length + 1) i = some (bs.flatMap f) := by
  induction bs with
  | nil =>
      intro pre i hAll hShort hi
      have hLen := length_flatten_blocks hAll
      rw [List.append_nil] at hLen hShort ⊢
      have hEnd : ¬ i.toUInt64 < UInt64.ofNat pre.flatten.length := by
        rw [UInt64.lt_iff_toNat_lt, UInt32.toNat_toUInt64,
          UInt64.toNat_ofNat_of_lt' (Nat.lt_trans hShort (by decide))]
        omega
      rw [List.length_nil, ecb, if_neg hEnd]
      rfl
  | cons b bs ih =>
      intro pre i hAll hShort hi
      have hLen := length_flatten_blocks hAll
      have hb : b.length = 16 := hAll b (by simp)
      rw [List.length_append, List.length_cons] at hLen
      have hMore : i.toUInt64 < UInt64.ofNat (pre ++ b :: bs).flatten.length := by
        rw [UInt64.lt_iff_toNat_lt, UInt32.toNat_toUInt64,
          UInt64.toNat_ofNat_of_lt' (Nat.lt_trans hShort (by decide))]
        omega
      have hApp : pre ++ b :: bs = (pre ++ [b]) ++ bs := by simp
      have hNext : (i + 16).toNat = 16 * (pre ++ [b]).length := by
        have h16 : (16 : UInt32).toNat = 16 := rfl
        rw [UInt32.toNat_add, h16, List.length_append, List.length_singleton]
        omega
      have hBlock : ((pre ++ b :: bs).flatten.drop i.toNat).take 16 = b := by
        have hPre : pre.flatten.length = i.toNat := by
          rw [hi]
          exact length_flatten_blocks fun x hx => hAll x (List.mem_append_left _ hx)
        rw [List.flatten_append, List.drop_left' hPre, List.flatten_cons, List.take_left' hb]
      rw [List.length_cons, ecb, if_pos hMore, hBlock]
      rw [hApp] at hAll hShort ⊢
      rw [ih _ hAll hShort hNext]
      rfl

/-- An `unsigned` never reaches the end of 4 GiB. -/
theorem ecb_endless (f : Bytes → Bytes) {ib : Bytes} (hLong : 2 ^ 32 ≤ ib.length)
    (hSize : ib.length < 2 ^ 64) (fuel : Nat) : ∀ i, ecb f ib fuel i = none := by
  induction fuel with
  | zero => exact fun _ => rfl
  | succ fuel ih =>
      intro i
      have hMore : i.toUInt64 < UInt64.ofNat ib.length := by
        have hi := i.toNat_lt
        rw [UInt64.lt_iff_toNat_lt, UInt32.toNat_toUInt64, UInt64.toNat_ofNat_of_lt' hSize]
        omega
      rw [ecb, if_pos hMore, ih]
      rfl

/-! ## Padding -/

section Padding

variable {buf : Refbuffer} {s : Bytes}

theorem Holds.length_eq (h : Holds buf s) : s.length = buf.size_.toNat := by
  have hLen := congrArg List.length h.bytes_eq
  have hSize := h.size_le
  have hCap := h.capacity_le
  rw [Refbuffer.bytes, List.length_take, List.length_map] at hLen
  rw [Refbuffer.allocated] at hCap
  omega

theorem length_addl (size_ : UInt64) : (addl size_).length = (padding size_).toNat :=
  List.length_replicate

/-- The text with its padding is made of whole blocks. -/
theorem dvd_padded (size_ : UInt64) : ∃ n, size_.toNat + (padding size_).toNat = 16 * n := by
  have hLt := Nat.mod_lt size_.toNat (show 0 < 16 by decide)
  rw [toNat_padding]
  exact ⟨size_.toNat / 16 + 1, by omega⟩

theorem padding_ne_zero (size_ : UInt64) : padding size_ ≠ 0 := by
  intro h
  have hPos := (padding_range size_).1
  rw [h] at hPos
  exact absurd hPos (Nat.lt_irrefl 0)

/-- **Padding in place.** The argument holds the padded text afterwards. -/
theorem pad_eq (h : Holds buf s) (hRoom : Room buf) :
    ∃ buf', pad true buf = some (.ok buf') ∧ Holds buf' (s ++ addl buf.size_) ∧
      buf'.size_ = buf.size_ + padding buf.size_ := by
  have hSize := h.size_le
  have hCap := h.capacity_le
  obtain ⟨hPos, -⟩ := padding_range buf.size_
  have hFree := hRoom
  rw [Room, ge_iff_le, UInt64.le_iff_toNat_le,
    UInt64.toNat_sub_of_le _ _ (UInt64.le_iff_toNat_le.2 hSize)] at hFree
  have hSum : (buf.size_ + padding buf.size_).toNat =
      buf.size_.toNat + (padding buf.size_).toNat := by
    have := buf.capacity.toNat_lt
    rw [UInt64.toNat_add]
    omega
  obtain ⟨b, hb⟩ : ∃ b, buf.buffer = some b := by
    cases hBuf : buf.buffer with
    | some b => exact ⟨b, rfl⟩
    | none =>
        rw [Refbuffer.allocated, hBuf] at hCap
        have hZero : buf.capacity.toNat ≤ 0 := hCap
        omega
  rw [Refbuffer.allocated, hb, Option.getD_some] at hCap
  have hFits : buf.size_.toNat + (addl buf.size_).length ≤ b.length := by
    rw [length_addl]
    omega
  have hBytes := h.bytes_eq
  rw [Refbuffer.bytes, hb, Option.getD_some] at hBytes
  refine ⟨⟨some (b.overlay buf.size_.toNat (addl buf.size_)), buf.size_ + padding buf.size_,
    buf.capacity⟩, ?_, ⟨⟨?_, ?_⟩, ?_⟩, rfl⟩
  · rw [Room] at hRoom
    rw [pad, if_neg (by simp), if_pos hRoom]
    simp only [hb, Option.bind_eq_bind, Option.bind_some, Block.write_of_fits hFits]
    rfl
  · show (buf.size_ + padding buf.size_).toNat ≤ buf.capacity.toNat
    omega
  · simpa [Refbuffer.allocated] using hCap
  · show (b.overlay buf.size_.toNat (addl buf.size_)).take
      (buf.size_ + padding buf.size_).toNat = _
    rw [hSum, ← length_addl, Block.take_overlay_end hFits, hBytes, List.map_append]

/-- What `pad` returns is the padded argument, and it had room. -/
theorem pad_cases {aes : Aes} {buf' : Refbuffer} (h : Holds buf s)
    (hPad : pad aes.isSome buf = some (.ok buf')) :
    aes.isSome ∧ Room buf ∧ Holds buf' (s ++ addl buf.size_) ∧
      buf'.size_ = buf.size_ + padding buf.size_ := by
  cases hInited : aes.isSome with
  | false =>
      rw [hInited, pad, if_pos (by rfl)] at hPad
      cases hPad
  | true =>
      by_cases hRoom : Room buf
      · obtain ⟨buf₁, hPad₁, hHolds, hSize⟩ := pad_eq h hRoom
        rw [hInited, hPad₁] at hPad
        obtain rfl := Except.ok.inj (Option.some.inj hPad)
        exact ⟨rfl, hRoom, hHolds, hSize⟩
      · rw [Room] at hRoom
        rw [hInited, pad, if_neg (by simp), if_neg hRoom] at hPad
        cases hPad

end Padding

/-! ## Where a refbuffer comes from -/

theorem not_room_new : ¬ Room .new := by decide

/-- `0x20` bytes to spare are room enough. -/
theorem room_of_spare {buf : Refbuffer} (h : buf.capacity = buf.size_ + 0x20) : Room buf := by
  obtain ⟨-, hLe⟩ := padding_range buf.size_
  rw [Room, h, UInt64.add_comm, UInt64.add_sub_cancel, ge_iff_le, UInt64.le_iff_toNat_le]
  exact hLe.trans (by decide)

/-- `toRef` leaves room behind all texts but the empty one. -/
theorem holds_toRef (s : Object) :
    ∃ r, Refbuffer.toRef s = some r ∧ Holds r s.val ∧ (Room r ↔ s.val ≠ []) := by
  obtain ⟨r, hRun, hSized, hBytes⟩ := Refbuffer.toRef_eq s
  refine ⟨r, hRun, ⟨hSized, hBytes⟩, ?_⟩
  have hEmpty : s.size = 0 ↔ s.val = [] := by
    rw [← UInt64.toNat_inj, s.toNat_size, ← List.length_eq_zero_iff]
    rfl
  rw [Refbuffer.toRef] at hRun
  split at hRun
  · rename_i hSize
    simp only [Option.bind_eq_bind, Option.bind_eq_some_iff] at hRun
    obtain ⟨b, -, hr⟩ := hRun
    obtain rfl := Option.some.inj hr
    exact iff_of_true (room_of_spare rfl) (mt hEmpty.2 hSize)
  · rename_i hSize
    obtain rfl := Option.some.inj hRun
    exact iff_of_false not_room_new (not_not.2 (hEmpty.1 (not_not.1 hSize)))

/-- `asString` always leaves room. -/
theorem holds_asString {o : OutBuffer} (h : o.Proper) (hFits : o.curPos.toNat + 0x20 < 2 ^ 64)
    {s : Bytes} (hText : o.block.take o.curPos.toNat = s.map some) :
    Holds o.asString.buffer s ∧ Room o.asString.buffer := by
  have hNew : (o.curPos + 0x20).toNat = o.curPos.toNat + 0x20 := by
    rw [UInt64.toNat_add, show (0x20 : UInt64).toNat = 0x20 from rfl, Nat.mod_eq_of_lt hFits]
  have hPos := h.curPos_le
  have hBuf := h.bufsize_le
  refine ⟨⟨⟨?_, ?_⟩, ?_⟩, room_of_spare rfl⟩
  · show o.curPos.toNat ≤ (o.curPos + 0x20).toNat
    omega
  · show (o.curPos + 0x20).toNat ≤ (o.block.realloc (o.curPos + 0x20).toNat).length
    rw [Block.length_realloc]
  · show (o.block.realloc (o.curPos + 0x20).toNat).take o.curPos.toNat = _
    rw [Block.take_realloc (by omega) (by omega), hText]

/-- Reading a size leaves room behind all texts but the empty one. -/
theorem room_readRefbuffer {pl : Platform} {old : Refbuffer} {c c' : Cursor} {size : UInt64}
    (h : Cursor.getPN c = (.ok size, c')) :
    (Cursor.readRefbuffer pl old c).2.1 = .new ∨ Room (Cursor.readRefbuffer pl old c).2.1 := by
  rcases readRefbuffer_shape pl old h with hNew | ⟨b, hShape, -⟩
  · exact Or.inl hNew
  · rw [hShape]
    exact Or.inr (room_of_spare rfl)

/-! ## Encryption -/

theorem mapM_id_map_some (s : Bytes) : (s.map some).mapM id = some s := by
  induction s with
  | nil => rfl
  | cons c s ih =>
      rw [List.map_cons, List.mapM_cons, ih]
      rfl

section Trip

variable {enc dec : Bytes → Bytes → Bytes} {key : Bytes} {buf : Refbuffer} {s : Bytes}

/-- **What `encrypt` does.** The blocks of the padded text, encrypted, and the
padded text in the argument. -/
theorem encrypt_eq (enc : Bytes → Bytes → Bytes) (key : Bytes) (h : Holds buf s) (hRoom : Room buf)
    (hShort : (s ++ addl buf.size_).length < 2 ^ 32) :
    ∃ (fuel : Nat) (buf' : Refbuffer) (bs : List Bytes), Holds buf' (s ++ addl buf.size_) ∧
      buf'.size_ = buf.size_ + padding buf.size_ ∧
      (∀ b ∈ bs, b.length = 16) ∧ bs.flatten = s ++ addl buf.size_ ∧
      Aes.encrypt enc (some key) fuel buf =
        some (.ok (⟨some ((bs.flatMap (enc key)).map some), buf'.size_, buf'.size_⟩, buf')) := by
  obtain ⟨buf', hPad, hHolds, hSize⟩ := pad_eq h hRoom
  obtain ⟨n, hn⟩ := dvd_padded buf.size_
  obtain ⟨bs, -, hAll, hFlat⟩ := exists_blocks n (s ++ addl buf.size_) (by
    rw [List.length_append, length_addl, h.length_eq, hn])
  have hLoop := ecb_flatten (enc key) bs [] (i := 0) hAll
    (by simpa [hFlat] using hShort) rfl
  rw [List.nil_append, hFlat] at hLoop
  refine ⟨bs.length + 1, buf', bs, hHolds, hSize, hAll, hFlat, ?_⟩
  rw [Aes.encrypt]
  simp only [Option.isSome_some, hPad, Option.bind_eq_bind, Option.bind_some, hHolds.bytes_eq,
    mapM_id_map_some, Option.getD_some, hLoop]
  rfl

/-- What `encrypt` has done when it returns. -/
theorem encrypt_eq_some {aes : Aes} {fuel : Nat} {out buf' : Refbuffer}
    (hRun : Aes.encrypt enc aes fuel buf = some (.ok (out, buf'))) :
    pad aes.isSome buf = some (.ok buf') ∧
      ∃ ib ob, buf'.bytes.mapM id = some ib ∧ ecb (enc (aes.getD [])) ib fuel 0 = some ob := by
  rw [Aes.encrypt] at hRun
  simp only [Option.bind_eq_bind, Option.bind_eq_some_iff] at hRun
  obtain ⟨r, hPad, hRun⟩ := hRun
  cases r with
  | error e => cases hRun
  | ok buf₁ =>
      simp only [Option.bind_eq_some_iff] at hRun
      obtain ⟨ib, hBytes, ob, hLoop, hOut⟩ := hRun
      obtain ⟨-, rfl⟩ := Prod.mk.inj (Except.ok.inj (Option.some.inj hOut))
      exact ⟨hPad, ib, ob, hBytes, hLoop⟩

/-- `encrypt` returns only what it has padded, and only below 4 GiB. -/
theorem encrypt_cases {aes : Aes} {fuel : Nat} {out buf' : Refbuffer} (h : Holds buf s)
    (hRun : Aes.encrypt enc aes fuel buf = some (.ok (out, buf'))) :
    aes.isSome ∧ Room buf ∧ (s ++ addl buf.size_).length < 2 ^ 32 ∧
      Holds buf' (s ++ addl buf.size_) ∧ buf'.size_ = buf.size_ + padding buf.size_ := by
  obtain ⟨hPad, ib, ob, hBytes, hLoop⟩ := encrypt_eq_some hRun
  obtain ⟨hInited, hRoom, hHolds, hSize⟩ := pad_cases h hPad
  rw [hHolds.bytes_eq, mapM_id_map_some] at hBytes
  obtain rfl := Option.some.inj hBytes
  refine ⟨hInited, hRoom, ?_, hHolds, hSize⟩
  by_contra hLong
  have hLen : (s ++ addl buf.size_).length < 2 ^ 64 := by
    rw [hHolds.length_eq]
    exact buf'.size_.toNat_lt
  rw [ecb_endless _ (Nat.le_of_not_lt hLong) hLen] at hLoop
  cases hLoop

theorem capacity_encrypt {aes : Aes} {fuel : Nat} {out buf' : Refbuffer}
    (hRun : Aes.encrypt enc aes fuel buf = some (.ok (out, buf'))) :
    buf'.capacity = buf.capacity :=
  capacity_pad (encrypt_eq_some hRun).1

/-- The last byte of the padding, as a `char`, is its length. -/
theorem asChar_padding (size_ : UInt64) : asChar (padding size_).toUInt8 = padding size_ := by
  have hAll : ∀ k : Fin 17, asChar (UInt64.ofNat k).toUInt8 = UInt64.ofNat k := by decide
  obtain ⟨-, hLe⟩ := padding_range size_
  have hChar := hAll ⟨(padding size_).toNat, Nat.lt_succ_of_le hLe⟩
  simpa using hChar

theorem Inverts.length_map_enc (hInv : Inverts enc dec) (key : Bytes) {bs : List Bytes}
    (hAll : ∀ b ∈ bs, b.length = 16) : ∀ b ∈ bs.map (enc key), b.length = 16 := by
  intro b hb
  obtain ⟨b₀, hb₀, rfl⟩ := List.mem_map.1 hb
  exact hInv.length_enc key b₀ (hAll b₀ hb₀)

/-- **`decrypt` inverts `encrypt`.** It gives the text without its padding. -/
theorem decrypt_encrypted (key : Bytes) (hInv : Inverts enc dec) {bs : List Bytes} {size_ : UInt64}
    (hLen : s.length = size_.toNat) (hAll : ∀ b ∈ bs, b.length = 16)
    (hFlat : bs.flatten = s ++ addl size_) (hShort : (s ++ addl size_).length < 2 ^ 64) :
    ∃ back, Aes.decrypt dec (some key) (bs.flatMap (enc key)) = .ok back ∧
      back.bytes = s.map some := by
  have hEnc := hInv.length_map_enc key hAll
  have hOut : bs.flatMap (enc key) = (bs.map (enc key)).flatten := List.flatMap_def
  have hSame : (bs.flatMap (enc key)).length = (s ++ addl size_).length := by
    rw [hOut, length_flatten_blocks hEnc, List.length_map, ← hFlat, length_flatten_blocks hAll]
  have hWhole : (bs.flatMap (enc key)).length % 16 = 0 := by
    rw [hOut, length_flatten_blocks hEnc, Nat.mul_mod_right]
  have hText : (blocks (bs.flatMap (enc key))).flatMap (dec key) = s ++ addl size_ := by
    rw [hOut, blocks_flatten hEnc, List.flatMap_map, ← hFlat, List.flatMap_def]
    congr 1
    conv_rhs => rw [← List.map_id bs]
    exact List.map_congr_left fun b hb => hInv.dec_enc key b (hAll b hb)
  obtain ⟨hPos, -⟩ := padding_range size_
  have hLast : (s ++ addl size_).getLast? = some (padding size_).toUInt8 := by
    rw [addl, List.getLast?_append, List.getLast?_replicate, if_neg (by omega)]
    rfl
  have hTotal : (UInt64.ofNat (bs.flatMap (enc key)).length).toNat =
      size_.toNat + (padding size_).toNat := by
    rw [hSame, UInt64.toNat_ofNat_of_lt' hShort, List.length_append, length_addl, hLen]
  refine ⟨⟨some ((s ++ addl size_).map some),
    UInt64.ofNat (bs.flatMap (enc key)).length - asChar (padding size_).toUInt8,
    UInt64.ofNat (bs.flatMap (enc key)).length⟩, ?_, ?_⟩
  · rw [Aes.decrypt]
    simp only
    rw [if_neg (not_not.2 hWhole), hText, hLast]
  · have hLe : padding size_ ≤ UInt64.ofNat (bs.flatMap (enc key)).length := by
      rw [UInt64.le_iff_toNat_le, hTotal]
      omega
    rw [Refbuffer.bytes, Option.getD_some, asChar_padding, UInt64.toNat_sub_of_le _ _ hLe, hTotal,
      Nat.add_sub_cancel, ← hLen, List.map_append]
    exact List.take_left' (List.length_map _)

/-- Every call leaves a longer text in the same room. -/
theorem holds_sends {aes : Aes} {n : Nat} :
    ∀ {buf buf' : Refbuffer} {s : Bytes}, Holds buf s → Sends enc aes n buf buf' →
      ∃ t, Holds buf' (s ++ t) ∧ n ≤ t.length ∧ buf'.capacity = buf.capacity := by
  induction n with
  | zero =>
      rintro buf _ s h rfl
      exact ⟨[], by rwa [List.append_nil], Nat.zero_le _, rfl⟩
  | succ n ih =>
      rintro buf buf' s h ⟨fuel, out, buf₁, hRun, hSends⟩
      obtain ⟨-, -, -, hHolds, -⟩ := encrypt_cases h hRun
      obtain ⟨t, hHolds', hLe, hCap⟩ := ih hHolds hSends
      obtain ⟨hPos, -⟩ := padding_range buf.size_
      refine ⟨addl buf.size_ ++ t, by rwa [← List.append_assoc], ?_, ?_⟩
      · rw [List.length_append, length_addl]
        omega
      · rw [hCap]
        exact capacity_encrypt hRun

/-- The text comes back if and only if `encrypt` has room for the padding and
reaches the end. -/
theorem comesBack_iff (hInv : Inverts enc dec) (h : Holds buf s) :
    RoundTrips enc dec (some key) buf ↔
      Room buf ∧ buf.size_.toNat + (padding buf.size_).toNat < 2 ^ 32 := by
  have hLen : (s ++ addl buf.size_).length =
      buf.size_.toNat + (padding buf.size_).toNat := by
    rw [List.length_append, length_addl, h.length_eq]
  constructor
  · rintro ⟨fuel, out, buf', d, back, hRun, -⟩
    obtain ⟨-, hRoom, hShort, -⟩ := encrypt_cases h hRun
    exact ⟨hRoom, hLen ▸ hShort⟩
  · rintro ⟨hRoom, hShort⟩
    rw [← hLen] at hShort
    obtain ⟨fuel, buf', bs, hHolds, hSize, hAll, hFlat, hRun⟩ :=
      encrypt_eq enc key h hRoom hShort
    obtain ⟨back, hDec, hBytes⟩ := decrypt_encrypted key hInv h.length_eq hAll hFlat
      (Nat.lt_trans hShort (by decide))
    refine ⟨fuel, _, buf', bs.flatMap (enc key), back, hRun, ?_, hDec, ?_⟩
    · have hEnc := hInv.length_map_enc key hAll
      rw [Refbuffer.bytes, Option.getD_some]
      refine List.take_of_length_le ?_
      rw [List.length_map, List.flatMap_def, length_flatten_blocks hEnc, List.length_map,
        ← length_flatten_blocks hAll, hFlat, hHolds.length_eq]
    · rw [hBytes, h.bytes_eq]

theorem not_spares {aes : Aes} (h : Holds buf s) : ¬ Spares enc aes buf := by
  rintro ⟨fuel, out, buf', hRun, -, hSize⟩
  obtain ⟨-, -, -, -, hGrown⟩ := encrypt_cases h hRun
  rw [hSize] at hGrown
  exact padding_ne_zero buf.size_ (by simpa using hGrown)

/--
**The AES round trip.** The text of a refbuffer survives encryption and
decryption if and only if there is room for the padding and the padded text
stays below 4 GiB; what was encrypted never stays as it was, and there is a
number of times it cannot be encrypted.
-/
theorem encrypt_consumes (hInv : Inverts enc dec) (h : Holds buf s) :
    (RoundTrips enc dec (some key) buf ↔
      Room buf ∧ buf.size_.toNat + (padding buf.size_).toNat < 2 ^ 32) ∧
    ¬ Spares enc (some key) buf ∧ ∃ n, ∀ buf', ¬ Sends enc (some key) n buf buf' := by
  refine ⟨comesBack_iff hInv h, not_spares h, buf.capacity.toNat + 1, fun buf' hSends => ?_⟩
  obtain ⟨t, hHolds, hLe, hCap⟩ := holds_sends h hSends
  have hSize := hHolds.size_le
  have hText := hHolds.length_eq
  rw [List.length_append] at hText
  rw [hCap] at hSize
  omega

end Trip

/-- A byte cipher that is its own inverse. -/
def mask (_ : Bytes) (b : Bytes) : Bytes := b.map (· ^^^ 0x5A)

theorem inverts_mask : Inverts mask mask where
  length_enc _ b hb := by rw [mask, List.length_map, hb]
  dec_enc _ b _ := by
    rw [mask, mask, List.map_map]
    refine (List.map_congr_left fun c _ => ?_).trans (List.map_id b)
    simp only [Function.comp_apply, UInt8.xor_assoc, UInt8.xor_self, UInt8.xor_zero, id]

/-- Three bytes with the room that `toRef` leaves behind a text. -/
def three : Refbuffer := ⟨some ([1, 2, 3].map some ++ Block.malloc 0x20), 3, 35⟩

theorem three_consumed :
    Refbuffer.toRef ⟨[1, 2, 3], by decide⟩ = some three ∧
      (RoundTrips mask mask (some [7]) three ↔
        Room three ∧ three.size_.toNat + (padding three.size_).toNat < 2 ^ 32) ∧
      ¬ Spares mask (some [7]) three ∧ ∃ n, ∀ buf', ¬ Sends mask (some [7]) n three buf' :=
  ⟨by decide, encrypt_consumes inverts_mask
    (s := [1, 2, 3]) ⟨⟨by decide, by decide⟩, by decide⟩⟩

/-- What the receivers of `n` packets made of one refbuffer get. -/
def deliveries : Nat → Refbuffer → List (Except CommonError (List (Option UInt8)))
  | 0, _ => []
  | n + 1, buf =>
      match Aes.encrypt mask (some [7]) 4 buf with
      | some (.ok (out, buf')) =>
          (Aes.decrypt mask (some [7]) (out.bytes.filterMap id)).map Refbuffer.bytes ::
            deliveries n buf'
      | some (.error e) => .error e :: deliveries n buf
      | none => []

/-- The second receiver gets the padding of the first packet, and the third
packet is not made. -/
theorem three_sent_thrice :
    deliveries 3 three =
        [.ok [some 1, some 2, some 3],
          .ok ([some 1, some 2, some 3] ++ List.replicate 13 (some 13)),
          .error ⟨"if(buf->capacity - buf->size >= addl.size())"⟩] ∧
      ¬ (∀ s buf, Refbuffer.toRef s = some buf →
        RoundTrips mask mask (some [7]) buf ∧ Spares mask (some [7]) buf) :=
  ⟨by decide +kernel, fun hAll =>
    not_spares (s := [1, 2, 3]) ⟨⟨by decide, by decide⟩, by decide⟩
      (hAll ⟨[1, 2, 3], by decide⟩ three (by decide)).2⟩

end Megatron.Ssl
