import Mathlib.Data.List.Basic
import Mathlib.Tactic.Ring

/-!
# The byte buffers: `inBuffer` and `outBuffer`

Everything the services put on a wire goes through `outBuffer`, and
everything they take off one goes through `inBuffer`.  Numbers travel as
*packed numbers* (PN): seven bits a byte, most significant group first, the
high bit set on every byte but the last.  Strings travel as a packed length
followed by their bytes.

An `outBuffer` is the bytes it has appended so far, so a `put` is the list it
appends.  An `inBuffer` is a position in a block of bytes; the bound on the
position is part of the structure, which is what makes `m_size - out_pos` the
number of bytes left.  `rest` forgets the consumed bytes: every specification
below is about `rest`.

## Main results

* `getPNNothrow_putPN` — reading a packed number returns it and leaves what
  follows.
* `getPNNothrow_short` — a proper prefix of a packed number is not read.
* `reads_getPN`, `reads_getPSTR`, `reads_getRefbuffer` — the same for the
  throwing readers, in a form that composes along `do` blocks (`Reads.bind`).
-/

namespace Megatron.Corelib

abbrev Bytes := List UInt8

/-- The exception of the corelib. It is not derived from `std::exception`. -/
structure CommonError where
  what : String
  deriving DecidableEq, Repr

/-! ## `outBuffer` -/

/-- The seven bits of `n` from bit `i = 7 * k` on: `(N >> i) & 0x7F`. -/
def group (n : UInt64) (k : Nat) : UInt8 := (n >>> UInt64.ofNat (7 * k) &&& 0x7F).toUInt8

/-- The inner loop of `put_PN$`, from group `k` down to group 0. -/
def putPNTail (n : UInt64) : Nat → Bytes
  | 0 => [group n 0]
  | k + 1 => (group n (k + 1) ||| 0x80) :: putPNTail n k

/-- The outer loop of `put_PN$`: leading zero groups are skipped. -/
def putPNFrom (n : UInt64) : Nat → Bytes
  | 0 => putPNTail n 0
  | k + 1 => if group n (k + 1) ≠ 0 then putPNTail n (k + 1) else putPNFrom n k

/-- `outBuffer::put_PN`; the loop starts at bit 63. -/
def putPN (n : UInt64) : Bytes := putPNFrom n 9

/-- `outBuffer::put_PSTR`. -/
def putPSTR (s : Bytes) : Bytes := putPN (UInt64.ofNat s.length) ++ s

/-- `operator<< (outBuffer&, const REF_getter<refbuffer>&)`; `none` is an
invalid reference or one without a buffer. -/
def putRefbuffer : Option Bytes → Bytes
  | some s => putPN (UInt64.ofNat s.length) ++ s
  | none => putPN 0

/-! ## `inBuffer` -/

structure InBuffer where
  mData : Bytes
  outPos : Nat
  outPos_le : outPos ≤ mData.length

namespace InBuffer

/-- A buffer at the start of its data. -/
def ofBytes (d : Bytes) : InBuffer := ⟨d, 0, Nat.zero_le _⟩

def remains (b : InBuffer) : Nat := b.mData.length - b.outPos

/-- The bytes not consumed yet. -/
def rest (b : InBuffer) : Bytes := b.mData.drop b.outPos

@[simp] theorem rest_ofBytes (d : Bytes) : (ofBytes d).rest = d := rfl

@[simp] theorem length_rest (b : InBuffer) : b.rest.length = b.remains := by
  simp [rest, remains]

/-- `erase(0, size() - remains())` keeps exactly the unread bytes. -/
theorem drop_consumed (b : InBuffer) :
    b.mData.drop (b.mData.length - b.remains) = b.rest := by
  have hle := b.outPos_le
  have : b.mData.length - b.remains = b.outPos := by simp only [remains]; omega
  rw [this, rest]

/-- `get_8_nothrow`; `none` is `success = false`. -/
def get8Nothrow (b : InBuffer) : Option UInt8 × InBuffer :=
  if h : b.outPos + 1 ≤ b.mData.length then
    (some (b.mData.get ⟨b.outPos, h⟩), ⟨b.mData, b.outPos + 1, h⟩)
  else (none, b)

/-- The loop of `get_PN_nothrow`, with the number of iterations bounded. -/
def pnLoop : Nat → UInt64 → InBuffer → Option UInt64 × InBuffer
  | 0, _, b => (none, b)
  | fuel + 1, nn, b =>
      match b.get8Nothrow with
      | (none, b) => (none, b)
      | (some c, b) =>
          if c < 0x80 then (some (nn <<< 7 ||| c.toUInt64), b)
          else pnLoop fuel (nn <<< 7 ||| (c &&& 0x7F).toUInt64) b

/-- `get_PN_nothrow`; every iteration takes a byte, so the bytes left bound
the loop. -/
def getPNNothrow (b : InBuffer) : Option UInt64 × InBuffer := pnLoop (b.remains + 1) 0 b

/-- `unpack_nothrow`. -/
def unpackNothrow (b : InBuffer) (size : UInt64) : Option Bytes × InBuffer :=
  if h : size.toNat ≤ b.remains then
    (some (b.rest.take size.toNat),
      ⟨b.mData, b.outPos + size.toNat, Nat.add_le_of_le_sub' b.outPos_le h⟩)
  else (none, b)

/-! ### What the readers do to the unread bytes -/

theorem get8Nothrow_cons {b : InBuffer} {c : UInt8} {tail : Bytes}
    (h : b.rest = c :: tail) :
    ∃ b', b.get8Nothrow = (some c, b') ∧ b'.rest = tail ∧ b'.mData = b.mData := by
  have hLen : b.outPos < b.mData.length := by
    have := congrArg List.length h
    simp only [length_rest, remains, List.length_cons] at this
    omega
  rw [rest, List.drop_eq_getElem_cons hLen, List.cons.injEq] at h
  refine ⟨⟨b.mData, b.outPos + 1, hLen⟩, ?_, h.2, rfl⟩
  simp only [get8Nothrow, Nat.succ_le_of_lt hLen, dite_true, List.get_eq_getElem, h.1]

theorem get8Nothrow_nil {b : InBuffer} (h : b.rest = []) :
    b.get8Nothrow = (none, b) := by
  have := congrArg List.length h
  simp only [length_rest, remains, List.length_nil] at this
  have hLen : ¬ b.outPos + 1 ≤ b.mData.length := by omega
  simp only [get8Nothrow, hLen, dite_false]

theorem unpackNothrow_append {b : InBuffer} {size : UInt64} {s tail : Bytes}
    (h : b.rest = s ++ tail) (hSize : s.length = size.toNat) :
    ∃ b', b.unpackNothrow size = (some s, b') ∧ b'.rest = tail ∧ b'.mData = b.mData := by
  have hLen : size.toNat ≤ b.remains := by
    rw [← length_rest, h, List.length_append, hSize]
    exact Nat.le_add_right _ _
  have hTake : b.rest.take size.toNat = s := by rw [h, ← hSize, List.take_left]
  have hDrop : b.mData.drop (b.outPos + size.toNat) = tail := by
    rw [← List.drop_drop, ← rest, h, ← hSize, List.drop_left]
  exact ⟨⟨b.mData, b.outPos + size.toNat, Nat.add_le_of_le_sub' b.outPos_le hLen⟩,
    by simp only [unpackNothrow, hLen, dite_true, hTake], hDrop, rfl⟩

end InBuffer

/-! ## Packed numbers -/

theorem toNat_group (n : UInt64) {k : Nat} (hk : k ≤ 9) :
    (group n k).toNat = n.toNat / 2 ^ (7 * k) % 128 := by
  have hShift : (UInt64.ofNat (7 * k)).toNat % 64 = 7 * k := by
    rw [UInt64.toNat_ofNat']; omega
  simp only [group, UInt64.toNat_toUInt8, UInt64.toNat_and, UInt64.toNat_shiftRight, hShift,
    Nat.shiftRight_eq_div_pow]
  rw [show (0x7F : UInt64).toNat = 2 ^ 7 - 1 from rfl, Nat.and_two_pow_sub_one_eq_mod]
  omega

/-- `NN <<= 7; NN |= c` shifts one group in. -/
theorem toNat_shiftIn (nn : UInt64) {c : UInt8} (hc : c.toNat < 128) :
    (nn <<< 7 ||| c.toUInt64).toNat = (nn.toNat * 128 + c.toNat) % 2 ^ 64 := by
  simp only [UInt64.toNat_or, UInt64.toNat_shiftLeft, UInt8.toNat_toUInt64,
    Nat.shiftLeft_eq]
  rw [show (7 : UInt64).toNat % 64 = 7 from rfl]
  have hSplit : nn.toNat * 2 ^ 7 % 2 ^ 64 = 2 ^ 7 * (nn.toNat % 2 ^ 57) := by omega
  rw [hSplit, ← Nat.two_pow_add_eq_or_of_lt (by omega)]
  omega

theorem group_lt (n : UInt64) {k : Nat} (hk : k ≤ 9) : (group n k).toNat < 128 := by
  rw [toNat_group n hk]
  exact Nat.mod_lt _ (by decide)

/-- The continuation mark is the only bit the reader strips. -/
theorem marked_and (c : UInt8) (hc : c.toNat < 128) : (c ||| 0x80) &&& 0x7F = c := by
  apply UInt8.toNat_inj.1
  simp only [UInt8.toNat_and, UInt8.toNat_or]
  rw [show (0x7F : UInt8).toNat = 2 ^ 7 - 1 from rfl, Nat.and_two_pow_sub_one_eq_mod,
    show (0x80 : UInt8).toNat = 2 ^ 7 * 1 from rfl, Nat.or_comm,
    ← Nat.two_pow_add_eq_or_of_lt (by omega)]
  omega

theorem not_marked_lt (c : UInt8) : ¬ (c ||| 0x80) < 0x80 := by
  rw [UInt8.lt_iff_toNat_lt, UInt8.toNat_or]
  exact Nat.not_lt.2 Nat.right_le_or

theorem length_putPNTail (n : UInt64) (k : Nat) : (putPNTail n k).length = k + 1 := by
  induction k with
  | zero => rfl
  | succ k ih => simp [putPNTail, ih]

namespace InBuffer

/-- Reading the groups `k … 0` behind an accumulator. -/
theorem pnLoop_putPNTail (n : UInt64) (k : Nat) :
    ∀ (fuel : Nat) (nn : UInt64) (b : InBuffer) (tail : Bytes), k ≤ 9 → k < fuel →
      b.rest = putPNTail n k ++ tail →
      ∃ v b', pnLoop fuel nn b = (some v, b') ∧ b'.rest = tail ∧ b'.mData = b.mData ∧
        v.toNat = (nn.toNat * 2 ^ (7 * (k + 1)) + n.toNat % 2 ^ (7 * (k + 1))) % 2 ^ 64 := by
  induction k with
  | zero =>
      intro fuel nn b tail hk hFuel hb
      obtain ⟨fuel, rfl⟩ : ∃ m, fuel = m + 1 := ⟨fuel - 1, by omega⟩
      obtain ⟨b', hGet, hRest, hData⟩ := get8Nothrow_cons (hb : b.rest = group n 0 :: tail)
      have hc := group_lt n hk
      refine ⟨nn <<< 7 ||| (group n 0).toUInt64, b', ?_, hRest, hData, ?_⟩
      · simp [pnLoop, hGet, UInt8.lt_iff_toNat_lt, hc]
      · rw [toNat_shiftIn nn hc, toNat_group n hk]
        simp
  | succ k ih =>
      intro fuel nn b tail hk hFuel hb
      obtain ⟨fuel, rfl⟩ : ∃ m, fuel = m + 1 := ⟨fuel - 1, by omega⟩
      obtain ⟨b₁, hGet, hRest, hData⟩ := get8Nothrow_cons
        (hb : b.rest = (group n (k + 1) ||| 0x80) :: (putPNTail n k ++ tail))
      have hc := group_lt n hk
      obtain ⟨v, b', hLoop, hRest', hData', hv⟩ :=
        ih fuel (nn <<< 7 ||| (group n (k + 1)).toUInt64) b₁ tail (by omega) (by omega) hRest
      refine ⟨v, b', ?_, hRest', hData'.trans hData, ?_⟩
      · simp only [pnLoop, hGet, not_marked_lt, if_false, marked_and _ hc, hLoop]
      · rw [hv, toNat_shiftIn nn hc, toNat_group n hk]
        -- group `k + 1` is the digit above the groups `k … 0`
        have hPow : 2 ^ (7 * (k + 1 + 1)) = 2 ^ (7 * (k + 1)) * 128 := by
          rw [show 7 * (k + 1 + 1) = 7 * (k + 1) + 7 by omega, Nat.pow_add]
        have hSum : (nn.toNat * 128 + n.toNat / 2 ^ (7 * (k + 1)) % 128) * 2 ^ (7 * (k + 1)) +
            n.toNat % 2 ^ (7 * (k + 1)) = nn.toNat * (2 ^ (7 * (k + 1)) * 128) +
              (n.toNat % 2 ^ (7 * (k + 1)) +
                2 ^ (7 * (k + 1)) * (n.toNat / 2 ^ (7 * (k + 1)) % 128)) := by
          ring
        rw [hPow, Nat.mod_mul, Nat.add_mod, Nat.mod_mul_mod, ← Nat.add_mod, hSum]

/-- The skipped groups are zero, so what is written is the whole number. -/
theorem pnLoop_putPNFrom (n : UInt64) (k : Nat) :
    ∀ (fuel : Nat) (b : InBuffer) (tail : Bytes), k ≤ 9 →
      (putPNFrom n k).length ≤ fuel → n.toNat < 2 ^ (7 * (k + 1)) →
      b.rest = putPNFrom n k ++ tail →
      ∃ b', pnLoop fuel 0 b = (some n, b') ∧ b'.rest = tail ∧ b'.mData = b.mData := by
  have whole : ∀ (k fuel : Nat) (b : InBuffer) (tail : Bytes), k ≤ 9 →
      (putPNTail n k).length ≤ fuel → n.toNat < 2 ^ (7 * (k + 1)) →
      b.rest = putPNTail n k ++ tail →
      ∃ b', pnLoop fuel 0 b = (some n, b') ∧ b'.rest = tail ∧ b'.mData = b.mData := by
    intro k fuel b tail hk hFuel hn hb
    rw [length_putPNTail] at hFuel
    obtain ⟨v, b', hLoop, hRest, hData, hv⟩ := pnLoop_putPNTail n k fuel 0 b tail hk hFuel hb
    rw [Nat.mod_eq_of_lt hn, UInt64.toNat_zero, Nat.zero_mul, Nat.zero_add,
      Nat.mod_eq_of_lt n.toNat_lt] at hv
    exact ⟨b', UInt64.toNat_inj.1 hv ▸ hLoop, hRest, hData⟩
  induction k with
  | zero => exact fun fuel b tail => whole 0 fuel b tail
  | succ k ih =>
      intro fuel b tail hk hFuel hn hb
      by_cases hg : group n (k + 1) ≠ 0
      · rw [putPNFrom, if_pos hg] at hb hFuel
        exact whole (k + 1) fuel b tail hk hFuel hn hb
      · rw [putPNFrom, if_neg hg] at hb hFuel
        refine ih fuel b tail (by omega) hFuel ?_ hb
        have h0 : n.toNat / 2 ^ (7 * (k + 1)) % 128 = 0 := by
          rw [← toNat_group n hk, not_not.1 hg]; rfl
        have hLt : n.toNat / 2 ^ (7 * (k + 1)) < 128 := by
          apply Nat.div_lt_of_lt_mul
          rwa [show 7 * (k + 1 + 1) = 7 * (k + 1) + 7 by omega, Nat.pow_add] at hn
        rw [Nat.mod_eq_of_lt hLt] at h0
        exact (Nat.div_eq_zero_iff_lt (Nat.two_pow_pos _)).1 h0

end InBuffer

/-- A packed number is marked bytes followed by one that is not marked. -/
theorem putPN_marked (n : UInt64) :
    ∃ marked last, putPN n = marked ++ [last] ∧ ∀ c ∈ marked, ¬ c < 0x80 := by
  have hTail : ∀ k, ∃ marked last, putPNTail n k = marked ++ [last] ∧
      ∀ c ∈ marked, ¬ c < 0x80 := by
    intro k
    induction k with
    | zero => exact ⟨[], group n 0, rfl, by simp⟩
    | succ k ih =>
        obtain ⟨marked, last, hEq, hMarked⟩ := ih
        refine ⟨(group n (k + 1) ||| 0x80) :: marked, last, by simp [putPNTail, hEq], ?_⟩
        intro c hc
        rcases List.mem_cons.1 hc with rfl | hc
        · exact not_marked_lt _
        · exact hMarked c hc
  have hFrom : ∀ k, ∃ j, putPNFrom n k = putPNTail n j := by
    intro k
    induction k with
    | zero => exact ⟨0, rfl⟩
    | succ k ih =>
        by_cases hg : group n (k + 1) ≠ 0
        · exact ⟨k + 1, by rw [putPNFrom, if_pos hg]⟩
        · obtain ⟨j, hj⟩ := ih
          exact ⟨j, by rw [putPNFrom, if_neg hg, hj]⟩
  obtain ⟨j, hj⟩ := hFrom 9
  obtain ⟨marked, last, hEq, hMarked⟩ := hTail j
  exact ⟨marked, last, hj.trans hEq, hMarked⟩

theorem putPN_ne_nil (n : UInt64) : putPN n ≠ [] := by
  obtain ⟨marked, last, hEq, -⟩ := putPN_marked n
  simp [hEq]

namespace InBuffer

/-- Marked bytes alone are not a number. -/
theorem pnLoop_marked :
    ∀ (fuel : Nat) (nn : UInt64) (b : InBuffer), (∀ c ∈ b.rest, ¬ c < 0x80) →
      ∃ b', pnLoop fuel nn b = (none, b') := by
  intro fuel
  induction fuel with
  | zero => exact fun nn b _ => ⟨b, rfl⟩
  | succ fuel ih =>
      intro nn b hb
      cases hRest : b.rest with
      | nil => exact ⟨b, by simp only [pnLoop, get8Nothrow_nil hRest]⟩
      | cons c tail =>
          obtain ⟨b₁, hGet, hTail, -⟩ := get8Nothrow_cons hRest
          rw [hRest] at hb
          obtain ⟨b', hLoop⟩ := ih (nn <<< 7 ||| (c &&& 0x7F).toUInt64) b₁
            (fun d hd => hb d (by simp [← hTail, hd]))
          exact ⟨b', by simp only [pnLoop, hGet, hb c (by simp), if_false, hLoop]⟩

/-- **Packed numbers round trip.** -/
theorem getPNNothrow_putPN {b : InBuffer} {n : UInt64} {tail : Bytes}
    (h : b.rest = putPN n ++ tail) :
    ∃ b', b.getPNNothrow = (some n, b') ∧ b'.rest = tail ∧ b'.mData = b.mData := by
  refine pnLoop_putPNFrom n 9 (b.remains + 1) b tail (Nat.le_refl 9) ?_ ?_ h
  · rw [← length_rest, h, List.length_append, putPN]
    omega
  · exact Nat.lt_trans n.toNat_lt (by decide)

/-- A proper prefix of a packed number is not read. -/
theorem getPNNothrow_short {b : InBuffer} {n : UInt64} (hPre : b.rest <+: putPN n)
    (hLen : b.rest.length < (putPN n).length) : ∃ b', b.getPNNothrow = (none, b') := by
  obtain ⟨marked, last, hEq, hMarked⟩ := putPN_marked n
  rw [hEq] at hPre hLen
  have hInit : b.rest <+: marked := by
    refine List.prefix_of_prefix_length_le hPre (List.prefix_append _ _) ?_
    rw [List.length_append, List.length_singleton] at hLen
    omega
  exact pnLoop_marked _ 0 b fun c hc => hMarked c (hInit.subset hc)

end InBuffer

/-! ## The throwing readers -/

/-- A reader that throws: `operator>>` and its helpers. -/
abbrev Reader := StateT InBuffer (Except CommonError)

def get8 : Reader UInt8 := fun b =>
  match b.get8Nothrow with
  | (some c, b) => .ok (c, b)
  | (none, _) => .error ⟨"inBuffer::get_8: noenough "⟩

/-- The loop of `get_PN`, with the number of iterations bounded. -/
def getPNLoop : Nat → UInt64 → Reader UInt64
  | 0, _ => throw ⟨"inBuffer::get_8: noenough "⟩
  | fuel + 1, nn => do
      let c ← get8
      if c < 0x80 then return nn <<< 7 ||| c.toUInt64
      else getPNLoop fuel (nn <<< 7 ||| (c &&& 0x7F).toUInt64)

def getPN : Reader UInt64 := fun b => getPNLoop (b.remains + 1) 0 b

/-- What `unpack(std::string&, int64_t)` throws. `remains()` is printed as an `int`, and
`_DMI()` is empty without `MUTEX_INSPECTOR_DEBUG`. -/
def tooSmall (size remains : UInt64) : CommonError :=
  ⟨"inBuffer unpack:  buffer size to small sz=" ++ toString size.toInt64.toInt ++ " remains=" ++
    toString remains.toUInt32.toInt32.toInt ++ " "⟩

/-- What `unpack(uint8_t*, size_t)` throws. -/
def notEnough : CommonError := ⟨"unpack error not enough "⟩

/-- `unpack_nothrow`, with what is thrown when the buffer is too short. -/
def unpackOr (error : InBuffer → CommonError) (size : UInt64) : Reader Bytes := fun b =>
  match b.unpackNothrow size with
  | (some s, b) => .ok (s, b)
  | (none, b) => .error (error b)

/-- `unpack(std::string&, int64_t)`. -/
def unpack (size : UInt64) : Reader Bytes :=
  unpackOr (fun b => tooSmall size (UInt64.ofNat b.remains)) size

/-- `unpack(uint8_t*, size_t)`. -/
def unpackInto (size : UInt64) : Reader Bytes := unpackOr (fun _ => notEnough) size

def getPSTR : Reader Bytes := do
  let sz ← getPN
  unpack sz

/-- `operator>> (inBuffer&, REF_getter<refbuffer>&)`: a zero size leaves the
new refbuffer without bytes. -/
def getRefbuffer : Reader Bytes := do
  let size ← getPN
  if size ≠ 0 then unpackInto size else return []

/-- `p` reads exactly the bytes `enc`, whatever follows them, as `x`. -/
def Reads {α : Type} (p : Reader α) (enc : Bytes) (x : α) : Prop :=
  ∀ (b : InBuffer) (tail : Bytes), b.rest = enc ++ tail →
    ∃ b', p b = .ok (x, b') ∧ b'.rest = tail

theorem Reads.pure {α : Type} (x : α) : Reads (pure x) [] x :=
  fun b _ h => ⟨b, rfl, h⟩

theorem Reads.bind {α β : Type} {p : Reader α} {f : α → Reader β} {enc enc' : Bytes}
    {x : α} {y : β} (hp : Reads p enc x) (hf : Reads (f x) enc' y) :
    Reads (p >>= f) (enc ++ enc') y := by
  intro b tail hb
  rw [List.append_assoc] at hb
  obtain ⟨b₁, hRun, hRest⟩ := hp b _ hb
  obtain ⟨b₂, hRun', hRest'⟩ := hf b₁ _ hRest
  refine ⟨b₂, ?_, hRest'⟩
  show (p b).bind (fun r => f r.1 r.2) = _
  rw [hRun]
  exact hRun'

theorem Reads.map {α β : Type} {p : Reader α} {enc : Bytes} {x : α} (hp : Reads p enc x)
    (g : α → β) : Reads (do return g (← p)) enc (g x) := by
  rw [← List.append_nil enc]
  exact hp.bind (Reads.pure (g x))

/-- `p` reads `x` from a buffer that holds exactly `enc`, and may leave some of
it. -/
def Front {α : Type} (p : Reader α) (enc : Bytes) (x : α) : Prop :=
  ∀ b : InBuffer, b.rest = enc → ∃ b', p b = .ok (x, b')

theorem Reads.front {α : Type} {p : Reader α} {enc : Bytes} {x : α} (hp : Reads p enc x)
    (left : Bytes) : Front p (enc ++ left) x := by
  intro b hb
  obtain ⟨b', hRun, -⟩ := hp b left hb
  exact ⟨b', hRun⟩

theorem Reads.bindFront {α β : Type} {p : Reader α} {f : α → Reader β} {enc enc' : Bytes}
    {x : α} {y : β} (hp : Reads p enc x) (hf : Front (f x) enc' y) :
    Front (p >>= f) (enc ++ enc') y := by
  intro b hb
  obtain ⟨b₁, hRun, hRest⟩ := hp b enc' hb
  obtain ⟨b₂, hRun'⟩ := hf b₁ hRest
  refine ⟨b₂, ?_⟩
  show (p b).bind (fun r => f r.1 r.2) = _
  rw [hRun]
  exact hRun'

theorem Front.map {α β : Type} {p : Reader α} {enc : Bytes} {x : α} (hp : Front p enc x)
    (g : α → β) : Front (do return g (← p)) enc (g x) := by
  intro b hb
  obtain ⟨b', hRun⟩ := hp b hb
  refine ⟨b', ?_⟩
  show (p b).bind (fun r => .ok (g r.1, r.2)) = _
  rw [hRun]
  rfl

/-- The throwing loop throws exactly where the other one gives up. -/
theorem getPNLoop_eq :
    ∀ (fuel : Nat) (nn : UInt64) (b : InBuffer),
      getPNLoop fuel nn b = match InBuffer.pnLoop fuel nn b with
        | (some n, b') => .ok (n, b')
        | (none, _) => .error ⟨"inBuffer::get_8: noenough "⟩ := by
  intro fuel
  induction fuel with
  | zero => intro nn b; rfl
  | succ fuel ih =>
      intro nn b
      show (get8 b).bind _ = _
      rcases hGet : b.get8Nothrow with ⟨_ | c, b₁⟩
      · simp [get8, InBuffer.pnLoop, hGet, Except.bind]
      · by_cases hc : c < 0x80
        · simp [get8, InBuffer.pnLoop, hGet, hc, Except.bind]
          rfl
        · simpa [get8, InBuffer.pnLoop, hGet, hc, Except.bind] using ih _ b₁

theorem reads_getPN (n : UInt64) : Reads getPN (putPN n) n := by
  intro b tail hb
  obtain ⟨b', hGet, hRest, -⟩ := InBuffer.getPNNothrow_putPN hb
  refine ⟨b', ?_, hRest⟩
  rw [getPN, getPNLoop_eq]
  rw [InBuffer.getPNNothrow] at hGet
  rw [hGet]

theorem reads_unpackOr (error : InBuffer → CommonError) {s : Bytes} {size : UInt64}
    (hSize : s.length = size.toNat) : Reads (unpackOr error size) s s := by
  intro b tail hb
  obtain ⟨b', hGet, hRest, -⟩ := InBuffer.unpackNothrow_append hb hSize
  exact ⟨b', by rw [unpackOr, hGet], hRest⟩

theorem reads_getPSTR {s : Bytes} (hFits : s.length < 2 ^ 64) :
    Reads getPSTR (putPSTR s) s :=
  (reads_getPN _).bind (reads_unpackOr _ (UInt64.toNat_ofNat_of_lt' hFits).symm)

theorem reads_getRefbuffer {s : Bytes} (hFits : s.length < 2 ^ 64) :
    Reads getRefbuffer (putRefbuffer (some s)) s := by
  refine (reads_getPN _).bind ?_
  have hLen : (UInt64.ofNat s.length).toNat = s.length := UInt64.toNat_ofNat_of_lt' hFits
  by_cases h0 : UInt64.ofNat s.length ≠ 0
  · rw [if_pos h0]
    exact reads_unpackOr _ hLen.symm
  · rw [not_not] at h0
    have : s = [] := by
      rw [← List.length_eq_zero_iff, ← hLen, h0]; rfl
    subst this
    exact Reads.pure []

end Megatron.Corelib
