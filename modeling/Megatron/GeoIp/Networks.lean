import Megatron.Corelib.Address
import Megatron.Http.Numerals
import Megatron.Lib.BitString

/-!
# The networks of the GeoIP table

`CapsGeoIP::getIpRange` reads a network in the notation `address/prefix` and
gives its first and its last address, `setBits` with zeros and with ones behind
the prefix.  Addresses are byte strings of 4 or 16 bytes.

## Main results

* `setBits_filled` — what the loop of `setBits` leaves.
* `getIpRange_ordered` — a range has two addresses of one length, in order.
* `getIpRange_block` — the range of a network is its block.
-/

namespace Megatron.GeoIp

open Megatron.Corelib (Bytes Inet cStr cStr_of_noNul)
open Megatron.Http
open Megatron.Lib

/-! ## `setBits` -/

/-- One round of the loop of `setBits`. -/
def setBit (value : Bool) (ip : Bytes) (i : Nat) : Bytes :=
  let nbyte := i / 8
  let nbit := i % 8
  ip.modify nbyte fun b =>
    if value then b ||| UInt8.ofNat (1 <<< (7 - nbit)) else b &&& ~~~UInt8.ofNat (1 <<< (7 - nbit))

/-- `CapsGeoIP::setBits`: every bit from `netmask` on becomes `value`. -/
def setBits (ip : Bytes) (netmask : Nat) (value : Bool) : Bytes :=
  (List.range' netmask (ip.length * 8 - netmask)).foldl (setBit value) ip

@[simp] theorem length_setBit (value : Bool) (ip : Bytes) (i : Nat) :
    (setBit value ip i).length = ip.length := by
  simp [setBit]

/-- The bit of the mask is set or cleared, the other bits of the byte stay. -/
theorem testBit_masked (value : Bool) (b : UInt8) {k m : Nat} (hk : k < 8) (hm : m < 8) :
    (if value then b ||| UInt8.ofNat (1 <<< k)
      else b &&& ~~~UInt8.ofNat (1 <<< k)).toNat.testBit m =
      if m = k then value else b.toNat.testBit m := by
  have hMask : (UInt8.ofNat (1 <<< k)).toNat = 2 ^ k := by
    rw [UInt8.toNat_ofNat', Nat.one_shiftLeft]
    exact Nat.mod_eq_of_lt (Nat.pow_lt_pow_right (by decide) hk)
  cases value with
  | true =>
      simp only [if_true, UInt8.toNat_or, Nat.testBit_or, hMask, Nat.testBit_two_pow]
      by_cases hSame : m = k
      · simp [hSame]
      · simp [hSame, Ne.symm hSame]
  | false =>
      have hNot : (~~~UInt8.ofNat (1 <<< k)).toNat.testBit m =
          !(UInt8.ofNat (1 <<< k)).toNat.testBit m :=
        BitVec.getLsbD_not.trans (by simp [hm]; rfl)
      simp only [Bool.false_eq_true, if_false, UInt8.toNat_and, Nat.testBit_and, hNot, hMask,
        Nat.testBit_two_pow]
      by_cases hSame : m = k
      · simp [hSame]
      · simp [hSame, Ne.symm hSame]

theorem bit_setBit (value : Bool) {ip : Bytes} {i : Nat} (hi : i < 8 * ip.length) (j : Nat) :
    bit (setBit value ip i) j = if j = i then value else bit ip j := by
  unfold bit setBit
  rw [List.getD_eq_getElem?_getD, List.getElem?_modify]
  by_cases hByte : i / 8 = j / 8
  · have hIn : j / 8 < ip.length := by omega
    have hMasked := testBit_masked value ip[j / 8] (k := 7 - i % 8) (m := 7 - j % 8)
      (by omega) (by omega)
    have hSame : 7 - j % 8 = 7 - i % 8 ↔ j = i := by omega
    simp only [hByte, if_true, List.getElem?_eq_getElem hIn, Option.map_eq_map, Option.map_some,
      Option.getD_some, List.getD_eq_getElem?_getD, hMasked, hSame]
  · have hOther : j ≠ i := by
      rintro rfl
      exact hByte rfl
    simp [hByte, hOther]

/-- The loop of `setBits` after `n` rounds. -/
theorem bit_rounds (value : Bool) {ip : Bytes} {netmask : Nat} (n : Nat)
    (hn : netmask + n ≤ 8 * ip.length) :
    ((List.range' netmask n).foldl (setBit value) ip).length = ip.length ∧
      ∀ j, bit ((List.range' netmask n).foldl (setBit value) ip) j =
        if netmask ≤ j ∧ j < netmask + n then value else bit ip j := by
  induction n with
  | zero =>
      refine ⟨rfl, fun j => ?_⟩
      rw [if_neg (by omega)]
      rfl
  | succ n ih =>
      obtain ⟨hLength, hBits⟩ := ih (by omega)
      rw [List.range'_1_concat, List.foldl_append, List.foldl_cons, List.foldl_nil]
      refine ⟨by rw [length_setBit, hLength], fun j => ?_⟩
      rw [bit_setBit value (by omega), hBits j]
      by_cases hLast : j = netmask + n
      · rw [if_pos hLast, if_pos (by omega)]
      · rw [if_neg hLast]
        by_cases hIn : netmask ≤ j ∧ j < netmask + n
        · rw [if_pos hIn, if_pos (by omega)]
        · rw [if_neg hIn, if_neg (by omega)]

theorem setBits_filled (ip : Bytes) (netmask : Nat) (value : Bool) :
    Filled value netmask ip (setBits ip netmask value) := by
  rcases Nat.lt_or_ge (8 * ip.length) netmask with hOut | hIn
  · -- a prefix longer than the address leaves it as it is
    have hNone : setBits ip netmask value = ip := by
      rw [setBits, Nat.sub_eq_zero_of_le (by omega)]
      rfl
    rw [hNone]
    exact ⟨rfl, fun i hi => by rw [if_pos (by omega)]⟩
  · obtain ⟨hLength, hBits⟩ := bit_rounds value (ip.length * 8 - netmask)
      (show netmask + (ip.length * 8 - netmask) ≤ 8 * ip.length by omega)
    refine ⟨hLength, fun i hi => ?_⟩
    rw [setBits, hBits i]
    by_cases hBehind : i < netmask
    · rw [if_neg (by omega), if_pos hBehind]
    · rw [if_pos (by omega), if_neg hBehind]

/-! ## Texts -/

section

-- Where `inet_pton` fails, `addr` is what is on the stack.
variable (net : Inet) (stack : Vector UInt8 16)

/-- `(unsigned char) atoi(s)`. -/
def octet (s : Bytes) : UInt8 := UInt8.ofInt (atoi s)

/-- `CapsGeoIP::getIpBin`, which `getIpRange` repeats; `none` where the code
reads behind the end of `vi`. -/
def getIpBin (ip : Bytes) (isV4 : Bool) : Option Bytes :=
  if isV4 then
    match splitString (text ".") ip with
    | a :: b :: c :: d :: _ => some [octet a, octet b, octet c, octet d]
    | _ => none
  else some ((net.pton (cStr ip)).getD stack).toList

/-- `CapsGeoIP::getIpRange`; `none` where the code reads behind the end of a
vector, and where `setBits` writes in front of the address, which it does from
-8 down. -/
def getIpRange (ipmask : Bytes) (isV4 : Bool) : Option (Bytes × Bytes) :=
  match splitString (text "/") ipmask with
  | ip :: m :: _ =>
      let mask := atoi m
      (getIpBin net stack ip isV4).bind fun ipBin =>
        if mask < -7 then none
        -- in a round from -7 to -1 the bit is above the byte, which stays as it is
        else some (setBits ipBin mask.toNat false, setBits ipBin mask.toNat true)
  | _ => none

/-- The length of the addresses of a family. -/
def addrLength (isV4 : Bool) : Nat := if isV4 then 4 else 16

variable {net stack} {isV4 : Bool}

theorem length_getIpBin {ip a : Bytes} (h : getIpBin net stack ip isV4 = some a) :
    a.length = addrLength isV4 := by
  unfold getIpBin at h
  cases isV4 with
  | true =>
      simp only [if_true] at h
      split at h
      · cases h
        rfl
      · cases h
  | false =>
      simp only [Bool.false_eq_true, if_false, Option.some.injEq] at h
      rw [← h, Vector.length_toList]
      rfl

/-- What a range is made of. -/
theorem getIpRange_cases {ipmask b e : Bytes}
    (h : getIpRange net stack ipmask isV4 = some (b, e)) :
    ∃ a mask, a.length = addrLength isV4 ∧ b = setBits a mask false ∧ e = setBits a mask true := by
  unfold getIpRange at h
  split at h
  · obtain ⟨a, hAddr, hRange⟩ := Option.bind_eq_some_iff.1 h
    split at hRange
    · cases hRange
    · simp only [Option.some.injEq, Prod.mk.injEq] at hRange
      exact ⟨a, _, length_getIpBin hAddr, hRange.1.symm, hRange.2.symm⟩
  · cases h

theorem getIpRange_ordered {ipmask b e : Bytes}
    (h : getIpRange net stack ipmask isV4 = some (b, e)) :
    b.length = addrLength isV4 ∧ e.length = addrLength isV4 ∧ b ≤ e := by
  obtain ⟨a, mask, hLength, rfl, rfl⟩ := getIpRange_cases h
  have hBegin := setBits_filled a mask false
  have hEnd := setBits_filled a mask true
  exact ⟨hBegin.length_eq.trans hLength, hEnd.length_eq.trans hLength, hBegin.le hEnd⟩

/-- The texts of an address: four decimal numbers, or what `inet_pton` reads. -/
inductive AddrText (net : Inet) : Bool → Bytes → Bytes → Prop
  | v4 {s₀ s₁ s₂ s₃ : Bytes} {a₀ a₁ a₂ a₃ : UInt8} (h₀ : Numeral s₀ a₀.toNat)
      (h₁ : Numeral s₁ a₁.toNat) (h₂ : Numeral s₂ a₂.toNat) (h₃ : Numeral s₃ a₃.toNat) :
      AddrText net true (s₀ ++ 46 :: (s₁ ++ 46 :: (s₂ ++ 46 :: s₃))) [a₀, a₁, a₂, a₃]
  | v6 {s : Bytes} {a : Vector UInt8 16} (hSome : s ≠ []) (hSlash : 47 ∉ s) (hNul : 0 ∉ s)
      (hPton : net.pton s = some a) : AddrText net false s a.toList

theorem octet_numeral {s : Bytes} {a : UInt8} (h : Numeral s a.toNat) : octet s = a := by
  have hLt := a.toNat_lt
  rw [octet, h.atoi_eq (by omega)]
  rw [UInt8.ofInt, ← UInt8.toNat_inj, UInt8.toNat_ofNat']
  omega

/-- A numeral in front of a separator that is no digit is a piece. -/
theorem splitString_numeral {s t : Bytes} {n : Nat} {c : UInt8} (h : Numeral s n)
    (hc : isDigit c = false) : splitString [c] (s ++ c :: t) = s :: splitString [c] t := by
  refine splitString_append h.ne_nil (fun d hd => ?_) (List.mem_singleton_self c)
  rw [List.mem_singleton]
  rintro rfl
  exact h.notMem hc hd

theorem splitString_numeral_self {s : Bytes} {n : Nat} {c : UInt8} (h : Numeral s n)
    (hc : isDigit c = false) : splitString [c] s = [s] := by
  refine splitString_self h.ne_nil fun d hd => ?_
  rw [List.mem_singleton]
  rintro rfl
  exact h.notMem hc hd

theorem getIpBin_addrText {ip a : Bytes} (h : AddrText net isV4 ip a) :
    getIpBin net stack ip isV4 = some a := by
  cases h with
  | @v4 s₀ s₁ s₂ s₃ a₀ a₁ a₂ a₃ h₀ h₁ h₂ h₃ =>
      have hDot : isDigit 46 = false := by decide
      have hPieces : splitString (text ".") (s₀ ++ 46 :: (s₁ ++ 46 :: (s₂ ++ 46 :: s₃))) =
          [s₀, s₁, s₂, s₃] := by
        rw [show text "." = [46] by decide +kernel, splitString_numeral h₀ hDot,
          splitString_numeral h₁ hDot, splitString_numeral h₂ hDot,
          splitString_numeral_self h₃ hDot]
      simp only [getIpBin, if_true, hPieces, octet_numeral h₀, octet_numeral h₁, octet_numeral h₂,
        octet_numeral h₃]
  | @v6 _ a hSome hSlash hNul hPton =>
      have hAll : cStr ip = ip := cStr_of_noNul hNul
      simp [getIpBin, hAll, hPton]

theorem AddrText.slash_notMem {ip a : Bytes} (h : AddrText net isV4 ip a) : ip ≠ [] ∧ 47 ∉ ip := by
  cases h with
  | @v4 s₀ s₁ s₂ s₃ a₀ a₁ a₂ a₃ h₀ h₁ h₂ h₃ =>
      have hSlash : isDigit 47 = false := by decide
      simp [h₀.ne_nil, h₀.notMem hSlash, h₁.notMem hSlash, h₂.notMem hSlash, h₃.notMem hSlash]
  | v6 hSome hSlash hNul hPton => exact ⟨hSome, hSlash⟩

theorem AddrText.length_eq {ip a : Bytes} (h : AddrText net isV4 ip a) :
    a.length = addrLength isV4 := by
  have hBin : getIpBin net (Vector.replicate 16 0) ip isV4 = some a := getIpBin_addrText h
  exact length_getIpBin hBin

theorem getIpRange_text {ip a m : Bytes} {mask : Nat} (hAddr : AddrText net isV4 ip a)
    (hMask : Numeral m mask) (hLe : mask ≤ 8 * a.length) :
    getIpRange net stack (ip ++ 47 :: m) isV4 =
      some (setBits a mask false, setBits a mask true) := by
  obtain ⟨hSome, hSlash⟩ := hAddr.slash_notMem
  have hPieces : splitString (text "/") (ip ++ 47 :: m) = [ip, m] := by
    rw [show text "/" = [47] by decide +kernel,
      splitString_append hSome (fun d hd => ?_) (List.mem_singleton_self _),
      splitString_numeral_self hMask (by decide)]
    rw [List.mem_singleton]
    rintro rfl
    exact hSlash hd
  have hLength : a.length ≤ 16 := by
    rw [hAddr.length_eq]
    unfold addrLength
    split <;> omega
  simp only [getIpRange, hPieces, getIpBin_addrText hAddr, hMask.atoi_eq (by omega : mask < 2 ^ 31),
    Option.bind_some, Int.toNat_natCast]
  rw [if_neg (by omega)]

end

/-- Every address of four bytes has a text. -/
theorem exists_addrText (net : Inet) (a₀ a₁ a₂ a₃ : UInt8) :
    ∃ ip, AddrText net true ip [a₀, a₁, a₂, a₃] := by
  obtain ⟨s₀, h₀⟩ := exists_numeral a₀.toNat
  obtain ⟨s₁, h₁⟩ := exists_numeral a₁.toNat
  obtain ⟨s₂, h₂⟩ := exists_numeral a₂.toNat
  obtain ⟨s₃, h₃⟩ := exists_numeral a₃.toNat
  exact ⟨_, .v4 h₀ h₁ h₂ h₃⟩

/-- The two addresses that `setBits` gives are the ends of the block, and they
are what `getIpRange` gives for every text of the network. -/
theorem getIpRange_block (a : Bytes) (mask : Nat) (hMask : mask ≤ 8 * a.length) :
    (∀ x : Bytes, x.length = a.length →
      (setBits a mask false ≤ x ∧ x ≤ setBits a mask true ↔ Agree mask x a)) ∧
      ∀ (net : Inet) (stack : Vector UInt8 16) (isV4 : Bool) (ip m : Bytes),
        AddrText net isV4 ip a → Numeral m mask →
          getIpRange net stack (ip ++ 47 :: m) isV4 =
            some (setBits a mask false, setBits a mask true) := by
  constructor
  · intro x hLength
    exact block_iff (setBits_filled a mask false) (setBits_filled a mask true) hMask hLength
  · intro net stack isV4 ip m hAddr hNumeral
    exact getIpRange_text hAddr hNumeral hMask

theorem getIpRange_block_ten :
    20 ≤ 8 * ([10, 11, 12, 13] : Bytes).length ∧
      ([10, 11, 0, 0] ≤ ([10, 11, 3, 200] : Bytes) ∧ ([10, 11, 3, 200] : Bytes) ≤ [10, 11, 15, 255] ↔
        Agree 20 [10, 11, 3, 200] [10, 11, 12, 13]) :=
  ⟨by decide, (getIpRange_block [10, 11, 12, 13] 20 (by decide)).1 [10, 11, 3, 200] rfl⟩

end Megatron.GeoIp
