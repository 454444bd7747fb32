import Mathlib.Tactic.IntervalCases
import Megatron.Corelib.BitReading
import Megatron.Corelib.BitWriting

/-!
# Lengths in TLV

A length below 128 is one byte.  A longer one is a byte that says how many
octets follow, and these octets; `putTLVLength` writes two, three or four of
them, and `getTlvLength` reads up to four.

## Main results

* `getTlvLength_false`, `getTlvLength_true` — the two forms are read.
* `putTLVLength_puts` — they are written.
* `trips_iff`, `sound_iff_complete` — which lengths come back, and from which
  byte strings a length is read.
-/

namespace Megatron.Corelib

open Megatron.Lib
open Megatron.Lib.Bits
open Megatron.Lib.Stateful (bind_ok bind_error)

section Annotate

variable {σ α β : Type} {text : String} {p : Stateful Stop σ α} {f : α → Stateful Stop σ β}
  {s s' : σ} {x : α}

theorem annotate_ok (h : p s = (.ok x, s')) : annotate text p s = (.ok x, s') := by
  rw [annotate, h]

theorem annotate_thrown {e : CommonError} (h : p s = (.error (.thrown e), s')) :
    annotate text p s = (.error (.thrown ⟨e.what ++ text⟩), s') := by
  rw [annotate, h]

theorem annotate_outside (h : p s = (.error .outside, s')) :
    annotate text p s = (.error .outside, s') := by
  rw [annotate, h]

theorem annotate_bind_ok (h : p s = (.ok x, s')) :
    annotate text (p >>= f) s = annotate text (f x) s' := by
  rw [annotate, annotate, bind_ok h]

end Annotate

/-! ## Reading -/

namespace InBitStream

variable {s : InBitStream} {bs octets rest : List Bool}

/-- The short form. -/
theorem getTlvLength_false (h : s.Valid) (hNext : s.unread = false :: (bs ++ rest))
    (hSeven : bs.length = 7) :
    ∃ s', getTlvLength s = (.ok (UInt32.ofNat (valueOf bs)), s') ∧ s'.Valid ∧ s'.unread = rest ∧
      s'.mData = s.mData := by
  obtain ⟨hBit, hValid, hRest⟩ := getBit_cons h hNext
  have hCount : (7 : Int32).toInt.toNat = bs.length := hSeven.symm
  obtain ⟨s', hRun, hValid', hRest', hData⟩ := getBits_append hValid hRest hCount
  refine ⟨s', ?_, hValid', hRest', hData⟩
  rw [getTlvLength, annotate_bind_ok hBit]
  exact annotate_ok hRun

/-- The number of octets of the long form, and what is done with it. -/
theorem getTlvLength_long (h : s.Valid) (hNext : s.unread = true :: (bs ++ rest))
    (hSeven : bs.length = 7) :
    ∃ s', getTlvLength s = annotate "->getTlvLength"
        (if 4 < valueOf bs then throw (.thrown ⟨"if(llen>4) "⟩)
          else getBits (UInt32.ofNat (valueOf bs) * 8).toInt32) s' ∧
      s'.Valid ∧ s'.unread = rest ∧ s'.mData = s.mData := by
  obtain ⟨hBit, hValid, hRest⟩ := getBit_cons h hNext
  have hCount : (7 : Int32).toInt.toNat = bs.length := hSeven.symm
  obtain ⟨s', hRun, hValid', hRest', hData⟩ := getBits_append hValid hRest hCount
  refine ⟨s', ?_, hValid', hRest', hData⟩
  have hLt := valueOf_lt bs
  rw [hSeven] at hLt
  have hMany : UInt32.ofNat (valueOf bs) > 4 ↔ 4 < valueOf bs := by
    rw [gt_iff_lt, UInt32.lt_iff_toNat_lt, UInt32.toNat_ofNat_of_lt' (hLt.trans (by decide))]
    rfl
  rw [getTlvLength, annotate_bind_ok hBit]
  refine (annotate_bind_ok hRun).trans ?_
  by_cases hFour : 4 < valueOf bs
  · rw [if_pos (hMany.2 hFour), if_pos hFour]
    rfl
  · rw [if_neg (fun hMore => hFour (hMany.1 hMore)), if_neg hFour]

/-- More octets than four are refused. -/
theorem getTlvLength_many (h : s.Valid) (hNext : s.unread = true :: (bs ++ rest))
    (hSeven : bs.length = 7) (hMany : 4 < valueOf bs) :
    ∃ e s', getTlvLength s = (.error (.thrown e), s') ∧ s'.Valid ∧ s'.mData = s.mData := by
  obtain ⟨s', hRun, hValid, -, hData⟩ := getTlvLength_long h hNext hSeven
  rw [if_pos hMany] at hRun
  exact ⟨_, s', hRun.trans (annotate_thrown rfl), hValid, hData⟩

/-- The bits of the octets. -/
theorem toNat_octets {n : ℕ} (hn : n ≤ 4) : (UInt32.ofNat n * 8).toInt32.toInt.toNat = 8 * n := by
  interval_cases n <;> rfl

/-- The long form. -/
theorem getTlvLength_true (h : s.Valid) (hNext : s.unread = true :: (bs ++ (octets ++ rest)))
    (hSeven : bs.length = 7) (hFew : valueOf bs ≤ 4) (hOctets : octets.length = 8 * valueOf bs) :
    ∃ s', getTlvLength s = (.ok (UInt32.ofNat (valueOf octets)), s') ∧ s'.Valid ∧
      s'.unread = rest ∧ s'.mData = s.mData := by
  obtain ⟨s₁, hRun, hValid, hRest, hData⟩ := getTlvLength_long h hNext hSeven
  rw [if_neg (Nat.not_lt.2 hFew)] at hRun
  obtain ⟨s', hRun', hValid', hRest', hData'⟩ := getBits_append hValid hRest
    ((toNat_octets hFew).trans hOctets.symm)
  exact ⟨s', hRun.trans (annotate_ok hRun'), hValid', hRest', hData'.trans hData⟩

/-- The long form with octets that are not there. -/
theorem getTlvLength_cut (h : s.Valid) (hNext : s.unread = true :: (bs ++ rest))
    (hSeven : bs.length = 7) (hFew : valueOf bs ≤ 4) (hCut : rest.length < 8 * valueOf bs) :
    ∃ s', getTlvLength s = (.error .outside, s') := by
  obtain ⟨s₁, hRun, hValid, hRest, -⟩ := getTlvLength_long h hNext hSeven
  rw [if_neg (Nat.not_lt.2 hFew)] at hRun
  rw [← hRest, ← toNat_octets hFew] at hCut
  obtain ⟨s', hRun'⟩ := getBitsLoop_short _ 0 s₁ hValid hCut
  exact ⟨s', hRun.trans (annotate_outside hRun')⟩

/-- Not even eight bits. -/
theorem getTlvLength_few (h : s.Valid) (hFew : s.unread.length < 8) :
    ∃ s', getTlvLength s = (.error .outside, s') := by
  cases hNext : s.unread with
  | nil => exact ⟨s, annotate_outside (bind_error (getBit_nil h hNext))⟩
  | cons b bs =>
      obtain ⟨hBit, hValid, hRest⟩ := getBit_cons h hNext
      rw [hNext, List.length_cons] at hFew
      obtain ⟨s', hRun⟩ := getBitsLoop_short 7 0 _ hValid (hRest.symm ▸ Nat.lt_of_succ_lt_succ hFew)
      have hSeven : getBits 7 { s with mPos := s.mPos.next } = (.error .outside, s') := hRun
      refine ⟨s', ?_⟩
      rw [getTlvLength, annotate_bind_ok hBit]
      cases b with
      | false => exact annotate_outside hSeven
      | true => exact annotate_outside (bind_error hSeven)

/-! ## From any byte string -/

/-- The number that length octets denote. -/
def Denotes : Bytes → ℕ → Prop
  | [], _ => False
  | c :: octets, v =>
      if c.toNat < 128 then octets = [] ∧ v = c.toNat
      else octets.length = c.toNat - 128 ∧ v = valueOf (toBits octets)

/-- `getTlvLength` throws, or returns what the bytes it has read denote. -/
def Sound (d : Object) : Prop :=
  (∃ e s', getTlvLength (ofObject d) = (.error (.thrown e), s')) ∨
    ∃ v s', getTlvLength (ofObject d) = (.ok v, s') ∧ s'.AtBoundary ∧
      s'.mPos.pos.toNat ≤ d.val.length ∧ Denotes (d.val.take s'.mPos.pos.toNat) v.toNat

/-- There is a byte and, where it announces up to four octets, so many behind it. -/
def Complete : Bytes → Prop
  | [] => False
  | c :: octets => 128 ≤ c.toNat → c.toNat ≤ 132 → c.toNat - 128 ≤ octets.length

/-- A byte as its highest bit and the others. -/
theorem bitsOf_byte (c : UInt8) : bitsOf 8 c.toNat = c.toNat.testBit 7 :: bitsOf 7 c.toNat ∧
    (c.toNat.testBit 7 ↔ 128 ≤ c.toNat) ∧ valueOf (bitsOf 7 c.toNat) = c.toNat % 128 := by
  have hLt := c.toNat_lt
  refine ⟨rfl, ?_, valueOf_bitsOf 7 _⟩
  rw [Nat.testBit_eq_decide_div_mod_eq, decide_eq_true_iff]
  omega

/-- A read that succeeds, by what it leaves of the string. -/
theorem sound_of_ok {d : Object} {v : UInt32} {s' : InBitStream} {b tail : Bytes}
    (hRun : getTlvLength (ofObject d) = (.ok v, s')) (hs' : s'.Valid)
    (hRest : s'.unread = toBits tail) (hData : s'.mData = d.val) (hVal : d.val = b ++ tail)
    (hDenotes : Denotes b v.toNat) : Sound d := by
  obtain ⟨hEnd, hPos⟩ := hs'.pos_eq hRest
  rw [hData, hVal, List.length_append] at hPos
  have hAt : s'.mPos.pos.toNat = b.length := by omega
  refine Or.inr ⟨v, s', hRun, hEnd, ?_, ?_⟩
  · rw [hVal, hAt, List.length_append]
    exact Nat.le_add_right _ _
  · rw [hVal, hAt, List.take_left]
    exact hDenotes

theorem not_sound_of_outside {d : Object} {s' : InBitStream}
    (hRun : getTlvLength (ofObject d) = (.error .outside, s')) : ¬ Sound d := by
  rintro (⟨e, s'', hThrown⟩ | ⟨v, s'', hOk, -⟩)
  · cases hRun.symm.trans hThrown
  · cases hRun.symm.trans hOk

section FirstByte

variable {d : Object} {c : UInt8} {octets : Bytes}

theorem unread_ofObject_cons (hd : d.val = c :: octets) :
    (ofObject d).unread = c.toNat.testBit 7 :: (bitsOf 7 c.toNat ++ toBits octets) := by
  have hUnread : (ofObject d).unread = toBits d.val := unread_of_boundary rfl
  rw [hUnread, hd, toBits_cons, (bitsOf_byte c).1, List.cons_append]

/-- The short form is sound. -/
theorem sound_of_short (hd : d.val = c :: octets) (hShort : c.toNat < 128) : Sound d := by
  obtain ⟨-, hTop, hLow⟩ := bitsOf_byte c
  have hBit : c.toNat.testBit 7 = false :=
    Bool.eq_false_iff.2 fun hTrue => Nat.not_le.2 hShort (hTop.1 hTrue)
  have hUnread := unread_ofObject_cons hd
  rw [hBit] at hUnread
  obtain ⟨s', hRun, hs', hRest, hData⟩ :=
    getTlvLength_false (valid_ofObject d) hUnread (length_bitsOf _ _)
  have hVal : d.val = [c] ++ octets := hd
  refine sound_of_ok hRun hs' hRest hData hVal ?_
  rw [Denotes, if_pos hShort]
  refine ⟨rfl, ?_⟩
  rw [hLow, UInt32.toNat_ofNat']
  omega

/-- The octets that the first byte of the long form announces. -/
theorem unread_long (hd : d.val = c :: octets) (hLong : 128 ≤ c.toNat) :
    (ofObject d).unread = true :: (bitsOf 7 c.toNat ++ toBits octets) ∧
      valueOf (bitsOf 7 c.toNat) = c.toNat - 128 := by
  obtain ⟨-, hTop, hLow⟩ := bitsOf_byte c
  have hLt := c.toNat_lt
  have hUnread := unread_ofObject_cons hd
  rw [hTop.2 hLong] at hUnread
  exact ⟨hUnread, by omega⟩

/-- With all its octets it is sound. -/
theorem sound_of_octets (hd : d.val = c :: octets) (hLong : 128 ≤ c.toNat) (hFew : c.toNat ≤ 132)
    (hThere : c.toNat - 128 ≤ octets.length) : Sound d := by
  obtain ⟨hUnread, hCount⟩ := unread_long hd hLong
  have hSplit : toBits octets = toBits (octets.take (c.toNat - 128)) ++
      toBits (octets.drop (c.toNat - 128)) := by
    rw [← toBits_append, List.take_append_drop]
  rw [hSplit] at hUnread
  have hTake : (octets.take (c.toNat - 128)).length = c.toNat - 128 := by
    rw [List.length_take, Nat.min_eq_left hThere]
  obtain ⟨s', hRun, hs', hRest, hData⟩ :=
    getTlvLength_true (valid_ofObject d) hUnread (length_bitsOf _ _) (by omega)
      (by rw [length_toBits, hTake, hCount])
  have hVal : d.val = (c :: octets.take (c.toNat - 128)) ++ octets.drop (c.toNat - 128) := by
    rw [hd, List.cons_append, List.take_append_drop]
  refine sound_of_ok hRun hs' hRest hData hVal ?_
  rw [Denotes, if_neg (Nat.not_lt.2 hLong)]
  refine ⟨hTake, ?_⟩
  have hValue := valueOf_lt (toBits (octets.take (c.toNat - 128)))
  rw [length_toBits, hTake] at hValue
  exact UInt32.toNat_ofNat_of_lt'
    (hValue.trans_le (Nat.pow_le_pow_right (by decide) (by omega : _ ≤ 32)))

/-- With some of them missing it is not. -/
theorem not_sound_of_cut (hd : d.val = c :: octets) (hLong : 128 ≤ c.toNat) (hFew : c.toNat ≤ 132)
    (hCut : octets.length < c.toNat - 128) : ¬ Sound d := by
  obtain ⟨hUnread, hCount⟩ := unread_long hd hLong
  obtain ⟨s', hRun⟩ := getTlvLength_cut (valid_ofObject d) hUnread (length_bitsOf _ _) (by omega)
    (by rw [length_toBits, hCount]; omega)
  exact not_sound_of_outside hRun

/-- More than four are refused. -/
theorem sound_of_many (hd : d.val = c :: octets) (hMany : 132 < c.toNat) : Sound d := by
  obtain ⟨hUnread, hCount⟩ := unread_long hd (by omega)
  obtain ⟨e, s', hRun, -⟩ :=
    getTlvLength_many (valid_ofObject d) hUnread (length_bitsOf _ _) (by omega)
  exact Or.inl ⟨e, s', hRun⟩

end FirstByte

theorem sound_iff_complete (d : Object) : Sound d ↔ Complete d.val := by
  cases hd : d.val with
  | nil =>
      have hUnread : (ofObject d).unread = toBits d.val := unread_of_boundary rfl
      rw [hd] at hUnread
      obtain ⟨s', hRun⟩ := getTlvLength_few (valid_ofObject d) (hUnread.symm ▸ Nat.succ_pos 7)
      exact iff_of_false (not_sound_of_outside hRun) id
  | cons c octets =>
      by_cases hShort : c.toNat < 128
      · exact iff_of_true (sound_of_short hd hShort) fun hLong => absurd hShort (Nat.not_lt.2 hLong)
      · have hLong := Nat.not_lt.1 hShort
        by_cases hFew : c.toNat ≤ 132
        · by_cases hThere : c.toNat - 128 ≤ octets.length
          · exact iff_of_true (sound_of_octets hd hLong hFew hThere) fun _ _ => hThere
          · exact iff_of_false (not_sound_of_cut hd hLong hFew (Nat.not_le.1 hThere))
              fun hAll => hThere (hAll hLong hFew)
        · exact iff_of_true (sound_of_many hd (Nat.not_le.1 hFew)) fun _ hFour => absurd hFour hFew

end InBitStream

/-! ## Writing -/

namespace OutBitStream

variable {o : OutBitStream} {old : Block UInt8} {full : Bytes} {part bs bs' : List Bool}
  {w w' : BitOut Unit}

/-- From `o` the bits are put behind those that are there, or the operation
throws, which takes a `realloc` that may fail. -/
def Puts (w : BitOut Unit) (o : OutBitStream) (old : Block UInt8) (full : Bytes)
    (part bs : List Bool) : Prop :=
  (¬ o.Granted ∧ ∃ e o', w o = (.error (.thrown e), o')) ∨
    ∃ o' full' part', w o = (.ok (), o') ∧ (o.Granted → o'.Granted) ∧ o'.Holds old full' part' ∧
      toBits full' ++ part' = toBits full ++ part ++ bs

/-- One after the other. -/
theorem Puts.bind (h : Puts w o old full part bs)
    (h' : ∀ o' full' part', o'.Holds old full' part' →
      8 * full'.length + part'.length = 8 * full.length + part.length + bs.length →
      Puts w' o' old full' part' bs') :
    Puts (do w; w') o old full part (bs ++ bs') := by
  rcases h with ⟨hNot, e, o₁, hRun⟩ | ⟨o₁, full₁, part₁, hRun, hKept, hHolds, hBits⟩
  · exact Or.inl ⟨hNot, e, o₁, bind_error hRun⟩
  · rcases h' o₁ full₁ part₁ hHolds (Holds.length_eq hBits) with
      ⟨hNot, e, o₂, hRun'⟩ | ⟨o₂, full₂, part₂, hRun', hKept', hHolds', hBits'⟩
    · exact Or.inl ⟨fun hGranted => hNot (hKept hGranted), e, o₂, (bind_ok hRun).trans hRun'⟩
    · refine Or.inr ⟨o₂, full₂, part₂, (bind_ok hRun).trans hRun',
        fun hGranted => hKept' (hKept hGranted), hHolds', ?_⟩
      rw [hBits', hBits, List.append_assoc _ bs]

/-- With a text for the exception. -/
theorem Puts.annotate {text : String} (h : Puts w o old full part bs) :
    Puts (Corelib.annotate text w) o old full part bs := by
  rcases h with ⟨hNot, e, o', hRun⟩ | ⟨o', full', part', hRun, hRest⟩
  · exact Or.inl ⟨hNot, _, o', annotate_thrown hRun⟩
  · exact Or.inr ⟨o', full', part', annotate_ok hRun, hRest⟩

/-- **`put_bits`** puts a field that does not reach beyond the bytes for which
it makes room and the next. -/
theorem puts_putBits (h : o.Holds old full part) (val : UInt32) {bitcount : Int32} {n : ℕ}
    (hCount : bitcount.toInt = n) (hn : n ≤ 32)
    (hFits : part.length + n ≤ 8 * (n / 8 + 1))
    (hRoomy : old.length + full.length + 4 + 1024 < 2 ^ 64) :
    Puts (putBits val bitcount) o old full part (bitsOf n val.toNat) := by
  have hNonneg : 0 ≤ bitcount.toInt := hCount.symm ▸ Int.natCast_nonneg n
  have hWidth : bitcount.toInt.toNat = n := hCount.symm ▸ Int.toNat_natCast n
  have hBytes := toNat_bytes hNonneg
  have hPos := h.pos_eq
  have hRoom : o.Roomy (bitcount.toInt.toNat / 8) := by
    rw [Roomy]
    omega
  have hBound := lt_bufsize_adjusted hRoom hBytes
  have hRem := h.rem_eq
  have hPart := h.part_lt
  rcases adjust_cases o (UInt64.ofInt (bitcount.toInt.tdiv 8)) with hAdjust | ⟨hHead, e, o', hThrown⟩
  · obtain ⟨o', full', part', hRun, hHolds, hBits, -, hAnswers⟩ :=
      h.putBits val hNonneg hRoom hAdjust (by omega)
    rw [hWidth, loopBits_eq val hn] at hBits
    refine Or.inr ⟨o', full', part', hRun, fun hGranted => ?_, hHolds, hBits⟩
    rw [Granted, hAnswers]
    exact hGranted.adjusted _
  · refine Or.inl ⟨fun hGranted => hGranted (List.mem_of_mem_head? hHead), e, o', ?_⟩
    have hNot : ¬ o.mPos.bitsRemainsInByte = 0 := by
      intro hZero
      rw [hZero] at hRem
      have hNone : (0 : UInt64).toNat = 0 := rfl
      omega
    rw [putBits, if_neg hNot, bind_error hThrown]

/-- The octets of the long form that are written. -/
def octetsOf (len : UInt64) : ℕ := if len < 0x10000 then 2 else if len < 0x1000000 then 3 else 4

/-- The bits of the two forms. -/
def lengthBits (len : UInt64) : List Bool :=
  if len < 128 then bitsOf 1 0 ++ bitsOf 7 len.toUInt32.toNat
  else bitsOf 1 1 ++ (bitsOf 7 (octetsOf len) ++ bitsOf (8 * octetsOf len) len.toUInt32.toNat)

/-- One form of some octets. -/
theorem puts_long (h : o.Holds old [] []) (hRoomy : old.length + 5 + 1024 < 2 ^ 64) (val : UInt32)
    {count : UInt32} {k : ℕ} {bitcount : Int32} (hk : k ≤ 4) (hCount : count.toNat = k)
    (hBits : bitcount.toInt = (8 * k : ℕ)) :
    Puts (do putBits 1 1; putBits count 7; putBits val bitcount) o old [] []
      (bitsOf 1 1 ++ (bitsOf 7 k ++ bitsOf (8 * k) val.toNat)) := by
  refine Puts.bind (puts_putBits (n := 1) h 1 rfl (by decide) (by decide)
    (by rw [List.length_nil]; omega)) fun o₁ full₁ part₁ h₁ hLength₁ => ?_
  rw [List.length_nil, List.length_nil, length_bitsOf] at hLength₁
  refine Puts.bind (hCount ▸ puts_putBits (n := 7) h₁ count rfl (by decide) (by omega) (by omega))
    fun o₂ full₂ part₂ h₂ hLength₂ => ?_
  rw [length_bitsOf] at hLength₂
  exact puts_putBits (n := 8 * k) h₂ val hBits (by omega) (by omega) (by omega)

/-- **`putTLVLength`** puts the bits of its forms. -/
theorem putTLVLength_puts (h : o.Holds old [] []) (hRoomy : old.length + 5 + 1024 < 2 ^ 64)
    (len : UInt64) : Puts (putTLVLength len) o old [] [] (lengthBits len) := by
  have hStart : o.AtBoundary := UInt64.toNat_inj.1 h.rem_eq
  have hRun : putTLVLength len o = Corelib.annotate "->outBitStream::putTLVLength" (
      if len < 128 then do
        putBits 0 1
        putBits len.toUInt32 7
      else do
        putBits 1 1
        if len < 0x10000 then do
          putBits 2 7
          putBits len.toUInt32 16
        else if len < 0x1000000 then do
          putBits 3 7
          putBits len.toUInt32 24
        else do
          putBits 4 7
          putBits len.toUInt32 32) o := by
    rw [putTLVLength, bind_ok (boundary_eq hStart)]
  rw [Puts, hRun, lengthBits, octetsOf]
  refine Puts.annotate ?_
  by_cases hShort : len < 128
  · rw [if_pos hShort, if_pos hShort]
    refine Puts.bind (puts_putBits (n := 1) h 0 rfl (by decide) (by decide)
      (by rw [List.length_nil]; omega)) fun o₁ full₁ part₁ h₁ hLength₁ => ?_
    rw [List.length_nil, List.length_nil, length_bitsOf] at hLength₁
    exact puts_putBits (n := 7) h₁ _ rfl (by decide) (by omega) (by omega)
  · rw [if_neg hShort, if_neg hShort]
    by_cases hTwo : len < 0x10000
    · simp only [if_pos hTwo]
      exact puts_long h hRoomy _ (by decide) rfl rfl
    · by_cases hThree : len < 0x1000000
      · simp only [if_neg hTwo, if_pos hThree]
        exact puts_long h hRoomy _ (by decide) rfl rfl
      · simp only [if_neg hTwo, if_neg hThree]
        exact puts_long h hRoomy _ (by decide) rfl rfl

end OutBitStream

/-! ## Both -/

open OutBitStream in
/-- Where `putTLVLength` does not throw, `getTlvLength` returns the number from
the bytes that it has written, and takes no others. -/
def Trips (len : UInt64) : Prop :=
  ∀ o : OutBitStream, o.Proper →
    (∃ e o', putTLVLength len o = (.error (.thrown e), o')) ∨
      ∃ o' b, putTLVLength len o = (.ok (), o') ∧ o'.AtBoundary ∧ o'.written = o.written ++ b.map some ∧
        ∀ (s : InBitStream) (tail : Bytes), s.Valid → s.AtBoundary →
          s.mData.drop s.mPos.pos.toNat = b ++ tail →
          ∃ v s', InBitStream.getTlvLength s = (.ok v, s') ∧ v.toUInt64 = len ∧ s'.AtBoundary ∧
            s'.mPos.pos.toNat = s.mPos.pos.toNat + b.length

open OutBitStream in
/-- The bits of the two forms are whole bytes. -/
theorem dvd_length_lengthBits (len : UInt64) : 8 ∣ (lengthBits len).length := by
  rw [lengthBits]
  split
  · rw [List.length_append, length_bitsOf, length_bitsOf]
  · rw [List.length_append, List.length_append, length_bitsOf, length_bitsOf, length_bitsOf]
    omega

open OutBitStream in
/-- **What is written is read**, but for what does not fit into 32 bits. -/
theorem getTlvLength_lengthBits {s : InBitStream} {rest : List Bool} {len : UInt64} (h : s.Valid)
    (hNext : s.unread = lengthBits len ++ rest) :
    ∃ s', InBitStream.getTlvLength s = (.ok len.toUInt32, s') ∧ s'.Valid ∧ s'.unread = rest ∧
      s'.mData = s.mData := by
  have hLow : len.toUInt32.toNat = len.toNat % 2 ^ 32 := UInt64.toNat_toUInt32 len
  have hLt := len.toUInt32.toNat_lt
  rw [lengthBits] at hNext
  by_cases hShort : len < 128
  · have hSmall := UInt64.lt_iff_toNat_lt.1 hShort
    rw [show (128 : UInt64).toNat = 128 from rfl] at hSmall
    rw [if_pos hShort, List.append_assoc, show bitsOf 1 0 = [false] from rfl,
      List.singleton_append] at hNext
    obtain ⟨s', hRun, hRest⟩ := InBitStream.getTlvLength_false h hNext (length_bitsOf _ _)
    rw [valueOf_bitsOf_of_lt (by omega), UInt32.ofNat_toNat] at hRun
    exact ⟨s', hRun, hRest⟩
  · have hOctets : octetsOf len ≤ 4 ∧ len.toUInt32.toNat < 2 ^ (8 * octetsOf len) := by
      rw [octetsOf]
      by_cases hTwo : len < 0x10000
      · have hSmall := UInt64.lt_iff_toNat_lt.1 hTwo
        rw [show (0x10000 : UInt64).toNat = 0x10000 from rfl] at hSmall
        rw [if_pos hTwo]
        omega
      · by_cases hThree : len < 0x1000000
        · have hSmall := UInt64.lt_iff_toNat_lt.1 hThree
          rw [show (0x1000000 : UInt64).toNat = 0x1000000 from rfl] at hSmall
          rw [if_neg hTwo, if_pos hThree]
          omega
        · rw [if_neg hTwo, if_neg hThree]
          exact ⟨le_rfl, hLt⟩
    obtain ⟨hFew, hFits⟩ := hOctets
    rw [if_neg hShort, List.append_assoc, List.append_assoc, show bitsOf 1 1 = [true] from rfl,
      List.singleton_append] at hNext
    have hCount : valueOf (bitsOf 7 (octetsOf len)) = octetsOf len :=
      valueOf_bitsOf_of_lt (hFew.trans_lt (by decide))
    obtain ⟨s', hRun, hRest⟩ := InBitStream.getTlvLength_true h hNext (length_bitsOf _ _)
      (hCount.trans_le hFew) (by rw [length_bitsOf, hCount])
    rw [valueOf_bitsOf_of_lt hFits, UInt32.ofNat_toNat] at hRun
    exact ⟨s', hRun, hRest⟩

open OutBitStream in
/-- What `putTLVLength` has written where it has not thrown. -/
theorem putTLVLength_cases {o : OutBitStream} (h : o.Proper) (len : UInt64) :
    (¬ o.Granted ∧ ∃ e o', putTLVLength len o = (.error (.thrown e), o')) ∨
      ∃ o' b, putTLVLength len o = (.ok (), o') ∧ o'.AtBoundary ∧
        o'.written = o.written ++ b.map some ∧ toBits b = lengthBits len := by
  have hLength := length_written h.allocated h.pos_le
  have hPos := h.pos_le
  have hSize := h.bufsize_lt
  rcases putTLVLength_puts (holds_written h.allocated h.boundary h.pos_le) (by omega) len with
    hThrown | ⟨o', full, part, hRun, -, hHolds, hBits⟩
  · exact Or.inl hThrown
  · have hAll := Holds.length_eq hBits
    have hDvd := dvd_length_lengthBits len
    have hPart := hHolds.part_lt
    rw [List.length_nil, List.length_nil] at hAll
    obtain rfl : part = [] := List.eq_nil_of_length_eq_zero (by omega)
    rw [List.append_nil, toBits_nil, List.append_nil, List.nil_append] at hBits
    exact Or.inr ⟨o', full, hRun, UInt64.toNat_inj.1 hHolds.rem_eq, hHolds.take_eq, hBits⟩

theorem trips_iff (len : UInt64) : Trips len ↔ len.toNat < 2 ^ 32 := by
  constructor
  · intro h
    have hProper := OutBitStream.proper_construct [] fun _ => 0
    rcases putTLVLength_cases hProper len with ⟨hNot, -⟩ | ⟨o', b, hRun, -⟩
    · exact absurd List.not_mem_nil hNot
    · rcases h _ hProper with ⟨e, o₁, hThrown⟩ | ⟨o₁, b₁, -, -, hWritten, hRead⟩
      · cases hRun.symm.trans hThrown
      · have hSmall : b₁.length < 2 ^ 64 := by
          have hIn : o₁.written.length ≤ o₁.mPos.pos.toNat := List.length_take_le _ _
          have hLt := o₁.mPos.pos.toNat_lt
          rw [hWritten, List.length_append, List.length_map] at hIn
          omega
        have hSize : (UInt64.ofNat b₁.length).toNat = b₁.length := UInt64.toNat_ofNat_of_lt' hSmall
        obtain ⟨v, s', -, rfl, -⟩ := hRead ⟨b₁, UInt64.ofNat b₁.length, ⟨0, 8⟩⟩ []
          (InBitStream.valid_of_boundary hSize (Nat.zero_le _) rfl) rfl (List.append_nil _).symm
        rw [UInt32.toNat_toUInt64]
        exact v.toNat_lt
  · intro h o hProper
    rcases putTLVLength_cases hProper len with ⟨-, hThrown⟩ | ⟨o', b, hRun, hEnd, hWritten, hBits⟩
    · exact Or.inl hThrown
    · refine Or.inr ⟨o', b, hRun, hEnd, hWritten, fun s tail hs hStart hNext => ?_⟩
      have hUnread : s.unread = OutBitStream.lengthBits len ++ toBits tail := by
        rw [InBitStream.unread_of_boundary hStart, hNext, toBits_append, hBits]
      obtain ⟨s', hRead, hs', hRest, hData⟩ := getTlvLength_lengthBits hs hUnread
      obtain ⟨hEnd', hPos⟩ := hs'.pos_eq hRest
      have hAll := congrArg List.length hNext
      have hIn := hs.pos_le
      rw [List.length_drop, List.length_append] at hAll
      rw [hData] at hPos
      refine ⟨_, s', hRead, ?_, hEnd', by omega⟩
      apply UInt64.toNat_inj.1
      rw [UInt32.toNat_toUInt64, UInt64.toNat_toUInt32, Nat.mod_eq_of_lt h]

/-- **TLV lengths**: those that fit into 32 bits come back, and a length is read
from the byte strings that hold the octets that they announce. -/
theorem tlvLength_iff (len : UInt64) (d : Object) :
    (Trips len ↔ len.toNat < 2 ^ 32) ∧ (InBitStream.Sound d ↔ InBitStream.Complete d.val) :=
  ⟨trips_iff len, InBitStream.sound_iff_complete d⟩

/-- The first length that does not fit, and the empty byte string. -/
theorem tlvLength_wrong :
    ¬ (∀ len : UInt64, Trips len) ∧ ¬ ∀ d : Object, InBitStream.Sound d := by
  constructor
  · intro h
    have hAll : ∀ len : UInt64, len.toNat < 2 ^ 32 := fun len => (trips_iff len).1 (h len)
    exact absurd (hAll 4294967296) (by decide)
  · intro h
    exact (InBitStream.sound_iff_complete ⟨[], by decide⟩).1 (h _)

end Megatron.Corelib
