import Megatron.Corelib.Address
import Megatron.Corelib.RouteStrict

/-!
# What `msockaddr_in::unpack` lets through

An address lies in the bytes as its family, its port and either a number or a
text.  `unpack` narrows the numbers by casts and does not ask whether
`inet_pton` has read the text, so a family may be taken for another one, and
the old IPv6 address of the target may stay.

## Main results

* `unpack_cases` — what becomes of the content that lies there.
* `unpack_strict_iff` — when the decoding is strict.
* `family_narrowed` — the family 258 is read as `AF_INET`.
-/

namespace Megatron.Corelib.MsockaddrIn

open Megatron.Corelib.Cursor (bind_ok bind_error safe_getPN safe_getPSTR)

/-- The numbers of an address as they are read, and the text of an IPv6 one. -/
inductive Content where
  | v4 (family port addr : UInt64)
  | v6 (family port : UInt64) (text : Bytes)

/-- The content that lies between two positions; the low byte of the family
says which of the two it is. -/
inductive Lies : Content → Cursor → Cursor → Prop
  | v4 {s s₁ s₂ s' : Cursor} {family port addr : UInt64} (hFamily : Cursor.getPN s = (.ok family, s₁))
      (hLow : family.toUInt8 = 2) (hPort : Cursor.getPN s₁ = (.ok port, s₂))
      (hAddr : Cursor.getPN s₂ = (.ok addr, s')) : Lies (.v4 family port addr) s s'
  | v6 {s s₁ s₂ s' : Cursor} {family port : UInt64} {text : Bytes}
      (hFamily : Cursor.getPN s = (.ok family, s₁)) (hLow : family.toUInt8 = 10)
      (hPort : Cursor.getPN s₁ = (.ok port, s₂)) (hText : Cursor.getPSTR s₂ = (.ok text, s')) :
      Lies (.v6 family port text) s s'

/-- The address is exactly this content. -/
def Exactly (net : Inet) (x : MsockaddrIn) : Content → Prop
  | .v4 family port addr =>
      x.family.toNat = family.toNat ∧ (net.ntohs x.port).toNat = port.toNat ∧
        (net.ntohl x.sAddr).toNat = addr.toNat
  | .v6 family port text =>
      x.family.toNat = family.toNat ∧ (net.ntohs x.port).toNat = port.toNat ∧ 0 ∉ text ∧
        net.pton text = some x.sin6Addr

/-- The content that an address can hold: numbers of its widths, and a text that
`inet_pton` reads to its end. -/
def Content.Fits (net : Inet) : Content → Prop
  | .v4 family port addr => family.toNat < 2 ^ 8 ∧ port.toNat < 2 ^ 16 ∧ addr.toNat < 2 ^ 32
  | .v6 family port text =>
      family.toNat < 2 ^ 8 ∧ port.toNat < 2 ^ 16 ∧ 0 ∉ text ∧ (net.pton text).isSome

/-- `unpack` throws, or it gives exactly the content that lies there, and the
same address for every other target. -/
def Strict (net : Inet) (target : MsockaddrIn) (s : Cursor) : Prop :=
  ∃ r s', target.unpack net s = (r, s') ∧
    match r with
    | .error e => e.Exception
    | .ok x =>
        (∃ c, Lies c s s' ∧ x.Exactly net c) ∧
          ∀ other : MsockaddrIn, ∃ y, other.unpack net s = (.ok y, s') ∧ y.key = x.key

variable {net : Inet} {s s' : Cursor}

/-- What is read twice from one place is the same. -/
theorem read_unique {α : Type} {p : In α} {x y : α} {s₁ s₂ : Cursor} (h : p s = (.ok x, s₁))
    (h' : p s = (.ok y, s₂)) : x = y ∧ s₁ = s₂ := by
  obtain ⟨hOk, hLeft⟩ := Prod.mk.inj (h.symm.trans h')
  exact ⟨Except.ok.inj hOk, hLeft⟩

theorem Lies.unique {c c' : Content} {s₁ s₂ : Cursor} (h : Lies c s s₁) (h' : Lies c' s s₂) :
    c = c' ∧ s₁ = s₂ := by
  cases h with
  | v4 hFamily hLow hPort hAddr =>
      cases h' with
      | v4 hFamily' hLow' hPort' hAddr' =>
          obtain ⟨rfl, rfl⟩ := read_unique hFamily hFamily'
          obtain ⟨rfl, rfl⟩ := read_unique hPort hPort'
          obtain ⟨rfl, rfl⟩ := read_unique hAddr hAddr'
          exact ⟨rfl, rfl⟩
      | v6 hFamily' hLow' hPort' hText' =>
          obtain ⟨rfl, rfl⟩ := read_unique hFamily hFamily'
          exact absurd (hLow.symm.trans hLow') (by decide)
  | v6 hFamily hLow hPort hText =>
      cases h' with
      | v4 hFamily' hLow' hPort' hAddr' =>
          obtain ⟨rfl, rfl⟩ := read_unique hFamily hFamily'
          exact absurd (hLow.symm.trans hLow') (by decide)
      | v6 hFamily' hLow' hPort' hText' =>
          obtain ⟨rfl, rfl⟩ := read_unique hFamily hFamily'
          obtain ⟨rfl, rfl⟩ := read_unique hPort hPort'
          obtain ⟨rfl, rfl⟩ := read_unique hText hText'
          exact ⟨rfl, rfl⟩

/-! ## What is read -/

/-- What a content is made into. -/
def decoded (net : Inet) (target : MsockaddrIn) : Content → MsockaddrIn
  | .v4 _ port addr =>
      { target with
        family := 2, port := net.ntohs port.toUInt16, sAddr := net.ntohl addr.toUInt32 }
  | .v6 _ port text =>
      { target with
        family := 10
        port := net.ntohs port.toUInt16
        sin6Addr := (net.pton (cStr text)).getD target.sin6Addr }

variable (net) in
theorem unpack_lies {c : Content} (h : Lies c s s') (target : MsockaddrIn) :
    target.unpack net s = (.ok (decoded net target c), s') := by
  cases h with
  | v4 hFamily hLow hPort hAddr =>
      rw [unpack, bind_ok hFamily]
      simp only [hLow, if_true]
      rw [bind_ok hPort, bind_ok hAddr]
      rfl
  | v6 hFamily hLow hPort hText =>
      have hNot : ¬ (10 : UInt8) = 2 := by decide
      rw [unpack, bind_ok hFamily]
      simp only [hLow, if_true, if_neg hNot]
      rw [bind_ok hPort, bind_ok hText]
      rfl

/-- Of two reads one after another one throws, or both read something. -/
theorem reads_cases {α β γ : Type} {k l : Nat} {p : In α} {q : In β} (hp : Cursor.Safe k p)
    (hq : Cursor.Safe l q) (hs : s.Valid) (f : α → β → In γ) :
    (∃ e s', (p >>= fun x => q >>= fun y => f x y) s = (.error e, s') ∧ e.Exception) ∨
      ∃ x y s₁ s₂, p s = (.ok x, s₁) ∧ q s₁ = (.ok y, s₂) := by
  obtain ⟨r₁, s₁, hFirst, hKept, hr₁⟩ := hp s hs
  cases r₁ with
  | error e => exact Or.inl ⟨e, s₁, bind_error hFirst, hr₁⟩
  | ok x =>
      obtain ⟨r₂, s₂, hSecond, -, hr₂⟩ := hq s₁ hKept.valid
      cases r₂ with
      | error e =>
          refine Or.inl ⟨e, s₂, ?_, hr₂⟩
          rw [bind_ok hFirst]
          exact bind_error hSecond
      | ok y => exact Or.inr ⟨x, y, s₁, s₂, hFirst, hSecond⟩

variable (net) in
/-- **What `unpack` does**: it throws, or content lies there and is decoded. -/
theorem unpack_cases (hs : s.Valid) (target : MsockaddrIn) :
    (∃ e s', target.unpack net s = (.error e, s') ∧ e.Exception) ∨ ∃ c s', Lies c s s' := by
  obtain ⟨r₁, s₁, hFamily, hKept, hr₁⟩ := safe_getPN s hs
  cases r₁ with
  | error e => exact Or.inl ⟨e, s₁, bind_error hFamily, hr₁⟩
  | ok family =>
      rw [unpack, bind_ok hFamily]
      by_cases h4 : family.toUInt8 = 2
      · simp only [h4, if_true]
        rcases reads_cases safe_getPN safe_getPN hKept.valid _ with
          hThrown | ⟨port, addr, s₂, s₃, hPort, hAddr⟩
        · exact Or.inl hThrown
        · exact Or.inr ⟨_, s₃, .v4 hFamily h4 hPort hAddr⟩
      · by_cases h6 : family.toUInt8 = 10
        · have hNot : ¬ (10 : UInt8) = 2 := by decide
          simp only [h6, if_true, if_neg hNot]
          rcases reads_cases safe_getPN safe_getPSTR hKept.valid _ with
            hThrown | ⟨port, text, s₂, s₃, hPort, hText⟩
          · exact Or.inl hThrown
          · exact Or.inr ⟨_, s₃, .v6 hFamily h6 hPort hText⟩
        · simp only [if_neg h4, if_neg h6]
          exact Or.inl ⟨_, s₁, rfl, True.intro⟩

/-! ## When it is exact -/

/-- Casting a number keeps it exactly where it has room. -/
theorem toNat_toUInt16_iff (n : UInt64) : n.toUInt16.toNat = n.toNat ↔ n.toNat < 2 ^ 16 := by
  rw [UInt64.toNat_toUInt16]
  omega

theorem toNat_toUInt32_iff (n : UInt64) : n.toUInt32.toNat = n.toNat ↔ n.toNat < 2 ^ 32 := by
  rw [UInt64.toNat_toUInt32]
  omega

/-- A family of which the low byte is kept is itself. -/
theorem toNat_family_iff {family : UInt64} {low : UInt8} (hLow : family.toUInt8 = low) :
    low.toNat = family.toNat ↔ family.toNat < 2 ^ 8 := by
  rw [← hLow, UInt64.toNat_toUInt8]
  omega

/-- **A content is decoded exactly where it fits.** -/
theorem exactly_decoded {c : Content} (h : Lies c s s') (target : MsockaddrIn) :
    (decoded net target c).Exactly net c ↔ c.Fits net := by
  cases h with
  | @v4 s s₁ s₂ s' family port addr hFamily hLow hPort hAddr =>
      simp only [decoded, Exactly, Content.Fits, Inet.ntohs_ntohs, Inet.ntohl_ntohl,
        toNat_toUInt16_iff, toNat_toUInt32_iff]
      rw [← toNat_family_iff hLow]
      rfl
  | @v6 s s₁ s₂ s' family port text hFamily hLow hPort hText =>
      simp only [decoded, Exactly, Content.Fits, Inet.ntohs_ntohs, toNat_toUInt16_iff]
      rw [← toNat_family_iff hLow]
      refine and_congr Iff.rfl (and_congr Iff.rfl (and_congr_right fun hNoNul => ?_))
      rw [cStr_of_noNul hNoNul]
      cases net.pton text <;> simp

/-- An address that fits is the same for every target. -/
theorem key_decoded {c : Content} (hFits : c.Fits net) (target other : MsockaddrIn) :
    (decoded net other c).key = (decoded net target c).key := by
  cases c with
  | v4 family port addr => rfl
  | v6 family port text =>
      obtain ⟨-, -, hNoNul, hSome⟩ := hFits
      obtain ⟨a, ha⟩ := Option.isSome_iff_exists.1 hSome
      simp only [decoded, cStr_of_noNul hNoNul, ha, Option.getD_some]
      rfl

/-- **When `unpack` is strict**: where an address lies in the bytes, its numbers
have the widths of an address, and its text is one. -/
theorem unpack_strict_iff (hs : s.Valid) (target : MsockaddrIn) :
    Strict net target s ↔ ∀ c s', Lies c s s' → c.Fits net := by
  constructor
  · rintro ⟨r, s₁, hRun, hStrict⟩ c s' hLies
    have hDecoded := unpack_lies net hLies target
    obtain ⟨rfl, rfl⟩ := Prod.mk.inj (hRun.symm.trans hDecoded)
    obtain ⟨⟨c', hLies', hExact⟩, -⟩ := hStrict
    obtain ⟨rfl, -⟩ := hLies.unique hLies'
    exact (exactly_decoded hLies target).1 hExact
  · intro hFits
    rcases unpack_cases net hs target with ⟨e, s', hRun, hExc⟩ | ⟨c, s', hLies⟩
    · exact ⟨_, s', hRun, hExc⟩
    · have hFit := hFits c s' hLies
      refine ⟨_, s', unpack_lies net hLies target,
        ⟨c, hLies, (exactly_decoded hLies target).2 hFit⟩, fun other => ?_⟩
      exact ⟨_, unpack_lies net hLies other, key_decoded hFit target other⟩

/-! ## Bytes that are let through -/

/-- A platform that reads no text as an address. -/
def noText : Inet := ⟨true, fun _ => [], fun _ => none⟩

/-- An IPv6 address of ones. -/
def ones : MsockaddrIn := ⟨afInet6, 80, 0, Vector.replicate 16 1⟩

theorem lies_narrowed : Lies (.v4 258 80 5) (Cursor.ofBytes [130, 2, 80, 5])
    { Cursor.ofBytes [130, 2, 80, 5] with outPos := 4 } :=
  have hFamily : Cursor.getPN (Cursor.ofBytes [130, 2, 80, 5]) =
      (.ok 258, { Cursor.ofBytes [130, 2, 80, 5] with outPos := 2 }) := rfl
  have hPort : Cursor.getPN { Cursor.ofBytes [130, 2, 80, 5] with outPos := 2 } =
      (.ok 80, { Cursor.ofBytes [130, 2, 80, 5] with outPos := 3 }) := rfl
  .v4 hFamily (by decide) hPort rfl

theorem lies_noText : Lies (.v6 10 81 [120]) (Cursor.ofBytes [10, 81, 1, 120])
    { Cursor.ofBytes [10, 81, 1, 120] with outPos := 4 } :=
  have hFamily : Cursor.getPN (Cursor.ofBytes [10, 81, 1, 120]) =
      (.ok 10, { Cursor.ofBytes [10, 81, 1, 120] with outPos := 1 }) := rfl
  have hPort : Cursor.getPN { Cursor.ofBytes [10, 81, 1, 120] with outPos := 1 } =
      (.ok 81, { Cursor.ofBytes [10, 81, 1, 120] with outPos := 2 }) := rfl
  .v6 hFamily (by decide) hPort rfl

theorem unpack_strict_iff_narrowed :
    (Cursor.ofBytes [130, 2, 80, 5]).Valid ∧
      (Strict noText construct (Cursor.ofBytes [130, 2, 80, 5]) ↔
        ∀ c s', Lies c (Cursor.ofBytes [130, 2, 80, 5]) s' → c.Fits noText) :=
  ⟨⟨by decide, by decide, by decide⟩,
    unpack_strict_iff ⟨by decide, by decide, by decide⟩ construct⟩

/-- **The family 258** is taken for `AF_INET`, and behind the text `"x"` the old
address of the target stays. -/
theorem family_narrowed :
    construct.unpack noText (Cursor.ofBytes [130, 2, 80, 5]) =
        (.ok ⟨2, 80, 5, Vector.replicate 16 0⟩,
          { Cursor.ofBytes [130, 2, 80, 5] with outPos := 4 }) ∧
      ones.unpack noText (Cursor.ofBytes [10, 81, 1, 120]) =
        (.ok ⟨10, 81, 0, Vector.replicate 16 1⟩,
          { Cursor.ofBytes [10, 81, 1, 120] with outPos := 4 }) ∧
      ¬ (∀ s : Cursor, s.Valid → Strict noText construct s) ∧
      ¬ Strict noText ones (Cursor.ofBytes [10, 81, 1, 120]) := by
  have hFamily := unpack_lies noText lies_narrowed construct
  have hOld := unpack_lies noText lies_noText ones
  refine ⟨hFamily, hOld, fun hAll => ?_, ?_⟩
  · obtain ⟨_, _, hRun, hStrict⟩ :=
      hAll (Cursor.ofBytes [130, 2, 80, 5]) ⟨by decide, by decide, by decide⟩
    obtain ⟨rfl, rfl⟩ := Prod.mk.inj (hRun.symm.trans hFamily)
    obtain ⟨⟨c, hLies, hExact⟩, -⟩ := hStrict
    obtain ⟨rfl, -⟩ := lies_narrowed.unique hLies
    exact absurd hExact.1 (by decide)
  · rintro ⟨_, _, hRun, hStrict⟩
    obtain ⟨rfl, rfl⟩ := Prod.mk.inj (hRun.symm.trans hOld)
    obtain ⟨⟨c, hLies, hExact⟩, -⟩ := hStrict
    obtain ⟨rfl, -⟩ := lies_noText.unique hLies
    exact Option.some_ne_none _ hExact.2.2.2.symm

end Megatron.Corelib.MsockaddrIn
