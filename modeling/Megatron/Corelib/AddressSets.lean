import Megatron.Corelib.Address
import Megatron.Lib.TotalOrder

/-!
# Sets of socket addresses

`operator<<` and `operator>>` of `std::set`, at `msockaddr_in`.  The number of
elements is written as an `unsigned int`, so a set comes back as long as that
holds it.

## Main results

* `gives_readAddresses` — a set is read back, element by element.
* `addresses_trip` — every address and every set of fewer than `2 ^ 32`.
* `addresses_lost` — the IPv4 addresses of one port are one set too large.
-/

namespace Megatron.Corelib

open Megatron.Lib

/-- `std::set<msockaddr_in>`. -/
structure AddressSet where
  toList : List MsockaddrIn
  isInet : ∀ a ∈ toList, a.IsInet
  sorted : toList.Pairwise fun a b => a.lt b = .ok true

/-- The elements one behind the other. -/
def writeAddresses (net : Inet) : List MsockaddrIn → OutBuffer → Option (Except CommonError OutBuffer)
  | [], o => some (.ok o)
  | a :: l, o => do
      match ← a.pack net o with
      | .error e => return .error e
      | .ok o => writeAddresses net l o

/-- `operator<<`. -/
def AddressSet.write (net : Inet) (v : AddressSet) (o : OutBuffer) :
    Option (Except CommonError OutBuffer) := do
  let o ← Ty.writeCount v.toList.length o
  writeAddresses net v.toList o

/-- The loop of `operator>>`, over a new address each time. -/
def fillAddresses (net : Inet) : Nat → List MsockaddrIn → In (List MsockaddrIn)
  | 0, v => return v
  | n + 1, v => do
      let t ← MsockaddrIn.construct.unpack net
      match insertM MsockaddrIn.lt t v with
      | .error e => throw (.thrown e)
      | .ok v => fillAddresses net n v

/-- `operator>>`, which clears the set first. -/
def readAddresses (net : Inet) : In (List MsockaddrIn) := do
  let n ← Cursor.getCount
  fillAddresses net n.toNat []

/-- The set is written into a new `outBuffer`.  From the bytes that hands out,
whatever follows, a set with equal elements is read. -/
def AddressSet.Survives (net : Inet) (v : AddressSet) : Prop :=
  ∃ o b, v.write net OutBuffer.construct = some (.ok o) ∧
    o.asString.buffer.size_.toNat = b.length ∧ o.asString.buffer.bytes = b.map some ∧
    ∀ (tail : Bytes) (d : Object), d.val = b ++ tail →
      ∃ l s, readAddresses net (Cursor.ofObject d) = (.ok l, s) ∧
        List.Forall₂ (fun x a => x.eq a = .ok true) l v.toList ∧ s.outPos.toNat = b.length

variable {net : Inet} {v : AddressSet}

/-! ## Writing -/

/-- The bytes of a set. -/
def AddressSet.put (net : Inet) (v : AddressSet) : Bytes :=
  Ty.putCount v.toList.length ++ v.toList.flatMap (MsockaddrIn.put net)

theorem writes_addresses (hNet : net.Lawful) {l : List MsockaddrIn} (h : ∀ a ∈ l, a.IsInet) :
    ∃ w, (∀ o, writeAddresses net l o = (w o).map .ok) ∧
      Writes w (l.flatMap (MsockaddrIn.put net)) := by
  induction l with
  | nil =>
      exact ⟨some, fun _ => rfl, fun o hProper _ => ⟨o, rfl, OutBuffer.Stored.nil hProper, rfl⟩⟩
  | cons a l ih =>
      obtain ⟨w, hPack, hWrite⟩ := MsockaddrIn.writes_pack hNet (h a List.mem_cons_self)
      obtain ⟨ws, hRest, hWrites⟩ := ih fun x hx => h x (List.mem_cons_of_mem a hx)
      refine ⟨fun o => (w o).bind ws, fun o => ?_, hWrite.bind hWrites⟩
      rw [writeAddresses, hPack]
      cases hRun : w o with
      | none => simp [hRun]
      | some o₁ => simp [hRun, hRest]

theorem AddressSet.writes (hNet : net.Lawful) (v : AddressSet) :
    ∃ w, (∀ o, v.write net o = (w o).map .ok) ∧ Writes w (v.put net) := by
  obtain ⟨w, hRest, hWrites⟩ := writes_addresses hNet v.isInet
  refine ⟨fun o => (Ty.writeCount v.toList.length o).bind w, fun o => ?_,
    (writes_putPN _).bind hWrites⟩
  rw [AddressSet.write]
  cases hCount : Ty.writeCount v.toList.length o with
  | none => simp [hCount]
  | some o₁ => simp [hCount, hRest]

theorem AddressSet.length_put_le (hNet : net.Lawful) (v : AddressSet) :
    (v.put net).length ≤ 10 + v.toList.length * 76 := by
  have hAll : ∀ l : List MsockaddrIn,
      (l.flatMap (MsockaddrIn.put net)).length ≤ l.length * 76 := by
    intro l
    induction l with
    | nil => exact Nat.zero_le _
    | cons a l ih =>
        have hHead := MsockaddrIn.length_put_le hNet a
        rw [List.flatMap_cons, List.length_append, List.length_cons]
        omega
  have hCount := OutBuffer.length_putPN_le (UInt32.ofNat v.toList.length).toUInt64
  have hElements := hAll v.toList
  rw [AddressSet.put, Ty.putCount, List.length_append]
  omega

/-! ## Reading -/

open Cursor in
/-- **The loop** puts each element behind those that are there. -/
theorem gives_fillAddresses (hNet : net.Lawful) (l : List MsockaddrIn) :
    ∀ acc : List MsockaddrIn, (∀ a ∈ acc ++ l, a.IsInet) →
      (acc ++ l).Pairwise (fun a b => a.key < b.key) →
      Gives (fillAddresses net l.length acc) (l.flatMap (MsockaddrIn.put net)) fun _ _ ys =>
        ∃ xs, ys = acc ++ xs ∧ List.Forall₂ (fun x a => x.IsInet ∧ x.key = a.key) xs l := by
  induction l with
  | nil =>
      intro acc _ _ s tail hs hRest
      exact ⟨acc, s, rfl, Kept.refl hs, hRest, [], (List.append_nil _).symm, List.Forall₂.nil⟩
  | cons a l ih =>
      intro acc hInet hSorted s tail hs hRest
      rw [List.flatMap_cons, List.append_assoc] at hRest
      have ha : a.IsInet := hInet a (by simp)
      obtain ⟨x, s₁, hRun, hKept, hRest₁, hx, hKey⟩ :=
        MsockaddrIn.gives_unpack hNet ha MsockaddrIn.construct s _ hs hRest
      have hAbove : ∀ b ∈ acc, x.lt b = .ok false ∧ b.lt x = .ok true := by
        intro b hb
        have hLt : b.key < x.key := by
          rw [hKey]
          exact (List.pairwise_append.1 hSorted).2.2 b hb a List.mem_cons_self
        have hbInet : b.IsInet := hInet b (List.mem_append_left _ hb)
        simp only [MsockaddrIn.lt_eq hx, MsockaddrIn.lt_eq hbInet, hLt, decide_true,
          decide_eq_false hLt.asymm, and_self]
      have hInet' : ∀ b ∈ (acc ++ [x]) ++ l, b.IsInet := by
        intro b hb
        simp only [List.mem_append, List.mem_singleton] at hb
        rcases hb with (hb | rfl) | hb
        · exact hInet b (List.mem_append_left _ hb)
        · exact hx
        · exact hInet b (List.mem_append_right _ (List.mem_cons_of_mem a hb))
      have hSorted' : ((acc ++ [x]) ++ l).Pairwise fun a b => a.key < b.key := by
        have hMap := (List.pairwise_map (f := MsockaddrIn.key) (R := (· < ·))).2 hSorted
        refine (List.pairwise_map (f := MsockaddrIn.key) (R := (· < ·))).1 ?_
        simpa [hKey] using hMap
      obtain ⟨ys, s₂, hFill, hKept₂, hRest₂, xs, rfl, hXs⟩ :=
        ih (acc ++ [x]) hInet' hSorted' s₁ tail hKept.valid hRest₁
      refine ⟨(acc ++ [x]) ++ xs, s₂, ?_, hKept.trans hKept₂, hRest₂, x :: xs, by simp,
        List.Forall₂.cons ⟨hx, hKey⟩ hXs⟩
      rw [List.length_cons, fillAddresses, bind_ok hRun, insertM_of_above hAbove]
      exact hFill

open Cursor in
/-- **A set is read back.** -/
theorem gives_readAddresses (hNet : net.Lawful) (v : AddressSet) (hLen : v.toList.length < 2 ^ 32) :
    Gives (readAddresses net) (v.put net) fun _ _ l =>
      List.Forall₂ (fun x a => x.eq a = .ok true) l v.toList := by
  have hSorted : v.toList.Pairwise fun a b => a.key < b.key := by
    refine (List.Pairwise.and_mem.1 v.sorted).imp ?_
    rintro a b ⟨ha, -, hLt⟩
    rw [MsockaddrIn.lt_eq (v.isInet a ha)] at hLt
    exact of_decide_eq_true (Except.ok.inj hLt)
  intro s tail hs hRest
  rw [AddressSet.put, List.append_assoc] at hRest
  obtain ⟨n, s₁, hCount, hKept, hRest₁, hn⟩ := gives_getCount hLen s _ hs hRest
  obtain ⟨xs, s₂, hFill, hKept₂, hRest₂, _, rfl, hXs⟩ :=
    gives_fillAddresses hNet v.toList [] v.isInet hSorted s₁ tail hKept.valid hRest₁
  refine ⟨xs, s₂, ?_, hKept.trans hKept₂, hRest₂, ?_⟩
  · rw [readAddresses, bind_ok hCount, hn]
    exact hFill
  · exact hXs.imp fun x a hx => MsockaddrIn.eq_of_key hx.1 hx.2

theorem AddressSet.survives (hNet : net.Lawful) (v : AddressSet)
    (hLen : v.toList.length < 2 ^ 32) : v.Survives net := by
  obtain ⟨w, hWrite, hWrites⟩ := v.writes hNet
  have hBytes := v.length_put_le hNet
  obtain ⟨o, hRun, hSize, hOut, hBack⟩ :=
    handed_over hWrites (by omega) (gives_readAddresses hNet v hLen)
  exact ⟨o, v.put net, by rw [hWrite, hRun]; rfl, hSize, hOut, hBack⟩

/-- **Addresses and sets of them** come back: every IPv4 and IPv6 address,
whatever the target was, and every set of fewer than `2 ^ 32`. -/
theorem addresses_trip (hNet : net.Lawful) :
    (∀ a : MsockaddrIn, a.IsInet → ∀ target, a.Trips net target) ∧
      ∀ v : AddressSet, v.toList.length < 2 ^ 32 → v.Survives net :=
  ⟨fun _ ha target => MsockaddrIn.address_trips hNet ha target, fun v hLen => v.survives hNet hLen⟩

/-! ## A platform -/

def hexDigit (n : Nat) : UInt8 := UInt8.ofNat (if n < 10 then 48 + n else 87 + n)

def hexByte (b : UInt8) : Bytes := [hexDigit (b.toNat / 16), hexDigit (b.toNat % 16)]

def hexValue (c : UInt8) : Nat := if c.toNat < 58 then c.toNat - 48 else c.toNat - 87

/-- An address with all its digits, a colon between two pairs of bytes. -/
def fullText : Bytes → Bytes
  | a :: b :: c :: rest => hexByte a ++ hexByte b ++ 58 :: fullText (c :: rest)
  | [a, b] => hexByte a ++ hexByte b
  | _ => []

def ofFullText : Bytes → Option Bytes
  | h₁ :: h₂ :: h₃ :: h₄ :: rest => do
      let pair := [UInt8.ofNat (16 * hexValue h₁ + hexValue h₂),
        UInt8.ofNat (16 * hexValue h₃ + hexValue h₄)]
      match rest with
      | [] => return pair
      | _ :: rest => return pair ++ (← ofFullText rest)
  | _ => none

/-- A little-endian host that writes all digits of an address. -/
def Inet.full : Inet where
  bigEndian := false
  ntop x := fullText x.toList
  pton t :=
    match ofFullText t with
    | some l => if h : l.length = 16 then some ⟨l.toArray, h⟩ else none
    | none => none

theorem hexDigit_value {n : Nat} (h : n < 16) : hexValue (hexDigit n) = n ∧ hexDigit n ≠ 0 := by
  have hAll : ∀ k : Fin 16, hexValue (hexDigit k) = k ∧ hexDigit k ≠ 0 := by decide
  exact hAll ⟨n, h⟩

theorem hexByte_value (b : UInt8) :
    UInt8.ofNat (16 * hexValue (hexDigit (b.toNat / 16)) + hexValue (hexDigit (b.toNat % 16))) = b := by
  have hLt := b.toNat_lt
  rw [(hexDigit_value (by omega)).1, (hexDigit_value (by omega)).1, Nat.div_add_mod]
  exact UInt8.ofNat_toNat

theorem notMem_hexByte (b : UInt8) : 0 ∉ hexByte b := by
  have hLt := b.toNat_lt
  have hHigh := (hexDigit_value (n := b.toNat / 16) (by omega)).2
  have hLow := (hexDigit_value (n := b.toNat % 16) (by omega)).2
  simp [hexByte, hHigh.symm, hLow.symm]

/-- The full text of `2 * (n + 1)` bytes. -/
theorem fullText_cases (n : Nat) :
    ∀ l : Bytes, l.length = 2 * (n + 1) →
      ofFullText (fullText l) = some l ∧ (fullText l).length = 5 * n + 4 ∧ 0 ∉ fullText l := by
  induction n with
  | zero =>
      intro l hLen
      obtain ⟨a, b, rfl⟩ := List.length_eq_two.1 hLen
      refine ⟨?_, rfl, ?_⟩
      · simp only [fullText, hexByte, List.cons_append, List.nil_append, ofFullText, hexByte_value]
        rfl
      · simp only [fullText, List.mem_append, notMem_hexByte, or_self, not_false_eq_true]
  | succ n ih =>
      rintro (_ | ⟨a, _ | ⟨b, _ | ⟨c, rest⟩⟩⟩) hLen
      · simp at hLen
      · simp at hLen
        omega
      · simp at hLen
      · obtain ⟨hBack, hLength, hZero⟩ := ih (c :: rest) (by
          simp only [List.length_cons] at hLen ⊢
          omega)
        refine ⟨?_, ?_, ?_⟩
        · simp only [fullText, hexByte, List.cons_append, List.nil_append, ofFullText,
            hexByte_value, hBack]
          rfl
        · simp only [fullText, hexByte, List.length_append, List.length_cons, List.length_nil,
            hLength]
          omega
        · simp only [fullText, List.mem_append, List.mem_cons, notMem_hexByte, hZero, or_self,
            or_false, false_or]
          decide

theorem lawful_full : Inet.full.Lawful where
  pton_ntop x := by
    obtain ⟨hBack, -, -⟩ := fullText_cases 7 x.toList (by simp)
    simp only [Inet.full, hBack]
    simp [← Vector.toArray_toList]
  length_ntop x := by
    obtain ⟨-, hLength, -⟩ := fullText_cases 7 x.toList (by simp)
    simp only [Inet.full, hLength]
    decide
  noNul x := (fullText_cases 7 x.toList (by simp)).2.2

/-- `10.0.0.1:80`. -/
def ten : MsockaddrIn := { MsockaddrIn.construct with port := 0x5000, sAddr := 0x0100000A }

/-- `[1111:2222:3333:4444:5555:6666:7777:8888]:80`. -/
def eights : MsockaddrIn where
  family := afInet6
  port := 0x5000
  sAddr := 0
  sin6Addr := ⟨#[0x11, 0x11, 0x22, 0x22, 0x33, 0x33, 0x44, 0x44, 0x55, 0x55, 0x66, 0x66, 0x77, 0x77,
    0x88, 0x88], rfl⟩

def tenAndEights : AddressSet where
  toList := [ten, eights]
  isInet := by decide
  sorted := by decide

theorem tenAndEights_trip :
    eights.Trips .full ten ∧ ten.Trips .full eights ∧ tenAndEights.Survives .full :=
  ⟨(addresses_trip lawful_full).1 eights (by decide) ten,
    (addresses_trip lawful_full).1 ten (by decide) eights,
    (addresses_trip lawful_full).2 tenAndEights (by decide)⟩

/-- The first `n` IPv4 addresses, of port 0, in the order of their memory. -/
def firstAddresses (n : Nat) (h : n ≤ 2 ^ 32) : AddressSet where
  toList := (List.range n).map fun k => { MsockaddrIn.construct with sAddr := UInt32.ofNat k }
  isInet a ha := by
    obtain ⟨k, -, rfl⟩ := List.mem_map.1 ha
    exact Or.inl rfl
  sorted := by
    refine List.pairwise_map.2 ((List.Pairwise.and_mem.1 List.pairwise_lt_range).imp ?_)
    rintro i j ⟨hi, hj, hLt⟩
    have hi' : i < 2 ^ 32 := Nat.lt_of_lt_of_le (List.mem_range.1 hi) h
    have hj' : j < 2 ^ 32 := Nat.lt_of_lt_of_le (List.mem_range.1 hj) h
    have hLess : UInt32.ofNat i < UInt32.ofNat j := by
      rw [UInt32.lt_iff_toNat_lt, UInt32.toNat_ofNat_of_lt' hi', UInt32.toNat_ofNat_of_lt' hj']
      exact hLt
    have hFour : ∀ k : UInt32, MsockaddrIn.family8 { MsockaddrIn.construct with sAddr := k } = 2 :=
      fun _ => rfl
    simp only [MsockaddrIn.lt, hFour]
    simp [hLess]

/-- A set of `2 ^ 32` addresses is read as an empty one. -/
theorem not_survives (hNet : net.Lawful) (hLen : v.toList.length = 2 ^ 32) : ¬ v.Survives net := by
  rintro ⟨o, b, hRun, hSize, hBytes, hBack⟩
  obtain ⟨w, hWrite, hWrites⟩ := v.writes hNet
  have hPut := v.length_put_le hNet
  have hZero : OutBuffer.construct.curPos.toNat = 0 := rfl
  obtain ⟨o', hRun', hStored, hPos⟩ := hWrites _ proper_construct (by omega)
  rw [hZero, Nat.zero_add] at hPos
  obtain ⟨-, hOut⟩ := bytes_asString hStored hPos (by omega)
  rw [hWrite, hRun'] at hRun
  obtain rfl := Except.ok.inj (Option.some.inj hRun)
  have hSame : b = v.put net := by
    rw [hOut] at hBytes
    exact (List.map_injective_iff.2 (Option.some_injective _) hBytes).symm
  have hFit : b.length < 2 ^ 63 := by
    rw [hSame]
    omega
  obtain ⟨l, s, hRead, hAll, -⟩ :=
    hBack [] ⟨b, hFit⟩ (List.append_nil b).symm
  have hNone : Ty.putCount v.toList.length = putPN 0 := by
    have hWrap : UInt32.ofNat v.toList.length = 0 := by
      apply UInt32.toNat_inj.1
      rw [UInt32.toNat_ofNat', hLen]
      exact Nat.mod_self _
    rw [Ty.putCount, hWrap]
    rfl
  have hRest : (Cursor.ofObject ⟨b, hFit⟩).rest =
      putPN 0 ++ v.toList.flatMap (MsockaddrIn.put net) := by
    rw [← hNone, ← AddressSet.put, ← hSame]
    rfl
  obtain ⟨_, s₁, hCount, -, -, rfl⟩ :=
    Cursor.gives_getPN 0 _ _ (Cursor.valid_ofObject _) hRest
  have hZero' : Cursor.getCount (Cursor.ofObject ⟨b, hFit⟩) = (.ok 0, s₁) :=
    (Cursor.bind_ok hCount).trans rfl
  have hEmpty : readAddresses net (Cursor.ofObject ⟨b, hFit⟩) = (.ok [], s₁) :=
    (Cursor.bind_ok hZero').trans rfl
  rw [hEmpty] at hRead
  obtain ⟨hNil, -⟩ := Prod.mk.injEq .. ▸ hRead
  obtain rfl := Except.ok.inj hNil
  have hLength := hAll.length_eq
  rw [hLen] at hLength
  exact absurd hLength (by decide)

/-- **All IPv4 addresses of one port** are `2 ^ 32`. -/
theorem addresses_lost :
    ¬ (firstAddresses (2 ^ 32) (Nat.le_refl _)).Survives .full ∧
      ¬ ∀ net : Inet, net.Lawful → ∀ v : AddressSet, v.Survives net := by
  have hLost : ¬ (firstAddresses (2 ^ 32) (Nat.le_refl _)).Survives .full :=
    not_survives lawful_full (by
      rw [firstAddresses, List.length_map, List.length_range])
  exact ⟨hLost, fun hAll => hLost (hAll .full lawful_full _)⟩

end Megatron.Corelib
