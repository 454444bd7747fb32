import Mathlib.Data.List.Pairwise
import Megatron.GeoIp.Table

/-!
# Looking an address up

`CapsGeoIP::findNetRec` takes the first record whose last address is not below
the address.  It looks neither at the first address of the record nor at its
family, so an address between two networks gets the network behind it, and the
two families get in each other's way.

## Main results

* `findNetRec_found`, `findNetRec_none` — what the search gives.
* `findNetRec_exact` — where that is the network of the address.
* `findNetRec_gap` — an address of no network.
-/

namespace Megatron.GeoIp

open Megatron.Corelib (Bytes Inet)
open Megatron.Http
open Megatron.Lib

/-- `std::lower_bound` in a sorted vector: the first element not below. -/
def lowerBound (geoNets : List GeoNetRec) (sample : GeoNetRec) : Option GeoNetRec :=
  geoNets.find? fun r => !r.lt sample

section

variable (net : Inet) (stack : Vector UInt8 16)

/-- `CapsGeoIP::findNetRec`; with the verdict what `result` is afterwards. -/
def findNetRec (geoNets : List GeoNetRec) (ip : Bytes) (isV4 : Bool) (result : GeoNetRec) :
    Option (Bool × GeoNetRec) :=
  (getIpBin net stack ip isV4).bind fun ipBin =>
    match lowerBound geoNets ⟨[], ipBin, 0, 0⟩ with
    | some r => some (true, r)
    | none => some (false, result)

end

/-- The record has the address: it is of its family, and between its ends. -/
structure Contains (r : GeoNetRec) (a : Bytes) : Prop where
  startIp_le : r.startIp ≤ a
  le_endIp : a ≤ r.endIp
  length_startIp : r.startIp.length = a.length
  length_endIp : r.endIp.length = a.length

/-- No address is in two networks. -/
def Disjoint (geoNets : List GeoNetRec) : Prop :=
  geoNets.Pairwise fun r q => ∀ x, ¬ (Contains r x ∧ Contains q x)

/-- The search for the text `ip` of `a` says whether there is a network with
that address, and gives it. -/
def FindsRight (net : Inet) (stack : Vector UInt8 16) (geoNets : List GeoNetRec) (ip : Bytes)
    (isV4 : Bool) (result : GeoNetRec) (a : Bytes) : Prop :=
  ∃ found r, findNetRec net stack geoNets ip isV4 result = some (found, r) ∧
    (found = true ↔ ∃ q ∈ geoNets, Contains q a) ∧ ∀ q ∈ geoNets, Contains q a → r = q

variable {net : Inet} {stack : Vector UInt8 16} {degrees : Bytes → Int64}
  {geoNets : List GeoNetRec} {ip a : Bytes} {isV4 : Bool}

/-! ## The search -/

theorem lowerBound_none (h : lowerBound geoNets ⟨[], a, 0, 0⟩ = none) :
    ∀ r ∈ geoNets, r.endIp < a := by
  simpa [lowerBound, GeoNetRec.lt] using h

/-- The first record not below the address has the least last address of them. -/
theorem lowerBound_some (hTable : Table geoNets) {r : GeoNetRec}
    (h : lowerBound geoNets ⟨[], a, 0, 0⟩ = some r) :
    r ∈ geoNets ∧ a ≤ r.endIp ∧ ∀ q ∈ geoNets, a ≤ q.endIp → r.endIp ≤ q.endIp := by
  obtain ⟨hNot, before, behind, rfl, hBefore⟩ := List.find?_eq_some_iff_append.1 h
  have hLe : a ≤ r.endIp := by simpa [GeoNetRec.lt] using hNot
  refine ⟨by simp, hLe, fun q hq hAbove => ?_⟩
  rcases List.mem_append.1 hq with hFront | hRest
  · have hBelow : q.endIp < a := by simpa [GeoNetRec.lt] using hBefore q hFront
    exact absurd hAbove (not_le.2 hBelow)
  · rcases List.mem_cons.1 hRest with rfl | hBehind
    · exact le_rfl
    · exact (List.pairwise_cons.1 (List.pairwise_append.1 hTable.sorted).2.1).1 q hBehind

theorem findNetRec_none (hIp : AddrText net isV4 ip a) (h : ∀ r ∈ geoNets, r.endIp < a)
    (result : GeoNetRec) : findNetRec net stack geoNets ip isV4 result = some (false, result) := by
  have hNone : lowerBound geoNets ⟨[], a, 0, 0⟩ = none := by
    simpa [lowerBound, GeoNetRec.lt] using h
  rw [findNetRec, getIpBin_addrText hIp, Option.bind_some, hNone]

variable (stack) in
theorem findNetRec_found (hTable : Table geoNets) (hIp : AddrText net isV4 ip a)
    (h : ∃ r ∈ geoNets, a ≤ r.endIp) (result : GeoNetRec) :
    ∃ r ∈ geoNets, findNetRec net stack geoNets ip isV4 result = some (true, r) ∧
      a ≤ r.endIp ∧ ∀ q ∈ geoNets, a ≤ q.endIp → r.endIp ≤ q.endIp := by
  obtain ⟨q, hq, hAbove⟩ := h
  cases hBound : lowerBound geoNets ⟨[], a, 0, 0⟩ with
  | none => exact absurd hAbove (not_le.2 (lowerBound_none hBound q hq))
  | some r =>
      obtain ⟨hr, hLe, hLeast⟩ := lowerBound_some hTable hBound
      refine ⟨r, hr, ?_, hLe, hLeast⟩
      rw [findNetRec, getIpBin_addrText hIp, Option.bind_some, hBound]

/-! ## Disjoint networks -/

theorem Disjoint.eq (h : Disjoint geoNets) {r q : GeoNetRec} (hr : r ∈ geoNets) (hq : q ∈ geoNets)
    {x : Bytes} (hrx : Contains r x) (hqx : Contains q x) : r = q := by
  by_contra hNe
  have hSymm : Std.Symm fun r q : GeoNetRec => ∀ x, ¬ (Contains r x ∧ Contains q x) :=
    ⟨fun _ _ hApart x hBoth => hApart x hBoth.symm⟩
  exact h.forall hr hq hNe x ⟨hrx, hqx⟩

/-- A network of the family that is not behind the one with the address, and
not below it, is that one. -/
theorem eq_of_between (hTable : Table geoNets) (hDisjoint : Disjoint geoNets) {r q : GeoNetRec}
    (hr : r ∈ geoNets) (hq : q ∈ geoNets) (hHas : Contains r a)
    (hFamily : q.endIp.length = a.length) (hAbove : a ≤ q.endIp) (hLe : q.endIp ≤ r.endIp) :
    q = r := by
  have hProper := hTable.proper q hq
  have hSelf : Contains q q.endIp := ⟨hProper.le, le_rfl, hProper.length_startIp, rfl⟩
  have hOther : Contains r q.endIp :=
    ⟨hHas.startIp_le.trans hAbove, hLe, hHas.length_startIp.trans hFamily.symm,
      hHas.length_endIp.trans hFamily.symm⟩
  exact hDisjoint.eq hq hr hSelf hOther

/-! ## When the search is right -/

/-- The search is right where no network ends at the address or behind it, and
where the network of the address is there with none of the other family ending
between the address and its end. -/
theorem findNetRec_exact (hBuilt : Built net stack degrees geoNets) (hDisjoint : Disjoint geoNets)
    (hIp : AddrText net isV4 ip a) (result : GeoNetRec) :
    FindsRight net stack geoNets ip isV4 result a ↔
      (∀ r ∈ geoNets, r.endIp < a) ∨
        ∃ r ∈ geoNets, Contains r a ∧
          ∀ q ∈ geoNets, q.endIp.length ≠ a.length → a ≤ q.endIp → r.endIp ≤ q.endIp := by
  have hTable := hBuilt.table
  constructor
  · rintro ⟨found, r, hRun, hFound, hSame⟩
    by_cases hBelow : ∀ r ∈ geoNets, r.endIp < a
    · exact Or.inl hBelow
    · right
      push Not at hBelow
      obtain ⟨q, hq, hRunQ, -, hLeast⟩ := findNetRec_found stack hTable hIp hBelow result
      rw [hRun] at hRunQ
      simp only [Option.some.injEq, Prod.mk.injEq] at hRunQ
      obtain ⟨p, hp, hHas⟩ := hFound.1 hRunQ.1
      obtain rfl : q = p := hRunQ.2.symm.trans (hSame p hp hHas)
      exact ⟨q, hq, hHas, fun p hp _ hAbove => hLeast p hp hAbove⟩
  · rintro (hBelow | ⟨r, hr, hHas, hOthers⟩)
    · have hNone : ∀ q ∈ geoNets, ¬ Contains q a := fun q hq hHas =>
        absurd hHas.le_endIp (not_le.2 (hBelow q hq))
      refine ⟨false, result, findNetRec_none hIp hBelow result, ?_, ?_⟩
      · simpa using hNone
      · exact fun q hq hHas => absurd hHas (hNone q hq)
    · obtain ⟨q, hq, hRun, hAbove, hLeast⟩ :=
        findNetRec_found stack hTable hIp ⟨r, hr, hHas.le_endIp⟩ result
      have hLe := hLeast r hr hHas.le_endIp
      obtain rfl : q = r := by
        by_cases hFamily : q.endIp.length = a.length
        · exact eq_of_between hTable hDisjoint hr hq hHas hFamily hAbove hLe
        · have hEnd : q.endIp = r.endIp := le_antisymm hLe (hOthers q hq hFamily hAbove)
          exact absurd ((congrArg List.length hEnd).trans hHas.length_endIp) hFamily
      refine ⟨true, q, hRun, ⟨fun _ => ⟨q, hq, hHas⟩, fun _ => rfl⟩, ?_⟩
      exact fun p hp hHasP => hDisjoint.eq hq hp hHas hHasP

/-! ## One network -/

/-- The network `10.0.0.0/8`. -/
def ten : GeoNetRec := ⟨[10, 0, 0, 0], [10, 255, 255, 255], 0, 0⟩

/-- A platform on which no text is an IPv6 address. -/
def noIPv6 : Inet := ⟨false, fun _ => [], fun _ => none⟩

theorem built_ten : Built noIPv6 (Vector.replicate 16 0) (fun _ => 0) [ten] :=
  have hFiles : readFiles noIPv6 (Vector.replicate 16 0) (fun _ => 0)
      (some (text "network,a,b,c\n10.0.0.0/8,a,b,c\n")) none = some [ten] := by
    decide +kernel
  .csv hFiles (List.Perm.refl _) (List.pairwise_singleton _ _)

theorem disjoint_ten : Disjoint [ten] := List.pairwise_singleton _ _

theorem addrText_nine : AddrText noIPv6 true (text "9.0.0.1") [9, 0, 0, 1] :=
  have hNine : Numeral [57] (9 : UInt8).toNat := ⟨by decide, by decide +kernel, rfl⟩
  have hZero : Numeral [48] (0 : UInt8).toNat := ⟨by decide, by decide +kernel, rfl⟩
  have hOne : Numeral [49] (1 : UInt8).toNat := ⟨by decide, by decide +kernel, rfl⟩
  .v4 hNine hZero hZero hOne

/-- An address below the network gets it. -/
theorem findNetRec_gap :
    ∃ geoNets, Built noIPv6 (Vector.replicate 16 0) (fun _ => 0) geoNets ∧ Disjoint geoNets ∧
      AddrText noIPv6 true (text "9.0.0.1") [9, 0, 0, 1] ∧
      findNetRec noIPv6 (Vector.replicate 16 0) geoNets (text "9.0.0.1") true ⟨[], [], 0, 0⟩ =
        some (true, ten) ∧
      ¬ FindsRight noIPv6 (Vector.replicate 16 0) geoNets (text "9.0.0.1") true ⟨[], [], 0, 0⟩
        [9, 0, 0, 1] := by
  have hRun : findNetRec noIPv6 (Vector.replicate 16 0) [ten] (text "9.0.0.1") true
      ⟨[], [], 0, 0⟩ = some (true, ten) := by
    decide +kernel
  refine ⟨[ten], built_ten, disjoint_ten, addrText_nine, hRun, ?_⟩
  rintro ⟨found, r, hFinds, hFound, -⟩
  rw [hRun] at hFinds
  simp only [Option.some.injEq, Prod.mk.injEq] at hFinds
  obtain ⟨q, hq, hHas⟩ := hFound.1 hFinds.1.symm
  obtain rfl := List.mem_singleton.1 hq
  exact absurd hHas.startIp_le (by decide)

/-! ## Networks of both families -/

/-- The network `2001:db8::/32`. -/
def documentation : GeoNetRec where
  startIp := [0x20, 1, 0xD, 0xB8, 0, 0, 0, 0, 0, 0, 0, 0, 0, 0, 0, 0]
  endIp :=
    [0x20, 1, 0xD, 0xB8, 255, 255, 255, 255, 255, 255, 255, 255, 255, 255, 255, 255]
  lat := 0
  lon := 0

/-- A platform that reads two IPv6 addresses. -/
def twoIPv6 : Inet where
  bigEndian := false
  ntop _ := []
  pton s :=
    if s = text "2001:db8::" then some #v[0x20, 1, 0xD, 0xB8, 0, 0, 0, 0, 0, 0, 0, 0, 0, 0, 0, 0]
    else if s = text "a00::1" then some #v[10, 0, 0, 0, 0, 0, 0, 0, 0, 0, 0, 0, 0, 0, 0, 1]
    else none

theorem built_families :
    Built twoIPv6 (Vector.replicate 16 0) (fun _ => 0) [ten, documentation] :=
  have hFiles : readFiles twoIPv6 (Vector.replicate 16 0) (fun _ => 0)
      (some (text "network,a,b,c\n10.0.0.0/8,a,b,c\n")) (some (text "2001:db8::/32,a,b,c\n")) =
        some [ten, documentation] := by
    decide +kernel
  .csv hFiles (List.Perm.refl _) (by decide)

theorem disjoint_families : Disjoint [ten, documentation] := by
  refine List.pairwise_pair.2 fun x hBoth => ?_
  have hFour := hBoth.1.length_startIp
  have hSixteen := hBoth.2.length_startIp
  exact absurd (hFour.trans hSixteen.symm) (by decide)

theorem addrText_a00 : AddrText twoIPv6 false (text "a00::1")
    [10, 0, 0, 0, 0, 0, 0, 0, 0, 0, 0, 0, 0, 0, 0, 1] :=
  .v6 (a := #v[10, 0, 0, 0, 0, 0, 0, 0, 0, 0, 0, 0, 0, 0, 0, 1]) (by decide +kernel)
    (by decide +kernel) (by decide +kernel) (by decide +kernel)

/-- An IPv6 address of no network, with one of either family behind it. -/
theorem findNetRec_exact_families :
    FindsRight twoIPv6 (Vector.replicate 16 0) [ten, documentation] (text "a00::1") false
        ⟨[], [], 0, 0⟩ [10, 0, 0, 0, 0, 0, 0, 0, 0, 0, 0, 0, 0, 0, 0, 1] ↔
      (∀ r ∈ [ten, documentation], r.endIp < [10, 0, 0, 0, 0, 0, 0, 0, 0, 0, 0, 0, 0, 0, 0, 1]) ∨
        ∃ r ∈ [ten, documentation],
          Contains r [10, 0, 0, 0, 0, 0, 0, 0, 0, 0, 0, 0, 0, 0, 0, 1] ∧
            ∀ q ∈ [ten, documentation], q.endIp.length ≠ 16 →
              [10, 0, 0, 0, 0, 0, 0, 0, 0, 0, 0, 0, 0, 0, 0, 1] ≤ q.endIp → r.endIp ≤ q.endIp :=
  findNetRec_exact built_families disjoint_families addrText_a00 ⟨[], [], 0, 0⟩

end Megatron.GeoIp
