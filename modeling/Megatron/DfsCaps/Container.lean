import Mathlib.Data.Prod.Lex
import Mathlib.Logic.Function.Basic
import Megatron.Lib.OrdMap
import Megatron.Lib.OrdSet

/-!
# `referrerContainer`

The nodes that have registered in an hour, with addresses of one family.  There
is one `referrerItem` for each address, and four grids of cells, in which the
items are by their coordinates.  A query looks for the smallest cell about its
point with more than `MAX_REFFERRERS_COUNT_IN_RESPONSE` items.

Items are shared by `REF_getter`: a `Ptr` is where one is allocated, and a
container has the memory of its own.  The addresses are any ordered type.  The
distance of two points, which the source takes by `pow`, is any function.

## Main results

* `wf_add`, `wf_lookFor` — what the calls keep of a container.
* `item?_add_self`, `WF.item?_add_of_ne` — what `add` does to the items.
* `lookFor_snd` — what a query chooses from.
-/

namespace Megatron.DfsCaps

open Megatron.Lib

/-- `MAX_REFFERRERS_COUNT_IN_RESPONSE`. -/
def maxReferrersCountInResponse : Nat := 40

/-- Where an item is allocated; sets of `REF_getter` are ordered by it. -/
abbrev Ptr := Nat

/-- `referrerItem`. -/
structure ReferrerItem (Addr : Type) where
  sa : Addr
  lastReport : Nat
  dowlinkCount : Int
  lat : Int64
  lon : Int64
  uplink : Addr
  deriving DecidableEq

/-- The arguments of `addReferrer`. -/
structure Registration (Addr : Type) where
  lat : Int64
  lon : Int64
  sa : Addr
  downlinkCount : Int
  uplink : Addr

/-- What a registration makes of the item. -/
def Registration.item {Addr : Type} (r : Registration Addr) (time : Nat) : ReferrerItem Addr :=
  { sa := r.sa, lastReport := time, dowlinkCount := r.downlinkCount, lat := r.lat, lon := r.lon,
    uplink := r.uplink }

/-- `iLatLon`. -/
abbrev ILatLon := ℤ ×ₗ ℤ

/-- `quadratsDegree` and the three coarser grids. -/
inductive Grid where
  | degree
  | degree2
  | degree4
  | degree8
  deriving DecidableEq

/-- `int(x)`. -/
def toInt (x : Int64) : ℤ := x.toInt32.toInt

/-- `ll`, `ll2`, `ll4` and `ll8`. -/
def Grid.cell (lat lon : Int64) : Grid → ILatLon
  | degree => toLex (toInt lat, toInt lon)
  | degree2 => toLex (toInt (lat / 2), toInt (lon / 2))
  | degree4 => toLex (toInt (lat / 4), toInt (lon / 4))
  | degree8 => toLex (toInt (lat / 8), toInt (lon / 8))

variable {Addr : Type} [LinearOrder Addr]

/-! ## `referrerContainer` -/

/-- `referrerContainer`; `items` is the memory of its items. -/
structure ReferrerContainer (Addr : Type) [LinearOrder Addr] where
  referrers : OrdMap Addr Ptr
  items : OrdMap Ptr (ReferrerItem Addr)
  quadrats : Grid → OrdMap ILatLon (OrdSet Ptr)

namespace ReferrerContainer

instance : Inhabited (ReferrerContainer Addr) := ⟨⟨∅, ∅, fun _ => ∅⟩⟩

/-- The items in a cell. -/
def inCell (c : ReferrerContainer Addr) (g : Grid) (ll : ILatLon) : OrdSet Ptr :=
  (c.quadrats g).at' ll

/-- The item that `add` writes to; `p` is what `new` gives for a new address. -/
def target (c : ReferrerContainer Addr) (p : Ptr) (sa : Addr) : Ptr :=
  (c.referrers.get? sa).getD p

/-- `referrerContainer::add`; `time` is the clock. -/
def add (p : Ptr) (time : Nat) (r : Registration Addr) (c : ReferrerContainer Addr) :
    ReferrerContainer Addr :=
  let it := c.target p r.sa
  { referrers := if (c.referrers.get? r.sa).isSome then c.referrers else c.referrers.insert r.sa p
    items := c.items.insert it (r.item time)
    quadrats := fun g => (c.quadrats g).insert (g.cell r.lat r.lon)
      ((c.inCell g (g.cell r.lat r.lon)).insert it) }

/-- The item of an address. -/
def item? (c : ReferrerContainer Addr) (sa : Addr) : Option (ReferrerItem Addr) :=
  (c.referrers.get? sa).bind c.items.get?

/-- The items of the addresses, in the order of these. -/
def pointers (c : ReferrerContainer Addr) : List Ptr := c.referrers.toList.map Prod.snd

/-! ### Queries -/

/-- The tests of the grids, from the finest on: the first cell with more than
the maximum.  Looking at a cell makes it. -/
def selectCell (lat lon : Int64) :
    List Grid → ReferrerContainer Addr → ReferrerContainer Addr × Option (OrdSet Ptr)
  | [], c => (c, none)
  | g :: gs, c =>
      let c := { c with
        quadrats := Function.update c.quadrats g ((c.quadrats g).touch (g.cell lat lon)) }
      if (c.inCell g (g.cell lat lon)).toList.length > maxReferrersCountInResponse then
        (c, some (c.inCell g (g.cell lat lon)))
      else selectCell lat lon gs c

/-- The grids in the order of the tests. -/
def grids : List Grid := [.degree, .degree2, .degree4, .degree8]

/-- All items, as the set that the loop makes of them. -/
def everyone (c : ReferrerContainer Addr) : OrdSet Ptr :=
  c.pointers.foldl (fun s z => s.insert z) ∅

/-- `lookFor`. -/
def lookFor (lat lon : Int64) (c : ReferrerContainer Addr) :
    ReferrerContainer Addr × OrdSet Ptr :=
  match selectCell lat lon grids c with
  | (c, some cell) => (c, cell)
  | (c, none) => (c, c.everyone)

/-- `dist` of an item from the point; what is not an item has none. -/
def distance (dist : Int64 → Int64 → Int64 → Int64 → ℤ) (lat lon : Int64)
    (c : ReferrerContainer Addr) (p : Ptr) : ℤ :=
  match c.items.get? p with
  | some z => dist lat lon z.lat z.lon
  | none => 0

/-! ### What `add` does -/

variable {c : ReferrerContainer Addr} {p : Ptr} {time : Nat} {r : Registration Addr}
  {lat lon : Int64}

/-- The item of an address is that of the address, and what is in a cell is the
item of some address. -/
structure WF (c : ReferrerContainer Addr) : Prop where
  item : ∀ a p, c.referrers.get? a = some p → ∃ z, c.items.get? p = some z ∧ z.sa = a
  inCell : ∀ g ll p, p ∈ c.inCell g ll → ∃ a, c.referrers.get? a = some p

theorem wf_default : (default : ReferrerContainer Addr).WF where
  item a p h := by cases h
  inCell g ll p h := absurd h (OrdSet.notMem_empty p)

theorem get?_add_self : (c.add p time r).referrers.get? r.sa = some (c.target p r.sa) := by
  rw [add, target]
  cases h : c.referrers.get? r.sa with
  | none => simp
  | some q => simpa using h

theorem get?_add_of_ne {a : Addr} (h : a ≠ r.sa) :
    (c.add p time r).referrers.get? a = c.referrers.get? a := by
  rw [add]
  split
  · rfl
  · exact OrdMap.get?_insert_of_ne h p c.referrers

@[simp] theorem items_add :
    (c.add p time r).items = c.items.insert (c.target p r.sa) (r.item time) := rfl

theorem mem_inCell_add {g : Grid} {ll : ILatLon} {q : Ptr} :
    q ∈ (c.add p time r).inCell g ll ↔
      ll = g.cell r.lat r.lon ∧ q = c.target p r.sa ∨ q ∈ c.inCell g ll := by
  rw [inCell, add]
  exact OrdSet.mem_at'_insert_insert

theorem get?_cell_add {g : Grid} {ll : ILatLon} :
    (((c.add p time r).quadrats g).get? ll).isSome ↔
      ll = g.cell r.lat r.lon ∨ ((c.quadrats g).get? ll).isSome := by
  by_cases h : ll = g.cell r.lat r.lon
  · simp [add, h]
  · rw [add, OrdMap.get?_insert_of_ne h]
    simp [h]

/-- The item that is written to is that of no other address. -/
theorem WF.ne_target (hWF : c.WF) (hFresh : c.items.get? p = none) {a : Addr} {q : Ptr}
    (ha : a ≠ r.sa) (hq : c.referrers.get? a = some q) : q ≠ c.target p r.sa := by
  obtain ⟨z, hz, hsa⟩ := hWF.item a q hq
  rintro rfl
  rw [target] at hz
  cases hOld : c.referrers.get? r.sa with
  | none =>
      rw [hOld, Option.getD_none, hFresh] at hz
      cases hz
  | some q' =>
      obtain ⟨z', hz', hsa'⟩ := hWF.item r.sa q' hOld
      rw [hOld, Option.getD_some, hz', Option.some.injEq] at hz
      rw [← hsa, ← hz] at ha
      exact ha hsa'

theorem wf_add (hWF : c.WF) (hFresh : c.items.get? p = none) : (c.add p time r).WF where
  item a q h := by
    by_cases ha : a = r.sa
    · rw [ha, get?_add_self, Option.some.injEq] at h
      rw [items_add, ← h, OrdMap.get?_insert_self]
      exact ⟨_, rfl, ha.symm⟩
    · rw [get?_add_of_ne ha] at h
      rw [items_add, OrdMap.get?_insert_of_ne (hWF.ne_target hFresh ha h)]
      exact hWF.item a q h
  inCell g ll q h := by
    rcases mem_inCell_add.1 h with ⟨-, rfl⟩ | h
    · exact ⟨r.sa, get?_add_self⟩
    · obtain ⟨a, ha⟩ := hWF.inCell g ll q h
      by_cases hSame : a = r.sa
      · refine ⟨r.sa, ?_⟩
        rw [get?_add_self, target, ← hSame, ha, Option.getD_some]
      · exact ⟨a, (get?_add_of_ne hSame).trans ha⟩

/-- What is unused and is not given by `new` stays unused. -/
theorem unused_add {q : Ptr} (hWF : c.WF) (hFree : c.items.get? q = none) (hNe : q ≠ p) :
    (c.add p time r).items.get? q = none := by
  have hTarget : q ≠ c.target p r.sa := by
    rintro rfl
    cases hOld : c.referrers.get? r.sa with
    | none =>
        rw [target, hOld] at hNe
        exact hNe rfl
    | some q =>
        obtain ⟨z, hz, -⟩ := hWF.item r.sa q hOld
        rw [target, hOld, Option.getD_some, hz] at hFree
        cases hFree
  rw [items_add, OrdMap.get?_insert_of_ne hTarget, hFree]

theorem item?_add_self : (c.add p time r).item? r.sa = some (r.item time) := by
  rw [item?, get?_add_self, Option.bind_some, items_add, OrdMap.get?_insert_self]

theorem WF.item?_add_of_ne (hWF : c.WF) (hFresh : c.items.get? p = none) {a : Addr}
    (ha : a ≠ r.sa) : (c.add p time r).item? a = c.item? a := by
  rw [item?, item?, get?_add_of_ne ha]
  cases h : c.referrers.get? a with
  | none => rfl
  | some q =>
      rw [Option.bind_some, Option.bind_some, items_add,
        OrdMap.get?_insert_of_ne (hWF.ne_target hFresh ha h)]

/-! ### What a query does -/

/-- What a query chooses from: the smallest cell with more than the maximum, and
where there is none everyone. -/
def candidates (lat lon : Int64) (c : ReferrerContainer Addr) : OrdSet Ptr :=
  match grids.find? fun g =>
      decide ((c.inCell g (g.cell lat lon)).toList.length > maxReferrersCountInResponse) with
  | some g => c.inCell g (g.cell lat lon)
  | none => c.everyone

/-- Two containers that differ in cells without items. -/
structure Alike (c c' : ReferrerContainer Addr) : Prop where
  referrers : c'.referrers = c.referrers
  items : c'.items = c.items
  inCell : ∀ g ll, c'.inCell g ll = c.inCell g ll

theorem Alike.trans {c₁ c₂ c₃ : ReferrerContainer Addr} (h : Alike c₁ c₂) (h' : Alike c₂ c₃) :
    Alike c₁ c₃ :=
  ⟨h'.referrers.trans h.referrers, h'.items.trans h.items,
    fun g ll => (h'.inCell g ll).trans (h.inCell g ll)⟩

theorem alike_touch (c : ReferrerContainer Addr) (g : Grid) (ll : ILatLon) :
    Alike c { c with quadrats := Function.update c.quadrats g ((c.quadrats g).touch ll) } := by
  refine ⟨rfl, rfl, fun g' ll' => ?_⟩
  rw [inCell, inCell]
  by_cases h : g' = g
  · subst h
    simp
  · simp [h]

theorem selectCell_spec (lat lon : Int64) (gs : List Grid) (c : ReferrerContainer Addr) :
    Alike c (selectCell lat lon gs c).1 ∧
      (selectCell lat lon gs c).2 = (gs.find? fun g =>
        decide ((c.inCell g (g.cell lat lon)).toList.length > maxReferrersCountInResponse)).map
          fun g => c.inCell g (g.cell lat lon) := by
  induction gs generalizing c with
  | nil => exact ⟨⟨rfl, rfl, fun _ _ => rfl⟩, rfl⟩
  | cons g gs ih =>
      have hTouch := alike_touch c g (g.cell lat lon)
      rw [selectCell]
      simp only [hTouch.inCell]
      by_cases hFull : (c.inCell g (g.cell lat lon)).toList.length > maxReferrersCountInResponse
      · rw [if_pos hFull, List.find?_cons_of_pos (by simpa using hFull)]
        exact ⟨hTouch, rfl⟩
      · rw [if_neg hFull, List.find?_cons_of_neg (by simpa using hFull)]
        obtain ⟨hRest, hFound⟩ := ih { c with
          quadrats := Function.update c.quadrats g ((c.quadrats g).touch (g.cell lat lon)) }
        refine ⟨hTouch.trans hRest, ?_⟩
        simpa only [hTouch.inCell] using hFound

theorem alike_lookFor (lat lon : Int64) (c : ReferrerContainer Addr) :
    Alike c (c.lookFor lat lon).1 := by
  have hSpec := selectCell_spec lat lon grids c
  rw [lookFor]
  split
  · rename_i h
    rw [h] at hSpec
    exact hSpec.1
  · rename_i h
    rw [h] at hSpec
    exact hSpec.1

theorem lookFor_snd (lat lon : Int64) (c : ReferrerContainer Addr) :
    (c.lookFor lat lon).2 = c.candidates lat lon := by
  obtain ⟨hAlike, hFound⟩ := selectCell_spec lat lon grids c
  rw [lookFor, candidates]
  split
  · rename_i h
    rw [h] at hFound
    obtain ⟨g, hg, hCell⟩ := Option.map_eq_some_iff.1 hFound.symm
    rw [hg]
    exact hCell.symm
  · rename_i h
    rw [h] at hFound hAlike
    rw [Option.map_eq_none_iff.1 hFound.symm, everyone, pointers, hAlike.referrers]
    rfl

/-- The cells that the tests look at are there. -/
def CellsThere (lat lon : Int64) : List Grid → ReferrerContainer Addr → Prop
  | [], _ => True
  | g :: gs, c => ((c.quadrats g).get? (g.cell lat lon)).isSome ∧
      ((c.inCell g (g.cell lat lon)).toList.length ≤ maxReferrersCountInResponse →
        CellsThere lat lon gs c)

theorem selectCell_of_cellsThere {gs : List Grid} (h : CellsThere lat lon gs c) :
    (selectCell lat lon gs c).1 = c := by
  induction gs with
  | nil => rfl
  | cons g gs ih =>
      have hSame : { c with
          quadrats := Function.update c.quadrats g ((c.quadrats g).touch (g.cell lat lon)) } =
            c := by
        rw [OrdMap.touch_of_isSome h.1, Function.update_eq_self]
      rw [selectCell]
      simp only [hSame]
      split
      · rfl
      · rename_i hFew
        exact ih (h.2 (not_lt.1 hFew))

/-- A query that finds its cells leaves the container as it is. -/
theorem lookFor_of_cellsThere (h : CellsThere lat lon grids c) : (c.lookFor lat lon).1 = c := by
  have hSame := selectCell_of_cellsThere h
  rw [lookFor]
  split
  · rename_i hSelect
    rw [hSelect] at hSame
    exact hSame
  · rename_i hSelect
    rw [hSelect] at hSame
    exact hSame

theorem WF.of_alike {c' : ReferrerContainer Addr} (hWF : c.WF) (h : Alike c c') : c'.WF where
  item a p hp := by
    rw [h.referrers] at hp
    rw [h.items]
    exact hWF.item a p hp
  inCell g ll p hp := by
    rw [h.inCell] at hp
    rw [h.referrers]
    exact hWF.inCell g ll p hp

theorem wf_lookFor (hWF : c.WF) (lat lon : Int64) : (c.lookFor lat lon).1.WF :=
  hWF.of_alike (alike_lookFor lat lon c)

end ReferrerContainer

end Megatron.DfsCaps
