import Megatron.DfsCaps.Container
import Megatron.Lib.Machine

/-!
# The four grids

`referrerContainer::add` puts the item of an address into the cells of its
coordinates.  It takes it out of no cell, so an address that registers again
from other coordinates is in the old cells and in the new ones.

## Main results

* `consistent_add` — what an `add` that leaves the cells as they are keeps.
* `consistent_exact` — the runs at whose end the items are in their cells and
  in no others.
* `consistent_moved` — a node that has moved.
-/

namespace Megatron.DfsCaps

open Megatron.Lib

variable {Addr : Type} [LinearOrder Addr]

/-- A call of `referrerContainer::add`. -/
structure AddCall (Addr : Type) where
  p : Ptr
  time : Nat
  reg : Registration Addr

namespace ReferrerContainer

/-- Any calls of `add`; `new` gives what is not in use. -/
def machine (Addr : Type) [LinearOrder Addr] : Machine (ReferrerContainer Addr) (AddCall Addr) where
  init c := c = default
  enabled c a := c.items.get? a.p = none
  apply c a := c.add a.p a.time a.reg

/-- An item is in the cell of its coordinates, and in no other, as long as its
address is in `referrers`. -/
def Consistent (c : ReferrerContainer Addr) : Prop :=
  ∀ g ll p, p ∈ c.inCell g ll ↔
    ∃ z, c.items.get? p = some z ∧ c.referrers.get? z.sa = some p ∧ g.cell z.lat z.lon = ll

/-- The address is new, or its item is in the cells of the new coordinates. -/
def Settled (c : ReferrerContainer Addr) (a : AddCall Addr) : Prop :=
  ∀ z, c.item? a.reg.sa = some z → ∀ g : Grid, g.cell z.lat z.lon = g.cell a.reg.lat a.reg.lon

/-- Some item is in two cells of a grid. -/
def Torn (c : ReferrerContainer Addr) : Prop :=
  ∃ g ll ll' p, ll ≠ ll' ∧ p ∈ c.inCell g ll ∧ p ∈ c.inCell g ll'

variable {c : ReferrerContainer Addr} {a : AddCall Addr}

theorem not_consistent_of_torn (h : c.Torn) : ¬ c.Consistent := by
  obtain ⟨g, ll, ll', p, hNe, hMem, hMem'⟩ := h
  intro hConsistent
  obtain ⟨z, hz, -, hCell⟩ := (hConsistent g ll p).1 hMem
  obtain ⟨z', hz', -, hCell'⟩ := (hConsistent g ll' p).1 hMem'
  rw [hz, Option.some.injEq] at hz'
  rw [← hCell, ← hCell', hz'] at hNe
  exact hNe rfl

/-- Nothing is taken out of a cell. -/
theorem torn_add (h : c.Torn) : ((machine Addr).apply c a).Torn := by
  obtain ⟨g, ll, ll', p, hNe, hMem, hMem'⟩ := h
  exact ⟨g, ll, ll', p, hNe, mem_inCell_add.2 (Or.inr hMem), mem_inCell_add.2 (Or.inr hMem')⟩

/-- The item that is written to has been where the address has an item, and is
new where it has none. -/
theorem target_cases (c : ReferrerContainer Addr) (p : Ptr) (sa : Addr) :
    c.referrers.get? sa = some (c.target p sa) ∨
      c.referrers.get? sa = none ∧ c.target p sa = p := by
  rw [target]
  cases c.referrers.get? sa with
  | none => exact Or.inr ⟨rfl, rfl⟩
  | some q => exact Or.inl rfl

/-- An item in a cell that is written to was in the cell of the old coordinates. -/
theorem Consistent.of_mem_target (hConsistent : c.Consistent)
    (hFresh : c.items.get? a.p = none) {g : Grid} {ll : ILatLon}
    (hMem : c.target a.p a.reg.sa ∈ c.inCell g ll) :
    ∃ z, c.item? a.reg.sa = some z ∧ g.cell z.lat z.lon = ll := by
  obtain ⟨z, hz, -, hCell⟩ := (hConsistent g ll _).1 hMem
  rcases c.target_cases a.p a.reg.sa with hOld | ⟨-, hNew⟩
  · refine ⟨z, ?_, hCell⟩
    rw [item?, hOld, Option.bind_some, hz]
  · rw [hNew, hFresh] at hz
    cases hz

theorem consistent_add (hConsistent : c.Consistent)
    (hFresh : c.items.get? a.p = none) (hSettled : c.Settled a) :
    ((machine Addr).apply c a).Consistent := by
  intro g ll q
  change q ∈ (c.add a.p a.time a.reg).inCell g ll ↔ _
  rw [mem_inCell_add]
  by_cases hq : q = c.target a.p a.reg.sa
  · -- the item that is written to is in the cells of the new coordinates
    subst hq
    constructor
    · intro hMem
      refine ⟨a.reg.item a.time, OrdMap.get?_insert_self _ _ _, get?_add_self, ?_⟩
      rcases hMem with ⟨hCell, -⟩ | hMem
      · exact hCell.symm
      · obtain ⟨z, hz, hCell⟩ := hConsistent.of_mem_target hFresh hMem
        exact (hSettled z hz g).symm.trans hCell
    · rintro ⟨z, hz, -, hCell⟩
      have hItem : (c.add a.p a.time a.reg).items.get? (c.target a.p a.reg.sa) =
          some (a.reg.item a.time) := OrdMap.get?_insert_self _ _ _
      rw [show ((machine Addr).apply c a).items = (c.add a.p a.time a.reg).items from rfl, hItem,
        Option.some.injEq] at hz
      rw [← hz] at hCell
      exact Or.inl ⟨hCell.symm, rfl⟩
  · -- every other item is where it was
    have hItem : ((machine Addr).apply c a).items.get? q = c.items.get? q :=
      OrdMap.get?_insert_of_ne hq _ _
    have hAddress : ∀ sa, ((machine Addr).apply c a).referrers.get? sa = some q ↔
        c.referrers.get? sa = some q := by
      intro sa
      change (c.add a.p a.time a.reg).referrers.get? sa = some q ↔ _
      by_cases hSame : sa = a.reg.sa
      · rw [hSame, get?_add_self, Option.some.injEq]
        constructor
        · exact fun h => absurd h.symm hq
        · intro h
          rw [target, h, Option.getD_some]
      · rw [get?_add_of_ne hSame]
    simp only [hq, and_false, false_or, hItem, hAddress]
    exact hConsistent g ll q

/-- An address that has moved is in two cells. -/
theorem torn_of_not_settled (hConsistent : c.Consistent) (hWF : c.WF) (h : ¬ c.Settled a) :
    ((machine Addr).apply c a).Torn := by
  simp only [Settled, not_forall] at h
  obtain ⟨z, hz, g, hMoved⟩ := h
  obtain ⟨p, hp, hItem⟩ := Option.bind_eq_some_iff.1 hz
  obtain ⟨z', hz', hsa⟩ := hWF.item _ _ hp
  rw [hItem, Option.some.injEq] at hz'
  have hTarget : c.target a.p a.reg.sa = p := by
    rw [target, hp, Option.getD_some]
  have hOld : p ∈ c.inCell g (g.cell z.lat z.lon) := by
    refine (hConsistent g _ p).2 ⟨z, hItem, ?_, rfl⟩
    rw [hz', hsa]
    exact hp
  exact ⟨g, g.cell z.lat z.lon, g.cell a.reg.lat a.reg.lon, p, hMoved,
    mem_inCell_add.2 (Or.inr hOld), mem_inCell_add.2 (Or.inl ⟨rfl, hTarget.symm⟩)⟩

theorem consistent_default : (default : ReferrerContainer Addr).Consistent := by
  intro g ll p
  constructor
  · exact fun h => absurd h (OrdSet.notMem_empty p)
  · rintro ⟨z, hz, -⟩
    cases hz

/--
**The cells of the items.** At the end of a run every item is in the cells of
its coordinates and in no others if and only if no address moved on the way: an
`add` was of a new address, or of one whose item was in the same four cells.
-/
theorem consistent_exact (acts : List (AddCall Addr))
    (hPath : (machine Addr).Path default acts) :
    ((machine Addr).exec default acts).Consistent ↔
      ((machine Addr).guarded Settled).Path default acts := by
  have hEnd := Machine.path_guarded_or_left (m := machine Addr)
    (I := fun c => c.WF ∧ c.Consistent) (B := Torn) (g := Settled)
    (fun c a hc hEn hSettled => ⟨wf_add hc.1 hEn, consistent_add hc.2 hEn hSettled⟩)
    (fun c a hc _ hMoved => torn_of_not_settled hc.2 hc.1 hMoved)
    (fun _ _ hTorn _ => torn_add hTorn) acts default ⟨wf_default, consistent_default⟩ hPath
  rcases hEnd with ⟨hGuarded, -, hConsistent⟩ | ⟨hLeft, hTorn⟩
  · exact iff_of_true hConsistent hGuarded
  · exact iff_of_false (not_consistent_of_torn hTorn) hLeft

/-- A node at the origin, and the same node five degrees on. -/
def movedActs : List (AddCall ℕ) := [⟨0, 0, ⟨0, 0, 7, 0, 7⟩⟩, ⟨1, 1, ⟨5, 5, 7, 0, 7⟩⟩]

theorem path_movedActs : (machine ℕ).Path default movedActs := by
  refine ⟨rfl, ?_, trivial⟩
  change ((default : ReferrerContainer ℕ).add 0 0 ⟨0, 0, 7, 0, 7⟩).items.get? 1 = none
  decide

theorem consistent_exact_moved :
    ((machine ℕ).exec default movedActs).Consistent ↔
      ((machine ℕ).guarded Settled).Path default movedActs :=
  consistent_exact movedActs path_movedActs

/-- **A node that has moved** is still found where it was. -/
theorem consistent_moved :
    ¬ ∀ acts : List (AddCall ℕ), (machine ℕ).Path default acts →
      ((machine ℕ).exec default acts).Consistent := by
  intro hAll
  have hConsistent := hAll movedActs path_movedActs
  have hOld : (0 : Ptr) ∈ ((machine ℕ).exec default movedActs).inCell .degree (toLex (0, 0)) := by
    decide
  obtain ⟨z, hz, -, hCell⟩ := (hConsistent _ _ _).1 hOld
  have hItem : ((machine ℕ).exec default movedActs).items.get? 0 =
      some (Registration.item ⟨5, 5, 7, 0, 7⟩ 1) := by
    decide
  rw [hItem, Option.some.injEq] at hz
  rw [← hz] at hCell
  revert hCell
  decide

end ReferrerContainer

end Megatron.DfsCaps
