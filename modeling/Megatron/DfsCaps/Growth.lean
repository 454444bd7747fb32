import Mathlib.Data.List.Dedup
import Megatron.DfsCaps.Nearest

/-!
# The size of the table

`addReferrer` makes two containers and erases one, and `findReferrers` makes the
container and the cells it looks at.  So queries from place to place and from
hour to hour make the table grow, and so do registrations that are some hours
apart.

The table stays small as long as the queries find what they look at, and the
calls leave no container behind that is older than two hours or has what was
registered two hours ago.

## Main results

* `table_step` — what such a call keeps.
* `table_bounded` — the size of the table in such a run.
* `table_unbounded` — queries alone.
-/

namespace Megatron.DfsCaps

open Megatron.Lib

variable {Addr : Type} [LinearOrder Addr]

/-- The addresses and cells that were registered in the last two hours. -/
def World.recent (s : World Addr) (g : Grid) : List (Addr × ILatLon) :=
  ((s.log.filter fun e => decide (s.clock < e.time + 7200)).map fun e =>
    (e.reg.sa, g.cell e.reg.lat e.reg.lon)).dedup

/-- There are no more hours, and in no container more cells of a grid, than `C`
and what was registered in the last two hours. -/
def Bounded (C : Nat) (s : World Addr) : Prop :=
  ∀ g, s.caps.rcontainers.size ≤ C + (s.recent g).length ∧
    ∀ h af, ((s.caps.container h af).quadrats g).size ≤ C + (s.recent g).length

/-- The registration went into a container of the hour. -/
def Entry.Of (e : Entry Addr) (h : Nat) : Prop := e.first = h ∨ e.second = h

/-- No container is older than two hours, or has what was registered two hours
ago. -/
def Timely (log : List (Entry Addr)) (now : Nat) (x : CapsAlgorithm Addr) : Prop :=
  ∀ h, (x.rcontainers.get? h).isSome →
    hour now ≤ h + 2 ∧ ∀ e ∈ log, e.Of h → now < e.time + 7200

/-- A registration leaves timely containers behind when it has erased one; a query
finds timely ones, and what it looks at is there. -/
def Served (s : World Addr) : Act Addr → Prop
  | .add time _ _ _ => Timely s.log (time 3) s.caps.expire
  | .find time lat lon af => Timely s.log (time 1) s.caps ∧ s.caps.Known (hour (time 0)) af ∧
      ReferrerContainer.CellsThere lat lon ReferrerContainer.grids
        (s.caps.container (hour (time 0)) af) ∧
      ((s.caps.container (hour (time 0)) af).referrers.size = 0 → s.caps.Known (hour (time 1)) af)

variable {family : Addr → ℤ} {dist : Int64 → Int64 → Int64 → Int64 → ℤ} {s : World Addr}

/-! ## A query that finds what it looks at -/

namespace CapsAlgorithm

variable {x : CapsAlgorithm Addr} {time : ℕ → ℕ} {lat lon : Int64} {af : ℤ}

theorem findReferrers_of_known (hWF : (x.container (hour (time 0)) af).WF)
    (hKnown : x.Known (hour (time 0)) af)
    (hCells : ReferrerContainer.CellsThere lat lon ReferrerContainer.grids
      (x.container (hour (time 0)) af))
    (hAgain : (x.container (hour (time 0)) af).referrers.size = 0 → x.Known (hour (time 1)) af) :
    (x.findReferrers dist time lat lon af).1 = x := by
  rw [findReferrers]
  simp only [ReferrerContainer.lookFor_of_cellsThere hCells, setContainer_of_known hKnown,
    ReferrerContainer.lookFor_snd]
  split
  · rename_i hNone
    have hEmpty := hWF.nearest_eq_nil.1 (List.isEmpty_iff.1 hNone)
    exact setContainer_of_known (hAgain hEmpty)
  · rfl

end CapsAlgorithm

/-! ## What the calls keep -/

/-- What holds in a run whose calls are served. -/
structure Tabled (family : Addr → ℤ) (s : World Addr) : Prop where
  ahead : ∀ h, (s.caps.rcontainers.get? h).isSome → h ≤ hour s.clock + 1
  few : s.caps.rcontainers.size ≤ 6
  cells : ∀ h af g ll, (((s.caps.container h af).quadrats g).get? ll).isSome →
    ∃ e ∈ s.log, e.Of h ∧ g.cell e.reg.lat e.reg.lon = ll ∧ s.clock < e.time + 7200

theorem tabled_init (family : Addr → ℤ) :
    Tabled family (⟨CapsAlgorithm.construct, 0, []⟩ : World Addr) where
  ahead h hSome := by cases hSome
  few := Nat.zero_le 6
  cells h af g ll hSome := by cases hSome

/-- Where the containers are timely, there are four of them at most. -/
theorem size_le_four {x : CapsAlgorithm Addr} {log : List (Entry Addr)} {now : Nat}
    (hAhead : ∀ h, (x.rcontainers.get? h).isSome → h ≤ hour now + 1)
    (hTimely : Timely log now x) : x.rcontainers.size ≤ 4 := by
  have hKeys : ∀ h, (x.rcontainers.get? h).isSome →
      h ∈ [hour now - 2, hour now - 1, hour now, hour now + 1] := by
    intro h hSome
    have hLe := hAhead h hSome
    have hGe := (hTimely h hSome).1
    simp only [List.mem_cons, List.not_mem_nil, or_false]
    omega
  exact OrdMap.size_le_length hKeys

/-- A cell is in a container of the table. -/
theorem CapsAlgorithm.isSome_of_cell {x : CapsAlgorithm Addr} {h : Nat} {af : ℤ} {g : Grid}
    {ll : ILatLon} (hCell : (((x.container h af).quadrats g).get? ll).isSome) :
    (x.rcontainers.get? h).isSome := by
  by_contra hNone
  rw [Option.not_isSome_iff_eq_none] at hNone
  rw [container, OrdMap.at'_of_none hNone] at hCell
  cases hCell

theorem tabled_find (hWF : ∀ h af, (s.caps.container h af).WF) (hs : Tabled family s)
    {time : ℕ → ℕ} {lat lon : Int64} {af : ℤ} (hTime : Monotone time) (hClock : s.clock ≤ time 0)
    (hServed : Served s (.find time lat lon af)) :
    Tabled family ((machine family dist).apply s (.find time lat lon af)) := by
  obtain ⟨hTimely, hKnown, hCells, hAgain⟩ := hServed
  have hSame : (s.caps.findReferrers dist time lat lon af).1 = s.caps :=
    CapsAlgorithm.findReferrers_of_known (hWF (hour (time 0)) af) hKnown hCells hAgain
  have hLater : hour s.clock ≤ hour (time 1) :=
    Nat.div_le_div_right (hClock.trans (hTime (Nat.zero_le 1)))
  have hAhead : ∀ h, (s.caps.rcontainers.get? h).isSome → h ≤ hour (time 1) + 1 :=
    fun h hSome => (hs.ahead h hSome).trans (by omega)
  constructor
  · rw [caps_find, clock_find, hSame]
    exact hAhead
  · rw [caps_find, hSame]
    exact (size_le_four hAhead hTimely).trans (by decide)
  · intro h af' g ll hCell
    rw [caps_find, hSame] at hCell
    rw [log_find, clock_find]
    obtain ⟨e, he, hOf, hPlace, -⟩ := hs.cells h af' g ll hCell
    exact ⟨e, he, hOf, hPlace, (hTimely h (CapsAlgorithm.isSome_of_cell hCell)).2 e he hOf⟩

theorem tabled_add (hs : Tabled family s) {time : ℕ → ℕ} {p q : Ptr} {r : Registration Addr}
    (hTime : Monotone time) (hClock : s.clock ≤ time 0)
    (hServed : Served s (.add time p q r)) :
    Tabled family ((machine family dist).apply s (.add time p q r)) := by
  have hTimely : Timely s.log (time 3) s.caps.expire := hServed
  have hFirst : hour (time 0) ≤ hour (time 3) := Nat.div_le_div_right (hTime (by decide))
  have hSecond : hour (time 2) ≤ hour (time 3) := Nat.div_le_div_right (hTime (by decide))
  have hLater : hour s.clock ≤ hour (time 3) :=
    Nat.div_le_div_right (hClock.trans (hTime (by decide)))
  have hAhead : ∀ h, (s.caps.expire.rcontainers.get? h).isSome → h ≤ hour (time 3) + 1 :=
    fun h hSome => (hs.ahead h (CapsAlgorithm.isSome_of_expire hSome)).trans (by omega)
  constructor
  · intro h hSome
    rw [caps_add] at hSome
    rw [clock_add]
    rcases CapsAlgorithm.get?_addReferrer.1 hSome with rfl | rfl | hOld
    · omega
    · omega
    · exact hAhead h hOld
  · -- those left behind, and two new ones
    rw [caps_add]
    have hLeft := size_le_four hAhead hTimely
    have hKeys : ∀ h, ((s.caps.addReferrer family time p q r).rcontainers.get? h).isSome →
        h ∈ (hour (time 2) + 1) :: hour (time 0) ::
          s.caps.expire.rcontainers.toList.map Prod.fst := by
      intro h hSome
      rw [List.mem_cons, List.mem_cons, OrdMap.mem_keys]
      exact CapsAlgorithm.get?_addReferrer.1 hSome
    have hSize := OrdMap.size_le_length hKeys
    simp only [List.length_cons, List.length_map] at hSize
    rw [OrdMap.size] at hLeft
    omega
  · intro h af g ll hCell
    rw [caps_add, CapsAlgorithm.container_addReferrer hTime] at hCell
    rw [log_add, clock_add]
    -- a cell of a container that is left behind
    have hOld : (((s.caps.expire.container h af).quadrats g).get? ll).isSome →
        ∃ e ∈ (⟨r, hour (time 0), hour (time 2) + 1, time 3⟩ : Entry Addr) :: s.log,
          e.Of h ∧ g.cell e.reg.lat e.reg.lon = ll ∧ time 3 < e.time + 7200 := by
      intro hCell
      have hLeft := CapsAlgorithm.isSome_of_cell hCell
      have hBefore : (((s.caps.container h af).quadrats g).get? ll).isSome := by
        rcases s.caps.container_expire h af with hSame | ⟨hGone, -⟩
        · rwa [hSame] at hCell
        · rw [hGone] at hCell
          cases hCell
      obtain ⟨e, he, hOf, hPlace, -⟩ := hs.cells h af g ll hBefore
      exact ⟨e, List.mem_cons_of_mem _ he, hOf, hPlace, (hTimely h hLeft).2 e he hOf⟩
    split at hCell
    · rename_i hNew
      rcases ReferrerContainer.get?_cell_add.1 hCell with rfl | hCell
      · exact ⟨_, List.mem_cons_self, Or.inr hNew.1.symm, rfl, by simp⟩
      · exact hOld hCell
    · split at hCell
      · rename_i hNew
        rcases ReferrerContainer.get?_cell_add.1 hCell with rfl | hCell
        · exact ⟨_, List.mem_cons_self, Or.inl hNew.1.symm, rfl, by simp⟩
        · exact hOld hCell
      · exact hOld hCell

theorem table_step (hReach : (machine family dist).Reachable s) (hs : Tabled family s)
    {a : Act Addr} (hEn : ((machine family dist).guarded Served).enabled s a) :
    Tabled family ((machine family dist).apply s a) := by
  obtain ⟨⟨hTime, hClock, -⟩, hServed⟩ := hEn
  cases a with
  | add time p q r => exact tabled_add hs hTime hClock hServed
  | find time lat lon af => exact tabled_find (wf_container hReach) hs hTime hClock hServed

theorem tabled_of_reachable (hReach : ((machine family dist).guarded Served).Reachable s) :
    Tabled family s := by
  refine hReach.invariant_of_reachable ?_ ?_
  · rintro _ rfl
    exact tabled_init family
  · intro s a hReach hs hEn
    exact table_step hReach.of_guarded hs hEn

/--
**The size of the table.** In a run whose calls are served there are at most six
hours, and in no container more cells of a grid than were registered in the last
two hours.
-/
theorem table_bounded (hReach : ((machine family dist).guarded Served).Reachable s) :
    Bounded 6 s := by
  have hs := tabled_of_reachable hReach
  intro g
  refine ⟨hs.few.trans (Nat.le_add_right 6 _), fun h af => ?_⟩
  have hKeys : ∀ ll, (((s.caps.container h af).quadrats g).get? ll).isSome →
      ll ∈ (s.recent g).map Prod.snd := by
    intro ll hCell
    obtain ⟨e, he, -, hPlace, hRecent⟩ := hs.cells h af g ll hCell
    refine List.mem_map.2 ⟨(e.reg.sa, ll), ?_, rfl⟩
    rw [World.recent, List.mem_dedup, List.mem_map]
    exact ⟨e, List.mem_filter.2 ⟨he, by simpa using hRecent⟩, by rw [hPlace]⟩
  have hSize := OrdMap.size_le_length hKeys
  rw [List.length_map] at hSize
  omega

/-- An address registers, and a query finds it. -/
def askedActs : List (Act ℕ) :=
  [.add (fun _ => 3000) 0 1 ⟨1, 1, 7, 0, 7⟩, .find (fun _ => 3100) 1 1 2]

/-- The table after these calls. -/
def asked : World ℕ :=
  (machine (fun _ : ℕ => 2) fun _ _ _ _ => 0).exec ⟨CapsAlgorithm.construct, 0, []⟩ askedActs

theorem reachable_asked :
    ((machine (fun _ : ℕ => 2) fun _ _ _ _ => 0).guarded Served).Reachable asked := by
  refine ⟨_, askedActs, rfl, ?_, Machine.exec_guarded _ _ _ _⟩
  refine ⟨⟨⟨monotone_const, Nat.zero_le _, fun _ _ => rfl, fun _ _ => rfl, by decide⟩,
      fun h hSome => by cases hSome⟩,
    ⟨⟨monotone_const, by decide, trivial⟩, ?_, ⟨_, _, rfl, rfl⟩, ?_, fun _ => ⟨_, _, rfl, rfl⟩⟩,
    trivial⟩
  · intro h _
    rw [Machine.guarded_apply, log_add]
    constructor
    · exact (by decide : hour 3100 ≤ 2).trans (Nat.le_add_left 2 h)
    · intro e he _
      rw [List.mem_singleton.1 he]
      decide
  · exact ⟨rfl, fun _ => ⟨rfl, fun _ => ⟨rfl, fun _ => ⟨rfl, fun _ => trivial⟩⟩⟩⟩

theorem table_bounded_asked : Bounded 6 asked := table_bounded reachable_asked

/-! ## Queries alone -/

/-- A query in every hour. -/
theorem exists_queried (dist : Int64 → Int64 → Int64 → Int64 → ℤ) (n : Nat) :
    ∃ s, (machine (fun _ : ℕ => 2) dist).Reachable s ∧ s.log = [] ∧ s.clock ≤ 3600 * n ∧
      ∀ h < n, (s.caps.rcontainers.get? h).isSome := by
  induction n with
  | zero =>
      exact ⟨_, Machine.Reachable.init rfl, rfl, Nat.zero_le _,
        fun h hLt => absurd hLt (Nat.not_lt_zero h)⟩
  | succ n ih =>
      obtain ⟨s, hReach, hLog, hClock, hHours⟩ := ih
      have hStep := hReach.step (a := .find (fun _ => 3600 * n) 0 0 2)
        ⟨monotone_const, hClock, trivial⟩
      refine ⟨_, hStep, ?_, ?_, ?_⟩
      · rw [log_find, hLog]
      · rw [clock_find]
        omega
      · intro h hLt
        rw [caps_find]
        refine CapsAlgorithm.isSome_findReferrers ?_
        have hHour : hour (3600 * n) = n := Nat.mul_div_cancel_left n (by decide)
        rw [hHour]
        rcases Nat.lt_succ_iff_lt_or_eq.1 hLt with hBefore | rfl
        · exact Or.inr (hHours h hBefore)
        · exact Or.inl rfl

/-- **Queries alone** make the table grow beyond every bound. -/
theorem table_unbounded :
    ¬ ∃ C, ∀ s, (machine (fun _ : ℕ => 2) fun _ _ _ _ => 0).Reachable s → Bounded C s := by
  rintro ⟨C, hAll⟩
  obtain ⟨s, hReach, hLog, -, hHours⟩ := exists_queried (fun _ _ _ _ => 0) (C + 1)
  have hSize := (hAll s hReach .degree).1
  have hNone : s.recent .degree = [] := by
    rw [World.recent, hLog]
    rfl
  have hMany := OrdMap.length_le_size (m := s.caps.rcontainers) List.nodup_range
    fun h hMem => hHours h (List.mem_range.1 hMem)
  rw [hNone, List.length_nil] at hSize
  rw [List.length_range] at hMany
  omega

end Megatron.DfsCaps
