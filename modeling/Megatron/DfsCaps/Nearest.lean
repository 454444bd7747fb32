import Megatron.DfsCaps.Algorithm

/-!
# The nearest referrers

`CapsAlgorithm::findReferrers` ranks the items it chooses from by their distance
and gives the first of them.  The loops stop where there are more than
`MAX_REFFERRERS_COUNT_IN_RESPONSE`, which is one too many.  Where the container
of the hour is empty, the items are those of a container looked up again, and
the hour may have passed.

## Main results

* `length_candidates_le` — when a query chooses from few.
* `findReferrers_ret` — what a query gives.
* `findReferrers_exact` — when that is what was asked for.
* `findReferrers_too_many` — forty-one referrers.
-/

namespace Megatron.DfsCaps

open Megatron.Lib

variable {Addr : Type} [LinearOrder Addr]

namespace ReferrerContainer

variable {c : ReferrerContainer Addr} {lat lon : Int64}

/-! ## The candidates -/

theorem mem_pointers {p : Ptr} : p ∈ c.pointers ↔ ∃ a, c.referrers.get? a = some p := by
  rw [pointers, List.mem_map]
  constructor
  · rintro ⟨⟨a, p⟩, hMem, rfl⟩
    exact ⟨a, OrdMap.mem_toList.1 hMem⟩
  · rintro ⟨a, ha⟩
    exact ⟨(a, p), OrdMap.mem_toList.2 ha, rfl⟩

/-- No two addresses share an item. -/
theorem WF.nodup_pointers (hWF : c.WF) : c.pointers.Nodup := by
  refine List.pairwise_map.2 (c.referrers.sorted.imp_of_mem ?_)
  rintro ⟨a, p⟩ ⟨a', p'⟩ hMem hMem' hLt hSame
  obtain ⟨z, hz, hsa⟩ := hWF.item a p (OrdMap.mem_toList.1 hMem)
  obtain ⟨z', hz', hsa'⟩ := hWF.item a' p' (OrdMap.mem_toList.1 hMem')
  have hPtr : p = p' := hSame
  rw [← hPtr, hz, Option.some.injEq] at hz'
  rw [← hz', hsa] at hsa'
  exact hLt.ne hsa'

theorem length_pointers : c.pointers.length = c.referrers.size := List.length_map _

theorem mem_foldl_insert {l : List Ptr} {s : OrdSet Ptr} {p : Ptr} :
    p ∈ l.foldl (fun s z => s.insert z) s ↔ p ∈ s ∨ p ∈ l := by
  induction l generalizing s with
  | nil => simp
  | cons z l ih =>
      rw [List.foldl_cons, ih, OrdSet.mem_insert, List.mem_cons]
      tauto

theorem mem_everyone {p : Ptr} : p ∈ c.everyone ↔ p ∈ c.pointers := by
  rw [everyone, mem_foldl_insert]
  simp

theorem nodup_toList (s : OrdSet Ptr) : s.toList.Nodup := s.sorted.imp fun h => h.ne

theorem WF.length_everyone (hWF : c.WF) : c.everyone.toList.length = c.referrers.size := by
  have hPerm : c.everyone.toList.Perm c.pointers :=
    (List.perm_ext_iff_of_nodup (nodup_toList _) hWF.nodup_pointers).2 fun _ => mem_everyone
  rw [hPerm.length_eq, length_pointers]

/-- A cell has no more items than there are addresses. -/
theorem WF.length_inCell_le (hWF : c.WF) (g : Grid) (ll : ILatLon) :
    (c.inCell g ll).toList.length ≤ c.referrers.size := by
  have hSubset : (c.inCell g ll).toList ⊆ c.pointers := fun p hp =>
    mem_pointers.2 (hWF.inCell g ll p hp)
  rw [← length_pointers]
  exact (List.subperm_of_subset (nodup_toList _) hSubset).length_le

/-- A query chooses from a cell with more than the maximum, or from everyone. -/
theorem candidates_cases (c : ReferrerContainer Addr) (lat lon : Int64) :
    (∃ g ll, c.candidates lat lon = c.inCell g ll ∧
      maxReferrersCountInResponse < (c.inCell g ll).toList.length) ∨
      c.candidates lat lon = c.everyone := by
  rw [candidates]
  split
  · rename_i g h
    have hMany := List.find?_some h
    exact Or.inl ⟨g, g.cell lat lon, rfl, by simpa using hMany⟩
  · exact Or.inr rfl

theorem WF.length_candidates_le (hWF : c.WF) (lat lon : Int64) :
    (c.candidates lat lon).toList.length ≤ maxReferrersCountInResponse ↔
      c.referrers.size ≤ maxReferrersCountInResponse := by
  rcases c.candidates_cases lat lon with ⟨g, ll, hCell, hMany⟩ | hAll
  · have hLe := hWF.length_inCell_le g ll
    rw [hCell]
    omega
  · rw [hAll, hWF.length_everyone]

theorem WF.candidates_eq_nil (hWF : c.WF) :
    (c.candidates lat lon).toList = [] ↔ c.referrers.size = 0 := by
  rw [← List.length_eq_zero_iff]
  rcases c.candidates_cases lat lon with ⟨g, ll, hCell, hMany⟩ | hAll
  · have hLe := hWF.length_inCell_le g ll
    rw [hCell]
    omega
  · rw [hAll, hWF.length_everyone]

/-- The nearest of the candidates, one more than the maximum of them. -/
theorem foremost_nearest (dist : Int64 → Int64 → Int64 → Int64 → ℤ) (c : ReferrerContainer Addr)
    (lat lon : Int64) :
    Ranked.Foremost (maxReferrersCountInResponse + 1) (c.distance dist lat lon)
      (c.candidates lat lon).toList
      (Ranked.nearest maxReferrersCountInResponse (c.distance dist lat lon)
        (c.candidates lat lon).toList) :=
  Ranked.foremost_nearest _ (nodup_toList _)

theorem WF.nearest_eq_nil {dist : Int64 → Int64 → Int64 → Int64 → ℤ} (hWF : c.WF) :
    Ranked.nearest maxReferrersCountInResponse (c.distance dist lat lon)
      (c.candidates lat lon).toList = [] ↔ c.referrers.size = 0 := by
  have hLength := (foremost_nearest dist c lat lon).length
  have hNone : (c.candidates lat lon).toList = [] ↔ c.referrers.size = 0 := hWF.candidates_eq_nil
  rw [← hNone, ← List.length_eq_zero_iff, hLength, ← List.length_eq_zero_iff]
  omega

end ReferrerContainer

/-! ## What a query gives -/

namespace CapsAlgorithm

variable {x : CapsAlgorithm Addr} {family : Addr → ℤ}
  {dist : Int64 → Int64 → Int64 → Int64 → ℤ} {time : ℕ → ℕ} {lat lon : Int64} {af : ℤ}

/-- The first of the candidates by their distance, and one more than the maximum
of them; where there are no candidates, the first of the container that is
looked up again. -/
theorem findReferrers_ret :
    (x.findReferrers dist time lat lon af).2 =
      let c := x.container (hour (time 0)) af
      let near := Ranked.nearest maxReferrersCountInResponse (c.distance dist lat lon)
        (c.candidates lat lon).toList
      if near = [] then (x.container (hour (time 1)) af).pointers.take
        (maxReferrersCountInResponse + 1)
      else near := by
  set c := x.container (hour (time 0)) af with hc
  have hAlike := ReferrerContainer.alike_lookFor lat lon c
  have hDistance : (c.lookFor lat lon).1.distance dist lat lon = c.distance dist lat lon := by
    funext p
    rw [ReferrerContainer.distance, ReferrerContainer.distance, hAlike.items]
  have hAgain : ((x.setContainer (hour (time 0)) af (c.lookFor lat lon).1).container
      (hour (time 1)) af).pointers = (x.container (hour (time 1)) af).pointers := by
    rw [container_setContainer]
    split
    · rename_i hSame
      rw [ReferrerContainer.pointers, hAlike.referrers, hc, hSame.1, ReferrerContainer.pointers]
    · rfl
  rw [findReferrers]
  simp only [← hc, hDistance, ReferrerContainer.lookFor_snd, List.isEmpty_iff]
  split
  · rename_i hNone
    rw [hNone, Ranked.takeSet_eq (Nat.zero_le _), List.nil_append, hAgain]
  · rfl

/-- Where there are more addresses than the maximum, there is one too many in the
answer. -/
theorem length_findReferrers (hWF : (x.container (hour (time 0)) af).WF)
    (hMany : maxReferrersCountInResponse < (x.container (hour (time 0)) af).referrers.size) :
    (x.findReferrers dist time lat lon af).2.length = maxReferrersCountInResponse + 1 := by
  have hFew := hWF.length_candidates_le lat lon
  have hLength := (ReferrerContainer.foremost_nearest dist
    (x.container (hour (time 0)) af) lat lon).length
  rw [findReferrers_ret]
  simp only
  split
  · rename_i hNone
    rw [hWF.nearest_eq_nil] at hNone
    omega
  · omega

/-- The answer to a query: as many of the candidates as there are, but not more
than the maximum, each of them once, the nearest of them and the nearest first. -/
def Answers (dist : Int64 → Int64 → Int64 → Int64 → ℤ) (time : ℕ → ℕ) (lat lon : Int64) (af : ℤ)
    (x : CapsAlgorithm Addr) : Prop :=
  let c := x.container (hour (time 0)) af
  Ranked.Foremost maxReferrersCountInResponse (c.distance dist lat lon)
    (c.candidates lat lon).toList (x.findReferrers dist time lat lon af).2

/-- Where the container of the hour has no items, none are asked for. -/
theorem answers_of_empty (hWF : (x.container (hour (time 0)) af).WF)
    (hEmpty : (x.container (hour (time 0)) af).referrers.size = 0) :
    x.Answers dist time lat lon af ↔ (x.container (hour (time 1)) af).referrers.size = 0 := by
  have hNone : ((x.container (hour (time 0)) af).candidates lat lon).toList = [] :=
    hWF.candidates_eq_nil.2 hEmpty
  rw [Answers, findReferrers_ret]
  simp only
  rw [if_pos (hWF.nearest_eq_nil.2 hEmpty), hNone]
  constructor
  · intro hForemost
    have hGiven := hForemost.length
    rw [List.length_take, ReferrerContainer.length_pointers, List.length_nil] at hGiven
    omega
  · intro hEmpty'
    have hGiven : (x.container (hour (time 1)) af).pointers = [] := by
      rw [← List.length_eq_zero_iff, ReferrerContainer.length_pointers, hEmpty']
    rw [hGiven, List.take_nil]
    exact ⟨List.nodup_nil, List.nil_subset _, rfl, List.Pairwise.nil, by simp⟩

/-- Where it has some, they are given as long as there are not too many. -/
theorem answers_of_pos (hWF : (x.container (hour (time 0)) af).WF)
    (hPos : 0 < (x.container (hour (time 0)) af).referrers.size) :
    x.Answers dist time lat lon af ↔
      (x.container (hour (time 0)) af).referrers.size ≤ maxReferrersCountInResponse := by
  have hMost := ReferrerContainer.foremost_nearest dist (x.container (hour (time 0)) af) lat lon
  have hLength := hMost.length
  have hFew := hWF.length_candidates_le lat lon
  rw [Answers, findReferrers_ret]
  simp only
  rw [if_neg (hWF.nearest_eq_nil.not.2 hPos.ne')]
  constructor
  · -- there would be one too many
    intro hForemost
    have hGiven := hForemost.length
    rw [← hFew]
    omega
  · intro hLe
    have hCandidates := hFew.2 hLe
    exact ⟨hMost.nodup, hMost.subset, by omega, hMost.sorted, hMost.left⟩

end CapsAlgorithm

/--
**What a query gives.** It is what was asked for if and only if the container has
no more addresses than the maximum, and where it has none, that of the hour when
the clock is read again has none either.
-/
theorem findReferrers_exact {family : Addr → ℤ} {dist : Int64 → Int64 → Int64 → Int64 → ℤ}
    {s : World Addr} (hReach : (machine family dist).Reachable s) (time : ℕ → ℕ)
    (lat lon : Int64) (af : ℤ) :
    s.caps.Answers dist time lat lon af ↔
      (s.caps.container (hour (time 0)) af).referrers.size ≤ maxReferrersCountInResponse ∧
        ((s.caps.container (hour (time 0)) af).referrers.size = 0 →
          (s.caps.container (hour (time 1)) af).referrers.size = 0) := by
  have hWF := wf_container hReach (hour (time 0)) af
  rcases Nat.eq_zero_or_pos (s.caps.container (hour (time 0)) af).referrers.size with hEmpty | hPos
  · rw [CapsAlgorithm.answers_of_empty hWF hEmpty]
    exact ⟨fun h => ⟨hEmpty.trans_le (Nat.zero_le _), fun _ => h⟩, fun h => h.2 hEmpty⟩
  · rw [CapsAlgorithm.answers_of_pos hWF hPos]
    exact ⟨fun h => ⟨h, fun hEmpty => absurd hEmpty hPos.ne'⟩, fun h => h.1⟩

/-! ## Forty-one referrers -/

/-- The sum of the two squares. -/
def squares (lat lon lat' lon' : Int64) : ℤ :=
  (lat.toInt - lat'.toInt) * (lat.toInt - lat'.toInt) +
    (lon.toInt - lon'.toInt) * (lon.toInt - lon'.toInt)

/-- The address `7` registers, and nobody else. -/
def oneAct : Act ℕ := .add (fun _ => 0) 0 1 ⟨1, 1, 7, 0, 7⟩

theorem reachable_oneAct : (machine (fun _ : ℕ => 2) squares).Reachable
    ((machine (fun _ : ℕ => 2) squares).apply ⟨CapsAlgorithm.construct, 0, []⟩ oneAct) :=
  (Machine.Reachable.init rfl).step
    ⟨monotone_const, Nat.le_refl 0, fun _ _ => rfl, fun _ _ => rfl, by decide⟩

theorem findReferrers_exact_one :
    ((machine (fun _ : ℕ => 2) squares).apply ⟨CapsAlgorithm.construct, 0, []⟩
      oneAct).caps.Answers squares (fun _ => 10) 0 0 2 :=
  (findReferrers_exact reachable_oneAct (fun _ => 10) 0 0 2).2 (by decide)

/-- As many addresses as you like register in the first second. -/
theorem exists_crowd (n : Nat) : ∃ s, (machine (fun _ : ℕ => 2) squares).Reachable s ∧
    s.clock = 0 ∧ (∀ k, (s.caps.rcontainers.get? k).isSome → k ≤ 1) ∧
    (∀ a, ((s.caps.container 0 2).referrers.get? a).isSome ↔ a < n) ∧
    ∀ p, 2 * n ≤ p → s.caps.Unused p := by
  induction n with
  | zero =>
      exact ⟨_, Machine.Reachable.init rfl, rfl, fun k hk => (by cases hk),
        fun a => iff_of_false Bool.false_ne_true (Nat.not_lt_zero a), fun p _ _ _ => rfl⟩
  | succ n ih =>
      obtain ⟨s, hReach, hClock, hKeys, hCrowd, hFree⟩ := ih
      have hTime : Monotone (fun _ : ℕ => 0) := monotone_const
      have hStep := hReach.step
        (a := .add (fun _ => 0) (2 * n) (2 * n + 1) ⟨0, 0, n, 0, n⟩)
        ⟨hTime, hClock.le, hFree _ le_rfl, hFree _ (Nat.le_succ _), (Nat.lt_succ_self _).ne⟩
      refine ⟨_, hStep, rfl, ?_, ?_, ?_⟩
      · intro k hk
        rcases CapsAlgorithm.get?_addReferrer.1 hk with rfl | rfl | hOld
        · exact Nat.le_refl 1
        · exact Nat.zero_le 1
        · exact hKeys k (CapsAlgorithm.isSome_of_expire hOld)
      · intro a
        have hKept : s.caps.expire.container 0 2 = s.caps.container 0 2 :=
          CapsAlgorithm.container_congr
            (CapsAlgorithm.get?_expire_of_le (H := 0) hKeys (Nat.le_refl 0)) 2
        rw [caps_add, CapsAlgorithm.container_addReferrer hTime, if_neg (by decide),
          if_pos ⟨by decide, rfl⟩, hKept]
        by_cases hSame : a = n
        · subst hSame
          rw [ReferrerContainer.get?_add_self]
          simp
        · rw [ReferrerContainer.get?_add_of_ne hSame, hCrowd]
          omega
      · intro p hp
        have hFirst : p ≠ 2 * n := by omega
        have hSecond : p ≠ 2 * n + 1 := by omega
        rw [caps_add]
        exact CapsAlgorithm.unused_addReferrer hTime (wf_container hReach) (hFree p (by omega))
          hFirst hSecond

/-- **Forty-one referrers** are given where forty are asked for. -/
theorem findReferrers_too_many :
    ¬ ∀ s, (machine (fun _ : ℕ => 2) squares).Reachable s →
      ∀ (time : ℕ → ℕ) (lat lon : Int64) (af : ℤ), Monotone time → s.clock ≤ time 0 →
        s.caps.Answers squares time lat lon af := by
  intro hAll
  obtain ⟨s, hReach, hClock, -, hCrowd, -⟩ := exists_crowd 41
  have hForemost := hAll s hReach (fun _ => 0) 0 0 2 monotone_const hClock.le
  have hMany := OrdMap.length_le_size (m := (s.caps.container 0 2).referrers) List.nodup_range
    fun a ha => (hCrowd a).2 (List.mem_range.1 ha)
  rw [List.length_range] at hMany
  have hGiven : (s.caps.findReferrers squares (fun _ => 0) 0 0 2).2.length = 41 :=
    CapsAlgorithm.length_findReferrers (wf_container hReach 0 2) hMany
  have hAsked := hForemost.length
  rw [hGiven] at hAsked
  exact absurd (hAsked.trans_le (Nat.min_le_right _ _)) (Nat.not_succ_le_self _)

end Megatron.DfsCaps
