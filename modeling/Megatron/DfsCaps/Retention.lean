import Megatron.DfsCaps.Algorithm

/-!
# How long a referrer is kept

A registration goes into the container of its hour and into that of the next
one, and `addReferrer` erases the first container where there are more than two,
whatever the clock says.  No container is of an hour behind the next one, so the
first of three is one of an hour that has passed.

## Main results

* `retained_step` — what a call keeps of the registrations.
* `referrers_retained` — how long a referrer is where it was put, and what is
  erased.
-/

namespace Megatron.DfsCaps

open Megatron.Lib

variable {Addr : Type} [LinearOrder Addr]

/-- The clock stands still in a call. -/
def Steady (_ : World Addr) (a : Act Addr) : Prop := ∀ i, a.time i = a.time 0

/-- The last registration of an address. -/
def World.latest (s : World Addr) (sa : Addr) : Option (Entry Addr) :=
  s.log.find? fun e => decide (e.reg.sa = sa)

/-- The registrations are in the containers of the current and of the next hour,
and there are no later ones. -/
structure Retained (family : Addr → ℤ) (s : World Addr) : Prop where
  ahead : ∀ k, (s.caps.rcontainers.get? k).isSome → k ≤ hour s.clock + 1
  past : ∀ e ∈ s.log, e.time ≤ s.clock
  ordered : s.log.Pairwise fun e e' => e'.time ≤ e.time
  kept : ∀ sa e, s.latest sa = some e → ∀ k, k = hour e.time ∨ k = hour e.time + 1 →
    hour s.clock ≤ k →
      (s.caps.container k (family sa)).item? sa = some (e.reg.item e.time)

variable {family : Addr → ℤ} {dist : Int64 → Int64 → Int64 → Int64 → ℤ} {s : World Addr}

theorem hour_mono {t t' : Nat} (h : t ≤ t') : hour t ≤ hour t' := Nat.div_le_div_right h

theorem retained_init (family : Addr → ℤ) :
    Retained family (⟨CapsAlgorithm.construct, 0, []⟩ : World Addr) where
  ahead k hk := by cases hk
  past e he := by cases he
  ordered := List.Pairwise.nil
  kept sa e he := by cases he

theorem ReferrerContainer.Alike.item? {c c' : ReferrerContainer Addr}
    (h : ReferrerContainer.Alike c c') (sa : Addr) : c'.item? sa = c.item? sa := by
  rw [ReferrerContainer.item?, ReferrerContainer.item?, h.referrers, h.items]

/-- A query keeps the registrations: it makes no item, and no container but that
of the hour. -/
theorem retained_find (hs : Retained family s) {time : ℕ → ℕ} {lat lon : Int64} {af : ℤ}
    (hClock : s.clock ≤ time 0) (hSteady : ∀ i, time i = time 0) :
    Retained family ((machine family dist).apply s (.find time lat lon af)) := by
  have hLater : hour s.clock ≤ hour (time 0) := hour_mono hClock
  constructor
  · intro k hk
    rw [caps_find] at hk
    have hKey := CapsAlgorithm.get?_findReferrers hk
    rw [clock_find, hSteady 1]
    rw [hSteady 1] at hKey
    rcases hKey with rfl | rfl | hOld
    · exact Nat.le_succ _
    · exact Nat.le_succ _
    · exact (hs.ahead k hOld).trans (by omega)
  · intro e he
    rw [log_find] at he
    rw [clock_find, hSteady 1]
    exact (hs.past e he).trans hClock
  · rw [log_find]
    exact hs.ordered
  · intro sa e hLatest k hk hLe
    rw [World.latest, log_find, ← World.latest] at hLatest
    rw [clock_find, hSteady 1] at hLe
    have hOld := hs.kept sa e hLatest k hk (hLater.trans hLe)
    rw [caps_find, CapsAlgorithm.container_findReferrers, ← hOld]
    split
    · exact (ReferrerContainer.alike_lookFor lat lon _).item? sa
    · rfl

/-- A registration is put where it belongs, and the others of these hours stay. -/
theorem retained_add (hWF : ∀ h af, (s.caps.container h af).WF) (hs : Retained family s)
    {time : ℕ → ℕ} {p q : Ptr} {r : Registration Addr} (hTime : Monotone time)
    (hClock : s.clock ≤ time 0) (hp : s.caps.Unused p) (hq : s.caps.Unused q)
    (hSteady : ∀ i, time i = time 0) :
    Retained family ((machine family dist).apply s (.add time p q r)) := by
  have hLater : hour s.clock ≤ hour (time 0) := hour_mono hClock
  constructor
  · intro k hk
    rw [caps_add] at hk
    rw [clock_add, hSteady 3]
    rcases CapsAlgorithm.get?_addReferrer.1 hk with rfl | rfl | hOld
    · rw [hSteady 2]
    · exact Nat.le_succ _
    · exact (hs.ahead k (CapsAlgorithm.isSome_of_expire hOld)).trans (by omega)
  · intro e he
    rw [log_add] at he
    rw [clock_add, hSteady 3]
    rcases List.mem_cons.1 he with rfl | he
    · exact (hSteady 3).le
    · exact (hs.past e he).trans hClock
  · rw [log_add]
    refine List.pairwise_cons.2 ⟨fun e he => ?_, hs.ordered⟩
    rw [hSteady 3]
    exact (hs.past e he).trans hClock
  · intro sa e hLatest k hk hLe
    rw [World.latest, log_add] at hLatest
    rw [clock_add, hSteady 3] at hLe
    rw [caps_add, CapsAlgorithm.container_addReferrer hTime]
    by_cases hSame : r.sa = sa
    · -- the address that registers
      subst hSame
      obtain rfl : (⟨r, hour (time 0), hour (time 2) + 1, time 3⟩ : Entry Addr) = e := by
        simpa using hLatest
      simp only [hSteady 3, hSteady 2, hSteady 1, and_true] at hk ⊢
      rcases hk with rfl | rfl
      · rw [if_neg (by omega), if_pos rfl]
        exact ReferrerContainer.item?_add_self
      · rw [if_pos rfl]
        exact ReferrerContainer.item?_add_self
    · -- the others, which are not in the way of expiry
      rw [List.find?_cons_of_neg (by simpa using hSame), ← World.latest] at hLatest
      have hOld := hs.kept sa e hLatest k hk (hLater.trans hLe)
      have hKept : s.caps.expire.container k (family sa) = s.caps.container k (family sa) :=
        CapsAlgorithm.container_congr
          (CapsAlgorithm.get?_expire_of_le hs.ahead (hLater.trans hLe)) _
      rw [hKept, ← hOld]
      have hNe : sa ≠ r.sa := fun h => hSame h.symm
      split
      · exact (hWF k _).item?_add_of_ne (hq k _) hNe
      · split
        · exact (hWF k _).item?_add_of_ne (hp k _) hNe
        · rfl

theorem retained_step (hReach : (machine family dist).Reachable s) (hs : Retained family s)
    {a : Act Addr} (hEn : ((machine family dist).guarded Steady).enabled s a) :
    Retained family ((machine family dist).apply s a) := by
  obtain ⟨⟨hTime, hClock, hFree⟩, hSteady⟩ := hEn
  cases a with
  | add time p q r =>
      exact retained_add (wf_container hReach) hs hTime hClock hFree.1 hFree.2.1 hSteady
  | find time lat lon af => exact retained_find hs hClock hSteady

theorem retained_of_reachable
    (hReach : ((machine family dist).guarded Steady).Reachable s) : Retained family s := by
  refine hReach.invariant_of_reachable ?_ ?_
  · rintro _ rfl
    exact retained_init family
  · intro s a hReach hs hEn
    exact retained_step hReach.of_guarded hs hEn

/-- The last registration of an address is not before any other one. -/
theorem Retained.exists_latest (hs : Retained family s) {e : Entry Addr} (he : e ∈ s.log) :
    ∃ last, s.latest e.reg.sa = some last ∧ e.time ≤ last.time ∧ last.time ≤ s.clock := by
  obtain ⟨last, hLast⟩ : ∃ last, s.latest e.reg.sa = some last := by
    rw [← Option.isSome_iff_exists, World.latest, List.find?_isSome]
    exact ⟨e, he, by simp⟩
  refine ⟨last, hLast, ?_, hs.past last (List.mem_of_find?_eq_some hLast)⟩
  obtain ⟨-, newer, older, hLog, hNewer⟩ := List.find?_eq_some_iff_append.1 hLast
  have hOrdered := hs.ordered
  rw [hLog] at he hOrdered
  rcases List.mem_append.1 he with hFront | hBack
  · exact absurd (hNewer e hFront) (by simp)
  · rcases List.mem_cons.1 hBack with rfl | hBack
    · exact Nat.le_refl _
    · exact (List.pairwise_cons.1 (List.pairwise_append.1 hOrdered).2.1).1 e hBack

/--
**How long a referrer is kept.** At any time `now` after a run, the address of a
registration has the item of its last registration in the container of the hour
of the first as long as that is the current hour, and in the container of the
hour behind it as long as that has not passed.  If a call comes now, what it
erases is of an hour that has passed.
-/
theorem referrers_retained (hReach : ((machine family dist).guarded Steady).Reachable s)
    {now : Nat} (hNow : s.clock ≤ now) :
    (∀ e ∈ s.log, ∃ last, s.latest e.reg.sa = some last ∧
      (hour now = hour e.time →
        (s.caps.container (hour e.time) (family e.reg.sa)).item? e.reg.sa =
          some (last.reg.item last.time)) ∧
      (hour now ≤ hour e.time + 1 →
        (s.caps.container (hour e.time + 1) (family e.reg.sa)).item? e.reg.sa =
          some (last.reg.item last.time))) ∧
    ∀ k, (s.caps.rcontainers.get? k).isSome → s.caps.expire.rcontainers.get? k = none →
      k < hour now := by
  have hs := retained_of_reachable hReach
  have hClock : hour s.clock ≤ hour now := hour_mono hNow
  constructor
  · intro e he
    obtain ⟨last, hLast, hAfter, hPast⟩ := hs.exists_latest he
    have hLater : hour e.time ≤ hour last.time := hour_mono hAfter
    have hBefore : hour last.time ≤ hour s.clock := hour_mono hPast
    refine ⟨last, hLast, fun hCurrent => ?_, fun hNext => ?_⟩
    · exact hs.kept _ last hLast _ (by omega) (by omega)
    · exact hs.kept _ last hLast _ (by omega) (by omega)
  · intro k hSome hGone
    by_contra hLate
    have hKept := CapsAlgorithm.get?_expire_of_le hs.ahead (hClock.trans (not_lt.1 hLate))
    rw [hGone] at hKept
    rw [← hKept] at hSome
    cases hSome

/-- An address registers, and again from elsewhere in the next hour. -/
def twiceActs : List (Act ℕ) :=
  [.add (fun _ => 3000) 0 1 ⟨1, 1, 7, 0, 7⟩, .add (fun _ => 4000) 2 3 ⟨2, 2, 7, 5, 7⟩]

/-- The table after these registrations. -/
def twice : World ℕ :=
  (machine (fun _ : ℕ => 2) fun _ _ _ _ => 0).exec ⟨CapsAlgorithm.construct, 0, []⟩ twiceActs

theorem reachable_twice :
    ((machine (fun _ : ℕ => 2) fun _ _ _ _ => 0).guarded Steady).Reachable twice := by
  refine ⟨_, twiceActs, rfl, ?_, Machine.exec_guarded _ _ _ _⟩
  have hOld : ∀ p : ℕ, 2 ≤ p → ((machine (fun _ : ℕ => 2) fun _ _ _ _ => 0).apply
      ⟨CapsAlgorithm.construct, 0, []⟩
      (.add (fun _ => 3000) 0 1 ⟨1, 1, 7, 0, 7⟩)).caps.Unused p := by
    intro p hp
    have hFirst : p ≠ 0 := by omega
    have hSecond : p ≠ 1 := by omega
    rw [caps_add]
    exact CapsAlgorithm.unused_addReferrer monotone_const
      (fun _ _ => ReferrerContainer.wf_default) (fun _ _ => rfl) hFirst hSecond
  exact ⟨⟨⟨monotone_const, Nat.zero_le _, fun _ _ => rfl, fun _ _ => rfl, by decide⟩,
      fun _ => rfl⟩,
    ⟨⟨monotone_const, by decide, hOld 2 (by decide), hOld 3 (by decide), by decide⟩,
      fun _ => rfl⟩, trivial⟩

theorem referrers_retained_twice :
    (∀ e ∈ twice.log, ∃ last, twice.latest e.reg.sa = some last ∧
      (hour 4500 = hour e.time → (twice.caps.container (hour e.time) 2).item? e.reg.sa =
        some (last.reg.item last.time)) ∧
      (hour 4500 ≤ hour e.time + 1 →
        (twice.caps.container (hour e.time + 1) 2).item? e.reg.sa =
          some (last.reg.item last.time))) ∧
    ∀ k, (twice.caps.rcontainers.get? k).isSome → twice.caps.expire.rcontainers.get? k = none →
      k < hour 4500 :=
  referrers_retained reachable_twice (by decide)

end Megatron.DfsCaps
