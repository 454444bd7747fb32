import Megatron.DfsCaps.Container
import Megatron.Lib.Machine
import Megatron.Lib.Ranked

/-!
# `CapsAlgorithm`

The nodes that have registered, by the hour and the family of their addresses.
A registration goes into the containers of the current and of the next hour; a
query looks in that of the current one.  `family` is `msockaddr_in::family`.  A
call reads the clock more than once: `time i` is what it reads the `i`-th time.

## Main results

* `get?_expire` — what expiry erases.
* `container_addReferrer`, `container_findReferrers` — what a call does to the
  containers.
* `container_invariant`, `wf_container` — what holds of every container of a run.
-/

namespace Megatron.DfsCaps

open Megatron.Lib

variable {Addr : Type} [LinearOrder Addr]

/-! ## `CapsAlgorithm` -/

/-- `CapsAlgorithm`. -/
structure CapsAlgorithm (Addr : Type) [LinearOrder Addr] where
  rcontainers : OrdMap Nat (OrdMap ℤ (ReferrerContainer Addr))

/-- `time(nullptr)/3600`. -/
def hour (t : Nat) : Nat := t / 3600

namespace CapsAlgorithm

/-- The constructor. -/
def construct : CapsAlgorithm Addr := ⟨∅⟩

/-- `rcontainers[h][af]`. -/
def container (x : CapsAlgorithm Addr) (h : Nat) (af : ℤ) : ReferrerContainer Addr :=
  (x.rcontainers.at' h).at' af

/-- `rcontainers[h][af]` becomes `c`. -/
def setContainer (h : Nat) (af : ℤ) (c : ReferrerContainer Addr) (x : CapsAlgorithm Addr) :
    CapsAlgorithm Addr :=
  ⟨x.rcontainers.insert h ((x.rcontainers.at' h).insert af c)⟩

/-- The first container is erased where there are more than two. -/
def expire (x : CapsAlgorithm Addr) : CapsAlgorithm Addr :=
  if x.rcontainers.size > 2 then ⟨x.rcontainers.eraseFirst⟩ else x

section

variable (family : Addr → ℤ) (dist : Int64 → Int64 → Int64 → Int64 → ℤ)

/-- `addReferrer`; `p` and `q` are for the items of the two containers. -/
def addReferrer (time : ℕ → ℕ) (p q : Ptr) (r : Registration Addr) (x : CapsAlgorithm Addr) :
    CapsAlgorithm Addr :=
  let x := x.expire
  let x := x.setContainer (hour (time 0)) (family r.sa)
    ((x.container (hour (time 0)) (family r.sa)).add p (time 1) r)
  x.setContainer (hour (time 2) + 1) (family r.sa)
    ((x.container (hour (time 2) + 1) (family r.sa)).add q (time 3) r)

/-- `findReferrers`.  The items it gives are those of the container it looks in,
and where it finds none those of the container it looks in again. -/
def findReferrers (time : ℕ → ℕ) (lat lon : Int64) (af : ℤ) (x : CapsAlgorithm Addr) :
    CapsAlgorithm Addr × List Ptr :=
  let c := x.container (hour (time 0)) af
  let (c', lookFor) := c.lookFor lat lon
  let x := x.setContainer (hour (time 0)) af c'
  let ret := Ranked.nearest maxReferrersCountInResponse (c'.distance dist lat lon) lookFor.toList
  if ret.isEmpty then
    let c := x.container (hour (time 1)) af
    (x.setContainer (hour (time 1)) af c,
      Ranked.takeSet maxReferrersCountInResponse ret c.pointers)
  else (x, ret)

end

/-- No item is allocated there. -/
def Unused (x : CapsAlgorithm Addr) (p : Ptr) : Prop :=
  ∀ h af, (x.container h af).items.get? p = none

end CapsAlgorithm

/-! ## Runs -/

/-- A call of `addReferrer`: its arguments, the hours of the two containers,
and when it was done. -/
structure Entry (Addr : Type) where
  reg : Registration Addr
  first : Nat
  second : Nat
  time : Nat

/-- The table, the clock when it was last read, and the registrations, the
last one first. -/
structure World (Addr : Type) [LinearOrder Addr] where
  caps : CapsAlgorithm Addr
  clock : Nat
  log : List (Entry Addr)

/-- The calls, with what they read from the clock. -/
inductive Act (Addr : Type) where
  | add (time : ℕ → ℕ) (p q : Ptr) (r : Registration Addr)
  | find (time : ℕ → ℕ) (lat lon : Int64) (af : ℤ)

/-- What a call reads from the clock. -/
def Act.time : Act Addr → ℕ → ℕ
  | add time _ _ _ => time
  | find time _ _ _ => time

section

variable (family : Addr → ℤ) (dist : Int64 → Int64 → Int64 → Int64 → ℤ)

/-- The calls, one after another, under a clock that never goes back. -/
def machine : Machine (World Addr) (Act Addr) where
  init s := s = ⟨CapsAlgorithm.construct, 0, []⟩
  enabled s a := Monotone a.time ∧ s.clock ≤ a.time 0 ∧
    match a with
    | .add _ p q _ => s.caps.Unused p ∧ s.caps.Unused q ∧ p ≠ q
    | .find .. => True
  apply s a :=
    match a with
    | .add time p q r =>
        ⟨s.caps.addReferrer family time p q r, time 3,
          ⟨r, hour (time 0), hour (time 2) + 1, time 3⟩ :: s.log⟩
    | .find time lat lon af => ⟨(s.caps.findReferrers dist time lat lon af).1, time 1, s.log⟩

variable {s : World Addr} {time : ℕ → ℕ} {p q : Ptr} {r : Registration Addr} {lat lon : Int64}
  {af : ℤ}

@[simp] theorem caps_add : ((machine family dist).apply s (.add time p q r)).caps =
    s.caps.addReferrer family time p q r := by
  simp only [machine]

@[simp] theorem clock_add :
    ((machine family dist).apply s (.add time p q r)).clock = time 3 := by
  simp only [machine]

@[simp] theorem log_add : ((machine family dist).apply s (.add time p q r)).log =
    ⟨r, hour (time 0), hour (time 2) + 1, time 3⟩ :: s.log := by
  simp only [machine]

@[simp] theorem caps_find : ((machine family dist).apply s (.find time lat lon af)).caps =
    (s.caps.findReferrers dist time lat lon af).1 := by
  simp only [machine]

@[simp] theorem clock_find :
    ((machine family dist).apply s (.find time lat lon af)).clock = time 1 := by
  simp only [machine]

@[simp] theorem log_find :
    ((machine family dist).apply s (.find time lat lon af)).log = s.log := by
  simp only [machine]

end

/-! ## What a call does to the table -/

namespace CapsAlgorithm

variable {x : CapsAlgorithm Addr} {h h' : Nat} {af af' : ℤ} {c : ReferrerContainer Addr}

theorem container_setContainer :
    (x.setContainer h af c).container h' af' =
      if h' = h ∧ af' = af then c else x.container h' af' := by
  rw [container, setContainer, container]
  by_cases hHour : h' = h
  · subst hHour
    rw [OrdMap.at'_insert_self]
    by_cases hFamily : af' = af
    · simp [hFamily]
    · simp [OrdMap.at'_insert_of_ne hFamily, hFamily]
  · simp [OrdMap.at'_insert_of_ne hHour, hHour]

theorem get?_setContainer :
    ((x.setContainer h af c).rcontainers.get? h').isSome ↔
      h' = h ∨ (x.rcontainers.get? h').isSome := by
  by_cases hHour : h' = h
  · simp [setContainer, hHour]
  · rw [setContainer, OrdMap.get?_insert_of_ne hHour]
    simp [hHour]

/-- There is a container for the hour and the family. -/
def Known (x : CapsAlgorithm Addr) (h : Nat) (af : ℤ) : Prop :=
  ∃ m c, x.rcontainers.get? h = some m ∧ m.get? af = some c

theorem setContainer_of_known (hKnown : x.Known h af) :
    x.setContainer h af (x.container h af) = x := by
  obtain ⟨m, c, hHour, hFamily⟩ := hKnown
  rw [setContainer, container, OrdMap.at'_of_get? hHour, OrdMap.at'_of_get? hFamily,
    OrdMap.insert_of_get? hFamily, OrdMap.insert_of_get? hHour]

/-- An hour is as it was, or it was erased, and a later one is by two or more
behind it. -/
theorem get?_expire (x : CapsAlgorithm Addr) (h : Nat) :
    x.expire.rcontainers.get? h = x.rcontainers.get? h ∨
      x.expire.rcontainers.get? h = none ∧ ∃ k, h + 2 ≤ k ∧ (x.rcontainers.get? k).isSome := by
  rw [expire]
  split
  · rename_i hSize
    rw [OrdMap.size] at hSize
    rcases hList : x.rcontainers.toList with
      _ | ⟨⟨k, m⟩, _ | ⟨⟨k₁, m₁⟩, _ | ⟨⟨k₂, m₂⟩, l⟩⟩⟩
    · simp [hList] at hSize
    · simp [hList] at hSize
    · simp [hList] at hSize
    have hGet := OrdMap.get?_eraseFirst hList h
    by_cases hFirst : h = k
    · right
      rw [if_pos hFirst] at hGet
      have hSorted := x.rcontainers.sorted
      rw [hList] at hSorted
      have hBehind := List.pairwise_cons.1 hSorted
      have hBehind' := List.pairwise_cons.1 hBehind.2
      have hLt : k < k₁ := hBehind.1 (k₁, m₁) (by simp)
      have hLt' : k₁ < k₂ := hBehind'.1 (k₂, m₂) (by simp)
      refine ⟨hGet, k₂, by omega, ?_⟩
      rw [OrdMap.mem_toList (x := m₂) |>.1 (by simp [hList])]
      rfl
    · left
      rw [if_neg hFirst] at hGet
      exact hGet
  · exact Or.inl rfl

theorem container_congr {y : CapsAlgorithm Addr} (hSame : x.rcontainers.get? h = y.rcontainers.get? h)
    (af : ℤ) : x.container h af = y.container h af := by
  have hAt : x.rcontainers.at' h = y.rcontainers.at' h := by
    rw [OrdMap.at', hSame, OrdMap.at']
  rw [container, hAt, container]

/-- A container is as it was, or it is that of an hour that was erased. -/
theorem container_expire (x : CapsAlgorithm Addr) (h : Nat) (af : ℤ) :
    x.expire.container h af = x.container h af ∨
      x.expire.container h af = default ∧ x.expire.rcontainers.get? h = none := by
  rcases x.get?_expire h with hSame | ⟨hGone, -⟩
  · exact Or.inl (container_congr hSame af)
  · refine Or.inr ⟨?_, hGone⟩
    rw [container, OrdMap.at'_of_none hGone]
    rfl

/-- What holds of a new container, and of this one, holds of it after expiry. -/
theorem container_expire_of {P : ReferrerContainer Addr → Prop} (hDefault : P default)
    (hOld : P (x.container h af)) : P (x.expire.container h af) := by
  rcases x.container_expire h af with hSame | ⟨hGone, -⟩
  · rwa [hSame]
  · rwa [hGone]

theorem isSome_of_expire (hSome : (x.expire.rcontainers.get? h).isSome) :
    (x.rcontainers.get? h).isSome := by
  rcases x.get?_expire h with hSame | ⟨hGone, -⟩
  · rwa [hSame] at hSome
  · rw [hGone] at hSome
    cases hSome

/-- Where no hour is behind the next one, the current one is not erased. -/
theorem get?_expire_of_le {H : Nat} (hAhead : ∀ k, (x.rcontainers.get? k).isSome → k ≤ H + 1)
    (hLe : H ≤ h) : x.expire.rcontainers.get? h = x.rcontainers.get? h := by
  refine (x.get?_expire h).resolve_right ?_
  rintro ⟨-, k, hBehind, hSome⟩
  have hk := hAhead k hSome
  omega

theorem unused_expire {p : Ptr} (hp : x.Unused p) : x.expire.Unused p := by
  intro h af
  exact container_expire_of (P := fun c => c.items.get? p = none) rfl (hp h af)

variable {family : Addr → ℤ} {dist : Int64 → Int64 → Int64 → Int64 → ℤ} {time : ℕ → ℕ}
  {p q : Ptr} {r : Registration Addr} {lat lon : Int64}

/-- The two hours of a registration are not the same. -/
theorem hour_lt (hTime : Monotone time) : hour (time 0) < hour (time 2) + 1 := by
  have hLe : hour (time 0) ≤ hour (time 2) := Nat.div_le_div_right (hTime (by decide))
  omega

theorem container_addReferrer (hTime : Monotone time) (x : CapsAlgorithm Addr) (h : Nat) (af : ℤ) :
    (x.addReferrer family time p q r).container h af =
      if h = hour (time 2) + 1 ∧ af = family r.sa then (x.expire.container h af).add q (time 3) r
      else if h = hour (time 0) ∧ af = family r.sa then (x.expire.container h af).add p (time 1) r
      else x.expire.container h af := by
  have hNe := (hour_lt hTime).ne'
  rw [addReferrer]
  simp only [container_setContainer]
  by_cases hSecond : h = hour (time 2) + 1 ∧ af = family r.sa
  · rw [if_pos hSecond, if_pos hSecond, if_neg (fun hFirst => hNe hFirst.1), hSecond.1, hSecond.2]
  · rw [if_neg hSecond, if_neg hSecond]
    by_cases hFirst : h = hour (time 0) ∧ af = family r.sa
    · rw [if_pos hFirst, if_pos hFirst, hFirst.1, hFirst.2]
    · rw [if_neg hFirst, if_neg hFirst]

theorem unused_addReferrer (hTime : Monotone time) (hWF : ∀ h af, (x.container h af).WF)
    {p' : Ptr} (hFree : x.Unused p') (hp : p' ≠ p) (hq : p' ≠ q) :
    (x.addReferrer family time p q r).Unused p' := by
  intro h af
  have hWF' : (x.expire.container h af).WF :=
    container_expire_of ReferrerContainer.wf_default (hWF h af)
  have hFree' := unused_expire hFree h af
  rw [container_addReferrer hTime]
  split
  · exact ReferrerContainer.unused_add hWF' hFree' hq
  · split
    · exact ReferrerContainer.unused_add hWF' hFree' hp
    · exact hFree'

theorem get?_addReferrer :
    ((x.addReferrer family time p q r).rcontainers.get? h).isSome ↔
      h = hour (time 2) + 1 ∨ h = hour (time 0) ∨ (x.expire.rcontainers.get? h).isSome := by
  rw [addReferrer, get?_setContainer, get?_setContainer]

theorem container_findReferrers (x : CapsAlgorithm Addr) (h : Nat) (af' : ℤ) :
    (x.findReferrers dist time lat lon af).1.container h af' =
      if h = hour (time 0) ∧ af' = af then ((x.container h af').lookFor lat lon).1
      else x.container h af' := by
  have hFirst : (x.setContainer (hour (time 0)) af
      ((x.container (hour (time 0)) af).lookFor lat lon).1).container h af' =
        if h = hour (time 0) ∧ af' = af then ((x.container h af').lookFor lat lon).1
        else x.container h af' := by
    rw [container_setContainer]
    split
    · rename_i hSame
      rw [hSame.1, hSame.2]
    · rfl
  rw [findReferrers]
  simp only
  split
  · rw [container_setContainer]
    split
    · rename_i hSame
      obtain ⟨rfl, rfl⟩ := hSame
      exact hFirst
    · exact hFirst
  · exact hFirst

theorem get?_findReferrers :
    ((x.findReferrers dist time lat lon af).1.rcontainers.get? h).isSome →
      h = hour (time 0) ∨ h = hour (time 1) ∨ (x.rcontainers.get? h).isSome := by
  rw [findReferrers]
  simp only
  split
  · rw [get?_setContainer, get?_setContainer]
    exact or_left_comm.1
  · rw [get?_setContainer]
    exact Or.imp_right Or.inr

theorem isSome_findReferrers
    (hSome : h = hour (time 0) ∨ (x.rcontainers.get? h).isSome) :
    ((x.findReferrers dist time lat lon af).1.rcontainers.get? h).isSome := by
  rw [findReferrers]
  simp only
  split
  · exact get?_setContainer.2 (Or.inr (get?_setContainer.2 hSome))
  · exact get?_setContainer.2 hSome

end CapsAlgorithm

/-! ## Every container of a run -/

section

variable {family : Addr → ℤ} {dist : Int64 → Int64 → Int64 → Int64 → ℤ}

/-- What a new container has, and `add` and a query keep, every container of a
run has. -/
theorem container_invariant {P : ReferrerContainer Addr → Prop} (hDefault : P default)
    (hAdd : ∀ c p time r, P c → c.items.get? p = none → P (c.add p time r))
    (hLook : ∀ c lat lon, P c → P (c.lookFor lat lon).1)
    {s : World Addr} (hReach : (machine family dist).Reachable s) (h : Nat) (af : ℤ) :
    P (s.caps.container h af) := by
  refine Machine.Reachable.invariant (m := machine family dist)
    (I := fun s => ∀ h af, P (s.caps.container h af)) ?_ ?_ hReach h af
  · rintro _ rfl h af
    exact hDefault
  · rintro s (⟨time, p, q, r⟩ | ⟨time, lat, lon, af'⟩) hs hEn h af
    · obtain ⟨hMono, -, hp, hq, -⟩ := hEn
      have hTime : Monotone time := hMono
      have hExpired : P (s.caps.expire.container h af) :=
        CapsAlgorithm.container_expire_of hDefault (hs h af)
      rw [caps_add, CapsAlgorithm.container_addReferrer hTime]
      split
      · exact hAdd _ _ _ _ hExpired (CapsAlgorithm.unused_expire hq h af)
      · split
        · exact hAdd _ _ _ _ hExpired (CapsAlgorithm.unused_expire hp h af)
        · exact hExpired
    · rw [caps_find, CapsAlgorithm.container_findReferrers]
      split
      · exact hLook _ _ _ (hs h af)
      · exact hs h af

theorem wf_container {s : World Addr} (hReach : (machine family dist).Reachable s) (h : Nat)
    (af : ℤ) : (s.caps.container h af).WF :=
  container_invariant ReferrerContainer.wf_default
    (fun _ _ _ _ hWF hFresh => ReferrerContainer.wf_add hWF hFresh)
    (fun _ lat lon hWF => ReferrerContainer.wf_lookFor hWF lat lon) hReach h af

end

end Megatron.DfsCaps
