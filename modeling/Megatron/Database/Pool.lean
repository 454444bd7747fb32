import Mathlib.Data.List.Nodup
import Mathlib.Data.List.Perm.Subperm
import Megatron.Lib.Machine

/-!
# The connection pools

`DBH_source_mysql` and `DBH_source_postgres` keep the connections that nobody
holds in `container_MX`.  `get` takes the first of them that has not been idle
for too long, and drops those before it; where there is none it compares the
number of idle connections it has found, not of those that are out, with
`max_connections`, and opens one outside of the lock.  `unget` puts a valid
connection back.

An `Action` is one critical section of one client, or what happens to it
outside: a connection opened or not, a query.  The clock is what the environment
says it is.

## Main results

* `distinct_of_reachable` — nobody holds what another holds, or what is idle.
* `within_of_reachable` — where `get` opens only below the limit, the limit is
  kept.
-/

namespace Megatron.Database

open Megatron.Lib

/-- `INACTIVE_CONNECTION_DROP_TIMEOUT_SEC`. -/
def dropTimeout : Int := 60

inductive Source
  | mysql
  | postgres
  deriving DecidableEq

namespace Source

/-- `max_connections`, as either constructor sets it. -/
def maxConnections : Source → Nat
  | mysql => 10
  | postgres => 20

/-- `nOpenedConnections`, an `int` in the one source and a `size_t` in the other. -/
def nOpenedConnections : Source → Nat → Int
  | mysql, n => (n : Int).bmod 4294967296
  | postgres, n => n

end Source

/-- What a source knows of a connection: `getLastQueryTime` and `bIsValid`. -/
structure Connection where
  lastQueryTime : Int
  bIsValid : Bool

/-- Connections are numbered as they are made. -/
structure State (C : Type) where
  idle : List Nat := []
  conn : Nat → Connection := fun _ => ⟨0, true⟩
  next : Nat := 0
  /-- The clients in `makeConnection`. -/
  opening : List C := []
  held : List (C × Nat) := []

inductive Action (C : Type)
  /-- The critical section of `get`; `now c` is the time when `c` is looked at. -/
  | get (t : C) (now : Nat → Int)
  | opened (t : C) (now : Int)
  | failed (t : C)
  | exec (t : C) (c : Nat) (now : Int) (lost : Bool)
  | unget (t : C) (c : Nat)

/-- `while (1)` over `container_MX`: the first connection that is not stale, and
what is behind it. -/
def popFresh (fresh : Nat → Bool) : List Nat → Option (Nat × List Nat)
  | [] => none
  | c :: idle => if fresh c then some (c, idle) else popFresh fresh idle

variable {C : Type}

namespace State

def fresh (s : State C) (now : Nat → Int) (c : Nat) : Bool :=
  !(now c - (s.conn c).lastQueryTime > dropTimeout)

/-- What `get` finds. -/
def found (s : State C) (now : Nat → Int) : Option (Nat × List Nat) := popFresh (s.fresh now) s.idle

/-- `get`, up to its end or to `makeConnection`. -/
def get (src : Source) (s : State C) (t : C) (now : Nat → Int) : State C :=
  match s.found now with
  | some (c, idle) => { s with idle := idle, held := (t, c) :: s.held }
  | none =>
      if src.nOpenedConnections s.idle.length < src.maxConnections then
        { s with idle := [], opening := t :: s.opening }
      else { s with idle := [] }

variable [DecidableEq C]

def opened (s : State C) (t : C) (now : Int) : State C :=
  { s with
    conn := fun c => if c = s.next then ⟨now, true⟩ else s.conn c
    next := s.next + 1, opening := s.opening.erase t, held := (t, s.next) :: s.held }

def exec (s : State C) (c : Nat) (now : Int) (lost : Bool) : State C :=
  { s with
    conn := fun c' => if c' = c then ⟨now, (s.conn c).bIsValid && !lost⟩ else s.conn c' }

def unget (s : State C) (t : C) (c : Nat) : State C :=
  { s with
    idle := if (s.conn c).bIsValid then s.idle ++ [c] else s.idle
    held := s.held.erase (t, c) }

def apply (src : Source) (s : State C) : Action C → State C
  | .get t now => s.get src t now
  | .opened t now => s.opened t now
  | .failed t => { s with opening := s.opening.erase t }
  | .exec _ c now lost => s.exec c now lost
  | .unget t c => s.unget t c

/-- A client gets a connection when it has none and waits for none, and uses and
returns what it holds. -/
def enabled (s : State C) : Action C → Prop
  | .get t _ => t ∉ s.opening ∧ t ∉ s.held.map Prod.fst
  | .opened t _ => t ∈ s.opening
  | .failed t => t ∈ s.opening
  | .exec t c _ _ => (t, c) ∈ s.held
  | .unget t c => (t, c) ∈ s.held

instance (s : State C) (a : Action C) : Decidable (s.enabled a) := by
  cases a <;> unfold enabled <;> infer_instance

end State

section Machine

variable [DecidableEq C]

def pool (src : Source) : Machine (State C) (Action C) where
  init s := s = {}
  enabled := State.enabled
  apply := State.apply src

/-- `get` throws "database maximum connection exceeded". -/
def Refused (src : Source) (s : State C) : Action C → Prop
  | .get _ now => s.found now = none ∧
      src.maxConnections ≤ src.nOpenedConnections s.idle.length
  | _ => False

/-! ## One holder -/

/-- The connections that are held or idle. -/
def State.live (s : State C) : List Nat := s.idle ++ s.held.map Prod.snd

/-- No connection is held twice, or held and idle. -/
structure Distinct (s : State C) : Prop where
  nodup : s.live.Nodup
  made : ∀ c ∈ s.live, c < s.next

theorem popFresh_some {fresh : Nat → Bool} {idle rest : List Nat} {c : Nat}
    (h : popFresh fresh idle = some (c, rest)) : ∃ stale, idle = stale ++ c :: rest := by
  induction idle with
  | nil => cases h
  | cons d idle ih =>
      rw [popFresh] at h
      split at h
      · obtain ⟨rfl, rfl⟩ := Prod.mk.inj (Option.some.inj h)
        exact ⟨[], rfl⟩
      · obtain ⟨stale, hStale⟩ := ih h
        exact ⟨d :: stale, by rw [hStale, List.cons_append]⟩

omit [DecidableEq C] in
theorem live_get (src : Source) (s : State C) (t : C) (now : Nat → Int) :
    (s.get src t now).live.Subperm s.live := by
  unfold State.get
  cases hFound : s.found now with
  | none =>
      have hTail : (s.held.map Prod.snd).Subperm s.live :=
        (List.sublist_append_right _ _).subperm
      dsimp only
      split <;> exact hTail
  | some found =>
      obtain ⟨c, rest⟩ := found
      obtain ⟨stale, hIdle⟩ := popFresh_some hFound
      -- the connection moves from the front of what is idle to what is held
      have hMoved : (rest ++ c :: s.held.map Prod.snd).Perm (c :: rest ++ s.held.map Prod.snd) :=
        List.perm_middle
      have hPart : (c :: rest ++ s.held.map Prod.snd).Sublist s.live := by
        rw [State.live, hIdle, List.append_assoc]
        exact List.sublist_append_right _ _
      exact hMoved.subperm.trans hPart.subperm

theorem live_unget {s : State C} {t : C} {c : Nat} (hHeld : (t, c) ∈ s.held) :
    (s.unget t c).live.Subperm s.live := by
  have hPerm : (s.held.map Prod.snd).Perm (c :: (s.held.erase (t, c)).map Prod.snd) :=
    (List.perm_cons_erase hHeld).map Prod.snd
  unfold State.unget State.live
  dsimp only
  split
  · rw [List.append_assoc, List.singleton_append]
    exact (hPerm.symm.append_left s.idle).subperm
  · exact ((List.erase_sublist.map Prod.snd).append_left s.idle).subperm

/-- What is live after a step was so before, or is new. -/
theorem live_apply (src : Source) {s : State C} {a : Action C} (hEn : s.enabled a) :
    (s.apply src a).live.Subperm s.live ∧ (s.apply src a).next = s.next ∨
      (s.apply src a).live.Perm (s.next :: s.live) ∧ (s.apply src a).next = s.next + 1 := by
  cases a with
  | get t now =>
      refine .inl ⟨live_get src s t now, ?_⟩
      show (s.get src t now).next = s.next
      unfold State.get
      split
      · rfl
      · split <;> rfl
  | opened t now => exact .inr ⟨List.perm_middle, rfl⟩
  | failed t => exact .inl ⟨List.Subperm.refl _, rfl⟩
  | exec t c now lost => exact .inl ⟨List.Subperm.refl _, rfl⟩
  | unget t c => exact .inl ⟨live_unget hEn, rfl⟩

theorem distinct_apply (src : Source) {s : State C} {a : Action C} (h : Distinct s)
    (hEn : s.enabled a) : Distinct (s.apply src a) := by
  rcases live_apply src hEn with ⟨hLive, hNext⟩ | ⟨hLive, hNext⟩
  · obtain ⟨l, hPerm, hPart⟩ := hLive
    refine ⟨hPerm.nodup_iff.1 (h.nodup.sublist hPart), fun c hc => ?_⟩
    rw [hNext]
    exact h.made c (hPart.subset (hPerm.mem_iff.2 hc))
  · have hFresh : s.next ∉ s.live := fun hMem => Nat.lt_irrefl _ (h.made _ hMem)
    refine ⟨hLive.nodup_iff.2 (List.nodup_cons.2 ⟨hFresh, h.nodup⟩), fun c hc => ?_⟩
    rw [hNext]
    rcases List.mem_cons.1 (hLive.mem_iff.1 hc) with rfl | hOld
    · exact Nat.lt_succ_self _
    · exact Nat.lt_succ_of_lt (h.made c hOld)

/-- In every run a connection has one holder, and none while it is idle. -/
theorem distinct_of_reachable {src : Source} {s : State C} (h : (pool src).Reachable s) :
    Distinct s := by
  refine Machine.Reachable.invariant (I := Distinct) ?_ (fun s a hs hEn => ?_) h
  · rintro s rfl
    exact ⟨List.nodup_nil, fun c hc => by cases hc⟩
  · exact distinct_apply src hs hEn

/-! ## The limit -/

/-- Where `get` finds nothing that it may hand out, fewer than `max_connections`
are held or being opened, and fewer are idle. -/
def WithinLimit (src : Source) (s : State C) : Action C → Prop
  | .get _ now => s.found now = none →
      s.held.length + s.opening.length < src.maxConnections ∧
        s.idle.length < src.maxConnections
  | _ => True

/-- The connections there are, with those being opened. -/
def State.total (s : State C) : Nat := s.idle.length + s.held.length + s.opening.length

omit [DecidableEq C] in
theorem total_get {src : Source} {s : State C} {t : C} {now : Nat → Int}
    (h : s.total ≤ src.maxConnections) (hLimit : WithinLimit src s (.get t now)) :
    (s.get src t now).total ≤ src.maxConnections := by
  unfold State.get
  cases hFound : s.found now with
  | none =>
      obtain ⟨hOut, -⟩ := hLimit hFound
      dsimp only
      split
      · simp only [State.total, List.length_nil, List.length_cons]
        omega
      · simp only [State.total, List.length_nil]
        omega
  | some found =>
      obtain ⟨c, rest⟩ := found
      obtain ⟨stale, hIdle⟩ := popFresh_some hFound
      have hLength := congrArg List.length hIdle
      simp only [List.length_append, List.length_cons] at hLength
      simp only [State.total, List.length_cons] at h ⊢
      omega

theorem total_apply {src : Source} {s : State C} {a : Action C}
    (h : s.total ≤ src.maxConnections) (hEn : s.enabled a) (hLimit : WithinLimit src s a) :
    (s.apply src a).total ≤ src.maxConnections := by
  cases a with
  | get t now => exact total_get h hLimit
  | opened t now =>
      have hLength := List.length_erase_of_mem hEn
      have hPos := List.length_pos_of_mem hEn
      simp only [State.total, State.apply, State.opened, List.length_cons] at h ⊢
      omega
  | failed t =>
      have hLength := (List.erase_sublist (l := s.opening) (a := t)).length_le
      simp only [State.total, State.apply] at h ⊢
      omega
  | exec t c now lost => exact h
  | unget t c =>
      have hLength := List.length_erase_of_mem hEn
      have hPos := List.length_pos_of_mem hEn
      simp only [State.total, State.apply, State.unget] at h ⊢
      split
      · rw [List.length_append, List.length_singleton]
        omega
      · omega

/-- The limit is kept by a run in which `get` opens only below it. -/
theorem within_of_reachable {src : Source} {s : State C}
    (h : ((pool src).guarded (WithinLimit src)).Reachable s) : s.total ≤ src.maxConnections := by
  refine Machine.Reachable.invariant (I := fun s : State C => s.total ≤ src.maxConnections) ?_
    (fun s a hs hEn => ?_) h
  · rintro s rfl
    exact Nat.zero_le _
  · exact total_apply hs hEn.1 hEn.2

/-- A count below the limit is one in an `int` as well. -/
theorem nOpenedConnections_eq {src : Source} {n : Nat} (h : n < src.maxConnections) :
    src.nOpenedConnections n = n := by
  cases src with
  | mysql =>
      have hSmall : n < 10 := h
      unfold Source.nOpenedConnections
      dsimp only
      apply Int.bmod_eq_of_le <;> omega
  | postgres => rfl

omit [DecidableEq C] in
theorem not_refused {src : Source} {s : State C} {a : Action C} (hLimit : WithinLimit src s a) :
    ¬ Refused src s a := by
  cases a with
  | get t now =>
      rintro ⟨hFound, hMax⟩
      obtain ⟨-, hIdle⟩ := hLimit hFound
      rw [nOpenedConnections_eq hIdle] at hMax
      omega
  | _ => exact id

/--
**The pools.** In every run a connection has one holder. In every run in which
`get` finds nothing to hand out only while fewer than `max_connections` are held
or being opened, and fewer are idle, no more than `max_connections` are held, and
`get` refuses only while as many are.
-/
theorem pool_run (src : Source) :
    (∀ s : State C, (pool src).Reachable s → (s.held.map Prod.snd).Nodup) ∧
      ∀ s : State C, ((pool src).guarded (WithinLimit src)).Reachable s →
        s.held.length ≤ src.maxConnections ∧
          ∀ a, ((pool src).guarded (WithinLimit src)).enabled s a → Refused src s a →
            s.held.length = src.maxConnections := by
  refine ⟨fun s h => ?_, fun s h => ⟨?_, fun a hEn hRefused => ?_⟩⟩
  · exact (distinct_of_reachable h).nodup.of_append_right
  · have hTotal := within_of_reachable h
    unfold State.total at hTotal
    omega
  · exact absurd hRefused (not_refused hEn.2)

/-- `n` clients get a connection each, one after the other. -/
def allGet (n : Nat) : List (Action Nat) :=
  (List.range n).flatMap fun t => [.get t fun _ => 0, .opened t 0]

/-- `n` clients return the connections of `allGet`. -/
def allUnget (n : Nat) : List (Action Nat) := (List.range n).map fun t => .unget t t

/-- An eleventh client is not refused; after a minute of rest, the first is. -/
theorem limit_not_kept :
    (¬ ∀ (src : Source) (s : State Nat), (pool src).Reachable s →
      s.held.length ≤ src.maxConnections) ∧
    ¬ ∀ (src : Source) (s : State Nat) (a : Action Nat), (pool src).Reachable s → s.enabled a →
      Refused src s a → s.held.length = src.maxConnections := by
  constructor
  · intro hAll
    have hPath : (pool .mysql).Path ({} : State Nat) (allGet 11) := by
      unfold allGet pool
      decide +kernel
    have hEnd := hAll .mysql _ ⟨{}, allGet 11, rfl, hPath, rfl⟩
    exact absurd hEnd (by decide +kernel)
  · intro hAll
    have hPath : (pool .mysql).Path ({} : State Nat) (allGet 10 ++ allUnget 10) := by
      unfold allGet allUnget pool
      decide +kernel
    have hEnabled : ((pool .mysql).exec ({} : State Nat) (allGet 10 ++ allUnget 10)).enabled
        (.get 0 fun _ => 61) := by
      decide +kernel
    have hRefused : Refused .mysql ((pool .mysql).exec ({} : State Nat) (allGet 10 ++ allUnget 10))
        (.get 0 fun _ => 61) := by
      unfold Refused
      decide +kernel
    have hEnd := hAll .mysql _ _ ⟨{}, allGet 10 ++ allUnget 10, rfl, hPath, rfl⟩ hEnabled hRefused
    exact absurd hEnd (by decide +kernel)

end Machine

end Megatron.Database
