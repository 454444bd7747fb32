import Megatron.Database.Pool

/-!
# Transactions

An `st_DBH` takes a connection out of the pool, executes `BEGIN` on it where it is for a
transaction, and in its destructor `COMMIT`, before it gives the connection back. Nothing
sets `transactionResult`, so what it ends it commits, whether or not a query of the body
has failed. Where `BEGIN` throws there is no object yet, and the connection is lost; where
`COMMIT` throws, it throws out of a destructor, and the process ends.

## Main results

* `sound_of_reachable` — what holds of the clients and of the connections they hold.
* `sessions_whole` — a connection serves one client after the other, and what each of
  them begins it commits before the next one comes.
-/

namespace Megatron.Database

open Megatron.Lib

/-- What a connection is sent; `work` is a query of the body. -/
inductive Query where
  | begin
  | work (n : Nat)
  | commit
  | rollback
  deriving DecidableEq

/-- A query, who has sent it, and whether `exec` has thrown. -/
structure Statement (C : Type) where
  client : C
  query : Query
  failed : Bool

/-- `st_DBH`. -/
structure StDBH where
  isTransaction : Bool
  transactionResult : Bool
  dbh : Nat

/-- Where a client is with its `st_DBH`. -/
inductive Phase where
  | none
  /-- In `makeConnection`. -/
  | getting (isTransaction : Bool)
  /-- In the constructor, before `BEGIN`. -/
  | beginning (d : StDBH)
  | inside (d : StDBH)
  /-- The destructor has thrown. -/
  | terminating (d : StDBH)

/-- The connection that a client has. -/
def Phase.dbh? : Phase → Option Nat
  | none => .none
  | getting _ => .none
  | beginning d => some d.dbh
  | inside d => some d.dbh
  | terminating d => some d.dbh

/-- The pool, its clients, and what the connections have been sent. -/
structure System (C : Type) where
  pool : State C
  phase : C → Phase
  log : Nat → List (Statement C)

inductive Step (C : Type) where
  /-- `st_DBH::st_DBH`, up to `get` or into `makeConnection`. -/
  | construct (t : C) (isTransaction : Bool) (now : Nat → Int)
  | opened (t : C) (now : Int)
  | failed (t : C)
  /-- `dbh->exec("BEGIN")`. -/
  | begin (t : C) (now : Int) (lost failed : Bool)
  /-- `exec` in the body. -/
  | work (t : C) (n : Nat) (now : Int) (lost failed : Bool)
  /-- `st_DBH::~st_DBH`. -/
  | destroy (t : C) (now : Int) (lost failed : Bool)

variable {C : Type}

/-! ## Sessions -/

/-- The queries of a body, with whether they have failed. -/
def works (t : C) (body : List (Nat × Bool)) : List (Statement C) :=
  body.map fun q => ⟨t, .work q.1, q.2⟩

/-- What a client has sent that is in its body. -/
def front (t : C) (isTransaction : Bool) (body : List (Nat × Bool)) : List (Statement C) :=
  (if isTransaction then [⟨t, .begin, false⟩] else []) ++ works t body

/-- What a client has sent by the end of its session. -/
def session (t : C) (isTransaction : Bool) (body : List (Nat × Bool)) : List (Statement C) :=
  front t isTransaction body ++ if isTransaction then [⟨t, .commit, false⟩] else []

/-- A connection has served its clients one after the other. -/
inductive Whole : List (Statement C) → Prop
  | nil : Whole []
  | served {l : List (Statement C)} (h : Whole l) (t : C) (isTransaction : Bool)
      (body : List (Nat × Bool)) : Whole (l ++ session t isTransaction body)

/-- A connection has served whole sessions, and is serving a client. -/
def Serving (t : C) (isTransaction : Bool) (l : List (Statement C)) : Prop :=
  ∃ before body, Whole before ∧ l = before ++ front t isTransaction body

theorem Serving.work {t : C} {isTransaction : Bool} {l : List (Statement C)}
    (h : Serving t isTransaction l) (n : Nat) (failed : Bool) :
    Serving t isTransaction (l ++ [⟨t, .work n, failed⟩]) := by
  obtain ⟨before, body, hWhole, rfl⟩ := h
  refine ⟨before, body ++ [(n, failed)], hWhole, ?_⟩
  rw [front, front, works, works, List.map_append, List.append_assoc, List.append_assoc]
  rfl

theorem Serving.commit {t : C} {l : List (Statement C)} (h : Serving t true l) :
    Whole (l ++ [⟨t, .commit, false⟩]) := by
  obtain ⟨before, body, hWhole, rfl⟩ := h
  rw [List.append_assoc]
  exact hWhole.served t true body

theorem Serving.leave {t : C} {l : List (Statement C)} (h : Serving t false l) : Whole l := by
  obtain ⟨before, body, hWhole, rfl⟩ := h
  have hServed := hWhole.served t false body
  rwa [session, if_neg Bool.false_ne_true, List.append_nil] at hServed

theorem serving_begin {t : C} {l : List (Statement C)} (h : Whole l) :
    Serving t true (l ++ [⟨t, .begin, false⟩]) := ⟨l, [], h, rfl⟩

theorem serving_plain {t : C} {l : List (Statement C)} (h : Whole l) : Serving t false l :=
  ⟨l, [], h, (List.append_nil l).symm⟩

/-! ## The clients -/

variable [DecidableEq C]

/-- With a connection, the constructor goes on. -/
def constructed (isTransaction : Bool) (c : Nat) : Phase :=
  if isTransaction then .beginning ⟨isTransaction, true, c⟩ else .inside ⟨isTransaction, true, c⟩

namespace System

def setPhase (s : System C) (t : C) (p : Phase) : System C :=
  { s with phase := fun t' => if t' = t then p else s.phase t' }

/-- `exec`, by a client that has the connection. -/
def exec (s : System C) (t : C) (c : Nat) (query : Query) (now : Int) (lost failed : Bool) :
    System C :=
  { s with
    pool := s.pool.exec c now lost
    log := fun c' => if c' = c then s.log c ++ [⟨t, query, failed⟩] else s.log c' }

/-- The connection goes back. -/
def unget (s : System C) (t : C) (c : Nat) : System C :=
  ({ s with pool := s.pool.unget t c } : System C).setPhase t .none

/-- The connection goes away with the last reference to it: what the pool knows of it is
that it will not be given back. -/
def drop (s : System C) (t : C) (c : Nat) : System C :=
  ({ s with pool := { s.pool with held := s.pool.held.erase (t, c) } } : System C).setPhase t .none

/-- `m_source->get()`. -/
def construct (src : Source) (s : System C) (t : C) (isTransaction : Bool) (now : Nat → Int) :
    System C :=
  let s' : System C := { s with pool := s.pool.get src t now }
  match s.pool.found now with
  | some (c, _) => s'.setPhase t (constructed isTransaction c)
  | none => s'.setPhase t (if t ∈ s'.pool.opening then .getting isTransaction else .none)

def opened (s : System C) (t : C) (now : Int) : System C :=
  match s.phase t with
  | .getting isTransaction =>
      ({ s with pool := s.pool.opened t now } : System C).setPhase t
        (constructed isTransaction s.pool.next)
  | _ => s

def failed (s : System C) (t : C) : System C :=
  ({ s with pool := { s.pool with opening := s.pool.opening.erase t } } : System C).setPhase t .none

def begin (s : System C) (t : C) (now : Int) (lost failed : Bool) : System C :=
  match s.phase t with
  | .beginning d =>
      let s := s.exec t d.dbh .begin now lost failed
      if failed then s.drop t d.dbh else s.setPhase t (.inside d)
  | _ => s

def work (s : System C) (t : C) (n : Nat) (now : Int) (lost failed : Bool) : System C :=
  match s.phase t with
  | .inside d => s.exec t d.dbh (.work n) now lost failed
  | _ => s

def destroy (s : System C) (t : C) (now : Int) (lost failed : Bool) : System C :=
  match s.phase t with
  | .inside d =>
      if d.isTransaction then
        let s := s.exec t d.dbh (if d.transactionResult then .commit else .rollback) now lost failed
        if failed then s.setPhase t (.terminating d) else s.unget t d.dbh
      else s.unget t d.dbh
  | _ => s

end System

/-- The clients in any order, until the process ends. -/
def transactions (src : Source) : Machine (System C) (Step C) where
  init s := s = ⟨{}, fun _ => .none, fun _ => []⟩
  enabled s a := (∀ t d, s.phase t ≠ .terminating d) ∧
    match a with
    | .construct t _ _ => s.phase t = .none
    | .opened t _ => ∃ isTransaction, s.phase t = .getting isTransaction
    | .failed t => ∃ isTransaction, s.phase t = .getting isTransaction
    | .begin t _ _ _ => ∃ d, s.phase t = .beginning d
    | .work t _ _ _ _ => ∃ d, s.phase t = .inside d
    | .destroy t _ _ _ => ∃ d, s.phase t = .inside d
  apply s a :=
    match a with
    | .construct t isTransaction now => s.construct src t isTransaction now
    | .opened t now => s.opened t now
    | .failed t => s.failed t
    | .begin t now lost failed => s.begin t now lost failed
    | .work t n now lost failed => s.work t n now lost failed
    | .destroy t now lost failed => s.destroy t now lost failed

/-! ## What holds in every run -/

/-- What the connection of a client has been sent. -/
def Told (t : C) (log : Nat → List (Statement C)) : Phase → Prop
  | .none => True
  | .getting _ => True
  | .beginning d => d.isTransaction = true ∧ d.transactionResult = true ∧ Whole (log d.dbh)
  | .inside d => d.transactionResult = true ∧ Serving t d.isTransaction (log d.dbh)
  | .terminating d => ∃ l, Serving t true l ∧ log d.dbh = l ++ [⟨t, .commit, true⟩]

/-- The connection is closed for a `BEGIN` that has failed. -/
def Unbegun (l : List (Statement C)) : Prop :=
  ∃ before t, Whole before ∧ l = before ++ [⟨t, .begin, true⟩]

/-- What holds, for the clients of `S`. -/
structure SoundFor (S : C → Prop) (s : System C) : Prop where
  distinct : Distinct s.pool
  held : ∀ t c, (t, c) ∈ s.pool.held ↔ (s.phase t).dbh? = some c
  opening : ∀ t, t ∈ s.pool.opening ↔ ∃ isTransaction, s.phase t = .getting isTransaction
  nodup_opening : s.pool.opening.Nodup
  unmade : ∀ c, s.pool.next ≤ c → s.log c = []
  idle : ∀ c ∈ s.pool.idle, Whole (s.log c)
  gone : ∀ c, c ∉ s.pool.live → Whole (s.log c) ∨ Unbegun (s.log c)
  told : ∀ t, S t → Told t s.log (s.phase t)

omit [DecidableEq C] in
theorem Told.congr {t : C} {log log' : Nat → List (Statement C)} {p : Phase}
    (h : Told t log p) (hLog : ∀ c, p.dbh? = some c → log' c = log c) : Told t log' p := by
  cases p with
  | none => trivial
  | getting b => trivial
  | beginning d => rwa [Told, hLog d.dbh rfl]
  | inside d => rwa [Told, hLog d.dbh rfl]
  | terminating d => rwa [Told, hLog d.dbh rfl]

theorem not_getting {p : Phase} {c : Nat} (h : p.dbh? = some c) (b : Bool) : p ≠ .getting b := by
  rintro rfl
  cases h

section

variable {S : C → Prop} {s : System C} {t : C} {c : Nat}

omit [DecidableEq C] in
/-- A connection is held by one client. -/
theorem SoundFor.holder (hs : SoundFor S s) {t' : C} (ht : (s.phase t).dbh? = some c)
    (ht' : (s.phase t').dbh? = some c) : t' = t := by
  have hNodup := (List.nodup_append.1 hs.distinct.nodup).2.1
  exact (Prod.mk.inj (List.inj_on_of_nodup_map hNodup ((hs.held t' c).2 ht') ((hs.held t c).2 ht)
    rfl)).1

omit [DecidableEq C] in
theorem SoundFor.mem_live (hs : SoundFor S s) (ht : (s.phase t).dbh? = some c) : c ∈ s.pool.live :=
  List.mem_append_right _ (List.mem_map_of_mem ((hs.held t c).2 ht))

omit [DecidableEq C] in
theorem SoundFor.not_idle (hs : SoundFor S s) (ht : (s.phase t).dbh? = some c) :
    c ∉ s.pool.idle := fun hIdle =>
  (List.nodup_append.1 hs.distinct.nodup).2.2 c hIdle c
    (List.mem_map_of_mem ((hs.held t c).2 ht)) rfl

omit [DecidableEq C] in
/-- A query on the connection of a client counts for the client alone. -/
theorem SoundFor.exec (hs : SoundFor S s) (ht : (s.phase t).dbh? = some c) (query : Query)
    (now : Int) (lost failed : Bool) :
    SoundFor (fun t' => S t' ∧ t' ≠ t) (s.exec t c query now lost failed) := by
  have hLog : ∀ c', c' ≠ c → (s.exec t c query now lost failed).log c' = s.log c' :=
    fun c' hNe => if_neg hNe
  refine ⟨⟨hs.distinct.nodup, hs.distinct.made⟩, hs.held, hs.opening, hs.nodup_opening, ?_, ?_, ?_,
    ?_⟩
  · intro c' hc'
    have hMade := hs.distinct.made c (hs.mem_live ht)
    have hLe : s.pool.next ≤ c' := hc'
    rw [hLog c' (by omega)]
    exact hs.unmade c' hc'
  · intro c' hc'
    rw [hLog c' fun hSame => hs.not_idle ht (hSame ▸ hc')]
    exact hs.idle c' hc'
  · intro c' hc'
    rw [hLog c' fun hSame => hc' (hSame.symm ▸ hs.mem_live ht)]
    exact hs.gone c' hc'
  · rintro t' ⟨hOf, hNe⟩
    refine (hs.told t' hOf).congr fun c' hc' => hLog c' ?_
    rintro rfl
    exact hNe (hs.holder ht hc')

/-- The pool and one client change; the others have what they had. -/
theorem SoundFor.change (hs : SoundFor (· ≠ t) s) (pool : State C) {p : Phase}
    (hDistinct : Distinct pool)
    (hHeld : ∀ t' c', (t', c') ∈ pool.held ↔
      if t' = t then p.dbh? = some c' else (t', c') ∈ s.pool.held)
    (hOpening : ∀ t', t' ∈ pool.opening ↔
      if t' = t then ∃ isTransaction, p = .getting isTransaction else t' ∈ s.pool.opening)
    (hNodup : pool.opening.Nodup) (hNext : s.pool.next ≤ pool.next)
    (hIdle : ∀ c' ∈ pool.idle, Whole (s.log c'))
    (hGone : ∀ c', c' ∉ pool.live → c' ∉ s.pool.live ∨ Whole (s.log c') ∨ Unbegun (s.log c'))
    (hTold : Told t s.log p) :
    SoundFor (fun _ => True) (({ s with pool := pool } : System C).setPhase t p) := by
  have hPhase : ∀ t', (({ s with pool := pool } : System C).setPhase t p).phase t' =
      if t' = t then p else s.phase t' := fun _ => rfl
  refine ⟨hDistinct, fun t' c' => ?_, fun t' => ?_, hNodup,
    fun c' hc' => hs.unmade c' (Nat.le_trans hNext hc'), hIdle, fun c' hc' => ?_, fun t' _ => ?_⟩
  · refine (hHeld t' c').trans ?_
    rw [hPhase]
    split
    · exact Iff.rfl
    · exact hs.held t' c'
  · refine (hOpening t').trans ?_
    rw [hPhase]
    split
    · exact Iff.rfl
    · exact hs.opening t'
  · exact (hGone c' hc').elim (hs.gone c') id
  · rw [hPhase]
    split
    · rename_i hSame
      rw [hSame]
      exact hTold
    · rename_i hNe
      exact hs.told t' hNe

omit [DecidableEq C] in
theorem SoundFor.but (hs : SoundFor (fun _ => True) s) (t : C) : SoundFor (· ≠ t) s :=
  ⟨hs.distinct, hs.held, hs.opening, hs.nodup_opening, hs.unmade, hs.idle, hs.gone,
    fun t' _ => hs.told t' trivial⟩

/-- A client that holds a connection waits for none. -/
theorem SoundFor.opening_holder (hs : SoundFor S s) (ht : (s.phase t).dbh? = some c) {p : Phase}
    (hp : ∀ b, p ≠ .getting b) (t' : C) : t' ∈ s.pool.opening ↔
      if t' = t then ∃ isTransaction, p = .getting isTransaction else t' ∈ s.pool.opening := by
  split
  · rename_i hSame
    rw [hSame, hs.opening]
    exact iff_of_false (fun ⟨b, hb⟩ => not_getting ht b hb) fun ⟨b, hb⟩ => hp b hb
  · exact Iff.rfl

/-- A client goes on with its connection. -/
theorem SoundFor.goOn (hs : SoundFor (· ≠ t) s) (ht : (s.phase t).dbh? = some c) {p : Phase}
    (hp : p.dbh? = some c) (hTold : Told t s.log p) :
    SoundFor (fun _ => True) (s.setPhase t p) := by
  refine hs.change s.pool hs.distinct (fun t' c' => ?_)
    (hs.opening_holder ht (not_getting hp)) hs.nodup_opening (Nat.le_refl _) hs.idle
    (fun _ hc' => Or.inl hc') hTold
  split
  · rename_i hSame
    rw [hSame, hp, ← ht]
    exact hs.held t c'
  · exact Iff.rfl

/-- A client lets go of its connection, which is then idle or gone. -/
theorem SoundFor.leave (hs : SoundFor (· ≠ t) s) (ht : (s.phase t).dbh? = some c) {idle : List Nat}
    (hIdle : idle = s.pool.idle ++ [c] ∧ Whole (s.log c) ∨
      idle = s.pool.idle ∧ (Whole (s.log c) ∨ Unbegun (s.log c))) :
    SoundFor (fun _ => True) (({ s with pool := { s.pool with
      idle := idle, held := s.pool.held.erase (t, c) } } : System C).setPhase t .none) := by
  have hPerm : (s.pool.held.map Prod.snd).Perm (c :: (s.pool.held.erase (t, c)).map Prod.snd) :=
    (List.perm_cons_erase ((hs.held t c).2 ht)).map Prod.snd
  have hHeld : s.pool.held.Nodup := (List.nodup_append.1 hs.distinct.nodup).2.1.of_map
  have hAll : (s.pool.idle ++ c :: (s.pool.held.erase (t, c)).map Prod.snd).Perm s.pool.live :=
    (hPerm.append_left s.pool.idle).symm
  refine hs.change { s.pool with idle := idle, held := s.pool.held.erase (t, c) }
    (p := .none) ?_ (fun t' c' => ?_) (hs.opening_holder ht nofun) hs.nodup_opening
    (Nat.le_refl _) (fun c' hc' => ?_) (fun c' hc' => ?_) trivial
  · have hPart : (idle ++ (s.pool.held.erase (t, c)).map Prod.snd).Subperm s.pool.live := by
      refine List.Subperm.trans ?_ hAll.subperm
      rcases hIdle with ⟨rfl, -⟩ | ⟨rfl, -⟩
      · rw [List.append_assoc]
        exact List.Subperm.refl _
      · exact ((List.sublist_cons_self _ _).append_left _).subperm
    obtain ⟨l, hl, hSub⟩ := hPart
    exact ⟨hl.nodup_iff.1 (hs.distinct.nodup.sublist hSub),
      fun c' hc' => hs.distinct.made c' (hSub.subset (hl.mem_iff.2 hc'))⟩
  · show (t', c') ∈ s.pool.held.erase (t, c) ↔ _
    rw [hHeld.mem_erase_iff]
    split
    · rename_i hSame
      rw [hSame, hs.held, ht]
      refine iff_of_false ?_ nofun
      rintro ⟨hNe, hSome⟩
      exact hNe (congrArg (Prod.mk t) (Option.some.inj hSome).symm)
    · rename_i hNe
      exact and_iff_right fun hEq => hNe (Prod.mk.inj hEq).1
  · have hc' : c' ∈ idle := hc'
    rcases hIdle with ⟨rfl, hWhole⟩ | ⟨rfl, -⟩
    · rcases List.mem_append.1 hc' with hOld | hNew
      · exact hs.idle c' hOld
      · rw [List.mem_singleton.1 hNew]
        exact hWhole
    · exact hs.idle c' hc'
  · by_cases hSame : c' = c
    · rw [hSame]
      rcases hIdle with ⟨-, hWhole⟩ | ⟨-, hEither⟩
      · exact Or.inr (Or.inl hWhole)
      · exact Or.inr hEither
    · refine Or.inl fun hWas => hc' ?_
      show c' ∈ idle ++ (s.pool.held.erase (t, c)).map Prod.snd
      rcases List.mem_append.1 (hAll.mem_iff.2 hWas) with hOld | hOld
      · rcases hIdle with ⟨rfl, -⟩ | ⟨rfl, -⟩
        · exact List.mem_append_left _ (List.mem_append_left _ hOld)
        · exact List.mem_append_left _ hOld
      · exact List.mem_append_right _ ((List.mem_cons.1 hOld).resolve_left hSame)

end

/-! ## Steps -/

omit [DecidableEq C] in
theorem dbh?_constructed (b : Bool) (c : Nat) : (constructed b c).dbh? = some c := by
  cases b <;> rfl

omit [DecidableEq C] in
theorem told_constructed {t : C} {log : Nat → List (Statement C)} {c : Nat} (b : Bool)
    (h : Whole (log c)) : Told t log (constructed b c) := by
  cases b with
  | false => exact ⟨rfl, serving_plain h⟩
  | true => exact ⟨rfl, rfl, h⟩

section

variable {s : System C} {t : C} {b : Bool} {lost failed : Bool}

/-- What is held, when `t` has got another connection. -/
theorem SoundFor.held_cons (hs : SoundFor (fun _ => True) s) (ht : (s.phase t).dbh? = none)
    (b : Bool) (c : Nat) (t' : C) (c' : Nat) : (t', c') ∈ (t, c) :: s.pool.held ↔
      if t' = t then (constructed b c).dbh? = some c' else (t', c') ∈ s.pool.held := by
  rw [List.mem_cons, Prod.mk.injEq]
  split
  · rename_i hSame
    have hNone : (t', c') ∉ s.pool.held := fun hOld => by
      rw [hs.held, hSame, ht] at hOld
      cases hOld
    rw [dbh?_constructed, Option.some.injEq, or_iff_left hNone, and_iff_right hSame]
    exact eq_comm
  · rename_i hNe
    exact or_iff_right fun hSame => hNe hSame.1

/-- What is held, when `t` gets none. -/
theorem SoundFor.held_same (hs : SoundFor (fun _ => True) s) (ht : (s.phase t).dbh? = none)
    {p : Phase} (hp : p.dbh? = none) (t' : C) (c' : Nat) : (t', c') ∈ s.pool.held ↔
      if t' = t then p.dbh? = some c' else (t', c') ∈ s.pool.held := by
  split
  · rename_i hSame
    rw [hSame, hs.held, ht, hp]
  · exact Iff.rfl

theorem sound_construct (src : Source) (hs : SoundFor (fun _ => True) s) (ht : s.phase t = .none)
    (now : Nat → Int) : SoundFor (fun _ => True) (s.construct src t b now) := by
  have hNone : (s.phase t).dbh? = none := by rw [ht]; rfl
  have hNotOpening : t ∉ s.pool.opening := by
    rw [hs.opening, ht]
    rintro ⟨b, hb⟩
    cases hb
  have hEn : s.pool.enabled (.get t now) := by
    refine ⟨hNotOpening, fun hHeld => ?_⟩
    obtain ⟨⟨t', c⟩, hMem, rfl⟩ := List.mem_map.1 hHeld
    rw [hs.held, hNone] at hMem
    cases hMem
  have hDistinct : Distinct (s.pool.get src t now) :=
    distinct_apply src (a := .get t now) hs.distinct hEn
  -- a connection that is dropped was idle
  have hDropped : ∀ pool : State C, s.pool.held ⊆ pool.held → ∀ c', c' ∉ pool.live →
      c' ∉ s.pool.live ∨ Whole (s.log c') ∨ Unbegun (s.log c') := by
    intro pool hHeld c' hc'
    by_cases hIdle : c' ∈ s.pool.idle
    · exact Or.inr (Or.inl (hs.idle c' hIdle))
    · refine Or.inl fun hLive => hc' (List.mem_append_right _ ?_)
      rcases List.mem_append.1 hLive with hOld | hOld
      · exact absurd hOld hIdle
      · exact List.map_subset _ hHeld hOld
  rw [System.construct]
  rw [State.get] at hDistinct ⊢
  cases hFound : s.pool.found now with
  | some found =>
      obtain ⟨c, rest⟩ := found
      rw [hFound] at hDistinct
      obtain ⟨stale, hIdle⟩ := popFresh_some hFound
      have hFront : ∀ c' ∈ c :: rest, Whole (s.log c') := fun c' hc' =>
        hs.idle c' (hIdle ▸ List.mem_append_right _ hc')
      refine (hs.but t).change _ hDistinct (hs.held_cons hNone b c) (fun t' => ?_) hs.nodup_opening
        (Nat.le_refl _) (fun c' hc' => hFront c' (List.mem_cons_of_mem _ hc'))
        (hDropped _ (List.subset_cons_self _ _)) (told_constructed b (hFront c List.mem_cons_self))
      show t' ∈ s.pool.opening ↔ _
      split
      · rename_i hSame
        rw [hSame]
        exact iff_of_false hNotOpening fun ⟨b', hb'⟩ => not_getting (dbh?_constructed b c) b' hb'
      · exact Iff.rfl
  | none =>
      rw [hFound] at hDistinct
      dsimp only at hDistinct ⊢
      split
      · rename_i hBelow
        rw [if_pos hBelow] at hDistinct
        rw [if_pos List.mem_cons_self]
        refine (hs.but t).change _ hDistinct (fun t' c' => ?_) (fun t' => ?_)
          (List.nodup_cons.2 ⟨hNotOpening, hs.nodup_opening⟩) (Nat.le_refl _)
          (fun c' hc' => absurd hc' List.not_mem_nil) (hDropped _ (List.Subset.refl _)) trivial
        · exact hs.held_same hNone rfl t' c'
        · show t' ∈ t :: s.pool.opening ↔ _
          rw [List.mem_cons]
          split
          · rename_i hSame
            exact iff_of_true (Or.inl hSame) ⟨b, rfl⟩
          · rename_i hNe
            exact or_iff_right hNe
      · rename_i hAbove
        rw [if_neg hAbove] at hDistinct
        refine (hs.but t).change _ hDistinct (fun t' c' => ?_) (fun t' => ?_) hs.nodup_opening
          (Nat.le_refl _) (fun c' hc' => absurd hc' List.not_mem_nil)
          (hDropped _ (List.Subset.refl _)) trivial
        · exact hs.held_same hNone rfl t' c'
        · show t' ∈ s.pool.opening ↔ _
          split
          · rename_i hSame
            rw [hSame]
            exact iff_of_false hNotOpening nofun
          · exact Iff.rfl

/-- A client no longer waits. -/
theorem mem_erase_opening (hs : SoundFor (fun _ => True) s) {p : Phase}
    (hp : ∀ b, p ≠ .getting b) (t' : C) : t' ∈ s.pool.opening.erase t ↔
      if t' = t then ∃ isTransaction, p = .getting isTransaction else t' ∈ s.pool.opening := by
  rw [hs.nodup_opening.mem_erase_iff]
  split
  · rename_i hSame
    exact iff_of_false (fun h => h.1 hSame) fun ⟨b, hb⟩ => hp b hb
  · rename_i hNe
    exact and_iff_right hNe

theorem sound_opened (hs : SoundFor (fun _ => True) s) (ht : s.phase t = .getting b) (now : Int) :
    SoundFor (fun _ => True) (s.opened t now) := by
  have hNone : (s.phase t).dbh? = none := by rw [ht]; rfl
  have hDistinct : Distinct (s.pool.opened t now) :=
    distinct_apply .mysql (a := .opened t now) hs.distinct ((hs.opening t).2 ⟨b, ht⟩)
  have hNew : Whole (s.log s.pool.next) := by
    rw [hs.unmade _ (Nat.le_refl _)]
    exact Whole.nil
  rw [System.opened, ht]
  refine (hs.but t).change _ hDistinct (hs.held_cons hNone b s.pool.next)
    (mem_erase_opening hs (not_getting (dbh?_constructed b _))) (hs.nodup_opening.erase t)
    (Nat.le_succ _) hs.idle (fun c' hc' => Or.inl fun hLive => hc' ?_) (told_constructed b hNew)
  refine (List.mem_append.1 hLive).elim (List.mem_append_left _) fun hHeld => ?_
  exact List.mem_append_right _ (List.mem_cons_of_mem _ hHeld)

theorem sound_failed (hs : SoundFor (fun _ => True) s) (ht : s.phase t = .getting b) :
    SoundFor (fun _ => True) (s.failed t) := by
  have hNone : (s.phase t).dbh? = none := by rw [ht]; rfl
  exact (hs.but t).change { s.pool with opening := s.pool.opening.erase t } (p := .none)
    ⟨hs.distinct.nodup, hs.distinct.made⟩ (hs.held_same hNone rfl) (mem_erase_opening hs nofun)
    (hs.nodup_opening.erase t) (Nat.le_refl _) hs.idle (fun _ hc' => Or.inl hc') trivial

variable {d : StDBH}

omit [DecidableEq C] in
/-- `SoundFor.exec` for the client itself. -/
theorem SoundFor.sent (hs : SoundFor (fun _ => True) s) {c : Nat} (ht : (s.phase t).dbh? = some c)
    (query : Query) (now : Int) (lost failed : Bool) :
    SoundFor (· ≠ t) (s.exec t c query now lost failed) ∧
      (s.exec t c query now lost failed).log c = s.log c ++ [⟨t, query, failed⟩] := by
  have hSent := hs.exec ht query now lost failed
  exact ⟨⟨hSent.distinct, hSent.held, hSent.opening, hSent.nodup_opening, hSent.unmade, hSent.idle,
    hSent.gone, fun t' hNe => hSent.told t' ⟨trivial, hNe⟩⟩, if_pos rfl⟩

theorem sound_begin (hs : SoundFor (fun _ => True) s) (ht : s.phase t = .beginning d) (now : Int) :
    SoundFor (fun _ => True) (s.begin t now lost failed) := by
  have hSome : (s.phase t).dbh? = some d.dbh := by rw [ht]; rfl
  have hTold := hs.told t trivial
  rw [ht] at hTold
  obtain ⟨hIs, hResult, hWhole⟩ := hTold
  obtain ⟨hSent, hLog⟩ := hs.sent hSome .begin now lost failed
  rw [System.begin, ht]
  cases failed with
  | true => exact hSent.leave hSome (Or.inr ⟨rfl, Or.inr ⟨_, t, hWhole, hLog⟩⟩)
  | false =>
      refine hSent.goOn hSome rfl ⟨hResult, ?_⟩
      rw [hIs, hLog]
      exact serving_begin hWhole

theorem sound_work (hs : SoundFor (fun _ => True) s) (ht : s.phase t = .inside d) (n : Nat)
    (now : Int) : SoundFor (fun _ => True) (s.work t n now lost failed) := by
  have hSome : (s.phase t).dbh? = some d.dbh := by rw [ht]; rfl
  have hTold := hs.told t trivial
  rw [ht] at hTold
  obtain ⟨hSent, hLog⟩ := hs.sent hSome (.work n) now lost failed
  have hGoOn := hSent.goOn hSome (p := .inside d) rfl ⟨hTold.1, by
    rw [hLog]
    exact hTold.2.work n failed⟩
  have hSame : (s.exec t d.dbh (.work n) now lost failed).setPhase t (.inside d) =
      s.exec t d.dbh (.work n) now lost failed := by
    refine congrArg (fun phase => (⟨_, phase, _⟩ : System C)) (funext fun t' => ?_)
    show (if t' = t then Phase.inside d else s.phase t') = s.phase t'
    split
    · rename_i hSame
      rw [hSame, ht]
    · rfl
  rw [System.work, ht]
  rwa [hSame] at hGoOn

theorem sound_destroy (hs : SoundFor (fun _ => True) s) (ht : s.phase t = .inside d) (now : Int) :
    SoundFor (fun _ => True) (s.destroy t now lost failed) := by
  have hSome : (s.phase t).dbh? = some d.dbh := by rw [ht]; rfl
  have hTold := hs.told t trivial
  rw [ht] at hTold
  obtain ⟨hResult, hServing⟩ := hTold
  -- the pool takes the connection back, or drops it
  have hBack : ∀ s' : System C, SoundFor (· ≠ t) s' → (s'.phase t).dbh? = some d.dbh →
      Whole (s'.log d.dbh) → SoundFor (fun _ => True) (s'.unget t d.dbh) := by
    intro s' hs' hHas hWhole
    refine hs'.leave hHas ?_
    split
    · exact Or.inl ⟨rfl, hWhole⟩
    · exact Or.inr ⟨rfl, Or.inl hWhole⟩
  rw [System.destroy, ht]
  dsimp only
  cases hIs : d.isTransaction with
  | false =>
      rw [hIs] at hServing
      exact hBack s (hs.but t) hSome hServing.leave
  | true =>
      rw [hIs] at hServing
      rw [if_pos rfl, hResult, if_pos rfl]
      obtain ⟨hSent, hLog⟩ := hs.sent hSome .commit now lost failed
      cases failed with
      | true => exact hSent.goOn hSome rfl ⟨_, hServing, hLog⟩
      | false =>
          refine hBack _ hSent hSome ?_
          rw [hLog]
          exact hServing.commit

end

theorem sound_of_reachable {src : Source} {s : System C} (hReach : (transactions src).Reachable s) :
    SoundFor (fun _ => True) s := by
  refine Machine.Reachable.invariant (I := SoundFor fun _ => True) ?_ ?_ hReach
  · rintro _ rfl
    exact ⟨⟨List.nodup_nil, nofun⟩, fun t c => iff_of_false List.not_mem_nil nofun,
      fun t => iff_of_false List.not_mem_nil nofun, List.nodup_nil, fun _ _ => rfl, nofun,
      fun _ _ => Or.inl Whole.nil, fun _ _ => trivial⟩
  · rintro s a hs ⟨-, hEn⟩
    cases a with
    | construct t b now => exact sound_construct src hs hEn now
    | opened t now => exact sound_opened hs hEn.choose_spec now
    | failed t => exact sound_failed hs hEn.choose_spec
    | begin t now lost failed => exact sound_begin hs hEn.choose_spec now
    | work t n now lost failed => exact sound_work hs hEn.choose_spec n now
    | destroy t now lost failed => exact sound_destroy hs hEn.choose_spec now

/-- A connection serves one client after the other: in what it has been sent the queries of
a client are together, from its `BEGIN` to its `COMMIT`, whether or not some of them have
failed. The last client may still be at it, or the process ends with its `COMMIT`, or the
last `BEGIN` has failed and nobody has the connection. One that is idle is between two
clients. -/
theorem sessions_whole {src : Source} {s : System C} (hReach : (transactions src).Reachable s)
    (c : Nat) :
    (c ∈ s.pool.idle → Whole (s.log c)) ∧
      (Whole (s.log c) ∨
        (∃ t d, s.phase t = .inside d ∧ d.dbh = c ∧ Serving t d.isTransaction (s.log c)) ∨
        (∃ t d l, s.phase t = .terminating d ∧ d.dbh = c ∧ Serving t true l ∧
          s.log c = l ++ [⟨t, .commit, true⟩]) ∨
        c ∉ s.pool.live ∧ Unbegun (s.log c)) := by
  have hs := sound_of_reachable hReach
  refine ⟨hs.idle c, ?_⟩
  by_cases hLive : c ∈ s.pool.live
  · rcases List.mem_append.1 hLive with hIdle | hHeld
    · exact Or.inl (hs.idle c hIdle)
    · obtain ⟨⟨t, c⟩, hMem, rfl⟩ := List.mem_map.1 hHeld
      have hHas := (hs.held t c).1 hMem
      have hTold := hs.told t trivial
      cases hPhase : s.phase t with
      | none => rw [hPhase] at hHas; cases hHas
      | getting b => rw [hPhase] at hHas; cases hHas
      | beginning d =>
          rw [hPhase] at hHas hTold
          exact Or.inl (Option.some.inj hHas ▸ hTold.2.2)
      | inside d =>
          rw [hPhase] at hHas hTold
          obtain rfl : d.dbh = c := Option.some.inj hHas
          exact Or.inr (Or.inl ⟨t, d, hPhase, rfl, hTold.2⟩)
      | terminating d =>
          rw [hPhase] at hHas hTold
          obtain rfl : d.dbh = c := Option.some.inj hHas
          obtain ⟨l, hServing, hLog⟩ := hTold
          exact Or.inr (Or.inr (Or.inl ⟨t, d, l, hPhase, rfl, hServing, hLog⟩))
  · exact (hs.gone c hLive).imp_right fun hUnbegun => Or.inr (Or.inr ⟨hLive, hUnbegun⟩)

/-- A transaction with a query that fails and does not cost the connection, and another
client after it. -/
def twoSessions : List (Step ℕ) :=
  [.construct 0 true fun _ => 0, .opened 0 0, .begin 0 0 false false, .work 0 7 0 false true,
    .destroy 0 0 false false, .construct 1 false fun _ => 0]

def afterTwo : System ℕ :=
  (transactions .mysql).exec ⟨{}, fun _ => .none, fun _ => []⟩ twoSessions

theorem reachable_afterTwo : (transactions .mysql).Reachable afterTwo := by
  have hCalm : ∀ (p : Phase) (phase : ℕ → Phase), (∀ d, p ≠ .terminating d) →
      (∀ t d, phase t ≠ .terminating d) →
      ∀ (t : ℕ) (d : StDBH), (if t = 0 then p else phase t) ≠ .terminating d := by
    intro p phase hp hPhase t d
    split
    · exact hp d
    · exact hPhase t d
  have hOpens := hCalm (.getting true) (fun _ => .none) (by simp) (by simp)
  have hBegins := hCalm (.beginning ⟨true, true, 0⟩) _ (by simp) hOpens
  have hWorks := hCalm (.inside ⟨true, true, 0⟩) _ (by simp) hBegins
  have hLeaves := hCalm .none _ (by simp) hWorks
  exact ⟨_, twoSessions, rfl, ⟨⟨by simp, rfl⟩, ⟨hOpens, true, rfl⟩, ⟨hBegins, _, rfl⟩,
    ⟨hWorks, _, rfl⟩, ⟨hWorks, _, rfl⟩, ⟨hLeaves, rfl⟩, trivial⟩, rfl⟩

theorem sessions_whole_two :
    (0 ∈ afterTwo.pool.idle → Whole (afterTwo.log 0)) ∧
      (Whole (afterTwo.log 0) ∨
        (∃ t d, afterTwo.phase t = .inside d ∧ d.dbh = 0 ∧
          Serving t d.isTransaction (afterTwo.log 0)) ∨
        (∃ t d l, afterTwo.phase t = .terminating d ∧ d.dbh = 0 ∧ Serving t true l ∧
          afterTwo.log 0 = l ++ [⟨t, .commit, true⟩]) ∨
        0 ∉ afterTwo.pool.live ∧ Unbegun (afterTwo.log 0)) :=
  sessions_whole reachable_afterTwo 0

end Megatron.Database
