import Mathlib.Algebra.Order.Ring.Nat
import Mathlib.Data.List.Nodup
import Mathlib.Data.List.Perm.Basic
import Mathlib.Logic.Function.Basic
import Megatron.Lib.Machine

/-!
# Reference counting: `REF_getter`

Handles lie on the stack or in objects, and an object is deleted when the count
of the handles that point to it drops to zero.  Its own handles are destroyed
then, which may delete more.  `operator=` counts its argument, releases what the
handle pointed to, and then reads its argument once more: if the argument lies
in what was released, as in `p = p->next`, it is not there.

A handle that is being destroyed does not live any more.  What it points to is a
member that the program goes on reading; where it lay in an object that has been
deleted in the meantime, that is `dangling` too.

## Main results

* `Releasing.decrefcount` — a release deletes what is doomed, and nothing else.
* `sound_add`, `sound_destroy`, `sound_assign` — the operations.
* `counts_sound` — the runs that never read a handle of what they release.
-/

namespace Megatron.Corelib

open Megatron.Lib

/-- A `REF_getter`: its place, what it points to, and the object that it is
stored in. -/
structure Handle (Id Obj : Type) where
  id : Id
  ptr : Option Obj
  owner : Option Obj

/-- The handles that live and the objects; `held` are those that a handle has
pointed to. -/
structure Heap (Id Obj : Type) where
  handles : List (Handle Id Obj)
  refCount : Obj → Int32
  deleted : Obj → Bool
  held : Obj → Bool
  dangling : Bool
  running : Bool

namespace Heap

/-! ## Lists of handles -/

section Places

variable {Id Obj : Type} {l : List (Handle Id Obj)} {h h' : Handle Id Obj}

/-- A place has one handle. -/
theorem eq_of_id (hIds : (l.map Handle.id).Nodup) (h₁ : h ∈ l) (h₂ : h' ∈ l) (hSame : h'.id = h.id) :
    h' = h :=
  List.inj_on_of_nodup_map hIds h₂ h₁ hSame

variable [DecidableEq Id] {id : Id}

/-- The handles but one. -/
def others (l : List (Handle Id Obj)) (id : Id) : List (Handle Id Obj) :=
  l.filter fun h => decide (h.id ≠ id)

theorem mem_others : h ∈ others l id ↔ h ∈ l ∧ h.id ≠ id := by
  rw [others, List.mem_filter, decide_eq_true_eq]

theorem others_sublist (l : List (Handle Id Obj)) (id : Id) : (others l id).Sublist l :=
  List.filter_sublist

theorem others_comm (l : List (Handle Id Obj)) (id r : Id) :
    others (others l id) r = others (others l r) id := by
  rw [others, others, others, others, List.filter_filter, List.filter_filter]
  congr 1
  funext h
  exact Bool.and_comm _ _

theorem perm_others (hIds : (l.map Handle.id).Nodup) (hMem : h ∈ l) :
    l.Perm (h :: others l h.id) := by
  induction l with
  | nil => cases hMem
  | cons a l ih =>
      rw [List.map_cons, List.nodup_cons] at hIds
      obtain ⟨hNew, hIds⟩ := hIds
      rcases List.mem_cons.1 hMem with rfl | hTail
      · have hRest : others (h :: l) h.id = l := by
          rw [others, List.filter_cons_of_neg (by simp)]
          refine List.filter_eq_self.2 fun h' hMem' => decide_eq_true fun hSame => ?_
          exact hNew (List.mem_map.2 ⟨h', hMem', hSame⟩)
        rw [hRest]
      · have hNe : a.id ≠ h.id := fun hSame => hNew (List.mem_map.2 ⟨h, hTail, hSame.symm⟩)
        have hRest : others (a :: l) h.id = a :: others l h.id := by
          exact List.filter_cons_of_pos (decide_eq_true hNe)
        rw [hRest]
        exact ((ih hIds hTail).cons a).trans (List.Perm.swap h a _)

theorem length_others_lt (hIds : (l.map Handle.id).Nodup) (hMem : h ∈ l) :
    (others l h.id).length < l.length := by
  rw [(perm_others hIds hMem).length_eq, List.length_cons]
  exact Nat.lt_succ_self _

end Places

section Pointers

variable {Id Obj : Type} [DecidableEq Obj] {l l' : List (Handle Id Obj)} {h : Handle Id Obj} {o : Obj}

/-- The number of handles that point to an object. -/
def refs (l : List (Handle Id Obj)) (o : Obj) : ℕ := l.countP fun h => decide (h.ptr = some o)

/-- What one pointer adds to the number of handles. -/
def one (p : Option Obj) (o : Obj) : ℕ := if p = some o then 1 else 0

theorem refs_cons (h : Handle Id Obj) (l : List (Handle Id Obj)) (o : Obj) :
    refs (h :: l) o = refs l o + one h.ptr o := by
  rw [refs, List.countP_cons, refs, one]
  by_cases hPtr : h.ptr = some o
  · rw [if_pos (decide_eq_true hPtr), if_pos hPtr]
  · rw [if_neg (fun hTrue => hPtr (of_decide_eq_true hTrue)), if_neg hPtr]

theorem refs_perm (hPerm : l.Perm l') (o : Obj) : refs l o = refs l' o :=
  hPerm.countP_eq _

theorem refs_sublist (hSub : l'.Sublist l) (o : Obj) : refs l' o ≤ refs l o :=
  hSub.countP_le

theorem refs_pos (hMem : h ∈ l) (hPtr : h.ptr = some o) : 0 < refs l o :=
  List.countP_pos_iff.2 ⟨h, hMem, decide_eq_true hPtr⟩

/-- The handles that point to an object are one and the others. -/
theorem refs_others [DecidableEq Id] (hIds : (l.map Handle.id).Nodup) (hMem : h ∈ l) (o : Obj) :
    refs l o = refs (others l h.id) o + one h.ptr o := by
  rw [refs_perm (perm_others hIds hMem), refs_cons]

end Pointers

/-! ## What is done -/

variable {Id Obj : Type} [DecidableEq Id] [DecidableEq Obj]

def find (s : Heap Id Obj) (id : Id) : Option (Handle Id Obj) :=
  s.handles.find? fun h => decide (h.id = id)

/-- The handle does not live any more. -/
def remove (s : Heap Id Obj) (id : Id) : Heap Id Obj := { s with handles := others s.handles id }

/-- The handles that are members of an object. -/
def members (s : Heap Id Obj) (o : Obj) : List Id :=
  (s.handles.filter fun h => decide (h.owner = some o)).map Handle.id

/-- The memory of an object is given back. -/
def free (s : Heap Id Obj) (o : Obj) : Heap Id Obj :=
  { s with deleted := Function.update s.deleted o true }

/-- A handle is used whose place is in an object. -/
def touch (s : Heap Id Obj) (owner : Option Obj) : Heap Id Obj :=
  if owner.any s.deleted then { s with dangling := true } else s

/-- `___ptr = p`. -/
def write (s : Heap Id Obj) (id : Id) (p : Option Obj) : Heap Id Obj :=
  if (s.find id).isSome then
    { s with handles := s.handles.map fun h => if h.id = id then { h with ptr := p } else h }
  else { s with dangling := true }

/-- `increfcount` of a handle that points to `p`. -/
def increfcount (s : Heap Id Obj) : Option Obj → Heap Id Obj
  | none => s
  | some o =>
      { s with
        refCount := Function.update s.refCount o (s.refCount o + 1)
        held := Function.update s.held o true }

/-- The destructor of a handle, where `decref` is what it does with its pointer. -/
def destroyBy (decref : Option Obj → Heap Id Obj → Heap Id Obj × Option Obj) (s : Heap Id Obj)
    (id : Id) : Heap Id Obj :=
  match s.find id with
  | none => { s with dangling := true }
  | some h => (decref h.ptr (s.remove id)).1.touch h.owner

/-- `decrefcount` of a handle that points to `p`, and what is in `___ptr` behind
it.  Deleting an object destroys its members and gives its memory back. -/
def decrefcount : ℕ → Option Obj → Heap Id Obj → Heap Id Obj × Option Obj
  | _, none, s => (s, none)
  | 0, some o, s => ({ s with running := true }, some o)
  | fuel + 1, some o, s =>
      let prev := s.refCount o
      let s := { s with refCount := Function.update s.refCount o (prev - 1) }
      if prev = 1 then (((s.members o).foldl (destroyBy (decrefcount fuel)) s).free o, none)
      else (s, some o)

/-- Every release removes handles. -/
def fuel (s : Heap Id Obj) : ℕ := s.handles.length + 1

/-- What a program does with handles. -/
inductive Act (Id Obj : Type)
  | construct (id : Id) (owner p : Option Obj)
  | copy (id : Id) (owner : Option Obj) (bcg : Id)
  | assign (id bcg : Id)
  | destroy (id : Id)

/-- A new handle that points to `p`. -/
def add (s : Heap Id Obj) (id : Id) (owner p : Option Obj) : Heap Id Obj :=
  ({ s with handles := ⟨id, p, owner⟩ :: s.handles } : Heap Id Obj).increfcount p

def step (s : Heap Id Obj) : Act Id Obj → Heap Id Obj
  | .construct id owner p => s.add id owner p
  | .copy id owner bcg =>
      match s.find bcg with
      | none => { s with dangling := true }
      | some b => s.add id owner b.ptr
  | .assign id bcg =>
      if id = bcg then s
      else match s.find bcg, s.find id with
        | some b, some h =>
            let s := s.increfcount b.ptr
            let r := decrefcount s.fuel h.ptr s
            let s := r.1.write id r.2
            match s.find bcg with
            | none => { s with dangling := true }
            | some b => s.write id b.ptr
        | _, _ => { s with dangling := true }
  | .destroy id => destroyBy (decrefcount s.fuel) s id

/-- The memory is there. -/
def Exists (s : Heap Id Obj) (o : Option Obj) : Prop := ∀ x, o = some x → s.deleted x = false

/-- A handle is made at a place that is free, from a pointer to an object or from a
handle that lives; those that live are assigned and destroyed. -/
def Enabled (s : Heap Id Obj) : Act Id Obj → Prop
  | .construct id owner p => (s.find id).isNone ∧ s.Exists owner ∧ s.Exists p
  | .copy id owner bcg => (s.find id).isNone ∧ s.Exists owner ∧ (s.find bcg).isSome
  | .assign id bcg => (s.find id).isSome ∧ (s.find bcg).isSome
  | .destroy id => (s.find id).isSome

def start : Heap Id Obj := ⟨[], fun _ => 0, fun _ => false, fun _ => false, false, false⟩

def machine : Machine (Heap Id Obj) (Act Id Obj) where
  init s := s = start
  enabled := Enabled
  apply := step

/-! ## What is to hold -/

/-- The count is the number of handles that live and point to the object, an
object is deleted exactly if it has been pointed to and is not any more, and no
handle is read or destroyed that does not live. -/
structure Sound (s : Heap Id Obj) : Prop where
  ids : (s.handles.map Handle.id).Nodup
  count_eq : ∀ o, (s.refCount o).toInt = refs s.handles o
  deleted_iff : ∀ o, s.deleted o = true ↔ s.held o = true ∧ refs s.handles o = 0
  held_of_refs : ∀ o, 0 < refs s.handles o → s.held o = true
  owners : ∀ h ∈ s.handles, s.Exists h.owner
  notDangling : s.dangling = false
  notRunning : s.running = false

/-- A place that goes with the release of a handle: in an object to which no other
handle points, but for those in such places. -/
inductive Doomed (s : Heap Id Obj) (r : Id) : Option Obj → Prop
  | intro {o : Obj} (hSome : ∃ h ∈ s.handles, h.ptr = some o)
      (hAll : ∀ h ∈ s.handles, h.ptr = some o → h.id ≠ r → Doomed s r h.owner) : Doomed s r (some o)

/-- There is one more handle to come, and the count holds it. -/
def Few (s : Heap Id Obj) (p : Option Obj) : Prop :=
  ∀ o, p = some o → refs s.handles o + 1 < 2 ^ 31

/-- Neither of the handles that `operator=` uses lies in what it releases, nor does
a handle in what it releases itself by its end; and the counts do not overflow. -/
def Careful (s : Heap Id Obj) : Act Id Obj → Prop
  | .construct _ _ p => s.Few p
  | .copy _ _ bcg => ∀ b ∈ s.find bcg, s.Few b.ptr
  | .assign id bcg => id ≠ bcg → ∀ h ∈ s.find id, ∀ b ∈ s.find bcg,
      ¬ Doomed s id h.owner ∧ ¬ Doomed s id b.owner ∧ (h.ptr = b.ptr ∨ s.Few b.ptr)
  | .destroy id => ∀ h ∈ s.find id, ¬ Doomed s id h.owner

/-! ## Finding -/

section Finding

variable {s : Heap Id Obj} {h : Handle Id Obj} {id : Id}

omit [DecidableEq Obj]

theorem find_eq_some (hFind : s.find id = some h) : h ∈ s.handles ∧ h.id = id := by
  have hSame : decide (h.id = id) = true :=
    List.find?_some (p := fun h : Handle Id Obj => decide (h.id = id)) hFind
  exact ⟨List.mem_of_find?_eq_some hFind, of_decide_eq_true hSame⟩

theorem find_of_mem (hIds : (s.handles.map Handle.id).Nodup) (hMem : h ∈ s.handles) :
    s.find h.id = some h := by
  cases hFind : s.find h.id with
  | none => exact absurd (List.find?_eq_none.1 hFind h hMem) (by simp)
  | some h' =>
      obtain ⟨hMem', hSame⟩ := find_eq_some hFind
      rw [eq_of_id hIds hMem hMem' hSame]

theorem find_none_iff : (s.find id).isNone = true ↔ id ∉ s.handles.map Handle.id := by
  rw [Option.isNone_iff_eq_none, find, List.find?_eq_none, List.mem_map]
  constructor
  · rintro hNone ⟨h, hMem, rfl⟩
    exact hNone h hMem (decide_eq_true rfl)
  · exact fun hNone h hMem hSame => hNone ⟨h, hMem, of_decide_eq_true hSame⟩

end Finding

/-! ## Releasing -/

/-- A release that began from `s₀` with the handle at `r`, and from the handles
`base`.  The handle at `r` is not counted any more; `extra` are handles to come,
and `P` are the objects whose members are being destroyed. -/
structure Releasing (s₀ : Heap Id Obj) (r : Id) (base : List (Handle Id Obj)) (extra : Obj → ℕ)
    (P : Obj → Prop) (s : Heap Id Obj) : Prop where
  sub : s.handles.Sublist base
  gone : ∀ h ∈ base, h ∈ s.handles ∨ Doomed s₀ r h.owner
  count_eq : ∀ o, s.refCount o = Int32.ofNat (refs (others s.handles r) o + extra o)
  few : ∀ o, refs (others s.handles r) o + extra o < 2 ^ 32
  held_of_refs : ∀ o, 0 < refs (others s.handles r) o + extra o → s.held o = true
  deleted_iff : ∀ o, ¬ P o →
    (s.deleted o = true ↔ s.held o = true ∧ refs (others s.handles r) o + extra o = 0)
  pending : ∀ o, P o →
    s.deleted o = false ∧ s.held o = true ∧ refs (others s.handles r) o + extra o = 0
  freed : ∀ o, s.deleted o = true → s₀.deleted o = true ∨ Doomed s₀ r (some o)
  owners : ∀ h ∈ s.handles, s.Exists h.owner
  notDangling : s.dangling = false
  notRunning : s.running = false

/-- Handles in objects whose members are being destroyed elsewhere are left. -/
def Leaves (P : Obj → Prop) (s s' : Heap Id Obj) : Prop :=
  s'.handles.Sublist s.handles ∧ ∀ h ∈ s.handles, ∀ o, h.owner = some o → P o → h ∈ s'.handles

omit [DecidableEq Id] [DecidableEq Obj] in
theorem Leaves.refl (P : Obj → Prop) (s : Heap Id Obj) : Leaves P s s :=
  ⟨List.Sublist.refl _, fun _ hMem _ _ _ => hMem⟩

omit [DecidableEq Id] [DecidableEq Obj] in
theorem Leaves.trans {P : Obj → Prop} {s₁ s₂ s₃ : Heap Id Obj} (h : Leaves P s₁ s₂)
    (h' : Leaves P s₂ s₃) : Leaves P s₁ s₃ :=
  ⟨h'.1.trans h.1, fun a hMem o hOwner hP => h'.2 a (h.2 a hMem o hOwner hP) o hOwner hP⟩

section Releasing

variable {s₀ : Heap Id Obj} {r : Id} {base : List (Handle Id Obj)} {extra : Obj → ℕ}
  {P : Obj → Prop} {s : Heap Id Obj} {o : Obj} {p : Option Obj} {n : ℕ}

/-- The handles that a release begins from. -/
structure Begins (s₀ : Heap Id Obj) (r : Id) (base : List (Handle Id Obj)) : Prop where
  ids : (base.map Handle.id).Nodup
  sub : ∀ h ∈ base, h ∈ s₀.handles
  others : ∀ h ∈ s₀.handles, h.id ≠ r → h ∈ base
  root : ∀ h ∈ base, h.id = r → ¬ Doomed s₀ r h.owner

theorem Releasing.ids (h : Releasing s₀ r base extra P s) (hb : Begins s₀ r base) :
    (s.handles.map Handle.id).Nodup :=
  hb.ids.sublist (h.sub.map _)

/-- A member of a doomed object is not counted any more. -/
theorem Releasing.remove (hs : Releasing s₀ r base extra P s) (hb : Begins s₀ r base)
    {h : Handle Id Obj} (hMem : h ∈ s.handles) (hDoomed : Doomed s₀ r h.owner) :
    Releasing s₀ r base (fun o => extra o + one h.ptr o) P (s.remove h.id) := by
  have hIds := hs.ids hb
  have hNe : h.id ≠ r := fun hSame => hb.root h (hs.sub.subset hMem) hSame hDoomed
  have hRefs : ∀ o, refs (others (s.remove h.id).handles r) o + (extra o + one h.ptr o) =
      refs (others s.handles r) o + extra o := by
    intro o
    have hIds' : ((others s.handles r).map Handle.id).Nodup :=
      hIds.sublist ((others_sublist _ _).map _)
    have hSplit := refs_others hIds' (mem_others.2 ⟨hMem, hNe⟩) o
    show refs (others (others s.handles h.id) r) o + _ = _
    rw [others_comm, hSplit]
    omega
  refine ⟨(others_sublist _ _).trans hs.sub, fun h' hMem' => ?_, fun o => ?_, fun o => ?_,
    fun o hPos => ?_, fun o hP => ?_, fun o hP => ?_, hs.freed, fun h' hMem' => ?_, hs.notDangling,
    hs.notRunning⟩
  · rcases hs.gone h' hMem' with hThere | hGone
    · by_cases hSame : h'.id = h.id
      · rw [eq_of_id hIds hMem hThere hSame]
        exact Or.inr hDoomed
      · exact Or.inl (mem_others.2 ⟨hThere, hSame⟩)
    · exact Or.inr hGone
  · rw [hRefs]
    exact hs.count_eq o
  · rw [hRefs]
    exact hs.few o
  · rw [hRefs] at hPos
    exact hs.held_of_refs o hPos
  · rw [hRefs]
    exact hs.deleted_iff o hP
  · rw [hRefs]
    exact hs.pending o hP
  · exact hs.owners h' (mem_others.1 hMem').1

/-- What a release of a pointer is to do. -/
def Releases (s₀ : Heap Id Obj) (r : Id) (base : List (Handle Id Obj)) (n : ℕ)
    (decref : Option Obj → Heap Id Obj → Heap Id Obj × Option Obj) : Prop :=
  ∀ (p : Option Obj) (extra : Obj → ℕ) (P : Obj → Prop) (s : Heap Id Obj),
    Releasing s₀ r base (fun o => extra o + one p o) P s → s.handles.length < n →
    (∀ o, p = some o → ∃ h ∈ s₀.handles, h.ptr = some o) →
    Releasing s₀ r base extra P (decref p s).1 ∧ Leaves P s (decref p s).1

/-- **A member is destroyed.** -/
theorem Releasing.destroyBy {decref : Option Obj → Heap Id Obj → Heap Id Obj × Option Obj}
    (hDecref : Releases s₀ r base n decref) (hs : Releasing s₀ r base extra P s)
    (hb : Begins s₀ r base) (hP : P o) (hDoomed : Doomed s₀ r (some o)) {h : Handle Id Obj}
    (hMem : h ∈ s.handles) (hOwner : h.owner = some o) (hLength : s.handles.length ≤ n) :
    Releasing s₀ r base extra P (Heap.destroyBy decref s h.id) ∧
      (Heap.destroyBy decref s h.id).handles.Sublist (others s.handles h.id) ∧
      ∀ h' ∈ others s.handles h.id, ∀ o', h'.owner = some o' → P o' →
        h' ∈ (Heap.destroyBy decref s h.id).handles := by
  have hIds := hs.ids hb
  have hLess := length_others_lt hIds hMem
  obtain ⟨hs', hSub, hLeft⟩ := hDecref h.ptr extra P (s.remove h.id)
    (hs.remove hb hMem (hOwner.symm ▸ hDoomed)) (Nat.lt_of_lt_of_le hLess hLength)
    fun o hPtr => ⟨h, hb.sub h (hs.sub.subset hMem), hPtr⟩
  have hTouch : Heap.destroyBy decref s h.id = (decref h.ptr (s.remove h.id)).1 := by
    rw [Heap.destroyBy, find_of_mem hIds hMem]
    show Heap.touch _ h.owner = _
    rw [touch, hOwner, Option.any_some, (hs'.pending o hP).1, if_neg Bool.false_ne_true]
  rw [hTouch]
  exact ⟨hs', hSub, hLeft⟩

/-- **The members of an object are destroyed**, one after the other. -/
theorem Releasing.destroyMembers {decref : Option Obj → Heap Id Obj → Heap Id Obj × Option Obj}
    (hDecref : Releases s₀ r base n decref) (hb : Begins s₀ r base) (hP : P o)
    (hDoomed : Doomed s₀ r (some o)) (ids : List Id) :
    ∀ s, Releasing s₀ r base extra P s → s.handles.length ≤ n → ids.Nodup →
      (∀ id ∈ ids, ∃ h ∈ s.handles, h.id = id ∧ h.owner = some o) →
      Releasing s₀ r base extra P (ids.foldl (Heap.destroyBy decref) s) ∧
        Leaves (fun o' => P o' ∧ o' ≠ o) s (ids.foldl (Heap.destroyBy decref) s) ∧
        ∀ h ∈ (ids.foldl (Heap.destroyBy decref) s).handles, h.id ∉ ids := by
  induction ids with
  | nil => exact fun s hs _ _ _ => ⟨hs, Leaves.refl _ s, fun _ _ => List.not_mem_nil⟩
  | cons id ids ih =>
      intro s hs hLength hNodup hThere
      rw [List.nodup_cons] at hNodup
      obtain ⟨h, hMem, rfl, hOwner⟩ := hThere id List.mem_cons_self
      obtain ⟨hs₁, hSub, hLeft⟩ := hs.destroyBy hDecref hb hP hDoomed hMem hOwner hLength
      obtain ⟨hs', hLeaves, hNone⟩ := ih _ hs₁
        (Nat.le_trans (hSub.trans (others_sublist _ _)).length_le hLength) hNodup.2 (by
          intro id' hId'
          obtain ⟨h', hMem', rfl, hOwner'⟩ := hThere id' (List.mem_cons_of_mem _ hId')
          have hNe : h'.id ≠ h.id := fun hSame => hNodup.1 (hSame ▸ hId')
          exact ⟨h', hLeft h' (mem_others.2 ⟨hMem', hNe⟩) o hOwner' hP, rfl, hOwner'⟩)
      refine ⟨hs', Leaves.trans ⟨hSub.trans (others_sublist _ _), ?_⟩ hLeaves, ?_⟩
      · intro h' hMem' o' hOwner' hP'
        have hNe : h'.id ≠ h.id := by
          intro hSame
          rw [eq_of_id (hs.ids hb) hMem hMem' hSame, hOwner] at hOwner'
          exact hP'.2 (Option.some.inj hOwner').symm
        exact hLeft h' (mem_others.2 ⟨hMem', hNe⟩) o' hOwner' hP'.1
      · intro h' hMem' hId'
        rcases List.mem_cons.1 hId' with hSame | hTail
        · exact (mem_others.1 (hSub.subset (hLeaves.1.subset hMem'))).2 hSame
        · exact hNone h' hMem' hTail

theorem ofNat_succ_sub (n : ℕ) : Int32.ofNat (n + 1) - 1 = Int32.ofNat n := by
  rw [Int32.ofNat_add]
  exact Int32.add_sub_cancel _ _

/-- The last of them. -/
theorem ofNat_succ_eq_one {n : ℕ} (hn : n + 1 < 2 ^ 32) : Int32.ofNat (n + 1) = 1 ↔ n = 0 := by
  constructor
  · intro hOne
    have hNat : (Int32.ofNat (n + 1)).toUInt32.toNat = (1 : Int32).toUInt32.toNat := by rw [hOne]
    rw [Int32.toUInt32_ofNat', UInt32.toNat_ofNat_of_lt' hn] at hNat
    exact Nat.succ.inj hNat
  · rintro rfl
    rfl

/-- Nobody else points to the object: it is doomed. -/
theorem Releasing.doomed (hs : Releasing s₀ r base extra P s) (hb : Begins s₀ r base)
    (hSome : ∃ h ∈ s₀.handles, h.ptr = some o) (hNone : refs (others s.handles r) o = 0) :
    Doomed s₀ r (some o) := by
  refine Doomed.intro hSome fun h hMem hPtr hNe => ?_
  rcases hs.gone h (hb.others h hMem hNe) with hThere | hGone
  · have hPos := refs_pos (mem_others.2 ⟨hThere, hNe⟩) hPtr
    omega
  · exact hGone

/-- The count is one less.  If it is zero now, the members of the object are to be
destroyed. -/
theorem Releasing.uncount (hs : Releasing s₀ r base (fun x => extra x + one (some o) x) P s) :
    Releasing s₀ r base extra
      (fun x => P x ∨ x = o ∧ refs (others s.handles r) x + extra x = 0)
      { s with refCount := Function.update s.refCount o (s.refCount o - 1) } := by
  have hOne : one (some o) o = 1 := if_pos rfl
  have hZero : ∀ x, x ≠ o → one (some o) x = 0 := fun x hx =>
    if_neg fun hSame => hx (Option.some.inj hSame).symm
  have hNotDeleted : s.deleted o = false := by
    by_cases hP : P o
    · exact (hs.pending o hP).1
    · refine Bool.eq_false_iff.2 fun hDeleted => ?_
      have hNone := ((hs.deleted_iff o hP).1 hDeleted).2
      rw [hOne] at hNone
      omega
  refine ⟨hs.sub, hs.gone, fun x => ?_, fun x => ?_, fun x hPos => ?_, fun x hP => ?_, fun x hP => ?_,
    hs.freed, hs.owners, hs.notDangling, hs.notRunning⟩
  · by_cases hx : x = o
    · subst hx
      have hCount := hs.count_eq x
      rw [hOne, ← Nat.add_assoc] at hCount
      show Function.update s.refCount x (s.refCount x - 1) x = _
      rw [Function.update_self, hCount, ofNat_succ_sub]
    · have hCount := hs.count_eq x
      rw [hZero x hx] at hCount
      show Function.update s.refCount o (s.refCount o - 1) x = _
      rw [Function.update_of_ne hx, hCount]
      rfl
  · have hFew := hs.few x
    exact Nat.lt_of_le_of_lt (Nat.add_le_add_left (Nat.le_add_right _ _) _) hFew
  · exact hs.held_of_refs x (Nat.lt_of_lt_of_le hPos (Nat.add_le_add_left (Nat.le_add_right _ _) _))
  · rw [not_or, not_and] at hP
    have hIff := hs.deleted_iff x hP.1
    by_cases hx : x = o
    · subst hx
      refine iff_of_false (fun hDeleted => ?_) fun hNone => hP.2 rfl hNone.2
      rw [hNotDeleted] at hDeleted
      cases hDeleted
    · rw [hZero x hx] at hIff
      exact hIff
  · rcases hP with hP | ⟨rfl, hNone⟩
    · obtain ⟨hDeleted, hHeld, hAll⟩ := hs.pending x hP
      exact ⟨hDeleted, hHeld, by
        show refs (others s.handles r) x + extra x = 0
        omega⟩
    · exact ⟨hNotDeleted, hs.held_of_refs x (by rw [hOne]; omega), hNone⟩

/-- The object whose members are destroyed is given back. -/
theorem Releasing.free (hs : Releasing s₀ r base extra (fun x => P x ∨ x = o) s)
    (hP : ¬ P o) (hDoomed : Doomed s₀ r (some o)) (hNone : ∀ h ∈ s.handles, h.owner ≠ some o) :
    Releasing s₀ r base extra P (s.free o) := by
  have hOther : ∀ x, x ≠ o → (s.free o).deleted x = s.deleted x := fun x hx =>
    Function.update_of_ne hx _ _
  have hSelf : (s.free o).deleted o = true := Function.update_self _ _ _
  refine ⟨hs.sub, hs.gone, hs.count_eq, hs.few, hs.held_of_refs, fun x hx => ?_, fun x hx => ?_,
    fun x hx => ?_, fun h hMem x hOwner => ?_, hs.notDangling, hs.notRunning⟩
  · by_cases hSame : x = o
    · subst hSame
      exact iff_of_true hSelf (hs.pending x (Or.inr rfl)).2
    · rw [hOther x hSame]
      exact hs.deleted_iff x (not_or.2 ⟨hx, hSame⟩)
  · have hNe : x ≠ o := fun hSame => hP (hSame ▸ hx)
    rw [hOther x hNe]
    exact hs.pending x (Or.inl hx)
  · by_cases hSame : x = o
    · exact Or.inr (hSame ▸ hDoomed)
    · rw [hOther x hSame] at hx
      exact hs.freed x hx
  · have hNe : x ≠ o := fun hSame => hNone h hMem (hSame ▸ hOwner)
    rw [hOther x hNe]
    exact hs.owners h hMem x hOwner

omit [DecidableEq Id] in
/-- The members of an object, each at one place. -/
theorem members_spec (hIds : (s.handles.map Handle.id).Nodup) (o : Obj) :
    (s.members o).Nodup ∧
      (∀ id ∈ s.members o, ∃ h ∈ s.handles, h.id = id ∧ h.owner = some o) ∧
      ∀ h ∈ s.handles, h.owner = some o → h.id ∈ s.members o := by
  refine ⟨hIds.sublist (List.filter_sublist.map _), fun id hId => ?_, fun h hMem hOwner => ?_⟩
  · obtain ⟨h, hMem, rfl⟩ := List.mem_map.1 hId
    obtain ⟨hThere, hOwner⟩ := List.mem_filter.1 hMem
    exact ⟨h, hThere, rfl, of_decide_eq_true hOwner⟩
  · exact List.mem_map.2 ⟨h, List.mem_filter.2 ⟨hMem, decide_eq_true hOwner⟩, rfl⟩

/-- **A release** deletes what is doomed, and leaves the counts right. -/
theorem releases_decrefcount (hb : Begins s₀ r base) (fuel : ℕ) :
    Releases s₀ r base fuel (decrefcount fuel) := by
  induction fuel with
  | zero => exact fun p extra P s _ hLess => absurd hLess (Nat.not_lt_zero _)
  | succ fuel ih =>
      intro p extra P s hs hLess hSome
      cases p with
      | none => exact ⟨hs, Leaves.refl P s⟩
      | some o =>
          have hFew := hs.few o
          have hCount := hs.count_eq o
          have hOne : one (some o) o = 1 := if_pos rfl
          rw [hOne, ← Nat.add_assoc] at hFew hCount
          have hs₁ := hs.uncount
          rw [decrefcount]
          by_cases hNone : refs (others s.handles r) o + extra o = 0
          · have hLast : s.refCount o = 1 := by
              rw [hCount, ofNat_succ_eq_one hFew]
              exact hNone
            have hP : ¬ P o := by
              intro hP
              have hZero := (hs.pending o hP).2.2
              rw [hOne] at hZero
              omega
            have hPending : (fun x => P x ∨ x = o ∧ refs (others s.handles r) x + extra x = 0) =
                fun x => P x ∨ x = o := by
              funext x
              refine propext (or_congr_right (and_iff_left_of_imp ?_))
              rintro rfl
              exact hNone
            rw [hPending] at hs₁
            have hDoomed := hs.doomed hb (hSome o rfl) (Nat.eq_zero_of_add_eq_zero_right hNone)
            simp only [if_pos hLast]
            obtain ⟨hNodup, hThere, hAll⟩ := members_spec (hs₁.ids hb) o
            obtain ⟨hs₂, hLeaves, hGone⟩ := Releasing.destroyMembers ih hb (Or.inr rfl) hDoomed _ _ hs₁
              (Nat.le_of_lt_succ hLess) hNodup hThere
            refine ⟨hs₂.free hP hDoomed fun h hMem hOwner => ?_, hLeaves.1, ?_⟩
            · exact hGone h hMem (hAll h (hLeaves.1.subset hMem) hOwner)
            · intro h hMem o' hOwner hP'
              exact hLeaves.2 h hMem o' hOwner ⟨Or.inl hP', fun hSame => hP (hSame ▸ hP')⟩
          · have hMore : ¬ s.refCount o = 1 := by
              rw [hCount, ofNat_succ_eq_one hFew]
              exact hNone
            have hPending : (fun x => P x ∨ x = o ∧ refs (others s.handles r) x + extra x = 0) = P := by
              funext x
              refine propext (or_iff_left ?_)
              rintro ⟨rfl, hZero⟩
              exact hNone hZero
            rw [hPending] at hs₁
            simp only [if_neg hMore]
            exact ⟨hs₁, Leaves.refl P _⟩

/-- The handle at `r` does not live any more. -/
theorem Releasing.removeRoot (hs : Releasing s₀ r base extra P s) :
    Releasing s₀ r (Heap.others base r) extra P (s.remove r) := by
  have hSame : Heap.others (s.remove r).handles r = Heap.others s.handles r := by
    show (List.filter _ (List.filter _ s.handles)) = _
    rw [List.filter_filter]
    simp only [Bool.and_self]
    rfl
  refine ⟨hs.sub.filter _, fun h hMem => ?_, fun o => ?_, fun o => ?_, fun o hPos => ?_,
    fun o hP => ?_, fun o hP => ?_, hs.freed, fun h hMem => hs.owners h (mem_others.1 hMem).1,
    hs.notDangling, hs.notRunning⟩
  · obtain ⟨hBase, hNe⟩ := mem_others.1 hMem
    exact (hs.gone h hBase).imp_left fun hThere => mem_others.2 ⟨hThere, hNe⟩
  · rw [hSame]
    exact hs.count_eq o
  · rw [hSame]
    exact hs.few o
  · rw [hSame] at hPos
    exact hs.held_of_refs o hPos
  · rw [hSame]
    exact hs.deleted_iff o hP
  · rw [hSame]
    exact hs.pending o hP

end Releasing

/-! ## The operations -/

section Operations

variable {s : Heap Id Obj} {id bcg : Id} {owner p : Option Obj} {a b : Handle Id Obj} {o : Obj}

omit [DecidableEq Id] in
/-- The count as it is stored. -/
theorem Sound.count (h : s.Sound) (o : Obj) :
    s.refCount o = Int32.ofNat (refs s.handles o) ∧ refs s.handles o < 2 ^ 31 := by
  have hLt := (s.refCount o).toInt_lt
  have hCount := h.count_eq o
  have hSmall : refs s.handles o < 2 ^ 31 := by omega
  refine ⟨Int32.toInt_inj.1 ?_, hSmall⟩
  rw [hCount, Int32.toInt_ofNat_of_lt hSmall]

omit [DecidableEq Id] in
/-- What a handle that lives points to is there. -/
theorem Sound.exists_ptr (h : s.Sound) (hMem : a ∈ s.handles) : s.Exists a.ptr := by
  intro o hPtr
  refine Bool.eq_false_iff.2 fun hDeleted => ?_
  have hNone := ((h.deleted_iff o).1 hDeleted).2
  have hPos := refs_pos hMem hPtr
  omega

omit [DecidableEq Id] in
/-- Which objects are deleted when `p` is counted beside the handles. -/
theorem Sound.deleted_iff_more (h : s.Sound) (hExists : s.Exists p) (o : Obj) :
    s.deleted o = true ↔
      (s.held o = true ∨ p = some o) ∧ refs s.handles o + one p o = 0 := by
  by_cases hPtr : p = some o
  · refine iff_of_false (fun hTrue => ?_) fun hNone => ?_
    · exact absurd ((hExists o hPtr).symm.trans hTrue) Bool.false_ne_true
    · rw [one, if_pos hPtr] at hNone
      omega
  · rw [one, if_neg hPtr, or_iff_left hPtr]
    exact h.deleted_iff o

omit [DecidableEq Id] in
theorem Sound.held_of_more (h : s.Sound) (hPos : 0 < refs s.handles o + one p o) :
    s.held o = true ∨ p = some o := by
  by_cases hPtr : p = some o
  · exact Or.inr hPtr
  · rw [one, if_neg hPtr] at hPos
    exact Or.inl (h.held_of_refs o hPos)

omit [DecidableEq Id] in
theorem increfcount_spec (s : Heap Id Obj) (p : Option Obj) :
    (s.increfcount p).handles = s.handles ∧ (s.increfcount p).deleted = s.deleted ∧
      (∀ o, (s.increfcount p).refCount o = s.refCount o + Int32.ofNat (one p o)) ∧
      (∀ o, (s.increfcount p).held o = true ↔ s.held o = true ∨ p = some o) ∧
      (s.increfcount p).dangling = s.dangling ∧ (s.increfcount p).running = s.running := by
  cases p with
  | none =>
      refine ⟨rfl, rfl, fun o => ?_, fun o => ?_, rfl, rfl⟩
      · exact (Int32.add_zero _).symm
      · exact (or_iff_left (by rintro ⟨⟩)).symm
  | some x =>
      refine ⟨rfl, rfl, fun o => ?_, fun o => ?_, rfl, rfl⟩
      · show Function.update s.refCount x (s.refCount x + 1) o = _
        by_cases hSame : o = x
        · subst hSame
          rw [Function.update_self, one, if_pos rfl]
          rfl
        · rw [Function.update_of_ne hSame, one, if_neg fun hx => hSame (Option.some.inj hx).symm]
          exact (Int32.add_zero _).symm
      · show Function.update s.held x true o = true ↔ _
        by_cases hSame : o = x
        · subst hSame
          rw [Function.update_self]
          exact iff_of_true rfl (Or.inr rfl)
        · rw [Function.update_of_ne hSame]
          exact (or_iff_left fun hx => hSame (Option.some.inj hx).symm).symm

/-- **A handle is made.** -/
theorem sound_add (h : s.Sound) (hFree : (s.find id).isNone) (hOwner : s.Exists owner)
    (hExists : s.Exists p) (hFew : s.Few p) : (s.add id owner p).Sound := by
  obtain ⟨hHandles, hDeleted, hCount, hHeld, hDangling, hRunning⟩ :=
    increfcount_spec { s with handles := ⟨id, p, owner⟩ :: s.handles } p
  have hRefs : ∀ o, refs (s.add id owner p).handles o = refs s.handles o + one p o := by
    intro o
    rw [add, hHandles]
    exact refs_cons _ _ _
  have hSmall : ∀ o, refs s.handles o + one p o < 2 ^ 31 := by
    intro o
    obtain ⟨-, hLt⟩ := h.count o
    by_cases hPtr : p = some o
    · rw [one, if_pos hPtr]
      exact hFew o hPtr
    · rw [one, if_neg hPtr]
      exact hLt
  refine ⟨?_, fun o => ?_, fun o => ?_, fun o hPos => ?_, fun a hMem => ?_, ?_, ?_⟩
  · rw [add, hHandles]
    exact List.nodup_cons.2 ⟨find_none_iff.1 hFree, h.ids⟩
  · rw [hRefs, add, hCount, (h.count o).1, ← Int32.ofNat_add, Int32.toInt_ofNat_of_lt (hSmall o)]
  · rw [hRefs, add, hDeleted, hHeld]
    exact h.deleted_iff_more hExists o
  · rw [hRefs] at hPos
    rw [add, hHeld]
    exact h.held_of_more hPos
  · rw [add, hHandles] at hMem
    intro x hx
    rw [add, hDeleted]
    rcases List.mem_cons.1 hMem with rfl | hOld
    · exact hOwner x hx
    · exact h.owners a hOld x hx
  · rw [add, hDangling]
    exact h.notDangling
  · rw [add, hRunning]
    exact h.notRunning

/-- A release begins, of the handle `a`, when another was counted already. -/
theorem Sound.releasing (h : s.Sound) (hMem : a ∈ s.handles) (hExists : s.Exists p) :
    Releasing s a.id s.handles (fun o => one p o + one a.ptr o) (fun _ => False)
      (s.increfcount p) := by
  obtain ⟨hHandles, hDeleted, hCount, hHeld, hDangling, hRunning⟩ := increfcount_spec s p
  have hRefs : ∀ o, refs (others (s.increfcount p).handles a.id) o + (one p o + one a.ptr o) =
      refs s.handles o + one p o := by
    intro o
    rw [hHandles, refs_others h.ids hMem o]
    omega
  refine ⟨?_, fun x hx => ?_, fun o => ?_, fun o => ?_, fun o hPos => ?_, fun o _ => ?_, fun _ hP => hP.elim,
    fun o hx => ?_, fun x hx => ?_, ?_, ?_⟩
  · rw [hHandles]
  · rw [hHandles]
    exact Or.inl hx
  · rw [hRefs, hCount, (h.count o).1, Int32.ofNat_add]
  · rw [hRefs]
    obtain ⟨-, hLt⟩ := h.count o
    have hOne : one p o ≤ 1 := by
      rw [one]
      split <;> decide
    omega
  · rw [hRefs] at hPos
    rw [hHeld]
    exact h.held_of_more hPos
  · rw [hRefs, hDeleted, hHeld]
    exact h.deleted_iff_more hExists o
  · rw [hDeleted] at hx
    exact Or.inl hx
  · rw [hHandles] at hx
    intro y hy
    rw [hDeleted]
    exact h.owners x hx y hy
  · rw [hDangling]
    exact h.notDangling
  · rw [hRunning]
    exact h.notRunning

/-- The end of a release, with the handle at `r` gone. -/
theorem Releasing.sound {s₀ : Heap Id Obj} {r : Id} {base : List (Handle Id Obj)}
    (hs : Releasing s₀ r base (fun _ => 0) (fun _ => False) s) (hIds : (s.handles.map Handle.id).Nodup)
    (hGone : others s.handles r = s.handles) (hFew : ∀ o, refs s.handles o < 2 ^ 31) : s.Sound := by
  refine ⟨hIds, fun o => ?_, fun o => ?_, fun o hPos => ?_, hs.owners, hs.notDangling, hs.notRunning⟩
  · have hCount := hs.count_eq o
    rw [hGone, Nat.add_zero] at hCount
    rw [hCount, Int32.toInt_ofNat_of_lt (hFew o)]
  · have hIff := hs.deleted_iff o id
    rw [hGone, Nat.add_zero] at hIff
    exact hIff
  · have hHeld := hs.held_of_refs o
    rw [hGone, Nat.add_zero] at hHeld
    exact hHeld hPos

/-- **A handle is destroyed.** -/
theorem sound_destroy (h : s.Sound) (hMem : a ∈ s.handles) (hRoot : ¬ Doomed s a.id a.owner) :
    (destroyBy (decrefcount s.fuel) s a.id).Sound := by
  have hBegins : Begins s a.id (others s.handles a.id) :=
    ⟨h.ids.sublist ((others_sublist _ _).map _), fun x hx => (mem_others.1 hx).1,
      fun x hx hNe => mem_others.2 ⟨hx, hNe⟩, fun x hx hSame => absurd hSame (mem_others.1 hx).2⟩
  have hStart : Releasing s a.id (others s.handles a.id) (fun o => 0 + one a.ptr o) (fun _ => False)
      (s.remove a.id) :=
    (h.releasing (p := none) hMem fun _ hNone => by cases hNone).removeRoot
  obtain ⟨hs', hSub, -⟩ := releases_decrefcount hBegins s.fuel a.ptr (fun _ => 0) _ _ hStart
    (Nat.lt_succ_of_lt (length_others_lt h.ids hMem)) fun o hPtr => ⟨a, hMem, hPtr⟩
  have hTouch : destroyBy (decrefcount s.fuel) s a.id =
      (decrefcount s.fuel a.ptr (s.remove a.id)).1 := by
    rw [destroyBy, find_of_mem h.ids hMem]
    show Heap.touch _ a.owner = _
    rw [touch, if_neg]
    intro hAny
    obtain ⟨x, hOwner, hDeleted⟩ := (Option.any_eq_true _ _).1 hAny
    rcases hs'.freed x hDeleted with hBefore | hDoomed
    · exact Bool.false_ne_true ((h.owners a hMem x hOwner).symm.trans hBefore)
    · exact hRoot (hOwner.symm ▸ hDoomed)
  rw [hTouch]
  refine hs'.sound (hs'.ids hBegins) ?_ fun o => ?_
  · refine List.filter_eq_self.2 fun x hx => decide_eq_true ?_
    exact (mem_others.1 (hs'.sub.subset hx)).2
  · exact Nat.lt_of_le_of_lt (refs_sublist (hs'.sub.trans (others_sublist _ _)) o) (h.count o).2

omit [DecidableEq Obj] in
/-- `___ptr = p` of a handle that lives. -/
theorem write_spec (hIds : (s.handles.map Handle.id).Nodup) (hMem : a ∈ s.handles) (p : Option Obj) :
    ∃ l, s.write a.id p = { s with handles := l } ∧ (l.map Handle.id).Nodup ∧
      l.Perm ({ a with ptr := p } :: others s.handles a.id) := by
  have hThere : (s.find a.id).isSome := by
    rw [find_of_mem hIds hMem]
    rfl
  have hPerm := (perm_others hIds hMem).map fun h => if h.id = a.id then { h with ptr := p } else h
  have hOthers : (others s.handles a.id).map (fun h => if h.id = a.id then { h with ptr := p } else h) =
      others s.handles a.id := by
    refine (List.map_congr_left fun h hh => ?_).trans (List.map_id _)
    rw [if_neg (mem_others.1 hh).2]
    rfl
  rw [List.map_cons, if_pos rfl, hOthers] at hPerm
  refine ⟨_, by rw [write, if_pos hThere], ?_, hPerm⟩
  exact (hPerm.map Handle.id).nodup_iff.2 (((perm_others hIds hMem).map Handle.id).nodup_iff.1 hIds)

omit [DecidableEq Obj] in
theorem others_cons_perm {l l' : List (Handle Id Obj)} (hPerm : l.Perm (a :: others l' a.id)) :
    (others l a.id).Perm (others l' a.id) := by
  refine (hPerm.filter _).trans ?_
  rw [List.filter_cons_of_neg (by simp), List.filter_eq_self.2]
  exact fun h hh => decide_eq_true (mem_others.1 hh).2

/-- What `operator=` leaves: the handle points to `p`. -/
theorem Releasing.assigned {s₀ : Heap Id Obj} (h₀ : s₀.Sound) (ha₀ : a ∈ s₀.handles)
    (hFew : a.ptr = p ∨ s₀.Few p) {l : List (Handle Id Obj)}
    (hs : Releasing s₀ a.id s₀.handles (one p) (fun _ => False) s) (ha : a ∈ s.handles)
    (hIds : (l.map Handle.id).Nodup) (hPerm : l.Perm ({ a with ptr := p } :: others s.handles a.id)) :
    ({ s with handles := l } : Heap Id Obj).Sound := by
  have hRefs : ∀ o, refs l o = refs (others s.handles a.id) o + one p o := fun o =>
    (refs_perm hPerm o).trans (refs_cons _ _ _)
  have hSmall : ∀ o, refs l o < 2 ^ 31 := by
    intro o
    rw [hRefs]
    have hLess : refs (others s.handles a.id) o ≤ refs (others s₀.handles a.id) o :=
      refs_sublist (hs.sub.filter _) o
    have hSplit := refs_others h₀.ids ha₀ o
    obtain ⟨-, hLt⟩ := h₀.count o
    by_cases hPtr : p = some o
    · rw [one, if_pos hPtr]
      rcases hFew with hSame | hFew
      · rw [one, if_pos (hSame.trans hPtr)] at hSplit
        omega
      · have hMore := hFew o hPtr
        omega
    · rw [one, if_neg hPtr]
      omega
  refine ⟨hIds, fun o => ?_, fun o => ?_, fun o hPos => ?_, fun x hx => ?_, hs.notDangling,
    hs.notRunning⟩
  · have hCount := hs.count_eq o
    rw [← hRefs] at hCount
    show (s.refCount o).toInt = _
    rw [hCount, Int32.toInt_ofNat_of_lt (hSmall o)]
  · show s.deleted o = true ↔ s.held o = true ∧ refs l o = 0
    rw [hRefs]
    exact hs.deleted_iff o id
  · refine hs.held_of_refs o ?_
    rw [← hRefs]
    exact hPos
  · rcases List.mem_cons.1 (hPerm.subset hx) with rfl | hOld
    · exact hs.owners a ha
    · exact hs.owners x (mem_others.1 hOld).1

/-- **A handle is assigned.** -/
theorem sound_assign (h : s.Sound) (ha : a ∈ s.handles) (hb : b ∈ s.handles) (hNe : a.id ≠ b.id)
    (hRoot : ¬ Doomed s a.id a.owner) (hArg : ¬ Doomed s a.id b.owner)
    (hFew : a.ptr = b.ptr ∨ s.Few b.ptr) : (s.step (.assign a.id b.id)).Sound := by
  have hBegins : Begins s a.id s.handles :=
    ⟨h.ids, fun x hx => hx, fun x hx _ => hx, fun x hx hSame => eq_of_id h.ids ha hx hSame ▸ hRoot⟩
  have hHandles := (increfcount_spec s b.ptr).1
  have hLess : (s.increfcount b.ptr).handles.length < (s.increfcount b.ptr).fuel := Nat.lt_succ_self _
  obtain ⟨hs', -⟩ := releases_decrefcount hBegins (s.increfcount b.ptr).fuel a.ptr (one b.ptr) _ _
    (h.releasing ha (h.exists_ptr hb)) hLess fun o hPtr => ⟨a, ha, hPtr⟩
  rw [step, if_neg hNe, find_of_mem h.ids hb, find_of_mem h.ids ha]
  dsimp only
  generalize decrefcount (s.increfcount b.ptr).fuel a.ptr (s.increfcount b.ptr) = res at hs'
  obtain ⟨s', q⟩ := res
  have hIds := hs'.ids hBegins
  have ha' : a ∈ s'.handles := (hs'.gone a ha).resolve_right hRoot
  have hb' : b ∈ s'.handles := (hs'.gone b hb).resolve_right hArg
  obtain ⟨l, hWrite, hIds₁, hPerm⟩ := write_spec hIds ha' q
  have hbOthers : b ∈ others s'.handles a.id := mem_others.2 ⟨hb', hNe.symm⟩
  have hThere : ({ s' with handles := l } : Heap Id Obj).find b.id = some b :=
    find_of_mem (s := { s' with handles := l }) hIds₁
      (hPerm.symm.subset (List.mem_cons_of_mem _ hbOthers))
  dsimp only
  rw [hWrite, hThere]
  have hHere : ({ a with ptr := q } : Handle Id Obj) ∈ l := hPerm.symm.subset List.mem_cons_self
  obtain ⟨l', hWrite', hIds', hPerm'⟩ :=
    write_spec (s := { s' with handles := l }) hIds₁ hHere b.ptr
  have hSame : ({ s' with handles := l } : Heap Id Obj).write a.id b.ptr = { s' with handles := l' } :=
    hWrite'
  show (({ s' with handles := l } : Heap Id Obj).write a.id b.ptr).Sound
  rw [hSame]
  refine hs'.assigned h ha hFew ha' hIds' (hPerm'.trans ?_)
  exact (others_cons_perm (a := { a with ptr := q }) hPerm).cons _

/-! ## Runs -/

omit [DecidableEq Id] in
theorem sound_start : (start : Heap Id Obj).Sound where
  ids := List.nodup_nil
  count_eq _ := rfl
  deleted_iff _ := iff_of_false Bool.false_ne_true fun h => Bool.false_ne_true h.1
  held_of_refs _ hPos := absurd hPos (Nat.lt_irrefl 0)
  owners _ hMem := by cases hMem
  notDangling := rfl
  notRunning := rfl

/-- **One operation.** -/
theorem sound_step (h : s.Sound) {c : Act Id Obj} (hEn : s.Enabled c) (hCareful : s.Careful c) :
    (s.step c).Sound := by
  cases c with
  | construct id owner p => exact sound_add h hEn.1 hEn.2.1 hEn.2.2 hCareful
  | copy id owner bcg =>
      obtain ⟨b, hb⟩ := Option.isSome_iff_exists.1 hEn.2.2
      obtain ⟨hMem, -⟩ := find_eq_some hb
      rw [step, hb]
      exact sound_add h hEn.1 hEn.2.1 (h.exists_ptr hMem) (hCareful b hb)
  | assign id bcg =>
      by_cases hSelf : id = bcg
      · rw [step, if_pos hSelf]
        exact h
      · obtain ⟨a, ha⟩ := Option.isSome_iff_exists.1 hEn.1
        obtain ⟨b, hb⟩ := Option.isSome_iff_exists.1 hEn.2
        obtain ⟨hRoot, hArg, hFew⟩ := hCareful hSelf a ha b hb
        obtain ⟨haMem, rfl⟩ := find_eq_some ha
        obtain ⟨hbMem, rfl⟩ := find_eq_some hb
        exact sound_assign h haMem hbMem hSelf hRoot hArg hFew
  | destroy id =>
      obtain ⟨a, ha⟩ := Option.isSome_iff_exists.1 hEn
      have hRoot := hCareful a ha
      obtain ⟨hMem, rfl⟩ := find_eq_some ha
      exact sound_destroy h hMem hRoot

omit [DecidableEq Id] [DecidableEq Obj] in
/-- The stack is not released. -/
theorem not_doomed_none : ¬ Doomed s id none := by
  rintro ⟨⟩

/-- **Reference counts.**  In every run in which no handle is read that goes with
what it releases, the counts are the numbers of the handles, the objects that are
deleted are those to which no handle points any more, and no handle is used that
does not live. -/
theorem counts_sound (acts : List (Act Id Obj))
    (hCareful : ((machine : Machine (Heap Id Obj) (Act Id Obj)).guarded Careful).Path start acts) :
    (machine : Machine (Heap Id Obj) (Act Id Obj)).Along Sound start acts :=
  Machine.along_of_path_guarded (fun _ _ h hEn hStep => sound_step h hEn hStep) acts _ sound_start
    hCareful

end Operations

/-- `q = p->next; p = q;` and the end of `q`. -/
def byWay : List (Act ℕ ℕ) :=
  [.construct 0 none (some 0), .construct 1 (some 0) (some 1), .copy 2 none 1, .assign 0 2, .destroy 2]

/-- The first object and its handle are gone, and `p` points to the second. -/
theorem counts_sound_of_byWay :
    (machine : Machine (Heap ℕ ℕ) (Act ℕ ℕ)).Along Sound start byWay := by
  have hFew : ∀ {s : Heap ℕ ℕ} {p : Option ℕ} {o : ℕ}, refs s.handles o + 1 < 2 ^ 31 → p = some o →
      s.Few p := by
    rintro s p o hLess rfl x hx
    exact Option.some.inj hx ▸ hLess
  refine counts_sound byWay ⟨⟨?_, ?_⟩, ⟨?_, ?_⟩, ⟨?_, ?_⟩, ⟨?_, ?_⟩, ⟨?_, ?_⟩, trivial⟩
  · exact ⟨rfl, fun x hx => by (cases hx), fun _ _ => rfl⟩
  · exact hFew (by decide) rfl
  · exact ⟨rfl, fun _ _ => rfl, fun _ _ => rfl⟩
  · exact hFew (by decide) rfl
  · exact ⟨rfl, fun x hx => by (cases hx), rfl⟩
  · rintro b hb
    exact hFew (o := 1) (by decide) (Option.some.inj hb ▸ rfl)
  · exact ⟨rfl, rfl⟩
  · intro _ a ha b hb
    obtain rfl := Option.some.inj ha
    obtain rfl := Option.some.inj hb
    exact ⟨not_doomed_none, not_doomed_none, Or.inr (hFew (o := 1) (by decide) rfl)⟩
  · exact rfl
  · intro a ha
    obtain rfl := Option.some.inj ha
    exact not_doomed_none

/-- `p = p->next;`. -/
def pNext : List (Act ℕ ℕ) :=
  [.construct 0 none (some 0), .construct 1 (some 0) (some 1), .assign 0 1]

/-- The handle that is assigned from is gone when it is read again. -/
theorem next_is_gone :
    (machine : Machine (Heap ℕ ℕ) (Act ℕ ℕ)).Path start pNext ∧
      ¬ (machine : Machine (Heap ℕ ℕ) (Act ℕ ℕ)).Along Sound start pNext ∧
      ((machine : Machine (Heap ℕ ℕ) (Act ℕ ℕ)).exec start pNext).dangling = true ∧
      ((machine : Machine (Heap ℕ ℕ) (Act ℕ ℕ)).exec start pNext).deleted 0 = true := by
  have hDangling : ((machine : Machine (Heap ℕ ℕ) (Act ℕ ℕ)).exec start pNext).dangling = true := by
    decide +kernel
  refine ⟨⟨⟨rfl, fun x hx => by (cases hx), fun _ _ => rfl⟩, ⟨rfl, fun _ _ => rfl, fun _ _ => rfl⟩,
    ⟨rfl, rfl⟩, trivial⟩, fun h => ?_, hDangling, by decide +kernel⟩
  have hEnd : ((machine : Machine (Heap ℕ ℕ) (Act ℕ ℕ)).exec start pNext).Sound := h.2.2.2
  exact Bool.false_ne_true (hEnd.notDangling.symm.trans hDangling)

end Heap

end Megatron.Corelib
