import Mathlib.Data.List.Lex
import Megatron.Corelib.IoBuffer
import Megatron.Lib.Machine
import Megatron.Lib.OrdSet

/-!
# The registry of thread names

`ThreadNameController` keeps the names of the threads in two maps, one from the
threads to their names and one back.  A thread is added to both by `insert`,
which leaves an entry that is there, and removed only where both have one.

## Main results

* `sound_iff` — which calls keep the two maps inverse to each other.
* `registry_sound_iff` — a run is sound, and nothing is thrown, exactly if no
  name is given to two threads at a time.
-/

namespace Megatron.Instance

open Megatron.Corelib (Bytes)
open Megatron.Lib

variable {PthreadT : Type} [LinearOrder PthreadT]

/-- `ThreadNameControllerImpl`: the maps of names. -/
structure ThreadNameControllerImpl (PthreadT : Type) [LinearOrder PthreadT] where
  containerPt2str : OrdMap PthreadT Bytes := ∅
  containerStr2pt : OrdMap Bytes PthreadT := ∅

/-- The exceptions, with the line that throws:
`"ThreadNameController: access to undefined pthread %X (%s %d)"` and
`"ThreadNameController: access to undefined pthread name %s (%s %d)"`. -/
inductive Undefined (PthreadT : Type) where
  | pthread (key : PthreadT) (line : Nat)
  | name (val : Bytes) (line : Nat)

namespace ThreadNameController

/-- `add_LK`. -/
def addLK (impl : ThreadNameControllerImpl PthreadT) (key : PthreadT) (val : Bytes) :
    ThreadNameControllerImpl PthreadT where
  containerPt2str := impl.containerPt2str.insertNew key val
  containerStr2pt := impl.containerStr2pt.insertNew val key

/-- `remove_LK` of a thread. -/
def removeLK (impl : ThreadNameControllerImpl PthreadT) (key : PthreadT) :
    Except (Undefined PthreadT) (ThreadNameControllerImpl PthreadT) :=
  match impl.containerPt2str.get? key with
  | none => .error (.pthread key 26)
  | some val =>
      match impl.containerStr2pt.get? val with
      | none => .error (.name val 28)
      | some _ =>
          .ok
            { containerPt2str := impl.containerPt2str.erase key
              containerStr2pt := impl.containerStr2pt.erase val }

/-- `remove_LK` of a name. -/
def removeNameLK (impl : ThreadNameControllerImpl PthreadT) (val : Bytes) :
    Except (Undefined PthreadT) (ThreadNameControllerImpl PthreadT) :=
  match impl.containerStr2pt.get? val with
  | none => .error (.name val 36)
  | some key =>
      match impl.containerPt2str.get? key with
      | none => .error (.pthread key 38)
      | some _ =>
          .ok
            { containerPt2str := impl.containerPt2str.erase key
              containerStr2pt := impl.containerStr2pt.erase val }

/-! ## Sequences of calls -/

/-- The registry, the threads that were added and not yet removed, each with
the name it was given, and whether a call has thrown. -/
structure State (PthreadT : Type) [LinearOrder PthreadT] where
  impl : ThreadNameControllerImpl PthreadT
  registered : List (PthreadT × Bytes)
  thrown : Bool

inductive Call (PthreadT : Type) where
  | add (key : PthreadT) (val : Bytes)
  | remove (key : PthreadT)
  | removeName (val : Bytes)

/-- What a call leaves; an exception leaves the maps as they are. -/
def State.returns (s : State PthreadT) (registered : List (PthreadT × Bytes)) :
    Except (Undefined PthreadT) (ThreadNameControllerImpl PthreadT) → State PthreadT
  | .ok impl => { s with impl := impl, registered := registered }
  | .error _ => { s with registered := registered, thrown := true }

def State.step (s : State PthreadT) : Call PthreadT → State PthreadT
  | .add key val => s.returns ((key, val) :: s.registered) (.ok (addLK s.impl key val))
  | .remove key =>
      s.returns (s.registered.filter fun e => decide (e.1 ≠ key)) (removeLK s.impl key)
  | .removeName val =>
      s.returns (s.registered.filter fun e => decide (e.2 ≠ val)) (removeNameLK s.impl val)

/-- Threads are added that are not registered, and removed that are. -/
def State.Enabled (s : State PthreadT) : Call PthreadT → Prop
  | .add key _ => ∀ e ∈ s.registered, e.1 ≠ key
  | .remove key => ∃ e ∈ s.registered, e.1 = key
  | .removeName val => ∃ e ∈ s.registered, e.2 = val

/-- The calls on a registry that is constructed. -/
def machine (PthreadT : Type) [LinearOrder PthreadT] : Machine (State PthreadT) (Call PthreadT) where
  init s := s = ⟨{}, [], false⟩
  enabled := State.Enabled
  apply := State.step

instance instDecidableEnabled (s : State PthreadT) :
    ∀ c, Decidable ((machine PthreadT).enabled s c)
  | .add key _ => inferInstanceAs (Decidable (∀ e ∈ s.registered, e.1 ≠ key))
  | .remove key => inferInstanceAs (Decidable (∃ e ∈ s.registered, e.1 = key))
  | .removeName val => inferInstanceAs (Decidable (∃ e ∈ s.registered, e.2 = val))

/-- The thread is registered under the name. -/
def State.Has (s : State PthreadT) (key : PthreadT) (val : Bytes) : Prop := (key, val) ∈ s.registered

/-- Nothing was thrown, and the two maps hold the registered threads and their
names, the one in each direction, and nothing else. -/
structure State.Sound (s : State PthreadT) : Prop where
  notThrown : s.thrown = false
  pt2str : s.impl.containerPt2str.Lists s.Has
  str2pt : s.impl.containerStr2pt.Lists fun val key => s.Has key val

/-- A thread is added under a name that no registered thread has. -/
def FreshName (s : State PthreadT) : Call PthreadT → Prop
  | .add _ val => ∀ e ∈ s.registered, e.2 ≠ val
  | _ => True

instance instDecidableFreshName (s : State PthreadT) : ∀ c, Decidable (FreshName s c)
  | .add _ val => inferInstanceAs (Decidable (∀ e ∈ s.registered, e.2 ≠ val))
  | .remove _ => .isTrue trivial
  | .removeName _ => .isTrue trivial

variable {s : State PthreadT} {key : PthreadT} {val : Bytes}

/-! ## One call -/

/-- The two maps are inverse to each other. -/
theorem State.Sound.inverse (h : s.Sound) :
    s.impl.containerPt2str.get? key = some val ↔ s.impl.containerStr2pt.get? val = some key :=
  (h.pt2str key val).trans (h.str2pt val key).symm

/-- A registered thread has one name. -/
theorem State.Sound.name_unique (h : s.Sound) {val' : Bytes} (hVal : s.Has key val)
    (hVal' : s.Has key val') : val' = val :=
  Option.some.inj (((h.pt2str key val').2 hVal').symm.trans ((h.pt2str key val).2 hVal))

/-- A name is that of one registered thread. -/
theorem State.Sound.thread_unique (h : s.Sound) {key' : PthreadT} (hKey : s.Has key val)
    (hKey' : s.Has key' val) : key' = key :=
  Option.some.inj (((h.str2pt val key').2 hKey').symm.trans ((h.str2pt val key).2 hKey))

/-- A thread and its name are erased. -/
theorem sound_erase (h : s.Sound) (hHas : s.Has key val) {registered : List (PthreadT × Bytes)}
    (hRegistered : ∀ key' val', (key', val') ∈ registered ↔ key' ≠ key ∧ s.Has key' val') :
    State.Sound
      { impl :=
          { containerPt2str := s.impl.containerPt2str.erase key
            containerStr2pt := s.impl.containerStr2pt.erase val }
        registered := registered
        thrown := s.thrown } := by
  refine ⟨h.notThrown, h.pt2str.erase hRegistered, h.str2pt.erase fun val' key' => ?_⟩
  refine (hRegistered key' val').trans (and_congr_left fun hHas' => not_congr ⟨?_, ?_⟩)
  · rintro rfl
    exact h.name_unique hHas hHas'
  · rintro rfl
    exact h.thread_unique hHas hHas'

/-- **Removing** a registered thread. -/
theorem sound_remove (h : s.Sound) (hEn : s.Enabled (.remove key)) : (s.step (.remove key)).Sound := by
  obtain ⟨⟨key', val⟩, hHas, hKey⟩ := hEn
  obtain rfl : key' = key := hKey
  rw [State.step, removeLK, (h.pt2str _ _).2 hHas]
  simp only [(h.str2pt _ _).2 hHas]
  refine sound_erase h hHas fun key' val' => ?_
  rw [List.mem_filter, decide_eq_true_eq, and_comm]
  exact Iff.rfl

/-- **Removing** a registered thread by its name. -/
theorem sound_removeName (h : s.Sound) (hEn : s.Enabled (.removeName val)) :
    (s.step (.removeName val)).Sound := by
  obtain ⟨⟨key, val'⟩, hHas, hVal⟩ := hEn
  obtain rfl : val' = val := hVal
  rw [State.step, removeNameLK, (h.str2pt _ _).2 hHas]
  simp only [(h.pt2str _ _).2 hHas]
  refine sound_erase h hHas fun key' val' => ?_
  rw [List.mem_filter, decide_eq_true_eq, and_comm]
  refine and_congr_left fun hHas' => not_congr ⟨?_, ?_⟩
  · rintro rfl
    exact h.thread_unique hHas hHas'
  · rintro rfl
    exact h.name_unique hHas hHas'

/-- **Adding** a thread keeps the maps inverse exactly if its name is new: the
old entry of a name that is there stays. -/
theorem sound_add_iff (h : s.Sound) (hEn : s.Enabled (.add key val)) :
    (s.step (.add key val)).Sound ↔ FreshName s (.add key val) := by
  constructor
  · intro h' e hMem hSame
    obtain ⟨key', val'⟩ := e
    obtain rfl : val' = val := hSame
    have hKept := OrdMap.get?_insertNew_of_some ((h.str2pt val' key').2 hMem) key
    have hNew := (h'.str2pt val' key).2 List.mem_cons_self
    exact hEn _ hMem (Option.some.inj (hKept.symm.trans hNew))
  · intro hFresh
    refine ⟨h.notThrown, h.pt2str.insertNew (b := val) (fun val' hHas => hEn _ hHas rfl) ?_,
      h.str2pt.insertNew (b := key) (fun key' hHas => hFresh _ hHas rfl) ?_⟩
    · exact fun key' val' => List.mem_cons.trans (or_congr_left Prod.mk_inj)
    · exact fun val' key' => List.mem_cons.trans (or_congr_left (Prod.mk_inj.trans and_comm))

/-- **What keeps the registry sound.** -/
theorem sound_iff (h : s.Sound) {c : Call PthreadT} (hEn : s.Enabled c) :
    (s.step c).Sound ↔ FreshName s c := by
  cases c with
  | add key val => exact sound_add_iff h hEn
  | remove key => exact iff_of_true (sound_remove h hEn) trivial
  | removeName val => exact iff_of_true (sound_removeName h hEn) trivial

/-! ## Runs -/

theorem sound_construct : (⟨{}, [], false⟩ : State PthreadT).Sound where
  notThrown := rfl
  pt2str _ _ := (OrdMap.lists_empty _ _).trans (iff_of_false id List.not_mem_nil)
  str2pt _ _ := (OrdMap.lists_empty _ _).trans (iff_of_false id List.not_mem_nil)

/-- **A run is sound**, after each call and with nothing thrown, if and only if
every thread is added under a name that no registered thread has. -/
theorem registry_sound_iff (calls : List (Call PthreadT))
    (hPath : (machine PthreadT).Path ⟨{}, [], false⟩ calls) :
    (machine PthreadT).Along State.Sound ⟨{}, [], false⟩ calls ↔
      ((machine PthreadT).guarded FreshName).Path ⟨{}, [], false⟩ calls :=
  Machine.along_iff_path_guarded (J := fun _ => True) (fun _ _ _ _ => trivial)
    (fun _ _ _ h hEn => sound_iff h hEn) calls _ trivial sound_construct hPath

/-- Threads with names of their own, one of which is removed by its name. -/
theorem registry_sound_of_two_names :
    (machine ℕ).Along State.Sound ⟨{}, [], false⟩
      [.add 1 [97], .add 2 [98], .remove 1, .add 3 [97], .removeName [97]] :=
  (registry_sound_iff _ (by decide +kernel)).2 (by decide +kernel)

/-- Two threads get one name, and both are removed. -/
def sameName : List (Call ℕ) := [.add 1 [97], .add 2 [97], .remove 1, .remove 2]

/-- After the first of them is removed the name is not there any more, and
removing the second throws. -/
theorem registry_throws :
    (machine ℕ).Path ⟨{}, [], false⟩ sameName ∧
      ¬ (machine ℕ).Along State.Sound ⟨{}, [], false⟩ sameName ∧
      ((machine ℕ).exec ⟨{}, [], false⟩ sameName).thrown = true := by
  have hThrown : ((machine ℕ).exec ⟨{}, [], false⟩ sameName).thrown = true := by decide +kernel
  refine ⟨by decide +kernel, fun h => ?_, hThrown⟩
  have hEnd : ((machine ℕ).exec ⟨{}, [], false⟩ sameName).Sound := h.2.2.2.2
  rw [hEnd.notThrown] at hThrown
  cases hThrown

end ThreadNameController

end Megatron.Instance
