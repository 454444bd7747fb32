import Megatron.Lib.Machine
import Megatron.WebHandler.Tree

/-!
# Registering pages and directories

`WebHandler::Service` on `RegisterHandler` and `RegisterDirectory`: the node for
the last part of the url becomes a child of the node that the other parts lead
to, unless there is a child of that name.

## Main results

* `unchanged_step` — what leaves the tree as it is.
* `sound_iff` — which registrations keep every node under its path.
* `registrations_sound_iff` — the runs in which every node is found, and what is
  refused changes nothing.
-/

namespace Megatron.WebHandler

open Megatron.Corelib (Bytes RouteT)
open Megatron.Http
open Megatron.Lib

/-- Ways in which a registration does not come to its end. -/
inductive Stop where
  /-- A loop that does not end. -/
  | endless
  /-- `CommonError("base dir for url %s not defined")`. -/
  | notDefined (url : Bytes)
  /-- `v[v.size()-1]` of an empty vector. -/
  | outside

/-- What the two events have in common. -/
def register (t : Tree) (url : Bytes) (new : ℕ → Bytes → Node) : Except Stop Tree :=
  match splitStringDQ (text "/") url, t.getByPathParentDir 0 url with
  | some _, some none => .error (.notDefined url)
  | some v, some (some n) =>
      match v.getLast? with
      | none => .error .outside
      | some part => .ok (t.addChild n (new n part))
  | _, _ => .error .endless

/-- `webHandlerEvent::RegisterHandler` and `webHandlerEvent::RegisterDirectory`. -/
inductive Event where
  | registerHandler (url displayName : Bytes) (route : RouteT)
  | registerDirectory (url displayName : Bytes)

def Event.url : Event → Bytes
  | .registerHandler url _ _ => url
  | .registerDirectory url _ => url

def onRegisterHandler (t : Tree) (url displayName : Bytes) (route : RouteT) : Except Stop Tree :=
  register t url fun n part => .handler (some n) part displayName route

def onRegisterDirectory (t : Tree) (url displayName : Bytes) : Except Stop Tree :=
  register t url fun n part => .directory (some n) part displayName

def handleEvent (t : Tree) : Event → Except Stop Tree
  | .registerHandler url displayName route => onRegisterHandler t url displayName route
  | .registerDirectory url displayName => onRegisterDirectory t url displayName

/-! ## Runs -/

/-- The service, and whether its thread is in a loop that does not end. -/
structure State where
  tree : Tree
  hung : Bool

/-- An exception is caught where the events are handled. -/
def State.step (s : State) (e : Event) : State :=
  match handleEvent s.tree e with
  | .ok t => { s with tree := t }
  | .error .endless => { s with hung := true }
  | .error _ => s

/-- Registrations of urls with a part that is not empty. -/
def machine : Machine State Event where
  init s := s = ⟨.construct, false⟩
  enabled s e := s.hung = false ∧ splitString (text "/") e.url ≠ []
  apply := State.step

/-- Every node of the tree is found under its path, and no two have one path. -/
structure State.Sound (s : State) : Prop where
  notHung : s.hung = false
  addressed : ∀ n, s.tree.Reachable n → s.tree.Addressed n
  distinct : ∀ n m, s.tree.Reachable n → s.tree.Reachable m → s.tree.path n = s.tree.path m → n = m

/-- A url that is there, or whose parent is not, changes nothing. -/
def Unchanged (s : State) (e : Event) : Prop :=
  (∃ n, s.tree.getByPath 0 e.url = some (some n)) ∨
    s.tree.getByPathParentDir 0 e.url = some none → (s.step e).tree = s.tree

/-- The url, and where its parent is there also its parts with one slash in front
of each, has fewer than 2^32 bytes. -/
def Fits (s : State) (e : Event) : Prop :=
  e.url.length < 4294967296 ∧
    ((s.tree.getByPathParentDir 0 e.url).join.isSome →
      (pathText (splitString (text "/") e.url)).length < 4294967296)

variable {s : State} {e : Event} {t : Tree}

/-! ## One registration -/

/-- The new node that an event asks for. -/
def Event.node (e : Event) (n : ℕ) (part : Bytes) : Node :=
  match e with
  | .registerHandler _ displayName route => .handler (some n) part displayName route
  | .registerDirectory _ displayName => .directory (some n) part displayName

theorem handleEvent_eq (t : Tree) (e : Event) : handleEvent t e = register t e.url e.node := by
  cases e <;> rfl

theorem node_links (e : Event) (n : ℕ) (part : Bytes) :
    (e.node n part).urlPart = part ∧ (e.node n part).parent = some n ∧
      (e.node n part).children = ∅ := by
  cases e <;> exact ⟨rfl, rfl, rfl⟩

/-- A url that is too long. -/
theorem step_of_long (h : ¬ e.url.length < 4294967296) : s.step e = { s with hung := true } := by
  rw [State.step, handleEvent_eq, register, splitStringDQ, if_neg h]

/-- A url whose parent is not there. -/
theorem step_of_missing (h : s.tree.getByPathParentDir 0 e.url = some none) : s.step e = s := by
  have hShort : e.url.length < 4294967296 := by
    by_contra hLong
    rw [Tree.getByPathParentDir, splitStringDQ, if_neg hLong] at h
    cases h
  rw [State.step, handleEvent_eq, register, h, splitStringDQ, if_pos hShort]

/-- A url whose parent is there. -/
theorem step_of_parent {ks : List Bytes} {part : Bytes} {n : ℕ}
    (hShort : e.url.length < 4294967296) (hParts : splitString (text "/") e.url = ks ++ [part])
    (hParent : s.tree.getByPathParentDir 0 e.url = some (some n)) :
    s.step e = { s with tree := s.tree.addChild n (e.node n part) } := by
  rw [State.step, handleEvent_eq, register, hParent, splitStringDQ, if_pos hShort, hParts]
  simp only [List.getLast?_concat]

/-- The parts of a url lead to its parent, and the last from there. -/
theorem getByPathParentDir_eq {ks : List Bytes} {part : Bytes} (hShort : e.url.length < 4294967296)
    (hParts : splitString (text "/") e.url = ks ++ [part]) :
    t.getByPathParentDir 0 e.url = some (t.links.descend 0 ks) := by
  rw [Tree.getByPathParentDir, splitStringDQ, if_pos hShort, hParts, Option.map_some,
    List.dropLast_concat, Tree.getByPathLoop_eq]

/-- **What changes nothing.** -/
theorem unchanged_step (hEn : machine.enabled s e) : Unchanged s e := by
  rintro (⟨n, hFound⟩ | hMissing)
  · obtain ⟨hShort, hAt⟩ := Tree.getByPath_eq_some_iff.1 hFound
    obtain ⟨ks, part, hParts⟩ : ∃ ks part, splitString (text "/") e.url = ks ++ [part] :=
      ⟨_, _, (List.dropLast_append_getLast hEn.2).symm⟩
    rw [hParts, ← LinkedTree.descend_eq_some_iff, LinkedTree.descend_concat,
      Option.bind_eq_some_iff] at hAt
    obtain ⟨p, hUp, hChild⟩ := hAt
    have hParent := (getByPathParentDir_eq (t := s.tree) hShort hParts).trans (congrArg some hUp)
    rw [step_of_parent hShort hParts hParent]
    refine Tree.addChild_of_isSome ?_
    rw [(node_links e p part).1]
    exact Option.isSome_of_eq_some hChild
  · rw [step_of_missing hMissing]

/-! ## What is kept -/

/-- In a well-formed tree every node is found if no path is too long. -/
theorem sound_iff_short (h : s.tree.WellFormed) :
    s.Sound ↔ s.hung = false ∧
      ∀ n ks, s.tree.links.At n ks → (pathText ks).length < 4294967296 := by
  constructor
  · exact fun hSound => ⟨hSound.notHung, fun n ks hAt =>
      (Tree.addressed_iff h hAt).1 (hSound.addressed n ⟨ks, hAt⟩)⟩
  · rintro ⟨hNot, hShort⟩
    have hAll : ∀ n, s.tree.Reachable n → s.tree.Addressed n := by
      rintro n ⟨ks, hAt⟩
      exact (Tree.addressed_iff h hAt).2 (hShort n ks hAt)
    exact ⟨hNot, hAll, fun n m hn hm => (hAll n hn).unique (hAll m hm)⟩

/-- The parent is where the parts but the last lead. -/
theorem at_of_parent {ks : List Bytes} {part : Bytes} {n : ℕ} (hShort : e.url.length < 4294967296)
    (hParts : splitString (text "/") e.url = ks ++ [part])
    (hParent : t.getByPathParentDir 0 e.url = some (some n)) : t.links.At n ks := by
  rw [getByPathParentDir_eq hShort hParts] at hParent
  exact LinkedTree.descend_eq_some_iff.1 (Option.some.inj hParent)

/-- `addChild` of the node for the last part of a url. -/
theorem wellFormed_addChild (h : t.WellFormed) {ks : List Bytes} {part : Bytes} {n : ℕ}
    (hParts : splitString (text "/") e.url = ks ++ [part]) (hUp : t.links.At n ks) :
    (t.addChild n (e.node n part)).WellFormed := by
  obtain ⟨hPart, hLink, hLeaf⟩ := node_links e n part
  have hNew : Tree.Part (e.node n part).urlPart :=
    hPart.symm ▸ part_of_mem_splitString (u := e.url) (by simp [hParts])
  cases hChild : t.getChild n (e.node n part).urlPart with
  | some c => rwa [Tree.addChild_of_isSome (by rw [hChild]; rfl)]
  | none => exact h.addChild hChild (h.lt_length hUp) hLink hLeaf hNew

/-- **Every registration** keeps the tree well formed. -/
theorem wellFormed_step (h : s.tree.WellFormed) (hEn : machine.enabled s e) :
    (s.step e).tree.WellFormed := by
  by_cases hShort : e.url.length < 4294967296
  · obtain ⟨ks, part, hParts⟩ : ∃ ks part, splitString (text "/") e.url = ks ++ [part] :=
      ⟨_, _, (List.dropLast_append_getLast hEn.2).symm⟩
    cases hDir : s.tree.links.descend 0 ks with
    | none =>
        rw [step_of_missing (by rw [getByPathParentDir_eq hShort hParts, hDir])]
        exact h
    | some n =>
        rw [step_of_parent hShort hParts (by rw [getByPathParentDir_eq hShort hParts, hDir])]
        exact wellFormed_addChild h hParts (LinkedTree.descend_eq_some_iff.1 hDir)
  · rw [step_of_long hShort]
    exact h

/-- **A registration** that leads to a parent makes one path more at most. -/
theorem sound_of_parent (h : s.tree.WellFormed) (hSound : s.Sound) {ks : List Bytes} {part : Bytes}
    {n : ℕ} (hShort : e.url.length < 4294967296)
    (hParts : splitString (text "/") e.url = ks ++ [part])
    (hParent : s.tree.getByPathParentDir 0 e.url = some (some n)) :
    (s.step e).Sound ↔ (pathText (splitString (text "/") e.url)).length < 4294967296 := by
  have hUp := at_of_parent hShort hParts hParent
  have hOld := ((sound_iff_short h).1 hSound).2
  obtain ⟨hPart, hLink, hLeaf⟩ := node_links e n part
  rw [step_of_parent hShort hParts hParent, hParts]
  cases hChild : s.tree.getChild n part with
  | some c =>
      rw [Tree.addChild_of_isSome (by rw [hPart, hChild]; rfl)]
      exact iff_of_true hSound (hOld c _ (LinkedTree.At.child hUp hChild))
  | none =>
      have hAt := fun m v => Tree.at_addChild_iff h (x := e.node n part) (hPart.symm ▸ hChild)
        (h.lt_length hUp) hLink hLeaf (m := m) (v := v)
      rw [hPart] at hAt
      rw [sound_iff_short (wellFormed_addChild h hParts hUp), and_iff_right hSound.notHung]
      constructor
      · exact fun hAll => hAll _ _ ((hAt _ _).2 (Or.inr ⟨rfl, ks, hUp, rfl⟩))
      · intro hLast m v hm
        rcases (hAt m v).1 hm with hm | ⟨-, ks', hUp', rfl⟩
        · exact hOld m v hm
        · rwa [h.proper.at_unique hUp' hUp]

/-- **One registration** keeps every node under its path exactly if it fits. -/
theorem sound_iff (h : s.tree.WellFormed) (hSound : s.Sound) (hEn : machine.enabled s e) :
    (s.step e).Sound ↔ Fits s e := by
  by_cases hShort : e.url.length < 4294967296
  · obtain ⟨ks, part, hParts⟩ : ∃ ks part, splitString (text "/") e.url = ks ++ [part] :=
      ⟨_, _, (List.dropLast_append_getLast hEn.2).symm⟩
    have hEq := getByPathParentDir_eq (t := s.tree) hShort hParts
    rw [Fits, and_iff_right hShort]
    cases hDir : s.tree.links.descend 0 ks with
    | none =>
        rw [hDir] at hEq
        rw [step_of_missing hEq, hEq]
        exact iff_of_true hSound fun hSome => absurd hSome Bool.false_ne_true
    | some n =>
        rw [hDir] at hEq
        rw [sound_of_parent h hSound hShort hParts hEq, hEq]
        have hThere : (some (some n)).join.isSome = true := rfl
        exact ⟨fun hText _ => hText, fun hText => hText hThere⟩
  · rw [step_of_long hShort]
    exact iff_of_false (fun h' => Bool.noConfusion h'.notHung) fun h' => hShort h'.1

/-! ## From the root on -/

/-- The root has no children yet. -/
theorem getChild_construct (n : ℕ) (k : Bytes) : Tree.construct.getChild n k = none := by
  cases n <;> rfl

theorem at_construct {n : ℕ} {ks : List Bytes} (h : Tree.construct.links.At n ks) : ks = [] := by
  cases h with
  | root => rfl
  | child _ hChild => exact absurd ((getChild_construct _ _).symm.trans hChild) (by simp)

theorem wellFormed_construct : Tree.construct.WellFormed := by
  have hLeaf : ∀ n k c, Tree.construct.getChild n k ≠ some c := by
    intro n k c
    rw [getChild_construct]
    exact (Option.some_ne_none c).symm
  exact
    { proper :=
        { root := rfl
          parent := fun p k c h => absurd h (hLeaf p k c)
          key := fun p k c h => absurd h (hLeaf p k c)
          lt := fun p k c h => absurd h (hLeaf p k c) }
      rootPart := rfl
      nonempty := Nat.one_pos
      inRange := fun n k c h => absurd h (hLeaf n k c)
      parts := fun n ks hAt k hk => absurd (at_construct hAt ▸ hk) List.not_mem_nil }

theorem sound_construct : State.Sound ⟨.construct, false⟩ := by
  refine (sound_iff_short wellFormed_construct).2 ⟨rfl, fun n ks hAt => ?_⟩
  rw [at_construct hAt]
  decide

/-- **In every run** each node is found under its path after each registration,
and what is there or has no parent changes nothing, if and only if each
registration fits. -/
theorem registrations_sound_iff (es : List Event) (hPath : machine.Path ⟨.construct, false⟩ es) :
    machine.Along State.Sound ⟨.construct, false⟩ es ∧
        (machine.guarded Unchanged).Path ⟨.construct, false⟩ es ↔
      (machine.guarded Fits).Path ⟨.construct, false⟩ es := by
  refine Machine.along_and_path_guarded_iff (J := fun s => s.tree.WellFormed)
    (fun s e => wellFormed_step) (fun s e h hSound hEn => ?_) es _ wellFormed_construct
    sound_construct hPath
  rw [and_iff_left (unchanged_step hEn)]
  exact sound_iff h hSound hEn

instance instDecidableEnabled (s : State) (e : Event) : Decidable (machine.enabled s e) :=
  inferInstanceAs (Decidable (_ ∧ _))

instance instDecidableFits (s : State) (e : Event) : Decidable (Fits s e) :=
  inferInstanceAs (Decidable (_ ∧ (_ → _)))

/-- A page without a directory, the directory, the page, and the page once more. -/
theorem registrations_sound_of_page :
    machine.Along State.Sound ⟨.construct, false⟩
        [.registerHandler (text "/a/b") [] [], .registerDirectory (text "a") [],
          .registerHandler (text "/a//b") [] [], .registerDirectory (text "/a/b/") []] ∧
      (machine.guarded Unchanged).Path ⟨.construct, false⟩
        [.registerHandler (text "/a/b") [] [], .registerDirectory (text "a") [],
          .registerHandler (text "/a//b") [] [], .registerDirectory (text "/a/b/") []] :=
  (registrations_sound_iff _ (by decide +kernel)).2 (by decide +kernel)

/-- A url of one part that has 2^32 - 1 bytes is shorter than its path. -/
theorem not_sound_of_part {u : Bytes} (hPart : Tree.Part u) (hLength : u.length = 4294967295) :
    machine.Path ⟨.construct, false⟩ [.registerHandler u [] []] ∧
      ¬ machine.Along State.Sound ⟨.construct, false⟩ [.registerHandler u [] []] := by
  have hParts : splitString (text "/") u = [] ++ [u] := splitString_self hPart.1 hPart.2
  have hEn : machine.enabled ⟨.construct, false⟩ (.registerHandler u [] []) := by
    refine ⟨rfl, ?_⟩
    rw [Event.url, hParts]
    exact List.cons_ne_nil _ _
  refine ⟨⟨hEn, trivial⟩, fun hAlong => ?_⟩
  obtain ⟨hShort, hPath⟩ := (sound_iff wellFormed_construct sound_construct hEn).1 hAlong.2
  have hParent := getByPathParentDir_eq (t := .construct) hShort hParts
  have hText := hPath (by rw [hParent]; rfl)
  rw [Event.url, hParts, List.nil_append, pathText_cons, pathText_nil, List.append_nil,
    List.length_cons, hLength] at hText
  exact absurd hText (by decide)

/-- A page is registered under 2^32 - 1 letters, and not found under its path. -/
theorem registration_not_found :
    machine.Path ⟨.construct, false⟩ [.registerHandler (List.replicate 4294967295 97) [] []] ∧
      ¬ machine.Along State.Sound ⟨.construct, false⟩
        [.registerHandler (List.replicate 4294967295 97) [] []] := by
  refine not_sound_of_part ⟨?_, fun c hc => ?_⟩ List.length_replicate
  · rw [Ne, List.replicate_eq_nil_iff]
    decide
  · rw [List.eq_of_mem_replicate hc, text_slash]
    decide

end Megatron.WebHandler
