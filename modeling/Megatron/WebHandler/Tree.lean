import Megatron.Config.Loading
import Megatron.Corelib.Route
import Megatron.Lib.LinkedTree
import Megatron.Lib.OrdSet

/-!
# The tree of the web handler

`WebHandler::Node`: a page or a directory, with a link to its parent and a map
of its children by the parts of their urls.  `path` goes up the links and joins
the parts, `getByPath` splits a url and goes down the maps.

## Main results

* `path_of_at` — the path of a node, if it does not get too long.
* `addressed_iff` — when a node is found under its path.
* `links_addChild` — what a new child is to the links.
-/

namespace Megatron.WebHandler

open Megatron.Corelib (Bytes RouteT)
open Megatron.Http
open Megatron.Lib

/-! ## Texts -/

/-- `CUtils::splitStringDQ` and `splitString`, whose loop counts with an
`unsigned int` up to a `size_t`; `none` is a loop that does not end. -/
def splitStringDQ (seps s : Bytes) : Option (List Bytes) :=
  if s.length < 4294967296 then some (splitString seps s) else none

/-- `CUtils::join`; its loop counts to the number of strings but one. -/
def join (pattern : Bytes) (arr : List Bytes) : Option Bytes :=
  if arr.length ≤ 4294967296 then some (pattern.intercalate arr) else none

/-! ## Nodes -/

/-- `Node::NT`. -/
inductive NT where
  | handler
  | directory
  deriving DecidableEq

/-- `WebHandler::Node`; nodes are known by their addresses. -/
structure Node where
  nodeType : NT
  urlPart : Bytes
  displayName : Bytes
  route : RouteT
  parent : Option ℕ
  children : OrdMap Bytes ℕ := ∅

/-- The constructor of a page. -/
def Node.handler (par : Option ℕ) (urlPart displayName : Bytes) (route : RouteT) : Node where
  nodeType := .handler
  urlPart := urlPart
  displayName := displayName
  route := route
  parent := par

/-- The constructor of a directory. -/
def Node.directory (par : Option ℕ) (urlPart displayName : Bytes) : Node where
  nodeType := .directory
  urlPart := urlPart
  displayName := displayName
  route := []
  parent := par

/-- The nodes at their addresses; the root is the first. -/
structure Tree where
  nodes : List Node

namespace Tree

/-- The tree of a service that is constructed. -/
def construct : Tree := ⟨[.directory none [] (text "Home")]⟩

def getChild (t : Tree) (n : ℕ) (url : Bytes) : Option ℕ :=
  (t.nodes[n]?).bind fun x => x.children.get? url

/-- The loop of `getByPath`, which ends at a part that is no child. -/
def getByPathLoop (t : Tree) : ℕ → List Bytes → Option ℕ
  | n, [] => some n
  | n, part :: v => (t.getChild n part).bind fun c => t.getByPathLoop c v

/-- `getByPath`; the outer `none` is a loop that does not end. -/
def getByPath (t : Tree) (n : ℕ) (u : Bytes) : Option (Option ℕ) :=
  (splitStringDQ (text "/") u).map fun v => t.getByPathLoop n v

/-- `getByPathParentDir`: the last part is not looked for. -/
def getByPathParentDir (t : Tree) (n : ℕ) (u : Bytes) : Option (Option ℕ) :=
  (splitStringDQ (text "/") u).map fun v => t.getByPathLoop n v.dropLast

/-- The loop of `path`, with the number of turns bounded. -/
def pathLoop (t : Tree) : ℕ → Option ℕ → List Bytes → Option (List Bytes)
  | 0, _, _ => none
  | _ + 1, none, q => some q
  | fuel + 1, some n, q => (t.nodes[n]?).bind fun x => t.pathLoop fuel x.parent (x.urlPart :: q)

/-- `path`; no way up meets more nodes than there are. -/
def path (t : Tree) (n : ℕ) : Option Bytes :=
  (t.pathLoop (t.nodes.length + 1) (some n) []).bind fun q => join (text "/") q

/-- `addChild` of a new node.  `insert` leaves an entry that is there, and then
the new node is released at once. -/
def addChild (t : Tree) (n : ℕ) (x : Node) : Tree :=
  if (t.getChild n x.urlPart).isSome then t
  else
    ⟨t.nodes.modify n (fun y =>
      { y with children := y.children.insertNew x.urlPart t.nodes.length }) ++ [x]⟩

/-! ## The links -/

/-- The links between the nodes. -/
def links (t : Tree) : LinkedTree Bytes where
  parent n := (t.nodes[n]?).bind Node.parent
  key n := ((t.nodes[n]?).map Node.urlPart).getD []
  child n part := t.getChild n part

/-- A part of a url. -/
def Part (k : Bytes) : Prop := k ≠ [] ∧ ∀ c ∈ k, c ∉ text "/"

/-- The two kinds of links agree, and every node but the root has a part. -/
structure WellFormed (t : Tree) : Prop where
  proper : t.links.Proper
  rootPart : t.links.key 0 = []
  nonempty : 0 < t.nodes.length
  inRange : ∀ n k c, t.getChild n k = some c → c < t.nodes.length
  parts : ∀ n ks, t.links.At n ks → ∀ k ∈ ks, Part k

/-- The node can be reached from the root. -/
def Reachable (t : Tree) (n : ℕ) : Prop := ∃ ks, t.links.At n ks

/-- The node is found under its path. -/
def Addressed (t : Tree) (n : ℕ) : Prop := ∃ p, t.path n = some p ∧ t.getByPath 0 p = some (some n)

end Tree

/-! ## Paths as texts -/

/-- The parts with a slash in front of each. -/
def pathText (ks : List Bytes) : Bytes := (text "/").intercalate ([] :: ks)

theorem text_slash : text "/" = [47] := by decide +kernel

theorem slash_mem : (47 : UInt8) ∈ text "/" := by decide +kernel

@[simp] theorem pathText_nil : pathText [] = [] := rfl

@[simp] theorem pathText_cons (k : Bytes) (ks : List Bytes) :
    pathText (k :: ks) = 47 :: (k ++ pathText ks) := by
  cases ks with
  | nil => simp [pathText, text_slash, List.intercalate]
  | cons k' ks => simp [pathText, text_slash, List.intercalate]

theorem length_le_pathText (ks : List Bytes) : ks.length ≤ (pathText ks).length := by
  induction ks with
  | nil => exact le_rfl
  | cons k ks ih =>
      rw [pathText_cons, List.length_cons, List.length_cons, List.length_append]
      omega

/-- **A path is split** into the parts it was joined from. -/
theorem splitString_pathText {ks : List Bytes} (h : ∀ k ∈ ks, Tree.Part k) :
    splitString (text "/") (pathText ks) = ks := by
  induction ks with
  | nil => rfl
  | cons k ks ih =>
      obtain ⟨hNe, hFree⟩ := h k List.mem_cons_self
      have hTail := ih fun k' hk' => h k' (List.mem_cons_of_mem k hk')
      have hFirst : splitString (text "/") (47 :: (k ++ pathText ks)) =
          splitString (text "/") (k ++ pathText ks) :=
        Config.splitString_separator (s := []) slash_mem
      rw [pathText_cons, hFirst]
      cases ks with
      | nil => rw [pathText_nil, List.append_nil, splitString_self hNe hFree]
      | cons k' ks =>
          rw [pathText_cons] at hTail ⊢
          have hSkip : splitString (text "/") (47 :: (k' ++ pathText ks)) =
              splitString (text "/") (k' ++ pathText ks) :=
            Config.splitString_separator (s := []) slash_mem
          rw [splitString_append hNe hFree slash_mem, ← hSkip, hTail]

theorem ne_nil_of_mem_splitFrom {seps k : Bytes} (u : Bytes) :
    ∀ tmp, k ∈ splitFrom seps tmp u → k ≠ [] := by
  induction u with
  | nil =>
      intro tmp hMem
      rw [splitFrom] at hMem
      split at hMem
      · cases hMem
      · rwa [List.mem_singleton.1 hMem]
  | cons c u ih =>
      intro tmp hMem
      rw [splitFrom] at hMem
      split at hMem
      · exact ih _ hMem
      · split at hMem
        · exact ih _ hMem
        · rcases List.mem_cons.1 hMem with rfl | hMem
          · assumption
          · exact ih _ hMem

theorem part_of_mem_splitString {u k : Bytes} (h : k ∈ splitString (text "/") u) : Tree.Part k :=
  ⟨ne_nil_of_mem_splitFrom u [] h, fun _ hc => (Config.exists_mem_splitString.1 ⟨k, h, hc⟩).2⟩

namespace Tree

variable {t : Tree} {n : ℕ} {ks : List Bytes}

/-! ## Up and down -/

theorem getByPathLoop_eq (t : Tree) (v : List Bytes) :
    ∀ n, t.getByPathLoop n v = t.links.descend n v := by
  induction v with
  | nil => exact fun n => rfl
  | cons part v ih => exact fun n => congrArg _ (funext ih)

theorem WellFormed.lt_length (h : t.WellFormed) (hAt : t.links.At n ks) : n < t.nodes.length := by
  cases hAt with
  | root => exact h.nonempty
  | child _ hChild => exact h.inRange _ _ _ hChild

/-- The way up meets nodes only. -/
theorem pathLoop_eq (h : t.WellFormed) (fuel : ℕ) :
    ∀ n ks q, t.links.At n ks → t.pathLoop fuel (some n) q = t.links.climb fuel (some n) q := by
  induction fuel with
  | zero => exact fun _ _ _ _ => rfl
  | succ fuel ih =>
      intro n ks q hAt
      obtain ⟨x, hNode⟩ : ∃ x, t.nodes[n]? = some x :=
        ⟨_, List.getElem?_eq_getElem (h.lt_length hAt)⟩
      have hParent : t.links.parent n = x.parent := by
        simp only [links, hNode, Option.bind_some]
      have hKey : t.links.key n = x.urlPart := by
        simp only [links, hNode, Option.map_some, Option.getD_some]
      rw [pathLoop, LinkedTree.climb, hNode, Option.bind_some, hKey, ← hParent]
      cases hAt with
      | root =>
          rw [h.proper.root]
          cases fuel <;> rfl
      | child hUp hChild =>
          rw [h.proper.parent _ _ _ hChild]
          exact ih _ _ _ hUp

/-- The path of a node, as far as `join` counts. -/
theorem path_of_at (h : t.WellFormed) (hAt : t.links.At n ks) :
    t.path n = join (text "/") ([] :: ks) := by
  have hRange := h.lt_length hAt
  rw [path, pathLoop_eq h _ n ks [] hAt, h.proper.climb_eq hAt _ [] (by omega), h.rootPart,
    List.append_nil]
  rfl

/-- `getByPath` goes where the parts lead. -/
theorem getByPath_eq_some_iff {u : Bytes} :
    t.getByPath 0 u = some (some n) ↔
      u.length < 4294967296 ∧ t.links.At n (splitString (text "/") u) := by
  rw [getByPath, splitStringDQ]
  split
  · rename_i hShort
    rw [Option.map_some, Option.some.injEq, getByPathLoop_eq, LinkedTree.descend_eq_some_iff,
      and_iff_right hShort]
  · rename_i hLong
    exact iff_of_false (by simp) fun h => hLong h.1

/-- **A node is found** under its path unless that has 2^32 bytes or more. -/
theorem addressed_iff (h : t.WellFormed) (hAt : t.links.At n ks) :
    t.Addressed n ↔ (pathText ks).length < 4294967296 := by
  have hSplit := splitString_pathText (h.parts n ks hAt)
  constructor
  · rintro ⟨p, hPath, hFound⟩
    rw [path_of_at h hAt, join] at hPath
    split at hPath
    · obtain rfl : pathText ks = p := Option.some.inj hPath
      exact (getByPath_eq_some_iff.1 hFound).1
    · cases hPath
  · intro hShort
    have hCount : ([] :: ks).length ≤ 4294967296 :=
      Nat.succ_le_of_lt ((length_le_pathText ks).trans_lt hShort)
    refine ⟨pathText ks, ?_, getByPath_eq_some_iff.2 ⟨hShort, hSplit.symm ▸ hAt⟩⟩
    rw [path_of_at h hAt, join, if_pos hCount]
    rfl

/-- Two nodes that are found under one path are one. -/
theorem Addressed.unique {m : ℕ} (hn : t.Addressed n) (hm : t.Addressed m)
    (h : t.path n = t.path m) : n = m := by
  obtain ⟨p, hPath, hFound⟩ := hn
  obtain ⟨p', hPath', hFound'⟩ := hm
  obtain rfl : p = p' := Option.some.inj (hPath.symm.trans (h.trans hPath'))
  exact Option.some.inj (Option.some.inj (hFound.symm.trans hFound'))

/-! ## A new child -/

/-- The nodes after `addChild`. -/
theorem getElem?_addChild {x : Node} (hFree : t.getChild n x.urlPart = none) (i : ℕ) :
    (t.addChild n x).nodes[i]? =
      if i = t.nodes.length then some x
      else
        (t.nodes[i]?).map fun y =>
          if n = i then { y with children := y.children.insertNew x.urlPart t.nodes.length } else y := by
  rw [addChild, hFree]
  by_cases hNew : i = t.nodes.length
  · simp [hNew]
  · by_cases hOld : i < t.nodes.length
    · have hLeft : i < (t.nodes.modify n fun y =>
          { y with children := y.children.insertNew x.urlPart t.nodes.length }).length := by
        rwa [List.length_modify]
      rw [if_neg hNew, if_neg (by simp), List.getElem?_append_left hLeft, List.getElem?_modify]
      rfl
    · have hOut : t.nodes.length ≤ i := Nat.not_lt.1 hOld
      have hLonger : ((t.nodes.modify n fun y =>
          { y with children := y.children.insertNew x.urlPart t.nodes.length }) ++ [x]).length ≤ i := by
        rw [List.length_append, List.length_modify, List.length_singleton]
        omega
      rw [if_neg hNew, if_neg (by simp), List.getElem?_eq_none hOut]
      exact List.getElem?_eq_none hLonger

/-- **A new child** is a new node of the links. -/
theorem links_addChild {x : Node} (hFree : t.getChild n x.urlPart = none)
    (hn : n < t.nodes.length) (hParent : x.parent = some n) (hLeaf : x.children = ∅) :
    (t.addChild n x).links = t.links.addChild n x.urlPart t.nodes.length := by
  have hNodes := getElem?_addChild hFree
  have hNone : ∀ k, t.getChild t.nodes.length k = none := fun k => by
    rw [getChild, List.getElem?_eq_none le_rfl, Option.bind_none]
  rw [links, LinkedTree.addChild, LinkedTree.mk.injEq]
  refine ⟨funext fun i => ?_, funext fun i => ?_, funext fun i => funext fun k => ?_⟩
  · rw [hNodes]
    by_cases hNew : i = t.nodes.length
    · rw [if_pos hNew, hNew, Function.update_self]
      exact hParent
    · rw [if_neg hNew, Function.update_of_ne hNew, Option.bind_map]
      refine congrArg _ (funext fun y => ?_)
      rw [Function.comp_apply]
      split <;> rfl
  · rw [hNodes]
    by_cases hNew : i = t.nodes.length
    · rw [if_pos hNew, hNew, Function.update_self]
      rfl
    · rw [if_neg hNew, Function.update_of_ne hNew, Option.map_map]
      refine congrArg (fun f => (Option.map f t.nodes[i]?).getD []) (funext fun y => ?_)
      rw [Function.comp_apply]
      split <;> rfl
  · rw [getChild, hNodes]
    by_cases hNew : i = t.nodes.length
    · have hNot : ¬ (i = n ∧ k = x.urlPart) := fun h => hn.ne (h.1.symm.trans hNew)
      rw [if_pos hNew, if_neg hNot, Option.bind_some, hLeaf, OrdMap.get?_empty, hNew]
      exact (hNone k).symm
    · rw [if_neg hNew, Option.bind_map]
      by_cases hAt : i = n
      · obtain ⟨y, hy⟩ : ∃ y, t.nodes[n]? = some y := ⟨_, List.getElem?_eq_getElem hn⟩
        have hFree' : y.children.get? x.urlPart = none := by
          rwa [getChild, hy, Option.bind_some] at hFree
        subst hAt
        simp only [links, getChild, hy, Option.bind_some, Function.comp_apply, if_true,
          OrdMap.insertNew_of_none hFree', true_and]
        by_cases hKey : k = x.urlPart
        · rw [if_pos hKey, hKey, OrdMap.get?_insert_self]
        · rw [if_neg hKey, OrdMap.get?_insert_of_ne hKey]
      · have hNot : ¬ (i = n ∧ k = x.urlPart) := fun h => hAt h.1
        rw [if_neg hNot]
        refine congrArg _ (funext fun y => ?_)
        rw [Function.comp_apply, if_neg (Ne.symm hAt)]

/-- The new node has no links yet. -/
theorem WellFormed.fresh (h : t.WellFormed) {k : Bytes} (hFree : t.getChild n k = none)
    (hn : n < t.nodes.length) : t.links.Fresh n k t.nodes.length where
  free := hFree
  lt := hn
  notChild p k' hChild := (h.inRange p k' _ hChild).false
  leaf k' := by
    show t.getChild t.nodes.length k' = none
    rw [getChild, List.getElem?_eq_none le_rfl, Option.bind_none]

/-- **A new child** is behind the parts of its parent and its own part; all
else is where it was. -/
theorem at_addChild_iff (h : t.WellFormed) {x : Node} (hFree : t.getChild n x.urlPart = none)
    (hn : n < t.nodes.length) (hParent : x.parent = some n) (hLeaf : x.children = ∅) {m : ℕ}
    {v : List Bytes} :
    (t.addChild n x).links.At m v ↔
      t.links.At m v ∨ m = t.nodes.length ∧ ∃ ks, t.links.At n ks ∧ v = ks ++ [x.urlPart] := by
  rw [links_addChild hFree hn hParent hLeaf]
  exact LinkedTree.at_addChild_iff (h.fresh hFree hn)

theorem length_addChild {x : Node} (hFree : t.getChild n x.urlPart = none) :
    (t.addChild n x).nodes.length = t.nodes.length + 1 := by
  rw [addChild, hFree]
  simp

/-- `addChild` keeps the tree well formed. -/
theorem WellFormed.addChild (h : t.WellFormed) {x : Node} (hFree : t.getChild n x.urlPart = none)
    (hn : n < t.nodes.length) (hParent : x.parent = some n) (hLeaf : x.children = ∅)
    (hPart : Part x.urlPart) : (t.addChild n x).WellFormed := by
  have hLinks := links_addChild hFree hn hParent hLeaf
  have hLength := length_addChild hFree
  have hChild : ∀ m k, (t.addChild n x).getChild m k =
      (t.links.addChild n x.urlPart t.nodes.length).child m k :=
    fun m k => congrFun (congrFun (congrArg LinkedTree.child hLinks) m) k
  refine ⟨hLinks ▸ h.proper.addChild (h.fresh hFree hn), ?_, by omega, fun m k c hc => ?_,
    fun m v hAt k hk => ?_⟩
  · rw [hLinks]
    exact (Function.update_of_ne h.nonempty.ne _ _).trans h.rootPart
  · rw [hChild, LinkedTree.addChild] at hc
    dsimp only at hc
    split at hc
    · have hNew := Option.some.inj hc
      omega
    · have hOld := h.inRange m k c hc
      omega
  · rcases (at_addChild_iff h hFree hn hParent hLeaf).1 hAt with hOld | ⟨-, ks, hUp, rfl⟩
    · exact h.parts m v hOld k hk
    · rcases List.mem_append.1 hk with hk | hk
      · exact h.parts n ks hUp k hk
      · rw [List.mem_singleton.1 hk]
        exact hPart

/-- A child that is there stays, and with it the whole tree. -/
theorem addChild_of_isSome {x : Node} (h : (t.getChild n x.urlPart).isSome) : t.addChild n x = t :=
  if_pos h

end Tree

end Megatron.WebHandler
