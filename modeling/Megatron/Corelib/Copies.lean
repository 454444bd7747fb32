import Megatron.Corelib.Typed

/-!
# Copies of typed values

What comes back when a value is written and read again is a copy of it
(`CopyOf`): it says the same, it is the value itself where no refbuffer occurs
in it, and the refbuffers in it have been made since the reader started.  The
last part is what keeps the elements of a set of refbuffers apart, since the
set compares their addresses.

## Main results

* `eq_of_not_lt` — two values neither of which is less share their addresses,
  and are equal where they have none.
* `Run.copyOf`, `Run.ordered` — copies of the elements, in a sequence or in an
  ordered container, are a copy of the container.
-/

namespace Megatron.Corelib

open Megatron.Lib

namespace Ty

/-- No `double` and no `float` occurs. -/
def Listed : Ty → Prop
  | int _ _ | bool | string | refbuffer => True
  | real => False
  | seq _ elem => elem.Listed
  | set elem => elem.Listed
  | map key value => key.Listed ∧ value.Listed
  | pair first second => first.Listed ∧ second.Listed

/-- A value of the type: no container has `2^32` elements, and the ordered
ones are in order. -/
def Wf (pl : Platform) : (t : Ty) → t.Val → Prop
  | int _ _, _ | bool, _ | real, _ | string, _ | refbuffer, _ => True
  | seq _ elem, l => List.length l < 2 ^ 32 ∧ ∀ x, List.Mem x l → elem.Wf pl x
  | set elem, l => List.length l < 2 ^ 32 ∧
      List.Pairwise (fun x y => elem.lt pl x y = true) l ∧ ∀ x, List.Mem x l → elem.Wf pl x
  | map key value, l => List.length l < 2 ^ 32 ∧
      List.Pairwise (fun x y => key.lt pl x.1 y.1 = true) l ∧
      ∀ e, List.Mem e l → key.Wf pl e.1 ∧ value.Wf pl e.2
  | pair first second, v => first.Wf pl v.1 ∧ second.Wf pl v.2

/-! ## What the comparators tell apart -/

/-- `operator<` of an integer type is the one of the integers. -/
theorem int_lt_iff {n : Nat} (signed : Bool) (x y : BitVec n) :
    (if signed then BitVec.slt x y else BitVec.ult x y) = true ↔
      if signed then x.toInt < y.toInt else x.toNat < y.toNat := by
  cases signed with
  | true => exact BitVec.slt_iff_toInt_lt
  | false => exact BitVec.ult_iff_lt

theorem int_asymm {n : Nat} (signed : Bool) :
    Asymm fun x y : BitVec n => if signed then BitVec.slt x y else BitVec.ult x y := by
  intro x y hLt
  rw [← Bool.not_eq_true, int_lt_iff]
  rw [int_lt_iff] at hLt
  split at hLt
  · rename_i hSigned
    rw [if_pos hSigned]
    omega
  · rename_i hSigned
    rw [if_neg hSigned]
    omega

theorem int_eq {n : Nat} (signed : Bool) {x y : BitVec n}
    (h : (if signed then BitVec.slt x y else BitVec.ult x y) = false)
    (h' : (if signed then BitVec.slt y x else BitVec.ult y x) = false) : x = y := by
  rw [← Bool.not_eq_true, int_lt_iff] at h h'
  split at h
  · rename_i hSigned
    rw [if_pos hSigned] at h'
    exact BitVec.eq_of_toInt_eq (by omega)
  · rename_i hSigned
    rw [if_neg hSigned] at h'
    exact BitVec.eq_of_toNat_eq (by omega)

theorem asymm_lt (pl : Platform) : ∀ {t : Ty}, t.Listed → Asymm (t.lt pl) := by
  intro t
  induction t with
  | int signed width => exact fun _ => int_asymm signed
  | bool => exact fun _ => (by decide : ∀ x y : Bool, (!x && y) = true → (!y && x) = false)
  | real => exact fun h => absurd h id
  | string =>
      refine fun _ => lexLt_asymm fun a b hLt => ?_
      simp only [decide_eq_true_eq, decide_eq_false_iff_not] at hLt ⊢
      exact UInt8.lt_asymm hLt
  | refbuffer =>
      intro _ x y hLt
      simp only [lt, decide_eq_true_eq, decide_eq_false_iff_not] at hLt ⊢
      omega
  | seq kind elem ih => exact fun h => lexLt_asymm (ih h)
  | set elem ih => exact fun h => lexLt_asymm (ih h)
  | map key value ihKey ihValue =>
      exact fun h => lexLt_asymm (pairLt_asymm (ihKey h.1) (ihValue h.2))
  | pair first second ihFirst ihSecond =>
      exact fun h => pairLt_asymm (ihFirst h.1) (ihSecond h.2)

/-- Lists whose elements agree on `g`, and are equal where it is empty. -/
theorem flatMap_of_forall₂ {α : Type} {R : α → α → Prop} {g : α → List Nat} {l l' : List α}
    (h : List.Forall₂ R l l') (hR : ∀ a b, R a b → g a = g b ∧ (g a = [] → a = b)) :
    l.flatMap g = l'.flatMap g ∧ (l.flatMap g = [] → l = l') := by
  induction h with
  | nil => exact ⟨rfl, fun _ => rfl⟩
  | cons hHead _ ih =>
      obtain ⟨hSame, hEq⟩ := hR _ _ hHead
      refine ⟨by rw [List.flatMap_cons, List.flatMap_cons, hSame, ih.1], fun hNil => ?_⟩
      rw [List.flatMap_cons, List.append_eq_nil_iff] at hNil
      rw [hEq hNil.1, ih.2 hNil.2]

/-- **Equivalent values.** -/
theorem eq_of_not_lt (pl : Platform) :
    ∀ {t : Ty}, t.Listed → ∀ {x y : t.Val}, t.lt pl x y = false → t.lt pl y x = false →
      t.addrs x = t.addrs y ∧ (t.addrs x = [] → x = y) := by
  intro t
  induction t with
  | int signed width => exact fun _ {_ _} h h' => ⟨rfl, fun _ => int_eq signed h h'⟩
  | bool =>
      exact fun _ {x y} h h' => ⟨rfl, fun _ =>
        (by decide : ∀ x y : Bool, (!x && y) = false → (!y && x) = false → x = y) x y h h'⟩
  | real => exact fun h => absurd h id
  | string =>
      intro _ x y h h'
      refine ⟨rfl, fun _ => ?_⟩
      have hBoth := forall₂_of_not_lexLt h h'
      refine List.forall₂_eq_eq_eq ▸ hBoth.imp fun a b hab => ?_
      simp only [decide_eq_false_iff_not, UInt8.not_lt] at hab
      exact UInt8.le_antisymm hab.2 hab.1
  | refbuffer =>
      intro _ x y h h'
      simp only [lt, decide_eq_false_iff_not] at h h'
      have hAddr : x.addr = y.addr := by omega
      exact ⟨congrArg (fun a => [a]) hAddr, fun hNil => absurd hNil (List.cons_ne_nil _ _)⟩
  | seq kind elem ih =>
      exact fun hL _ _ h h' =>
        flatMap_of_forall₂ (forall₂_of_not_lexLt h h') fun a b hab => ih hL hab.1 hab.2
  | set elem ih =>
      exact fun hL _ _ h h' =>
        flatMap_of_forall₂ (forall₂_of_not_lexLt h h') fun a b hab => ih hL hab.1 hab.2
  | map key value ihKey ihValue =>
      intro hL x y h h'
      refine flatMap_of_forall₂ (forall₂_of_not_lexLt h h') fun a b hab => ?_
      obtain ⟨hKey, hValue⟩ := of_not_pairLt hab.1 hab.2
      have hKey := ihKey hL.1 hKey.1 hKey.2
      have hValue := ihValue hL.2 hValue.1 hValue.2
      refine ⟨by rw [hKey.1, hValue.1], fun hNil => ?_⟩
      rw [List.append_eq_nil_iff] at hNil
      exact Prod.ext (hKey.2 hNil.1) (hValue.2 hNil.2)
  | pair first second ihFirst ihSecond =>
      intro hL x y h h'
      obtain ⟨hFirst, hSecond⟩ := of_not_pairLt h h'
      have hFirst := ihFirst hL.1 hFirst.1 hFirst.2
      have hSecond := ihSecond hL.2 hSecond.1 hSecond.2
      refine ⟨congrArg₂ (· ++ ·) hFirst.1 hSecond.1, fun hNil => ?_⟩
      rw [addrs, List.append_eq_nil_iff] at hNil
      exact Prod.ext (hFirst.2 hNil.1) (hSecond.2 hNil.2)

end Ty

/-! ## Copies -/

/-- `x` is a copy of `v`, its refbuffers made from the `lo`th up to the
`hi`th. -/
structure CopyOf {α γ : Type} (pl : Platform) (content : α → γ) (addrs : α → List Nat) (v : α)
    (lo hi : Nat) (x : α) : Prop where
  le : lo ≤ hi
  content_eq : content x = content v
  nil_iff : addrs v = [] ↔ addrs x = []
  eq : addrs v = [] → x = v
  fresh : ∀ a ∈ addrs x, ∃ n, lo ≤ n ∧ n < hi ∧ a = pl.address n

/-- A copy of a value of the type. -/
abbrev Ty.Copy (pl : Platform) (t : Ty) (v : t.Val) : Nat → Nat → t.Val → Prop :=
  CopyOf pl t.content t.addrs v

section Copies

variable {pl : Platform} {α γ : Type} {f : α → γ} {g : α → List Nat}

/-- A value without refbuffers is its own copy. -/
theorem copyOf_self {lo hi : Nat} (h : lo ≤ hi) {v : α} (hNil : g v = []) :
    CopyOf pl f g v lo hi v :=
  ⟨h, rfl, Iff.rfl, fun _ => rfl, fun _ ha => absurd (hNil ▸ ha) List.not_mem_nil⟩

/-- A copy stays one when the addresses are counted from further back. -/
theorem CopyOf.mono {v x : α} {lo lo' hi : Nat} (h : CopyOf pl f g v lo' hi x) (hLe : lo ≤ lo') :
    CopyOf pl f g v lo hi x where
  le := hLe.trans h.le
  content_eq := h.content_eq
  nil_iff := h.nil_iff
  eq := h.eq
  fresh a ha := by
    obtain ⟨n, hLo, hHi, rfl⟩ := h.fresh a ha
    exact ⟨n, hLe.trans hLo, hHi, rfl⟩

/-- A copy stays one when more addresses have been given out. -/
theorem CopyOf.above {v x : α} {lo mid hi : Nat} (h : CopyOf pl f g v lo mid x) (hLe : mid ≤ hi) :
    CopyOf pl f g v lo hi x where
  le := h.le.trans hLe
  content_eq := h.content_eq
  nil_iff := h.nil_iff
  eq := h.eq
  fresh a ha := by
    obtain ⟨n, hLo, hHi, rfl⟩ := h.fresh a ha
    exact ⟨n, hLo, hHi.trans_le hLe, rfl⟩

theorem CopyOf.pair {β δ : Type} {f' : β → δ} {g' : β → List Nat} {v : α × β} {lo mid hi : Nat}
    {x : α} {y : β} (h : CopyOf pl f g v.1 lo mid x) (h' : CopyOf pl f' g' v.2 mid hi y) :
    CopyOf pl (fun e : α × β => (f e.1, f' e.2)) (fun e => g e.1 ++ g' e.2) v lo hi (x, y) where
  le := h.le.trans h'.le
  content_eq := Prod.ext h.content_eq h'.content_eq
  nil_iff := by rw [List.append_eq_nil_iff, List.append_eq_nil_iff, h.nil_iff, h'.nil_iff]
  eq hNil := by
    rw [List.append_eq_nil_iff] at hNil
    exact Prod.ext (h.eq hNil.1) (h'.eq hNil.2)
  fresh a ha := by
    rcases List.mem_append.1 ha with ha | ha
    · obtain ⟨n, hLo, hHi, rfl⟩ := h.fresh a ha
      exact ⟨n, hLo, hHi.trans_le h'.le, rfl⟩
    · obtain ⟨n, hLo, hHi, rfl⟩ := h'.fresh a ha
      exact ⟨n, h.le.trans hLo, hHi, rfl⟩

/-- The elements, read one after the other. -/
inductive Run (C : α → Nat → Nat → α → Prop) : Nat → Nat → List α → List α → Prop
  | nil {lo hi : Nat} (h : lo ≤ hi) : Run C lo hi [] []
  | cons {lo mid hi : Nat} {v x : α} {vs xs : List α} (head : C v lo mid x)
      (tail : Run C mid hi vs xs) : Run C lo hi (v :: vs) (x :: xs)

variable {C : α → Nat → Nat → α → Prop} {lo hi : Nat} {vs xs : List α}

/-- The copies of the elements are a copy of the list. -/
theorem Run.copyOf (hC : ∀ v lo hi x, C v lo hi x → CopyOf pl f g v lo hi x)
    (h : Run C lo hi vs xs) : CopyOf pl (List.map f) (List.flatMap g) vs lo hi xs := by
  induction h with
  | nil h => exact copyOf_self h rfl
  | cons head _ ih =>
      have hHead := hC _ _ _ _ head
      refine ⟨hHead.le.trans ih.le, ?_, ?_, fun hNil => ?_, fun a ha => ?_⟩
      · rw [List.map_cons, List.map_cons, hHead.content_eq, ih.content_eq]
      · rw [List.flatMap_cons, List.flatMap_cons, List.append_eq_nil_iff, List.append_eq_nil_iff,
          hHead.nil_iff, ih.nil_iff]
      · rw [List.flatMap_cons, List.append_eq_nil_iff] at hNil
        rw [hHead.eq hNil.1, ih.eq hNil.2]
      · rw [List.flatMap_cons, List.mem_append] at ha
        rcases ha with ha | ha
        · obtain ⟨n, hLo, hHi, rfl⟩ := hHead.fresh a ha
          exact ⟨n, hLo, hHi.trans_le ih.le, rfl⟩
        · obtain ⟨n, hLo, hHi, rfl⟩ := ih.fresh a ha
          exact ⟨n, hHead.le.trans hLo, hHi, rfl⟩

/-- The same elements in another order, which is the old one where no address
decides it. -/
theorem CopyOf.ordered (h : CopyOf pl (List.map f) (List.flatMap g) vs lo hi xs) {ys : List α}
    (hPerm : ys.Perm xs) (hSame : xs = vs → ys = vs) :
    CopyOf pl (fun l => Multiset.ofList (List.map f l)) (List.flatMap g) vs lo hi ys where
  le := h.le
  content_eq := by
    rw [← h.content_eq]
    exact Multiset.coe_eq_coe.2 (hPerm.map f)
  nil_iff := by
    have hFlat : (ys.flatMap g).Perm (xs.flatMap g) := hPerm.flatMap_right g
    rw [h.nil_iff]
    exact ⟨fun hNil => (hNil ▸ hFlat).eq_nil, fun hNil => (hNil ▸ hFlat.symm).eq_nil⟩
  eq hNil := hSame (h.eq hNil)
  fresh a ha := h.fresh a ((hPerm.flatMap_right g).mem_iff.1 ha)

theorem Run.mem (hC : ∀ v lo hi x, C v lo hi x → lo ≤ hi) (h : Run C lo hi vs xs) :
    ∀ y ∈ xs, ∃ w ∈ vs, ∃ lo' hi', lo ≤ lo' ∧ C w lo' hi' y := by
  induction h with
  | nil h => simp
  | cons head _ ih =>
      intro y hy
      rcases List.mem_cons.1 hy with rfl | hy
      · exact ⟨_, List.mem_cons_self, _, _, Nat.le_refl _, head⟩
      · obtain ⟨w, hw, lo', hi', hLo, hCopy⟩ := ih y hy
        exact ⟨w, List.mem_cons_of_mem _ hw, lo', hi', (hC _ _ _ _ head).trans hLo, hCopy⟩

/-- Copies of different values differ: they have refbuffers of their own, or
none. -/
theorem lt_copies {t : Ty} (hListed : t.Listed) {v w x y : t.Val} {mid lo' hi' : Nat}
    (hx : t.Copy pl v lo mid x) (hy : t.Copy pl w lo' hi' y) (hLater : mid ≤ lo')
    (hLt : t.lt pl v w = true) : t.lt pl x y = true ∨ t.lt pl y x = true := by
  by_contra hNot
  rw [not_or, Bool.not_eq_true, Bool.not_eq_true] at hNot
  obtain ⟨hAddrs, hEq⟩ := Ty.eq_of_not_lt pl hListed hNot.1 hNot.2
  cases hList : t.addrs x with
  | nil =>
      have hv := hx.eq (hx.nil_iff.2 hList)
      have hw := hy.eq (hy.nil_iff.2 (hAddrs ▸ hList))
      rw [← hv, ← hw, hEq hList, (Ty.asymm_lt pl hListed).irrefl] at hLt
      exact Bool.false_ne_true hLt
  | cons a l =>
      have hMem : a ∈ t.addrs x := hList ▸ List.mem_cons_self
      obtain ⟨n, _, hn, hAt⟩ := hx.fresh a hMem
      obtain ⟨m, hm, _, hAt'⟩ := hy.fresh a (hAddrs ▸ hMem)
      have hSame : n = m := pl.address_injective (hAt.symm.trans hAt')
      omega

/-- A container ordered by the key `k` gets all its elements back. -/
theorem Run.pairwise {t : Ty} (hListed : t.Listed) {k : α → t.Val}
    (hC : ∀ v lo hi x, C v lo hi x → t.Copy pl (k v) lo hi (k x)) (h : Run C lo hi vs xs)
    (hLt : vs.Pairwise fun v w => t.lt pl (k v) (k w) = true) :
    xs.Pairwise fun x y => t.lt pl (k x) (k y) = true ∨ t.lt pl (k y) (k x) = true := by
  induction h with
  | nil h => exact List.Pairwise.nil
  | cons head tail ih =>
      rw [List.pairwise_cons] at hLt
      refine List.Pairwise.cons (fun y hy => ?_) (ih hLt.2)
      obtain ⟨w, hw, lo', hi', hLater, hCopy⟩ :=
        tail.mem (fun v lo hi x h => (hC v lo hi x h).le) y hy
      exact lt_copies hListed (hC _ _ _ _ head) (hC _ _ _ _ hCopy) hLater (hLt.1 w hw)

/-- What inserting the elements makes of the container. -/
theorem Run.ordered {t : Ty} (hListed : t.Listed) {k : α → t.Val}
    (hKey : ∀ v lo hi x, C v lo hi x → t.Copy pl (k v) lo hi (k x))
    (hC : ∀ v lo hi x, C v lo hi x → CopyOf pl f g v lo hi x) (h : Run C lo hi vs xs)
    (hLt : vs.Pairwise fun v w => t.lt pl (k v) (k w) = true) :
    CopyOf pl (fun l => Multiset.ofList (List.map f l)) (List.flatMap g) vs lo hi
      (xs.foldl (fun v x => insertBy (fun x y => t.lt pl (k x) (k y)) x v) []) := by
  refine (h.copyOf hC).ordered (foldl_insertBy_perm xs [] (h.pairwise hListed hKey hLt)) ?_
  rintro rfl
  exact foldl_insertBy_of_pairwise (fun x y => Ty.asymm_lt pl hListed (k x) (k y)) xs [] hLt

end Copies

end Megatron.Corelib
