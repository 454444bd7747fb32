import Megatron.Corelib.Copies
import Megatron.Corelib.Hostile
import Megatron.Corelib.Serialise

/-!
# Reading back what was written

`operator<<` into an `outBuffer` and `operator>>` out of the bytes it hands
out, at every type.

## Main results

* `gives_extract` — a reader gives back every value.
* `roundTrips_iff` — a list of values comes back exactly when no string in it
  is so long that its length does not fit an `int`.
* `longString_lost` — a string of `2^31` bytes does not come back.
-/

namespace Megatron.Corelib

open Megatron.Lib

/-- Every allocation is granted. -/
structure Platform.Grants (pl : Platform) : Prop where
  malloc : ∀ size, pl.malloc size = true
  reserve : ∀ t n, pl.reserve t n = true

namespace Cursor

/-! ## The readers -/

/-- From the bytes `enc`, wherever they lie, `p` gives a value that `C` holds
of, and leaves what follows them. -/
def Gives {α : Type} (p : In α) (enc : Bytes) (C : Nat → Nat → α → Prop) : Prop :=
  ∀ (s : Cursor) (tail : Bytes), s.Valid → s.rest = enc ++ tail →
    ∃ x s', p s = (.ok x, s') ∧ Kept s s' ∧ s'.rest = tail ∧ C s.made s'.made x

variable {α β : Type} {p : In α} {enc enc' : Bytes} {C : Nat → Nat → α → Prop}
  {D : Nat → Nat → β → Prop}

theorem Gives.bind {f : α → In β} {E : α → Nat → Nat → β → Prop} (hp : Gives p enc C)
    (hf : ∀ x, Gives (f x) enc' (E x))
    (hD : ∀ lo mid hi x y, C lo mid x → E x mid hi y → mid ≤ hi → D lo hi y) :
    Gives (p >>= f) (enc ++ enc') D := by
  intro s tail hs hRest
  obtain ⟨x, s₁, hRun, hKept, hRest₁, hx⟩ := hp s (enc' ++ tail) hs (by
    rw [hRest, List.append_assoc])
  obtain ⟨y, s₂, hRun₂, hKept₂, hRest₂, hy⟩ := hf x s₁ tail hKept.valid hRest₁
  exact ⟨y, s₂, (bind_ok hRun).trans hRun₂, hKept.trans hKept₂, hRest₂,
    hD _ _ _ _ _ hx hy hKept₂.made_le⟩

theorem Gives.map {g : α → β} (hp : Gives p enc C)
    (hD : ∀ lo hi x, C lo hi x → lo ≤ hi → D lo hi (g x)) :
    Gives (do return g (← p)) enc D := by
  intro s tail hs hRest
  obtain ⟨x, s', hRun, hKept, hRest', hx⟩ := hp s tail hs hRest
  exact ⟨g x, s', bind_ok hRun, hKept, hRest', hD _ _ _ hx hKept.made_le⟩

/-- A reader over `InBuffer` gives what it reads. -/
theorem Refines.gives {q : Reader α} {x : α} (hp : Refines p q) (hq : Reads q enc x) :
    Gives p enc fun _ _ y => y = x := by
  intro s tail hs hRest
  obtain ⟨s', hRun, hKept, hRest'⟩ := hp.reads hq hs hRest
  exact ⟨x, s', hRun, hKept, hRest', rfl⟩

theorem gives_getPN (n : UInt64) : Gives getPN (putPN n) fun _ _ m => m = n :=
  refines_getPN.gives (reads_getPN n)

theorem gives_getPSTR {d : Bytes} (h : d.length < 2 ^ 64) :
    Gives getPSTR (putPSTR d) fun _ _ e => e = d :=
  refines_getPSTR.gives (reads_getPSTR h)

theorem gives_getCount {n : Nat} (h : n < 2 ^ 32) :
    Gives getCount (Ty.putCount n) fun _ _ m => m.toNat = n := by
  refine (gives_getPN _).map ?_
  rintro _ _ _ rfl _
  rw [UInt32.toUInt32_toUInt64]
  exact UInt32.toNat_ofNat_of_lt' h

/-- As many bytes as the number says. -/
theorem gives_unpackInto {d : Bytes} {size : UInt64} (h : size.toNat = d.length) :
    Gives (unpackInto size) d fun _ _ e => e = d := by
  intro s tail hs hRest
  rcases take_cases hs size with ⟨hLess, -⟩ | ⟨-, -, hRun, hSum, hKept⟩
  · have := UInt64.lt_iff_toNat_lt.1 hLess
    rw [hs.length_rest, hRest, List.length_append] at this
    omega
  · refine ⟨d, _, ?_, hKept, ?_, rfl⟩
    · rw [hRun, hRest, h, List.take_left]
    · rw [rest] at hRest
      rw [rest]
      show s.mData.drop (s.outPos + size).toNat = tail
      rw [hSum, ← List.drop_drop, hRest, h, List.drop_left]

theorem gives_getRef {pl : Platform} (hGrants : pl.Grants) (v : Ref)
    (hLen : v.text.length < 2 ^ 63) :
    Gives (getRef pl) (putRefbuffer (some v.text)) (Ty.refbuffer.Copy pl v) := by
  intro s tail hs hRest
  have hSize : (UInt64.ofNat v.text.length).toNat = v.text.length :=
    UInt64.toNat_ofNat_of_lt' (hLen.trans (by decide))
  rw [putRefbuffer, List.append_assoc] at hRest
  generalize hEq : UInt64.ofNat v.text.length = size at hSize hRest
  obtain ⟨_, s₁, hPN, hKept, hRest₁, hSame⟩ := gives_getPN size s _ hs hRest
  rw [hSame] at hPN
  -- the last refbuffer made, at the address it got
  have copy : ∀ (r : Refbuffer) (hi : Nat), r.bytes.filterMap id = v.text → s₁.made < hi →
      Ty.refbuffer.Copy pl v s.made hi ⟨pl.address (hi - 1), r.bytes.filterMap id⟩ := by
    intro r hi hText hHi
    have hLo := hKept.made_le
    refine ⟨hLo.trans hHi.le, hText, ?_, ?_, ?_⟩
    · exact iff_of_false (List.cons_ne_nil _ _) (List.cons_ne_nil _ _)
    · exact fun hNil => absurd hNil (List.cons_ne_nil _ _)
    · intro a ha
      exact ⟨hi - 1, by omega, by omega, List.mem_singleton.1 ha⟩
  let s₂ : Cursor := { s₁ with made := s₁.made + 1 }
  have hKept₂ : Kept s₁ s₂ := ⟨⟨hKept.valid.1, hKept.valid.2, hKept.valid.3⟩, rfl, Nat.le_refl _,
    Nat.le_succ _⟩
  by_cases h0 : size ≠ 0
  · have hCap : (size + 0x20).toNat = v.text.length + 0x20 := by
      rw [UInt64.toNat_add, hSize, show (0x20 : UInt64).toNat = 0x20 from rfl]
      omega
    have hFits : 0 + v.text.length ≤
        (Block.malloc (size + 0x20).toNat : Block UInt8).length := by
      rw [Block.length_malloc, hCap]
      omega
    obtain ⟨_, s₃, hUnpack, hKept₃, hRest₃, hText⟩ :=
      gives_unpackInto hSize s₂ tail hKept₂.valid hRest₁
    rw [hText] at hUnpack
    have hBytes : (Refbuffer.bytes ⟨some ((Block.malloc (size + 0x20).toNat).overlay 0 v.text),
        size, size + 0x20⟩).filterMap id = v.text := by
      have hTake := Block.take_overlay_end hFits
      rw [Nat.zero_add, List.take_zero, List.nil_append] at hTake
      rw [Refbuffer.bytes, hSize, Option.getD_some, hTake, List.filterMap_map]
      simp
    have hRead : readRefbuffer pl .new s = (.ok (), ⟨some ((Block.malloc
        (size + 0x20).toNat).overlay 0 v.text), size, size + 0x20⟩, s₃) := by
      simp only [readRefbuffer, hPN, if_pos h0, hGrants.malloc, if_true]
      simp only [s₂] at hUnpack
      simp only [hUnpack, Block.write_of_fits hFits]
    exact ⟨_, s₃, by rw [getRef, hRead], (hKept.trans hKept₂).trans hKept₃, hRest₃,
      copy _ s₃.made hBytes hKept₃.made_le⟩
  · have hNil : v.text = [] := by
      rw [not_not] at h0
      rw [← List.length_eq_zero_iff, ← hSize, h0]
      rfl
    have hRead : readRefbuffer pl .new s = (.ok (), .new, s₂) := by
      simp only [readRefbuffer, hPN, if_neg h0]
      rfl
    refine ⟨_, s₂, by rw [getRef, hRead], hKept.trans hKept₂, ?_, ?_⟩
    · rw [hNil] at hRest₁
      exact hRest₁
    · exact copy .new s₂.made (by rw [hNil]; rfl) (Nat.lt_succ_self _)

/-! ## The loop over the elements -/

variable {pl : Platform}

theorem gives_fill {get : In α} {enc : α → Bytes} {C : α → Nat → Nat → α → Prop}
    (add : List α → α → List α) :
    ∀ vs acc : List α, (∀ v ∈ vs, Gives get (enc v) (C v)) →
      Gives (fill add get vs.length acc) (vs.flatMap enc)
        fun lo hi ys => ∃ xs, Run C lo hi vs xs ∧ ys = xs.foldl add acc := by
  intro vs
  induction vs with
  | nil =>
      intro acc _ s tail hs hRest
      exact ⟨acc, s, rfl, Kept.refl hs, hRest, [], Run.nil (Nat.le_refl _), rfl⟩
  | cons v vs ih =>
      intro acc hGet s tail hs hRest
      rw [List.flatMap_cons, List.append_assoc] at hRest
      obtain ⟨x, s₁, hRun, hKept, hRest₁, hx⟩ := hGet v List.mem_cons_self s _ hs hRest
      let s₂ : Cursor := { s₁ with inserted := s₁.inserted + 1 }
      have hKept₂ : Kept s₁ s₂ := ⟨⟨hKept.valid.1, hKept.valid.2, hKept.valid.3⟩, rfl,
        Nat.le_refl _, Nat.le_refl _⟩
      have hInsert : insertion (add acc x) s₁ = (.ok (add acc x), s₂) := rfl
      obtain ⟨ys, s₃, hFill, hKept₃, hRest₃, xs, hXs, rfl⟩ :=
        ih (add acc x) (fun w hw => hGet w (List.mem_cons_of_mem _ hw)) s₂ tail hKept₂.valid hRest₁
      refine ⟨_, s₃, ?_, (hKept.trans hKept₂).trans hKept₃, hRest₃, x :: xs,
        Run.cons hx hXs, rfl⟩
      rw [List.length_cons, fill, bind_ok hRun, bind_ok hInsert, hFill, List.foldl_cons]

/-- A container: the count, and then its elements. -/
theorem gives_container {get : In α} {enc : α → Bytes} {C : α → Nat → Nat → α → Prop}
    (adjust : UInt32 → In Unit) (hAdjust : ∀ n, adjust n = pure ()) (add : List α → α → List α)
    {vs : List α} (hLen : vs.length < 2 ^ 32) (hGet : ∀ v ∈ vs, Gives get (enc v) (C v)) :
    Gives (do
        let n ← getCount
        adjust n
        fill add get n.toNat []) (Ty.putCount vs.length ++ vs.flatMap enc)
      fun lo hi ys => ∃ mid xs, lo ≤ mid ∧ Run C mid hi vs xs ∧ ys = xs.foldl add [] := by
  intro s tail hs hRest
  rw [List.append_assoc] at hRest
  obtain ⟨n, s₁, hRun, hKept, hRest₁, hn⟩ := gives_getCount hLen s _ hs hRest
  obtain ⟨ys, s₂, hFill, hKept₂, hRest₂, xs, hXs, rfl⟩ :=
    gives_fill add vs [] hGet s₁ tail hKept.valid hRest₁
  refine ⟨_, s₂, ?_, hKept.trans hKept₂, hRest₂, s₁.made, xs, hKept.made_le, hXs, rfl⟩
  rw [bind_ok hRun, hAdjust, pure_bind, hn, hFill]

/-- What an element writes is part of what all of them write. -/
theorem length_le_flatMap {f : α → Bytes} {l : List α} {x : α} (hx : x ∈ l) :
    (f x).length ≤ (l.flatMap f).length := by
  obtain ⟨a, b, rfl⟩ := List.append_of_mem hx
  simp only [List.flatMap_append, List.flatMap_cons, List.length_append]
  omega

theorem length_le_putPSTR (s : Bytes) : s.length ≤ (putPSTR s).length := by
  rw [putPSTR, List.length_append]
  exact Nat.le_add_left _ _

/-! ## One lemma for each type -/

/-- Narrowing undoes widening, with or without the sign. -/
theorem setWidth_toWord (signed : Bool) {width : Width} (v : BitVec width.bits) :
    (Ty.toWord signed v).toBitVec.setWidth width.bits = v := by
  have hLe : width.bits ≤ 64 := by cases width <;> decide
  cases signed with
  | true =>
      show (v.signExtend 64).setWidth width.bits = v
      refine BitVec.eq_of_getLsbD_eq fun i hi => ?_
      have hi' : i < 64 := Nat.lt_of_lt_of_le hi hLe
      rw [BitVec.getLsbD_setWidth, BitVec.getLsbD_signExtend]
      simp [hi, hi']
  | false =>
      show (v.setWidth 64).setWidth width.bits = v
      rw [BitVec.setWidth_setWidth_of_le _ hLe, BitVec.setWidth_eq]

theorem gives_int (signed : Bool) {width : Width} (v : BitVec width.bits) :
    Gives (extract pl (.int signed width)) ((Ty.int signed width).put v)
      ((Ty.int signed width).Copy pl v) := by
  refine (gives_getPN _).map ?_
  rintro lo hi _ rfl hLe
  have hSame := setWidth_toWord signed v
  exact hSame.symm ▸ copyOf_self hLe rfl

theorem gives_bool (v : Bool) :
    Gives (extract pl .bool) (Ty.bool.put v) (Ty.bool.Copy pl v) := by
  refine (gives_getPN _).map ?_
  rintro lo hi _ rfl hLe
  have hSame : (Bool.toUInt64 v != 0) = v := by cases v <;> rfl
  exact hSame.symm ▸ copyOf_self hLe rfl

theorem gives_string {v : Bytes} (hLen : v.length < 2 ^ 63) :
    Gives (extract pl .string) (Ty.string.put v) (Ty.string.Copy pl v) := by
  intro s tail hs hRest
  obtain ⟨_, s', hRun, hKept, hRest', rfl⟩ :=
    gives_getPSTR (hLen.trans (by decide)) s tail hs hRest
  exact ⟨_, s', hRun, hKept, hRest', copyOf_self hKept.made_le rfl⟩

theorem gives_seq (hGrants : pl.Grants) (kind : Seq) {elem : Ty} {l : List elem.Val}
    (hLen : l.length < 2 ^ 32)
    (hGet : ∀ v ∈ l, Gives (extract pl elem) (elem.put v) (elem.Copy pl v)) :
    Gives (extract pl (.seq kind elem)) ((Ty.seq kind elem).put l)
      ((Ty.seq kind elem).Copy pl l) := by
  have hReserve : ∀ n, reserve pl kind elem n = pure () := by
    intro n
    rw [reserve, if_neg (by rw [hGrants.reserve]; simp)]
  intro s tail hs hRest
  obtain ⟨_, s', hRun, hKept, hRest', mid, xs, hLe, hXs, rfl⟩ :=
    gives_container (reserve pl kind elem) hReserve (fun v t => v ++ [t]) hLen hGet s tail hs hRest
  have hAll : xs.foldl (fun v t => v ++ [t]) [] = xs := by
    rw [List.foldl_append_eq_append, List.nil_append, ← List.flatMap_def, List.flatMap_singleton']
  refine ⟨_, s', hRun, hKept, hRest', ?_⟩
  rw [hAll]
  exact (hXs.copyOf fun _ _ _ _ h => h).mono hLe

theorem gives_set {elem : Ty} (hListed : elem.Listed) {l : List elem.Val}
    (hLen : l.length < 2 ^ 32) (hLt : l.Pairwise fun x y => elem.lt pl x y = true)
    (hGet : ∀ v ∈ l, Gives (extract pl elem) (elem.put v) (elem.Copy pl v)) :
    Gives (extract pl (.set elem)) ((Ty.set elem).put l) ((Ty.set elem).Copy pl l) := by
  intro s tail hs hRest
  obtain ⟨_, s', hRun, hKept, hRest', mid, xs, hLe, hXs, rfl⟩ :=
    gives_container (fun _ => pure ()) (fun _ => rfl)
      (fun v t => insertBy (elem.lt pl) t v) hLen hGet s tail hs hRest
  refine ⟨_, s', hRun, hKept, hRest', ?_⟩
  exact (hXs.ordered hListed (k := id) (fun _ _ _ _ h => h) (fun _ _ _ _ h => h) hLt).mono hLe

theorem gives_pair {first second : Ty} {v : first.Val × second.Val}
    (hFirst : Gives (extract pl first) (first.put v.1) (first.Copy pl v.1))
    (hSecond : Gives (extract pl second) (second.put v.2) (second.Copy pl v.2)) :
    Gives (do
        let a ← extract pl first
        let b ← extract pl second
        return (a, b)) (first.put v.1 ++ second.put v.2)
      fun lo hi x => ∃ mid, first.Copy pl v.1 lo mid x.1 ∧ second.Copy pl v.2 mid hi x.2 := by
  refine hFirst.bind (E := fun a mid hi x => x.1 = a ∧ second.Copy pl v.2 mid hi x.2)
    (fun a => hSecond.map fun _ _ _ h _ => ⟨rfl, h⟩) ?_
  rintro lo mid hi _ x hCopy ⟨rfl, hCopy'⟩ _
  exact ⟨mid, hCopy, hCopy'⟩

theorem gives_map {key value : Ty} (hListed : key.Listed) {l : List (key.Val × value.Val)}
    (hLen : l.length < 2 ^ 32) (hLt : l.Pairwise fun x y => key.lt pl x.1 y.1 = true)
    (hKey : ∀ e ∈ l, Gives (extract pl key) (key.put e.1) (key.Copy pl e.1))
    (hValue : ∀ e ∈ l, Gives (extract pl value) (value.put e.2) (value.Copy pl e.2)) :
    Gives (extract pl (.map key value)) ((Ty.map key value).put l)
      ((Ty.map key value).Copy pl l) := by
  intro s tail hs hRest
  obtain ⟨_, s', hRun, hKept, hRest', mid, xs, hLe, hXs, rfl⟩ :=
    gives_container (fun _ => pure ()) (fun _ => rfl)
      (fun v t => insertBy (fun x y => key.lt pl x.1 y.1) t v) hLen
      (fun e he => gives_pair (hKey e he) (hValue e he)) s tail hs hRest
  refine ⟨_, s', hRun, hKept, hRest', ?_⟩
  refine (hXs.ordered hListed (k := Prod.fst) ?_ ?_ hLt).mono hLe
  · rintro v lo hi x ⟨mid, hCopy, hCopy'⟩
    exact hCopy.above hCopy'.le
  · rintro v lo hi x ⟨mid, hCopy, hCopy'⟩
    exact hCopy.pair hCopy'

/-- **Every value is given back.** -/
theorem gives_extract (hGrants : pl.Grants) :
    ∀ {t : Ty}, t.Listed → ∀ {v : t.Val}, t.Wf pl v → (t.put v).length < 2 ^ 63 →
      Gives (extract pl t) (t.put v) (t.Copy pl v) := by
  intro t
  induction t with
  | int signed width => exact fun _ {v} _ _ => gives_int signed v
  | bool => exact fun _ {v} _ _ => gives_bool v
  | real => exact fun h => absurd h id
  | string =>
      intro _ v _ hLen
      exact gives_string (Nat.lt_of_le_of_lt (length_le_putPSTR v) hLen)
  | refbuffer =>
      intro _ v _ hLen
      exact gives_getRef hGrants v (Nat.lt_of_le_of_lt (length_le_putPSTR v.text) hLen)
  | seq kind elem ih =>
      intro hL v hWf hLen
      rw [Ty.put, List.length_append] at hLen
      refine gives_seq hGrants kind hWf.1 fun e he => ih hL (hWf.2 e he) ?_
      have := length_le_flatMap (f := elem.put) he
      omega
  | set elem ih =>
      intro hL v hWf hLen
      rw [Ty.put, List.length_append] at hLen
      have hElem : elem.Listed := hL
      refine gives_set hElem hWf.1 hWf.2.1 fun e he => ih hElem (hWf.2.2 e he) ?_
      have := length_le_flatMap (f := elem.put) he
      omega
  | map key value ihKey ihValue =>
      intro hL v hWf hLen
      rw [Ty.put, List.length_append] at hLen
      have hPart : ∀ e : key.Val × value.Val, List.Mem e v →
          (key.put e.1).length + (value.put e.2).length < 2 ^ 63 := by
        intro e he
        have := length_le_flatMap (f := fun e => key.put e.1 ++ value.put e.2) he
        rw [List.length_append] at this
        omega
      refine gives_map hL.1 hWf.1 hWf.2.1 (fun e he => ?_) (fun e he => ?_)
      · exact ihKey hL.1 (hWf.2.2 e he).1 (Nat.lt_of_le_of_lt (Nat.le_add_right _ _) (hPart e he))
      · exact ihValue hL.2 (hWf.2.2 e he).2 (Nat.lt_of_le_of_lt (Nat.le_add_left _ _) (hPart e he))
  | pair first second ihFirst ihSecond =>
      intro hL v hWf hLen s tail hs hRest
      rw [Ty.put, List.length_append] at hLen
      obtain ⟨x, s', hRun, hKept, hRest', mid, hCopy, hCopy'⟩ :=
        gives_pair (ihFirst hL.1 hWf.1 (by omega)) (ihSecond hL.2 hWf.2 (by omega)) s tail hs hRest
      exact ⟨x, s', hRun, hKept, hRest', hCopy.pair hCopy'⟩

end Cursor

/-! ## Lists of values -/

/-- A value and its type. -/
abbrev Item := Σ t : Ty, t.Val

namespace Item

def Listed (v : Item) : Prop := v.1.Listed

def Wf (pl : Platform) (v : Item) : Prop := v.1.Wf pl v.2

def put (v : Item) : Bytes := v.1.put v.2

def write (v : Item) : OutBuffer → Option OutBuffer := v.1.write v.2

def strings (v : Item) : List Bytes := v.1.strings v.2

def content (v : Item) : Σ t : Ty, t.Content := ⟨v.1, v.1.content v.2⟩

/-- The same value: it says the same, and a refbuffer in it may have moved. -/
structure Same (v x : Item) : Prop where
  content_eq : x.content = v.content
  eq : v.1.addrs v.2 = [] → x = v

end Item

/-- `b << v1 << v2 ...`. -/
def writeAll (vs : List Item) (o : OutBuffer) : Option OutBuffer :=
  vs.foldlM (fun o v => v.write o) o

/-- `b >> v1 >> v2 ...`, for variables of these types. -/
def extractAll (pl : Platform) : List Ty → In (List Item)
  | [] => return []
  | t :: ts => do
      let x ← Cursor.extract pl t
      let xs ← extractAll pl ts
      return ⟨t, x⟩ :: xs

/-- The values are written into a new `outBuffer` and read from what it hands
out: they are the same, the reader is at the end, and it is as far as there
were bytes to write. -/
def RoundTrips (pl : Platform) (vs : List Item) : Prop :=
  ∃ o ∈ writeAll vs OutBuffer.construct, ∃ d : Object,
    o.asString.buffer.size_ = d.size ∧ o.asString.buffer.bytes = d.val.map some ∧
    ∃ xs s, extractAll pl (vs.map Sigma.fst) (Cursor.ofObject d) = (.ok xs, s) ∧
      List.Forall₂ Item.Same vs xs ∧ ¬ s.beforeEnd ∧
      s.outPos.toNat = (vs.flatMap Item.put).length

section RoundTrip

variable {pl : Platform} {vs : List Item}

open Cursor in
theorem gives_extractAll (hGrants : pl.Grants) :
    (∀ v ∈ vs, v.Listed) → (∀ v ∈ vs, v.Wf pl) → (vs.flatMap Item.put).length < 2 ^ 63 →
      Gives (extractAll pl (vs.map Sigma.fst)) (vs.flatMap Item.put)
        fun _ _ xs => List.Forall₂ Item.Same vs xs := by
  induction vs with
  | nil =>
      intro _ _ _ s tail hs hRest
      exact ⟨[], s, rfl, Kept.refl hs, hRest, List.Forall₂.nil⟩
  | cons v vs ih =>
      intro hListed hWf hLen
      rw [List.flatMap_cons, List.length_append] at hLen
      rw [List.forall_mem_cons] at hListed hWf
      have hHead := gives_extract hGrants hListed.1 hWf.1 (Nat.lt_of_le_of_lt
        (Nat.le_add_right _ _) hLen)
      have hTail := ih hListed.2 hWf.2 (Nat.lt_of_le_of_lt (Nat.le_add_left _ _) hLen)
      refine hHead.bind (E := fun x _ _ ys => ∃ xs, ys = ⟨v.1, x⟩ :: xs ∧ List.Forall₂ Item.Same vs xs)
        (fun x => hTail.map fun _ _ xs hXs _ => ⟨xs, rfl, hXs⟩) ?_
      rintro lo mid hi x _ hCopy ⟨xs, rfl, hXs⟩ _
      refine List.Forall₂.cons ⟨?_, fun hNil => ?_⟩ hXs
      · exact congrArg (Sigma.mk v.1) hCopy.content_eq
      · exact congrArg (Sigma.mk v.1) (hCopy.eq hNil)

theorem safe_extractAll (pl : Platform) (ts : List Ty) : Cursor.Safe 0 (extractAll pl ts) := by
  induction ts with
  | nil => exact Cursor.safe_pure []
  | cons t ts ih =>
      exact ((Cursor.safe_extract _ t).bind fun x => ih.map _).mono (by decide)

theorem writes_writeAll (h : ∀ v ∈ vs, ∀ s ∈ v.strings, s.length < 2 ^ 31) :
    Writes (writeAll vs) (vs.flatMap Item.put) :=
  writes_foldlM fun v hv => writes_write (h v hv)

theorem moves_writeAll (vs : List Item) :
    Moves (writeAll vs) (vs.flatMap Item.put).length (skips (vs.flatMap Item.strings)) := by
  have hMoves := moves_foldlM (f := Item.write) fun v (_ : v ∈ vs) => moves_write v.2
  rw [List.length_flatMap, skips_flatMap]
  exact hMoves

theorem proper_construct : OutBuffer.construct.Proper := ⟨rfl, by decide, by
  show 0x400 ≤ (Block.malloc 0x400 : Block UInt8).length
  rw [Block.length_malloc]⟩

/-- What `asString` hands out where the position is behind the bytes. -/
theorem bytes_asString {o : OutBuffer} {s : Bytes} (hStored : OutBuffer.construct.Stored s o)
    (hPos : o.curPos.toNat = s.length) (hLen : s.length < 2 ^ 63) :
    o.asString.buffer.size_ = UInt64.ofNat s.length ∧
      o.asString.buffer.bytes = s.map some := by
  have hEnds := hStored.ends
  have hRoom := hStored.proper (by rw [hPos]; exact (Nat.zero_add _).symm)
  have hSum : (o.curPos + 0x20).toNat = s.length + 0x20 := by
    rw [UInt64.toNat_add, hPos, show (0x20 : UInt64).toNat = 0x20 from rfl]
    omega
  have hZero : OutBuffer.construct.curPos.toNat = 0 := rfl
  rw [hZero, Nat.zero_add, List.take_zero, List.nil_append] at hEnds
  constructor
  · exact UInt64.toNat_inj.1 (hPos.trans (UInt64.toNat_ofNat_of_lt' (hLen.trans (by decide))).symm)
  · have hFits : s.length ≤ o.block.length := hPos ▸ hRoom.curPos_le.trans hRoom.bufsize_le
    show (o.block.realloc (o.curPos + 0x20).toNat).take o.curPos.toNat = _
    rw [hPos, Block.take_realloc hFits (by omega), hEnds]

/-- Short strings come back, with all that is around them. -/
theorem roundTrips_of_short (hGrants : pl.Grants) (hListed : ∀ v ∈ vs, v.Listed)
    (hWf : ∀ v ∈ vs, v.Wf pl) (hLen : (vs.flatMap Item.put).length < 2 ^ 63)
    (hShort : ∀ v ∈ vs, ∀ s ∈ v.strings, s.length < 2 ^ 31) : RoundTrips pl vs := by
  have hZero : OutBuffer.construct.curPos.toNat = 0 := rfl
  obtain ⟨o, hWrite, hStored, hPos⟩ := writes_writeAll hShort _ proper_construct (by omega)
  rw [hZero, Nat.zero_add] at hPos
  obtain ⟨hSize, hBytes⟩ := bytes_asString hStored hPos hLen
  let d : Object := ⟨vs.flatMap Item.put, hLen⟩
  obtain ⟨xs, s, hRun, hKept, hRest, hXs⟩ := gives_extractAll hGrants hListed hWf hLen
    (Cursor.ofObject d) [] (Cursor.valid_ofObject d) (List.append_nil _).symm
  have hEnd : s.outPos.toNat = s.mData.length := by
    have hLe := hKept.valid.outPos_le.trans hKept.valid.mSize_eq.le
    rw [Cursor.rest, List.drop_eq_nil_iff] at hRest
    exact Nat.le_antisymm hLe hRest
  refine ⟨o, hWrite, d, hSize, hBytes, xs, s, hRun, hXs, ?_, ?_⟩
  · rw [Cursor.beforeEnd, UInt64.lt_iff_toNat_lt, hEnd, hKept.valid.mSize_eq]
    exact lt_irrefl _
  · rw [hEnd, hKept.mData_eq]
    rfl

/-- A length that does not fit leaves the position short of the bytes. -/
theorem short_of_roundTrips (hLen : (vs.flatMap Item.put).length < 2 ^ 63)
    (h : RoundTrips pl vs) : ∀ v ∈ vs, ∀ s ∈ v.strings, s.length < 2 ^ 31 := by
  obtain ⟨o, hWrite, d, hSize, -, xs, s, hRun, -, hEnd, hPos⟩ := h
  have hSame : s.outPos.toNat = d.val.length := by
    obtain ⟨r, s', hRun', hKept, -⟩ :=
      safe_extractAll pl (vs.map Sigma.fst) _ (Cursor.valid_ofObject d)
    rw [hRun] at hRun'
    obtain ⟨-, rfl⟩ := Prod.mk.injEq .. ▸ hRun'
    have hData : s.mData = d.val := hKept.mData_eq
    rw [Cursor.beforeEnd, UInt64.lt_iff_toNat_lt, Nat.not_lt, hKept.valid.mSize_eq, hData] at hEnd
    exact Nat.le_antisymm (hKept.valid.outPos_le.trans (hKept.valid.mSize_eq.trans (by rw [hData])).le)
      hEnd
  have hMoves := moves_writeAll vs _ _ hWrite
  have hCur : o.curPos = UInt64.ofNat (vs.flatMap Item.put).length := by
    rw [← hPos, hSame]
    exact hSize
  have hSkips : skips (vs.flatMap Item.strings) ≤ 2 * (vs.flatMap Item.put).length :=
    skips_flatMap_le Item.put Item.strings fun v _ => skips_strings_le v.2
  have hZero : skips (vs.flatMap Item.strings) = 0 := by
    have hNat := congrArg UInt64.toNat hMoves
    rw [hCur, UInt64.toNat_add, UInt64.toNat_add, UInt64.toNat_ofNat', UInt64.toNat_ofNat',
      show OutBuffer.construct.curPos.toNat = 0 from rfl] at hNat
    omega
  intro v hv s hs
  exact skips_eq_zero.1 hZero s (List.mem_flatMap_of_mem hv hs)

end RoundTrip

/--
**Which values come back.** Values of any types but the floating-point ones,
where all allocations are granted and the bytes fit an object, come back
exactly when every string in them is shorter than `2^31`.
-/
theorem roundTrips_iff (pl : Platform) (hGrants : pl.Grants) (vs : List Item)
    (hListed : ∀ v ∈ vs, v.Listed) (hWf : ∀ v ∈ vs, v.Wf pl)
    (hLen : (vs.flatMap Item.put).length < 2 ^ 63) :
    RoundTrips pl vs ↔ ∀ v ∈ vs, ∀ s ∈ v.strings, s.length < 2 ^ 31 :=
  ⟨short_of_roundTrips hLen, roundTrips_of_short hGrants hListed hWf hLen⟩

theorem plain_grants : Platform.plain.Grants := ⟨fun _ => rfl, fun _ _ => rfl⟩

/-- A negative number, a set of refbuffers in a vector, and a map of pairs. -/
def nested : List Item :=
  [⟨.int true .w64, (-1 : BitVec 64)⟩,
   ⟨.seq .vector (.set .refbuffer), [[⟨5, [1, 2]⟩, ⟨7, []⟩]]⟩,
   ⟨.map .string (.pair .bool (.int true .w8)), [([104], (true, (-3 : BitVec 8)))]⟩]

theorem nested_wf : ∀ v ∈ nested, v.Wf .plain := by
  simp only [nested, List.forall_mem_cons]
  refine ⟨trivial, ⟨by decide, fun x hx => ?_⟩, ⟨by decide, ?_, fun x hx => ⟨trivial, trivial, trivial⟩⟩,
    by simp⟩
  · obtain rfl := List.mem_singleton.1 hx
    exact ⟨by decide, by decide, fun _ _ => trivial⟩
  · exact List.pairwise_singleton _ _

theorem nested_roundTrips : RoundTrips .plain nested :=
  (roundTrips_iff .plain plain_grants nested
    (by simp [nested, Item.Listed, Ty.Listed])
    nested_wf (by decide +kernel)).2 (by decide +kernel)

/-- A string of `2^31` bytes. -/
def longString : Item := ⟨.string, List.replicate (2 ^ 31) 0⟩

theorem length_longString : (([longString] : List Item).flatMap Item.put).length < 2 ^ 63 := by
  have hPut : longString.put = putPSTR (List.replicate (2 ^ 31) 0) := rfl
  have hPN := OutBuffer.length_putPN_le (UInt64.ofNat (2 ^ 31))
  rw [List.flatMap_singleton, hPut, putPSTR, List.length_append, List.length_replicate]
  omega

/-- `cur_pos+=(int)s.size()` moves back from the end of such a string. -/
theorem longString_lost :
    ¬ RoundTrips .plain [longString] ∧
    ¬ ∀ (pl : Platform) (vs : List Item), pl.Grants → (∀ v ∈ vs, v.Listed) →
      (∀ v ∈ vs, v.Wf pl) → (vs.flatMap Item.put).length < 2 ^ 63 → RoundTrips pl vs := by
  have hLost : ¬ RoundTrips .plain [longString] := by
    intro h
    have hShort := short_of_roundTrips length_longString h longString (List.mem_singleton_self _)
      (List.replicate (2 ^ 31) 0) (List.mem_singleton_self _)
    rw [List.length_replicate] at hShort
    exact lt_irrefl _ hShort
  refine ⟨hLost, fun hAll => hLost (hAll .plain [longString] plain_grants ?_ ?_ length_longString)⟩
  · rintro v hv
    obtain rfl := List.mem_singleton.1 hv
    trivial
  · rintro v hv
    obtain rfl := List.mem_singleton.1 hv
    trivial

end Megatron.Corelib
