import Mathlib.Data.Finset.Dedup
import Megatron.Config.Values

/-!
# Typed settings and their defaults

A getter looks a key up in what was loaded when the process started.  Where
there is no such key it returns the default and appends a line to the file, for
the next process to load.  What the getters differ in is how a default is
written, what is returned for it, and how a text from the file is read.

A file of `2^32` bytes or more is not loaded: the counter of `splitString` is an
`unsigned int`.

## Main results

* `stable_iff` — when a default is what the next process returns, and no other
  key changes, for any getter.
* `stable_getters_iff` — the condition for each of the six getters.
-/

namespace Megatron.Config

open Megatron.Corelib (Bytes cStr cStr_of_noNul cStr_subset length_cStr_le)
open Megatron.Http

/-! ## `ConfigObj` -/

structure ConfigObj where
  container : StringMap
  prefixes : List Bytes
  file : Bytes

namespace ConfigObj

/-- `load_from_file`, in a process that has these prefixes; `none` is a loop
that does not end.  What is thrown on the way is caught. -/
def load (prefixes : List Bytes) (file : Bytes) : Option ConfigObj :=
  if file.length < 2 ^ 32 then
    some ⟨(loadStringMapFromFile file).getD .empty, prefixes, file⟩
  else none

/-- `m_getPath`. -/
def getPath (o : ConfigObj) (name : Bytes) : Bytes :=
  (text ".").intercalate (o.prefixes ++ [name])

/-- `m_getPath2`. -/
def getPath2 (_ : ConfigObj) (name : Bytes) : Bytes := name

end ConfigObj

/-- What a typed getter does: the text that it appends for a default, what it
returns for the default, and what it reads of a text in the file. -/
structure Getter (α β : Type) where
  text : α → Bytes
  default : α → Option β
  read : Bytes → Option β

/-- The look-up, with the file as it is afterwards. -/
def Getter.get {α β : Type} (g : Getter α β) (o : ConfigObj) (name : Bytes) (defv : α)
    (comment : Bytes) : Option β × ConfigObj :=
  match o.container name with
  | some val => (g.read val, o)
  | none => (g.default defv, { o with file := o.file ++ appended name (g.text defv) comment })

/-- `splitString` into a `std::set`; `none` is a loop that does not end. -/
def splitSet (seps s : Bytes) : Option (Finset Bytes) :=
  if s.length < 2 ^ 32 then some (splitString seps s).toFinset else none

namespace Getter

def string : Getter Bytes Bytes := ⟨id, some, some⟩

def stringset : Getter Bytes (Finset Bytes) :=
  ⟨id, splitSet (Http.text ",|"), splitSet (Http.text ",|;")⟩

def bool : Getter Bool Bool :=
  ⟨fun v => if v then Http.text "true" else Http.text "false", some,
    fun s => some (s = Http.text "true")⟩

def int64 : Getter Int64 Int64 :=
  ⟨fun v => toText v.toInt, some, fun s => some (Int64.ofInt (strtol (cStr s)))⟩

def uint64 : Getter UInt64 UInt64 :=
  ⟨fun v => toText v.toNat, some, fun s => some (UInt64.ofInt (strtol (cStr s)))⟩

def real {Q : ℚ → Prop} (t : Strtod Q) : Getter (Real Q) (Real Q) :=
  ⟨Real.toText, some, fun s => some (t.strtod (cStr s))⟩

end Getter

namespace ConfigObj

def getString (o : ConfigObj) (name : Bytes) := Getter.string.get o (o.getPath name)

def getString2 (o : ConfigObj) (name : Bytes) := Getter.string.get o (o.getPath2 name)

def getStringset (o : ConfigObj) (name : Bytes) := Getter.stringset.get o (o.getPath name)

def getStringset2 (o : ConfigObj) (name : Bytes) := Getter.stringset.get o (o.getPath2 name)

def getBool (o : ConfigObj) (name : Bytes) := Getter.bool.get o (o.getPath name)

def getBool2 (o : ConfigObj) (name : Bytes) := Getter.bool.get o (o.getPath2 name)

def getInt64 (o : ConfigObj) (name : Bytes) := Getter.int64.get o (o.getPath name)

def getInt642 (o : ConfigObj) (name : Bytes) := Getter.int64.get o (o.getPath2 name)

def getUint64 (o : ConfigObj) (name : Bytes) := Getter.uint64.get o (o.getPath name)

def getReal {Q : ℚ → Prop} (t : Strtod Q) (o : ConfigObj) (name : Bytes) :=
  (Getter.real t).get o (o.getPath name)

def getReal2 {Q : ℚ → Prop} (t : Strtod Q) (o : ConfigObj) (name : Bytes) :=
  (Getter.real t).get o (o.getPath2 name)

end ConfigObj

/-! ## Two processes -/

section Stability

variable {α β : Type}

/-- The getter returns the default and appends it; a process that loads the file
then gets the same from the same call, and every other key is as it was. -/
def Stable (g : Getter α β) (same : β → β → Prop) (o : ConfigObj) (key : Bytes) (defv : α)
    (comment : Bytes) : Prop :=
  ∃ x y later, (g.get o key defv comment).1 = some x ∧
    ConfigObj.load o.prefixes (g.get o key defv comment).2.file = some later ∧
    (g.get later key defv comment).1 = some y ∧ same x y ∧
    ∀ other, other ≠ key → later.container other = o.container other

/-- The text that was appended is read as the default. -/
def Returned (g : Getter α β) (same : β → β → Prop) (defv : α) : Prop :=
  ∃ x y, g.default defv = some x ∧ g.read (cStr (g.text defv)) = some y ∧ same x y

/-- The lines in front of the appended one do not load, or what becomes of it
there is harmless: it is a comment or the name of a section; it gives a key the
value that it has; it is the key, in no section, and comes back.  The last is
also true of a line that was no entry as long as it was unfinished, where the
file has no other key. -/
def Lands (file key val comment : Bytes) (returned : Prop) : Prop :=
  match readLines (settled file comment) with
  | none => True
  | some r =>
      match kind (stub file comment ++ (cStr key ++ 61 :: cStr val)) with
      | .entry k v =>
          (kind (stub file comment) = .blank ∧ r.m (r.key k) = some v) ∨
          (r.key k = key ∧ returned ∧ (kind (stub file comment) = .blank ∨
            (kind (stub file comment) = .wrong ∧ ∀ other, other ≠ key → r.m other = none)))
      | _ => True

variable {g : Getter α β} {same : β → β → Prop} {o : ConfigObj} {file key comment : Bytes}
  {defv : α}

/-- What has to be shown of the maps that the two processes load. -/
theorem stable_iff_maps (hSame : ∀ x, same x x)
    (hLoaded : ConfigObj.load o.prefixes file = some o) (hNew : o.container key = none) :
    Stable g same o key defv comment ↔
      (file ++ appended key (g.text defv) comment).length < 2 ^ 32 ∧ (g.default defv).isSome ∧
      (∀ other, other ≠ key →
        (loadStringMapFromFile (file ++ appended key (g.text defv) comment)).getD .empty other =
          o.container other) ∧
      ∀ t, (loadStringMapFromFile (file ++ appended key (g.text defv) comment)).getD .empty key =
        some t → ∃ x y, g.default defv = some x ∧ g.read t = some y ∧ same x y := by
  have hFile : o.file = file := by
    rw [ConfigObj.load] at hLoaded
    split at hLoaded
    · rw [← Option.some.inj hLoaded]
    · cases hLoaded
  have hFirst : g.get o key defv comment =
      (g.default defv, { o with file := file ++ appended key (g.text defv) comment }) := by
    simp only [Getter.get, hNew, hFile]
  simp only [Stable, hFirst]
  generalize file ++ appended key (g.text defv) comment = after
  by_cases hSize : after.length < 2 ^ 32
  swap
  · refine iff_of_false ?_ fun h => hSize h.1
    rintro ⟨x, y, later, -, hLoad, -⟩
    rw [ConfigObj.load, if_neg hSize] at hLoad
    cases hLoad
  have hLoad : ConfigObj.load o.prefixes after =
      some ⟨(loadStringMapFromFile after).getD .empty, o.prefixes, after⟩ := if_pos hSize
  constructor
  · rintro ⟨x, y, later, hDefault, hLater, hGet, hxy, hOthers⟩
    obtain rfl := Option.some.inj (hLoad.symm.trans hLater)
    refine ⟨hSize, by rw [hDefault]; rfl, hOthers, fun t ht => ⟨x, y, hDefault, ?_, hxy⟩⟩
    simpa only [Getter.get, ht] using hGet
  · rintro ⟨-, hDefault, hOthers, hRead⟩
    obtain ⟨x, hx⟩ := Option.isSome_iff_exists.1 hDefault
    cases hFound : (loadStringMapFromFile after).getD .empty key with
    | none =>
        refine ⟨x, x, _, hx, hLoad, ?_, hSame x, hOthers⟩
        simp only [Getter.get, hFound, hx]
    | some t =>
        obtain ⟨x', y, hx', hy, hxy⟩ := hRead t hFound
        refine ⟨x', y, _, hx', hLoad, ?_, hxy, hOthers⟩
        simp only [Getter.get, hFound, hy]

theorem set_eq (m : StringMap) (k v : Bytes) : m.set k v k = some v := if_pos rfl

theorem set_of_ne (m : StringMap) {k other : Bytes} (v : Bytes) (h : other ≠ k) :
    m.set k v other = m other :=
  if_neg h

/-- Setting a key leaves all but `key` alone where it is `key`, or has the value
already. -/
theorem set_kept_iff {m : StringMap} {k v : Bytes} {A : Bytes → Prop} (hNew : m key = none) :
    ((∀ other, other ≠ key → m.set k v other = m other) ∧
      ∀ t, m.set k v key = some t → A t) ↔ m k = some v ∨ k = key ∧ A v := by
  by_cases hk : k = key
  · subst hk
    constructor
    · exact fun h => Or.inr ⟨rfl, h.2 v (set_eq m k v)⟩
    · rintro (hOld | ⟨-, hA⟩)
      · rw [hNew] at hOld
        cases hOld
      · refine ⟨fun other hOther => set_of_ne m v hOther, fun t ht => ?_⟩
        rw [set_eq] at ht
        rwa [← Option.some.inj ht]
  · constructor
    · intro h
      have hSame := h.1 k hk
      rw [set_eq] at hSame
      exact Or.inl hSame.symm
    · rintro (hOld | ⟨hEq, -⟩)
      · refine ⟨fun other _ => ?_, fun t ht => ?_⟩
        · by_cases hOther : other = k
          · rw [hOther, set_eq, hOld]
          · exact set_of_ne m v hOther
        · rw [set_of_ne m v (Ne.symm hk), hNew] at ht
          cases ht
      · exact absurd hEq hk

/-- **Where an appended line lands**, in the two maps. -/
theorem lands_iff_maps {val : Bytes} {A : Bytes → Prop} (hEquals : 61 ∉ key)
    (hKey : Unbroken key) (hVal : Unbroken val) (hComment : Unbroken comment)
    (hNew : (loadStringMapFromFile file).getD .empty key = none) :
    ((∀ other, other ≠ key →
        (loadStringMapFromFile (file ++ appended key val comment)).getD .empty other =
          (loadStringMapFromFile file).getD .empty other) ∧
      ∀ t, (loadStringMapFromFile (file ++ appended key val comment)).getD .empty key = some t →
        A t) ↔ Lands file key val comment (A (cStr val)) := by
  have hFree : 61 ∉ cStr key := fun hMem => hEquals (cStr_subset _ hMem)
  simp only [loadStringMapFromFile, reading_before file comment,
    reading_after hKey hVal hComment] at hNew ⊢
  simp only [Lands]
  generalize readLines (settled file comment) = lines at hNew ⊢
  cases lines with
  | none => exact iff_of_true ⟨fun _ _ => rfl, fun t ht => by cases ht⟩ trivial
  | some r =>
      simp only [Option.bind_some, kind_append hFree] at hNew ⊢
      -- where the line adds nothing, the map is the one that was loaded
      have hKept : r.m key = none → (∀ other, other ≠ key → r.m other = r.m other) ∧
          ∀ t, r.m key = some t → A t := by
        refine fun hMap => ⟨fun _ _ => rfl, fun t ht => ?_⟩
        rw [hMap] at ht
        cases ht
      generalize kind (stub file comment) = before at hNew ⊢
      cases before with
      | blank =>
          rcases kind_entry_cases (v := cStr val) hFree with hKind | ⟨name, hKind⟩ | hKind
          · simp only [hKind]
            exact iff_of_true (hKept hNew) trivial
          · simp only [hKind]
            exact iff_of_true (hKept hNew) trivial
          · simp only [hKind, true_and, true_or, and_true]
            exact set_kept_iff hNew
      | comment => exact iff_of_true (hKept hNew) trivial
      | header name => exact iff_of_true (hKept hNew) trivial
      | entry k v =>
          -- the value of another key grows
          have hOther : r.key k ≠ key := by
            rintro rfl
            have hSet : r.m.set (r.key k) v (r.key k) = none := hNew
            rw [set_eq] at hSet
            cases hSet
          refine iff_of_false (fun h => ?_) ?_
          · have hGrown : r.m.set (r.key k) (v ++ (cStr key ++ 61 :: cStr val)) (r.key k) =
                r.m.set (r.key k) v (r.key k) := h.1 _ hOther
            rw [set_eq, set_eq, Option.some.injEq] at hGrown
            have hLength := congrArg List.length hGrown
            simp only [List.length_append, List.length_cons] at hLength
            omega
          · simp
      | wrong =>
          -- nothing of the file was loaded
          simp only [reduceCtorEq, false_and, false_or, true_and]
          simp only [Kind.apply, Option.map_some, Option.map_none, Option.getD_some,
            Option.getD_none, StringMap.empty]
          generalize r.key ((stub file comment).dropWhile isSpace ++ cStr key) = k
          constructor
          · rintro ⟨hOthers, hRead⟩
            have hk : k = key := by
              by_contra hNot
              have hNone := hOthers k hNot
              rw [set_eq] at hNone
              cases hNone
            subst hk
            refine ⟨rfl, hRead _ (set_eq r.m k _), fun other hOther => ?_⟩
            rw [← hOthers other hOther, set_of_ne r.m _ hOther]
          · rintro ⟨rfl, hA, hAlone⟩
            refine ⟨fun other hOther => ?_, fun t ht => ?_⟩
            · rw [set_of_ne r.m _ hOther, hAlone other hOther]
            · rw [set_eq] at ht
              rwa [← Option.some.inj ht]

/-- **When a default is stable**, for any getter. -/
theorem stable_iff (hSame : ∀ x, same x x) (hLoaded : ConfigObj.load o.prefixes file = some o)
    (hNew : o.container key = none) (hEquals : 61 ∉ key) (hKey : Unbroken key)
    (hVal : Unbroken (g.text defv)) (hComment : Unbroken comment) :
    Stable g same o key defv comment ↔
      (file ++ appended key (g.text defv) comment).length < 2 ^ 32 ∧ (g.default defv).isSome ∧
      Lands file key (g.text defv) comment (Returned g same defv) := by
  have hMap : (loadStringMapFromFile file).getD .empty = o.container := by
    rw [ConfigObj.load] at hLoaded
    split at hLoaded
    · rw [← Option.some.inj hLoaded]
    · cases hLoaded
  rw [stable_iff_maps hSame hLoaded hNew, ← hMap]
  exact and_congr_right fun _ => and_congr_right fun _ => lands_iff_maps
    (A := fun t => ∃ x y, g.default defv = some x ∧ g.read t = some y ∧ same x y)
    hEquals hKey hVal hComment (by rw [hMap]; exact hNew)

end Stability

/-! ## The six getters -/

section Getters

theorem text_separators : Http.text ",|" = [44, 124] ∧ Http.text ",|;" = [44, 124, 59] := by
  decide +kernel

theorem returned_string (d : Bytes) : Returned .string Eq d ↔ 0 ∉ d := by
  constructor
  · rintro ⟨x, y, hx, hy, hxy⟩ hMem
    have hCut : cStr d = d := Option.some.inj (hy.trans ((congrArg some hxy.symm).trans hx.symm))
    exact zero_notMem_cStr d (hCut.symm ▸ hMem)
  · exact fun hFree => ⟨d, d, rfl, congrArg some (cStr_of_noNul hFree), rfl⟩

/-- The file's list is cut at semicolons as well. -/
theorem returned_stringset {d : Bytes} (hLength : d.length < 2 ^ 32) :
    Returned .stringset Eq d ↔ 0 ∉ d ∧ 59 ∉ d := by
  obtain ⟨hTwo, hThree⟩ := text_separators
  have hDefault : Getter.stringset.default d = some (splitString [44, 124] d).toFinset := by
    rw [← hTwo]
    exact if_pos hLength
  have hRead : Getter.stringset.read (cStr d) =
      some (splitString [44, 124, 59] (cStr d)).toFinset := by
    rw [← hThree]
    exact if_pos ((length_cStr_le d).trans_lt hLength)
  constructor
  · rintro ⟨x, y, hx, hy, hxy⟩
    have hSets : (splitString [44, 124] d).toFinset =
        (splitString [44, 124, 59] (cStr d)).toFinset :=
      Option.some.inj (hDefault.symm.trans (hx.trans ((congrArg some hxy).trans
        (hy.symm.trans hRead))))
    -- a byte of the default is in some piece of the text
    have hPiece : ∀ c ∈ d, c ∉ [44, 124] → c ∈ cStr d ∧ c ∉ [44, 124, 59] := by
      intro c hc hNot
      obtain ⟨p, hp, hcp⟩ := exists_mem_splitString.2 ⟨hc, hNot⟩
      rw [← List.mem_toFinset, hSets, List.mem_toFinset] at hp
      exact exists_mem_splitString.1 ⟨p, hp, hcp⟩
    constructor
    · exact fun hMem => zero_notMem_cStr d (hPiece 0 hMem (by decide)).1
    · exact fun hMem => (hPiece 59 hMem (by decide)).2 (by decide)
  · rintro ⟨hNul, hSemicolon⟩
    refine ⟨_, _, hDefault, hRead, ?_⟩
    rw [cStr_of_noNul hNul, splitString, splitString]
    congr 1
    refine splitFrom_congr [] fun c hc => ?_
    have hNot : c ≠ 59 := by
      rintro rfl
      exact hSemicolon hc
    simp [hNot]

theorem returned_bool (b : Bool) : Returned .bool Eq b := by
  refine ⟨b, b, rfl, ?_, rfl⟩
  cases b <;> decide +kernel

theorem returned_int64 (n : Int64) : Returned .int64 Eq n := by
  refine ⟨n, n, rfl, ?_, rfl⟩
  show some (Int64.ofInt (strtol (cStr (cStr (toText n.toInt))))) = some n
  rw [(plain_toText _).cStr_eq, (plain_toText _).cStr_eq, strtol_toText, Int64.ofInt_toInt]

theorem returned_uint64 (n : UInt64) : Returned .uint64 Eq n ↔ n.toNat < 2 ^ 63 := by
  have hRead : Getter.uint64.read (cStr (Getter.uint64.text n)) =
      some (UInt64.ofNat (min n.toNat 9223372036854775807)) := by
    show some (UInt64.ofInt (strtol (cStr (cStr (toText n.toNat))))) = _
    rw [(plain_toText _).cStr_eq, (plain_toText _).cStr_eq, strtol_toText_nat, UInt64.ofInt]
    congr 2
    omega
  have hMin : (UInt64.ofNat (min n.toNat 9223372036854775807)).toNat =
      min n.toNat 9223372036854775807 :=
    UInt64.toNat_ofNat_of_lt' (Nat.lt_of_le_of_lt (Nat.min_le_right _ _) (by decide))
  constructor
  · rintro ⟨x, y, hx, hy, rfl⟩
    obtain rfl : n = x := Option.some.inj hx
    have hSame := congrArg UInt64.toNat (Option.some.inj (hRead.symm.trans hy))
    omega
  · intro hSmall
    refine ⟨n, n, rfl, hRead.trans (congrArg some (UInt64.toNat_inj.1 ?_)), rfl⟩
    omega

theorem returned_real {Q : ℚ → Prop} (t : Strtod Q) (v : Real Q) :
    Returned (.real t) Real.Close v := by
  refine ⟨v, t.strtod v.toText, rfl, ?_, t.close v⟩
  show some (t.strtod (cStr (cStr v.toText))) = _
  rw [v.plain_toText.cStr_eq, v.plain_toText.cStr_eq]

end Getters

/-- The file with the line can be loaded, and the line lands well. -/
structure Stands (file key val comment : Bytes) (returned : Prop) : Prop where
  length_lt : (file ++ appended key val comment).length < 2 ^ 32
  lands : Lands file key val comment returned

theorem stable_iff_stands {α β : Type} {g : Getter α β} {same : β → β → Prop} {o : ConfigObj}
    {file key comment : Bytes} {defv : α} {returned : Prop} (hSame : ∀ x, same x x)
    (hLoaded : ConfigObj.load o.prefixes file = some o) (hNew : o.container key = none)
    (hEquals : 61 ∉ key) (hKey : Unbroken key) (hVal : Unbroken (g.text defv))
    (hComment : Unbroken comment) (hDefault : (g.default defv).isSome)
    (hReturned : Returned g same defv ↔ returned) :
    Stable g same o key defv comment ↔ Stands file key (g.text defv) comment returned := by
  rw [stable_iff hSame hLoaded hNew hEquals hKey hVal hComment, propext hReturned]
  exact ⟨fun h => ⟨h.1, h.2.2⟩, fun h => ⟨h.length_lt, hDefault, h.lands⟩⟩

/--
**Which defaults are stable.** For a key that the file has not, a string comes
back where it has no NUL, a set of strings where it has no semicolon either, an
unsigned number where it is below `2^63`, and everything else always: if the
file with the line can be loaded and the line lands well in it.
-/
theorem stable_getters_iff {Q : ℚ → Prop} (t : Strtod Q) (o : ConfigObj) (file key comment : Bytes)
    (hLoaded : ConfigObj.load o.prefixes file = some o) (hNew : o.container key = none)
    (hEquals : 61 ∉ key) (hKey : Unbroken key) (hComment : Unbroken comment) :
    (∀ d, Unbroken d →
      (Stable .string Eq o key d comment ↔ Stands file key d comment (0 ∉ d))) ∧
    (∀ d, Unbroken d → (Stable .stringset Eq o key d comment ↔
      d.length < 2 ^ 32 ∧ Stands file key d comment (0 ∉ d ∧ 59 ∉ d))) ∧
    (∀ b, Stable .bool Eq o key b comment ↔
      Stands file key (Getter.bool.text b) comment True) ∧
    (∀ n, Stable .int64 Eq o key n comment ↔
      Stands file key (Getter.int64.text n) comment True) ∧
    (∀ n, Stable .uint64 Eq o key n comment ↔
      Stands file key (Getter.uint64.text n) comment (n.toNat < 2 ^ 63)) ∧
    ∀ v, Stable (.real t) Real.Close o key v comment ↔
      Stands file key v.toText comment True := by
  refine ⟨fun d hd => ?_, fun d hd => ?_, fun b => ?_, fun n => ?_, fun n => ?_, fun v => ?_⟩
  · exact stable_iff_stands (fun _ => rfl) hLoaded hNew hEquals hKey hd hComment rfl
      (returned_string d)
  · rw [stable_iff (fun _ => rfl) hLoaded hNew hEquals hKey hd hComment]
    by_cases hLength : d.length < 2 ^ 32
    · have hDefault : (Getter.stringset.default d).isSome := by
        show (splitSet _ d).isSome
        rw [splitSet, if_pos hLength]
        rfl
      rw [propext (returned_stringset hLength)]
      exact ⟨fun h => ⟨hLength, h.1, h.2.2⟩, fun h => ⟨h.2.length_lt, hDefault, h.2.lands⟩⟩
    · have hDefault : ¬ (Getter.stringset.default d).isSome := by
        show ¬ (splitSet _ d).isSome
        rw [splitSet, if_neg hLength]
        simp
      exact iff_of_false (fun h => hDefault h.2.1) fun h => hLength h.1
  · have hPlain : Unbroken (Getter.bool.text b) := by
      cases b <;> (unfold Unbroken; decide +kernel)
    exact stable_iff_stands (fun _ => rfl) hLoaded hNew hEquals hKey hPlain hComment rfl
      (iff_true_intro (returned_bool b))
  · exact stable_iff_stands (fun _ => rfl) hLoaded hNew hEquals hKey (plain_toText _).unbroken
      hComment rfl (iff_true_intro (returned_int64 n))
  · exact stable_iff_stands (fun _ => rfl) hLoaded hNew hEquals hKey
      (plain_toText n.toNat).unbroken hComment rfl (returned_uint64 n)
  · exact stable_iff_stands Real.Close.refl hLoaded hNew hEquals hKey v.plain_toText.unbroken
      hComment rfl (iff_true_intro (returned_real t v))

/-! ## Small files -/

section Small

/-- The magnitudes 0 and 1. -/
def zeroOne (q : ℚ) : Prop := q = 0 ∨ q = 1

/-- The sign of a text, and which of four texts is behind it. -/
def zeroOneKind (s : Bytes) : Bool × Nat :=
  let negative := s.head? == some 45
  let u := if negative then s.tail else s
  (negative, [decimal 0, decimal 1000000, Http.text "inf"].idxOf u)

/-- `strtod`, of the texts of these numbers. -/
def zeroOneStrtod (s : Bytes) : Real zeroOne :=
  match zeroOneKind s with
  | (negative, 0) => .finite negative ⟨0, Or.inl rfl⟩
  | (negative, 1) => .finite negative ⟨1, Or.inr rfl⟩
  | (negative, 2) => .infinite negative
  | (negative, _) => .nan negative

theorem zeroOneKind_texts (negative : Bool) :
    zeroOneKind (signed negative (decimal 0)) = (negative, 0) ∧
    zeroOneKind (signed negative (decimal 1000000)) = (negative, 1) ∧
    zeroOneKind (signed negative (Http.text "inf")) = (negative, 2) ∧
    zeroOneKind (signed negative (Http.text "nan")) = (negative, 3) := by
  cases negative <;> decide +kernel

/-- Half a millionth around a whole number there is one number of millionths. -/
theorem eq_of_near {k n : Nat} (h : |(n : ℚ) - (k : ℚ) / 1000000| ≤ 1 / 2000000) :
    k = n * 1000000 := by
  rw [abs_le] at h
  have hLow : (k : ℚ) < ((n * 1000000 + 1 : Nat) : ℚ) := by
    push_cast
    linarith [h.1]
  have hHigh : ((n * 1000000 : Nat) : ℚ) < ((k + 1 : Nat) : ℚ) := by
    push_cast
    linarith [h.2]
  have hLow' : k < n * 1000000 + 1 := by exact_mod_cast hLow
  have hHigh' : n * 1000000 < k + 1 := by exact_mod_cast hHigh
  omega

def zeroOnes : Strtod zeroOne where
  strtod := zeroOneStrtod
  nonneg q hq := by
    rcases hq with rfl | rfl
    · exact le_refl 0
    · exact zero_le_one
  nearest negative k q hq hNear := by
    obtain ⟨hZero, hOne, -⟩ := zeroOneKind_texts negative
    rcases hq with rfl | rfl
    · obtain rfl : k = 0 * 1000000 := eq_of_near (n := 0) (by exact_mod_cast hNear)
      exact ⟨⟨0, Or.inl rfl⟩, by rw [zeroOneStrtod, hZero]; rfl, le_refl _⟩
    · obtain rfl : k = 1 * 1000000 := eq_of_near (n := 1) (by exact_mod_cast hNear)
      exact ⟨⟨1, Or.inr rfl⟩, by rw [zeroOneStrtod, hOne]; rfl, le_refl _⟩
  inf negative := by
    rw [zeroOneStrtod, (zeroOneKind_texts negative).2.2.1]
    rfl
  nan negative := ⟨negative, by rw [zeroOneStrtod, (zeroOneKind_texts negative).2.2.2]; rfl⟩

/-- A process that has loaded a file. -/
def loaded (file : Bytes) : ConfigObj := ⟨(loadStringMapFromFile file).getD .empty, [], file⟩

theorem load_loaded (file : Bytes) (h : file.length < 2 ^ 32) :
    ConfigObj.load (loaded file).prefixes file = some (loaded file) :=
  if_pos h

theorem stable_port : Stable .uint64 Eq (loaded []) (Http.text "port") 80 (Http.text "p") := by
  refine ((stable_getters_iff zeroOnes (loaded []) [] (Http.text "port") (Http.text "p") rfl rfl
    (by decide +kernel) (by unfold Unbroken; decide +kernel)
    (by unfold Unbroken; decide +kernel)).2.2.2.2.1 80).2 ⟨by decide +kernel, ?_⟩
  have hLines : readLines (settled [] (Http.text "p")) = some .start := by
    have hSettled : settled [] (Http.text "p") = [] := by decide +kernel
    rw [hSettled]
    rfl
  have hKind : kind (stub [] (Http.text "p") ++ (cStr (Http.text "port") ++
      61 :: cStr (Getter.uint64.text 80))) = .entry (Http.text "port") (Http.text "80") := by
    decide +kernel
  simp only [Lands, hLines, hKind]
  exact Or.inr ⟨rfl, by decide, Or.inl (by decide +kernel)⟩

/-- A line that sets a new key has to set this one. -/
theorem Lands.of_entry {file key val comment k v : Bytes} {returned : Prop} {r : Reading}
    (h : Lands file key val comment returned) (hLines : readLines (settled file comment) = some r)
    (hKind : kind (stub file comment ++ (cStr key ++ 61 :: cStr val)) = .entry k v)
    (hNew : r.m (r.key k) = none) : r.key k = key ∧ returned := by
  simp only [Lands, hLines, hKind, hNew, reduceCtorEq, and_false, false_or] at h
  exact ⟨h.1, h.2.1⟩

/-- A semicolon divides the default on the second start; a number from `2^63` on
shrinks; behind the name of a section the key gets a prefix. -/
theorem not_stable_of_semicolon :
    ¬ Stable .stringset Eq (loaded []) (Http.text "k") (Http.text "a;b") [] ∧
    ¬ Stable .uint64 Eq (loaded []) (Http.text "k") 9223372036854775808 [] ∧
    ¬ Stable .string Eq (loaded (Http.text "%s\n")) (Http.text "k") (Http.text "v") [] ∧
    ¬ ∀ (o : ConfigObj) (file key comment d : Bytes), ConfigObj.load o.prefixes file = some o →
      o.container key = none → 61 ∉ key → Unbroken key → Unbroken comment → Unbroken d →
      Stable .stringset Eq o key d comment := by
  have hNone : readLines (settled [] []) = some .start := by
    have hSettled : settled [] [] = [] := by decide +kernel
    rw [hSettled]
    rfl
  have hEquals : 61 ∉ Http.text "k" := by decide +kernel
  have hKey : Unbroken (Http.text "k") := by unfold Unbroken; decide +kernel
  have hNil : Unbroken [] := fun c hc => absurd hc List.not_mem_nil
  have hList : Unbroken (Http.text "a;b") := by unfold Unbroken; decide +kernel
  have hValue : Unbroken (Http.text "v") := by unfold Unbroken; decide +kernel
  have hSet : ¬ Stable .stringset Eq (loaded []) (Http.text "k") (Http.text "a;b") [] := by
    intro h
    rw [stable_iff (fun _ => rfl) (load_loaded [] (by decide)) rfl hEquals hKey hList hNil] at h
    have hBack := (h.2.2.of_entry hNone (k := Http.text "k") (v := Http.text "a;b")
      (by decide +kernel) rfl).2
    exact ((returned_stringset (by decide +kernel)).1 hBack).2 (by decide +kernel)
  refine ⟨hSet, fun h => ?_, fun h => ?_, fun h =>
    hSet (h _ [] _ _ _ rfl rfl hEquals hKey hNil hList)⟩
  · have hBig : Unbroken (Getter.uint64.text 9223372036854775808) := by
      unfold Unbroken
      decide +kernel
    rw [stable_iff (fun _ => rfl) (load_loaded [] (by decide)) rfl hEquals hKey hBig hNil] at h
    have hBack := (h.2.2.of_entry hNone (k := Http.text "k")
      (v := Http.text "9223372036854775808") (by decide +kernel) rfl).2
    exact absurd ((returned_uint64 _).1 hBack) (by decide +kernel)
  · have hRead : readLines (Http.text "%s\n") = some ⟨.empty, Http.text "s"⟩ := by
      have hPieces : splitString crlf (Http.text "%s\n") = [Http.text "%s"] := by decide +kernel
      have hHeader : kind (Http.text "%s") = .header (Http.text "s") := by decide +kernel
      rw [readLines, hPieces, List.foldlM_cons, parseLine_eq, hHeader]
      rfl
    have hSettled : settled (Http.text "%s\n") [] = Http.text "%s\n" := by decide +kernel
    have hNew : (loaded (Http.text "%s\n")).container (Http.text "k") = none := by
      simp only [loaded, loadStringMapFromFile, hRead]
      rfl
    rw [stable_iff (fun _ => rfl) (load_loaded _ (by decide +kernel)) hNew hEquals hKey hValue
      hNil] at h
    have hPrefix := (h.2.2.of_entry (hSettled.symm ▸ hRead) (k := Http.text "k")
      (v := Http.text "v") (by decide +kernel) rfl).1
    exact absurd hPrefix (by decide +kernel)

end Small

end Megatron.Config
