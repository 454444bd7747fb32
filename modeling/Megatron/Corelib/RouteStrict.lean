import Megatron.Corelib.RouteCodec

/-!
# What `route_t::unpack` lets through

The bytes announce a number of elements, and each element a type.  `Lies` and
`Announced` say what is there to be read, without the loop.  `unpack` has no
case for a type that it does not know and appends to the container that is
there, so it is strict only on an empty route and where all types are known.

## Main results

* `lies_iff` — one pass reads what lies there.
* `unpackLoop_cases` — how the loop ends.
* `strict_iff` — when `route_t::unpack` is strict.
* `unknownType_lost` — a type that is not known is left out silently.
-/

namespace Megatron.Corelib

open Megatron.Lib

namespace Cursor

/-- The content of an element of this type as it lies between two positions;
`none` is a type that is not known, which has none. -/
inductive Content : Int32 → Option Route → Cursor → Cursor → Prop
  | localService {s s' : Cursor} {id : Bytes} :
      getPSTR s = (.ok id, s') → Content 1 (some (.localService id)) s s'
  | remoteAddr {s s' : Cursor} {n : UInt64} :
      getPN s = (.ok n, s') → Content 2 (some (.remoteAddr n.toInt64)) s s'
  | objectHandlerPolled {s s' : Cursor} {addr : Bytes} :
      getPSTR s = (.ok addr, s') → Content 3 (some (.objectHandlerPolled addr)) s s'
  | socketRoute {s s' : Cursor} {n : UInt64} :
      getPN s = (.ok n, s') → Content 4 (some (.socketRoute n.toInt64)) s s'
  | objectHandlerThreaded {s s' : Cursor} {addr : Bytes} :
      getPSTR s = (.ok addr, s') → Content 5 (some (.objectHandlerThreaded addr)) s s'
  | thread {s s' : Cursor} {n : UInt64} :
      getPN s = (.ok n, s') → Content 6 (some (.thread n.toInt64.toInt32)) s s'
  | unknown {s : Cursor} {t : Int32} : t ∉ ([1, 2, 3, 4, 5, 6, 7] : List Int32) → Content t none s s

/-- A type and its content. -/
def Lies (e : Option Route) (s s' : Cursor) : Prop :=
  ∃ t s₁, getPN s = (.ok t, s₁) ∧ Content t.toInt64.toInt32 e s₁ s'

/-- Elements one behind the other. -/
inductive LieIn : List (Option Route) → Cursor → Cursor → Prop
  | nil {s : Cursor} : LieIn [] s s
  | cons {e : Option Route} {es : List (Option Route)} {s s₁ s' : Cursor} :
      Lies e s s₁ → LieIn es s₁ s' → LieIn (e :: es) s s'

/-- A number, and that many elements. -/
def Announced (es : List (Option Route)) (s s' : Cursor) : Prop :=
  ∃ sz s₁, getPN s = (.ok sz, s₁) ∧ sz.toNat = es.length ∧ LieIn es s₁ s'

/-- `unpack` into a route with these elements throws, or the route holds
exactly the announced elements, all of known types; and it makes at most one
pass more than it reads bytes. -/
def Strict (container : RouteT) (s : Cursor) : Prop :=
  ∃ u, unpackRoute container s = u ∧ u.passes + s.outPos.toNat ≤ u.cursor.outPos.toNat + 1 ∧
    match u.result with
    | .error e => e.Exception
    | .ok () => ∃ es, Announced es s u.cursor ∧ u.container.map some = es

/-! ## One element -/

variable {α β : Type} {p : In α} {s s' : Cursor}

/-- Where `p` and then `f` return, both do. -/
theorem bind_eq_ok {f : α → In β} {y : β} (h : (p >>= f) s = (.ok y, s')) :
    ∃ x s₁, p s = (.ok x, s₁) ∧ f x s₁ = (.ok y, s') := by
  cases hRun : p s with
  | mk r s₁ =>
      cases r with
      | error e =>
          rw [bind_error hRun] at h
          cases h
      | ok x =>
          rw [bind_ok hRun] at h
          exact ⟨x, s₁, rfl, h⟩

/-- Where an element is returned, its content is. -/
theorem element_eq_ok {f : α → Route} {e : Option Route}
    (h : (do return some (f (← p)) : In (Option Route)) s = (.ok e, s')) :
    ∃ x, p s = (.ok x, s') ∧ e = some (f x) := by
  obtain ⟨x, s₁, hRun, hPure⟩ := bind_eq_ok h
  obtain ⟨hOk, rfl⟩ := Prod.mk.injEq .. ▸ hPure
  exact ⟨x, hRun, (Except.ok.inj hOk).symm⟩

/-- **One pass** reads what lies there. -/
theorem unpackElement_eq_ok {t : Int32} {e : Option Route} :
    unpackElement t s = (.ok e, s') ↔ Content t e s s' := by
  constructor
  · intro h
    rw [unpackElement] at h
    split at h
    · cases h
    rename_i h7
    split at h
    · rename_i h1
      obtain ⟨id, hRun, rfl⟩ := element_eq_ok h
      exact h1 ▸ .localService hRun
    rename_i h1
    split at h
    · rename_i h6
      obtain ⟨n, hRun, rfl⟩ := element_eq_ok (f := fun n : UInt64 => .thread n.toInt64.toInt32) h
      exact h6 ▸ .thread hRun
    rename_i h6
    split at h
    · rename_i h2
      obtain ⟨n, hRun, rfl⟩ := element_eq_ok (f := fun n : UInt64 => .remoteAddr n.toInt64) h
      exact h2 ▸ .remoteAddr hRun
    rename_i h2
    split at h
    · rename_i h3
      obtain ⟨addr, hRun, rfl⟩ := element_eq_ok h
      exact h3 ▸ .objectHandlerPolled hRun
    rename_i h3
    split at h
    · rename_i h5
      obtain ⟨addr, hRun, rfl⟩ := element_eq_ok h
      exact h5 ▸ .objectHandlerThreaded hRun
    rename_i h5
    split at h
    · rename_i h4
      obtain ⟨n, hRun, rfl⟩ := element_eq_ok (f := fun n : UInt64 => .socketRoute n.toInt64) h
      exact h4 ▸ .socketRoute hRun
    rename_i h4
    obtain ⟨hNone, rfl⟩ := Prod.mk.injEq .. ▸ h
    obtain rfl := Except.ok.inj hNone
    exact .unknown (by simp [h1, h2, h3, h4, h5, h6, h7])
  · intro h
    cases h with
    | unknown hType =>
        simp only [List.mem_cons, List.not_mem_nil, or_false, not_or] at hType
        obtain ⟨h1, h2, h3, h4, h5, h6, h7⟩ := hType
        simp only [unpackElement, h1, h2, h3, h4, h5, h6, h7, if_false]
        rfl
    | localService hRun | objectHandlerPolled hRun | objectHandlerThreaded hRun | remoteAddr hRun
    | socketRoute hRun | thread hRun => exact bind_ok hRun

theorem lies_iff {e : Option Route} : unpackNext s = (.ok e, s') ↔ Lies e s s' := by
  constructor
  · intro h
    obtain ⟨t, s₁, hRun, hElem⟩ := bind_eq_ok h
    exact ⟨t, s₁, hRun, unpackElement_eq_ok.1 hElem⟩
  · rintro ⟨t, s₁, hRun, hContent⟩
    exact (bind_ok hRun).trans (unpackElement_eq_ok.2 hContent)

/-! ## Bytes read -/

/-- `p` inserts nothing into containers. -/
def Still (p : In α) : Prop := ∀ s, (p s).2.inserted = s.inserted

theorem Still.bind {f : α → In β} (hp : Still p) (hf : ∀ x, Still (f x)) : Still (p >>= f) := by
  intro s
  have hFirst := hp s
  cases hRun : p s with
  | mk r s₁ =>
      rw [hRun] at hFirst
      cases r with
      | error e =>
          rw [bind_error hRun]
          exact hFirst
      | ok x =>
          rw [bind_ok hRun]
          exact (hf x s₁).trans hFirst

theorem still_pure (x : α) : Still (pure x) := fun _ => rfl

theorem still_throw (e : Stop) : Still (throw e : In α) := fun _ => rfl

theorem still_get : Still (get : In Cursor) := fun _ => rfl

theorem still_get8 : Still get8 := by
  intro s
  rw [get8]
  split
  · rfl
  · split <;> rfl

theorem still_getPN : Still getPN := by
  have hLoop : ∀ fuel nn, Still (getPNLoop fuel nn) := by
    intro fuel
    induction fuel with
    | zero => exact fun nn => still_throw _
    | succ fuel ih =>
        intro nn
        refine still_get8.bind fun c => ?_
        split
        · exact still_pure _
        · exact ih _
  exact fun s => hLoop _ _ s

theorem still_getPSTR : Still getPSTR := by
  refine still_getPN.bind fun sz => Still.bind (fun s => ?_) fun r => ?_
  · rw [unpackNothrow]
    split
    · rfl
    · split <;> rfl
  · cases r with
    | none => exact still_get.bind fun s => still_throw _
    | some d => exact still_pure d

theorem Still.element (h : Still p) (f : α → Route) :
    Still (do return some (f (← p)) : In (Option Route)) :=
  h.bind fun x => still_pure (some (f x))

theorem still_unpackNext : Still unpackNext := by
  refine still_getPN.bind fun t => ?_
  rw [unpackElement]
  split
  · exact still_throw _
  split
  · exact still_getPSTR.element _
  split
  · exact still_getPN.element fun n => .thread n.toInt64.toInt32
  split
  · exact still_getPN.element fun n => .remoteAddr n.toInt64
  split
  · exact still_getPSTR.element _
  split
  · exact still_getPSTR.element _
  split
  · exact still_getPN.element fun n => .socketRoute n.toInt64
  · exact still_pure none

theorem safe_unpackNext : Safe 1 unpackNext := by
  refine Safe.bind (m := 1) (n := 0) safe_getPN fun t => ?_
  have hString : ∀ f : Bytes → Route, Safe 0 (do return some (f (← getPSTR)) : In (Option Route)) :=
    fun f => (safe_getPSTR.map fun x => some (f x)).mono (by decide)
  have hNumber : ∀ f : UInt64 → Route, Safe 0 (do return some (f (← getPN)) : In (Option Route)) :=
    fun f => (safe_getPN.map fun x => some (f x)).mono (by decide)
  rw [unpackElement]
  split
  · exact safe_throw trivial
  split
  · exact hString _
  split
  · exact hNumber fun n => .thread n.toInt64.toInt32
  split
  · exact hNumber fun n => .remoteAddr n.toInt64
  split
  · exact hString _
  split
  · exact hString _
  split
  · exact hNumber fun n => .socketRoute n.toInt64
  · exact safe_pure none

/-- A safe reader that inserts nothing takes its bytes. -/
theorem Safe.taken {m : Int} {x : α} (h : Safe m p) (hStill : Still p) (hs : s.Valid)
    (hRun : p s = (.ok x, s')) : (s.outPos.toNat : Int) + m ≤ s'.outPos.toNat := by
  obtain ⟨r, s₁, hRun', -, hr⟩ := h s hs
  have hSame := hStill s
  rw [hRun] at hRun' hSame
  obtain ⟨rfl, rfl⟩ := Prod.mk.injEq .. ▸ hRun'
  simp only at hr hSame
  omega

/-! ## The loop -/

theorem LieIn.unique {es es' : List (Option Route)} {s₁ s₂ : Cursor} (h : LieIn es s s₁)
    (h' : LieIn es' s s₂) (hLen : es.length = es'.length) : es = es' ∧ s₁ = s₂ := by
  induction h generalizing es' with
  | nil =>
      cases h' with
      | nil => exact ⟨rfl, rfl⟩
      | cons _ _ => cases hLen
  | cons hHead _ ih =>
      cases h' with
      | nil => cases hLen
      | cons hHead' hTail' =>
          have hSame := (lies_iff.2 hHead).symm.trans (lies_iff.2 hHead')
          obtain ⟨hElem, rfl⟩ := Prod.mk.injEq .. ▸ hSame
          obtain rfl := Except.ok.inj hElem
          obtain ⟨rfl, rfl⟩ := ih hTail' (Nat.succ.inj hLen)
          exact ⟨rfl, rfl⟩

/-- **How the loop ends.** It throws where the elements do not lie there, and
otherwise it has appended those of known types.  Every pass but the last has
taken a byte. -/
theorem unpackLoop_cases (n : Nat) :
    ∀ (container : RouteT) (s : Cursor), s.Valid →
      ∃ u, unpackLoop n container s = u ∧
        u.passes + s.outPos.toNat ≤ u.cursor.outPos.toNat + 1 ∧
        ((∃ e, u.result = .error e ∧ e.Exception ∧ ∀ es s', LieIn es s s' → es.length ≠ n) ∨
          u.result = .ok () ∧ ∃ es, es.length = n ∧ LieIn es s u.cursor ∧
            u.container = container ++ es.flatMap Option.toList) := by
  induction n with
  | zero =>
      intro container s _
      exact ⟨_, rfl, by simp [unpackLoop], Or.inr ⟨rfl, [], rfl, .nil, (List.append_nil _).symm⟩⟩
  | succ n ih =>
      intro container s hs
      obtain ⟨r, s₁, hRun, hKept, hr⟩ := safe_unpackNext s hs
      cases r with
      | error e =>
          refine ⟨⟨.error e, container, 1, s₁⟩, by rw [unpackLoop, hRun], ?_, Or.inl ⟨e, rfl, hr, ?_⟩⟩
          · have := hKept.outPos_le
            simp only
            omega
          · rintro _ s' (_ | ⟨hHead, -⟩) hLen
            · cases hLen
            · rw [lies_iff.2 hHead] at hRun
              cases hRun
      | ok e =>
          have hTaken := safe_unpackNext.taken still_unpackNext hs hRun
          obtain ⟨u, hLoop, hPasses, hEnd⟩ := ih (container ++ e.toList) s₁ hKept.valid
          refine ⟨{ u with passes := u.passes + 1 }, by rw [unpackLoop, hRun]; simp only [hLoop], ?_, ?_⟩
          · simp only
            omega
          · rcases hEnd with ⟨err, hErr, hExc, hNone⟩ | ⟨hOk, es, hLen, hLies, hAll⟩
            · refine Or.inl ⟨err, hErr, hExc, ?_⟩
              rintro _ s' (_ | ⟨hHead, hTail⟩) hLen
              · cases hLen
              · rw [lies_iff.2 hHead] at hRun
                obtain ⟨-, rfl⟩ := Prod.mk.injEq .. ▸ hRun
                exact hNone _ s' hTail (Nat.succ.inj hLen)
            · refine Or.inr ⟨hOk, e :: es, congrArg Nat.succ hLen, .cons (lies_iff.1 hRun) hLies, ?_⟩
              rw [List.flatMap_cons, ← List.append_assoc]
              exact hAll

/-- How `route_t::unpack` ends. -/
theorem unpackRoute_cases (container : RouteT) (hs : s.Valid) :
    ∃ u, unpackRoute container s = u ∧
      u.passes + s.outPos.toNat ≤ u.cursor.outPos.toNat + 1 ∧
      ((∃ e, u.result = .error e ∧ e.Exception ∧ ∀ es s', ¬ Announced es s s') ∨
        u.result = .ok () ∧ ∃ es, Announced es s u.cursor ∧
          u.container = container ++ es.flatMap Option.toList) := by
  obtain ⟨r, s₁, hRun, hKept, hr⟩ := safe_getPN s hs
  cases r with
  | error e =>
      refine ⟨⟨.error e, container, 0, s₁⟩, by rw [unpackRoute, hRun], ?_, Or.inl ⟨e, rfl, hr, ?_⟩⟩
      · have := hKept.outPos_le
        simp only
        omega
      · rintro es s' ⟨sz, s₂, hRun', -⟩
        rw [hRun] at hRun'
        cases hRun'
  | ok sz =>
      obtain ⟨u, hLoop, hPasses, hEnd⟩ := unpackLoop_cases sz.toNat container s₁ hKept.valid
      have hPos := hKept.outPos_le
      refine ⟨u, by rw [unpackRoute, hRun]; exact hLoop, by omega, ?_⟩
      rcases hEnd with ⟨e, hErr, hExc, hNone⟩ | ⟨hOk, es, hLen, hLies, hAll⟩
      · refine Or.inl ⟨e, hErr, hExc, ?_⟩
        rintro es s' ⟨sz', s₂, hRun', hLen, hLies⟩
        rw [hRun] at hRun'
        obtain ⟨hSz, rfl⟩ := Prod.mk.injEq .. ▸ hRun'
        obtain rfl := Except.ok.inj hSz
        exact hNone es s' hLies hLen.symm
      · exact Or.inr ⟨hOk, es, ⟨sz, s₁, hRun, hLen.symm, hLies⟩, hAll⟩

theorem Announced.unique {es es' : List (Option Route)} {s₁ s₂ : Cursor} (h : Announced es s s₁)
    (h' : Announced es' s s₂) : es = es' := by
  obtain ⟨sz, t, hRun, hLen, hLies⟩ := h
  obtain ⟨sz', t', hRun', hLen', hLies'⟩ := h'
  rw [hRun] at hRun'
  obtain ⟨hSz, rfl⟩ := Prod.mk.injEq .. ▸ hRun'
  obtain rfl := Except.ok.inj hSz
  exact (hLies.unique hLies' (hLen.symm.trans hLen')).1

/-- What was appended is all there was, where no element was left out. -/
theorem map_some_eq_iff {container : RouteT} {es : List (Option Route)} :
    (container ++ es.flatMap Option.toList).map some = es ↔ container = [] ∧ none ∉ es := by
  have hAll : ∀ es : List (Option Route), none ∉ es →
      (es.flatMap Option.toList).map some = es := by
    intro es h
    induction es with
    | nil => rfl
    | cons e es ih =>
        rw [List.mem_cons, not_or] at h
        cases e with
        | none => exact absurd rfl h.1
        | some r => simpa using ih h.2
  constructor
  · intro h
    have hNone : none ∉ es := by
      rw [← h]
      simp
    have hLen := congrArg List.length h
    have hSame := congrArg List.length (hAll es hNone)
    rw [List.length_map] at hSame
    rw [List.length_map, List.length_append] at hLen
    exact ⟨List.eq_nil_of_length_eq_zero (by omega), hNone⟩
  · rintro ⟨rfl, hNone⟩
    exact hAll es hNone

/-- **When `route_t::unpack` is strict**: where all the announced elements are
there, the target has to be empty and their types have to be known. -/
theorem strict_iff (container : RouteT) (hs : s.Valid) :
    Strict container s ↔ ∀ es s', Announced es s s' → container = [] ∧ none ∉ es := by
  obtain ⟨u, hRun, hPasses, hEnd⟩ := unpackRoute_cases container hs
  constructor
  · rintro ⟨_, rfl, -, hStrict⟩ es s' hThere
    rw [hRun] at hStrict
    rcases hEnd with ⟨e, -, -, hNone⟩ | ⟨hOk, es', hThere', hAll⟩
    · exact absurd hThere (hNone es s')
    · rw [hOk] at hStrict
      obtain ⟨es'', hThere'', hSame⟩ := hStrict
      obtain rfl := hThere'.unique hThere''
      obtain rfl := hThere'.unique hThere
      rw [hAll] at hSame
      exact map_some_eq_iff.1 hSame
  · intro hOnly
    refine ⟨u, hRun, hPasses, ?_⟩
    rcases hEnd with ⟨e, hErr, hExc, -⟩ | ⟨hOk, es, hThere, hAll⟩
    · rw [hErr]
      exact hExc
    · rw [hOk]
      exact ⟨es, hThere, by rw [hAll]; exact map_some_eq_iff.2 (hOnly es _ hThere)⟩

/-- A reader at the front of `d`. -/
def ofBytes (d : Bytes) : Cursor := ⟨d, UInt64.ofNat d.length, 0, 0, 0⟩

/-- A route of one thread. -/
theorem strict_thread : Strict [] (ofBytes [1, 6, 9]) ↔
    ∀ es s', Announced es (ofBytes [1, 6, 9]) s' → ([] : RouteT) = [] ∧ none ∉ es :=
  strict_iff [] ⟨by decide, by decide, by decide⟩

/-- **An element of type 9** is left out silently, and the old elements of the
target stay. -/
theorem unknownType_lost :
    unpackRoute [] (ofBytes [1, 9]) = ⟨.ok (), [], 1, { ofBytes [1, 9] with outPos := 2 }⟩ ∧
      unpackRoute [.thread 5] (ofBytes [0]) =
        ⟨.ok (), [.thread 5], 0, { ofBytes [0] with outPos := 1 }⟩ ∧
      ¬ (∀ s : Cursor, s.Valid → Strict [] s) ∧
      ¬ ∀ container : RouteT, Strict container (ofBytes [0]) := by
  have hSkip : unpackRoute [] (ofBytes [1, 9]) =
      ⟨.ok (), [], 1, { ofBytes [1, 9] with outPos := 2 }⟩ := by decide
  have hOld : unpackRoute [.thread 5] (ofBytes [0]) =
      ⟨.ok (), [.thread 5], 0, { ofBytes [0] with outPos := 1 }⟩ := by decide
  refine ⟨hSkip, hOld, fun hAll => ?_, fun hAll => ?_⟩
  · obtain ⟨_, rfl, -, hStrict⟩ := hAll (ofBytes [1, 9]) ⟨by decide, by decide, by decide⟩
    rw [hSkip] at hStrict
    obtain ⟨_, ⟨sz, s₁, hRun, hLen, -⟩, rfl⟩ := hStrict
    have hOne : getPN (ofBytes [1, 9]) = (.ok 1, { ofBytes [1, 9] with outPos := 1 }) := rfl
    rw [hOne] at hRun
    obtain ⟨hSz, -⟩ := Prod.mk.injEq .. ▸ hRun
    obtain rfl := Except.ok.inj hSz
    exact absurd hLen (by decide)
  · obtain ⟨_, rfl, -, hStrict⟩ := hAll [.thread 5]
    rw [hOld] at hStrict
    obtain ⟨_, ⟨sz, s₁, hRun, hLen, -⟩, rfl⟩ := hStrict
    have hZero : getPN (ofBytes [0]) = (.ok 0, { ofBytes [0] with outPos := 1 }) := rfl
    rw [hZero] at hRun
    obtain ⟨hSz, -⟩ := Prod.mk.injEq .. ▸ hRun
    obtain rfl := Except.ok.inj hSz
    exact absurd hLen (by decide)

end Cursor

end Megatron.Corelib
