import Megatron.Corelib.Refbuffer
import Megatron.Lib.Machine

/-!
# `inBuffer`, member by member

`InBuffer` carries the bound on its position as a field.  A `Cursor` is the
same object as the source lays it out: three members, a `size_t` position
whose sums wrap, and an array that nothing protects.  A read outside the array
stops the program (`Stop.outside`), and so does a loop that is still running
after as many rounds as the array has bytes (`Stop.running`); an exception
leaves the position where it was thrown.

`made` and `inserted` count what the program does besides reading: the
refbuffers it makes and the elements it puts into containers.

`Safe m p` says of a reader that it keeps the position inside the array, does
not index outside it, comes to an end, and takes at least `m` bytes more than
it inserts elements.  `Refines p q` says that it does what the reader `q` over
`InBuffer` does.

## Main results

* `Safe.bind`, `Refines.bind` — both compose along `do` blocks.
* `safe_getPN`, `safe_getPSTR`, ... — the primitive readers are safe.
* `getPNNothrow_eq`, `getPSTRNothrow_eq` — the two forms of a reader agree.
* `refines_getPN`, `refines_getPSTR` — the readers over `InBuffer` are these.
-/

namespace Megatron.Corelib

open Megatron.Lib

structure Cursor where
  mData : Bytes
  mSize : UInt64
  outPos : UInt64
  made : Nat
  inserted : Nat
  deriving DecidableEq, Repr

/-- Why a reader has not returned: the two kinds of exception, an index
outside the array, a loop that has not ended. -/
inductive Stop
  | thrown (e : CommonError)
  | badAlloc
  | outside
  | running
  deriving DecidableEq, Repr

/-- A way to stop that a caller can catch. -/
def Stop.Exception : Stop → Prop
  | thrown _ | badAlloc => True
  | outside | running => False

/-- A reader; the cursor outlives its exceptions. -/
abbrev In := ExceptT Stop (StateM Cursor)

namespace Cursor

/-- `inBuffer::inBuffer` over the bytes of an object. -/
def ofObject (d : Object) : Cursor := ⟨d.val, d.size, 0, 0, 0⟩

/-- `inBuffer::remains`. -/
def remains (s : Cursor) : UInt64 := s.mSize - s.outPos

/-- `inBuffer::beforeEnd`. -/
def beforeEnd (s : Cursor) : Prop := s.outPos < s.mSize

instance (s : Cursor) : Decidable s.beforeEnd := inferInstanceAs (Decidable (_ < _))

/-- The `n` bytes from the position on. -/
def peek (s : Cursor) (n : UInt64) : Option Bytes :=
  if s.outPos.toNat + n.toNat ≤ s.mData.length then
    some ((s.mData.drop s.outPos.toNat).take n.toNat)
  else none

/-- `inBuffer::get_8`. -/
def get8 : In UInt8 := fun s =>
  if s.outPos + 1 > s.mSize then (.error (.thrown ⟨"inBuffer::get_8: noenough "⟩), s)
  else match s.mData[s.outPos.toNat]? with
    | some c => (.ok c, { s with outPos := s.outPos + 1 })
    | none => (.error .outside, s)

/-- `inBuffer::get_8_nothrow`; `none` is `success = false`. -/
def get8Nothrow : In (Option UInt8) := fun s =>
  if s.outPos + 1 > s.mSize then (.ok none, s)
  else match s.mData[s.outPos.toNat]? with
    | some c => (.ok (some c), { s with outPos := s.outPos + 1 })
    | none => (.error .outside, s)

/-- The loop of `get_PN`. -/
def getPNLoop : Nat → UInt64 → In UInt64
  | 0, _ => throw .running
  | fuel + 1, nn => do
      let c ← get8
      if c < 0x80 then return nn <<< 7 ||| c.toUInt64
      else getPNLoop fuel (nn <<< 7 ||| (c &&& 0x7F).toUInt64)

/-- `inBuffer::get_PN`, watched for one round more than there are bytes. -/
def getPN : In UInt64 := fun s => getPNLoop (s.mSize.toNat + 1) 0 s

/-- The loop of `get_PN_nothrow`. -/
def getPNNothrowLoop : Nat → UInt64 → In (Option UInt64)
  | 0, _ => throw .running
  | fuel + 1, nn => do
      match ← get8Nothrow with
      | none => return none
      | some c =>
          if c < 0x80 then return some (nn <<< 7 ||| c.toUInt64)
          else getPNNothrowLoop fuel (nn <<< 7 ||| (c &&& 0x7F).toUInt64)

/-- `inBuffer::get_PN_nothrow`. -/
def getPNNothrow : In (Option UInt64) := fun s => getPNNothrowLoop (s.mSize.toNat + 1) 0 s

/-- `inBuffer::unpack_nothrow`. -/
def unpackNothrow (size : UInt64) : In (Option Bytes) := fun s =>
  if size > s.mSize - s.outPos then (.ok none, s)
  else match s.peek size with
    | some d => (.ok (some d), { s with outPos := s.outPos + size })
    | none => (.error .outside, s)

/-- `inBuffer::unpack(std::string&, int64_t)`; the size becomes a `size_t`
again. -/
def unpack (size : Int64) : In Bytes := do
  match ← unpackNothrow size.toUInt64 with
  | some s => return s
  | none => throw (.thrown (tooSmall size.toUInt64 (← get).remains))

/-- `inBuffer::unpack(uint8_t*, size_t)`: the bytes copied. -/
def unpackInto (sz : UInt64) : In Bytes := fun s =>
  if sz > s.mSize - s.outPos then (.error (.thrown notEnough), s)
  else match s.peek sz with
    | some d => (.ok d, { s with outPos := s.outPos + sz })
    | none => (.error .outside, s)

/-- `inBuffer::unpackRest`. -/
def unpackRest : In Bytes := fun s => unpack s.remains.toInt64 s

/-- `inBuffer::get_PSTR`. -/
def getPSTR : In Bytes := do
  let sz ← getPN
  unpack sz.toInt64

/-- The loop of `get_PSTR_nothrow`, with `sz - i` rounds to go. -/
def getPSTRLoop : Nat → Bytes → In (Option Bytes)
  | 0, container => return some container
  | n + 1, container => do
      if (← get).beforeEnd then
        match ← get8Nothrow with
        | none => return none
        | some c => getPSTRLoop n (container ++ [c])
      else return some container

/-- `inBuffer::get_PSTR_nothrow`. -/
def getPSTRNothrow : In (Option Bytes) := do
  match ← getPNNothrow with
  | none => return none
  | some sz =>
      if (← get).remains < sz then return none
      else getPSTRLoop sz.toNat []

/-! ## Safe readers -/

/-- The members belong to one array, of a size that leaves room for the
position after its end. -/
structure Valid (s : Cursor) : Prop where
  mSize_eq : s.mSize.toNat = s.mData.length
  mSize_lt : s.mData.length < 2 ^ 63
  outPos_le : s.outPos.toNat ≤ s.mSize.toNat

theorem valid_ofObject (d : Object) : (ofObject d).Valid :=
  ⟨d.toNat_size, d.property, Nat.zero_le _⟩

/-- What a safe reader leaves behind, whether it returns or throws. -/
structure Kept (s s' : Cursor) : Prop where
  valid : s'.Valid
  mData_eq : s'.mData = s.mData
  outPos_le : s.outPos.toNat ≤ s'.outPos.toNat
  made_le : s.made ≤ s'.made

theorem Kept.refl {s : Cursor} (h : s.Valid) : Kept s s :=
  ⟨h, rfl, Nat.le_refl _, Nat.le_refl _⟩

theorem Kept.trans {s₁ s₂ s₃ : Cursor} (h : Kept s₁ s₂) (h' : Kept s₂ s₃) : Kept s₁ s₃ :=
  ⟨h'.valid, h'.mData_eq.trans h.mData_eq, h.outPos_le.trans h'.outPos_le,
    h.made_le.trans h'.made_le⟩

/-- Where `p` ends from `s`: inside the array and, where it returns, with `m`
bytes more taken than elements inserted. -/
def Ends {α : Type} (m : Int) (p : In α) (s : Cursor) : Prop :=
  ∃ r s', p s = (r, s') ∧ Kept s s' ∧
    match r with
    | .ok _ => (s'.inserted : Int) + s.outPos.toNat + m ≤ s.inserted + s'.outPos.toNat
    | .error e => e.Exception

/-- A reader that ends well wherever it starts. -/
def Safe {α : Type} (m : Int) (p : In α) : Prop := ∀ s : Cursor, s.Valid → Ends m p s

variable {α β : Type} {m n : Int} {p : In α} {f : α → In β} {s : Cursor}

theorem bind_ok {x : α} {s' : Cursor} (h : p s = (.ok x, s')) : (p >>= f) s = f x s' := by
  show (ExceptT.bindCont f (p s).1) (p s).2 = _
  rw [h]
  rfl

theorem bind_error {e : Stop} {s' : Cursor} (h : p s = (.error e, s')) :
    (p >>= f) s = (.error e, s') := by
  show (ExceptT.bindCont f (p s).1) (p s).2 = _
  rw [h]
  rfl

theorem Ends.bind (hp : Ends m p s)
    (hf : ∀ x s', p s = (.ok x, s') → s'.Valid → Ends n (f x) s') : Ends (m + n) (p >>= f) s := by
  obtain ⟨r, s', hRun, hKept, hr⟩ := hp
  cases r with
  | error e => exact ⟨.error e, s', bind_error hRun, hKept, hr⟩
  | ok x =>
      obtain ⟨r₂, s₂, hRun₂, hKept₂, hr₂⟩ := hf x s' hRun hKept.valid
      refine ⟨r₂, s₂, (bind_ok hRun).trans hRun₂, hKept.trans hKept₂, ?_⟩
      cases r₂ with
      | error e => exact hr₂
      | ok y =>
          simp only at hr hr₂ ⊢
          omega

theorem Safe.bind (hp : Safe m p) (hf : ∀ x, Safe n (f x)) : Safe (m + n) (p >>= f) :=
  fun s hs => (hp s hs).bind fun x s' _ hs' => hf x s' hs'

theorem safe_pure (x : α) : Safe 0 (pure x) := fun s hs =>
  ⟨.ok x, s, rfl, Kept.refl hs, (Int.add_zero _).le⟩

theorem safe_throw {e : Stop} (he : e.Exception) : Safe m (throw e : In α) := fun s hs =>
  ⟨.error e, s, rfl, Kept.refl hs, he⟩

theorem safe_get : Safe 0 (get : In Cursor) := fun s hs =>
  ⟨.ok s, s, rfl, Kept.refl hs, (Int.add_zero _).le⟩

theorem Safe.map (hp : Safe m p) (g : α → β) : Safe m (do return g (← p)) :=
  Int.add_zero m ▸ hp.bind fun x => safe_pure (g x)

theorem Safe.mono (hp : Safe m p) (h : n ≤ m) : Safe n p := by
  intro s hs
  obtain ⟨r, s', hRun, hKept, hr⟩ := hp s hs
  refine ⟨r, s', hRun, hKept, ?_⟩
  cases r with
  | error e => exact hr
  | ok x =>
      simp only at hr ⊢
      omega

/-! ### The primitive readers -/

/-- A position inside the array can be advanced by what is left of it. -/
theorem Valid.advance (hs : s.Valid) {n : UInt64} (hn : n ≤ s.mSize - s.outPos) :
    (s.outPos + n).toNat = s.outPos.toNat + n.toNat ∧
      s.outPos.toNat + n.toNat ≤ s.mData.length ∧
      Kept s { s with outPos := s.outPos + n } := by
  have hSize := hs.mSize_eq
  have hLt := hs.mSize_lt
  have hPos := hs.outPos_le
  have hLeft : (s.mSize - s.outPos).toNat = s.mSize.toNat - s.outPos.toNat :=
    UInt64.toNat_sub_of_le _ _ (UInt64.le_iff_toNat_le.2 hPos)
  have hn' := UInt64.le_iff_toNat_le.1 hn
  rw [hLeft] at hn'
  have hSum : (s.outPos + n).toNat = s.outPos.toNat + n.toNat := by
    rw [UInt64.toNat_add]
    omega
  refine ⟨hSum, by omega, ⟨hSize, hLt, ?_⟩, rfl, ?_, Nat.le_refl _⟩
  · show (s.outPos + n).toNat ≤ s.mSize.toNat
    omega
  · show s.outPos.toNat ≤ (s.outPos + n).toNat
    omega

/-- `out_pos + 1 > m_size` holds exactly at the end. -/
theorem Valid.at_end (hs : s.Valid) :
    s.outPos + 1 > s.mSize ↔ s.outPos.toNat = s.mData.length := by
  have hSize := hs.mSize_eq
  have hLt := hs.mSize_lt
  have hPos := hs.outPos_le
  rw [gt_iff_lt, UInt64.lt_iff_toNat_lt, UInt64.toNat_add, show (1 : UInt64).toNat = 1 from rfl]
  omega

/-- The two outcomes of reading one byte. -/
theorem get8_cases (hs : s.Valid) :
    (s.outPos.toNat = s.mData.length ∧
      get8 s = (.error (.thrown ⟨"inBuffer::get_8: noenough "⟩), s) ∧
      get8Nothrow s = (.ok none, s)) ∨
    ∃ c, s.mData[s.outPos.toNat]? = some c ∧
      get8 s = (.ok c, { s with outPos := s.outPos + 1 }) ∧
      get8Nothrow s = (.ok (some c), { s with outPos := s.outPos + 1 }) ∧
      (s.outPos + 1).toNat = s.outPos.toNat + 1 ∧ Kept s { s with outPos := s.outPos + 1 } := by
  have hSize := hs.mSize_eq
  have hPos := hs.outPos_le
  by_cases hEnd : s.outPos.toNat = s.mData.length
  · have hTest := hs.at_end.2 hEnd
    exact Or.inl ⟨hEnd, by rw [get8, if_pos hTest], by rw [get8Nothrow, if_pos hTest]⟩
  · have hTest := mt hs.at_end.1 hEnd
    have hIn : s.outPos.toNat < s.mData.length := by omega
    have hOne : (1 : UInt64) ≤ s.mSize - s.outPos := by
      rw [UInt64.le_iff_toNat_le, UInt64.toNat_sub_of_le _ _ (UInt64.le_iff_toNat_le.2 hPos),
        show (1 : UInt64).toNat = 1 from rfl]
      omega
    obtain ⟨hSum, -, hKept⟩ := hs.advance hOne
    have hGet : s.mData[s.outPos.toNat]? = some s.mData[s.outPos.toNat] :=
      List.getElem?_eq_getElem hIn
    refine Or.inr ⟨_, hGet, ?_, ?_, hSum, hKept⟩
    · rw [get8, if_neg hTest, hGet]
    · rw [get8Nothrow, if_neg hTest, hGet]

theorem safe_get8 : Safe 1 get8 := by
  intro s hs
  rcases get8_cases hs with ⟨-, hGet, -⟩ | ⟨c, -, hGet, -, hSum, hKept⟩
  · exact ⟨_, s, hGet, Kept.refl hs, trivial⟩
  · refine ⟨_, _, hGet, hKept, ?_⟩
    show (s.inserted : Int) + s.outPos.toNat + 1 ≤ s.inserted + (s.outPos + 1).toNat
    omega

/-- A reader that has inserted nothing. -/
theorem ends_of_same {r : Except Stop α} {s' : Cursor} (hRun : p s = (r, s')) (hKept : Kept s s')
    (hSame : s'.inserted = s.inserted) (hr : ∀ e, r = .error e → e.Exception) : Ends 0 p s := by
  refine ⟨r, s', hRun, hKept, ?_⟩
  have := hKept.outPos_le
  cases r with
  | error e => exact hr e rfl
  | ok x =>
      simp only
      omega

theorem safe_get8Nothrow : Safe 0 get8Nothrow := by
  intro s hs
  rcases get8_cases hs with ⟨-, -, hGet⟩ | ⟨c, -, -, hGet, hSum, hKept⟩
  · exact ends_of_same hGet (Kept.refl hs) rfl (by simp)
  · exact ends_of_same hGet hKept rfl (by simp)

/-- Every round of `get_PN` takes a byte. -/
theorem ends_getPNLoop :
    ∀ (fuel : Nat) (nn : UInt64) (s : Cursor), s.Valid →
      s.mData.length < s.outPos.toNat + fuel → Ends 1 (getPNLoop fuel nn) s := by
  intro fuel
  induction fuel with
  | zero =>
      intro nn s hs hFuel
      have := hs.outPos_le
      have := hs.mSize_eq
      omega
  | succ fuel ih =>
      intro nn s hs hFuel
      rcases get8_cases hs with ⟨-, hGet, -⟩ | ⟨c, -, hGet, -, hSum, hKept⟩
      · exact ⟨_, s, bind_error hGet, Kept.refl hs, trivial⟩
      · by_cases hc : c < 0x80
        · refine ⟨_, _, (bind_ok hGet).trans (by simp only [hc, if_true]; rfl), hKept, ?_⟩
          show (s.inserted : Int) + s.outPos.toNat + 1 ≤ s.inserted + (s.outPos + 1).toNat
          omega
        · obtain ⟨r, s', hRun, hKept', hr⟩ := ih (nn <<< 7 ||| (c &&& 0x7F).toUInt64) _
            hKept.valid (by show s.mData.length < (s.outPos + 1).toNat + fuel; omega)
          refine ⟨r, s', (bind_ok hGet).trans (by simp only [hc, if_false]; exact hRun),
            hKept.trans hKept', ?_⟩
          cases r with
          | error e => exact hr
          | ok x =>
              have hr' : (s'.inserted : Int) + (s.outPos + 1).toNat + 1 ≤
                s.inserted + s'.outPos.toNat := hr
              simp only
              omega

theorem safe_getPN : Safe 1 getPN := by
  intro s hs
  have := hs.mSize_eq
  exact ends_getPNLoop (s.mSize.toNat + 1) 0 s hs (by omega)

/-- The bytes not read yet. -/
def rest (s : Cursor) : Bytes := s.mData.drop s.outPos.toNat

/-- Of an object with `enc` at its front and `tail` left over, `enc` was read. -/
theorem Kept.outPos_eq {d : Object} {enc tail : Bytes} {s : Cursor} (h : Kept (ofObject d) s)
    (hBytes : d.val = enc ++ tail) (hRest : s.rest = tail) : s.outPos.toNat = enc.length := by
  have hLe := h.valid.outPos_le.trans h.valid.mSize_eq.le
  have hData : s.mData = d.val := h.mData_eq
  have hLeft := congrArg List.length hRest
  rw [rest, List.length_drop, hData, hBytes, List.length_append] at hLeft
  rw [hData, hBytes, List.length_append] at hLe
  omega

theorem Valid.length_rest (hs : s.Valid) : s.remains.toNat = s.rest.length := by
  rw [remains, UInt64.toNat_sub_of_le _ _ (UInt64.le_iff_toNat_le.2 hs.outPos_le), hs.mSize_eq,
    rest, List.length_drop]

/-- What the two ways of taking `size` bytes do. -/
theorem take_cases (hs : s.Valid) (size : UInt64) :
    (s.remains < size ∧ unpackNothrow size s = (.ok none, s) ∧
      unpackInto size s = (.error (.thrown notEnough), s)) ∨
    (size ≤ s.remains ∧
      unpackNothrow size s =
        (.ok (some (s.rest.take size.toNat)), { s with outPos := s.outPos + size }) ∧
      unpackInto size s = (.ok (s.rest.take size.toNat), { s with outPos := s.outPos + size }) ∧
      (s.outPos + size).toNat = s.outPos.toNat + size.toNat ∧
      Kept s { s with outPos := s.outPos + size }) := by
  by_cases hLess : size > s.mSize - s.outPos
  · exact Or.inl ⟨hLess, by rw [unpackNothrow, if_pos hLess], by rw [unpackInto, if_pos hLess]⟩
  · have hLe : size ≤ s.mSize - s.outPos := UInt64.not_lt.1 hLess
    obtain ⟨hSum, hIn, hKept⟩ := hs.advance hLe
    have hPeek : s.peek size = some (s.rest.take size.toNat) := by rw [peek, if_pos hIn, rest]
    refine Or.inr ⟨hLe, ?_, ?_, hSum, hKept⟩
    · rw [unpackNothrow, if_neg hLess, hPeek]
    · rw [unpackInto, if_neg hLess, hPeek]

theorem safe_unpackNothrow (size : UInt64) : Safe 0 (unpackNothrow size) := by
  intro s hs
  rcases take_cases hs size with ⟨-, hRun, -⟩ | ⟨-, hRun, -, -, hKept⟩
  · exact ends_of_same hRun (Kept.refl hs) rfl (by simp)
  · exact ends_of_same hRun hKept rfl (by simp)

theorem safe_unpackInto (sz : UInt64) : Safe 0 (unpackInto sz) := by
  intro s hs
  rcases take_cases hs sz with ⟨-, -, hRun⟩ | ⟨-, -, hRun, -, hKept⟩
  · exact ends_of_same hRun (Kept.refl hs) rfl (by rintro _ ⟨rfl⟩; trivial)
  · exact ends_of_same hRun hKept rfl (by simp)

theorem safe_unpack (size : Int64) : Safe 0 (unpack size) := by
  refine Safe.bind (m := 0) (n := 0) (safe_unpackNothrow size.toUInt64) fun r => ?_
  cases r with
  | none => exact Safe.bind (m := 0) (n := 0) safe_get fun s => safe_throw trivial
  | some s => exact safe_pure s

theorem safe_unpackRest : Safe 0 unpackRest := by
  intro s hs
  have hRest : unpackRest s = unpack s.remains.toInt64 s := rfl
  rw [Ends, hRest]
  exact safe_unpack s.remains.toInt64 s hs

theorem safe_getPSTR : Safe 1 getPSTR := safe_getPN.bind fun sz => safe_unpack sz.toInt64

/-! ### The two forms of a reader -/

/-- What a throwing reader becomes when it reports its failure instead. -/
def nothrow (r : Except Stop α) : Except Stop (Option α) :=
  match r with
  | .ok x => .ok (some x)
  | .error (.thrown _) => .ok none
  | .error e => .error e

theorem getPNNothrowLoop_eq :
    ∀ (fuel : Nat) (nn : UInt64) (s : Cursor), s.Valid →
      getPNNothrowLoop fuel nn s = (nothrow (getPNLoop fuel nn s).1, (getPNLoop fuel nn s).2) := by
  intro fuel
  induction fuel with
  | zero => exact fun _ _ _ => rfl
  | succ fuel ih =>
      intro nn s hs
      rcases get8_cases hs with ⟨-, hGet, hGet'⟩ | ⟨c, -, hGet, hGet', -, hKept⟩
      · have hThrow : getPNLoop (fuel + 1) nn s =
            (.error (.thrown ⟨"inBuffer::get_8: noenough "⟩), s) := bind_error hGet
        rw [hThrow]
        exact (bind_ok hGet').trans rfl
      · by_cases hc : c < 0x80
        · have hOk : getPNLoop (fuel + 1) nn s =
              (.ok (nn <<< 7 ||| c.toUInt64), { s with outPos := s.outPos + 1 }) :=
            (bind_ok hGet).trans (by simp only [hc, if_true]; rfl)
          rw [hOk]
          exact (bind_ok hGet').trans (by simp only [hc, if_true]; rfl)
        · have hMore : getPNLoop (fuel + 1) nn s =
              getPNLoop fuel (nn <<< 7 ||| (c &&& 0x7F).toUInt64)
                { s with outPos := s.outPos + 1 } :=
            (bind_ok hGet).trans (by simp only [hc, if_false])
          rw [hMore, ← ih _ _ hKept.valid]
          exact (bind_ok hGet').trans (by simp only [hc, if_false])

/-- **One number format, two decoders.** They fail on the same bytes, and
where they do not, they read the same number up to the same position. -/
theorem getPNNothrow_eq (hs : s.Valid) :
    getPNNothrow s = (nothrow (getPN s).1, (getPN s).2) :=
  getPNNothrowLoop_eq _ _ s hs

/-- The loop of `get_PSTR_nothrow`, where that many bytes are left, takes them
all. -/
theorem getPSTRLoop_eq :
    ∀ (n : Nat) (container : Bytes) (s : Cursor), s.Valid → n ≤ s.rest.length →
      getPSTRLoop n container s =
        (.ok (some (container ++ s.rest.take n)), { s with outPos := s.outPos + UInt64.ofNat n }) := by
  intro n
  induction n with
  | zero =>
      intro container s _ _
      show ((Except.ok (some container), s) : Except Stop (Option Bytes) × Cursor) = _
      simp
  | succ n ih =>
      intro container s hs hn
      have hSize := hs.mSize_eq
      have hLen : s.rest.length = s.mData.length - s.outPos.toNat := by rw [rest, List.length_drop]
      rcases get8_cases hs with ⟨hEnd, -⟩ | ⟨c, hGet, -, hNothrow, hSum, hKept⟩
      · omega
      · have hBefore : s.beforeEnd := UInt64.lt_iff_toNat_lt.2 (by omega)
        have hRest : s.rest = c :: rest { s with outPos := s.outPos + 1 } := by
          obtain ⟨hIn, rfl⟩ := List.getElem?_eq_some_iff.1 hGet
          simp only [rest, hSum]
          exact List.drop_eq_getElem_cons hIn
        have hStep : getPSTRLoop (n + 1) container s =
            getPSTRLoop n (container ++ [c]) { s with outPos := s.outPos + 1 } := by
          have hTest : (get : In Cursor) s = (.ok s, s) := rfl
          rw [getPSTRLoop, bind_ok hTest, if_pos hBefore]
          exact bind_ok hNothrow
        have hTail := congrArg List.length hRest
        rw [List.length_cons] at hTail
        rw [hStep, ih _ _ hKept.valid (by omega), hRest, List.take_succ_cons]
        have hPos : s.outPos + 1 + UInt64.ofNat n = s.outPos + UInt64.ofNat (n + 1) := by
          rw [UInt64.ofNat_add, UInt64.add_assoc, UInt64.add_comm 1]
          rfl
        simp [hPos]

/-- **One string format, two decoders.** -/
theorem getPSTRNothrow_eq (hs : s.Valid) :
    getPSTRNothrow s = (nothrow (getPSTR s).1, (getPSTR s).2) := by
  have hPN := getPNNothrow_eq hs
  obtain ⟨r, s', hRun, hKept, hr⟩ := safe_getPN s hs
  rw [hRun] at hPN
  cases r with
  | error e =>
      have hThrow : getPSTR s = (.error e, s') := bind_error hRun
      rw [hThrow]
      cases e with
      | thrown e => exact (bind_ok hPN).trans rfl
      | badAlloc => exact bind_error hPN
      | outside => exact absurd hr id
      | running => exact absurd hr id
  | ok sz =>
      have hStep : getPSTRNothrow s = _ := bind_ok hPN
      have hThrow : getPSTR s = unpack sz.toInt64 s' := bind_ok hRun
      have hTest : (get : In Cursor) s' = (.ok s', s') := rfl
      rw [hStep, hThrow]
      simp only
      rw [bind_ok hTest]
      rcases take_cases hKept.valid sz with ⟨hLess, hTake, -⟩ | ⟨hLe, hTake, -, -, hKept'⟩
      · have hUnpack : unpack sz.toInt64 s' =
            (.error (.thrown (tooSmall sz s'.remains)), s') := by
          rw [unpack, UInt64.toUInt64_toInt64, bind_ok hTake]
          rfl
        rw [if_pos hLess, hUnpack]
        rfl
      · have hUnpack : unpack sz.toInt64 s' =
            (.ok (s'.rest.take sz.toNat), { s' with outPos := s'.outPos + sz }) := by
          rw [unpack, UInt64.toUInt64_toInt64, bind_ok hTake]
          rfl
        have hEnough : sz.toNat ≤ s'.rest.length := by
          rw [← hKept.valid.length_rest]
          exact UInt64.le_iff_toNat_le.1 hLe
        rw [if_neg (UInt64.not_lt.2 hLe), hUnpack, getPSTRLoop_eq _ _ _ hKept.valid hEnough,
          UInt64.ofNat_toNat]
        rfl

/-! ### The readers over `InBuffer` -/

/-- The position of a cursor in its bytes, as an `InBuffer`. -/
def toInBuffer (s : Cursor) (hs : s.Valid) : InBuffer :=
  ⟨s.mData, s.outPos.toNat, hs.outPos_le.trans hs.mSize_eq.le⟩

@[simp] theorem rest_toInBuffer (hs : s.Valid) : (s.toInBuffer hs).rest = s.rest := rfl

/-- `p` does from `s` what `q` does from the same position. -/
def RefinesAt (p : In α) (q : Reader α) (s : Cursor) : Prop :=
  ∀ hs : s.Valid, match q (s.toInBuffer hs) with
    | .ok (x, b) => ∃ s', p s = (.ok x, s') ∧ ∃ hKept : Kept s s', s'.toInBuffer hKept.valid = b
    | .error e => ∃ s', p s = (.error (.thrown e), s') ∧ Kept s s'

/-- `p` does what `q` does. -/
def Refines (p : In α) (q : Reader α) : Prop := ∀ s, RefinesAt p q s

theorem RefinesAt.bind {q : Reader α} {g : α → Reader β} (hp : RefinesAt p q s)
    (hf : ∀ x s', s.Valid → p s = (.ok x, s') → RefinesAt (f x) (g x) s') :
    RefinesAt (p >>= f) (q >>= g) s := by
  intro hs
  have hFirst := hp hs
  have hBind : (q >>= g) (s.toInBuffer hs) =
      (q (s.toInBuffer hs)).bind fun r => g r.1 r.2 := rfl
  rw [hBind]
  cases hq : q (s.toInBuffer hs) with
  | error e =>
      rw [hq] at hFirst
      obtain ⟨s', hRun, hKept⟩ := hFirst
      exact ⟨s', bind_error hRun, hKept⟩
  | ok r =>
      rw [hq] at hFirst
      obtain ⟨s', hRun, hKept, hEq⟩ := hFirst
      have hSecond := hf r.1 s' hs hRun hKept.valid
      rw [hEq] at hSecond
      show match g r.1 r.2 with
        | .ok (x, b) => ∃ s', (p >>= f) s = (.ok x, s') ∧
            ∃ hKept : Kept s s', s'.toInBuffer hKept.valid = b
        | .error e => ∃ s', (p >>= f) s = (.error (.thrown e), s') ∧ Kept s s'
      cases hg : g r.1 r.2 with
      | error e =>
          rw [hg] at hSecond
          obtain ⟨s₂, hRun₂, hKept₂⟩ := hSecond
          exact ⟨s₂, (bind_ok hRun).trans hRun₂, hKept.trans hKept₂⟩
      | ok r₂ =>
          rw [hg] at hSecond
          obtain ⟨s₂, hRun₂, hKept₂, hEq₂⟩ := hSecond
          exact ⟨s₂, (bind_ok hRun).trans hRun₂, hKept.trans hKept₂, hEq₂⟩

theorem Refines.bind {q : Reader α} {g : α → Reader β} (hp : Refines p q)
    (hf : ∀ x, Refines (f x) (g x)) : Refines (p >>= f) (q >>= g) :=
  fun s => (hp s).bind fun x s' _ _ => hf x s'

theorem refines_pure (x : α) : Refines (pure x) (pure x) :=
  fun s hs => ⟨s, rfl, Kept.refl hs, rfl⟩

theorem refines_get8 : Refines get8 Corelib.get8 := by
  intro s hs
  have hPos := hs.outPos_le
  have hSize := hs.mSize_eq
  rcases get8_cases hs with ⟨hEnd, hGet, -⟩ | ⟨c, hMem, hGet, -, hSum, hKept⟩
  · have hNil : (s.toInBuffer hs).rest = [] := by
      rw [rest_toInBuffer, rest, List.drop_eq_nil_iff, hEnd]
    rw [Corelib.get8, InBuffer.get8Nothrow_nil hNil]
    exact ⟨s, hGet, Kept.refl hs⟩
  · obtain ⟨hIn, rfl⟩ := List.getElem?_eq_some_iff.1 hMem
    have hTest : (s.toInBuffer hs).outPos + 1 ≤ (s.toInBuffer hs).mData.length := hIn
    simp only [Corelib.get8, InBuffer.get8Nothrow, hTest, dite_true]
    refine ⟨_, hGet, hKept, ?_⟩
    simp only [toInBuffer, hSum]

theorem refines_getPNLoop :
    ∀ (n fuel : Nat) (nn : UInt64) (s : Cursor), n ≤ fuel →
      s.mData.length < s.outPos.toNat + n →
      RefinesAt (getPNLoop fuel nn) (Corelib.getPNLoop n nn) s := by
  intro n
  induction n with
  | zero =>
      intro fuel nn s _ hLeft hs
      have := hs.outPos_le
      have := hs.mSize_eq
      omega
  | succ n ih =>
      intro fuel nn s hFuel hLeft
      obtain ⟨fuel, rfl⟩ : ∃ k, fuel = k + 1 := ⟨fuel - 1, by omega⟩
      refine RefinesAt.bind (refines_get8 s) fun c s' hs hRun => ?_
      by_cases hc : c < 0x80
      · simp only [hc, if_true]
        exact refines_pure _ s'
      · simp only [hc, if_false]
        rcases get8_cases hs with ⟨-, hGet, -⟩ | ⟨d, -, hGet, -, hSum, -⟩
        · rw [hGet] at hRun
          cases hRun
        · rw [hGet] at hRun
          cases hRun
          exact ih fuel _ _ (by omega) (by show s.mData.length < (s.outPos + 1).toNat + n; omega)

theorem refines_getPN : Refines getPN Corelib.getPN := by
  intro s hs
  have hPos := hs.outPos_le
  have hSize := hs.mSize_eq
  have hLeft : (s.toInBuffer hs).remains = s.mData.length - s.outPos.toNat := rfl
  exact refines_getPNLoop ((s.toInBuffer hs).remains + 1) (s.mSize.toNat + 1) 0 s
    (by omega) (by omega) hs

theorem refines_unpackInto (sz : UInt64) : Refines (unpackInto sz) (Corelib.unpackInto sz) := by
  intro s hs
  have hLeft : (s.toInBuffer hs).remains = s.rest.length := (InBuffer.length_rest _).symm
  rw [Corelib.unpackInto, unpackOr, InBuffer.unpackNothrow]
  rcases take_cases hs sz with ⟨hLess, -, hRun⟩ | ⟨hLe, -, hRun, hSum, hKept⟩
  · have hTest : ¬ sz.toNat ≤ (s.toInBuffer hs).remains := by
      rw [hLeft, ← hs.length_rest, Nat.not_le]
      exact UInt64.lt_iff_toNat_lt.1 hLess
    rw [dif_neg hTest]
    exact ⟨s, hRun, Kept.refl hs⟩
  · have hTest : sz.toNat ≤ (s.toInBuffer hs).remains := by
      rw [hLeft, ← hs.length_rest]
      exact UInt64.le_iff_toNat_le.1 hLe
    rw [dif_pos hTest]
    exact ⟨_, hRun, hKept, by simp only [toInBuffer, hSum]⟩

theorem refines_unpack (sz : UInt64) : Refines (unpack sz.toInt64) (Corelib.unpack sz) := by
  intro s hs
  have hLeft : (s.toInBuffer hs).remains = s.rest.length := (InBuffer.length_rest _).symm
  rw [Corelib.unpack, unpackOr, InBuffer.unpackNothrow, unpack, UInt64.toUInt64_toInt64]
  rcases take_cases hs sz with ⟨hLess, hRun, -⟩ | ⟨hLe, hRun, -, hSum, hKept⟩
  · have hTest : ¬ sz.toNat ≤ (s.toInBuffer hs).remains := by
      rw [hLeft, ← hs.length_rest, Nat.not_le]
      exact UInt64.lt_iff_toNat_lt.1 hLess
    have hLeft' : UInt64.ofNat (s.toInBuffer hs).remains = s.remains := by
      rw [hLeft, ← hs.length_rest, UInt64.ofNat_toNat]
    rw [dif_neg hTest]
    dsimp only
    rw [hLeft']
    exact ⟨s, (bind_ok hRun).trans rfl, Kept.refl hs⟩
  · have hTest : sz.toNat ≤ (s.toInBuffer hs).remains := by
      rw [hLeft, ← hs.length_rest]
      exact UInt64.le_iff_toNat_le.1 hLe
    rw [dif_pos hTest]
    exact ⟨_, (bind_ok hRun).trans rfl, hKept, by simp only [toInBuffer, hSum]⟩

theorem refines_getPSTR : Refines getPSTR Corelib.getPSTR :=
  refines_getPN.bind refines_unpack

/-- What `q` reads of `enc`, `p` reads of it. -/
theorem Refines.reads {q : Reader α} {enc tail : Bytes} {x : α} (hp : Refines p q)
    (hq : Reads q enc x) (hs : s.Valid) (h : s.rest = enc ++ tail) :
    ∃ s', p s = (.ok x, s') ∧ Kept s s' ∧ s'.rest = tail := by
  obtain ⟨b, hRun, hRest⟩ := hq (s.toInBuffer hs) tail h
  have hRef := hp s hs
  rw [hRun] at hRef
  obtain ⟨s', hRun', hKept, rfl⟩ := hRef
  exact ⟨s', hRun', hKept, hRest⟩

end Cursor

end Megatron.Corelib
