import Megatron.Corelib.RoundTrip

/-!
# Compressed refbuffers

`zcompress` gives zlib a buffer of twice the size of the data, looks at no
status, and puts whatever is in the buffer behind the size of the data.
`zexpand` reads the size back, takes a block of that size, and hands out as much
of it as `uncompress` leaves in `olen`, whatever became of the rest.

zlib is a parameter.  A `Format` says which bytes `compress` makes and which it
takes; a `Zlib` for it does what the documentation says, and what it leaves
behind where it fails is its own affair.

## Main results

* `roundTrips_iff_holds` — the round trip, for one zlib.
* `sized_short` — a message cut short is not read.
* `compression_iff` — which data comes back, and which messages are safe to
  expand, whatever the zlib does where it fails.
-/

namespace Megatron.CUtils

open Megatron.Lib Megatron.Corelib

/-! ## zlib -/

/-- The zlib format: how it writes data, and what it reads of any bytes.  A
stream that breaks off is not one. -/
structure Format where
  deflated : Bytes → Bytes
  inflate : Bytes → Option Bytes
  inflate_deflated : ∀ d, inflate (deflated d) = some d
  inflate_prefix : ∀ d z, z <+: deflated d → z ≠ deflated d → inflate z = none

/-- What a call leaves behind: whether it returned `Z_OK`, the bytes it stored
from the start of the buffer on, and `*destLen`. -/
structure Call where
  ok : Bool
  written : Bytes
  destLen : UInt64
  deriving DecidableEq, Repr

/-- All of `d`, with its length. -/
def Call.whole (d : Bytes) : Call := ⟨true, d, UInt64.ofNat d.length⟩

theorem Call.whole_inside {d : Bytes} {n : UInt64} (h : d.length ≤ n.toNat) :
    (whole d).written.length ≤ n.toNat ∧ (whole d).destLen ≤ n := by
  refine ⟨h, UInt64.le_iff_toNat_le.2 ?_⟩
  rwa [whole, UInt64.toNat_ofNat_of_lt' (h.trans_lt n.toNat_lt)]

/-- `compress` and `uncompress`, for a buffer of the given size. -/
structure Zlib (F : Format) where
  compress : UInt64 → Bytes → Call
  uncompress : UInt64 → Bytes → Call
  compress_fits : ∀ n d, (F.deflated d).length ≤ n.toNat →
    compress n d = Call.whole (F.deflated d)
  compress_short : ∀ n d, n.toNat < (F.deflated d).length → (compress n d).ok = false
  uncompress_fits : ∀ n z d, F.inflate z = some d → d.length ≤ n.toNat →
    uncompress n z = Call.whole d
  uncompress_short : ∀ n z d, F.inflate z = some d → n.toNat < d.length →
    (uncompress n z).ok = false ∧ (uncompress n z).written = d.take n.toNat
  uncompress_corrupt : ∀ n z, F.inflate z = none → (uncompress n z).ok = false
  compress_inside : ∀ n d, (compress n d).written.length ≤ n.toNat ∧ (compress n d).destLen ≤ n
  uncompress_inside : ∀ n z,
    (uncompress n z).written.length ≤ n.toNat ∧ (uncompress n z).destLen ≤ n

/-! ## The two functions -/

/-- `malloc`: what it grants, and what the bytes of a fresh block happen to be. -/
structure Heap where
  grants : UInt64 → Bool
  stale : Nat → UInt8
  bounded : ∀ n, grants n → n.toNat < 2 ^ 63

/-- The bytes of a block, written or not. -/
def Heap.read (heap : Heap) (b : Block UInt8) : Bytes := b.mapIdx fun i c => c.getD (heap.stale i)

/-- Why there is no result: a `std::runtime_error`, or what stops a reader. -/
inductive Failure
  | runtimeError (what : String)
  | stop (e : Stop)
  deriving DecidableEq, Repr

/-- A failure that a caller can catch. -/
def Failure.Exception : Failure → Prop
  | runtimeError _ => True
  | stop e => e.Exception

/-- `malloc(olen)` after the call has filled it. -/
def Call.obuf (c : Call) (olen : UInt64) : Block UInt8 :=
  (Block.malloc olen.toNat).overlay 0 c.written

variable {F : Format}

/-- `ret` in `zcompress`. -/
def Zlib.ret (Z : Zlib F) (heap : Heap) (data : Object) : Bytes :=
  let olen := data.size * 2
  let call := Z.compress olen data.val
  heap.read ((call.obuf olen).take call.destLen.toNat)

/-- `o<<data->size_<<ret`. -/
def message (size : UInt64) (ret : Bytes) : Option OutBuffer := do
  let o ← OutBuffer.construct.putPN size
  o.putPSTR ret

/-- `CUtils::zcompress`; an invalid reference is `none`. -/
def Zlib.zcompress (Z : Zlib F) (heap : Heap) :
    Option Object → Except Failure (Option Refbuffer)
  | none => .ok none
  | some data =>
      if heap.grants (data.size * 2) then
        match message data.size (Z.ret heap data) with
        | none => .error (.stop .outside)
        | some o =>
            if heap.grants (o.curPos + 0x20) then .ok (some o.asString.buffer)
            else .error (.runtimeError "alloc error")
      else .error (.runtimeError "alloc error")

/-- `in.get_PN()` and `in.get_PSTR()`. -/
def sized : In (Int64 × Bytes) := do
  let expandedSize ← Cursor.getPN
  let buf ← Cursor.getPSTR
  return (expandedSize.toInt64, buf)

/-- The refbuffer that `zexpand` makes. -/
def Zlib.expanded (Z : Zlib F) (olen : UInt64) (buf : Bytes) : Refbuffer :=
  let call := Z.uncompress olen buf
  ⟨some (call.obuf olen), call.destLen, call.destLen⟩

/-- `CUtils::zexpand`. -/
def Zlib.zexpand (Z : Zlib F) (heap : Heap) :
    Option Object → Except Failure (Option Refbuffer)
  | none => .ok none
  | some data =>
      match (sized (Cursor.ofObject data)).1 with
      | .error e => .error (.stop e)
      | .ok (expandedSize, buf) =>
          let olen := expandedSize.toUInt64
          if heap.grants olen then .ok (some (Z.expanded olen buf))
          else .error (.runtimeError "alloc error")

/-! ## What is asked of them -/

/-- The `size_` bytes of `r` are there, and they are `d`. -/
structure Holds (r : Refbuffer) (d : Bytes) : Prop where
  size_eq : r.size_.toNat = d.length
  bytes_eq : r.bytes = d.map some

/-- `zexpand(zcompress(x))` has exactly the bytes of `x`. -/
def Zlib.RoundTrips (Z : Zlib F) (heap : Heap) (x : Object) : Prop :=
  ∃ r, Z.zcompress heap (some x) = .ok (some r) ∧ ∃ d : Object, Holds r d.val ∧
    ∃ r', Z.zexpand heap (some d) = .ok (some r') ∧ Holds r' x.val

/-- `zexpand` throws, or hands out bytes that `uncompress` has stored. -/
def Zlib.Expands (Z : Zlib F) (heap : Heap) (d : Object) : Prop :=
  match Z.zexpand heap (some d) with
  | .error e => e.Exception
  | .ok none => False
  | .ok (some r) => ∃ p, Holds r p

/-! ## The message -/

section Message

variable {size : UInt64} {ret : Bytes}

/-- The bytes of `o<<data->size_<<ret`. -/
def putMessage (size : UInt64) (ret : Bytes) : Bytes := putPN size ++ putPSTR ret

theorem length_putMessage (size : UInt64) (ret : Bytes) :
    (putMessage size ret).length = (putPN size).length +
      (putPN (UInt64.ofNat ret.length)).length + ret.length := by
  simp only [putMessage, putPSTR, List.length_append]
  omega

theorem length_putMessage_le (size : UInt64) (ret : Bytes) :
    (putMessage size ret).length ≤ ret.length + 20 := by
  have hFirst := OutBuffer.length_putPN_le size
  have hSecond := OutBuffer.length_putPN_le (UInt64.ofNat ret.length)
  rw [length_putMessage]
  omega

theorem message_eq (size : UInt64) {ret : Bytes} (hLen : ret.length < 2 ^ 63) :
    ∃ o, message size ret = some o ∧ OutBuffer.construct.Stored (putMessage size ret) o ∧
      o.curPos = UInt64.ofNat (putPN size).length +
        UInt64.ofNat (putPN (UInt64.ofNat ret.length)).length + asInt (UInt64.ofNat ret.length) := by
  have hZero : OutBuffer.construct.curPos.toNat = 0 := rfl
  have hFirst := OutBuffer.length_putPN_le size
  obtain ⟨o₁, hPN, hStored, hPos⟩ := OutBuffer.stored_putPN proper_construct
    (by simp only [OutBuffer.Roomy, hZero]; omega) size
  have hPos₁ := hPos
  rw [hZero, Nat.zero_add] at hPos₁
  obtain ⟨o₂, hPSTR, hStored₂, hPos₂⟩ := OutBuffer.stored_putPSTR (hStored.proper hPos) ret
    (by simp only [OutBuffer.Roomy]; omega)
  refine ⟨o₂, ?_, hStored.trans hStored₂ hPos, ?_⟩
  · rw [message, hPN, Option.bind_eq_bind, Option.bind_some, hPSTR]
  · have hCur : o₁.curPos = UInt64.ofNat (putPN size).length := by
      apply UInt64.toNat_inj.1
      rw [hPos₁, UInt64.toNat_ofNat_of_lt' (Nat.lt_of_le_of_lt hFirst (by decide))]
    rw [hPos₂, hCur]

/-- A short string is handed out as it was written. -/
theorem holds_message {o : OutBuffer} (hShort : ret.length < 2 ^ 31)
    (h : message size ret = some o) :
    o.curPos = UInt64.ofNat (putMessage size ret).length ∧
      Holds o.asString.buffer (putMessage size ret) := by
  have hLe := length_putMessage_le size ret
  have hLen := length_putMessage size ret
  obtain ⟨o', hEq, hStored, hPos⟩ := message_eq size (show ret.length < 2 ^ 63 by omega)
  obtain rfl : o = o' := Option.some.inj (h.symm.trans hEq)
  have hInt : asInt (UInt64.ofNat ret.length) = UInt64.ofNat ret.length := by
    apply UInt64.toNat_inj.1
    rw [OutBuffer.toNat_asInt, UInt64.toNat_ofNat_of_lt' (show ret.length < 2 ^ 64 by omega),
      Nat.mod_eq_of_lt (by omega), if_pos hShort]
  have hCur : o.curPos = UInt64.ofNat (putMessage size ret).length := by
    rw [hPos, hInt, hLen, UInt64.ofNat_add, UInt64.ofNat_add]
  have hNat : o.curPos.toNat = (putMessage size ret).length := by
    rw [hCur]
    exact UInt64.toNat_ofNat_of_lt' (show _ < 2 ^ 64 by omega)
  exact ⟨hCur, hNat, (bytes_asString hStored hNat (by omega)).2⟩

/-- A long one leaves the position short of its end. -/
theorem short_of_holds {o : OutBuffer} {d : Object} (hLong : 2 ^ 31 ≤ ret.length)
    (hLen : ret.length < 2 ^ 63) (h : message size ret = some o)
    (hHolds : Holds o.asString.buffer d.val) :
    d.val <+: putMessage size ret ∧ d.val.length < (putMessage size ret).length := by
  have hFirst := OutBuffer.length_putPN_le size
  have hSecond := OutBuffer.length_putPN_le (UInt64.ofNat ret.length)
  have hTotal := length_putMessage size ret
  have hLt := d.property
  obtain ⟨o', hEq, hStored, hPos⟩ := message_eq size hLen
  obtain rfl : o = o' := Option.some.inj (h.symm.trans hEq)
  have hCur : o.curPos.toNat = d.val.length := hHolds.size_eq
  have hShort : d.val.length < (putMessage size ret).length := by
    have hNat := congrArg UInt64.toNat hPos
    rw [UInt64.toNat_add, UInt64.toNat_add, OutBuffer.toNat_asInt,
      UInt64.toNat_ofNat_of_lt' (show ret.length < 2 ^ 64 by omega),
      UInt64.toNat_ofNat_of_lt' (Nat.lt_of_le_of_lt hFirst (by decide)),
      UInt64.toNat_ofNat_of_lt' (Nat.lt_of_le_of_lt hSecond (by decide)), hCur] at hNat
    split at hNat <;> omega
  refine ⟨?_, hShort⟩
  have hSum : (o.curPos + 0x20).toNat = d.val.length + 0x20 := by
    rw [UInt64.toNat_add, hCur, show (0x20 : UInt64).toNat = 0x20 from rfl]
    omega
  have hEnds := hStored.ends
  have hFits := hStored.fits
  have hAllocated := hStored.allocated
  have hZero : OutBuffer.construct.curPos.toNat = 0 := rfl
  rw [hZero, Nat.zero_add] at hFits
  rw [hZero, Nat.zero_add, List.take_zero, List.nil_append] at hEnds
  have hBytes : (o.block.realloc (o.curPos + 0x20).toNat).take o.curPos.toNat = d.val.map some :=
    hHolds.bytes_eq
  rw [hCur, Block.take_realloc (by omega) (by omega)] at hBytes
  have hPrefix : (putMessage size ret).take d.val.length = d.val := by
    apply List.map_injective_iff.2 (Option.some_injective _)
    rw [List.map_take, ← hEnds, List.take_take, Nat.min_eq_left hShort.le, hBytes]
  exact List.prefix_iff_eq_take.2 hPrefix.symm

/-! ## Reading it -/

theorem gives_sized (size : UInt64) (hLen : ret.length < 2 ^ 64) :
    Cursor.Gives sized (putMessage size ret) fun _ _ x => x = (size.toInt64, ret) := by
  refine (Cursor.gives_getPN size).bind (E := fun n _ _ x => x = (n.toInt64, ret))
    (fun n => (Cursor.gives_getPSTR hLen).map ?_) ?_
  · rintro _ _ _ rfl _
    rfl
  · rintro _ _ _ _ _ rfl rfl _
    rfl

/-- A number cut short is not read. -/
theorem getPN_short {s : Cursor} {n : UInt64} (hs : s.Valid) (hPre : s.rest <+: putPN n)
    (hLen : s.rest.length < (putPN n).length) :
    ∃ e s', Cursor.getPN s = (.error (.thrown e), s') := by
  have hRefines := Cursor.refines_getPN s hs
  obtain ⟨b, hNothrow⟩ := InBuffer.getPNNothrow_short (b := s.toInBuffer hs) hPre hLen
  rw [InBuffer.getPNNothrow] at hNothrow
  rw [Corelib.getPN, getPNLoop_eq, hNothrow] at hRefines
  obtain ⟨s', hRun, -⟩ := hRefines
  exact ⟨_, s', hRun⟩

theorem getPSTR_short {s : Cursor} (hs : s.Valid) (hLen : ret.length < 2 ^ 64)
    (hPre : s.rest <+: putPSTR ret) (hShort : s.rest.length < (putPSTR ret).length) :
    ∃ e s', Cursor.getPSTR s = (.error (.thrown e), s') := by
  rcases Nat.lt_or_ge s.rest.length (putPN (UInt64.ofNat ret.length)).length with hLess | hEnough
  · obtain ⟨e, s', hRun⟩ := getPN_short hs
      (List.prefix_of_prefix_length_le hPre (List.prefix_append _ _) hLess.le) hLess
    exact ⟨e, s', Cursor.bind_error hRun⟩
  · obtain ⟨tail, hRest⟩ := List.prefix_of_prefix_length_le (List.prefix_append _ _) hPre hEnough
    obtain ⟨_, s', hRun, hKept, hTail, rfl⟩ := Cursor.gives_getPN _ s tail hs hRest.symm
    refine ⟨tooSmall (UInt64.ofNat ret.length) s'.remains, s', (Cursor.bind_ok hRun).trans ?_⟩
    rw [Cursor.unpack, UInt64.toUInt64_toInt64]
    rcases Cursor.take_cases hKept.valid (UInt64.ofNat ret.length) with ⟨-, hTake, -⟩ | ⟨hLe, -⟩
    · exact Cursor.bind_ok hTake
    · have hNat := UInt64.le_iff_toNat_le.1 hLe
      rw [hKept.valid.length_rest, hTail, UInt64.toNat_ofNat_of_lt' hLen] at hNat
      rw [putPSTR, ← hRest, List.length_append, List.length_append] at hShort
      omega

/-- **A message cut short is not read.** -/
theorem sized_short {d : Object} (hLen : ret.length < 2 ^ 64) (hPre : d.val <+: putMessage size ret)
    (hShort : d.val.length < (putMessage size ret).length) :
    ∃ e s, sized (Cursor.ofObject d) = (.error (.thrown e), s) := by
  have hs := Cursor.valid_ofObject d
  have hAll : (Cursor.ofObject d).rest = d.val := rfl
  rcases Nat.lt_or_ge d.val.length (putPN size).length with hLess | hEnough
  · obtain ⟨e, s', hRun⟩ := getPN_short (n := size) hs
      (List.prefix_of_prefix_length_le hPre (List.prefix_append _ _) hLess.le) hLess
    exact ⟨e, s', Cursor.bind_error hRun⟩
  · obtain ⟨tail, hRest⟩ := List.prefix_of_prefix_length_le (List.prefix_append _ _) hPre hEnough
    obtain ⟨_, s, hRun, hKept, hTail, rfl⟩ := Cursor.gives_getPN size _ tail hs hRest.symm
    have hTailPre : s.rest <+: putPSTR ret := by
      rw [putMessage, ← hRest, List.prefix_append_right_inj] at hPre
      rwa [hTail]
    obtain ⟨e, s', hRun₂⟩ := getPSTR_short hKept.valid hLen hTailPre (by
      rw [putMessage, ← hRest, List.length_append, List.length_append] at hShort
      rw [hTail]
      omega)
    exact ⟨e, s', (Cursor.bind_ok hRun).trans (Cursor.bind_error hRun₂)⟩

end Message

/-! ## One zlib -/

section RoundTrip

variable {Z : Zlib F} {heap : Heap} {x : Object}

theorem read_map_some (heap : Heap) (d : Bytes) : heap.read (d.map some) = d := by
  apply List.ext_getElem
  · simp [Heap.read]
  · intro i _ _
    simp [Heap.read]

@[simp] theorem length_obuf (c : Call) (olen : UInt64) : (c.obuf olen).length = olen.toNat := by
  rw [Call.obuf, Block.length_overlay, Block.length_malloc]

theorem take_obuf {d : Bytes} {olen : UInt64} (hFits : d.length ≤ olen.toNat) :
    ((Block.malloc olen.toNat).overlay 0 d).take d.length = d.map some := by
  have hRoom : 0 + d.length ≤ (Block.malloc olen.toNat : Block UInt8).length := by
    rw [Block.length_malloc]
    omega
  have hTake := Block.take_overlay_end hRoom
  rwa [Nat.zero_add, List.take_zero, List.nil_append] at hTake

theorem toNat_size_double (x : Object) : (x.size * 2).toNat = 2 * x.val.length := by
  have hLt := x.property
  rw [UInt64.toNat_mul, x.toNat_size, show (2 : UInt64).toNat = 2 from rfl]
  omega

theorem length_ret_le (Z : Zlib F) (heap : Heap) (x : Object) :
    (Z.ret heap x).length ≤ (x.size * 2).toNat := by
  simp only [Zlib.ret, Heap.read, List.length_mapIdx, List.length_take, length_obuf]
  exact Nat.min_le_right _ _

/-- A call that succeeds leaves its bytes behind. -/
theorem ret_of_fits (hFits : (F.deflated x.val).length ≤ (x.size * 2).toNat) :
    Z.ret heap x = F.deflated x.val := by
  have hLen : (UInt64.ofNat (F.deflated x.val).length).toNat = (F.deflated x.val).length :=
    UInt64.toNat_ofNat_of_lt' (Nat.lt_of_le_of_lt hFits (UInt64.toNat_lt _))
  simp only [Zlib.ret, Z.compress_fits _ _ hFits, Call.whole, Call.obuf, hLen]
  rw [take_obuf hFits, read_map_some]

/-- A buffer of no bytes is left empty. -/
theorem ret_of_nil (hNil : x.val = []) : Z.ret heap x = [] := by
  have hSize : x.size * 2 = 0 := by
    rw [Object.size, hNil]
    rfl
  have hLe := length_ret_le Z heap x
  rw [hSize] at hLe
  exact List.length_eq_zero_iff.1 (Nat.le_zero.1 hLe)

theorem zexpand_message {d : Object} {ret : Bytes} (size : UInt64) (hLen : ret.length < 2 ^ 64)
    (hMessage : d.val = putMessage size ret) :
    Z.zexpand heap (some d) = if heap.grants size then .ok (some (Z.expanded size ret))
      else .error (.runtimeError "alloc error") := by
  obtain ⟨_, s, hRun, -, -, rfl⟩ := gives_sized size hLen (Cursor.ofObject d) []
    (Cursor.valid_ofObject d) (by rw [List.append_nil]; exact hMessage)
  simp only [Zlib.zexpand, hRun, UInt64.toUInt64_toInt64]

/-- **The round trip, for one zlib**: every block is granted, the string is
short, and `uncompress` makes the data of it. -/
theorem roundTrips_iff_holds (Z : Zlib F) (heap : Heap) (x : Object) :
    Z.RoundTrips heap x ↔ heap.grants (x.size * 2) ∧ (Z.ret heap x).length < 2 ^ 31 ∧
      heap.grants (UInt64.ofNat (putMessage x.size (Z.ret heap x)).length + 0x20) ∧
      heap.grants x.size ∧ Holds (Z.expanded x.size (Z.ret heap x)) x.val := by
  by_cases hOlen : heap.grants (x.size * 2)
  swap
  · refine iff_of_false ?_ fun h => hOlen h.1
    rintro ⟨r, hRun, -⟩
    rw [Zlib.zcompress, if_neg hOlen] at hRun
    cases hRun
  have hLen : (Z.ret heap x).length < 2 ^ 63 :=
    (length_ret_le Z heap x).trans_lt (heap.bounded _ hOlen)
  obtain ⟨o, hMessage, -, -⟩ := message_eq x.size hLen
  have hRun : Z.zcompress heap (some x) = if heap.grants (o.curPos + 0x20)
      then .ok (some o.asString.buffer) else .error (.runtimeError "alloc error") := by
    simp only [Zlib.zcompress, if_pos hOlen, hMessage]
  by_cases hShort : (Z.ret heap x).length < 2 ^ 31
  · obtain ⟨hPos, hHolds⟩ := holds_message hShort hMessage
    have hLe := length_putMessage_le x.size (Z.ret heap x)
    simp only [Zlib.RoundTrips, hRun, hOlen, hShort, true_and, hPos]
    constructor
    · rintro ⟨r, hOk, d, hd, r', hExpand, hr'⟩
      split at hOk
      · rename_i hLast
        obtain rfl := Option.some.inj (Except.ok.inj hOk)
        have hSame : d.val = putMessage x.size (Z.ret heap x) :=
          List.map_injective_iff.2 (Option.some_injective _) (hd.bytes_eq.symm.trans hHolds.bytes_eq)
        rw [zexpand_message x.size (by omega) hSame] at hExpand
        split at hExpand
        · rename_i hSize
          obtain rfl := Option.some.inj (Except.ok.inj hExpand)
          exact ⟨hLast, hSize, hr'⟩
        · cases hExpand
      · cases hOk
    · rintro ⟨hLast, hSize, hr'⟩
      rw [if_pos hLast]
      refine ⟨_, rfl, ⟨putMessage x.size (Z.ret heap x), by omega⟩, hHolds, _, ?_, hr'⟩
      rw [zexpand_message x.size (show (Z.ret heap x).length < 2 ^ 64 by omega) rfl, if_pos hSize]
  · refine iff_of_false ?_ fun h => hShort h.2.1
    rintro ⟨r, hOk, d, hd, r', hExpand, -⟩
    rw [hRun] at hOk
    split at hOk
    · obtain rfl := Option.some.inj (Except.ok.inj hOk)
      obtain ⟨hPre, hLess⟩ := short_of_holds (Nat.not_lt.1 hShort) hLen hMessage hd
      obtain ⟨e, s, hStop⟩ := sized_short (by omega) hPre hLess
      rw [Zlib.zexpand, hStop] at hExpand
      cases hExpand
    · cases hOk

/-! ### What is handed out -/

theorem holds_expanded_zero (Z : Zlib F) (buf : Bytes) : Holds (Z.expanded 0 buf) [] := by
  have hDest : (Z.uncompress 0 buf).destLen = 0 := UInt64.le_zero_iff.1 (Z.uncompress_inside 0 buf).2
  refine ⟨?_, ?_⟩
  · simp only [Zlib.expanded, hDest]
    rfl
  · simp only [Zlib.expanded, hDest, Refbuffer.bytes]
    rfl

theorem holds_expanded_of_fits {olen : UInt64} {z d : Bytes} (hInflate : F.inflate z = some d)
    (hFits : d.length ≤ olen.toNat) : Holds (Z.expanded olen z) d := by
  have hLen : (UInt64.ofNat d.length).toNat = d.length :=
    UInt64.toNat_ofNat_of_lt' (hFits.trans_lt olen.toNat_lt)
  refine ⟨?_, ?_⟩
  · simp only [Zlib.expanded, Z.uncompress_fits _ _ _ hInflate hFits, Call.whole, hLen]
  · simp only [Zlib.expanded, Z.uncompress_fits _ _ _ hInflate hFits, Call.whole, Call.obuf,
      Refbuffer.bytes, Option.getD_some, hLen, take_obuf hFits]

/-- A buffer that is too small is filled. -/
theorem holds_expanded_of_short {olen : UInt64} {z d : Bytes} (hInflate : F.inflate z = some d)
    (hShort : olen.toNat < d.length) :
    ∃ p, Holds (Z.expanded olen z) p := by
  obtain ⟨-, hWritten⟩ := Z.uncompress_short _ _ _ hInflate hShort
  have hDest := UInt64.le_iff_toNat_le.1 (Z.uncompress_inside olen z).2
  have hFull := take_obuf (d := d.take olen.toNat) (List.length_take_le _ _)
  rw [List.length_take, Nat.min_eq_left hShort.le] at hFull
  refine ⟨(d.take olen.toNat).take (Z.uncompress olen z).destLen.toNat, ?_, ?_⟩
  · simp only [Zlib.expanded, List.length_take]
    omega
  · simp only [Zlib.expanded, Call.obuf, Refbuffer.bytes, Option.getD_some, hWritten]
    rw [List.map_take, ← hFull, List.take_take, Nat.min_eq_left hDest]

end RoundTrip

/-! ## Every zlib -/

section Every

variable {heap : Heap} {x d : Object}

/-- A zlib that fills the buffer where it is too small, and stores nothing of a
corrupt text.  Where a call fails, `*destLen` is as it was. -/
def careless (F : Format) : Zlib F where
  compress n d := if (F.deflated d).length ≤ n.toNat then Call.whole (F.deflated d)
    else ⟨false, (F.deflated d).take n.toNat, n⟩
  uncompress n z := match F.inflate z with
    | some d => if d.length ≤ n.toNat then Call.whole d else ⟨false, d.take n.toNat, n⟩
    | none => ⟨false, [], n⟩
  compress_fits n d h := if_pos h
  compress_short n d h := by rw [if_neg (Nat.not_le.2 h)]
  uncompress_fits n z d hInflate h := by simp only [hInflate, if_pos h]
  uncompress_short n z d hInflate h := by
    simp only [hInflate, if_neg (Nat.not_le.2 h), true_and]
  uncompress_corrupt n z hInflate := by simp only [hInflate]
  compress_inside n d := by
    split
    · rename_i h
      exact Call.whole_inside h
    · exact ⟨List.length_take_le _ _, UInt64.le_refl n⟩
  uncompress_inside n z := by
    split
    · split
      · rename_i h
        exact Call.whole_inside h
      · exact ⟨List.length_take_le _ _, UInt64.le_refl n⟩
    · exact ⟨Nat.zero_le _, UInt64.le_refl n⟩

theorem nil_of_holds_corrupt {olen : UInt64} {z p : Bytes} (hNone : F.inflate z = none)
    (h : Holds ((careless F).expanded olen z) p) : p = [] := by
  have hSize := h.size_eq
  have hBytes := h.bytes_eq
  simp only [Zlib.expanded, careless, hNone, Call.obuf, Refbuffer.bytes, Option.getD_some,
    Block.overlay_nil, Block.malloc, List.take_replicate, Nat.min_self] at hSize hBytes
  cases p with
  | nil => rfl
  | cons c p =>
      rw [hSize, List.length_cons, List.replicate_succ, List.map_cons] at hBytes
      cases hBytes

/-- What `zcompress` makes of `x` where it makes anything of it. -/
def Format.ret (F : Format) (x : Object) : Bytes := if x.val = [] then [] else F.deflated x.val

/-- `x` comes back: every block is granted, and the compressed data fits twice
the size of `x` and an `int`. -/
structure Fits (F : Format) (heap : Heap) (x : Object) : Prop where
  double : heap.grants (x.size * 2)
  single : heap.grants x.size
  whole : heap.grants (UInt64.ofNat (putMessage x.size (F.ret x)).length + 0x20)
  length_le : (F.ret x).length ≤ 2 * x.val.length
  length_lt : (F.ret x).length < 2 ^ 31

/-- `d` is safe to expand: where it can be read, and the size in it is granted,
that size is zero or the text is not corrupt. -/
def Sound (F : Format) (heap : Heap) (d : Object) : Prop :=
  ∀ size buf s, sized (Cursor.ofObject d) = (.ok (size, buf), s) → heap.grants size.toUInt64 →
    size.toUInt64 = 0 ∨ (F.inflate buf).isSome

theorem Fits.roundTrips (h : Fits F heap x) (Z : Zlib F) : Z.RoundTrips heap x := by
  have hDouble := toNat_size_double x
  have hRet : Z.ret heap x = F.ret x := by
    rw [Format.ret]
    split
    · exact ret_of_nil ‹_›
    · rename_i hSome
      have hLe := h.length_le
      rw [Format.ret, if_neg hSome, ← hDouble] at hLe
      exact ret_of_fits hLe
  rw [roundTrips_iff_holds, hRet]
  refine ⟨h.double, h.length_lt, h.whole, h.single, ?_⟩
  by_cases hNil : x.val = []
  · have hSize : x.size = 0 := by
      rw [Object.size, hNil]
      rfl
    rw [hSize, hNil]
    exact holds_expanded_zero Z _
  · rw [Format.ret, if_neg hNil]
    exact holds_expanded_of_fits (F.inflate_deflated _) x.toNat_size.ge

/-- With a careless zlib nothing else comes back. -/
theorem fits_of_roundTrips (h : (careless F).RoundTrips heap x) : Fits F heap x := by
  have hDouble := toNat_size_double x
  obtain ⟨hOlen, hShort, hLast, hSize, hHolds⟩ := (roundTrips_iff_holds _ _ _).1 h
  by_cases hNil : x.val = []
  · have hRet : F.ret x = [] := if_pos hNil
    rw [ret_of_nil hNil] at hLast
    exact ⟨hOlen, hSize, by rw [hRet]; exact hLast, by simp [hRet], by simp [hRet]⟩
  · have hRet : F.ret x = F.deflated x.val := if_neg hNil
    by_cases hFits : (F.deflated x.val).length ≤ (x.size * 2).toNat
    · rw [ret_of_fits hFits] at hShort hLast
      exact ⟨hOlen, hSize, by rw [hRet]; exact hLast, by rw [hRet, ← hDouble]; exact hFits,
        by rw [hRet]; exact hShort⟩
    · -- what is left of the stream is not one
      have hCut : (careless F).ret heap x = (F.deflated x.val).take (x.size * 2).toNat := by
        have hTake := take_obuf (d := (F.deflated x.val).take (x.size * 2).toNat)
          (List.length_take_le _ _)
        rw [List.length_take, Nat.min_eq_left (Nat.le_of_not_le hFits)] at hTake
        simp only [Zlib.ret, careless, if_neg hFits, Call.obuf]
        rw [hTake, read_map_some]
      have hNone : F.inflate ((careless F).ret heap x) = none := by
        rw [hCut]
        refine F.inflate_prefix x.val _ (List.take_prefix _ _) fun hAll => hFits ?_
        rw [← hAll]
        exact List.length_take_le _ _
      refine absurd hHolds fun hHolds => hNil ?_
      exact nil_of_holds_corrupt hNone hHolds

theorem safe_sized : Cursor.Safe 2 sized :=
  Cursor.safe_getPN.bind fun n => Cursor.safe_getPSTR.map fun buf => (n.toInt64, buf)

/-- `zexpand` on what its reader does. -/
theorem expands_iff (Z : Zlib F) : Z.Expands heap d ↔
    ∀ size buf s, sized (Cursor.ofObject d) = (.ok (size, buf), s) → heap.grants size.toUInt64 →
      ∃ p, Holds (Z.expanded size.toUInt64 buf) p := by
  obtain ⟨r, s, hRun, -, hEnd⟩ := safe_sized _ (Cursor.valid_ofObject d)
  simp only [Zlib.Expands, Zlib.zexpand, hRun]
  cases r with
  | error e =>
      refine iff_of_true hEnd fun size buf s' h => ?_
      cases h
  | ok r =>
      obtain ⟨size, buf⟩ := r
      by_cases hGrants : heap.grants size.toUInt64
      · simp only [if_pos hGrants]
        refine ⟨fun h size' buf' s' hSame _ => ?_, fun h => h size buf s rfl hGrants⟩
        cases hSame
        exact h
      · simp only [if_neg hGrants]
        refine iff_of_true trivial fun size' buf' s' hSame hSize => ?_
        cases hSame
        exact absurd hSize hGrants

theorem Sound.expands (h : Sound F heap d) (Z : Zlib F) : Z.Expands heap d := by
  rw [expands_iff]
  intro size buf s hRun hGrants
  rcases h size buf s hRun hGrants with hZero | hSome
  · rw [hZero]
    exact ⟨[], holds_expanded_zero Z buf⟩
  · obtain ⟨p, hInflate⟩ := Option.isSome_iff_exists.1 hSome
    rcases Nat.lt_or_ge size.toUInt64.toNat p.length with hShort | hFits
    · exact holds_expanded_of_short hInflate hShort
    · exact ⟨p, holds_expanded_of_fits hInflate hFits⟩

theorem sound_of_expands (h : (careless F).Expands heap d) : Sound F heap d := by
  rw [expands_iff] at h
  intro size buf s hRun hGrants
  obtain ⟨p, hHolds⟩ := h size buf s hRun hGrants
  cases hInflate : F.inflate buf with
  | some q => exact Or.inr rfl
  | none =>
      have hSize := hHolds.size_eq
      rw [nil_of_holds_corrupt hInflate hHolds] at hSize
      simp only [Zlib.expanded, careless, hInflate, List.length_nil] at hSize
      exact Or.inl (UInt64.toNat_inj.1 hSize)

end Every

/--
**What comes back, and what is safe to expand.** Data comes back from every
zlib exactly when its compressed form is no longer than twice its size, or it
is empty, and an `int` holds the length.  What `zexpand` hands out was stored
by every zlib exactly when the text it is given is not corrupt, or no size is
asked of it.
-/
theorem compression_iff (F : Format) (heap : Heap) :
    (∀ x : Object, (∀ Z : Zlib F, Z.RoundTrips heap x) ↔ Fits F heap x) ∧
    ∀ d : Object, (∀ Z : Zlib F, Z.Expands heap d) ↔ Sound F heap d :=
  ⟨fun _ => ⟨fun h => fits_of_roundTrips (h (careless F)), Fits.roundTrips⟩,
    fun _ => ⟨fun h => sound_of_expands (h (careless F)), Sound.expands⟩⟩

/-! ## One byte -/

/-- Bytes behind a mark each, and an end. -/
def stored (d : Bytes) : Bytes := d.flatMap (fun c => [1, c]) ++ [0]

def unstored : Bytes → Option Bytes
  | 0 :: z => if z = [] then some [] else none
  | 1 :: c :: z => (unstored z).map (c :: ·)
  | _ => none

/-- What zlib makes of `"a"`. -/
def nineBytes : Bytes := [0x78, 0x9c, 0x4b, 0x04, 0x00, 0x00, 0x62, 0x00, 0x62]

theorem unstored_stored (d : Bytes) : unstored (stored d) = some d := by
  induction d with
  | nil => rfl
  | cons c d ih =>
      show (unstored (stored d)).map (c :: ·) = _
      rw [ih, Option.map_some]

theorem unstored_prefix :
    ∀ d z : Bytes, z <+: stored d → z ≠ stored d → unstored z = none
  | [], z, hPre, hNe => by
      rcases List.prefix_cons_iff.1 (hPre : z <+: [0]) with rfl | ⟨t, rfl, hTail⟩
      · rfl
      · rw [List.prefix_nil.1 hTail] at hNe
        exact absurd rfl hNe
  | c :: d, z, hPre, hNe => by
      rcases List.prefix_cons_iff.1 (hPre : z <+: 1 :: c :: stored d) with rfl | ⟨t, rfl, hTail⟩
      · rfl
      · rcases List.prefix_cons_iff.1 hTail with rfl | ⟨u, rfl, hRest⟩
        · rfl
        · have hInner := unstored_prefix d u hRest fun hEq => hNe (by rw [hEq]; rfl)
          show (unstored u).map (c :: ·) = none
          rw [hInner, Option.map_none]

/-- The end of `stored d`, or the mark of its first byte. -/
theorem not_prefix_stored (d t : Bytes) : ¬ (0x9c :: t) <+: stored d := by
  rcases d with _ | ⟨c, d⟩ <;> simp [stored, List.cons_prefix_cons]

/-- zlib on `"a"`; everything else is stored. -/
def sample : Format where
  deflated d := if d = [0x61] then nineBytes else 0x78 :: stored d
  inflate z := if z = nineBytes then some [0x61] else
    match z with
    | 0x78 :: z => unstored z
    | _ => none
  inflate_deflated d := by
    by_cases hd : d = [0x61]
    · rw [if_pos hd, if_pos rfl, hd]
    · have hNot : 0x78 :: stored d ≠ nineBytes := by
        intro hEq
        refine not_prefix_stored d nineBytes.tail.tail ?_
        rw [(List.cons.inj hEq).2]
        exact List.prefix_refl _
      rw [if_neg hd, if_neg hNot]
      exact unstored_stored d
  inflate_prefix d z hPre hNe := by
    by_cases hd : d = [0x61]
    · rw [if_pos hd] at hPre hNe
      rw [if_neg hNe]
      rcases List.prefix_cons_iff.1 hPre with rfl | ⟨t, rfl, hTail⟩
      · rfl
      · rcases List.prefix_cons_iff.1 hTail with rfl | ⟨u, rfl, -⟩ <;> rfl
    · rw [if_neg hd] at hPre hNe
      have hNot : z ≠ nineBytes := by
        rintro rfl
        exact not_prefix_stored d _ (List.cons_prefix_cons.1 hPre).2
      rw [if_neg hNot]
      rcases List.prefix_cons_iff.1 hPre with rfl | ⟨t, rfl, hTail⟩
      · rfl
      · exact unstored_prefix d t hTail fun hEq => hNe (by rw [hEq])

/-- Everything that can be an object is granted. -/
def roomy : Heap := ⟨fun n => decide (n.toNat < 2 ^ 63), fun _ => 0, fun _ => of_decide_eq_true⟩

/-- `"a"` takes nine bytes and gets two; a corrupt text leaves five bytes as
they were. -/
theorem not_compression_of_short :
    ¬ (careless sample).RoundTrips roomy ⟨[0x61], by decide⟩ ∧
    ¬ (careless sample).Expands roomy ⟨[5, 1, 0], by decide⟩ ∧
    ¬ ∀ (F : Format) (Z : Zlib F), (∀ x, Z.RoundTrips roomy x) ∧ ∀ d, Z.Expands roomy d := by
  have hShort : ¬ (careless sample).RoundTrips roomy ⟨[0x61], by decide⟩ := by
    intro h
    have hBytes := ((roundTrips_iff_holds _ _ _).1 h).2.2.2.2.bytes_eq
    revert hBytes
    decide +kernel
  refine ⟨hShort, fun h => ?_, fun h => hShort ((h sample (careless sample)).1 _)⟩
  rw [expands_iff] at h
  obtain ⟨p, hHolds⟩ := h 5 [0] ⟨[5, 1, 0], 3, 3, 0, 0⟩ rfl rfl
  have hSize := hHolds.size_eq
  rw [nil_of_holds_corrupt rfl hHolds] at hSize
  cases hSize

end Megatron.CUtils
