import Mathlib.Data.List.Lex
import Mathlib.Data.List.TakeWhile
import Mathlib.Data.Prod.Lex
import Megatron.Corelib.RoundTrip
import Megatron.Lib.OrdSet

/-!
# Socket addresses

`msockaddr_in`: a union of the two kinds of address, which agree in where the
family and the port are.  On the wire an IPv4 address is three numbers in the
order of the host, an IPv6 address two numbers and its text.  Which order that
is, and the functions between addresses and texts, are the platform's.

## Main results

* `lt_eq`, `eq_eq` — addresses are compared by the family, the address and the
  port, as they lie in memory.
* `writes_pack`, `gives_unpack` — an address is written, and read back.
* `address_trips` — for every content of the target.
-/

namespace Megatron.Corelib

open Megatron.Lib

/-- `AF_INET`. -/
def afInet : UInt16 := 2

/-- `AF_INET6`. -/
def afInet6 : UInt16 := 10

/-- `msockaddr_in`, as it lies in memory: `sa4.sin_addr.s_addr` is also
`sa6.sin6_flowinfo`. -/
structure MsockaddrIn where
  family : UInt16
  port : UInt16
  sAddr : UInt32
  sin6Addr : Vector UInt8 16
  deriving DecidableEq

/-- The order of bytes of the host, and `inet_ntop` and `inet_pton` for
`AF_INET6`, the text without the NUL. -/
structure Inet where
  bigEndian : Bool
  ntop : Vector UInt8 16 → Bytes
  pton : Bytes → Option (Vector UInt8 16)

/-- What is known of the two functions: a text is C text of at most
`INET6_ADDRSTRLEN` bytes with its NUL, and gives the address it was made of. -/
structure Inet.Lawful (net : Inet) : Prop where
  pton_ntop : ∀ x, net.pton (net.ntop x) = some x
  length_ntop : ∀ x, (net.ntop x).length < 46
  noNul : ∀ x, 0 ∉ net.ntop x

namespace Inet

/-- `ntohs` and `htons`. -/
def ntohs (net : Inet) (x : UInt16) : UInt16 :=
  if net.bigEndian then x else UInt16.ofNat (x.toNat % 256 * 256 + x.toNat / 256)

/-- `ntohl` and `htonl`. -/
def ntohl (net : Inet) (x : UInt32) : UInt32 :=
  if net.bigEndian then x
  else UInt32.ofNat (((x.toNat % 256 * 256 + x.toNat / 256 % 256) * 256 +
    x.toNat / 65536 % 256) * 256 + x.toNat / 16777216)

/-- Two bytes, taken apart. -/
theorem swap16 {hi lo n : ℕ} (h₁ : hi < 256) (h₀ : lo < 256) (hn : n = 256 * hi + lo) :
    (UInt16.ofNat (n % 256 * 256 + n / 256)).toNat = 256 * lo + hi := by
  have hLow : n % 256 = lo := by omega
  have hHigh : n / 256 = hi := by omega
  rw [hLow, hHigh, UInt16.toNat_ofNat']
  omega

theorem ntohs_ntohs (net : Inet) (x : UInt16) : net.ntohs (net.ntohs x) = x := by
  have hLt := x.toNat_lt
  rw [ntohs, ntohs]
  split
  · rfl
  · apply UInt16.toNat_inj.1
    obtain ⟨hi, lo, hx, h₁, h₀⟩ : ∃ hi lo, x.toNat = 256 * hi + lo ∧ hi < 256 ∧ lo < 256 :=
      ⟨x.toNat / 256, x.toNat % 256, by omega, by omega, by omega⟩
    rw [swap16 h₀ h₁ (swap16 h₁ h₀ hx), hx]

/-- Four bytes, taken apart. -/
theorem swap32 {b₃ b₂ b₁ b₀ n : ℕ} (h₃ : b₃ < 256) (h₂ : b₂ < 256) (h₁ : b₁ < 256) (h₀ : b₀ < 256)
    (hn : n = 16777216 * b₃ + (65536 * b₂ + (256 * b₁ + b₀))) :
    (UInt32.ofNat (((n % 256 * 256 + n / 256 % 256) * 256 + n / 65536 % 256) * 256 +
      n / 16777216)).toNat = 16777216 * b₀ + (65536 * b₁ + (256 * b₂ + b₃)) := by
  have hByte₀ : n % 256 = b₀ := by omega
  have hRest₁ : n / 256 = 65536 * b₃ + (256 * b₂ + b₁) := by omega
  have hRest₂ : n / 65536 = 256 * b₃ + b₂ := by omega
  have hByte₃ : n / 16777216 = b₃ := by omega
  have hByte₁ : n / 256 % 256 = b₁ := by
    rw [hRest₁]
    omega
  have hByte₂ : n / 65536 % 256 = b₂ := by
    rw [hRest₂]
    omega
  rw [hByte₀, hByte₁, hByte₂, hByte₃, UInt32.toNat_ofNat', Nat.mod_eq_of_lt (by omega)]
  omega

theorem ntohl_ntohl (net : Inet) (x : UInt32) : net.ntohl (net.ntohl x) = x := by
  have hLt := x.toNat_lt
  rw [ntohl, ntohl]
  split
  · rfl
  · apply UInt32.toNat_inj.1
    obtain ⟨b₃, b₂, b₁, b₀, hx, h₃, h₂, h₁, h₀⟩ : ∃ b₃ b₂ b₁ b₀,
        x.toNat = 16777216 * b₃ + (65536 * b₂ + (256 * b₁ + b₀)) ∧
          b₃ < 256 ∧ b₂ < 256 ∧ b₁ < 256 ∧ b₀ < 256 :=
      ⟨x.toNat / 16777216, x.toNat / 65536 % 256, x.toNat / 256 % 256, x.toNat % 256,
        by omega, by omega, by omega, by omega, by omega⟩
    rw [swap32 h₀ h₁ h₂ h₃ (swap32 h₃ h₂ h₁ h₀ hx), hx]

end Inet

/-- `s.c_str()`. -/
def cStr (s : Bytes) : Bytes := s.takeWhile (· ≠ 0)

theorem cStr_subset (s : Bytes) : cStr s ⊆ s := List.takeWhile_subset _

theorem length_cStr_le (s : Bytes) : (cStr s).length ≤ s.length :=
  (List.takeWhile_sublist _).length_le

theorem cStr_of_noNul {s : Bytes} (h : 0 ∉ s) : cStr s = s := by
  refine List.takeWhile_eq_self_iff.2 fun c hc => ?_
  have hNe : c ≠ 0 := by
    rintro rfl
    exact h hc
  simpa using hNe

namespace MsockaddrIn

/-- `family()`, an `int8_t`. -/
def family8 (a : MsockaddrIn) : Int8 := a.family.toUInt8.toInt8

/-- The constructor. -/
def construct : MsockaddrIn := ⟨afInet, 0, 0, Vector.replicate 16 0⟩

/-- The loop of `operator<` over the bytes of two IPv6 addresses; there is no
verdict where it comes to the end. -/
def ltLoop : Bytes → Bytes → Option Bool
  | x :: xs, y :: ys => if x < y then some true else if x > y then some false else ltLoop xs ys
  | _, _ => none

/-- The verdict on the ports. -/
def ltPort (a b : MsockaddrIn) : Bool :=
  if a.port < b.port then true else if a.port > b.port then false else false

/-- `operator<`. -/
def lt (a b : MsockaddrIn) : Except CommonError Bool :=
  if a.family8 < b.family8 then .ok true
  else if a.family8 > b.family8 then .ok false
  else if a.family8 = 2 then
    if a.sAddr < b.sAddr then .ok true
    else if a.sAddr > b.sAddr then .ok false
    else .ok (ltPort a b)
  else if a.family8 = 10 then
    match ltLoop a.sin6Addr.toList b.sin6Addr.toList with
    | some v => .ok v
    | none => .ok (ltPort a b)
  else .error ⟨"1 invalid family " ++ toString a.family8.toInt ++ " "⟩

/-- `operator==`. -/
def eq (a b : MsockaddrIn) : Except CommonError Bool :=
  if a.family8 ≠ b.family8 then .ok false
  else if a.family8 = 2 then
    if a.sAddr ≠ b.sAddr then .ok false
    else if a.port ≠ b.port then .ok false
    else .ok true
  else if a.family8 = 10 then
    if a.port ≠ b.port then .ok false
    else if a.sin6Addr ≠ b.sin6Addr then .ok false
    else .ok true
  else .error ⟨"3 invalid family " ++ toString a.family8.toInt ++ " "⟩

/-- `pack`. -/
def pack (net : Inet) (a : MsockaddrIn) (o : OutBuffer) : Option (Except CommonError OutBuffer) :=
  if a.family8 = 2 then do
    let o ← o.putPN a.family.toUInt64
    let o ← o.putPN (net.ntohs a.port).toUInt64
    return .ok (← o.putPN (net.ntohl a.sAddr).toUInt64)
  else if a.family8 = 10 then do
    let o ← o.putPN a.family.toUInt64
    let o ← o.putPN (net.ntohs a.port).toUInt64
    return .ok (← o.putPSTR (net.ntop a.sin6Addr))
  else some (.error ⟨"3 invalid family " ++ toString a.family8.toInt ++ " "⟩)

/-- `unpack`: what an address becomes.  What an exception leaves of it is not
here. -/
def unpack (net : Inet) (a : MsockaddrIn) : In MsockaddrIn := do
  let fam := (← Cursor.getPN).toUInt8
  if fam = 2 then
    let port := net.ntohs (← Cursor.getPN).toUInt16
    let sAddr := net.ntohl (← Cursor.getPN).toUInt32
    return { a with family := fam.toUInt16, port := port, sAddr := sAddr }
  else if fam = 10 then
    let port := net.ntohs (← Cursor.getPN).toUInt16
    let s ← Cursor.getPSTR
    return { a with
      family := fam.toUInt16
      port := port
      sin6Addr := (net.pton (cStr s)).getD a.sin6Addr }
  else throw (.thrown ⟨"2 invalid family " ++ toString fam.toNat ++ " "⟩)

/-! ## What an address is -/

/-- An IPv4 or an IPv6 address. -/
def IsInet (a : MsockaddrIn) : Prop := a.family8 = 2 ∨ a.family8 = 10

instance : DecidablePred IsInet := fun _ => inferInstanceAs (Decidable (_ ∨ _))

/-- The address and nothing else. -/
def host (a : MsockaddrIn) : List ℕ :=
  if a.family8 = 2 then [a.sAddr.toNat] else a.sin6Addr.toList.map UInt8.toNat

/-- What two addresses are compared by. -/
def key (a : MsockaddrIn) : ℤ ×ₗ List ℕ ×ₗ ℕ :=
  toLex (a.family8.toInt, toLex (a.host, a.port.toNat))

/-- The address is packed into a new `outBuffer`.  From the bytes that hands
out, whatever follows, `target` becomes an equal address. -/
def Trips (net : Inet) (a target : MsockaddrIn) : Prop :=
  ∃ o b, a.pack net OutBuffer.construct = some (.ok o) ∧
    o.asString.buffer.size_.toNat = b.length ∧ o.asString.buffer.bytes = b.map some ∧
    ∀ (tail : Bytes) (d : Object), d.val = b ++ tail →
      ∃ x s, target.unpack net (Cursor.ofObject d) = (.ok x, s) ∧ x.eq a = .ok true ∧
        s.outPos.toNat = b.length

variable {net : Inet} {a b : MsockaddrIn}

/-! ### Comparing -/

theorem ltLoop_eq (xs : Bytes) :
    ∀ ys : Bytes, xs.length = ys.length →
      (ltLoop xs ys = none ∧ xs = ys) ∨
        xs ≠ ys ∧ ltLoop xs ys = some (decide (xs.map UInt8.toNat < ys.map UInt8.toNat)) := by
  induction xs with
  | nil =>
      intro ys hLen
      exact Or.inl ⟨rfl, (List.length_eq_zero_iff.1 hLen.symm).symm⟩
  | cons x xs ih =>
      intro ys hLen
      cases ys with
      | nil => cases hLen
      | cons y ys =>
          simp only [ltLoop, List.map_cons, List.cons_lt_cons_iff]
          by_cases hLt : x < y
          · have hNat := UInt8.lt_iff_toNat_lt.1 hLt
            exact Or.inr ⟨by rintro ⟨rfl⟩; exact absurd hLt (UInt8.lt_irrefl x), by simp [hLt, hNat]⟩
          · by_cases hGt : x > y
            · have hNat := UInt8.lt_iff_toNat_lt.1 hGt
              refine Or.inr ⟨by rintro ⟨rfl⟩; exact absurd hGt (UInt8.lt_irrefl x), ?_⟩
              simp [hLt, hGt, hNat.le, hNat.ne']
            · have hSame : x = y := UInt8.le_antisymm (UInt8.not_lt.1 hGt) (UInt8.not_lt.1 hLt)
              rcases ih ys (Nat.succ.inj hLen) with ⟨hNone, rfl⟩ | ⟨hNe, hSome⟩
              · exact Or.inl ⟨by simp [hSame, hNone], by rw [hSame]⟩
              · refine Or.inr ⟨fun h => hNe (List.cons.inj h).2, ?_⟩
                simp [hSame, hSome]

theorem ltPort_eq (a b : MsockaddrIn) : ltPort a b = decide (a.port.toNat < b.port.toNat) := by
  rw [ltPort]
  by_cases hLt : a.port < b.port
  · simp [hLt, UInt16.lt_iff_toNat_lt.1 hLt]
  · have hNat := mt UInt16.lt_iff_toNat_lt.2 hLt
    simp [hLt, hNat]

/-- **Addresses are compared by their keys.** -/
theorem lt_eq (ha : a.IsInet) (b : MsockaddrIn) : a.lt b = .ok (decide (a.key < b.key)) := by
  rw [lt]
  simp only [key, Prod.Lex.toLex_lt_toLex]
  by_cases hLt : a.family8 < b.family8
  · simp [hLt, Int8.lt_iff_toInt_lt.1 hLt]
  · have hNotLt := mt Int8.lt_iff_toInt_lt.2 hLt
    by_cases hGt : a.family8 > b.family8
    · have hNe := (Int8.lt_iff_toInt_lt.1 hGt).ne'
      simp [hLt, hGt, hNotLt, hNe]
    · have hSame : a.family8 = b.family8 :=
        Int8.le_antisymm (Int8.not_lt.1 hGt) (Int8.not_lt.1 hLt)
      rw [if_neg hLt, if_neg hGt]
      rcases ha with h4 | h6
      · rw [if_pos h4]
        have hHost : a.host = [a.sAddr.toNat] ∧ b.host = [b.sAddr.toNat] :=
          ⟨by rw [host, if_pos h4], by rw [host, if_pos (hSame ▸ h4)]⟩
        rw [hSame, hHost.1, hHost.2, ltPort_eq]
        by_cases hLess : a.sAddr < b.sAddr
        · simp [hLess, List.cons_lt_cons_iff, UInt32.lt_iff_toNat_lt.1 hLess]
        · by_cases hMore : a.sAddr > b.sAddr
          · have hNat := UInt32.lt_iff_toNat_lt.1 hMore
            simp [hLess, hMore, List.cons_lt_cons_iff, hNat.ne', hNat.le]
          · have hEq : a.sAddr = b.sAddr :=
              UInt32.le_antisymm (UInt32.not_lt.1 hMore) (UInt32.not_lt.1 hLess)
            simp [hEq, UInt32.lt_irrefl]
      · have h4 : ¬ a.family8 = 2 := by
          rw [h6]
          decide
        rw [if_neg h4, if_pos h6]
        have hHost : a.host = a.sin6Addr.toList.map UInt8.toNat ∧
            b.host = b.sin6Addr.toList.map UInt8.toNat :=
          ⟨by rw [host, if_neg h4], by rw [host, if_neg (hSame ▸ h4)]⟩
        rw [hSame, hHost.1, hHost.2, ltPort_eq]
        rcases ltLoop_eq a.sin6Addr.toList b.sin6Addr.toList (by simp) with
          ⟨hNone, hEq⟩ | ⟨hNe, hSome⟩
        · rw [hNone, hEq]
          simp
        · have hMap : a.sin6Addr.toList.map UInt8.toNat ≠ b.sin6Addr.toList.map UInt8.toNat :=
            fun h => hNe ((List.map_injective_iff.2 fun x y => UInt8.toNat_inj.1) h)
          rw [hSome]
          simp [hMap]

theorem eq_eq (ha : a.IsInet) (b : MsockaddrIn) : a.eq b = .ok (decide (a.key = b.key)) := by
  rw [eq]
  have hKey : a.key = b.key ↔ a.family8 = b.family8 ∧ a.host = b.host ∧ a.port = b.port := by
    simp only [key, EmbeddingLike.apply_eq_iff_eq, Prod.mk.injEq, Int8.toInt_inj, UInt16.toNat_inj]
  simp only [hKey]
  by_cases hSame : a.family8 = b.family8
  · rw [if_neg (not_not.2 hSame)]
    rcases ha with h4 | h6
    · have hHost : a.host = b.host ↔ a.sAddr = b.sAddr := by
        rw [host, host, if_pos h4, if_pos (hSame ▸ h4)]
        simp [UInt32.toNat_inj]
      rw [if_pos h4]
      by_cases hAddr : a.sAddr = b.sAddr
      · by_cases hPort : a.port = b.port <;> simp [hSame, hHost, hAddr, hPort]
      · simp [hSame, hHost, hAddr]
    · have h4 : ¬ a.family8 = 2 := by
        rw [h6]
        decide
      have hHost : a.host = b.host ↔ a.sin6Addr = b.sin6Addr := by
        rw [host, host, if_neg h4, if_neg (hSame ▸ h4),
          (List.map_injective_iff.2 fun x y => UInt8.toNat_inj.1).eq_iff, Vector.toList_inj]
      rw [if_neg h4, if_pos h6]
      by_cases hPort : a.port = b.port
      · by_cases hAddr : a.sin6Addr = b.sin6Addr <;> simp [hSame, hHost, hAddr, hPort]
      · simp [hSame, hPort]
  · simp [hSame]

theorem eq_of_key (ha : a.IsInet) (h : a.key = b.key) : a.eq b = .ok true := by
  simp only [eq_eq ha, h, decide_true]

/-! ### Packing -/

/-- The bytes of an address. -/
def put (net : Inet) (a : MsockaddrIn) : Bytes :=
  putPN a.family.toUInt64 ++ (putPN (net.ntohs a.port).toUInt64 ++
    if a.family8 = 2 then putPN (net.ntohl a.sAddr).toUInt64 else putPSTR (net.ntop a.sin6Addr))

theorem length_put_le (hNet : net.Lawful) (a : MsockaddrIn) : (a.put net).length ≤ 76 := by
  have hFamily := OutBuffer.length_putPN_le a.family.toUInt64
  have hPort := OutBuffer.length_putPN_le (net.ntohs a.port).toUInt64
  have hAddr := OutBuffer.length_putPN_le (net.ntohl a.sAddr).toUInt64
  have hText := hNet.length_ntop a.sin6Addr
  have hSize := OutBuffer.length_putPN_le (UInt64.ofNat (net.ntop a.sin6Addr).length)
  rw [put, List.length_append, List.length_append]
  split
  · omega
  · rw [putPSTR, List.length_append]
    omega

/-- **An address is written.** -/
theorem writes_pack (hNet : net.Lawful) (ha : a.IsInet) :
    ∃ w, (∀ o, a.pack net o = (w o).map .ok) ∧ Writes w (a.put net) := by
  have hText : (net.ntop a.sin6Addr).length < 2 ^ 31 :=
    (hNet.length_ntop a.sin6Addr).trans (by decide)
  by_cases h4 : a.family8 = 2
  · refine ⟨fun o => (o.putPN a.family.toUInt64).bind fun o =>
      (o.putPN (net.ntohs a.port).toUInt64).bind fun o =>
        o.putPN (net.ntohl a.sAddr).toUInt64, fun o => ?_, ?_⟩
    · rw [pack, if_pos h4]
      simp only [Option.bind_eq_bind, Option.pure_def, Option.map_eq_bind, Option.bind_assoc,
        Function.comp_def]
    · rw [put, if_pos h4]
      exact (writes_putPN _).bind ((writes_putPN _).bind (writes_putPN _))
  · refine ⟨fun o => (o.putPN a.family.toUInt64).bind fun o =>
      (o.putPN (net.ntohs a.port).toUInt64).bind fun o =>
        o.putPSTR (net.ntop a.sin6Addr), fun o => ?_, ?_⟩
    · rw [pack, if_neg h4, if_pos (ha.resolve_left h4)]
      simp only [Option.bind_eq_bind, Option.pure_def, Option.map_eq_bind, Option.bind_assoc,
        Function.comp_def]
    · rw [put, if_neg h4]
      exact (writes_putPN _).bind ((writes_putPN _).bind (writes_putPSTR hText))

/-! ### Unpacking -/

theorem cStr_ntop (hNet : net.Lawful) (x : Vector UInt8 16) : cStr (net.ntop x) = net.ntop x :=
  cStr_of_noNul (hNet.noNul x)

theorem toUInt8_family (a : MsockaddrIn) : a.family.toUInt64.toUInt8.toInt8 = a.family8 := by
  rw [family8]
  simp

open Cursor in
/-- **An address is read back**, whatever the target was. -/
theorem gives_unpack (hNet : net.Lawful) (ha : a.IsInet) (target : MsockaddrIn) :
    Gives (target.unpack net) (a.put net) fun _ _ x => x.IsInet ∧ x.key = a.key := by
  intro s tail hs hRest
  have hText : (net.ntop a.sin6Addr).length < 2 ^ 64 :=
    (hNet.length_ntop a.sin6Addr).trans (by decide)
  rw [put, List.append_assoc, List.append_assoc] at hRest
  obtain ⟨_, s₁, hFamily, hKept₁, hRest₁, rfl⟩ := gives_getPN _ s _ hs hRest
  obtain ⟨_, s₂, hPort, hKept₂, hRest₂, rfl⟩ := gives_getPN _ s₁ _ hKept₁.valid hRest₁
  have hPort' : net.ntohs (net.ntohs a.port).toUInt64.toUInt16 = a.port := by
    rw [UInt16.toUInt16_toUInt64, Inet.ntohs_ntohs]
  have hFam := a.toUInt8_family
  by_cases h4 : a.family8 = 2
  · rw [if_pos h4] at hRest₂
    obtain ⟨_, s₃, hAddr, hKept₃, hRest₃, rfl⟩ := gives_getPN _ s₂ _ hKept₂.valid hRest₂
    have hAddr' : net.ntohl (net.ntohl a.sAddr).toUInt64.toUInt32 = a.sAddr := by
      rw [UInt32.toUInt32_toUInt64, Inet.ntohl_ntohl]
    have hTwo : a.family.toUInt64.toUInt8 = 2 := congrArg Int8.toUInt8 (hFam.trans h4)
    let x : MsockaddrIn := { target with family := 2, port := a.port, sAddr := a.sAddr }
    have hx : x.family8 = 2 := by
      show (2 : UInt16).toUInt8.toInt8 = 2
      decide
    refine ⟨x, s₃, ?_, (hKept₁.trans hKept₂).trans hKept₃, hRest₃, Or.inl hx, ?_⟩
    · rw [unpack, bind_ok hFamily]
      simp only [hTwo, if_true]
      rw [bind_ok hPort, bind_ok hAddr, hPort', hAddr']
      rfl
    · rw [key, key, host, host, if_pos hx, if_pos h4, hx, h4]
  · have h6 := ha.resolve_left h4
    rw [if_neg h4] at hRest₂
    obtain ⟨_, s₃, hAddr, hKept₃, hRest₃, rfl⟩ := gives_getPSTR hText s₂ _ hKept₂.valid hRest₂
    have hTen : a.family.toUInt64.toUInt8 = 10 := congrArg Int8.toUInt8 (hFam.trans h6)
    let x : MsockaddrIn := { target with family := 10, port := a.port, sin6Addr := a.sin6Addr }
    have hx : x.family8 = 10 := by
      show (10 : UInt16).toUInt8.toInt8 = 10
      decide
    refine ⟨x, s₃, ?_, (hKept₁.trans hKept₂).trans hKept₃, hRest₃, Or.inr hx, ?_⟩
    · have hNot : ¬ (10 : UInt8) = 2 := by decide
      rw [unpack, bind_ok hFamily]
      simp only [hTen, hNot, if_true, if_false]
      rw [bind_ok hPort, bind_ok hAddr, hPort', cStr_ntop hNet, hNet.pton_ntop]
      rfl
    · rw [key, key, host, host, if_neg (by rw [hx]; decide), if_neg h4, hx, h6]

end MsockaddrIn

/-! ## Out of one buffer into another -/

/-- What a writer stores in a new `outBuffer`, a reader gives back out of what
that hands out, and stops behind it. -/
theorem handed_over {α : Type} {w : OutBuffer → Option OutBuffer} {enc : Bytes} {p : In α}
    {C : Nat → Nat → α → Prop} (hWrite : Writes w enc) (hLen : enc.length < 2 ^ 63)
    (hRead : Cursor.Gives p enc C) :
    ∃ o, w OutBuffer.construct = some o ∧ o.asString.buffer.size_.toNat = enc.length ∧
      o.asString.buffer.bytes = enc.map some ∧
      ∀ (tail : Bytes) (d : Object), d.val = enc ++ tail →
        ∃ x s, p (Cursor.ofObject d) = (.ok x, s) ∧ C 0 s.made x ∧ s.outPos.toNat = enc.length := by
  have hZero : OutBuffer.construct.curPos.toNat = 0 := rfl
  obtain ⟨o, hRun, hStored, hPos⟩ := hWrite _ proper_construct (by omega)
  rw [hZero, Nat.zero_add] at hPos
  obtain ⟨hSize, hOut⟩ := bytes_asString hStored hPos hLen
  refine ⟨o, hRun, ?_, hOut, fun tail d hd => ?_⟩
  · rw [hSize, UInt64.toNat_ofNat_of_lt' (hLen.trans (by decide))]
  · obtain ⟨x, s, hGet, hKept, hRest, hx⟩ :=
      hRead (Cursor.ofObject d) tail (Cursor.valid_ofObject d) hd
    exact ⟨x, s, hGet, hx, hKept.outPos_eq hd hRest⟩

/-- **An address comes back**, whatever the target was. -/
theorem MsockaddrIn.address_trips {net : Inet} (hNet : net.Lawful) {a : MsockaddrIn}
    (ha : a.IsInet) (target : MsockaddrIn) : Trips net a target := by
  obtain ⟨w, hPack, hWrite⟩ := writes_pack hNet ha
  have hLen := length_put_le hNet a
  obtain ⟨o, hRun, hSize, hBytes, hBack⟩ :=
    handed_over hWrite (Nat.lt_of_le_of_lt hLen (by decide)) (gives_unpack hNet ha target)
  refine ⟨o, a.put net, by rw [hPack, hRun]; rfl, hSize, hBytes, fun tail d hd => ?_⟩
  obtain ⟨x, s, hGet, ⟨hInet, hKey⟩, hPos⟩ := hBack tail d hd
  exact ⟨x, s, hGet, eq_of_key hInet hKey, hPos⟩

end Megatron.Corelib
