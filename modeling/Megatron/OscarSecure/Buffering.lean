import Megatron.OscarSecure.Service

/-!
# What a peer can make a secure socket hold

The loop of `on_StreamRead` looks at the announced length when the payload is
complete, and not before.  A peer that announces more than `m_maxPacketSize`
and sends less is waited for; so is one that never ends its length header.  And
a hello leaves the loop with whatever stands behind it.

`InOrder` says of the bytes in the buffer that none of this is there.  It asks
for start bytes, headers and lengths only: which frames the handshake lets pass,
and what they decrypt to, does not matter to it.

## Main results

* `takeFrame_header` — what the locked section does with a complete header.
* `bounded_iff` — in a run whose buffers are in order a socket that is open
  after `on_StreamRead` holds less than one packet; and where it is open, it
  does so only if its buffer was in order.
* `announced_is_held` — a packet announced too long, buffered as it comes.
-/

namespace Megatron.OscarSecure

open Megatron.Corelib Megatron.Lib Megatron.Ssl

variable {Key ρ : Type}

/-- The announced length, and the position behind it, where both the start byte
and the length header are complete. -/
def header (mxData : Bytes) : Option (UInt64 × Nat) :=
  match (InBuffer.ofBytes mxData).get8Nothrow with
  | (none, _) => none
  | (some _, b) =>
      match b.getPNNothrow with
      | (none, _) => none
      | (some len, b) => some (len, b.outPos)

/-- One start byte, one length header and `m_maxPacketSize` payload bytes. -/
def packetBound (maxPacketSize : UInt64) : Nat := 1 + 10 + maxPacketSize.toNat

/-- Less than a packet is held, and no longer one has been announced. -/
def Held (maxPacketSize : UInt64) (mxData : Bytes) : Prop :=
  mxData.length < packetBound maxPacketSize ∧
    ∀ len pos, header mxData = some (len, pos) → len ≤ maxPacketSize

instance (maxPacketSize : UInt64) (mxData : Bytes) : Decidable (Held maxPacketSize mxData) :=
  decidable_of_iff (mxData.length < packetBound maxPacketSize ∧
      ∀ p ∈ header mxData, p.1 ≤ maxPacketSize)
    (and_congr_right fun _ => ⟨fun h len pos hSome => h (len, pos) hSome,
      fun h p hSome => h p.1 p.2 hSome⟩)

/-! ## The bytes in the buffer -/

/-- The bytes of a length header: all but the last are marked. -/
def LengthHeader (hd : Bytes) : Prop :=
  ∃ cs c, hd = cs ++ [c] ∧ (∀ d ∈ cs, ¬ d < 0x80) ∧ c < 0x80

/-- `NN<<=7; NN|=c&0x7F`. -/
def shiftIn (nn : UInt64) (c : UInt8) : UInt64 := nn <<< 7 ||| (c &&& 0x7F).toUInt64

/-- The length that a header announces, seven bits a byte; of a header of more
than ten bytes only the last 64 bits count. -/
def announced (hd : Bytes) : UInt64 := hd.foldl shiftIn 0

/-- A complete frame as it stands in the buffer. Its header may be longer than
the length needs. -/
structure RawFrame where
  startByte : UInt8
  lengthHeader : Bytes
  req : Bytes
  ends : LengthHeader lengthHeader
  complete : req.length = (announced lengthHeader).toNat

namespace RawFrame

def bytes (f : RawFrame) : Bytes := f.startByte :: (f.lengthHeader ++ f.req)

/-- A hello of either kind. -/
def Hello (f : RawFrame) : Prop := f.startByte = sbHelloSslS2C ∨ f.startByte = sbHelloSsl2S2C

end RawFrame

/-- The buffer is some frames within `m_maxPacketSize`, none of them a hello,
and `rest` behind them. -/
def Behind (maxPacketSize : UInt64) (mxData rest : Bytes) : Prop :=
  ∃ fs : List RawFrame, mxData = fs.flatMap RawFrame.bytes ++ rest ∧
    ∀ f ∈ fs, f.req.length ≤ maxPacketSize.toNat ∧ ¬ f.Hello

/-- What a buffer must look like behind the frames that the loop can take: a
header that is not complete is short; the length of a payload that is not
complete is within `m_maxPacketSize`, and was announced in ten bytes unless the
frame is still short; and the first hello has less than one packet behind it. -/
structure InOrder (maxPacketSize : UInt64) (mxData : Bytes) : Prop where
  header : ∀ startByte cs, Behind maxPacketSize mxData (startByte :: cs) →
    (∀ c ∈ cs, ¬ c < 0x80) → cs.length < 10 + maxPacketSize.toNat
  payload : ∀ startByte hd part, Behind maxPacketSize mxData (startByte :: (hd ++ part)) →
    LengthHeader hd → part.length < (announced hd).toNat →
      announced hd ≤ maxPacketSize ∧
        (hd.length ≤ 10 ∨ hd.length + part.length < 10 + maxPacketSize.toNat)
  hello : ∀ (h : RawFrame) rest, Behind maxPacketSize mxData (h.bytes ++ rest) → h.Hello →
    h.req.length ≤ maxPacketSize.toNat →
      rest.length < packetBound maxPacketSize ∧
        ∀ startByte hd part, rest = startByte :: (hd ++ part) → LengthHeader hd →
          announced hd ≤ maxPacketSize

/-! ## The length header -/

/-- The last byte of a header has no mark to strip. -/
theorem unmarked_and {c : UInt8} (h : c < 0x80) : c &&& 0x7F = c := by
  have hLt : c.toNat < 128 := UInt8.lt_iff_toNat_lt.1 h
  apply UInt8.toNat_inj.1
  rw [UInt8.toNat_and, show (0x7F : UInt8).toNat = 2 ^ 7 - 1 from rfl,
    Nat.and_two_pow_sub_one_eq_mod]
  exact Nat.mod_eq_of_lt hLt

theorem pnLoop_ends {c : UInt8} (hc : c < 0x80) {part : Bytes} (cs : Bytes) :
    (∀ d ∈ cs, ¬ d < 0x80) → ∀ (fuel : Nat) (nn : UInt64) (b : InBuffer), cs.length < fuel →
      b.rest = cs ++ c :: part →
      ∃ b', InBuffer.pnLoop fuel nn b =
          (some ((cs ++ [c]).foldl shiftIn nn), b') ∧
        b'.rest = part ∧ b'.mData = b.mData := by
  induction cs with
  | nil =>
      intro _ fuel nn b hFuel hb
      obtain ⟨fuel, rfl⟩ : ∃ m, fuel = m + 1 := ⟨fuel - 1, by simp at hFuel; omega⟩
      obtain ⟨b', hGet, hRest, hData⟩ := InBuffer.get8Nothrow_cons hb
      refine ⟨b', ?_, hRest, hData⟩
      rw [InBuffer.pnLoop, hGet]
      simp [shiftIn, hc, unmarked_and hc]
  | cons d cs ih =>
      intro hMarked fuel nn b hFuel hb
      obtain ⟨fuel, rfl⟩ : ∃ m, fuel = m + 1 := ⟨fuel - 1, by omega⟩
      obtain ⟨b₁, hGet, hRest, hData⟩ := InBuffer.get8Nothrow_cons hb
      rw [List.forall_mem_cons] at hMarked
      obtain ⟨b', hLoop, hRest', hData'⟩ := ih hMarked.2 fuel
        (shiftIn nn d) b₁ (Nat.lt_of_succ_lt_succ hFuel) hRest
      refine ⟨b', ?_, hRest', hData'.trans hData⟩
      rw [InBuffer.pnLoop, hGet]
      dsimp only
      rw [if_neg hMarked.1]
      exact hLoop

/-- The reads in front of the payload. -/
theorem reads_header {hd : Bytes} (hHeader : LengthHeader hd) (startByte : UInt8) (part : Bytes) :
    ∃ b b', (InBuffer.ofBytes (startByte :: (hd ++ part))).get8Nothrow = (some startByte, b) ∧
      b.getPNNothrow = (some (announced hd), b') ∧ b'.rest = part ∧
      b'.mData = startByte :: (hd ++ part) ∧ b'.outPos = 1 + hd.length := by
  obtain ⟨cs, c, rfl, hMarked, hc⟩ := hHeader
  obtain ⟨b, hGet, hRest, hData⟩ := InBuffer.get8Nothrow_cons
    (InBuffer.rest_ofBytes (startByte :: (cs ++ [c] ++ part)))
  have hBytes : b.rest = cs ++ c :: part := by simpa using hRest
  have hFuel : cs.length < b.remains + 1 := by
    rw [← InBuffer.length_rest, hBytes, List.length_append]
    omega
  obtain ⟨b', hLoop, hRest', hData'⟩ := pnLoop_ends hc cs hMarked _ 0 b hFuel hBytes
  have hAll : b'.mData = startByte :: (cs ++ [c] ++ part) := hData'.trans hData
  refine ⟨b, b', hGet, hLoop, hRest', hAll, ?_⟩
  have hLe := b'.outPos_le
  have hLeft := congrArg List.length hRest'
  rw [InBuffer.length_rest, InBuffer.remains] at hLeft
  rw [hAll] at hLe hLeft
  simp only [List.length_cons, List.length_append, List.length_nil] at hLe hLeft ⊢
  omega

/-- A header that is not complete is not read. -/
theorem reads_marked {cs : Bytes} (hMarked : ∀ c ∈ cs, ¬ c < 0x80) (startByte : UInt8) :
    ∃ b b', (InBuffer.ofBytes (startByte :: cs)).get8Nothrow = (some startByte, b) ∧
      b.getPNNothrow = (none, b') := by
  obtain ⟨b, hGet, hRest, -⟩ := InBuffer.get8Nothrow_cons (InBuffer.rest_ofBytes (startByte :: cs))
  obtain ⟨b', hLoop⟩ := InBuffer.pnLoop_marked (b.remains + 1) 0 b (by rwa [hRest])
  exact ⟨b, b', hGet, hLoop⟩

/-- Bytes that are all marked, or a header and what is behind it. -/
theorem marked_or_ends (s : Bytes) :
    (∀ c ∈ s, ¬ c < 0x80) ∨ ∃ hd part, s = hd ++ part ∧ LengthHeader hd := by
  induction s with
  | nil => exact Or.inl fun _ h => absurd h List.not_mem_nil
  | cons c s ih =>
      by_cases hc : c < 0x80
      · exact Or.inr ⟨[c], s, rfl, [], c, rfl, fun _ h => absurd h List.not_mem_nil, hc⟩
      · rcases ih with hMarked | ⟨_, part, rfl, cs, d, rfl, hMarked, hd⟩
        · exact Or.inl (List.forall_mem_cons.2 ⟨hc, hMarked⟩)
        · exact Or.inr ⟨c :: cs ++ [d], part, by simp, c :: cs, d, rfl,
            List.forall_mem_cons.2 ⟨hc, hMarked⟩, hd⟩

/-- The bytes of a buffer: none, a header that is not complete, or a header and
what is behind it. -/
theorem buffer_cases (mxData : Bytes) :
    mxData = [] ∨ (∃ startByte cs, mxData = startByte :: cs ∧ ∀ c ∈ cs, ¬ c < 0x80) ∨
      ∃ startByte hd part, mxData = startByte :: (hd ++ part) ∧ LengthHeader hd := by
  cases mxData with
  | nil => exact Or.inl rfl
  | cons startByte s =>
      rcases marked_or_ends s with hMarked | ⟨hd, part, rfl, hHeader⟩
      · exact Or.inr (Or.inl ⟨startByte, s, rfl, hMarked⟩)
      · exact Or.inr (Or.inr ⟨startByte, hd, part, rfl, hHeader⟩)

theorem header_marked {cs : Bytes} (hMarked : ∀ c ∈ cs, ¬ c < 0x80) (startByte : UInt8) :
    header (startByte :: cs) = none := by
  obtain ⟨b, b', hGet, hLoop⟩ := reads_marked hMarked startByte
  rw [header, hGet]
  dsimp only
  rw [hLoop]

theorem header_ends {hd : Bytes} (hHeader : LengthHeader hd) (startByte : UInt8) (part : Bytes) :
    header (startByte :: (hd ++ part)) = some (announced hd, 1 + hd.length) := by
  obtain ⟨b, b', hGet, hLoop, -, -, hPos⟩ := reads_header hHeader startByte part
  rw [header, hGet]
  dsimp only
  rw [hLoop]
  dsimp only
  rw [hPos]

/-! ## The locked section -/

theorem takeFrame_marked {cs : Bytes} (hMarked : ∀ c ∈ cs, ¬ c < 0x80)
    (maxPacketSize : UInt64) (startByte : UInt8) :
    takeFrame maxPacketSize (startByte :: cs) = .wait := by
  obtain ⟨b, b', hGet, hLoop⟩ := reads_marked hMarked startByte
  rw [takeFrame, hGet]
  dsimp only
  rw [hLoop]

/-- What is behind a complete header is waited for, refused or taken. -/
theorem takeFrame_header {hd : Bytes} (hHeader : LengthHeader hd) (maxPacketSize : UInt64)
    (startByte : UInt8) (part : Bytes) :
    (part.length < (announced hd).toNat ∧
        takeFrame maxPacketSize (startByte :: (hd ++ part)) = .wait) ∨
      (maxPacketSize < announced hd ∧
        ∃ reason, takeFrame maxPacketSize (startByte :: (hd ++ part)) = .broken reason) ∨
      (announced hd ≤ maxPacketSize ∧ (announced hd).toNat ≤ part.length ∧
        takeFrame maxPacketSize (startByte :: (hd ++ part)) =
          .frame startByte (part.take (announced hd).toNat) (part.drop (announced hd).toNat)) := by
  obtain ⟨b, b', hGet, hLoop, hRest, hData, -⟩ := reads_header hHeader startByte part
  have hRemains : b'.remains = part.length := by rw [← InBuffer.length_rest, hRest]
  rw [takeFrame, hGet]
  dsimp only
  rw [hLoop]
  dsimp only
  rw [hRemains]
  by_cases hShort : part.length < (announced hd).toNat
  · rw [if_pos hShort]
    exact Or.inl ⟨hShort, rfl⟩
  rw [if_neg hShort]
  by_cases hMax : announced hd > maxPacketSize
  · rw [if_pos hMax]
    exact Or.inr (Or.inl ⟨hMax, _, rfl⟩)
  rw [if_neg hMax]
  have hEnough : (announced hd).toNat ≤ part.length := not_lt.1 hShort
  have hTaken : (part.take (announced hd).toNat).length = (announced hd).toNat := by
    rw [List.length_take, Nat.min_eq_left hEnough]
  obtain ⟨b'', hUnpack, hRest', hData'⟩ := InBuffer.unpackNothrow_append
    (hRest.trans (List.take_append_drop _ part).symm) hTaken
  rw [hUnpack]
  dsimp only
  rw [← hData, ← hData', InBuffer.drop_consumed, hRest']
  exact Or.inr (Or.inr ⟨UInt64.not_lt.1 hMax, hEnough, rfl⟩)

/-- A frame within `m_maxPacketSize` is taken. -/
theorem takeFrame_bytes {maxPacketSize : UInt64} {f : RawFrame}
    (hMax : f.req.length ≤ maxPacketSize.toNat) (rest : Bytes) :
    takeFrame maxPacketSize (f.bytes ++ rest) = .frame f.startByte f.req rest := by
  have hLength := f.complete
  have hBytes : f.bytes ++ rest = f.startByte :: (f.lengthHeader ++ (f.req ++ rest)) := by
    rw [RawFrame.bytes, List.cons_append, List.append_assoc]
  rw [hBytes]
  rcases takeFrame_header f.ends maxPacketSize f.startByte (f.req ++ rest) with
    ⟨hShort, -⟩ | ⟨hBroken, -⟩ | ⟨-, -, hTake⟩
  · rw [List.length_append] at hShort
    omega
  · rw [UInt64.lt_iff_toNat_lt] at hBroken
    omega
  · rw [hTake, ← hLength, List.take_left, List.drop_left]

/-- What is taken is a frame within `m_maxPacketSize`. -/
theorem takeFrame_eq_frame {maxPacketSize : UInt64} {mxData req rest : Bytes} {startByte : UInt8}
    (h : takeFrame maxPacketSize mxData = .frame startByte req rest) :
    ∃ f : RawFrame, f.startByte = startByte ∧ f.req = req ∧ mxData = f.bytes ++ rest ∧
      f.req.length ≤ maxPacketSize.toNat := by
  rcases buffer_cases mxData with rfl | ⟨s, cs, rfl, hMarked⟩ | ⟨s, hd, part, rfl, hHeader⟩
  · cases h
  · rw [takeFrame_marked hMarked] at h
    cases h
  · rcases takeFrame_header hHeader maxPacketSize s part with
      ⟨-, hTake⟩ | ⟨-, reason, hTake⟩ | ⟨hMax, hEnough, hTake⟩
    · rw [hTake] at h
      cases h
    · rw [hTake] at h
      cases h
    · rw [hTake] at h
      obtain ⟨rfl, rfl, rfl⟩ := Taken.frame.inj h
      have hLength : (part.take (announced hd).toNat).length = (announced hd).toNat := by
        rw [List.length_take, Nat.min_eq_left hEnough]
      refine ⟨⟨s, hd, _, hHeader, hLength⟩, rfl, rfl, ?_, ?_⟩
      · rw [RawFrame.bytes, List.cons_append, List.append_assoc, List.take_append_drop]
      · rw [hLength]
        exact UInt64.le_iff_toNat_le.1 hMax

/-- A frame that is taken leaves less. -/
theorem length_rest_lt {maxPacketSize : UInt64} {mxData : Bytes} {startByte : UInt8}
    {req rest : Bytes} (h : takeFrame maxPacketSize mxData = .frame startByte req rest) :
    rest.length < mxData.length := by
  obtain ⟨f, -, -, rfl, -⟩ := takeFrame_eq_frame h
  rw [RawFrame.bytes, List.cons_append, List.length_cons, List.length_append]
  omega

/-! ## One frame -/

/-- The loop returns at once. -/
def shuts : Framing.Verdict → Bool
  | .shut => true
  | .next | .leave => false

/-- A frame leaves the rest of the buffer alone, and closes the socket exactly
where the loop returns at once. -/
theorem esi_dispatch (ssl : Ssl Key) (rand : Except CommonError Bytes) (route : ρ)
    (startByte : UInt8) (req : Bytes) (s : State Key ρ) :
    (dispatch ssl rand route startByte req s).1.esi = { s.esi with
      closed := (s.esi.closed || shuts (dispatch ssl rand route startByte req s).2) } := by
  rw [dispatch]
  split
  · rw [onPacket]
    split
    · simp [shuts, State.unknown, State.close]
    · split <;> simp [shuts, State.record]
  split
  · rw [onSetAesKey]
    split
    · simp [shuts, State.unknown, State.close]
    · dsimp only
      split <;> simp [shuts, State.unknown, State.close, State.install, State.record]
  split
  · simp [shuts, onHelloSsl2, State.record]
  split
  · rw [onHelloSsl]
    split
    · simp [shuts, State.unknown, State.close]
    · dsimp only
      split
      · simp [shuts, State.close]
      split
      · simp [shuts, State.unknown, State.close]
      split
      · simp [shuts, State.unknown, State.close]
      generalize ssl.publicEncrypt _ _ = out
      cases out with
      | error e => simp [shuts, State.unknown, State.close, State.install]
      | ok out => simp [shuts, State.install, State.record]
  · simp [shuts, State.close]

theorem esi_handleFrame (ssl : Ssl Key) (rand : Except CommonError Bytes) (route : ρ)
    (startByte : UInt8) (req rest : Bytes) (s : State Key ρ) :
    (handleFrame ssl rand route startByte req rest s).1.esi = { s.esi with
      mInBuffer := rest,
      closed := (s.esi.closed ||
        shuts (handleFrame ssl rand route startByte req rest s).2) } :=
  esi_dispatch ssl rand route startByte req { s with esi := { s.esi with mInBuffer := rest } }

/-- A frame that does not close the socket leaves the loop if and only if it is
a hello. -/
theorem verdict_dispatch {ssl : Ssl Key} {rand : Except CommonError Bytes} {route : ρ}
    {startByte : UInt8} {req : Bytes} {s : State Key ρ}
    (h : (dispatch ssl rand route startByte req s).2 ≠ .shut) :
    (dispatch ssl rand route startByte req s).2 =
      if startByte = sbHelloSslS2C ∨ startByte = sbHelloSsl2S2C then .leave else .next := by
  rw [dispatch] at h ⊢
  split at h
  · rename_i hByte
    rw [if_pos hByte, if_neg (by rw [hByte]; decide)]
    rw [onPacket] at h ⊢
    cases hRun : s.od.aes.decrypt ssl.cipher req with
    | error e =>
        rw [hRun] at h
        exact absurd rfl h
    | ok buf =>
        dsimp only
        split <;> rfl
  rename_i hPacket
  rw [if_neg hPacket]
  split at h
  · rename_i hByte
    rw [if_pos hByte, if_neg (by rw [hByte]; decide)]
    rw [onSetAesKey] at h ⊢
    cases hRun : sessionKey ssl s.od.rsa req with
    | error e =>
        rw [hRun] at h
        exact absurd rfl h
    | ok aes =>
        rw [hRun] at h
        dsimp only at h ⊢
        split at h
        · exact absurd rfl h
        · rename_i hRole
          rw [if_neg hRole]
  rename_i hKey
  rw [if_neg hKey]
  split at h
  · rename_i hByte
    rw [if_pos hByte, if_pos (Or.inr hByte)]
    rfl
  rename_i hSecond
  rw [if_neg hSecond]
  split at h
  · rename_i hByte
    rw [if_pos hByte, if_pos (Or.inl hByte)]
    rw [onHelloSsl] at h ⊢
    cases hHello : peerHello req with
    | error e =>
        rw [hHello] at h
        exact absurd rfl h
    | ok hello =>
        obtain ⟨pubkey, version⟩ := hello
        rw [hHello] at h
        dsimp only at h ⊢
        split at h
        · exact absurd rfl h
        rename_i hVersion
        rw [if_neg hVersion]
        cases hPublic : ssl.fromPublicKey pubkey with
        | none =>
            rw [hPublic] at h
            exact absurd rfl h
        | some key =>
            rw [hPublic] at h
            dsimp only at h ⊢
            cases hNew : newSessionKey rand with
            | error e =>
                rw [hNew] at h
                exact absurd rfl h
            | ok r =>
                obtain ⟨aesKey, aes⟩ := r
                rw [hNew] at h
                dsimp only at h ⊢
                cases hOut : ssl.publicEncrypt key aesKey with
                | error e =>
                    rw [hOut] at h
                    exact absurd rfl h
                | ok out => rfl
  · exact absurd rfl h

/-! ## Buffers in order -/

section Order

variable {maxPacketSize : UInt64} {f : RawFrame} {mxData rest r : Bytes}

theorem Behind.refl (maxPacketSize : UInt64) (mxData : Bytes) :
    Behind maxPacketSize mxData mxData :=
  ⟨[], rfl, fun _ h => absurd h List.not_mem_nil⟩

theorem Behind.cons (hMax : f.req.length ≤ maxPacketSize.toNat) (hHello : ¬ f.Hello)
    (h : Behind maxPacketSize rest r) : Behind maxPacketSize (f.bytes ++ rest) r := by
  obtain ⟨fs, rfl, hAll⟩ := h
  refine ⟨f :: fs, ?_, List.forall_mem_cons.2 ⟨⟨hMax, hHello⟩, hAll⟩⟩
  rw [List.flatMap_cons, List.append_assoc]

/-- The loop can stop in front of a frame or go on behind it. -/
theorem Behind.of_bytes (hMax : f.req.length ≤ maxPacketSize.toNat)
    (h : Behind maxPacketSize (f.bytes ++ rest) r) :
    r = f.bytes ++ rest ∨ ¬ f.Hello ∧ Behind maxPacketSize rest r := by
  obtain ⟨fs, hSplit, hAll⟩ := h
  cases fs with
  | nil => exact Or.inl hSplit.symm
  | cons g gs =>
      obtain ⟨⟨hMaxG, hHelloG⟩, hRest⟩ := List.forall_mem_cons.1 hAll
      rw [List.flatMap_cons, List.append_assoc] at hSplit
      have hTake := takeFrame_bytes hMax rest
      rw [hSplit, takeFrame_bytes hMaxG] at hTake
      obtain ⟨hByte, -, hBehind⟩ := Taken.frame.inj hTake
      rw [RawFrame.Hello, hByte] at hHelloG
      exact Or.inr ⟨hHelloG, gs, hBehind.symm, hRest⟩

/-- Where the loop waits, it has taken nothing. -/
theorem Behind.of_wait (hWait : takeFrame maxPacketSize mxData = .wait)
    (h : Behind maxPacketSize mxData r) : r = mxData := by
  obtain ⟨fs, rfl, hAll⟩ := h
  cases fs with
  | nil => rfl
  | cons g gs =>
      rw [List.flatMap_cons, List.append_assoc,
        takeFrame_bytes (hAll g List.mem_cons_self).1] at hWait
      cases hWait

/-- The bytes in front of which the loop has a frame to take. -/
theorem not_unfinished (hMax : f.req.length ≤ maxPacketSize.toNat) {startByte : UInt8} :
    (∀ cs, f.bytes ++ rest = startByte :: cs → ¬ ∀ c ∈ cs, ¬ c < 0x80) ∧
      ∀ hd part, f.bytes ++ rest = startByte :: (hd ++ part) → LengthHeader hd →
        ¬ part.length < (announced hd).toNat := by
  have hTake := takeFrame_bytes hMax rest
  refine ⟨fun cs hEq hMarked => ?_, fun hd part hEq hHeader hShort => ?_⟩
  · rw [hEq, takeFrame_marked hMarked] at hTake
    cases hTake
  · rw [hEq] at hTake
    rcases takeFrame_header hHeader maxPacketSize startByte part with
      ⟨-, hWait⟩ | ⟨-, reason, hBroken⟩ | ⟨-, hEnough, -⟩
    · rw [hWait] at hTake
      cases hTake
    · rw [hBroken] at hTake
      cases hTake
    · exact absurd hShort (not_lt.2 hEnough)

/-- A frame that is no hello is passed over. -/
theorem inOrder_bytes (hMax : f.req.length ≤ maxPacketSize.toNat) (hHello : ¬ f.Hello) :
    InOrder maxPacketSize (f.bytes ++ rest) ↔ InOrder maxPacketSize rest := by
  constructor
  · intro h
    exact ⟨fun startByte cs hBehind => h.header startByte cs (hBehind.cons hMax hHello),
      fun startByte hd part hBehind => h.payload startByte hd part (hBehind.cons hMax hHello),
      fun g rest' hBehind => h.hello g rest' (hBehind.cons hMax hHello)⟩
  · intro h
    refine ⟨fun startByte cs hBehind hMarked => ?_, fun startByte hd part hBehind hHeader hShort => ?_,
      fun g rest' hBehind hHelloG hMaxG => ?_⟩
    · rcases hBehind.of_bytes hMax with hSame | ⟨-, hLater⟩
      · exact absurd hMarked ((not_unfinished hMax).1 cs hSame.symm)
      · exact h.header startByte cs hLater hMarked
    · rcases hBehind.of_bytes hMax with hSame | ⟨-, hLater⟩
      · exact absurd hShort ((not_unfinished hMax).2 hd part hSame.symm hHeader)
      · exact h.payload startByte hd part hLater hHeader hShort
    · rcases hBehind.of_bytes hMax with hSame | ⟨-, hLater⟩
      · have hTake := takeFrame_bytes hMaxG rest'
        rw [hSame, takeFrame_bytes hMax] at hTake
        rw [RawFrame.Hello, ← (Taken.frame.inj hTake).1] at hHelloG
        exact absurd hHelloG hHello
      · exact h.hello g rest' hLater hHelloG hMaxG

/-- What is held, in terms of the bytes. -/
theorem held_iff :
    Held maxPacketSize rest ↔ rest.length < packetBound maxPacketSize ∧
      ∀ startByte hd part, rest = startByte :: (hd ++ part) → LengthHeader hd →
        announced hd ≤ maxPacketSize := by
  refine and_congr_right fun _ => ⟨?_, fun h len pos hSome => ?_⟩
  · rintro h startByte hd part rfl hHeader
    exact h _ _ (header_ends hHeader startByte part)
  · rcases buffer_cases rest with rfl | ⟨s, cs, rfl, hMarked⟩ | ⟨s, hd, part, rfl, hHeader⟩
    · cases hSome
    · rw [header_marked hMarked] at hSome
      cases hSome
    · rw [header_ends hHeader] at hSome
      obtain ⟨rfl, -⟩ := Prod.mk.inj (Option.some.inj hSome)
      exact h s hd part rfl hHeader

/-- What is behind a hello stays. -/
theorem inOrder_hello (hMax : f.req.length ≤ maxPacketSize.toNat) (hHello : f.Hello) :
    InOrder maxPacketSize (f.bytes ++ rest) ↔ Held maxPacketSize rest := by
  rw [held_iff]
  constructor
  · intro h
    exact h.hello f rest (Behind.refl _ _) hHello hMax
  · intro h
    have hStop : ∀ r, Behind maxPacketSize (f.bytes ++ rest) r → f.bytes ++ rest = r :=
      fun r hBehind => ((hBehind.of_bytes hMax).resolve_right fun hLater => hLater.1 hHello).symm
    refine ⟨fun startByte cs hBehind hMarked => ?_, fun startByte hd part hBehind hHeader hShort => ?_,
      fun g rest' hBehind hHelloG hMaxG => ?_⟩
    · exact absurd hMarked ((not_unfinished hMax).1 cs (hStop _ hBehind))
    · exact absurd hShort ((not_unfinished hMax).2 hd part (hStop _ hBehind) hHeader)
    · have hTake := takeFrame_bytes hMaxG rest'
      rw [← hStop _ hBehind, takeFrame_bytes hMax] at hTake
      rw [← (Taken.frame.inj hTake).2.2]
      exact h

/-- What is waited for stays. -/
theorem inOrder_wait (hWait : takeFrame maxPacketSize mxData = .wait) :
    InOrder maxPacketSize mxData ↔ Held maxPacketSize mxData := by
  rw [held_iff, packetBound]
  constructor
  · intro h
    rcases buffer_cases mxData with rfl | ⟨s, cs, rfl, hMarked⟩ | ⟨s, hd, part, rfl, hHeader⟩
    · refine ⟨by simp, fun startByte hd part hEq => by cases hEq⟩
    · have hLess := h.header s cs (Behind.refl _ _) hMarked
      refine ⟨by rw [List.length_cons]; omega, ?_⟩
      intro startByte hd part hEq hHeader
      have hSame := header_ends hHeader startByte part
      rw [← hEq, header_marked hMarked] at hSame
      cases hSame
    · have hShort : part.length < (announced hd).toNat := by
        rcases takeFrame_header hHeader maxPacketSize s part with
          ⟨hShort, -⟩ | ⟨-, reason, hTake⟩ | ⟨-, -, hTake⟩
        · exact hShort
        · rw [hTake] at hWait
          cases hWait
        · rw [hTake] at hWait
          cases hWait
      obtain ⟨hMax, hHd⟩ := h.payload s hd part (Behind.refl _ _) hHeader hShort
      have hMaxNat := UInt64.le_iff_toNat_le.1 hMax
      refine ⟨?_, fun startByte hd' part' hEq hHeader' => ?_⟩
      · rw [List.length_cons, List.length_append]
        omega
      · have hSame := header_ends hHeader' startByte part'
        rw [← hEq, header_ends hHeader] at hSame
        rw [← (Prod.mk.inj (Option.some.inj hSame)).1]
        exact hMax
  · rintro ⟨hLength, hAll⟩
    refine ⟨fun startByte cs hBehind _ => ?_, fun startByte hd part hBehind hHeader _ => ?_,
      fun g rest' hBehind _ hMaxG => ?_⟩
    · rw [← hBehind.of_wait hWait, List.length_cons] at hLength
      omega
    · have hSame := hBehind.of_wait hWait
      refine ⟨hAll startByte hd part hSame.symm hHeader, Or.inr ?_⟩
      rw [← hSame, List.length_cons, List.length_append] at hLength
      omega
    · rw [← hBehind.of_wait hWait, takeFrame_bytes hMaxG] at hWait
      cases hWait

end Order

/-! ## The loop -/

/-- Where the socket stays open, the loop leaves what the buffer was in order for. -/
theorem held_loop (ssl : Ssl Key) (maxPacketSize : UInt64) (rand : Except CommonError Bytes)
    (route : ρ) :
    ∀ (fuel : Nat) (s : State Key ρ), s.esi.mInBuffer.length < fuel →
      (streamReadLoop ssl maxPacketSize rand route fuel s).esi.closed = false →
        (Held maxPacketSize (streamReadLoop ssl maxPacketSize rand route fuel s).esi.mInBuffer ↔
          InOrder maxPacketSize s.esi.mInBuffer) := by
  intro fuel
  induction fuel with
  | zero => exact fun s hFuel => absurd hFuel (Nat.not_lt_zero _)
  | succ fuel ih =>
      intro s hFuel hOpen
      rw [streamReadLoop] at hOpen ⊢
      cases hTake : takeFrame maxPacketSize s.esi.mInBuffer with
      | wait =>
          dsimp only
          exact (inOrder_wait hTake).symm
      | broken disconnectReason =>
          rw [hTake] at hOpen
          simp [State.close] at hOpen
      | frame startByte req rest =>
          have hLess := length_rest_lt hTake
          obtain ⟨f, rfl, rfl, hBytes, hMax⟩ := takeFrame_eq_frame hTake
          have hEsi := esi_handleFrame ssl rand route f.startByte f.req rest s
          rw [hTake] at hOpen
          dsimp only at hOpen ⊢
          rw [hBytes]
          cases hRun : handleFrame ssl rand route f.startByte f.req rest s with
          | mk s' verdict =>
              rw [hRun] at hEsi hOpen
              have hSame : (dispatch ssl rand route f.startByte f.req
                  { s with esi := { s.esi with mInBuffer := rest } }).2 = verdict :=
                congrArg Prod.snd hRun
              have hVerdict : verdict ≠ .shut → verdict =
                  if f.startByte = sbHelloSslS2C ∨ f.startByte = sbHelloSsl2S2C then .leave
                  else .next := by
                rw [← hSame]
                exact verdict_dispatch
              cases verdict with
              | next =>
                  have hHello : ¬ f.Hello := fun hHello =>
                    absurd ((hVerdict (by simp)).trans (if_pos hHello)) (by simp)
                  have hRest : s'.esi.mInBuffer = rest := by rw [hEsi]
                  rw [inOrder_bytes hMax hHello, ← hRest]
                  refine ih s' ?_ hOpen
                  rw [hRest]
                  exact Nat.lt_of_lt_of_le hLess (Nat.le_of_lt_succ hFuel)
              | leave =>
                  have hHello : f.Hello := by
                    by_contra hNot
                    exact absurd ((hVerdict (by simp)).trans (if_neg hNot)) (by simp)
                  have hRest : s'.esi.mInBuffer = rest := by rw [hEsi]
                  dsimp only
                  rw [inOrder_hello hMax hHello, hRest]
              | shut =>
                  dsimp only at hOpen
                  rw [hEsi] at hOpen
                  simp [shuts] at hOpen

/-! ## Runs -/

/-- `on_StreamRead` finds a buffer in order. -/
def FindsOrder (maxPacketSize : UInt64) (s : State Key ρ) : Action Key ρ → Prop
  | .streamRead _ _ => InOrder maxPacketSize s.esi.mInBuffer
  | .arrive _ | .accepted _ | .connected | .disconnected _ _ | .disaccepted _ _ => True

/-- `on_StreamRead` closes the socket, or leaves less than one packet in its
buffer and no longer one announced. -/
def LeavesBounded (ssl : Ssl Key) (maxPacketSize : UInt64) (s : State Key ρ) :
    Action Key ρ → Prop
  | .streamRead rand route =>
      (onStreamRead ssl maxPacketSize rand route s).esi.closed = false →
        Held maxPacketSize (onStreamRead ssl maxPacketSize rand route s).esi.mInBuffer
  | .arrive _ | .accepted _ | .connected | .disconnected _ _ | .disaccepted _ _ => True

/--
**Bounded buffering.** Whatever a peer sends and however it is cut: in a run in
which every `on_StreamRead` finds a buffer in order, each closes the socket or
leaves less than one packet and no longer one announced. And in any state, where
the socket is open after `on_StreamRead`, it holds no more than that if and only
if its buffer was in order.
-/
theorem bounded_iff (ssl : Ssl Key) (maxPacketSize : UInt64) :
    (∀ (s : State Key ρ) (acts : List (Action Key ρ)), (machine ssl maxPacketSize).init s →
      ((machine ssl maxPacketSize).guarded (FindsOrder maxPacketSize)).Path s acts →
        ((machine ssl maxPacketSize).guarded (LeavesBounded ssl maxPacketSize)).Path s acts) ∧
    ∀ (s : State Key ρ) (rand : Except CommonError Bytes) (route : ρ),
      (onStreamRead ssl maxPacketSize rand route s).esi.closed = false →
        (Held maxPacketSize (onStreamRead ssl maxPacketSize rand route s).esi.mInBuffer ↔
          InOrder maxPacketSize s.esi.mInBuffer) := by
  have hExact : ∀ (s : State Key ρ) (rand : Except CommonError Bytes) (route : ρ),
      (onStreamRead ssl maxPacketSize rand route s).esi.closed = false →
        (Held maxPacketSize (onStreamRead ssl maxPacketSize rand route s).esi.mInBuffer ↔
          InOrder maxPacketSize s.esi.mInBuffer) := fun s rand route =>
    held_loop ssl maxPacketSize rand route _ s (Nat.lt_succ_self _)
  refine ⟨fun s acts _ hPath => hPath.imp fun s a _ hFinds => ?_, hExact⟩
  cases a with
  | streamRead rand route => exact fun hOpen => (hExact s rand route hOpen).2 hFinds
  | arrive chunk => trivial
  | accepted key => trivial
  | connected => trivial
  | disconnected reason route => trivial
  | disaccepted reason route => trivial

/-- An SSL module of which nothing is needed. -/
def noSsl : Ssl Unit where
  new := ()
  getPublicKey _ := []
  fromPublicKey _ := none
  privateDecrypt _ m := .ok m
  publicEncrypt _ m := .ok m
  cipher _ d := d

/-- A socket that has received the bytes. -/
def receivedBytes (mxData : Bytes) : State Unit Unit :=
  apply noSsl 4 (.fresh 1 .accepted) (.arrive mxData)

/-- A hello in two chunks, and three bytes of a packet of four. -/
theorem partly_bounded :
    ((machine noSsl 4).guarded (LeavesBounded noSsl 4)).Path (.fresh 1 .accepted)
      [.arrive [0x16], .streamRead (.ok []) (), .arrive [0], .streamRead (.ok []) (),
        .arrive [0x11, 4, 1, 2, 3], .streamRead (.ok []) ()] := by
  have hOrder : ∀ mxData,
      (onStreamRead noSsl 4 (.ok []) () (receivedBytes mxData)).esi.closed = false →
        Held 4 (onStreamRead noSsl 4 (.ok []) () (receivedBytes mxData)).esi.mInBuffer →
          InOrder 4 mxData := fun mxData hOpen =>
    ((bounded_iff noSsl 4).2 (receivedBytes mxData) (.ok []) () hOpen).1
  refine (bounded_iff noSsl 4).1 _ _ ⟨1, Or.inl rfl⟩
    ⟨⟨trivial, trivial⟩, ⟨trivial, hOrder [0x16] (by decide) (by decide)⟩,
      ⟨trivial, trivial⟩, ⟨trivial, hOrder [0x16, 0] (by decide) (by decide)⟩,
      ⟨trivial, trivial⟩, ⟨trivial, hOrder [0x11, 4, 1, 2, 3] (by decide) (by decide)⟩, trivial⟩

/-- A packet of 64 bytes is announced where 4 are allowed; a length header does
not end; and a hello has 20 bytes behind it. In all three cases the socket stays
open with all that was sent. -/
theorem announced_is_held :
    (onStreamRead noSsl 4 (.ok []) () (receivedBytes (0x11 :: 64 :: List.replicate 20 0))).esi =
        ⟨1, .accepted, 0x11 :: 64 :: List.replicate 20 0, false⟩ ∧
      (onStreamRead noSsl 4 (.ok []) () (receivedBytes (0x11 :: List.replicate 20 0x80))).esi =
        ⟨1, .accepted, 0x11 :: List.replicate 20 0x80, false⟩ ∧
      (onStreamRead noSsl 4 (.ok []) () (receivedBytes (0x16 :: 0 :: List.replicate 20 0))).esi =
        ⟨1, .accepted, List.replicate 20 0, false⟩ ∧
      ¬ ∀ s : State Unit Unit, (machine noSsl 4).Reachable s → s.esi.closed = false →
        (onStreamRead noSsl 4 (.ok []) () s).esi.closed = false →
          Held 4 (onStreamRead noSsl 4 (.ok []) () s).esi.mInBuffer := by
  have hLong : (onStreamRead noSsl 4 (.ok []) ()
      (receivedBytes (0x11 :: 64 :: List.replicate 20 0))).esi =
        ⟨1, .accepted, 0x11 :: 64 :: List.replicate 20 0, false⟩ := by decide +kernel
  refine ⟨hLong, by decide +kernel, by decide +kernel, fun hAll => ?_⟩
  have hReach : (machine noSsl 4).Reachable
      (receivedBytes (0x11 :: 64 :: List.replicate 20 0)) :=
    ⟨.fresh 1 .accepted, [.arrive (0x11 :: 64 :: List.replicate 20 0)], ⟨1, Or.inl rfl⟩,
      ⟨trivial, trivial⟩, rfl⟩
  have hHeld := hAll _ hReach rfl (by rw [hLong])
  rw [hLong] at hHeld
  exact absurd hHeld.1 (by decide)

end Megatron.OscarSecure
