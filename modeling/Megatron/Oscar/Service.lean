import Megatron.Corelib.IoBuffer
import Megatron.Lib.Framing

/-!
# The Oscar framing layer

Oscar turns the bytes of a socket into packets.  A frame is a start byte, a
packed length and that many bytes.  `onStreamRead` is called once per chunk,
after the chunk has been appended to the socket's `m_inBuffer`; it takes
frames off the buffer for as long as a complete one is there, and each kind of
frame leaves the loop in its own way:

* a packet is passed to the listener, and the loop goes on;
* an accepted hello falls out of the `switch` onto the `break` behind it;
* a refused hello, a malformed hello and an unknown start byte close the
  socket and return.

`onStreamRead_eq` identifies the loop with the receiver of
`Megatron.Lib.Framing` at the frame codec `frameFormat`, which carries the
round trip of a frame and the failure on its proper prefixes.

## Main results

* `takeFrame_encode`, `takeFrame_short` — the locked section takes a complete
  frame and nothing else.
* `receiveAll_eq` — the effects and the buffer after any sequence of chunks
  are those of the generic receiver.
-/

namespace Megatron.Oscar

open Megatron.Corelib
open Megatron.Lib

/-! ## The wire format -/

/-- `Oscar::SB_HELLO`. -/
def sbHello : UInt8 := 0x00

/-- `Oscar::SB_SINGLEPACKET`. -/
def sbSinglePacket : UInt8 := 0x01

/-- `COREVERSION`. -/
def coreVersion : Int64 := 0x00000300

/-- The bytes of `"HELLO"`. -/
def helloText : Bytes := [0x48, 0x45, 0x4C, 0x4C, 0x4F]

/-- `sendPacketPlain`: the start byte, then the body as a refbuffer. -/
def sendPacketPlain (startByte : UInt8) (o : Option Bytes) : Bytes :=
  startByte :: putRefbuffer o

/-- The hello `on_Accepted` sends. -/
def helloPacket : Bytes :=
  sendPacketPlain sbHello (some (putPSTR helloText ++ putPN coreVersion.toUInt64))

/-- A frame whose body has a length that fits the packed number. -/
structure Frame where
  startByte : UInt8
  req : Bytes
  fits : req.length < 2 ^ 64
  deriving DecidableEq

/-- The bytes of a frame. -/
def Frame.encode (f : Frame) : Bytes := sendPacketPlain f.startByte (some f.req)

/-! ## `on_StreamRead` -/

/-- `epoll_socket_info::STREAMTYPE`. -/
inductive StreamType where
  | listening
  | accepted
  | connected
  deriving DecidableEq, Repr

/-- What `on_StreamRead` reads and writes of an `epoll_socket_info`. -/
structure EpollSocketInfo where
  mId : Nat
  mStreamType : StreamType
  mInBuffer : Bytes
  closed : Bool
  deriving DecidableEq, Repr

/-- A socket as its constructor leaves it. -/
def EpollSocketInfo.fresh (mId : Nat) (mStreamType : StreamType) : EpollSocketInfo :=
  ⟨mId, mStreamType, [], false⟩

/-- What `on_StreamRead` does besides consuming the buffer. -/
inductive Effect (ρ : Type) where
  | packetOnConnector (esi : Nat) (buf : Bytes) (route : ρ)
  | packetOnAcceptor (esi : Nat) (buf : Bytes) (route : ρ)
  | sendMessage (code text : String)
  | close (esi : Nat) (reason : String)
  deriving DecidableEq, Repr

variable {ρ : Type}

/-- The locked section: one frame off the front of `m_inBuffer`, or nothing
when the start byte, the length or the body is not complete. -/
def takeFrame (mxData : Bytes) : Option (UInt8 × Bytes × Bytes) :=
  match (InBuffer.ofBytes mxData).get8Nothrow with
  | (none, _) => none
  | (some startByte, b) =>
      match b.getPNNothrow with
      | (none, _) => none
      | (some len, b) =>
          if b.remains < len.toNat then none
          else
            match b.unpackNothrow len with
            | (none, _) => none
            | (some req, b) =>
                some (startByte, req, mxData.drop (mxData.length - b.remains))

/-- The body of a hello: the greeting, then the peer's version. -/
def helloVersion (req : Bytes) : Except CommonError Int64 :=
  StateT.run' (do
    let hello ← getPSTR
    if hello ≠ helloText then throw ⟨"!HELLO"⟩
    let ver ← getPN
    return ver.toInt64) (InBuffer.ofBytes req)

/-- The `switch` on the start byte, and how it leaves the loop. -/
def dispatchFrame (esi : EpollSocketInfo) (route : ρ) (startByte : UInt8) (req : Bytes) :
    List (Effect ρ) × Framing.Verdict :=
  if startByte = sbSinglePacket then
    if esi.mStreamType = .connected then
      ([.packetOnConnector esi.mId req route], .next)
    else ([.packetOnAcceptor esi.mId req route], .next)
  else if startByte = sbHello then
    match helloVersion req with
    | .error _ => ([.close esi.mId "exeption ..."], .shut)
    | .ok ver =>
        if ver >>> 8 ≠ coreVersion >>> 8 then
          if coreVersion > ver then
            ([.sendMessage "ED_VERSION_WRONG"
                "Packet version wrong for peer. You running newest version, please wait",
              .close esi.mId "oscar: invalid peer version"], .shut)
          else
            ([.sendMessage "ED_VERSION_WRONG"
                "Packet version wrong for peer in oscar. Your need upgrade software",
              .close esi.mId "oscar: invalid peer version"], .shut)
        else ([], .leave)
  else ([.close esi.mId "oscar: invalid start byte"], .shut)

/-- The loop of `on_StreamRead`, with the number of iterations bounded. -/
def streamReadLoop (route : ρ) : Nat → EpollSocketInfo → EpollSocketInfo × List (Effect ρ)
  | 0, esi => (esi, [])
  | fuel + 1, esi =>
      match takeFrame esi.mInBuffer with
      | none => (esi, [])
      | some (startByte, req, rest) =>
          let esi := { esi with mInBuffer := rest }
          match dispatchFrame esi route startByte req with
          | (out, .next) =>
              let r := streamReadLoop route fuel esi
              (r.1, out ++ r.2)
          | (out, .leave) => (esi, out)
          | (out, .shut) => ({ esi with closed := true }, out)

/-- `on_StreamRead`; every iteration takes a byte at least. -/
def onStreamRead (route : ρ) (esi : EpollSocketInfo) : EpollSocketInfo × List (Effect ρ) :=
  streamReadLoop route (esi.mInBuffer.length + 1) esi

/-- A chunk is received: appended to `m_inBuffer`, then handed to
`on_StreamRead`. Nothing is received on a closed socket. -/
def receive (route : ρ) (s : EpollSocketInfo × List (Effect ρ)) (chunk : Bytes) :
    EpollSocketInfo × List (Effect ρ) :=
  if s.1.closed then s
  else
    let r := onStreamRead route { s.1 with mInBuffer := s.1.mInBuffer ++ chunk }
    (r.1, s.2 ++ r.2)

/-- All chunks are received, with the effects since the first one. -/
def receiveAll (route : ρ) (esi : EpollSocketInfo) (chunks : List Bytes) :
    EpollSocketInfo × List (Effect ρ) :=
  chunks.foldl (receive route) (esi, [])

/-! ## The frame codec -/

theorem takeFrame_encode (f : Frame) (rest : Bytes) :
    takeFrame (f.encode ++ rest) = some (f.startByte, f.req, rest) := by
  have hLen : (UInt64.ofNat f.req.length).toNat = f.req.length :=
    UInt64.toNat_ofNat_of_lt' f.fits
  have hStart : (InBuffer.ofBytes (f.encode ++ rest)).rest =
      f.startByte :: (putPN (UInt64.ofNat f.req.length) ++ (f.req ++ rest)) := by
    simp [Frame.encode, sendPacketPlain, putRefbuffer]
  obtain ⟨b₁, h₁, hRest₁, hData₁⟩ := InBuffer.get8Nothrow_cons hStart
  obtain ⟨b₂, h₂, hRest₂, hData₂⟩ := InBuffer.getPNNothrow_putPN hRest₁
  obtain ⟨b₃, h₃, hRest₃, hData₃⟩ := InBuffer.unpackNothrow_append hRest₂ hLen.symm
  have hRoom : ¬ b₂.remains < (UInt64.ofNat f.req.length).toNat := by
    rw [← InBuffer.length_rest, hRest₂, List.length_append, hLen]
    omega
  have hData : b₃.mData = f.encode ++ rest := (hData₃.trans hData₂).trans hData₁
  have hDrop : (f.encode ++ rest).drop ((f.encode ++ rest).length - b₃.remains) = rest := by
    rw [← hData, InBuffer.drop_consumed, hRest₃]
  simp only [takeFrame, h₁, h₂, hRoom, if_false, h₃, hDrop]

/-- A proper prefix of a frame is not taken. -/
theorem takeFrame_short {f : Frame} {p : Bytes} (hPre : p <+: f.encode)
    (hLen : p.length < f.encode.length) : takeFrame p = none := by
  have hFits : (UInt64.ofNat f.req.length).toNat = f.req.length :=
    UInt64.toNat_ofNat_of_lt' f.fits
  cases p with
  | nil => rfl
  | cons c p =>
      obtain ⟨b₁, h₁, hRest₁, -⟩ := InBuffer.get8Nothrow_cons
        (InBuffer.rest_ofBytes (c :: p))
      simp only [Frame.encode, sendPacketPlain, putRefbuffer, List.cons_prefix_cons,
        List.length_cons, List.length_append] at hPre hLen
      obtain ⟨rfl, hPre⟩ := hPre
      by_cases hHeader : p.length < (putPN (UInt64.ofNat f.req.length)).length
      · -- the length itself is cut
        have hCut : b₁.rest <+: putPN (UInt64.ofNat f.req.length) := by
          rw [hRest₁]
          exact List.prefix_of_prefix_length_le hPre (List.prefix_append _ _) (by omega)
        obtain ⟨b₂, h₂⟩ := InBuffer.getPNNothrow_short hCut (by rw [hRest₁]; exact hHeader)
        simp only [takeFrame, h₁, h₂]
      · -- the length is complete, the body is not
        obtain ⟨q, rfl⟩ : putPN (UInt64.ofNat f.req.length) <+: p :=
          List.prefix_of_prefix_length_le (List.prefix_append _ _) hPre (by omega)
        obtain ⟨b₂, h₂, hRest₂, -⟩ := InBuffer.getPNNothrow_putPN hRest₁
        have hRoom : b₂.remains < (UInt64.ofNat f.req.length).toNat := by
          rw [← InBuffer.length_rest, hRest₂, hFits]
          rw [List.length_append] at hLen
          omega
        simp only [takeFrame, h₁, h₂, hRoom, if_true]

/-- What is taken off a buffer has a length that was read as a packed number. -/
theorem takeFrame_fits {p : Bytes} {startByte : UInt8} {req rest : Bytes}
    (h : takeFrame p = some (startByte, req, rest)) : req.length < 2 ^ 64 := by
  unfold takeFrame at h
  split at h
  · cases h
  split at h
  · cases h
  rename_i len b _
  split at h
  · cases h
  split at h
  · cases h
  rename_i hUnpack
  simp only [Option.some.injEq, Prod.mk.injEq] at h
  obtain ⟨-, rfl, -⟩ := h
  unfold InBuffer.unpackNothrow at hUnpack
  split at hUnpack
  · simp only [Prod.mk.injEq, Option.some.injEq] at hUnpack
    rw [← hUnpack.1, List.length_take]
    exact Nat.lt_of_le_of_lt (Nat.min_le_left _ _) len.toNat_lt
  · simp at hUnpack

/-- The locked section as a decoder of frames. -/
def decodeFrame (p : Bytes) : Option (Frame × Bytes) :=
  match h : takeFrame p with
  | none => none
  | some (startByte, req, rest) => some (⟨startByte, req, takeFrame_fits h⟩, rest)

theorem decodeFrame_eq_some {p : Bytes} {f : Frame} {rest : Bytes} :
    decodeFrame p = some (f, rest) ↔ takeFrame p = some (f.startByte, f.req, rest) := by
  obtain ⟨startByte, req, fits⟩ := f
  unfold decodeFrame
  split
  · rename_i h
    simp [h]
  · rename_i h
    simp [h, and_assoc]

theorem decodeFrame_eq_none {p : Bytes} : decodeFrame p = none ↔ takeFrame p = none := by
  unfold decodeFrame
  split <;> simp_all

/-- The Oscar frames as a codec. -/
def frameFormat : Framing.FrameFormat Frame UInt8 where
  encode := Frame.encode
  decode := decodeFrame
  decode_encode f rest := decodeFrame_eq_some.2 (takeFrame_encode f rest)
  decode_short _ _ hPre hLen := decodeFrame_eq_none.2 (takeFrame_short hPre hLen)
  decode_nil := decodeFrame_eq_none.2 rfl

/-! ## The loop is the generic receiver -/

/-- How a frame leaves the loop; the socket plays no part in it. -/
def verdict (f : Frame) : Framing.Verdict :=
  if f.startByte = sbSinglePacket then .next
  else if f.startByte = sbHello then
    match helloVersion f.req with
    | .error _ => .shut
    | .ok ver => if ver >>> 8 ≠ coreVersion >>> 8 then .shut else .leave
  else .shut

/-- What a frame makes `on_StreamRead` do. -/
def effects (esi : EpollSocketInfo) (route : ρ) (f : Frame) : List (Effect ρ) :=
  (dispatchFrame esi route f.startByte f.req).1

theorem dispatchFrame_eq (esi : EpollSocketInfo) (route : ρ) (f : Frame) :
    dispatchFrame esi route f.startByte f.req = (effects esi route f, verdict f) := by
  refine Prod.ext rfl ?_
  unfold dispatchFrame verdict
  split
  · split <;> rfl
  split
  · split
    · rfl
    · split
      · split <;> rfl
      · rfl
  · rfl

/-- Neither the buffer nor the descriptor decides what a frame does. -/
@[simp] theorem effects_mk (esi : EpollSocketInfo) (buf : Bytes) (closed : Bool)
    (route : ρ) :
    effects ⟨esi.mId, esi.mStreamType, buf, closed⟩ route = effects esi route := rfl

/-- A receiver's result as the socket and the effects behind it. -/
def outcome (esi : EpollSocketInfo) (route : ρ) (r : Framing.Receiver Frame UInt8) :
    EpollSocketInfo × List (Effect ρ) :=
  ({ esi with mInBuffer := r.buffer, closed := r.shut },
    r.handled.flatMap (effects esi route))

theorem streamReadLoop_eq (route : ρ) :
    ∀ (fuel : Nat) (esi : EpollSocketInfo), esi.closed = false →
      streamReadLoop route fuel esi =
        outcome esi route (Framing.loop frameFormat verdict fuel esi.mInBuffer) := by
  intro fuel
  induction fuel with
  | zero => intro esi hOpen; simp [streamReadLoop, Framing.loop, outcome, ← hOpen]
  | succ fuel ih =>
      intro esi hOpen
      cases hTake : frameFormat.decode esi.mInBuffer with
      | none =>
          rw [Framing.loop_none hTake]
          simp [streamReadLoop, decodeFrame_eq_none.1 hTake, outcome, ← hOpen]
      | some taken =>
          obtain ⟨f, rest⟩ := taken
          simp only [streamReadLoop, decodeFrame_eq_some.1 hTake, dispatchFrame_eq, effects_mk]
          cases hv : verdict f with
          | next =>
              rw [Framing.loop_next hTake hv]
              simp [ih { esi with mInBuffer := rest } hOpen, outcome]
          | leave =>
              rw [Framing.loop_leave hTake hv]
              simp [outcome, hOpen]
          | shut =>
              rw [Framing.loop_shut hTake hv]
              simp [outcome]

theorem onStreamRead_eq (route : ρ) {esi : EpollSocketInfo} (hOpen : esi.closed = false) :
    onStreamRead route esi =
      outcome esi route (Framing.poll frameFormat verdict esi.mInBuffer) :=
  streamReadLoop_eq route _ esi hOpen

/-- One chunk is one step of the generic receiver. -/
theorem receive_eq (esi : EpollSocketInfo) (route : ρ) (r : Framing.Receiver Frame UInt8)
    (chunk : Bytes) :
    receive route (outcome esi route r) chunk =
      outcome esi route (Framing.feed frameFormat verdict r chunk) := by
  cases hs : r.shut with
  | true => simp [receive, outcome, Framing.feed, hs]
  | false =>
      simp only [receive, outcome, Framing.feed, hs, Bool.false_eq_true, if_false]
      rw [onStreamRead_eq route rfl]
      simp [outcome]

/-- The effects and the buffer after any chunks, on a fresh socket. -/
theorem receiveAll_eq (mId : Nat) (st : StreamType) (route : ρ) (chunks : List Bytes) :
    receiveAll route (.fresh mId st) chunks =
      outcome (.fresh mId st) route (Framing.feedAll frameFormat verdict chunks) := by
  have key : ∀ (cs : List Bytes) (r : Framing.Receiver Frame UInt8),
      cs.foldl (receive route) (outcome (.fresh mId st) route r) =
        outcome (.fresh mId st) route (cs.foldl (Framing.feed frameFormat verdict) r) := by
    intro cs
    induction cs with
    | nil => intro r; rfl
    | cons c cs ih => intro r; rw [List.foldl_cons, receive_eq, ih, List.foldl_cons]
  exact key chunks ⟨[], [], false⟩

end Megatron.Oscar
