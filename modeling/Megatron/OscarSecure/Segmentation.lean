import Mathlib.Data.List.Induction
import Megatron.OscarSecure.Buffering
import Megatron.OscarSecure.Handshake

/-!
# Cutting a secure stream into chunks

The frames of an honest peer are handled in order, each in the state the ones
before it have left.  A packet and a session key let the loop go on; both hellos
fall on the `break` behind the `switch`, so what shares a chunk with a hello and
comes behind it waits for the next chunk.

The loop is the generic receiver again (`loop_eq`): which frames it handles, and
what it keeps, does not depend on the state while no frame closes the socket.

## Main results

* `cutFree_iff` — a stream can be cut without effect exactly when no hello has a
  frame behind it.
* `hello_then_packet` — the first packet in one chunk with the second hello.
-/

namespace Megatron.OscarSecure

open Megatron.Corelib Megatron.Lib Megatron.Ssl
open Megatron.Oscar (Frame StreamType)

variable {Key ρ : Type}

/-- A frame within `m_maxPacketSize`. -/
abbrev PeerFrame (maxPacketSize : UInt64) := { f : Frame // f.req.length ≤ maxPacketSize.toNat }

/-- The bytes of a list of frames. -/
def stream {maxPacketSize : UInt64} (fs : List (PeerFrame maxPacketSize)) : Bytes :=
  fs.flatMap fun f => f.1.encode

section Service

variable (ssl : Ssl Key) (maxPacketSize : UInt64) (rand : Except CommonError Bytes) (route : ρ)

/-- A chunk is received. -/
def receive (s : State Key ρ) (chunk : Bytes) : State Key ρ :=
  if s.esi.closed then s
  else onStreamRead ssl maxPacketSize rand route (apply ssl maxPacketSize s (.arrive chunk))

/-- All chunks are received. -/
def receiveAll (s : State Key ρ) (chunks : List Bytes) : State Key ρ :=
  chunks.foldl (receive ssl maxPacketSize rand route) s

/-- One frame, with nothing behind it. -/
def handle (s : State Key ρ) (f : PeerFrame maxPacketSize) : State Key ρ × Framing.Verdict :=
  handleFrame ssl rand route f.1.startByte f.1.req [] s

/-- Frames one after the other. -/
def handleAll (s : State Key ρ) (fs : List (PeerFrame maxPacketSize)) : State Key ρ :=
  fs.foldl (fun s f => (handle ssl maxPacketSize rand route s f).1) s

/-- No frame makes the service close the socket. -/
def Honest : State Key ρ → List (PeerFrame maxPacketSize) → Prop
  | _, [] => True
  | s, f :: fs =>
      (handle ssl maxPacketSize rand route s f).2 ≠ .shut ∧
        Honest (handle ssl maxPacketSize rand route s f).1 fs

/-- Every cutting of the stream has the effects of one chunk a frame, and leaves
nothing in the buffer. -/
def CutFree (s : State Key ρ) (fs : List (PeerFrame maxPacketSize)) : Prop :=
  ∀ chunks : List Bytes, chunks.flatten = stream fs →
    receiveAll ssl maxPacketSize rand route s chunks =
        receiveAll ssl maxPacketSize rand route s (fs.map fun f => f.1.encode) ∧
      (receiveAll ssl maxPacketSize rand route s chunks).esi.mInBuffer = []

end Service

/-- A hello of either kind. -/
def IsHello {maxPacketSize : UInt64} (f : PeerFrame maxPacketSize) : Prop :=
  f.1.startByte = sbHelloSslS2C ∨ f.1.startByte = sbHelloSsl2S2C

instance {maxPacketSize : UInt64} : DecidablePred (@IsHello maxPacketSize) :=
  fun f => inferInstanceAs (Decidable (f.1.startByte = _ ∨ f.1.startByte = _))

/-! ## The frame codec -/

/-- The locked section is that of Oscar, with the length looked at behind it. -/
theorem takeFrame_eq (maxPacketSize : UInt64) (mxData : Bytes) :
    (Oscar.takeFrame mxData = none → takeFrame maxPacketSize mxData = .wait) ∧
      ∀ startByte req rest, Oscar.takeFrame mxData = some (startByte, req, rest) →
        req.length ≤ maxPacketSize.toNat →
          takeFrame maxPacketSize mxData = .frame startByte req rest := by
  rw [Oscar.takeFrame, takeFrame]
  obtain ⟨o, b, hGet⟩ : ∃ o b, (InBuffer.ofBytes mxData).get8Nothrow = (o, b) := ⟨_, _, rfl⟩
  rw [hGet]
  cases o with
  | none => exact ⟨fun _ => rfl, fun _ _ _ h => by cases h⟩
  | some startByte =>
      obtain ⟨o, b', hLen⟩ : ∃ o b', b.getPNNothrow = (o, b') := ⟨_, _, rfl⟩
      dsimp only
      rw [hLen]
      cases o with
      | none => exact ⟨fun _ => rfl, fun _ _ _ h => by cases h⟩
      | some len =>
          dsimp only
          by_cases hShort : b'.remains < len.toNat
          · rw [if_pos hShort, if_pos hShort]
            exact ⟨fun _ => rfl, fun _ _ _ h => by cases h⟩
          · rw [if_neg hShort, if_neg hShort, InBuffer.unpackNothrow, dif_pos (not_lt.1 hShort)]
            refine ⟨fun h => (by cases h), fun startByte' req rest h hMax => ?_⟩
            obtain ⟨rfl, hReq, rfl⟩ : startByte = startByte' ∧ b'.rest.take len.toNat = req ∧ _ := by
              simpa only [Option.some.injEq, Prod.mk.injEq] using h
            have hLength : req.length = len.toNat := by
              rw [← hReq, List.length_take, InBuffer.length_rest]
              exact Nat.min_eq_left (not_lt.1 hShort)
            rw [if_neg (by rw [gt_iff_lt, UInt64.lt_iff_toNat_lt]; omega), hReq]

theorem takeFrame_encode {maxPacketSize : UInt64} (f : PeerFrame maxPacketSize) (rest : Bytes) :
    takeFrame maxPacketSize (f.1.encode ++ rest) = .frame f.1.startByte f.1.req rest :=
  (takeFrame_eq maxPacketSize _).2 _ _ _ (Oscar.takeFrame_encode f.1 rest) f.2

theorem takeFrame_short {maxPacketSize : UInt64} {f : PeerFrame maxPacketSize} {p : Bytes}
    (hPre : p <+: f.1.encode) (hLen : p.length < f.1.encode.length) :
    takeFrame maxPacketSize p = .wait :=
  (takeFrame_eq maxPacketSize p).1 (Oscar.takeFrame_short hPre hLen)

/-- The frames within `m_maxPacketSize` as a codec. -/
def frameFormat (maxPacketSize : UInt64) : Framing.FrameFormat (PeerFrame maxPacketSize) UInt8 where
  encode f := f.1.encode
  decode p :=
    match Oscar.decodeFrame p with
    | none => none
    | some (f, rest) =>
        if h : f.req.length ≤ maxPacketSize.toNat then some (⟨f, h⟩, rest) else none
  decode_encode f rest := by
    rw [Oscar.decodeFrame_eq_some.2 (Oscar.takeFrame_encode f.1 rest)]
    dsimp only
    rw [dif_pos f.2]
  decode_short f p hPre hLen := by
    rw [Oscar.decodeFrame_eq_none.2 (Oscar.takeFrame_short hPre hLen)]
  decode_nil := by rw [Oscar.decodeFrame_eq_none.2 rfl]

/-- How an honest frame leaves the loop. -/
def verdict {maxPacketSize : UInt64} (f : PeerFrame maxPacketSize) : Framing.Verdict :=
  if IsHello f then .leave else .next

/-! ## The loop is the generic receiver -/

/-- A frame with the buffer replaced. -/
def withBuffer (s : State Key ρ) (buf : Bytes) : State Key ρ :=
  { s with esi := { s.esi with mInBuffer := buf } }

section Service

variable {ssl : Ssl Key} {maxPacketSize : UInt64} {rand : Except CommonError Bytes} {route : ρ}

/-- What a frame does is the same whatever is behind it. -/
theorem dispatch_withBuffer (ssl : Ssl Key) (rand : Except CommonError Bytes) (route : ρ)
    (startByte : UInt8) (req : Bytes) (s : State Key ρ) (buf : Bytes) :
    dispatch ssl rand route startByte req (withBuffer s buf) =
      (withBuffer (dispatch ssl rand route startByte req s).1 buf,
        (dispatch ssl rand route startByte req s).2) := by
  have hOd : (withBuffer s buf).od = s.od := rfl
  have hRoleSame : (withBuffer s buf).esi.mStreamType = s.esi.mStreamType := rfl
  rw [dispatch, dispatch]
  split
  · rw [onPacket, onPacket, hOd, hRoleSame]
    cases s.od.aes.decrypt ssl.cipher req with
    | error e => rfl
    | ok out =>
        dsimp only
        split <;> rfl
  split
  · rw [onSetAesKey, onSetAesKey, hOd]
    cases sessionKey ssl s.od.rsa req with
    | error e => rfl
    | ok aes =>
        by_cases hRole : s.esi.mStreamType ≠ .accepted
        · have hRight : (s.install aes).esi.mStreamType ≠ .accepted := hRole
          have hLeft : ((withBuffer s buf).install aes).esi.mStreamType ≠ .accepted := hRole
          dsimp only
          rw [if_pos hRight, if_pos hLeft]
          rfl
        · have hRight : ¬ (s.install aes).esi.mStreamType ≠ .accepted := hRole
          have hLeft : ¬ ((withBuffer s buf).install aes).esi.mStreamType ≠ .accepted := hRole
          dsimp only
          rw [if_neg hRight, if_neg hLeft]
          rfl
  split
  · rfl
  split
  · rw [onHelloSsl, onHelloSsl]
    cases peerHello req with
    | error e => rfl
    | ok hello =>
        obtain ⟨pubkey, version⟩ := hello
        dsimp only
        by_cases hVersion : version >>> 8 ≠ Oscar.coreVersion >>> 8
        · rw [if_pos hVersion, if_pos hVersion]
          rfl
        rw [if_neg hVersion, if_neg hVersion]
        cases ssl.fromPublicKey pubkey with
        | none => rfl
        | some key =>
            dsimp only
            cases newSessionKey rand with
            | error e => rfl
            | ok r =>
                obtain ⟨aesKey, aes⟩ := r
                dsimp only
                cases ssl.publicEncrypt key aesKey <;> rfl
  · rfl

/-- What is behind a frame is kept. -/
theorem handleFrame_eq (f : PeerFrame maxPacketSize) (rest : Bytes) (s : State Key ρ) :
    handleFrame ssl rand route f.1.startByte f.1.req rest s =
      (withBuffer (handle ssl maxPacketSize rand route s f).1 rest,
        (handle ssl maxPacketSize rand route s f).2) := by
  have hDispatch := dispatch_withBuffer ssl rand route f.1.startByte f.1.req (withBuffer s []) rest
  have hSame : withBuffer (withBuffer s []) rest = withBuffer s rest := rfl
  rw [hSame] at hDispatch
  have hUnfold : ∀ buf, handleFrame ssl rand route f.1.startByte f.1.req buf s =
      ((dispatch ssl rand route f.1.startByte f.1.req (withBuffer s buf)).1.record
        (.handled f.1.startByte f.1.req s.od
          (dispatch ssl rand route f.1.startByte f.1.req (withBuffer s buf)).1.od),
        (dispatch ssl rand route f.1.startByte f.1.req (withBuffer s buf)).2) := fun _ => rfl
  rw [handle, hUnfold, hUnfold, hDispatch]
  rfl

/-- The buffer plays no part in what a frame does. -/
theorem handle_withBuffer (f : PeerFrame maxPacketSize) (s : State Key ρ) (buf : Bytes) :
    handle ssl maxPacketSize rand route (withBuffer s buf) f =
      handle ssl maxPacketSize rand route s f := rfl

/-- A frame that does not close the socket leaves the loop if it is a hello. -/
theorem verdict_handle {f : PeerFrame maxPacketSize} {s : State Key ρ}
    (h : (handle ssl maxPacketSize rand route s f).2 ≠ .shut) :
    (handle ssl maxPacketSize rand route s f).2 = verdict f := by
  have hDispatch : (handle ssl maxPacketSize rand route s f).2 =
      (dispatch ssl rand route f.1.startByte f.1.req (withBuffer s [])).2 := rfl
  rw [hDispatch] at h ⊢
  exact verdict_dispatch h

theorem handleAll_append (s : State Key ρ) (fs gs : List (PeerFrame maxPacketSize)) :
    handleAll ssl maxPacketSize rand route s (fs ++ gs) =
      handleAll ssl maxPacketSize rand route (handleAll ssl maxPacketSize rand route s fs) gs :=
  List.foldl_append

theorem honest_append {s : State Key ρ} {fs gs : List (PeerFrame maxPacketSize)} :
    Honest ssl maxPacketSize rand route s (fs ++ gs) ↔
      Honest ssl maxPacketSize rand route s fs ∧
        Honest ssl maxPacketSize rand route (handleAll ssl maxPacketSize rand route s fs) gs := by
  induction fs generalizing s with
  | nil => exact ⟨fun h => ⟨trivial, h⟩, fun h => h.2⟩
  | cons f fs ih =>
      rw [List.cons_append, Honest, Honest, ih, and_assoc]
      exact Iff.rfl

/-- An open socket stays open. -/
theorem closed_handle {f : PeerFrame maxPacketSize} {s : State Key ρ}
    (hOpen : s.esi.closed = false) (h : (handle ssl maxPacketSize rand route s f).2 ≠ .shut) :
    (handle ssl maxPacketSize rand route s f).1.esi.closed = false := by
  have hEsi := esi_handleFrame ssl rand route f.1.startByte f.1.req [] s
  rw [handle] at h ⊢
  rw [hEsi, hOpen, Bool.false_or]
  cases hVerdict : (handleFrame ssl rand route f.1.startByte f.1.req [] s).2 with
  | next => rfl
  | leave => rfl
  | shut => exact absurd hVerdict h

theorem closed_handleAll {fs : List (PeerFrame maxPacketSize)} :
    ∀ {s : State Key ρ}, s.esi.closed = false → Honest ssl maxPacketSize rand route s fs →
      (handleAll ssl maxPacketSize rand route s fs).esi.closed = false := by
  induction fs with
  | nil => exact fun hOpen _ => hOpen
  | cons f fs ih => exact fun hOpen hHonest => ih (closed_handle hOpen hHonest.1) hHonest.2

/-- **The loop** on a prefix of an honest stream handles the frames the generic
receiver handles, and keeps what it keeps. -/
theorem loop_eq :
    ∀ (fuel : Nat) (fs : List (PeerFrame maxPacketSize)) (s : State Key ρ) (p : Bytes),
      Honest ssl maxPacketSize rand route s fs → p <+: stream fs → p.length < fuel →
        streamReadLoop ssl maxPacketSize rand route fuel (withBuffer s p) =
          withBuffer (handleAll ssl maxPacketSize rand route s
              (Framing.loop (frameFormat maxPacketSize) verdict fuel p).handled)
            (Framing.loop (frameFormat maxPacketSize) verdict fuel p).buffer := by
  intro fuel
  induction fuel with
  | zero => exact fun fs s p _ _ hFuel => absurd hFuel (Nat.not_lt_zero _)
  | succ fuel ih =>
      intro fs s p hHonest hPre hFuel
      have hWait : takeFrame maxPacketSize p = .wait →
          (frameFormat maxPacketSize).decode p = none →
          streamReadLoop ssl maxPacketSize rand route (fuel + 1) (withBuffer s p) =
            withBuffer (handleAll ssl maxPacketSize rand route s
                (Framing.loop (frameFormat maxPacketSize) verdict (fuel + 1) p).handled)
              (Framing.loop (frameFormat maxPacketSize) verdict (fuel + 1) p).buffer := by
        intro hTake hNone
        rw [Framing.loop_none hNone, streamReadLoop,
          show takeFrame maxPacketSize (withBuffer s p).esi.mInBuffer = .wait from hTake]
        rfl
      cases fs with
      | nil =>
          obtain rfl : p = [] := List.prefix_nil.1 hPre
          exact hWait rfl (frameFormat maxPacketSize).decode_nil
      | cons f fs =>
          have hWire : stream (f :: fs) = f.1.encode ++ stream fs := List.flatMap_cons
          rw [hWire] at hPre
          by_cases hShort : p.length < f.1.encode.length
          · have hCut : p <+: f.1.encode :=
              List.prefix_of_prefix_length_le hPre (List.prefix_append _ _) (le_of_lt hShort)
            exact hWait (takeFrame_short hCut hShort)
              ((frameFormat maxPacketSize).decode_short f p hCut hShort)
          · obtain ⟨q, rfl⟩ : f.1.encode <+: p :=
              List.prefix_of_prefix_length_le (List.prefix_append _ _) hPre (not_lt.1 hShort)
            have hTail : q <+: stream fs := (List.prefix_append_right_inj _).1 hPre
            have hPos := Framing.encode_length_pos (frameFormat maxPacketSize) f
            have hDecode : (frameFormat maxPacketSize).decode (f.1.encode ++ q) = some (f, q) :=
              (frameFormat maxPacketSize).decode_encode f q
            have hVerdict := verdict_handle hHonest.1
            rw [streamReadLoop, show takeFrame maxPacketSize
              (withBuffer s (f.1.encode ++ q)).esi.mInBuffer = _ from takeFrame_encode f q]
            dsimp only
            rw [handleFrame_eq, handle_withBuffer, hVerdict]
            rw [List.length_append] at hFuel
            cases hNext : verdict f with
            | next =>
                rw [Framing.loop_next hDecode hNext]
                refine ih fs _ q hHonest.2 hTail ?_
                have hPos' : 0 < f.1.encode.length := hPos
                omega
            | leave =>
                rw [Framing.loop_leave hDecode hNext]
                rfl
            | shut =>
                rw [verdict] at hNext
                split at hNext <;> cases hNext

theorem onStreamRead_eq {fs : List (PeerFrame maxPacketSize)} {s : State Key ρ} {p : Bytes}
    (hHonest : Honest ssl maxPacketSize rand route s fs) (hPre : p <+: stream fs) :
    onStreamRead ssl maxPacketSize rand route (withBuffer s p) =
      withBuffer (handleAll ssl maxPacketSize rand route s
          (Framing.poll (frameFormat maxPacketSize) verdict p).handled)
        (Framing.poll (frameFormat maxPacketSize) verdict p).buffer :=
  loop_eq (p.length + 1) fs s p hHonest hPre (Nat.lt_succ_self _)

theorem receive_eq {s : State Key ρ} (hOpen : s.esi.closed = false) (buf chunk : Bytes) :
    receive ssl maxPacketSize rand route (withBuffer s buf) chunk =
      onStreamRead ssl maxPacketSize rand route (withBuffer s (buf ++ chunk)) := by
  have hSame : (withBuffer s buf).esi.closed = false := hOpen
  rw [receive, hSame, if_neg Bool.false_ne_true]
  rfl

/-- No frame of an honest peer shuts the connection. -/
theorem verdict_ne_shut (f : PeerFrame maxPacketSize) : verdict f ≠ .shut := by
  rw [verdict]
  split <;> simp

/-- **Any chunks** of an honest stream that flows: the frames handled and the
bytes kept are those of the generic receiver. -/
theorem receiveAll_eq {fs : List (PeerFrame maxPacketSize)} {s : State Key ρ}
    (hFlows : Framing.Flows verdict fs) (hHonest : Honest ssl maxPacketSize rand route s fs)
    (hOpen : s.esi.closed = false) (hEmpty : s.esi.mInBuffer = []) (chunks : List Bytes) :
    chunks.flatten <+: stream fs →
      receiveAll ssl maxPacketSize rand route s chunks =
        withBuffer (handleAll ssl maxPacketSize rand route s
            (Framing.feedAll (frameFormat maxPacketSize) verdict chunks).handled)
          (Framing.feedAll (frameFormat maxPacketSize) verdict chunks).buffer := by
  induction chunks using List.reverseRecOn with
  | nil =>
      intro _
      change s = withBuffer s []
      rw [withBuffer, ← hEmpty]
  | append_singleton cs c ih =>
      intro hPre
      rw [List.flatten_append, List.flatten_singleton] at hPre
      have hBefore := (List.prefix_append cs.flatten c).trans hPre
      have hRun := ih hBefore
      have hFeed : Framing.feedAll (frameFormat maxPacketSize) verdict (cs ++ [c]) =
          Framing.feed (frameFormat maxPacketSize) verdict
            (Framing.feedAll (frameFormat maxPacketSize) verdict cs) c := List.foldl_append
      rcases Framing.feedAll_received (frameFormat maxPacketSize) verdict hFlows cs hBefore with
        ⟨hShut, -, todo, hAll, hBytes, -⟩ | ⟨-, ⟨f, -, hf⟩, -⟩
      · have hSplit : Honest ssl maxPacketSize rand route s
            ((Framing.feedAll (frameFormat maxPacketSize) verdict cs).handled ++ todo) := by
          rw [← hAll]
          exact hHonest
        obtain ⟨hDone, hTodo⟩ := honest_append.1 hSplit
        have hChunk : (Framing.feedAll (frameFormat maxPacketSize) verdict cs).buffer ++ c <+:
            stream todo := by
          have hWire : stream fs =
              Framing.wire (frameFormat maxPacketSize)
                (Framing.feedAll (frameFormat maxPacketSize) verdict cs).handled ++ stream todo := by
            rw [hAll]
            exact List.flatMap_append
          rw [hBytes, hWire, List.append_assoc] at hPre
          exact (List.prefix_append_right_inj _).1 hPre
        have hStep : receiveAll ssl maxPacketSize rand route s (cs ++ [c]) =
            receive ssl maxPacketSize rand route
              (receiveAll ssl maxPacketSize rand route s cs) c := List.foldl_append
        rw [hStep, hRun, receive_eq (closed_handleAll hOpen hDone), onStreamRead_eq hTodo hChunk,
          hFeed, Framing.feed, hShut, if_neg Bool.false_ne_true]
        dsimp only
        rw [handleAll_append]
      · exact absurd hf (verdict_ne_shut f)

/-! ## Cutting -/

/-- The stream flows where only the last frame may be a hello. -/
theorem flows_iff (fs : List (PeerFrame maxPacketSize)) :
    Framing.Flows verdict fs ↔ ∀ f ∈ fs.dropLast, ¬ IsHello f := by
  induction fs with
  | nil => exact ⟨fun _ f hMem => absurd hMem List.not_mem_nil, fun _ => trivial⟩
  | cons f fs ih =>
      rw [Framing.Flows]
      by_cases hHello : IsHello f
      · rw [verdict, if_pos hHello]
        cases fs with
        | nil => exact ⟨fun _ f hMem => absurd hMem List.not_mem_nil, fun _ => rfl⟩
        | cons g gs =>
            refine ⟨fun h => absurd h (List.cons_ne_nil g gs), fun h => absurd hHello (h f ?_)⟩
            rw [List.dropLast_cons_of_ne_nil (List.cons_ne_nil g gs)]
            exact List.mem_cons_self
      · rw [verdict, if_neg hHello]
        refine ih.trans ?_
        cases fs with
        | nil =>
            exact ⟨fun _ f hMem => absurd hMem List.not_mem_nil,
              fun _ f hMem => absurd hMem List.not_mem_nil⟩
        | cons g gs =>
            rw [List.dropLast_cons_of_ne_nil (List.cons_ne_nil g gs), List.forall_mem_cons]
            exact (and_iff_right hHello).symm

/-- After the whole of a stream that flows, all frames have been handled and
nothing is kept. -/
theorem receiveAll_of_flows {fs : List (PeerFrame maxPacketSize)} {s : State Key ρ}
    (hFlows : Framing.Flows verdict fs) (hHonest : Honest ssl maxPacketSize rand route s fs)
    (hOpen : s.esi.closed = false) (hEmpty : s.esi.mInBuffer = []) {chunks : List Bytes}
    (hChunks : chunks.flatten = stream fs) :
    receiveAll ssl maxPacketSize rand route s chunks =
      withBuffer (handleAll ssl maxPacketSize rand route s fs) [] := by
  have hWire : chunks.flatten = Framing.wire (frameFormat maxPacketSize) fs := hChunks
  obtain ⟨hHandled, hBuffer⟩ :=
    Framing.feedAll_handled (frameFormat maxPacketSize) verdict hFlows hWire
  have hShut : (Framing.feedAll (frameFormat maxPacketSize) verdict chunks).shut = false := by
    rcases Framing.feedAll_received (frameFormat maxPacketSize) verdict hFlows chunks
      (hWire ▸ List.prefix_refl _) with ⟨hShut, -⟩ | ⟨-, ⟨f, -, hf⟩, -⟩
    · exact hShut
    · exact absurd hf (verdict_ne_shut f)
  rw [receiveAll_eq hFlows hHonest hOpen hEmpty chunks (hChunks ▸ List.prefix_refl _), hHandled, hBuffer hShut,
    Framing.live_of_open verdict fun f _ => verdict_ne_shut f]

/--
**Segmentation.** A stream of frames of an honest peer, on an open socket with
nothing in its buffer, can be cut in any way without effect, and nothing of it
stays unread, if and only if no hello has a frame behind it.
-/
theorem cutFree_iff {fs : List (PeerFrame maxPacketSize)} {s : State Key ρ}
    (hHonest : Honest ssl maxPacketSize rand route s fs) (hOpen : s.esi.closed = false)
    (hEmpty : s.esi.mInBuffer = []) :
    CutFree ssl maxPacketSize rand route s fs ↔ ∀ f ∈ fs.dropLast, ¬ IsHello f := by
  have hApart : (fs.map fun f => f.1.encode).flatten = stream fs := by
    rw [stream, List.flatMap_def]
  rw [← flows_iff]
  constructor
  · intro hCut
    by_contra hNot
    obtain ⟨pre, f, g, post, rfl, hPre, hf⟩ := Framing.exists_leave_of_not_flows verdict hNot
    have hWhole : [stream (pre ++ f :: g :: post)].flatten = stream (pre ++ f :: g :: post) :=
      List.flatten_singleton
    have hStop := Framing.poll_wire_stop (frameFormat maxPacketSize) verdict (g :: post) hPre
      (by rw [hf]; simp)
    have hBuffer := (hCut _ hWhole).2
    have hRun : receiveAll ssl maxPacketSize rand route s [stream (pre ++ f :: g :: post)] =
        onStreamRead ssl maxPacketSize rand route
          (withBuffer s (stream (pre ++ f :: g :: post))) := by
      change receive ssl maxPacketSize rand route s _ = _
      have hSame : s = withBuffer s [] := by rw [withBuffer, ← hEmpty]
      rw [hSame, receive_eq hOpen]
      rfl
    rw [hRun, onStreamRead_eq hHonest (List.prefix_refl _)] at hBuffer
    change (Framing.poll (frameFormat maxPacketSize) verdict
      (Framing.wire (frameFormat maxPacketSize) (pre ++ f :: g :: post))).buffer = [] at hBuffer
    rw [hStop] at hBuffer
    have hPos := Framing.encode_length_pos (frameFormat maxPacketSize) g
    rw [Framing.wire_cons, List.append_eq_nil_iff] at hBuffer
    rw [hBuffer.1] at hPos
    exact absurd hPos (Nat.lt_irrefl 0)
  · intro hFlows chunks hChunks
    rw [receiveAll_of_flows hFlows hHonest hOpen hEmpty hChunks,
      receiveAll_of_flows hFlows hHonest hOpen hEmpty hApart]
    exact ⟨rfl, rfl⟩

end Service

instance decidableHonest (ssl : Ssl Key) (maxPacketSize : UInt64)
    (rand : Except CommonError Bytes) (route : ρ) :
    ∀ (s : State Key ρ) (fs : List (PeerFrame maxPacketSize)),
      Decidable (Honest ssl maxPacketSize rand route s fs)
  | _, [] => .isTrue trivial
  | s, f :: fs =>
      @instDecidableAnd _ _ inferInstance
        (decidableHonest ssl maxPacketSize rand route
          (handle ssl maxPacketSize rand route s f).1 fs)

/-- A frame of up to 1024 bytes. -/
def peerFrame (startByte : UInt8) (req : Bytes) (h : req.length ≤ 1024) : PeerFrame 1024 :=
  ⟨⟨startByte, req, Nat.lt_of_le_of_lt h (by decide)⟩, h⟩

/-- An AES packet of one byte, its padding included. -/
def bytePacket (c : UInt8) : PeerFrame 1024 :=
  peerFrame sbSinglePacketAes (c :: List.replicate 15 15) (by simp)

/-- An accepted socket gets a session key and two packets: a stream that may be
cut anywhere. -/
theorem key_then_packets :
    CutFree plain 1024 (.ok []) () (onAccepted plain (some [7]) (.fresh 1 .accepted))
      [peerFrame sbSetAesKeyC2S (putPSTR [1, 2, 3]) (by decide), bytePacket 5, bytePacket 6] :=
  (cutFree_iff (by decide +kernel) rfl rfl).2 (by decide)

/-- What a connected socket gets from an honest peer that sends a packet. -/
def answers : List (PeerFrame 1024) :=
  [peerFrame sbHelloSslS2C (putPSTR [7] ++ putPN 0x300) (by decide),
   peerFrame sbHelloSsl2S2C [] (by decide), bytePacket 5]

/-- The second hello and the packet in one chunk: the packet is not delivered. -/
theorem hello_then_packet :
    Honest plain 1024 (.ok [1, 2, 3]) () (.fresh 1 .connected) answers ∧
      (receiveAll plain 1024 (.ok [1, 2, 3]) () (.fresh 1 .connected)
          [stream (answers.take 1), stream (answers.drop 1)]).esi.mInBuffer =
        stream (answers.drop 2) ∧
      ¬ CutFree plain 1024 (.ok [1, 2, 3]) () (.fresh 1 .connected) answers := by
  have hKept : (receiveAll plain 1024 (.ok [1, 2, 3]) () (.fresh 1 .connected)
      [stream (answers.take 1), stream (answers.drop 1)]).esi.mInBuffer =
        stream (answers.drop 2) := by decide +kernel
  refine ⟨by decide +kernel, hKept, fun hCut => ?_⟩
  have hEmpty := (hCut [stream (answers.take 1), stream (answers.drop 1)] (by decide +kernel)).2
  rw [hKept] at hEmpty
  exact absurd hEmpty (by decide +kernel)

end Megatron.OscarSecure
