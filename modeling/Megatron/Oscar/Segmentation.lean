import Megatron.Oscar.Service

/-!
# Cutting an Oscar stream into chunks

TCP hands `on_StreamRead` the stream in chunks of its own choosing.  Packets
survive any cutting: whatever prefix has arrived, exactly the packets complete
in it have been delivered.  A hello does not: the `break` behind the `switch`
leaves the `while` loop as well, so a frame that shares its chunk with an
accepted hello waits for the next chunk, if there is one.

## Main results

* `receiveAll_packets` — a stream of packets, any prefix, any chunking.
* `receiveAll_segmentation` — a stream of arbitrary frames can be cut without
  effect exactly when no accepted hello has a frame behind it, up to the first
  frame that closes the socket.
-/

namespace Megatron.Oscar

open Megatron.Corelib
open Megatron.Lib

variable {ρ : Type}

/-- The bytes of a list of frames. -/
def stream (fs : List Frame) : Bytes := fs.flatMap Frame.encode

theorem stream_append (fs gs : List Frame) : stream (fs ++ gs) = stream fs ++ stream gs :=
  List.flatMap_append

/-- Every cutting of the stream has the effects of the uncut stream, and
leaves the socket in a state that meets `Done`. -/
def CutFree (mId : Nat) (st : StreamType) (route : ρ) (fs : List Frame)
    (Done : EpollSocketInfo → Prop) : Prop :=
  ∀ chunks : List Bytes, chunks.flatten = stream fs →
    (receiveAll route (.fresh mId st) chunks).2 =
      (receiveAll route (.fresh mId st) [stream fs]).2 ∧
    Done (receiveAll route (.fresh mId st) chunks).1

/-! ## Streams of arbitrary frames -/

/-- Only a packet lets the loop go on. -/
theorem verdict_eq_next {f : Frame} :
    verdict f = .next ↔ f.startByte = sbSinglePacket := by
  unfold verdict
  constructor
  · intro h
    split at h
    · assumption
    split at h
    · split at h
      · cases h
      · split at h <;> cases h
    · cases h
  · intro h
    rw [if_pos h]

theorem receiveAll_whole (mId : Nat) (st : StreamType) (route : ρ) (fs : List Frame) :
    receiveAll route (.fresh mId st) [stream fs] =
      outcome (.fresh mId st) route
        (Framing.poll frameFormat verdict (Framing.wire frameFormat fs)) := by
  rw [receiveAll_eq, Framing.feedAll_singleton]
  rfl

/-- A flowing stream: the effects are those of the live frames, and an open
socket keeps nothing. -/
theorem receiveAll_of_flows (mId : Nat) (st : StreamType) (route : ρ) {fs : List Frame}
    (hFlows : Framing.Flows verdict fs) {chunks : List Bytes}
    (hChunks : chunks.flatten = stream fs) :
    (receiveAll route (.fresh mId st) chunks).2 =
        (Framing.live verdict fs).flatMap (effects (.fresh mId st) route) ∧
      ((receiveAll route (.fresh mId st) chunks).1.closed = false →
        (receiveAll route (.fresh mId st) chunks).1.mInBuffer = []) := by
  obtain ⟨hLive, hOpen⟩ := Framing.feedAll_handled frameFormat verdict hFlows hChunks
  rw [receiveAll_eq, outcome, hLive]
  exact ⟨rfl, hOpen⟩

theorem cutFree_of_flows (mId : Nat) (st : StreamType) (route : ρ) {fs : List Frame}
    (hFlows : Framing.Flows verdict fs) :
    CutFree mId st route fs
      (fun esi => esi.closed = false → takeFrame esi.mInBuffer = none) := by
  intro chunks hChunks
  have hWhole : [stream fs].flatten = stream fs := by simp
  obtain ⟨hOut, hBuf⟩ := receiveAll_of_flows mId st route hFlows hChunks
  refine ⟨?_, fun hOpen => ?_⟩
  · rw [hOut, (receiveAll_of_flows mId st route hFlows hWhole).1]
  · rw [hBuf hOpen]
    rfl

/-- When the last frame is the only one that may stop the loop, nothing at
all is left behind. -/
theorem flows_of_dropLast {fs : List Frame}
    (h : ∀ f ∈ fs.dropLast, f.startByte = sbSinglePacket) :
    Framing.Flows verdict fs ∧ Framing.live verdict fs = fs := by
  induction fs with
  | nil => exact ⟨trivial, rfl⟩
  | cons f fs ih =>
      cases fs with
      | nil =>
          constructor
          · unfold Framing.Flows
            cases verdict f <;> trivial
          · simp [Framing.live]
      | cons g gs =>
          have hNext : verdict f = .next := verdict_eq_next.2 (h f (by simp))
          have hRest := ih fun x hx => h x (by
            rw [List.dropLast_cons_of_ne_nil (by simp)]
            exact List.mem_cons_of_mem f hx)
          exact ⟨by simpa only [Framing.Flows, hNext] using hRest.1,
            by rw [Framing.live, hNext, if_neg (by simp), hRest.2]⟩

theorem cutFree_of_dropLast (mId : Nat) (st : StreamType) (route : ρ) {fs : List Frame}
    (h : ∀ f ∈ fs.dropLast, f.startByte = sbSinglePacket) :
    CutFree mId st route fs (fun esi => takeFrame esi.mInBuffer = none) := by
  obtain ⟨hFlows, hLive⟩ := flows_of_dropLast h
  intro chunks hChunks
  refine ⟨(cutFree_of_flows mId st route hFlows chunks hChunks).1, ?_⟩
  have hBuf : (Framing.feedAll frameFormat verdict chunks).buffer = [] := by
    have hRec := Framing.feedAll_received frameFormat verdict hFlows chunks
      (hChunks ▸ List.prefix_refl _)
    rcases hRec with ⟨hOpen, -⟩ | ⟨-, -, hHandled, dead, hfs, hPre⟩
    · exact (Framing.feedAll_handled frameFormat verdict hFlows hChunks).2 hOpen
    · rw [hHandled, hLive] at hfs
      obtain rfl : dead = [] := by simpa using hfs
      simpa using hPre
  rw [receiveAll_eq, outcome, hBuf]
  rfl

/-- A frame that stops the loop leaves the frames behind it in the buffer of
the uncut stream. -/
theorem takeFrame_of_stop (mId : Nat) (st : StreamType) (route : ρ)
    {pre : List Frame} {f : Frame} (g : Frame) (post : List Frame)
    (hPre : ∀ x ∈ pre, verdict x = .next) (hf : verdict f ≠ .next) :
    let s := receiveAll route (.fresh mId st) [stream (pre ++ f :: g :: post)]
    takeFrame s.1.mInBuffer ≠ none ∧ s.1.closed = decide (verdict f = .shut) := by
  have hPoll := Framing.poll_wire_stop frameFormat verdict (g :: post) hPre hf
  simp only [receiveAll_whole, hPoll, outcome, and_true]
  rw [Framing.wire_cons, show frameFormat.encode g = g.encode from rfl, takeFrame_encode]
  simp

/-- The first frame that is no packet, when it is not the last one. -/
theorem exists_stop_of_dropLast {fs : List Frame}
    (h : ¬ ∀ f ∈ fs.dropLast, f.startByte = sbSinglePacket) :
    ∃ pre f g post, fs = pre ++ f :: g :: post ∧ (∀ x ∈ pre, verdict x = .next) ∧
      verdict f ≠ .next := by
  induction fs with
  | nil => simp at h
  | cons f fs ih =>
      cases fs with
      | nil => simp at h
      | cons g gs =>
          by_cases hf : verdict f = .next
          · have hRest : ¬ ∀ x ∈ (g :: gs).dropLast, x.startByte = sbSinglePacket := by
              intro hAll
              apply h
              rw [List.dropLast_cons_of_ne_nil (by simp)]
              intro x hx
              rcases List.mem_cons.1 hx with rfl | hx
              · exact verdict_eq_next.1 hf
              · exact hAll x hx
            obtain ⟨pre, f', g', post, hEq, hPre, hf'⟩ := ih hRest
            exact ⟨f :: pre, f', g', post, by rw [hEq]; rfl, by simpa [hf] using hPre, hf'⟩
          · exact ⟨[], f, g, gs, rfl, by simp, hf⟩

/--
**Segmentation.**  Every cutting of a stream of frames has the effects of the
uncut stream and leaves no complete frame on an open socket exactly when the
stream flows: no accepted hello is followed by another frame, up to the first
frame that closes the socket.  Counting the frames behind a close as well, the
streams that leave no complete frame are those whose frames are all packets,
except possibly the last.
-/
theorem receiveAll_segmentation (mId : Nat) (st : StreamType) (route : ρ)
    (fs : List Frame) :
    (CutFree mId st route fs
        (fun esi => esi.closed = false → takeFrame esi.mInBuffer = none) ↔
      Framing.Flows verdict fs) ∧
    (CutFree mId st route fs (fun esi => takeFrame esi.mInBuffer = none) ↔
      ∀ f ∈ fs.dropLast, f.startByte = sbSinglePacket) := by
  have hWhole : [stream fs].flatten = stream fs := by simp
  constructor
  · constructor
    · intro hCut
      by_contra hFlows
      obtain ⟨pre, f, g, post, rfl, hPre, hf⟩ :=
        Framing.exists_leave_of_not_flows verdict hFlows
      have hStop : verdict f ≠ .next := by simp [hf]
      obtain ⟨hLeft, hOpen⟩ := takeFrame_of_stop mId st route g post hPre hStop
      exact hLeft ((hCut _ hWhole).2 (by simp [hOpen, hf]))
    · exact cutFree_of_flows mId st route
  · constructor
    · intro hCut
      by_contra hStop
      obtain ⟨pre, f, g, post, rfl, hPre, hf⟩ := exists_stop_of_dropLast hStop
      exact (takeFrame_of_stop mId st route g post hPre hf).1 (hCut _ hWhole).2
    · exact cutFree_of_dropLast mId st route

/-- The hello of an acceptor as a frame. -/
def helloFrame : Frame :=
  ⟨sbHello, putPSTR helloText ++ putPN coreVersion.toUInt64, by decide⟩

/-- A packet with one byte. -/
def bytePacket (c : UInt8) : Frame := ⟨sbSinglePacket, [c], by simp⟩

/-- A hello and a packet in one chunk: the packet stays in the buffer, while
in a chunk of its own it is delivered. -/
theorem hello_then_packet_observed :
    ¬ CutFree 7 .connected () [helloFrame, bytePacket 0x78]
      (fun esi => esi.closed = false → takeFrame esi.mInBuffer = none) := by
  intro hCut
  have hWhole : (receiveAll () (.fresh 7 .connected)
      [stream [helloFrame, bytePacket 0x78]]).2 = [] := by decide
  have hApart : (receiveAll () (.fresh 7 .connected)
      [stream [helloFrame], stream [bytePacket 0x78]]).2 =
        [.packetOnConnector 7 [0x78] ()] := by decide
  have hSame := (hCut [stream [helloFrame], stream [bytePacket 0x78]] (by decide)).1
  rw [hWhole, hApart] at hSame
  cases hSame

/-! ## Streams of packets -/

/-- The event that delivers a packet. -/
def packetEvent (mId : Nat) (st : StreamType) (route : ρ) (req : Bytes) : Effect ρ :=
  if st = .connected then .packetOnConnector mId req route
  else .packetOnAcceptor mId req route

/-- A payload the sender frames as a single packet. -/
def packetFrame (p : {p : Bytes // p.length < 2 ^ 64}) : Frame :=
  ⟨sbSinglePacket, p.1, p.2⟩

theorem flatMap_effects_packets (mId : Nat) (st : StreamType) (route : ρ)
    (ps : List {p : Bytes // p.length < 2 ^ 64}) :
    (ps.map packetFrame).flatMap (effects (.fresh mId st) route) =
      (ps.map Subtype.val).map (packetEvent mId st route) := by
  induction ps with
  | nil => rfl
  | cons p ps ih =>
      have hHead : effects (.fresh mId st) route (packetFrame p) =
          [packetEvent mId st route p.1] := by cases st <;> rfl
      rw [List.map_cons, List.flatMap_cons, ih, hHead]
      rfl

theorem verdict_packetFrame {ps : List {p : Bytes // p.length < 2 ^ 64}} {f : Frame}
    (hf : f ∈ ps.map packetFrame) : verdict f = .next := by
  obtain ⟨p, -, rfl⟩ := List.mem_map.1 hf
  exact verdict_eq_next.2 rfl

/-- What the receiver has done after a prefix of a stream of packets. -/
theorem feedAll_packets (ps : List {p : Bytes // p.length < 2 ^ 64}) {chunks : List Bytes}
    (hPre : chunks.flatten <+: stream (ps.map packetFrame)) :
    ∃ done todo, ps = done ++ todo ∧
      (Framing.feedAll frameFormat verdict chunks).handled = done.map packetFrame ∧
      (Framing.feedAll frameFormat verdict chunks).shut = false ∧
      chunks.flatten = stream (done.map packetFrame) ++
        (Framing.feedAll frameFormat verdict chunks).buffer ∧
      ∀ p ∈ todo.head?, (Framing.feedAll frameFormat verdict chunks).buffer.length <
        (packetFrame p).encode.length := by
  have hFlows : Framing.Flows verdict (ps.map packetFrame) :=
    (flows_of_dropLast fun f hf =>
      verdict_eq_next.1 (verdict_packetFrame (List.dropLast_subset _ hf))).1
  rcases Framing.feedAll_received frameFormat verdict hFlows chunks hPre with
    ⟨hOpen, -, rest, hfs, hBytes, hShort⟩ | ⟨-, ⟨f, hf, hShut⟩, -, dead, hfs, -⟩
  · obtain ⟨done, todo, rfl, hDone, rfl⟩ := List.map_eq_append_iff.1 hfs
    refine ⟨done, todo, rfl, hDone.symm, hOpen, ?_, ?_⟩
    · rw [hDone]
      exact hBytes
    · intro p hp
      exact hShort (packetFrame p) (by rw [List.head?_map, Option.mem_def.1 hp]; rfl)
  · have hMem : f ∈ ps.map packetFrame := by
      rw [hfs]
      exact List.mem_append_left _ hf
    rw [verdict_packetFrame hMem] at hShut
    cases hShut

/--
**Packet round trip.**  After any prefix of a stream of packets, cut in any
way, the packets complete in the prefix have been delivered in order, the
socket is open, and the buffer holds the bytes of the one incomplete packet.
-/
theorem receiveAll_packets (mId : Nat) (st : StreamType) (route : ρ)
    (payloads : List Bytes) (hLen : ∀ p ∈ payloads, p.length < 2 ^ 31)
    (chunks : List Bytes)
    (hPre : chunks.flatten <+: payloads.flatMap fun p => sendPacketPlain sbSinglePacket (some p)) :
    ∃ done todo, payloads = done ++ todo ∧
      (receiveAll route (.fresh mId st) chunks).2 = done.map (packetEvent mId st route) ∧
      (receiveAll route (.fresh mId st) chunks).1.closed = false ∧
      chunks.flatten =
        (done.flatMap fun p => sendPacketPlain sbSinglePacket (some p)) ++
          (receiveAll route (.fresh mId st) chunks).1.mInBuffer ∧
      (todo = [] → (receiveAll route (.fresh mId st) chunks).1.mInBuffer = []) ∧
      ∀ p ∈ todo.head?,
        (receiveAll route (.fresh mId st) chunks).1.mInBuffer <+:
            sendPacketPlain sbSinglePacket (some p) ∧
          (receiveAll route (.fresh mId st) chunks).1.mInBuffer ≠
            sendPacketPlain sbSinglePacket (some p) := by
  have hFits : ∀ p ∈ payloads, p.length < 2 ^ 64 := fun p hp =>
    Nat.lt_trans (hLen p hp) (by decide)
  obtain ⟨ps, rfl⟩ : ∃ ps : List {p : Bytes // p.length < 2 ^ 64}, ps.map Subtype.val = payloads :=
    ⟨payloads.attachWith _ hFits, by simp⟩
  have hStream : ∀ qs : List {p : Bytes // p.length < 2 ^ 64},
      ((qs.map Subtype.val).flatMap fun p => sendPacketPlain sbSinglePacket (some p)) =
        stream (qs.map packetFrame) := by
    intro qs
    simp [stream, List.flatMap_map, Frame.encode, packetFrame]
  rw [hStream] at hPre
  obtain ⟨done, todo, rfl, hHandled, hOpen, hBytes, hShort⟩ := feedAll_packets ps hPre
  have hBuf : (Framing.feedAll frameFormat verdict chunks).buffer <+:
      stream (todo.map packetFrame) := by
    rw [hBytes, List.map_append, stream_append] at hPre
    exact (List.prefix_append_right_inj _).1 hPre
  rw [receiveAll_eq, outcome]
  refine ⟨done.map Subtype.val, todo.map Subtype.val, List.map_append, ?_, hOpen, ?_, ?_, ?_⟩
  · rw [hHandled]
    exact flatMap_effects_packets mId st route done
  · rw [hStream]
    exact hBytes
  · intro hNil
    rw [List.map_eq_nil_iff] at hNil
    subst hNil
    simpa [stream] using hBuf
  · intro p hp
    cases todo with
    | nil => simp at hp
    | cons q todo =>
        obtain rfl : q.1 = p := by simpa using hp
        have hLt := hShort q rfl
        refine ⟨List.prefix_of_prefix_length_le hBuf (List.prefix_append _ _) hLt.le, ?_⟩
        intro hEq
        exact absurd (congrArg List.length hEq) hLt.ne

/-- An empty packet and one of three bytes, cut inside the second header: only
the empty one has been delivered. -/
theorem receiveAll_packets_cut_header :
    ∃ done todo, [[], [0x61, 0x62, 0x63]] = done ++ todo ∧
      (receiveAll () (.fresh 7 .accepted) [[0x01], [0x00, 0x01]]).2 =
        done.map (packetEvent 7 .accepted ()) ∧
      (receiveAll () (.fresh 7 .accepted) [[0x01], [0x00, 0x01]]).1.closed = false := by
  obtain ⟨done, todo, hSplit, hOut, hOpen, -⟩ :=
    receiveAll_packets 7 .accepted () [[], [0x61, 0x62, 0x63]] (by decide)
      [[0x01], [0x00, 0x01]] (by decide)
  exact ⟨done, todo, hSplit, hOut, hOpen⟩

end Megatron.Oscar
