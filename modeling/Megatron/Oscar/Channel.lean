import Megatron.Lib.Channel
import Megatron.Oscar.Segmentation
import Megatron.Socket.WriteInterest

/-!
# From `SendPacket` to `PacketOnAcceptor`

One direction of a connection, end to end.  `on_SendPacket` frames a payload and
appends it to the out buffer of its socket, from any thread; the worker of the
socket hands the kernel what it takes; the bytes arrive at the peer in order, in
chunks cut anywhere, and the peer's `on_StreamRead` takes the frames off them.  An
accepted socket also writes its hello, before or after the first packets.

Nothing the socket does on the way is left out: it may be polled, closed, marked
or lose its connection at any time.

## Main results

* `payloads_in_order` — in every run the peer has passed up the first payloads, in
  order and each once, and has not closed the socket.
* `payloads_all` — once the queue is empty and all bytes have arrived, it has
  passed up all of them, or keeps a whole frame behind the hello.
-/

namespace Megatron.Oscar

open Megatron.Corelib Megatron.Lib
open Megatron.Socket (Sock)

variable {ρ : Type}

/-! ## The sending end -/

/-- `on_SendPacket`. -/
def onSendPacket (buf : Option Bytes) (esi : Sock) : Sock :=
  esi.append (sendPacketPlain sbSinglePacket buf)

/-- `on_Accepted`, what it does to the socket. -/
def onAccepted (esi : Sock) : Sock := esi.append helloPacket

/-- A payload of a length that a packed number has. -/
abbrev Payload := {p : Bytes // p.length < 2 ^ 64}

/-- A socket and its peer: the payloads given to `on_SendPacket`, whether the hello
is written, how many of the bytes sent have arrived, and the peer's socket with
what its service has done. -/
structure Link (ρ : Type) where
  esi : Sock
  payloads : List Payload
  greeted : Bool
  arrived : Nat
  peer : EpollSocketInfo × List (Effect ρ)

/-- A step of the socket, of the service on it, or of the network. -/
inductive LinkAction where
  | socket (a : Socket.Action)
  | accepted
  | sendPacket (p : Payload)
  | arrive (n : Nat)

namespace Link

/-- The bytes that have not arrived: in flight, then queued. -/
def flight (s : Link ρ) : Bytes := s.esi.appended.drop s.arrived

/-- Nothing is queued and nothing is in flight. -/
def Settled (s : Link ρ) : Prop := s.esi.mOutBuffer = [] ∧ s.arrived = s.esi.sent.length

instance (s : Link ρ) : Decidable s.Settled := inferInstanceAs (Decidable (_ ∧ _))

end Link

/-- An append to the out buffer. -/
def appends : Socket.Action → Bool
  | .append _ => true
  | _ => false

/-- A link in any interleaving, the peer's socket fresh.  The out buffer is appended
to by the service alone. -/
def link (mId : Nat) (st : StreamType) (route : ρ) : Machine (Link ρ) LinkAction where
  init s := Socket.socket.init s.esi ∧ s.payloads = [] ∧ s.greeted = false ∧ s.arrived = 0 ∧
    s.peer = (.fresh mId st, [])
  enabled s
    | .socket a => Socket.socket.enabled s.esi a ∧ appends a = false
    | .accepted => s.greeted = false ∧ .accepted ∈ s.esi.emitted
    | .sendPacket _ => s.esi.emitted ≠ []
    | .arrive n => 0 < n ∧ s.arrived + n ≤ s.esi.sent.length
  apply s
    | .socket a => { s with esi := Socket.socket.apply s.esi a }
    | .accepted => { s with esi := onAccepted s.esi, greeted := true }
    | .sendPacket p =>
        { s with esi := onSendPacket (some p.1) s.esi, payloads := s.payloads ++ [p] }
    | .arrive n =>
        { s with
          arrived := s.arrived + n,
          peer := receive route s.peer ((s.esi.sent.drop s.arrived).take n) }

instance (mId : Nat) (st : StreamType) (route : ρ) (s : Link ρ) (a : LinkAction) :
    Decidable ((link mId st route).enabled s a) := by
  cases a <;> unfold link <;> infer_instance

/-! ## The socket moves bytes and makes none -/

/-- A step that appends nothing: what was sent stays sent. -/
structure Moves (s t : Sock) : Prop where
  appended : t.appended = s.appended
  sent : s.sent <+: t.sent

theorem moves_of_sameStream {s t : Sock} (h : Sock.SameStream s t) : Moves s t :=
  ⟨h.appended, h.sent ▸ List.prefix_refl _⟩

theorem moves_of_eq {s t : Sock} (hAppended : t.appended = s.appended) (hSent : t.sent = s.sent) :
    Moves s t := ⟨hAppended, hSent ▸ List.prefix_refl _⟩

theorem Moves.goto {s t : Sock} (h : Moves s t) (pc : Socket.WorkerPc) : Moves s (t.goto pc) :=
  ⟨h.appended, h.sent⟩

theorem moves_sendTook (s : Sock) (k : Nat) : Moves s (s.sendTook k) := by
  have hMoved : Moves s { s with
      mOutBuffer := s.mOutBuffer.drop k, sent := s.sent ++ s.mOutBuffer.take k } :=
    ⟨rfl, List.prefix_append _ _⟩
  unfold Sock.sendTook
  dsimp only
  split
  · have hStop := moves_of_sameStream (Sock.sameStream_sockStopWrite
      { s with mOutBuffer := s.mOutBuffer.drop k, sent := s.sent ++ s.mOutBuffer.take k })
    exact ⟨hStop.appended.trans hMoved.appended, hMoved.sent.trans hStop.sent⟩
  · exact hMoved

theorem moves_workerStep (s : Sock) (io : Sock.Io) : Moves s (s.workerStep io) := by
  unfold Sock.workerStep
  cases s.worker with
  | dispatch f =>
      dsimp only [Sock.dispatchStep]
      split_ifs <;> exact moves_of_eq rfl rfl
  | recv f =>
      dsimp only [Sock.recvStep]
      split
      · cases io <;> exact moves_of_eq rfl rfl
      · exact moves_of_eq rfl rfl
  | send f =>
      dsimp only [Sock.sendStep]
      split_ifs
      · exact (moves_of_sameStream s.sameStream_sockStopWrite).goto _
      · cases io with
        | took k => exact (moves_sendTook s k).goto _
        | _ => exact moves_of_eq rfl rfl
      · exact moves_of_eq rfl rfl
  | connStop f => exact (moves_of_sameStream s.sameStream_sockStopWrite).goto _
  | closeRemove f =>
      dsimp only [Sock.removeMS]
      split <;> exact moves_of_eq rfl rfl
  | _ =>
      dsimp only
      repeat' split
      all_goals exact moves_of_eq rfl rfl

theorem moves_apply (s : Sock) {a : Socket.Action} (hQuiet : appends a = false) :
    Moves s (Socket.socket.apply s a) := by
  cases a with
  | creator c => exact moves_of_sameStream (s.sameStream_creatorStep c)
  | worker io => exact moves_workerStep s io
  | append data => cases hQuiet
  | _ => exact moves_of_eq rfl rfl

theorem append_fields (s : Sock) (data : Bytes) :
    (s.append data).appended = s.appended ++ data ∧ (s.append data).sent = s.sent := by
  have h := Sock.sameStream_sockStartWrite
    { s with mOutBuffer := s.mOutBuffer ++ data, appended := s.appended ++ data }
  exact ⟨h.appended, h.sent⟩

/-! ## What is carried -/

/-- The payload of a frame the service writes. -/
def payload? (f : Frame) : Option Payload :=
  if f.startByte = sbSinglePacket then some ⟨f.req, f.fits⟩ else none

/-- The frames the service writes. -/
def Written (f : Frame) : Prop := f = helloFrame ∨ ∃ p, f = packetFrame p

theorem verdict_helloFrame : verdict helloFrame = .leave := by decide

theorem verdict_written {f : Frame} (h : Written f) : verdict f ≠ .shut := by
  rcases h with rfl | ⟨p, rfl⟩
  · rw [verdict_helloFrame]
    exact nofun
  · rw [verdict_eq_next.2 rfl]
    exact nofun

theorem payload?_packetFrame (p : Payload) : payload? (packetFrame p) = some p := rfl

theorem payload?_helloFrame : payload? helloFrame = none := by decide

/-- What a frame makes the peer do is to pass its payload up. -/
theorem effects_written (mId : Nat) (st : StreamType) (route : ρ) {f : Frame} (h : Written f) :
    effects (.fresh mId st) route f =
      (payload? f).toList.map fun p => packetEvent mId st route p.1 := by
  rcases h with rfl | ⟨p, rfl⟩
  · rw [payload?_helloFrame]
    cases st <;> rfl
  · rw [payload?_packetFrame]
    cases st <;> rfl

theorem effects_all (mId : Nat) (st : StreamType) (route : ρ) {fs : List Frame}
    (h : ∀ f ∈ fs, Written f) :
    fs.flatMap (effects (.fresh mId st) route) =
      (fs.filterMap payload?).map fun p => packetEvent mId st route p.1 := by
  induction fs with
  | nil => rfl
  | cons f fs ih =>
      rw [List.flatMap_cons, ih fun g hg => h g (List.mem_cons_of_mem f hg),
        effects_written mId st route (h f List.mem_cons_self), List.filterMap_cons]
      cases payload? f <;> rfl

/-- The invariant of a link: the frames written so far are carried, those not yet
arrived being the rest of what was appended. -/
structure Carries (mId : Nat) (st : StreamType) (route : ρ) (s : Link ρ) : Prop where
  kept : s.esi.StreamKept
  arrived_le : s.arrived ≤ s.esi.sent.length
  carried : ∃ fs r, (∀ f ∈ fs, Written f) ∧ fs.filterMap payload? = s.payloads ∧
    (s.greeted = false → ∀ f ∈ fs, verdict f = .next) ∧
    Framing.Carried frameFormat fs s.flight r ∧ s.peer = outcome (.fresh mId st) route r ∧
    (s.greeted = false → Framing.Waits frameFormat r)

section Steps

variable {mId : Nat} {st : StreamType} {route : ρ} {s : Link ρ}

theorem carries_init (h : (link mId st route).init s) : Carries mId st route s := by
  obtain ⟨⟨st', own, hSock⟩, hPayloads, -, hArrived, hPeer⟩ := h
  have hFlight : s.flight = [] := by
    rw [Link.flight, hSock, hArrived]
    rfl
  refine ⟨?_, ?_, [], ⟨[], [], false⟩, nofun, hPayloads.symm, fun _ => nofun, ?_, hPeer, fun _ => ?_⟩
  · rw [hSock]
    rfl
  · rw [hArrived]
    exact Nat.zero_le _
  · rw [hFlight]
    exact .start
  · exact frameFormat.decode_nil

/-- A frame is appended. -/
theorem carries_append (h : Carries mId st route s) {f : Frame} (hf : Written f) {greeted : Bool}
    {payloads : List Payload} (hPayloads : payloads = s.payloads ++ (payload? f).toList)
    (hGreeted : greeted = false → s.greeted = false ∧ verdict f = .next) :
    Carries mId st route
      { s with esi := s.esi.append f.encode, payloads := payloads, greeted := greeted } := by
  obtain ⟨fs, r, hWritten, hFilter, hNext, hCarried, hPeer, hWaits⟩ := h.carried
  obtain ⟨hAppended, hSent⟩ := append_fields s.esi f.encode
  have hLe : s.arrived ≤ s.esi.appended.length := by
    rw [← h.kept, List.length_append]
    exact Nat.le_add_right_of_le h.arrived_le
  refine ⟨Sock.streamKept_append h.kept _, ?_, fs ++ [f], r, ?_, ?_, ?_, ?_, hPeer, ?_⟩
  · show s.arrived ≤ (s.esi.append f.encode).sent.length
    rw [hSent]
    exact h.arrived_le
  · intro g hg
    rcases List.mem_append.1 hg with hg | hg
    · exact hWritten g hg
    · rw [List.mem_singleton.1 hg]
      exact hf
  · rw [List.filterMap_append, hFilter, hPayloads, List.filterMap_cons]
    cases payload? f <;> rfl
  · intro hOff g hg
    rcases List.mem_append.1 hg with hg | hg
    · exact hNext (hGreeted hOff).1 g hg
    · rw [List.mem_singleton.1 hg]
      exact (hGreeted hOff).2
  · have hFlight : ({ s with
        esi := s.esi.append f.encode, payloads := payloads, greeted := greeted } : Link ρ).flight =
          s.flight ++ f.encode := by
      rw [Link.flight, hAppended, List.drop_append_of_le_length hLe]
      rfl
    rw [hFlight]
    exact hCarried.write f
  · exact fun hOff => hWaits (hGreeted hOff).1

/-- A chunk arrives. -/
theorem carries_arrive (h : Carries mId st route s) {n : Nat}
    (hLe : s.arrived + n ≤ s.esi.sent.length) :
    Carries mId st route ((link mId st route).apply s (.arrive n)) := by
  obtain ⟨fs, r, hWritten, hFilter, hNext, hCarried, hPeer, hWaits⟩ := h.carried
  have hChunk : s.flight = (s.esi.sent.drop s.arrived).take n ++
      s.esi.appended.drop (s.arrived + n) := by
    have hSplit : s.esi.appended = s.esi.sent ++ s.esi.mOutBuffer := h.kept.symm
    have hHere : s.arrived ≤ s.esi.sent.length := h.arrived_le
    rw [Link.flight, hSplit, List.drop_append_of_le_length hHere,
      List.drop_append_of_le_length hLe, ← List.append_assoc, ← List.drop_drop,
      List.take_append_drop]
  rw [hChunk] at hCarried
  refine ⟨h.kept, hLe, fs, Framing.feed frameFormat verdict r ((s.esi.sent.drop s.arrived).take n),
    hWritten, hFilter, hNext, hCarried.deliver fun f hf => verdict_written (hWritten f hf), ?_, ?_⟩
  · show receive route s.peer ((s.esi.sent.drop s.arrived).take n) = _
    rw [hPeer, receive_eq]
  · exact fun hOff => hCarried.waits (hNext hOff)

theorem carries_apply (h : Carries mId st route s) {a : LinkAction}
    (hEn : (link mId st route).enabled s a) :
    Carries mId st route ((link mId st route).apply s a) := by
  cases a with
  | socket a =>
      obtain ⟨fs, r, hWritten, hFilter, hNext, hCarried, hPeer, hWaits⟩ := h.carried
      have hMoves := moves_apply s.esi hEn.2
      refine ⟨Sock.streamKept_apply h.kept a, h.arrived_le.trans hMoves.sent.length_le, fs, r,
        hWritten, hFilter, hNext, ?_, hPeer, hWaits⟩
      have hFlight : ((link mId st route).apply s (.socket a)).flight = s.flight :=
        congrArg (List.drop s.arrived) hMoves.appended
      rw [hFlight]
      exact hCarried
  | accepted =>
      refine carries_append h (f := helloFrame) (.inl rfl) ?_ nofun
      rw [payload?_helloFrame, Option.toList_none, List.append_nil]
  | sendPacket p =>
      exact carries_append h (f := packetFrame p) (.inr ⟨p, rfl⟩) rfl
        fun hOff => ⟨hOff, verdict_eq_next.2 rfl⟩
  | arrive n => exact carries_arrive h hEn.2

theorem carries_reachable (h : (link mId st route).Reachable s) : Carries mId st route s :=
  Machine.Reachable.invariant (fun _ => carries_init) (fun _ _ hs hEn => carries_apply hs hEn) h

end Steps

/-! ## The payloads -/

section Payloads

variable {mId : Nat} {st : StreamType} {route : ρ} {s : Link ρ}

/--
**In order, each once.** Whatever the threads, the socket and the network do, the
peer has passed up the first payloads and nothing else, and its socket is open.
-/
theorem payloads_in_order (h : (link mId st route).Reachable s) :
    s.peer.1.closed = false ∧ ∃ done todo, s.payloads = done ++ todo ∧
      s.peer.2 = done.map fun p => packetEvent mId st route p.1 := by
  obtain ⟨fs, r, hWritten, hFilter, -, hCarried, hPeer, -⟩ := (carries_reachable h).carried
  obtain ⟨todo, hfs, -⟩ := hCarried.split
  rw [hPeer]
  refine ⟨hCarried.shut_eq, r.handled.filterMap payload?, todo.filterMap payload?, ?_, ?_⟩
  · rw [← hFilter, hfs, List.filterMap_append]
  · exact effects_all mId st route fun f hf =>
      hWritten f (hCarried.handled_prefix.subset hf)

/--
**All of them.** Once nothing is queued or in flight, the peer has passed up every
payload and keeps no byte; only behind a hello a whole frame may still be waiting
in its buffer.
-/
theorem payloads_all (h : (link mId st route).Reachable s) (hSettled : s.Settled)
    (hTaken : s.greeted = false ∨ takeFrame s.peer.1.mInBuffer = none) :
    s.peer = (.fresh mId st, s.payloads.map fun p => packetEvent mId st route p.1) := by
  have hCarries := carries_reachable h
  obtain ⟨fs, r, hWritten, hFilter, -, hCarried, hPeer, hWaits⟩ := hCarries.carried
  have hFlight : s.flight = [] := by
    have hSplit : s.esi.appended = s.esi.sent ++ s.esi.mOutBuffer := hCarries.kept.symm
    rw [Link.flight, hSplit, hSettled.1, hSettled.2, List.append_nil, List.drop_length]
  have hEmpty : Framing.Waits frameFormat r := by
    rcases hTaken with hOff | hNone
    · exact hWaits hOff
    · rw [hPeer] at hNone
      exact decodeFrame_eq_none.2 hNone
  rw [hFlight] at hCarried
  obtain ⟨hHandled, hBuffer⟩ := hCarried.settled hEmpty
  rw [hPeer, outcome, hHandled, hBuffer, hCarried.shut_eq, effects_all mId st route hWritten,
    hFilter]
  rfl

end Payloads

/-! ## A run -/

/-- The kernel takes 11 of the 13 bytes of a hello and of a packet, then the other
two, and the hello arrives alone. -/
def greetAndSend : List LinkAction :=
  List.replicate 3 (.socket (.creator .ok)) ++
    [.accepted, .sendPacket ⟨[0x78], by decide⟩, .socket (.poll ⟨false, false, true⟩)] ++
    List.replicate 3 (.socket (.worker .none)) ++ [.socket (.worker (.took 11))] ++
    List.replicate 4 (.socket (.worker .none)) ++ [.arrive 10, .arrive 1] ++
    [.socket (.poll ⟨false, false, true⟩)] ++ List.replicate 3 (.socket (.worker .none)) ++
    [.socket (.worker (.took 2)), .arrive 2]

/-- The link before that. -/
def newLink : Link Unit := ⟨Sock.fresh .accepted false, [], false, 0, (.fresh 7 .connected, [])⟩

theorem reachable_greetAndSend {acts : List LinkAction} (h : acts <+: greetAndSend) :
    (link 7 .connected ()).Reachable ((link 7 .connected ()).exec newLink acts) := by
  have hPath : (link 7 .connected ()).Path newLink greetAndSend := by decide
  have hInit : (link 7 .connected ()).init newLink := ⟨⟨.accepted, false, rfl⟩, rfl, rfl, rfl, rfl⟩
  obtain ⟨rest, hAll⟩ := h
  rw [← hAll] at hPath
  exact (Machine.Reachable.init hInit).path ((Machine.path_append _ _ _ _).1 hPath).1

/-- Before the last two bytes. -/
theorem payloads_in_order_cut :
    let s := (link 7 .connected ()).exec newLink greetAndSend.dropLast
    s.peer.1.closed = false ∧ ∃ done todo, s.payloads = done ++ todo ∧
      s.peer.2 = done.map fun p => packetEvent 7 .connected () p.1 :=
  payloads_in_order (reachable_greetAndSend (List.dropLast_prefix _))

theorem payloads_all_sent :
    ((link 7 .connected ()).exec newLink greetAndSend).peer =
      (.fresh 7 .connected, [.packetOnConnector 7 [0x78] ()]) :=
  payloads_all (reachable_greetAndSend List.prefix_rfl) (by decide) (.inr (by decide))

end Megatron.Oscar
