import Megatron.Lib.Channel
import Megatron.OscarSecure.Endpoints

/-!
# A secure session

The invariant of a connection: how far the handshake has come (`Stage`), and that each
end has handled a front of the frames the other has written, the rest being in its
buffer and on the way (`Lane`).

## Main results

* `session_in_order` — in every run both sockets are open, and each end has passed up
  the first packets of the other, in order and each once.
* `session_agrees` — once the connecting end has passed up `Connected`, both have the
  same session key.
* `session_completes` — when all bytes have arrived and no whole frame waits, the
  handshake is over and every packet has been passed up.
-/

namespace Megatron.OscarSecure

open Megatron.Corelib Megatron.Lib Megatron.Ssl
open Megatron.Oscar (StreamType EpollSocketInfo)

variable {Key ρ : Type}

/-! ## One direction -/

section Lanes

variable {ssl : Ssl Key} {maxPacketSize : UInt64} {rand : Except CommonError Bytes} {route : ρ}

/-- The frames `fs` that one end has written, `r` of them at the other end. -/
structure Lane (snd rcv : State Key ρ) (arrived : Nat) (fs : List (PeerFrame maxPacketSize))
    (r : Framing.Receiver (PeerFrame maxPacketSize) UInt8) : Prop where
  written : snd.written = stream fs
  arrived_le : arrived ≤ snd.written.length
  carried : Framing.Carried (frameFormat maxPacketSize) fs (snd.written.drop arrived) r
  buffer : rcv.esi.mInBuffer = r.buffer
  opened : rcv.esi.closed = false

variable {snd rcv : State Key ρ} {arrived : Nat} {fs : List (PeerFrame maxPacketSize)}
  {r : Framing.Receiver (PeerFrame maxPacketSize) UInt8}

theorem stream_append (fs gs : List (PeerFrame maxPacketSize)) :
    stream (fs ++ gs) = stream fs ++ stream gs := List.flatMap_append

/-- Frames are written. -/
theorem Lane.write (h : Lane snd rcv arrived fs r) {snd' : State Key ρ}
    (ws : List (PeerFrame maxPacketSize)) (hWritten : snd'.written = snd.written ++ stream ws) :
    Lane snd' rcv arrived (fs ++ ws) r where
  written := by rw [hWritten, h.written, stream_append]
  arrived_le := by
    rw [hWritten, List.length_append]
    exact Nat.le_add_right_of_le h.arrived_le
  carried := by
    rw [hWritten, List.drop_append_of_le_length h.arrived_le]
    exact h.carried.writes ws
  buffer := h.buffer
  opened := h.opened

/-- A chunk is read: some of the frames that have not been handled are, in order. -/
theorem Lane.read (h : Lane snd rcv arrived fs r) {n : Nat} (hLe : arrived + n ≤ snd.written.length)
    {todo : List (PeerFrame maxPacketSize)} (hTodo : fs = r.handled ++ todo)
    (hHonest : Honest ssl maxPacketSize rand route rcv todo) :
    ∃ new r', new <+: todo ∧ r'.handled = r.handled ++ new ∧
      receive ssl maxPacketSize rand route rcv ((snd.written.drop arrived).take n) =
        withBuffer (handleAll ssl maxPacketSize rand route rcv new) r'.buffer ∧
      Lane snd (receive ssl maxPacketSize rand route rcv ((snd.written.drop arrived).take n))
        (arrived + n) fs r' := by
  have hChunk : snd.written.drop arrived =
      (snd.written.drop arrived).take n ++ snd.written.drop (arrived + n) := by
    rw [← List.drop_drop, List.take_append_drop]
  have hCarried := h.carried
  rw [hChunk] at hCarried
  obtain ⟨c, hc⟩ : ∃ c, (snd.written.drop arrived).take n = c := ⟨_, rfl⟩
  rw [hc] at hCarried ⊢
  obtain ⟨todo', hSplit, hPoll, -⟩ := hCarried.poll fun f _ => verdict_ne_shut f
  obtain rfl : todo' = todo := List.append_cancel_left (hSplit.symm.trans hTodo)
  obtain ⟨rest, hAll, hRest⟩ := hPoll.split
  have hPre : r.buffer ++ c <+: stream todo' := by
    obtain ⟨todo₀, hfs, hWire⟩ := hCarried.split
    obtain rfl : todo₀ = todo' := List.append_cancel_left (hfs.symm.trans hSplit)
    rw [← List.append_assoc] at hWire
    exact ⟨_, hWire.symm⟩
  have hSame : rcv = withBuffer rcv r.buffer := by rw [withBuffer, ← h.buffer]
  have hReceive : receive ssl maxPacketSize rand route rcv c =
      withBuffer (handleAll ssl maxPacketSize rand route rcv
          (Framing.poll (frameFormat maxPacketSize) verdict (r.buffer ++ c)).handled)
        (Framing.poll (frameFormat maxPacketSize) verdict (r.buffer ++ c)).buffer := by
    conv_lhs => rw [hSame]
    rw [receive_eq h.opened, onStreamRead_eq hHonest hPre]
  have hFront : Honest ssl maxPacketSize rand route rcv
      (Framing.poll (frameFormat maxPacketSize) verdict (r.buffer ++ c)).handled := by
    rw [hAll] at hHonest
    exact (honest_append.1 hHonest).1
  refine ⟨(Framing.poll (frameFormat maxPacketSize) verdict (r.buffer ++ c)).handled,
    Framing.feed (frameFormat maxPacketSize) verdict r c, ⟨rest, hAll.symm⟩, ?_, ?_, ?_⟩
  · rw [hCarried.feed_eq]
  · rw [hCarried.feed_eq, hReceive]
  · refine ⟨h.written, hLe, hCarried.deliver fun f _ => verdict_ne_shut f, ?_, ?_⟩
    · rw [hReceive, hCarried.feed_eq]
      rfl
    · rw [hReceive]
      exact closed_handleAll h.opened hFront

/-- The receiving end has changed in nothing that counts. -/
theorem Lane.receiver (h : Lane snd rcv arrived fs r) {rcv' : State Key ρ}
    (hEsi : rcv'.esi = rcv.esi) : Lane snd rcv' arrived fs r :=
  ⟨h.written, h.arrived_le, h.carried, hEsi ▸ h.buffer, hEsi ▸ h.opened⟩

end Lanes

/-! ## The stages of a session -/

section Stages

variable {enc : Bytes → Bytes → Bytes} {ssl : Ssl Key} {maxPacketSize : UInt64} {key pub : Key}
  {accId conId : Nat} {accRoute conRoute : ρ}

/-- What a list of texts is passed up as. -/
def shown (ts : List (Text maxPacketSize)) : List (List (Option UInt8)) :=
  ts.map fun t => t.1.map some

theorem shown_append (ts us : List (Text maxPacketSize)) : shown (ts ++ us) = shown ts ++ shown us :=
  List.map_append

/-- Nothing has been sent on the accepting end, nor passed up on either. -/
structure Quiet (s : Session Key ρ maxPacketSize) : Prop where
  accSent : s.accSent = []
  accPassed : s.acc.passed = []
  conPassed : s.con.passed = []
  connecteds : s.con.connecteds = 0

/-- What the connecting end has handled: the first hello, and with the second one the
packets behind it. -/
def conHandled (h : Works enc ssl maxPacketSize key pub) (aesKey : Bytes) :
    Option (List (Text maxPacketSize)) → List (PeerFrame maxPacketSize)
  | none => [h.hello]
  | some ts => h.hello :: readyFrame maxPacketSize :: ts.map (h.packet aesKey)

/-- How far the handshake has come: the frames that each end has written, and those
that it has handled. -/
inductive Stage (h : Works enc ssl maxPacketSize key pub) (s : Session Key ρ maxPacketSize) :
    List (PeerFrame maxPacketSize) → List (PeerFrame maxPacketSize) →
      List (PeerFrame maxPacketSize) → List (PeerFrame maxPacketSize) → Prop
  | start (hAcc : s.acc.od = ⟨none, none⟩) (hCon : s.con.od = ⟨none, none⟩) (hQuiet : Quiet s)
      (hSent : s.conSent = []) : Stage h s [] [] [] []
  | greeted (hAcc : s.acc.od = ⟨some key, none⟩) (hCon : s.con.od = ⟨none, none⟩)
      (hQuiet : Quiet s) (hSent : s.conSent = []) : Stage h s [h.hello] [] [] []
  | keyed {aesKey c : Bytes} (hSize : aesKey.length = 16)
      (hc : (putPSTR c).length ≤ maxPacketSize.toNat)
      (hDecrypt : ssl.privateDecrypt key c = .ok aesKey) (hAcc : s.acc.od = ⟨some key, none⟩)
      (hCon : s.con.od = ⟨some pub, some aesKey⟩) (hQuiet : Quiet s) :
      Stage h s [h.hello] (keyFrame hc :: s.conSent.map (h.packet aesKey)) [] [h.hello]
  | agreed {aesKey c : Bytes} (hc : (putPSTR c).length ≤ maxPacketSize.toNat)
      (hAcc : s.acc.od = ⟨some key, some aesKey⟩) (hCon : s.con.od = ⟨some pub, some aesKey⟩)
      (accDone : List (Text maxPacketSize)) (conDone : Option (List (Text maxPacketSize)))
      (hAccPassed : s.acc.passed = shown accDone)
      (hConPassed : s.con.passed = shown (conDone.getD []))
      (hConnecteds : s.con.connecteds = conDone.toList.length) :
      Stage h s (h.hello :: readyFrame maxPacketSize :: s.accSent.map (h.packet aesKey))
        (keyFrame hc :: s.conSent.map (h.packet aesKey))
        (keyFrame hc :: accDone.map (h.packet aesKey)) (conHandled h aesKey conDone)

variable {h : Works enc ssl maxPacketSize key pub} {s : Session Key ρ maxPacketSize}
  {fsA fsC doneA doneC new todo : List (PeerFrame maxPacketSize)}

/-- The packets behind a front of them are packets. -/
theorem packets_split {aesKey : Bytes} {sent done : List (Text maxPacketSize)}
    (hSplit : sent.map (h.packet aesKey) = done.map (h.packet aesKey) ++ todo) :
    todo = (sent.drop done.length).map (h.packet aesKey) := by
  have hDrop := congrArg (List.drop done.length) hSplit
  rw [List.drop_left' (List.length_map _)] at hDrop
  rw [List.map_drop, hDrop]

theorem packets_prefix {aesKey : Bytes} {sent : List (Text maxPacketSize)}
    (hPre : new <+: sent.map (h.packet aesKey)) :
    ∃ ts : List (Text maxPacketSize), new = ts.map (h.packet aesKey) :=
  ⟨sent.take new.length, by rw [List.map_take, ← List.prefix_iff_eq_take.1 hPre]⟩

theorem packets_concat (h : Works enc ssl maxPacketSize key pub) (aesKey : Bytes)
    (ts : List (Text maxPacketSize)) (t : Text maxPacketSize) :
    ts.map (h.packet aesKey) ++ [h.packet aesKey t] = (ts ++ [t]).map (h.packet aesKey) := by
  rw [List.map_append, List.map_singleton]

/-- What the accepting end makes of the frames it has not handled. -/
theorem Stage.accReads (hStage : Stage h s fsA fsC doneA doneC)
    (hRole : s.acc.esi.mStreamType = .accepted) (rand : Except CommonError Bytes) (accRoute : ρ)
    (hTodo : fsC = doneA ++ todo) :
    Honest ssl maxPacketSize rand accRoute s.acc todo ∧
      (∀ new, new <+: todo → ∃ ws ps k, Does s.acc (handleAll ssl maxPacketSize rand accRoute s.acc new)
          (stream ws) ps k ∧
        ∀ buf n, Stage h
          (s.accReads (withBuffer (handleAll ssl maxPacketSize rand accRoute s.acc new) buf) n)
          (fsA ++ ws) fsC (doneA ++ new) doneC) := by
  cases hStage with
  | start hAcc hCon hQuiet hSent =>
      obtain rfl : todo = [] := hTodo.symm
      refine ⟨trivial, fun new hNew => ⟨[], [], 0, ?_⟩⟩
      obtain rfl := List.prefix_nil.1 hNew
      exact ⟨does_nothing rfl rfl,
        fun _ _ => .start hAcc hCon ⟨hQuiet.1, hQuiet.2, hQuiet.3, hQuiet.4⟩ hSent⟩
  | greeted hAcc hCon hQuiet hSent =>
      obtain rfl : todo = [] := hTodo.symm
      refine ⟨trivial, fun new hNew => ⟨[], [], 0, ?_⟩⟩
      obtain rfl := List.prefix_nil.1 hNew
      exact ⟨does_nothing rfl rfl,
        fun _ _ => .greeted hAcc hCon ⟨hQuiet.1, hQuiet.2, hQuiet.3, hQuiet.4⟩ hSent⟩
  | @keyed aesKey c hSize hc hDecrypt hAcc hCon hQuiet =>
      obtain rfl : todo = _ := hTodo.symm
      obtain ⟨hOpen, hOd, hKey⟩ := does_keyFrame rand accRoute hSize hc hDecrypt
        (congrArg OscarSecureData.rsa hAcc) hRole
      have hInstalled := congrArg OscarSecureData.aes hOd
      refine ⟨⟨hOpen, (h.does_packets _ _ s.conSent hInstalled).1⟩, fun new hNew => ?_⟩
      cases new with
      | nil =>
          refine ⟨[], [], 0, does_nothing rfl rfl, fun _ _ => ?_⟩
          exact .keyed hSize hc hDecrypt hAcc hCon ⟨hQuiet.1, hQuiet.2, hQuiet.3, hQuiet.4⟩
      | cons f new =>
          obtain ⟨rfl, hPackets⟩ := List.cons_prefix_cons.1 hNew
          obtain ⟨ts, rfl⟩ := packets_prefix hPackets
          obtain ⟨-, hSame, hDoes⟩ := h.does_packets rand accRoute ts hInstalled
          have hAll := hKey.trans hDoes
          refine ⟨[readyFrame maxPacketSize], _, _, hAll, fun buf n => ?_⟩
          have hPassed := hAll.passed
          rw [hQuiet.accPassed, List.nil_append, List.nil_append] at hPassed
          have hAgreed := Stage.agreed (h := h) (s := s.accReads (withBuffer (handleAll ssl
              maxPacketSize rand accRoute s.acc (keyFrame hc :: ts.map (h.packet aesKey))) buf) n)
            hc (hSame.trans hOd) hCon ts none hPassed hQuiet.conPassed hQuiet.connecteds
          rw [show (s.accReads _ n).accSent = [] from hQuiet.accSent] at hAgreed
          exact hAgreed
  | @agreed aesKey c hc hAcc hCon accDone conDone hAccPassed hConPassed hConnecteds =>
      rw [List.cons_append] at hTodo
      obtain rfl := packets_split (List.cons.inj hTodo).2
      have hInstalled := congrArg OscarSecureData.aes hAcc
      refine ⟨(h.does_packets _ _ _ hInstalled).1, fun new hNew => ?_⟩
      obtain ⟨ts, rfl⟩ := packets_prefix hNew
      obtain ⟨-, hSame, hDoes⟩ := h.does_packets rand accRoute ts hInstalled
      refine ⟨[], _, _, hDoes, fun buf n => ?_⟩
      have hPassed := hDoes.passed
      rw [hAccPassed, ← shown, ← shown_append] at hPassed
      rw [List.append_nil, List.cons_append, ← List.map_append]
      exact .agreed (h := h) (s := s.accReads (withBuffer (handleAll ssl maxPacketSize rand accRoute
          s.acc (ts.map (h.packet aesKey))) buf) n) hc (hSame.trans hAcc) hCon (accDone ++ ts) conDone
        hPassed hConPassed hConnecteds

/-- What the connecting end makes of them. -/
theorem Stage.conReads (hStage : Stage h s fsA fsC doneA doneC)
    (drawn : {a : Bytes // a.length = 16}) (conRoute : ρ) (hTodo : fsA = doneC ++ todo) :
    Honest ssl maxPacketSize (.ok drawn.1) conRoute s.con todo ∧
      (∀ new, new <+: todo → ∃ ws ps k,
        Does s.con (handleAll ssl maxPacketSize (.ok drawn.1) conRoute s.con new) (stream ws) ps k ∧
        ∀ buf n, Stage h
          (s.conReads (withBuffer (handleAll ssl maxPacketSize (.ok drawn.1) conRoute s.con new) buf)
            n)
          fsA (fsC ++ ws) doneA (doneC ++ new)) := by
  cases hStage with
  | start hAcc hCon hQuiet hSent =>
      obtain rfl : todo = [] := hTodo.symm
      refine ⟨trivial, fun new hNew => ⟨[], [], 0, ?_⟩⟩
      obtain rfl := List.prefix_nil.1 hNew
      exact ⟨does_nothing rfl rfl,
        fun _ _ => .start hAcc hCon ⟨hQuiet.1, hQuiet.2, hQuiet.3, hQuiet.4⟩ hSent⟩
  | greeted hAcc hCon hQuiet hSent =>
      obtain rfl : todo = [h.hello] := hTodo.symm
      obtain ⟨c, hc, hDecrypt, hOpen, hOd, hDoes⟩ :=
        h.does_hello conRoute (s := s.con) drawn.2
      refine ⟨⟨hOpen, trivial⟩, fun new hNew => ?_⟩
      cases new with
      | nil =>
          refine ⟨[], [], 0, does_nothing rfl rfl, fun _ _ => ?_⟩
          exact .greeted hAcc hCon ⟨hQuiet.1, hQuiet.2, hQuiet.3, hQuiet.4⟩ hSent
      | cons f new =>
          obtain ⟨rfl, hNil⟩ := List.cons_prefix_cons.1 hNew
          obtain rfl := List.prefix_nil.1 hNil
          have hOne : stream [keyFrame hc] = (keyFrame hc).1.encode := List.append_nil _
          refine ⟨[keyFrame hc], _, _, hOne.symm ▸ hDoes, fun buf n => ?_⟩
          have hPassed := hDoes.passed
          rw [hQuiet.conPassed] at hPassed
          have hKeyed := Stage.keyed (h := h) (s := s.conReads (withBuffer (handleAll ssl maxPacketSize
              (.ok drawn.1) conRoute s.con [h.hello]) buf) n) drawn.2 hc hDecrypt hAcc hOd
            ⟨hQuiet.accSent, hQuiet.accPassed, hPassed, hDoes.connecteds.trans hQuiet.connecteds⟩
          rw [show (s.conReads _ n).conSent = [] from hSent] at hKeyed
          exact hKeyed
  | keyed hSize hc hDecrypt hAcc hCon hQuiet =>
      obtain rfl : todo = [] := (List.cons.inj hTodo).2.symm
      refine ⟨trivial, fun new hNew => ⟨[], [], 0, ?_⟩⟩
      obtain rfl := List.prefix_nil.1 hNew
      rw [List.append_nil, List.append_nil]
      exact ⟨does_nothing rfl rfl, fun _ _ =>
        .keyed hSize hc hDecrypt hAcc hCon ⟨hQuiet.1, hQuiet.2, hQuiet.3, hQuiet.4⟩⟩
  | @agreed aesKey c hc hAcc hCon accDone conDone hAccPassed hConPassed hConnecteds =>
      have hInstalled := congrArg OscarSecureData.aes hCon
      cases conDone with
      | none =>
          obtain rfl : todo = _ := (List.cons.inj hTodo).2.symm
          obtain ⟨hOpen, hOd, hReady⟩ := @does_readyFrame _ _ ssl maxPacketSize
            (.ok drawn.1) conRoute s.con
          have hStill := hOd.trans hCon
          have hThen := congrArg OscarSecureData.aes hStill
          refine ⟨⟨hOpen, (h.does_packets _ _ s.accSent hThen).1⟩, fun new hNew => ?_⟩
          cases new with
          | nil =>
              refine ⟨[], [], 0, does_nothing rfl rfl, fun buf n => ?_⟩
              rw [List.append_nil, List.append_nil]
              exact .agreed (h := h) (s := s.conReads (withBuffer s.con buf) n) hc hAcc hCon
                accDone none hAccPassed hConPassed hConnecteds
          | cons f new =>
              obtain ⟨rfl, hPackets⟩ := List.cons_prefix_cons.1 hNew
              obtain ⟨ts, rfl⟩ := packets_prefix hPackets
              obtain ⟨-, hSame, hDoes⟩ := h.does_packets (.ok drawn.1) conRoute ts hThen
              have hAll := hReady.trans hDoes
              refine ⟨[], _, _, hAll, fun buf n => ?_⟩
              have hPassed := hAll.passed
              rw [hConPassed] at hPassed
              have hCount := hAll.connecteds
              rw [hConnecteds] at hCount
              rw [List.append_nil]
              exact .agreed (h := h) (s := s.conReads (withBuffer (handleAll ssl maxPacketSize
                  (.ok drawn.1) conRoute s.con
                  (readyFrame maxPacketSize :: ts.map (h.packet aesKey))) buf) n) hc hAcc
                (hSame.trans hStill) accDone (some ts) hAccPassed hPassed hCount
      | some conDone =>
          obtain rfl := packets_split (List.cons.inj (List.cons.inj hTodo).2).2
          refine ⟨(h.does_packets _ _ _ hInstalled).1, fun new hNew => ?_⟩
          obtain ⟨ts, rfl⟩ := packets_prefix hNew
          obtain ⟨-, hSame, hDoes⟩ := h.does_packets (.ok drawn.1) conRoute ts hInstalled
          refine ⟨[], _, _, hDoes, fun buf n => ?_⟩
          have hPassed := hDoes.passed
          rw [hConPassed, ← shown, Option.getD_some, ← shown_append] at hPassed
          have hCount := hDoes.connecteds
          rw [hConnecteds] at hCount
          have hHandled : conHandled h aesKey (some conDone) ++ ts.map (h.packet aesKey) =
              conHandled h aesKey (some (conDone ++ ts)) := by
            rw [conHandled, conHandled, List.cons_append, List.cons_append, ← List.map_append]
          rw [List.append_nil, hHandled]
          exact .agreed (h := h) (s := s.conReads (withBuffer (handleAll ssl maxPacketSize
              (.ok drawn.1) conRoute s.con (ts.map (h.packet aesKey))) buf) n) hc hAcc
            (hSame.trans hCon) accDone (some (conDone ++ ts)) hAccPassed hPassed hCount

/-! ## The invariant -/

/-- What every step keeps. -/
structure Carries (h : Works enc ssl maxPacketSize key pub) (s : Session Key ρ maxPacketSize) :
    Prop where
  role : s.acc.esi.mStreamType = .accepted
  lanes : ∃ fsA fsC rA rC, Stage h s fsA fsC rA.handled rC.handled ∧
    Lane s.acc s.con s.conArrived fsA rC ∧ Lane s.con s.acc s.accArrived fsC rA

/-- `on_SendPacket` throws, or it writes the packet. -/
theorem sends_cases (h : Works enc ssl maxPacketSize key pub) (p : Parcel maxPacketSize)
    (a : State Key ρ) :
    (∃ e, onSendPacket enc p.buf a = some (.error e)) ∨
      ∃ aesKey, a.od.aes = some aesKey ∧ onSendPacket enc p.buf a =
        some (.ok (a.record (.write (h.packet aesKey p.text).1.encode))) := by
  cases hKey : a.od.aes with
  | none => exact .inl (onSendPacket_refused (.inl hKey))
  | some aesKey =>
      by_cases hRoom : Room p.buf
      · exact .inr ⟨aesKey, rfl,
          onSendPacket_eq (h.inverts.length_enc aesKey) p.holds p.text.2.2 hRoom hKey⟩
      · exact .inl (onSendPacket_refused (.inr hRoom))

theorem written_record (a : State Key ρ) (f : PeerFrame maxPacketSize) :
    (a.record (.write f.1.encode)).written = a.written ++ stream [f] := by
  rw [(does_record a (.write f.1.encode)).written]
  exact congrArg _ (List.append_nil _).symm

theorem carries_init {accId conId : Nat}
    (hInit : (session enc ssl maxPacketSize key accId conId accRoute conRoute).init s) :
    Carries h s := by
  obtain rfl : s = _ := hInit
  have hLane : ∀ snd rcv : State Key ρ, snd.trace = [] → rcv.esi.mInBuffer = [] →
      rcv.esi.closed = false →
      @Lane _ _ maxPacketSize snd rcv 0 [] ⟨[], [], false⟩ := by
    intro snd rcv hTrace hBuffer hOpened
    have hWritten : snd.written = [] := by rw [State.written, hTrace]; rfl
    refine ⟨hWritten, Nat.zero_le _, ?_, hBuffer, hOpened⟩
    rw [hWritten]
    exact .start
  exact ⟨rfl, [], [], ⟨[], [], false⟩, ⟨[], [], false⟩, .start rfl rfl ⟨rfl, rfl, rfl, rfl⟩ rfl,
    hLane _ _ rfl rfl rfl, hLane _ _ rfl rfl rfl⟩

theorem carries_accepted (hs : Carries h s) (hNew : s.acc.od.rsa.isNone) :
    Carries h { s with acc := onAccepted ssl (some key) s.acc } := by
  obtain ⟨fsA, fsC, rA, rC, hStage, hOut, hIn⟩ := hs.lanes
  obtain ⟨hA, hRA⟩ : ∃ x, rA.handled = x := ⟨_, rfl⟩
  obtain ⟨hC, hRC⟩ : ∃ x, rC.handled = x := ⟨_, rfl⟩
  rw [hRA, hRC] at hStage
  cases hStage with
  | start hAcc hCon hQuiet hSent =>
      have hKeyed : Does s.acc { s.acc with od := { s.acc.od with rsa := some key } } [] [] 0 :=
        does_nothing rfl rfl
      have hDoes := hKeyed.trans (does_record _ (.write h.hello.1.encode))
      have hPassed := hDoes.passed
      rw [hQuiet.accPassed] at hPassed
      have hOd : (onAccepted ssl (some key) s.acc).od = ⟨some key, none⟩ := by
        show OscarSecureData.mk (some key) s.acc.od.aes = _
        rw [hAcc]
      have hGreeted : Stage h { s with acc := onAccepted ssl (some key) s.acc } [h.hello] []
          rA.handled rC.handled := by
        rw [hRA, hRC]
        exact .greeted hOd hCon ⟨hQuiet.accSent, hPassed, hQuiet.conPassed, hQuiet.connecteds⟩ hSent
      refine ⟨hs.role, [h.hello], [], rA, rC, hGreeted, ?_, hIn.receiver rfl⟩
      have hWritten := hDoes.written
      refine hOut.write [h.hello] (hWritten.trans ?_)
      exact congrArg _ (List.append_nil _).symm
  | greeted hAcc | keyed _ _ _ hAcc | agreed _ hAcc =>
      rw [hAcc] at hNew
      cases hNew

theorem carries_accSends (hs : Carries h s) (p : Parcel maxPacketSize) :
    Carries h (s.accWrites p (onSendPacket enc p.buf s.acc)) := by
  obtain ⟨fsA, fsC, rA, rC, hStage, hOut, hIn⟩ := hs.lanes
  rcases sends_cases h p s.acc with ⟨e, hRun⟩ | ⟨aesKey, hKey, hRun⟩
  · rw [hRun]
    exact hs
  · rw [hRun]
    have hPassed : (s.acc.record (.write (h.packet aesKey p.text).1.encode)).passed =
        s.acc.passed :=
      (does_record s.acc (.write (h.packet aesKey p.text).1.encode)).passed.trans
        (List.append_nil _)
    refine ⟨hs.role, fsA ++ [h.packet aesKey p.text], fsC, rA, rC, ?_,
      hOut.write _ (written_record s.acc _), hIn.receiver rfl⟩
    generalize rA.handled = doneA at hStage ⊢
    generalize rC.handled = doneC at hStage ⊢
    clear hOut hIn
    cases hStage with
    | start hAcc | greeted hAcc | keyed _ _ _ hAcc =>
        rw [hAcc] at hKey
        cases hKey
    | @agreed aesKey' c hc hAcc hCon accDone conDone hAccPassed hConPassed hConnecteds =>
        rw [hAcc] at hKey
        obtain rfl : aesKey' = aesKey := Option.some.inj hKey
        rw [List.cons_append, List.cons_append, packets_concat]
        exact .agreed (s := s.accWrites p (some (.ok (s.acc.record
            (.write (h.packet aesKey' p.text).1.encode))))) hc hAcc hCon accDone conDone
          (hPassed.trans hAccPassed) hConPassed hConnecteds

theorem carries_conSends (hs : Carries h s) (p : Parcel maxPacketSize) :
    Carries h (s.conWrites p (onSendPacket enc p.buf s.con)) := by
  obtain ⟨fsA, fsC, rA, rC, hStage, hOut, hIn⟩ := hs.lanes
  rcases sends_cases h p s.con with ⟨e, hRun⟩ | ⟨aesKey, hKey, hRun⟩
  · rw [hRun]
    exact hs
  · rw [hRun]
    have hDoes := does_record s.con (.write (h.packet aesKey p.text).1.encode)
    have hPassed := hDoes.passed.trans (List.append_nil _)
    have hConnecteds : _ = s.con.connecteds := hDoes.connecteds
    refine ⟨hs.role, fsA, fsC ++ [h.packet aesKey p.text], rA, rC, ?_, hOut.receiver rfl,
      hIn.write _ (written_record s.con _)⟩
    generalize rA.handled = doneA at hStage ⊢
    generalize rC.handled = doneC at hStage ⊢
    clear hOut hIn
    cases hStage with
    | start _ hCon | greeted _ hCon =>
        rw [hCon] at hKey
        cases hKey
    | @keyed aesKey' c hSize hc hDecrypt hAcc hCon hQuiet =>
        rw [hCon] at hKey
        obtain rfl : aesKey' = aesKey := Option.some.inj hKey
        rw [List.cons_append, packets_concat]
        exact .keyed (s := s.conWrites p (some (.ok (s.con.record
            (.write (h.packet aesKey' p.text).1.encode))))) hSize hc hDecrypt hAcc hCon
          ⟨hQuiet.accSent, hQuiet.accPassed, hPassed.trans hQuiet.conPassed,
            hConnecteds.trans hQuiet.connecteds⟩
    | @agreed aesKey' c hc hAcc hCon accDone conDone hAccPassed hConPassed hCount =>
        rw [hCon] at hKey
        obtain rfl : aesKey' = aesKey := Option.some.inj hKey
        rw [List.cons_append, packets_concat]
        exact .agreed (s := s.conWrites p (some (.ok (s.con.record
            (.write (h.packet aesKey' p.text).1.encode))))) hc hAcc hCon accDone conDone hAccPassed
          (hPassed.trans hConPassed) (hConnecteds.trans hCount)

theorem carries_accReads (hs : Carries h s) {n : Nat} (rand : Except CommonError Bytes)
    (hLe : s.accArrived + n ≤ s.con.written.length) :
    Carries h (s.accReads (receive ssl maxPacketSize rand accRoute s.acc
      ((s.con.written.drop s.accArrived).take n)) n) := by
  obtain ⟨fsA, fsC, rA, rC, hStage, hOut, hIn⟩ := hs.lanes
  obtain ⟨todo, hTodo, -⟩ := hIn.carried.split
  obtain ⟨hHonest, hDone⟩ := hStage.accReads hs.role rand accRoute hTodo
  obtain ⟨new, r, hNew, hHandled, hReceive, hRead⟩ := hIn.read hLe hTodo hHonest
  obtain ⟨ws, ps, k, hDoes, hStages⟩ := hDone new hNew
  rw [hReceive] at hRead ⊢
  refine ⟨?_, fsA ++ ws, fsC, r, rC, ?_, hOut.write ws hDoes.written, hRead⟩
  · exact (congrArg EpollSocketInfo.mStreamType hDoes.esi).trans hs.role
  · rw [hHandled]
    exact hStages r.buffer n

theorem carries_conReads (hs : Carries h s) {n : Nat} (drawn : {a : Bytes // a.length = 16})
    (hLe : s.conArrived + n ≤ s.acc.written.length) :
    Carries h (s.conReads (receive ssl maxPacketSize (.ok drawn.1) conRoute s.con
      ((s.acc.written.drop s.conArrived).take n)) n) := by
  obtain ⟨fsA, fsC, rA, rC, hStage, hOut, hIn⟩ := hs.lanes
  obtain ⟨todo, hTodo, -⟩ := hOut.carried.split
  obtain ⟨hHonest, hDone⟩ := hStage.conReads drawn conRoute hTodo
  obtain ⟨new, r, hNew, hHandled, hReceive, hRead⟩ := hOut.read hLe hTodo hHonest
  obtain ⟨ws, ps, k, hDoes, hStages⟩ := hDone new hNew
  rw [hReceive] at hRead ⊢
  refine ⟨hs.role, fsA, fsC ++ ws, rA, r, ?_, hRead, hIn.write ws hDoes.written⟩
  rw [hHandled]
  exact hStages r.buffer n

theorem carries_reachable
    (hReach : (session enc ssl maxPacketSize key accId conId accRoute conRoute).Reachable s) :
    Carries h s := by
  refine Machine.Reachable.invariant (I := Carries h) (fun _ => carries_init) ?_ hReach
  intro s a hs hEn
  cases a with
  | accepted => exact carries_accepted hs hEn
  | accSends p => exact carries_accSends hs p
  | conSends p => exact carries_conSends hs p
  | accReads n rand => exact carries_accReads hs rand hEn
  | conReads n drawn => exact carries_conReads hs drawn hEn

/-- Different texts are sealed differently. -/
theorem Works.packet_injective (h : Works enc ssl maxPacketSize key pub) (aesKey : Bytes) :
    Function.Injective (h.packet aesKey) := by
  intro t u hSame
  have hSeal : sealText enc aesKey t.1 = sealText enc aesKey u.1 :=
    congrArg (fun f => f.1.req) hSame
  obtain ⟨buf, hOpen, hText⟩ := h.open_seal aesKey t
  obtain ⟨buf', hOpen', hText'⟩ := h.open_seal aesKey u
  rw [hSeal, hOpen'] at hOpen
  obtain rfl := Except.ok.inj hOpen
  exact Subtype.ext (List.map_injective_iff.2 (Option.some_injective _) (hText.symm.trans hText'))

/-- Where the loop waits there is no frame in the buffer. -/
theorem waits_of_wait {r : Framing.Receiver (PeerFrame maxPacketSize) UInt8}
    (hWait : takeFrame maxPacketSize r.buffer = .wait) :
    Framing.Waits (frameFormat maxPacketSize) r := by
  cases hDecode : Oscar.decodeFrame r.buffer with
  | none =>
      rw [Framing.Waits, frameFormat]
      dsimp only
      rw [hDecode]
  | some p =>
      have hTake := (takeFrame_eq maxPacketSize r.buffer).2 _ _ _ (Oscar.decodeFrame_eq_some.1 hDecode)
      rw [Framing.Waits, frameFormat]
      dsimp only
      rw [hDecode]
      refine dif_neg fun hFits => ?_
      rw [hTake hFits] at hWait
      cases hWait

/--
**In order, each once.** Whatever is sent when, and however the bytes are cut, both
sockets are open, and each end has passed up a front of what the other has sent.
-/
theorem session_in_order (h : Works enc ssl maxPacketSize key pub)
    (hReach : (session enc ssl maxPacketSize key accId conId accRoute conRoute).Reachable s) :
    s.acc.esi.closed = false ∧ s.con.esi.closed = false ∧
      s.acc.passed <+: shown s.conSent ∧ s.con.passed <+: shown s.accSent := by
  obtain ⟨-, fsA, fsC, rA, rC, hStage, hOut, hIn⟩ := carries_reachable (h := h) hReach
  refine ⟨hIn.opened, hOut.opened, ?_⟩
  have hA := hIn.carried.handled_prefix
  have hC := hOut.carried.handled_prefix
  generalize rA.handled = doneA at hStage hA
  generalize rC.handled = doneC at hStage hC
  clear hOut hIn
  cases hStage with
  | start _ _ hQuiet | greeted _ _ hQuiet | keyed _ _ _ _ _ hQuiet =>
      rw [hQuiet.accPassed, hQuiet.conPassed]
      exact ⟨List.nil_prefix, List.nil_prefix⟩
  | @agreed aesKey c hc hAcc hCon accDone conDone hAccPassed hConPassed hConnecteds =>
      have hInj := h.packet_injective aesKey
      rw [hAccPassed, hConPassed]
      refine ⟨((List.prefix_map_iff_of_injective hInj).1 (List.cons_prefix_cons.1 hA).2).map _, ?_⟩
      cases conDone with
      | none => exact List.nil_prefix
      | some ts =>
          have hPackets := (List.cons_prefix_cons.1 (List.cons_prefix_cons.1 hC).2).2
          exact ((List.prefix_map_iff_of_injective hInj).1 hPackets).map _

/--
**One key.** The key of the accepting end is that of the connecting one.  `Connected`
is passed up once at most, not before both have it, and no packet comes before it.
-/
theorem session_agrees (h : Works enc ssl maxPacketSize key pub)
    (hReach : (session enc ssl maxPacketSize key accId conId accRoute conRoute).Reachable s) :
    (∀ aesKey, s.acc.od.aes = some aesKey → s.con.od.aes = some aesKey) ∧
      s.con.connecteds ≤ 1 ∧ (s.con.connecteds = 1 → s.acc.od.aes.isSome) ∧
      (s.con.passed ≠ [] → s.con.connecteds = 1) := by
  obtain ⟨-, fsA, fsC, rA, rC, hStage, -, -⟩ := carries_reachable (h := h) hReach
  generalize rA.handled = doneA at hStage
  generalize rC.handled = doneC at hStage
  cases hStage with
  | start hAcc _ hQuiet | greeted hAcc _ hQuiet | keyed _ _ _ hAcc _ hQuiet =>
      rw [hAcc, hQuiet.connecteds, hQuiet.conPassed]
      exact ⟨nofun, Nat.zero_le 1, nofun, fun hSome => absurd rfl hSome⟩
  | agreed hc hAcc hCon accDone conDone hAccPassed hConPassed hConnecteds =>
      rw [hAcc, hCon, hConPassed, hConnecteds]
      refine ⟨fun _ hKey => hKey, ?_, fun _ => rfl, ?_⟩
      · cases conDone with
        | none => exact Nat.zero_le 1
        | some ts => exact Nat.le_refl 1
      · cases conDone with
        | none => exact fun hSome => absurd rfl hSome
        | some ts => exact fun _ => rfl

/--
**The handshake ends.** After `on_Accepted`, once all bytes have arrived and neither
end keeps a whole frame, `Connected` has been passed up, both ends have one key, and
every packet has been passed up.
-/
theorem session_completes (h : Works enc ssl maxPacketSize key pub)
    (hReach : (session enc ssl maxPacketSize key accId conId accRoute conRoute).Reachable s)
    (hAccepted : s.acc.od.rsa.isSome) (hSettled : s.Settled) (hWaiting : s.Waiting) :
    s.con.connecteds = 1 ∧
      (∃ aesKey, s.acc.od = ⟨some key, some aesKey⟩ ∧ s.con.od = ⟨some pub, some aesKey⟩) ∧
      s.acc.passed = shown s.conSent ∧ s.con.passed = shown s.accSent ∧
      s.acc.esi.mInBuffer = [] ∧ s.con.esi.mInBuffer = [] := by
  obtain ⟨-, fsA, fsC, rA, rC, hStage, hOut, hIn⟩ := carries_reachable (h := h) hReach
  have hOutCarried := hOut.carried
  rw [hSettled.2, List.drop_length] at hOutCarried
  have hInCarried := hIn.carried
  rw [hSettled.1, List.drop_length] at hInCarried
  obtain ⟨hA, hBufferA⟩ := hInCarried.settled (waits_of_wait (hIn.buffer ▸ hWaiting.1))
  obtain ⟨hC, hBufferC⟩ := hOutCarried.settled (waits_of_wait (hOut.buffer ▸ hWaiting.2))
  have hEmpty : s.acc.esi.mInBuffer = [] ∧ s.con.esi.mInBuffer = [] :=
    ⟨hIn.buffer.trans hBufferA, hOut.buffer.trans hBufferC⟩
  generalize rA.handled = doneA at hStage hA
  generalize rC.handled = doneC at hStage hC
  clear hOut hIn hOutCarried hInCarried
  cases hStage with
  | start hAcc =>
      rw [hAcc] at hAccepted
      cases hAccepted
  | greeted | keyed => cases hC <;> cases hA
  | @agreed aesKey c hc hAcc hCon accDone conDone hAccPassed hConPassed hConnecteds =>
      have hInj := List.map_injective_iff.2 (h.packet_injective aesKey)
      obtain rfl := hInj (List.cons.inj hA).2
      cases conDone with
      | none => cases (List.cons.inj hC).2
      | some ts =>
          obtain rfl := hInj (List.cons.inj (List.cons.inj hC).2).2
          exact ⟨hConnecteds, ⟨aesKey, hAcc, hCon⟩, hAccPassed, hConPassed, hEmpty⟩

end Stages

/-! ## A run -/

instance (enc : Bytes → Bytes → Bytes) (ssl : Ssl Key) (maxPacketSize : UInt64) (key : Key)
    (accId conId : Nat) (accRoute conRoute : ρ) (s : Session Key ρ maxPacketSize)
    (a : SessionAction maxPacketSize) :
    Decidable ((session enc ssl maxPacketSize key accId conId accRoute conRoute).enabled s a) := by
  cases a <;> unfold session <;> infer_instance

instance {maxPacketSize : UInt64} (s : Session Key ρ maxPacketSize) : Decidable s.Settled :=
  inferInstanceAs (Decidable (_ ∧ _))

deriving instance DecidableEq for Taken

instance {maxPacketSize : UInt64} (s : Session Key ρ maxPacketSize) : Decidable s.Waiting :=
  inferInstanceAs (Decidable (_ ∧ _))

/-- Keys that are only a size: the padding is there, and no arithmetic behind it. -/
def paddingOnly : SslModule Nat where
  new := 0
  getPublicKey size := [UInt8.ofNat size]
  fromPublicKey
    | [size] => some size.toNat
    | _ => none
  publicEncrypt := paddingKey
  privateDecrypt := strippingKey
  cipher := mask

theorem works_paddingOnly : Works mask paddingOnly.toSsl 1024 32 32 :=
  works_toSsl inverts_mask rfl (paired_padding (by decide)) (by decide +kernel) rfl
    (by decide +kernel) (by decide +kernel)

/-- Three bytes. -/
def parcel : Parcel 1024 where
  buf := three
  text := ⟨[1, 2, 3], by decide, by decide⟩
  holds := ⟨⟨by decide, by decide⟩, by decide⟩

/-- A packet too early, the handshake, and a packet each way, cut at will. -/
def exchange : List (SessionAction 1024) :=
  [.conSends parcel, .accepted, .conReads 4 ⟨List.replicate 16 7, by decide⟩,
    .conReads 2 ⟨List.replicate 16 7, by decide⟩, .conSends parcel, .accReads 50 (.ok []),
    .accSends parcel, .accReads 3 (.ok []), .conReads 2 ⟨List.replicate 16 8, by decide⟩,
    .conReads 18 ⟨List.replicate 16 8, by decide⟩]

theorem reachable_exchange (n : Nat) :
    (session mask paddingOnly.toSsl 1024 32 1 2 () ()).Reachable
      ((session mask paddingOnly.toSsl 1024 32 1 2 () ()).exec
        ⟨.fresh 1 .accepted, .fresh 2 .connected, [], [], 0, 0⟩ (exchange.take n)) := by
  have hPath : (session mask paddingOnly.toSsl 1024 32 1 2 () ()).Path
      ⟨.fresh 1 .accepted, .fresh 2 .connected, [], [], 0, 0⟩ exchange := by decide +kernel
  rw [← List.take_append_drop n exchange] at hPath
  exact (Machine.Reachable.init rfl).path ((Machine.path_append _ _ _ _).1 hPath).1

/-- The session after `n` steps of it. -/
def exchanged (n : Nat) : Session Nat Unit 1024 :=
  (session mask paddingOnly.toSsl 1024 32 1 2 () ()).exec
    ⟨.fresh 1 .accepted, .fresh 2 .connected, [], [], 0, 0⟩ (exchange.take n)

theorem session_in_order_cut :
    (exchanged 8).acc.esi.closed = false ∧ (exchanged 8).con.esi.closed = false ∧
      (exchanged 8).acc.passed <+: shown (exchanged 8).conSent ∧
      (exchanged 8).con.passed <+: shown (exchanged 8).accSent :=
  session_in_order works_paddingOnly (reachable_exchange 8)

theorem session_agrees_cut :
    (∀ aesKey, (exchanged 8).acc.od.aes = some aesKey → (exchanged 8).con.od.aes = some aesKey) ∧
      (exchanged 8).con.connecteds ≤ 1 ∧
      ((exchanged 8).con.connecteds = 1 → (exchanged 8).acc.od.aes.isSome) ∧
      ((exchanged 8).con.passed ≠ [] → (exchanged 8).con.connecteds = 1) :=
  session_agrees works_paddingOnly (reachable_exchange 8)

theorem session_completes_exchange :
    (exchanged 10).con.connecteds = 1 ∧
      (∃ aesKey, (exchanged 10).acc.od = ⟨some 32, some aesKey⟩ ∧
        (exchanged 10).con.od = ⟨some 32, some aesKey⟩) ∧
      (exchanged 10).acc.passed = shown (exchanged 10).conSent ∧
      (exchanged 10).con.passed = shown (exchanged 10).accSent ∧
      (exchanged 10).acc.esi.mInBuffer = [] ∧ (exchanged 10).con.esi.mInBuffer = [] :=
  session_completes works_paddingOnly (reachable_exchange 10) (by decide +kernel)
    (by decide +kernel) (by decide +kernel)

end Megatron.OscarSecure
