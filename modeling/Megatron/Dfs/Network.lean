import Megatron.Dfs.Service
import Megatron.Lib.Mailbox
import Megatron.Socket.Service

/-!
# The cloud as a network of nodes

One message in flight is one event (or packet) at one node; its turn runs the
handler of the service it is for.  What the RPC service hands to Oscar arrives
at the other end of the connection.  The RPC service of a node is the one of
`Megatron.Rpc`: sessions, caches and all.

## Main results

* `leads_react` — a message whose handler hands on one message leads to it.
* `leads_sendPacket`, `leads_passPacket` — over a connection that is up, a
  packet for the session arrives at the other end.
-/

namespace Megatron.Dfs

open Megatron.Corelib Megatron.Rpc Megatron.Lib

/-- A message in flight: a node and what is on its way there. -/
structure Msg (Addr B : Type) where
  node : Nat
  content : Content Addr B
  deriving DecidableEq

/-- The nodes, the connections between them (the other end of each socket: the
node, the type of its stream, its socket), the tables of `dfsCaps`, and how
other services answer. -/
structure Network (Addr B : Type) where
  node : Nat → Node Addr
  wire : Nat → SocketId → Option (Nat × Socket.StreamType × Esi Addr)
  caps : Nat → Caps Addr
  answer : ServiceId → Body Addr B → Option (Body Addr B)

/-- The state of a node: its RPC service, and the counter of the socket ids. -/
structure NodeState (Addr : Type) where
  rpc : Rpc.State Addr
  sockIdGen : SocketId

/-- `__sockIdGen::get`, the counter it returns and keeps. -/
def getSocketId (gen : SocketId) : SocketId := if gen + 1 ≤ 0 then 1 else gen + 1

namespace Network

variable {Addr B : Type} [LinearOrder Addr] (net : Network Addr B) (c : Codec Addr B)

/-- How service `svs` of node `i` answers a request. -/
def answers (i : Nat) (svs : ServiceId) : Body Addr B → Option (Body Addr B) :=
  if svs = ServiceEnum.dfsCaps then DfsCaps.answer (net.caps i) else net.answer svs

/-- A request at a service that answers; other events are its own business. -/
def serve (i : Nat) (svs : ServiceId) (e : Event Addr B) :
    Except CommonError (List (Content Addr B)) :=
  match e.body with
  | .toplinkDeliverREQ destinationService eventData uuid =>
      serveToplink c (net.answers i svs) ⟨e.route, destinationService, eventData, uuid⟩
  | _ => .ok []

/-- The handlers that leave the RPC service as it is. -/
def react (i : Nat) : Content Addr B → Except CommonError (List (Content Addr B))
  | .event svs e =>
      if svs = ServiceEnum.dfsReferrer then DfsReferrer.handleEvent c (net.node i) e
      else net.serve c i svs e
  | .incomingOnAcceptor svs esi e =>
      if svs = ServiceEnum.dfsReferrer then
        DfsReferrer.onIncomingOnAcceptor c (net.node i) esi e
      else net.serve c i svs e
  | .incomingOnConnector svs _ _ e =>
      if svs = ServiceEnum.dfsReferrer then DfsReferrer.onIncomingOnConnector c e
      else net.serve c i svs e
  | .packetOnAcceptor esi buf => onPacketOnAcceptor c esi buf
  | .packetOnConnector esi buf => onPacketOnConnector c esi buf
  | _ => .ok []

/-- A packet handed to Oscar, at the other end of its connection. -/
def transmit (i : Nat) : Output Addr → Option (Msg Addr B)
  | .sendPacket _ esi buf =>
      (net.wire i esi.mId).map fun (j, streamType, peer) =>
        match streamType with
        | .connected => ⟨j, .packetOnConnector peer buf⟩
        | .accepted => ⟨j, .packetOnAcceptor peer buf⟩
  | _ => none

/-- The packets the RPC service has handed over since its state was `old`. -/
def transmitted (i : Nat) (old new : Rpc.State Addr) : List (Msg Addr B) :=
  (new.trace.drop old.trace.length).filterMap (net.transmit i)

/-- The turn of a message. A new connection is reported later than the call
that asks for it. -/
def handle : Handler (Nat → NodeState Addr) (Msg Addr B) := fun s m =>
  let n := s m.node
  match m.content with
  | .sendPacket addressTo destination ev =>
      let known := (n.rpc.mxSa2Session.lookup addressTo).isSome
      let sockId := getSocketId n.sockIdGen
      let rpc := n.rpc.onSendPacket (packEvent c) id sockId addressTo destination ev
      (Function.update s m.node ⟨rpc, if known then n.sockIdGen else sockId⟩,
        net.transmitted m.node n.rpc rpc)
  | .passPacket socketIdTo e =>
      let rpc := n.rpc.onPassPacket (packEvent c) socketIdTo e
      (Function.update s m.node ⟨rpc, n.sockIdGen⟩, net.transmitted m.node n.rpc rpc)
  | content =>
      match net.react c m.node content with
      | .ok out => (s, out.map (Msg.mk m.node))
      | .error _ => (s, [])

end Network

/-! ## Connections that are up -/

/-- A session with its socket and nothing waiting. -/
structure Holds {Addr : Type} (s : Rpc.State Addr) (r : SessionRef) (esi : Esi Addr) :
    Prop where
  esi : (s.heap r).esi = some esi
  cache : s.cache r = []

section Rpc

variable {Addr : Type} {s : Rpc.State Addr} {r : SessionRef}
  {esi : Esi Addr} {p : Bytes}

/-- On such a session a packet is handed over at once. -/
theorem trace_addSendPacket (h : Holds s r esi) :
    (s.addSendPacket r p).trace = s.trace ++ [.sendPacket r esi p] := by
  have hEsi : ((s.pushBack r p).heap r).esi = some esi := by
    simp [Rpc.State.pushBack, Rpc.State.setSession, h.esi]
  have hCache : (s.pushBack r p).cache r = [p] := by
    have := h.cache
    simp [Rpc.State.pushBack, Rpc.State.setSession, Rpc.State.cache] at this ⊢
    exact this
  have hLen : ((s.pushBack r p).heap r).mOutEventCache.length = 1 :=
    congrArg List.length hCache
  simp only [Rpc.State.addSendPacket, hEsi, Option.isSome_some, if_true, Rpc.State.doSend,
    hLen, Rpc.State.doSendLoop, Rpc.State.sendFront_cons hEsi hCache]
  rfl

theorem addSendPacket_sends (s : Rpc.State Addr) (r : SessionRef) (p : Bytes) :
    Rpc.State.Sends (s.pushBack r p) (s.addSendPacket r p) := by
  simp only [Rpc.State.addSendPacket]
  split
  · exact Rpc.State.sends_doSend _ r
  · exact Rpc.State.Sends.refl _

/-- Handing a packet over keeps every session that is up. -/
theorem holds_addSendPacket (h : Holds s r esi) {r' : SessionRef} {esi' : Esi Addr}
    (h' : Holds s r' esi') : Holds (s.addSendPacket r p) r' esi' := by
  have hSends := addSendPacket_sends s r p
  by_cases hr : r' = r
  · subst hr
    have hPushed : ((s.pushBack r' p).heap r').esi = some esi' := by
      simp [Rpc.State.pushBack, Rpc.State.setSession, h'.esi]
    refine ⟨(hSends.esi r').trans hPushed, ?_⟩
    simp only [Rpc.State.addSendPacket, hPushed, Option.isSome_some, if_true]
    exact Rpc.State.cache_doSend (by simp [hPushed])
  · have hPushed : (s.pushBack r p).heap r' = s.heap r' := by
      simp [Rpc.State.pushBack, Rpc.State.setSession, hr]
    refine ⟨?_, ?_⟩
    · rw [hSends.esi r', hPushed]
      exact h'.esi
    · have hCache : (s.pushBack r p).cache r' = [] := by
        rw [Rpc.State.cache, hPushed]
        exact h'.cache
      exact List.suffix_nil.1 (hCache ▸ hSends.suffix r')

theorem mxSa2Session_addSendPacket (s : Rpc.State Addr) (r : SessionRef) (p : Bytes) :
    (s.addSendPacket r p).mxSa2Session = s.mxSa2Session :=
  (addSendPacket_sends s r p).mxSa2Session

theorem mxSocketId2session_addSendPacket (s : Rpc.State Addr) (r : SessionRef) (p : Bytes) :
    (s.addSendPacket r p).mxSocketId2session = s.mxSocketId2session :=
  (addSendPacket_sends s r p).mxSocketId2session

end Rpc

/-! ## Turns -/

namespace Network

variable {Addr B : Type} [LinearOrder Addr] {net : Network Addr B} {c : Codec Addr B}
  {I : (Nat → NodeState Addr) → Prop}

/-- A handler outside the RPC service that hands on one message. -/
theorem leads_react {i : Nat} {content out : Content Addr B}
    (h : net.react c i content = .ok [out]) :
    Mailbox.Leads (net.handle c) I ⟨i, content⟩ ⟨i, out⟩ := by
  intro s hI
  cases content with
  | sendPacket a d e => cases h
  | passPacket sid e => cases h
  | _ => simp [handle, h, hI]

/-- What a state change of node `i` has to keep. -/
def Stable (I : (Nat → NodeState Addr) → Prop) : Prop :=
  ∀ (s : Nat → NodeState Addr) (i : Nat) (r : SessionRef) (esi : Esi Addr) (p : Bytes),
    I s → Holds (s i).rpc r esi →
      I (Function.update s i ⟨(s i).rpc.addSendPacket r p, (s i).sockIdGen⟩)

omit [LinearOrder Addr] in
theorem transmitted_addSendPacket {i : Nat} {s : Rpc.State Addr} {r : SessionRef}
    {esi : Esi Addr} (h : Holds s r esi) (p : Bytes) :
    net.transmitted i s (s.addSendPacket r p) =
      (net.transmit i (.sendPacket r esi p)).toList := by
  rw [transmitted, trace_addSendPacket h, List.drop_left]
  cases hOut : net.transmit i (.sendPacket r esi p) <;> simp [hOut]

/-- An event sent over a connection that is up. -/
theorem leads_sendPacket (hStable : Stable I) {i : Nat} {a : Addr} {d : ServiceId}
    {e : Event Addr B} {esi : Esi Addr} {p : Bytes} {out : Msg Addr B}
    (hUp : ∀ s, I s → ∃ r, (s i).rpc.mxSa2Session.lookup a = some r ∧ Holds (s i).rpc r esi)
    (hPack : Rpc.State.packSend (packEvent c) d e = .ok p)
    (hOut : ∀ r, net.transmit i (.sendPacket r esi p) = some out) :
    Mailbox.Leads (net.handle c) I ⟨i, .sendPacket a d e⟩ out := by
  intro s hI
  obtain ⟨r, hFound, hHolds⟩ := hUp s hI
  have hDone : (s i).rpc.onSendPacket (packEvent c) id (getSocketId (s i).sockIdGen) a d e =
      (s i).rpc.addSendPacket r p := by
    simp only [Rpc.State.onSendPacket, hFound, hPack, Rpc.State.packAndAdd]
  simp only [handle, hDone, hFound, Option.isSome_some, if_true]
  refine ⟨?_, hStable s i r esi p hI hHolds⟩
  rw [transmitted_addSendPacket hHolds, hOut]
  rfl

/-- An event passed back over a connection that is up. -/
theorem leads_passPacket (hStable : Stable I) {i : Nat} {sid : SocketId}
    {e : Event Addr B} {esi : Esi Addr} {p : Bytes} {out : Msg Addr B}
    (hUp : ∀ s, I s → ∃ r, (s i).rpc.mxSocketId2session.lookup sid = some r ∧
      Holds (s i).rpc r esi)
    (hPack : Rpc.State.packPass (packEvent c) e = .ok p)
    (hOut : ∀ r, net.transmit i (.sendPacket r esi p) = some out) :
    Mailbox.Leads (net.handle c) I ⟨i, .passPacket sid e⟩ out := by
  intro s hI
  obtain ⟨r, hFound, hHolds⟩ := hUp s hI
  have hDone : (s i).rpc.onPassPacket (packEvent c) sid e =
      (s i).rpc.addSendPacket r p := by
    simp only [Rpc.State.onPassPacket, hFound, hPack]
  simp only [handle, hDone]
  refine ⟨?_, hStable s i r esi p hI hHolds⟩
  rw [transmitted_addSendPacket hHolds, hOut]
  rfl

end Network

end Megatron.Dfs
