import Mathlib.Data.List.Destutter
import Megatron.Dfs.Network

/-!
# A request to the top of the cloud, and its answer

A chain of nodes, each the uplink of the one before, the last the top server.
A `ToplinkDeliverREQ` handed to the first referrer climbs the chain, every
receiver pushing the way back onto its route; the answer built at the top pops
the route and comes back through the same nodes.

The route of the request names the first referrer and, behind it, whatever
route the originator gave the request itself.  When that is empty, the carried
answer is unpacked at the first node and passed on its own route; otherwise
the `ToplinkDeliverRSP` is passed on with the answer still packed.

## Main results

* `climb`, `descend` — the two halves, by induction on the number of hops.
* `toplink_roundtrip` — the whole journey, in every run that keeps the
  connections up.
-/

namespace Megatron.Dfs

open Megatron.Corelib Megatron.Rpc Megatron.Lib

variable {Addr B : Type}

/-! ## Chains of nodes -/

/-- Nodes `0 … top`, each the uplink of the one before. `up i` is the socket of
node `i` towards node `i + 1`, `down i` the other end. -/
structure Chain (net : Network Addr B) (top : Nat) where
  addr : Nat → Addr
  up : Nat → Esi Addr
  down : Nat → Esi Addr
  isTop : (net.node top).mIsTopServer = true
  notTop : ∀ i < top, (net.node i).mIsTopServer = false
  uplink : ∀ i < top, (net.node i).uplink = some (addr i)
  requested : ∀ i < top, (up i).requestForConnect = some (addr i)
  wireUp : ∀ i < top, net.wire i (up i).mId = some (i + 1, .accepted, down i)
  wireDown : ∀ i < top, net.wire (i + 1) (down i).mId = some (i, .connected, up i)
  cookies : ∀ i ≤ top, ∀ j ≤ top,
    (net.node i).globalCookie = (net.node j).globalCookie → i = j

namespace Chain

variable {net : Network Addr B} {top : Nat} (ch : Chain net top)

/-! ## The request on its way -/

/-- The route of the request at the referrer of node `i`; `own` is the route
the originator gave it. -/
def routeAt (own : RouteT) : Nat → RouteT
  | 0 => .localService ServiceEnum.dfsReferrer :: own
  | i + 1 => .localService ServiceEnum.dfsReferrer :: .remoteAddr (ch.down i).mId ::
      routeAt own i

/-- The cookies in it when it is sent on: handler and sender both insert. -/
def uuidFrom (net : Network Addr B) (uuid : Finset GlobalCookie) (i : Nat) :
    Finset GlobalCookie :=
  insert (net.node i).globalCookie (insert (net.node i).globalCookie uuid)

/-- The cookies in it at the referrer of node `i`. -/
def uuidAt (net : Network Addr B) : Nat → Finset GlobalCookie
  | 0 => ∅
  | i + 1 => received (uuidFrom net (uuidAt net i) i)

/-- The request at the referrer of node `i`. -/
def requestAt (own : RouteT) (destination : ServiceId) (eventData : Bytes) (i : Nat) :
    ToplinkDeliverREQ :=
  ⟨ch.routeAt own i, destination, eventData, uuidAt net i⟩

/-- The request as node `i` sends it on. -/
def forwardedAt (own : RouteT) (destination : ServiceId) (eventData : Bytes) (i : Nat) :
    ToplinkDeliverREQ :=
  { ch.requestAt own destination eventData i with uuid := uuidFrom net (uuidAt net i) i }

/-- The request as it comes to the referrer of node `i`. -/
def upAt (own : RouteT) (destination : ServiceId) (eventData : Bytes) : Nat → Msg Addr B
  | 0 => ⟨0, .event ServiceEnum.dfsReferrer (ch.requestAt own destination eventData 0).event⟩
  | i + 1 => ⟨i + 1, .incomingOnAcceptor ServiceEnum.dfsReferrer (ch.down i)
      (ch.requestAt own destination eventData (i + 1)).event⟩

/-- The answer as it comes to the referrer of node `i`, with the rest of the
route the request had there. -/
def downAt (own : RouteT) (rspData : Bytes) (i : Nat) : Msg Addr B :=
  ⟨i, if i = top then
      .event ServiceEnum.dfsReferrer ⟨(ch.routeAt own i).tail, .toplinkDeliverRSP rspData⟩
    else .incomingOnConnector ServiceEnum.dfsReferrer (ch.up i) (ch.addr i)
      ⟨(ch.routeAt own i).tail, .toplinkDeliverRSP rspData⟩⟩

theorem length_routeAt (own : RouteT) (i : Nat) :
    (ch.routeAt own i).length = own.length + 2 * i + 1 := by
  induction i with
  | zero => simp [routeAt]
  | succ i ih =>
      simp only [routeAt, List.length_cons, ih]
      omega

theorem packable_routeAt {own : RouteT} (hOwn : Packable own) (i : Nat) :
    Packable (ch.routeAt own i) := by
  intro id hMem
  induction i with
  | zero => simp [routeAt, hOwn id] at hMem
  | succ i ih => exact ih (by simpa [routeAt] using hMem)

theorem fits_routeAt {own : RouteT} (hOwn : ∀ e ∈ own, e.Fits) {i : Nat}
    (hLen : own.length + 2 * i + 1 < 2 ^ 64) : RouteFits (ch.routeAt own i) := by
  refine ⟨by rwa [length_routeAt], ?_⟩
  clear hLen
  have hName : (Route.localService ServiceEnum.dfsReferrer).Fits := by
    show (11 : Nat) < 2 ^ 64
    decide
  induction i with
  | zero => exact List.forall_mem_cons.2 ⟨hName, hOwn⟩
  | succ i ih => exact List.forall_mem_cons.2 ⟨hName, List.forall_mem_cons.2 ⟨trivial, ih⟩⟩

/-- The cookies in the request are those of the nodes behind it. -/
theorem mem_uuidAt {x : GlobalCookie} {i : Nat} (h : x ∈ uuidAt net i) :
    ∃ j < i, x = (net.node j).globalCookie := by
  induction i with
  | zero => simp [uuidAt] at h
  | succ i ih =>
      have hMem := received_subset _ h
      rw [uuidFrom, Finset.insert_idem, Finset.mem_insert] at hMem
      rcases hMem with rfl | hMem
      · exact ⟨i, Nat.lt_succ_self i, rfl⟩
      · obtain ⟨j, hj, rfl⟩ := ih hMem
        exact ⟨j, Nat.lt_succ_of_lt hj, rfl⟩

include ch in
/-- No node of the chain meets its own cookie. -/
theorem cookie_not_mem {i : Nat} (hi : i ≤ top) :
    (net.node i).globalCookie ∉ uuidAt net i := by
  intro hMem
  obtain ⟨j, hj, hEq⟩ := mem_uuidAt hMem
  have := ch.cookies i hi j (by omega) hEq
  omega

theorem length_of_mem_uuidAt {x : GlobalCookie} {i : Nat} (h : x ∈ uuidAt net i) :
    x.length = 8 := by
  obtain ⟨j, -, rfl⟩ := mem_uuidAt h
  exact (net.node j).length_globalCookie

/-! ## The connections -/

variable [LinearOrder Addr]

/-- Every connection of the chain is up: both ends have their session. -/
def Connected (s : Nat → NodeState Addr) : Prop :=
  ∀ i < top,
    (∃ r, (s i).rpc.mxSa2Session.lookup (ch.addr i) = some r ∧ Holds (s i).rpc r (ch.up i)) ∧
    ∃ r, (s (i + 1)).rpc.mxSocketId2session.lookup (ch.down i).mId = some r ∧
      Holds (s (i + 1)).rpc r (ch.down i)

theorem stable_connected : Network.Stable ch.Connected := by
  intro s j r esi p hUp hHolds i hi
  obtain ⟨⟨r₁, hFound₁, hHolds₁⟩, r₂, hFound₂, hHolds₂⟩ := hUp i hi
  refine ⟨⟨r₁, ?_⟩, r₂, ?_⟩
  · by_cases hj : i = j
    · subst hj
      rw [Function.update_self, mxSa2Session_addSendPacket]
      exact ⟨hFound₁, holds_addSendPacket hHolds hHolds₁⟩
    · rw [Function.update_of_ne hj]
      exact ⟨hFound₁, hHolds₁⟩
  · by_cases hj : i + 1 = j
    · subst hj
      rw [Function.update_self, mxSocketId2session_addSendPacket]
      exact ⟨hFound₂, holds_addSendPacket hHolds hHolds₂⟩
    · rw [Function.update_of_ne hj]
      exact ⟨hFound₂, hHolds₂⟩

end Chain

/-! ## Carried events -/

variable [LinearOrder Addr] (c : Codec Addr B)

/-- An event packed inside another, within the sizes a program can hold. -/
structure Carried (e : Event Addr B) (data : Bytes) : Prop where
  packed : packEvent c e = .ok data
  route : RouteFits e.route
  id : e.body.id.length < 2 ^ 64
  body : e.body.RoundTrips c

/-- What was packed is what `getEvent` returns. -/
theorem Carried.getEvent {e : Event Addr B} {data : Bytes} (h : Carried c e data) :
    getEvent c data = .ok e := by
  have hReads := reads_unpackEvent c h.packed h.route h.id h.body
  obtain ⟨b, hRun⟩ := hReads.front [] (.ofBytes data) (by simp)
  simp only [Dfs.getEvent, hRun]
  rfl

/-- What comes home: the answer, or the event it is packed in when the request
had a route of its own. -/
def homecoming (own : RouteT) (answer : Event Addr B) (rspData : Bytes) : Event Addr B :=
  if own = [] then answer else ⟨own, .toplinkDeliverRSP rspData⟩

/-! ## The stages -/

section Stages

variable {net : Network Addr B} {top : Nat} (ch : Chain net top) {own : RouteT}
  {destination : ServiceId} {eventData rspData : Bytes}

/-- A referrer below the top sends the request to its uplink. -/
theorem react_upAt {i : Nat} (hi : i < top) :
    net.react c i (ch.upAt own destination eventData i).content =
      .ok [.sendPacket (ch.addr i) ServiceEnum.dfsReferrer
        (ch.forwardedAt own destination eventData i).event] := by
  have hTop := ch.notTop i hi
  have hUplink := ch.uplink i hi
  have hFresh := ch.cookie_not_mem hi.le
  cases i with
  | zero =>
      simp [Chain.upAt, Network.react, DfsReferrer.handleEvent, ToplinkDeliverREQ.event,
        Chain.requestAt, onToplinkDeliverREQ, hTop, hUplink, Chain.uuidAt, sendToplinkReq,
        sendEventTo, Chain.forwardedAt, Chain.uuidFrom]
  | succ i =>
      simp [Chain.upAt, Network.react, DfsReferrer.onIncomingOnAcceptor,
        ToplinkDeliverREQ.event, Chain.requestAt, onToplinkDeliverREQ, hTop, hUplink, hFresh,
        sendToplinkReq, sendEventTo, Chain.forwardedAt, Chain.uuidFrom]

/-- The referrer of the top server hands it to the service it is for. -/
theorem react_upAt_top (hDest : destination ≠ ServiceEnum.dfsReferrer) :
    net.react c top (ch.upAt own destination eventData top).content =
      .ok [sendEvent destination (ch.requestAt own destination eventData top).event] := by
  have hTop := ch.isTop
  have hBoth : onToplinkDeliverREQ c (net.node top)
      (ch.requestAt own destination eventData top) = fun _ =>
      .ok [sendEvent destination (ch.requestAt own destination eventData top).event] := by
    funext acc
    by_cases hCaps : destination = ServiceEnum.dfsCaps
    · simp [onToplinkDeliverREQ, hTop, Chain.requestAt, hCaps]
    · simp [onToplinkDeliverREQ, hTop, Chain.requestAt, hCaps, hDest]
  cases top with
  | zero =>
      simp only [Chain.upAt, Network.react, if_true, DfsReferrer.handleEvent,
        ToplinkDeliverREQ.event]
      exact congrFun hBoth none
  | succ top =>
      simp only [Chain.upAt, Network.react, if_true, DfsReferrer.onIncomingOnAcceptor,
        ToplinkDeliverREQ.event]
      exact congrFun hBoth (some (ch.down top))

/-- The service answers, and the answer is passed on the popped route. -/
theorem react_destination {inner : Event Addr B} {b : Body Addr B}
    (hDest : destination ≠ ServiceEnum.dfsReferrer) (hInner : Carried c inner eventData)
    (hAnswer : net.answers top destination inner.body = some b)
    (hRsp : packEvent c ⟨inner.route, b⟩ = .ok rspData) :
    net.react c top
        (sendEvent destination (ch.requestAt own destination eventData top).event) =
      .ok [(ch.downAt own rspData top).content] := by
  have hRoute : ∃ tail, ch.routeAt own top =
      .localService ServiceEnum.dfsReferrer :: tail := by
    cases top with
    | zero => exact ⟨_, rfl⟩
    | succ top => exact ⟨_, rfl⟩
  obtain ⟨tail, hRoute⟩ := hRoute
  simp [sendEvent, Network.react, hDest, Network.serve, Event.pushFront,
    ToplinkDeliverREQ.event, Chain.requestAt, serveToplink, hInner.getEvent, hAnswer,
    answerToplink, poppedFrontRoute, newToplinkDeliverRSP, hRsp, hRoute, passEvent,
    Chain.downAt, bind, Except.bind, pure, Except.pure]

/-- The answer at a referrer, whichever way it came. -/
theorem react_downAt (i : Nat) :
    net.react c i (ch.downAt own rspData i).content =
      onToplinkDeliverRSP c (ch.routeAt own i).tail rspData := by
  by_cases hi : i = top
  · simp [Chain.downAt, hi, Network.react, DfsReferrer.handleEvent]
  · simp [Chain.downAt, hi, Network.react, DfsReferrer.onIncomingOnConnector]

/-- Behind the first node the rest of the route is the way back. -/
theorem react_downAt_succ (i : Nat) :
    net.react c (i + 1) (ch.downAt own rspData (i + 1)).content =
      .ok [.passPacket (ch.down i).mId
        ⟨ch.routeAt own i, .toplinkDeliverRSP rspData⟩] := by
  rw [react_downAt]
  simp [Chain.routeAt, onToplinkDeliverRSP, passEvent, bind, Except.bind, pure, Except.pure]

/-- At the first node what comes home is passed on. -/
theorem react_downAt_zero {answer : Event Addr B} (hAnswer : Carried c answer rspData)
    {svs : ServiceId} {route : RouteT}
    (hHome : (homecoming own answer rspData).route = .localService svs :: route) :
    net.react c 0 (ch.downAt own rspData 0).content =
      .ok [.event svs { homecoming own answer rspData with route := route }] := by
  rw [react_downAt]
  by_cases hOwn : own = []
  · simp only [homecoming, hOwn, if_true] at hHome ⊢
    simp [Chain.routeAt, onToplinkDeliverRSP, hAnswer.getEvent, passEvent, hHome, bind,
      Except.bind, pure, Except.pure]
  · simp only [homecoming, hOwn, if_false] at hHome ⊢
    subst hHome
    simp [Chain.routeAt, onToplinkDeliverRSP, passEvent, bind, Except.bind, pure, Except.pure]

/-! ## One hop up, one hop down -/

/-- The sizes of what travels. -/
structure Sizes (net : Network Addr B) (top : Nat) (own : RouteT) (destination : ServiceId)
    (eventData rspData : Bytes) : Prop where
  packable : Packable own
  elements : ∀ e ∈ own, e.Fits
  route : own.length + 2 * top + 1 < 2 ^ 64
  destination : destination.length < 2 ^ 64
  eventData : eventData.length < 2 ^ 64
  rspData : rspData.length < 2 ^ 64

variable {c}

/-- The packet of node `i` is unpacked as the request at node `i + 1`. -/
theorem hop_up (hSizes : Sizes net top own destination eventData rspData) {i : Nat}
    (hi : i < top) :
    ∃ m₁ m₂ : Msg Addr B, m₁.node = i ∧ m₂.node = i + 1 ∧
      Mailbox.Leads (net.handle c) ch.Connected (ch.upAt own destination eventData i) m₁ ∧
      Mailbox.Leads (net.handle c) ch.Connected m₁ m₂ ∧
      Mailbox.Leads (net.handle c) ch.Connected m₂ (ch.upAt own destination eventData (i + 1)) := by
  let req : Event Addr B := (ch.forwardedAt own destination eventData i).event
  have hFits : RouteFits req.route := ch.fits_routeAt hSizes.elements (by
    have := hSizes.route
    omega)
  obtain ⟨r, hRoute⟩ := packRoute_ok (ch.packable_routeAt hSizes.packable i)
  obtain ⟨enc, hPack⟩ : ∃ enc, packEvent c req = .ok enc :=
    ⟨_, by
      simp only [packEvent, show req.route = ch.routeAt own i from rfl, hRoute]
      rfl⟩
  have hUuid : ∀ x ∈ Chain.uuidFrom net (Chain.uuidAt net i) i, x.length < 2 ^ 64 := by
    intro x hx
    rw [Chain.uuidFrom, Finset.insert_idem, Finset.mem_insert] at hx
    have hLen : x.length = 8 := by
      rcases hx with rfl | hx
      · exact (net.node i).length_globalCookie
      · exact Chain.length_of_mem_uuidAt hx
    omega
  have hFront : Front (unpackEvent c) enc
      ⟨req.route, .toplinkDeliverREQ destination eventData (Chain.uuidAt net (i + 1))⟩ :=
    front_unpackEvent c hPack hFits length_toplinkDeliverREQ fun b hb =>
      front_unpackBody_req c hSizes.destination hSizes.eventData hUuid hb
  have hSend : Rpc.State.packSend (packEvent c) ServiceEnum.dfsReferrer req =
      .ok (putPN 0x73 ++ putPSTR ServiceEnum.dfsReferrer ++ enc) := by
    simp only [Rpc.State.packSend, hPack]
    rfl
  refine ⟨⟨i, .sendPacket (ch.addr i) ServiceEnum.dfsReferrer req⟩,
    ⟨i + 1, .packetOnAcceptor (ch.down i)
      (putPN 0x73 ++ putPSTR ServiceEnum.dfsReferrer ++ enc)⟩, rfl, rfl, ?_, ?_, ?_⟩
  · have hNode : (ch.upAt own destination eventData i : Msg Addr B) =
        ⟨i, (ch.upAt own destination eventData i).content⟩ := by cases i <;> rfl
    rw [hNode]
    exact Network.leads_react (react_upAt c ch hi)
  · refine Network.leads_sendPacket ch.stable_connected (fun s hUp => (hUp i hi).1) hSend ?_
    intro r
    simp [Network.transmit, ch.wireUp i hi]
  · refine Network.leads_react (readPacket_front (front_onPacket_send c (by decide) hFront ?_))
    rfl

/-- The packet of node `i + 1` is unpacked as the answer at node `i`. -/
theorem hop_down (hSizes : Sizes net top own destination eventData rspData) {i : Nat}
    (hi : i < top) :
    ∃ m₁ m₂ : Msg Addr B, m₁.node = i + 1 ∧ m₂.node = i ∧
      Mailbox.Leads (net.handle c) ch.Connected (ch.downAt own rspData (i + 1)) m₁ ∧
      Mailbox.Leads (net.handle c) ch.Connected m₁ m₂ ∧
      Mailbox.Leads (net.handle c) ch.Connected m₂ (ch.downAt own rspData i) := by
  let rsp : Event Addr B := ⟨ch.routeAt own i, .toplinkDeliverRSP rspData⟩
  have hFits : RouteFits rsp.route := ch.fits_routeAt hSizes.elements (by
    have := hSizes.route
    omega)
  obtain ⟨r, hRoute⟩ := packRoute_ok (ch.packable_routeAt hSizes.packable i)
  obtain ⟨enc, hPack⟩ : ∃ enc, packEvent c rsp = .ok enc :=
    ⟨_, by
      simp only [packEvent, show rsp.route = ch.routeAt own i from rfl, hRoute]
      rfl⟩
  have hFront : Front (unpackEvent c) enc rsp := by
    have hReads := reads_unpackEvent c hPack hFits length_toplinkDeliverRSP
      (roundTrips_rsp c hSizes.rspData)
    simpa using hReads.front []
  obtain ⟨tail, hTail⟩ : ∃ tail, ch.routeAt own i =
      .localService ServiceEnum.dfsReferrer :: tail := by
    cases i with
    | zero => exact ⟨_, rfl⟩
    | succ i => exact ⟨_, rfl⟩
  have hPass : Rpc.State.packPass (packEvent c) rsp = .ok (putPN 0x70 ++ enc) := by
    simp only [Rpc.State.packPass, hPack]
    rfl
  refine ⟨⟨i + 1, .passPacket (ch.down i).mId rsp⟩,
    ⟨i, .packetOnConnector (ch.up i) (putPN 0x70 ++ enc)⟩, rfl, rfl, ?_, ?_, ?_⟩
  · exact Network.leads_react (react_downAt_succ c ch i)
  · refine Network.leads_passPacket ch.stable_connected (fun s hUp => (hUp i hi).2) hPass ?_
    intro r
    simp [Network.transmit, ch.wireDown i hi]
  · have hPopped : Front (unpackEvent c) enc
        ⟨.localService ServiceEnum.dfsReferrer :: tail, .toplinkDeliverRSP rspData⟩ := by
      rw [← hTail]
      exact hFront
    refine Network.leads_react (readPacket_front (front_onPacket_pass c hPopped ?_))
    simp [ch.requested i hi, hTail, hi.ne]

/-! ## The two legs -/

/-- The nodes a journey visits, in order. -/
def visits (l : List (Msg Addr B)) : List Nat := (l.map Msg.node).destutter (· ≠ ·)

omit [LinearOrder Addr] in
theorem visits_hop {i j : Nat} (hij : i ≠ j) {m m₁ m₂ m₃ : Msg Addr B} {l : List (Msg Addr B)}
    (h : m.node = i) (h₁ : m₁.node = i) (h₂ : m₂.node = j) (h₃ : m₃.node = j) :
    visits (m :: m₁ :: m₂ :: m₃ :: l) = i :: visits (m₃ :: l) := by
  simp [visits, List.destutter, List.destutter', h, h₁, h₂, h₃, hij]

omit [LinearOrder Addr] in
theorem node_upAt (i : Nat) : (ch.upAt own destination eventData i : Msg Addr B).node = i := by
  cases i <;> rfl

/-- **The way up**, by induction on the number of hops left. -/
theorem climb (hSizes : Sizes net top own destination eventData rspData)
    {reached : Msg Addr B} (hReached : reached.node = top)
    (hTop : Mailbox.Leads (net.handle c) ch.Connected
      (ch.upAt own destination eventData top) reached) :
    ∀ k i : Nat, i + k = top → ∃ l : List (Msg Addr B),
      (ch.upAt own destination eventData i :: l).IsChain
        (Mailbox.Leads (net.handle c) ch.Connected) ∧
      (ch.upAt own destination eventData i :: l).getLast? = some reached ∧
      visits (ch.upAt own destination eventData i :: l) = List.range' i (k + 1) := by
  intro k
  induction k with
  | zero =>
      rintro i rfl
      refine ⟨[reached], List.isChain_pair.2 hTop, rfl, ?_⟩
      simp [visits, List.destutter, List.destutter', node_upAt, hReached]
  | succ k ih =>
      intro i hi
      obtain ⟨l, hChain, hLast, hVisits⟩ := ih (i + 1) (by omega)
      obtain ⟨m₁, m₂, h₁, h₂, hL₁, hL₂, hL₃⟩ := hop_up ch hSizes (c := c) (i := i) (by omega)
      refine ⟨m₁ :: m₂ :: ch.upAt own destination eventData (i + 1) :: l, ?_, ?_, ?_⟩
      · exact .cons_cons hL₁ (.cons_cons hL₂ (.cons_cons hL₃ hChain))
      · simpa using hLast
      · rw [visits_hop (Nat.ne_of_lt (Nat.lt_succ_self i)) (node_upAt ch i) h₁ h₂
          (node_upAt ch (i + 1)), hVisits, List.range'_succ (s := i)]

/-- **The way down**, by induction on the node. -/
theorem descend (hSizes : Sizes net top own destination eventData rspData)
    {delivered : Msg Addr B} (hDelivered : delivered.node = 0)
    (hHome : Mailbox.Leads (net.handle c) ch.Connected (ch.downAt own rspData 0) delivered) :
    ∀ i : Nat, i ≤ top → ∃ l : List (Msg Addr B),
      (ch.downAt own rspData i :: l).IsChain (Mailbox.Leads (net.handle c) ch.Connected) ∧
      (ch.downAt own rspData i :: l).getLast? = some delivered ∧
      visits (ch.downAt own rspData i :: l) = (List.range (i + 1)).reverse := by
  intro i
  induction i with
  | zero =>
      intro _
      refine ⟨[delivered], List.isChain_pair.2 hHome, rfl, ?_⟩
      simp [visits, List.destutter, List.destutter', Chain.downAt, hDelivered]
  | succ i ih =>
      intro hi
      obtain ⟨l, hChain, hLast, hVisits⟩ := ih (by omega)
      obtain ⟨m₁, m₂, h₁, h₂, hL₁, hL₂, hL₃⟩ := hop_down ch hSizes (c := c) (i := i) (by omega)
      refine ⟨m₁ :: m₂ :: ch.downAt own rspData i :: l, ?_, ?_, ?_⟩
      · exact .cons_cons hL₁ (.cons_cons hL₂ (.cons_cons hL₃ hChain))
      · simpa using hLast
      · rw [visits_hop (Nat.succ_ne_self i) rfl h₁ h₂ rfl, hVisits, List.range_succ (n := i + 1),
          List.reverse_append]
        rfl

end Stages

/-! ## The whole journey -/

/-- The stages `up` and then `down` are what becomes of a request. Its route
is that of the first referrer before the route `own` of the request itself;
`delivered` is what is passed to a service in the end. -/
structure RoundTrip (c : Codec Addr B) {net : Network Addr B} {top : Nat} (ch : Chain net top)
    (own : RouteT) (destination : ServiceId) (eventData rspData : Bytes)
    (delivered : Msg Addr B) (up down : List (Msg Addr B)) : Prop where
  starts : up.head? = some ⟨0, .event ServiceEnum.dfsReferrer
    ⟨.localService ServiceEnum.dfsReferrer :: own,
      .toplinkDeliverREQ destination eventData ∅⟩⟩
  upwards : visits up = List.range (top + 1)
  answered : ∃ route uuid content,
    up.getLast? = some ⟨top, .event destination
      ⟨route, .toplinkDeliverREQ destination eventData uuid⟩⟩ ∧
    (do passEvent ⟨← poppedFrontRoute route, .toplinkDeliverRSP rspData⟩) = .ok content ∧
    down.head? = some ⟨top, content⟩
  downwards : visits down = (List.range (top + 1)).reverse
  arrives : down.getLast? = some delivered
  everyRun : ∀ (w : Mailbox (Nat → NodeState Addr) (Msg Addr B)) (t : Nat)
    (acts : List (Mailbox.Move (Nat → NodeState Addr) (Msg Addr B))),
    w.thread t = up.head?.toList →
    ((Mailbox.machine (net.handle c)).guarded (Mailbox.Undisturbed ch.Connected t)).Path w acts →
    Mailbox.turns (net.handle c) t w acts < (up ++ down).length →
    ((Mailbox.machine (net.handle c)).exec w acts).thread t =
      ((up ++ down)[Mailbox.turns (net.handle c) t w acts]?).toList
  alone : ∀ (s : Nat → NodeState Addr) (t : Nat) (request : Msg Addr B), ch.Connected s →
    up.head? = some request →
    ∃ s', ch.Connected s' ∧ (Mailbox.machine (net.handle c)).exec ⟨s, [(t, request)]⟩
      (List.replicate ((up ++ down).length - 1) (.turn 0)) = ⟨s', [(t, delivered)]⟩

/--
**A request and its answer.** Over any chain, whatever else goes on in the
cloud, the request climbs to the service it is for, the answer comes back
through the same nodes, and what comes home is passed to the service at the
front of its route.
-/
theorem toplink_roundtrip {c : Codec Addr B} {net : Network Addr B} {top : Nat}
    (ch : Chain net top) {own : RouteT} {destination : ServiceId} {eventData rspData : Bytes}
    {inner : Event Addr B} {b : Body Addr B} {svs : ServiceId} {route : RouteT}
    (hSizes : Sizes net top own destination eventData rspData)
    (hDest : destination ≠ ServiceEnum.dfsReferrer) (hInner : Carried c inner eventData)
    (hAnswer : net.answers top destination inner.body = some b)
    (hRsp : Carried c ⟨inner.route, b⟩ rspData)
    (hHome : (homecoming own ⟨inner.route, b⟩ rspData).route = .localService svs :: route) :
    ∃ up down, RoundTrip c ch own destination eventData rspData
      ⟨0, .event svs { homecoming own ⟨inner.route, b⟩ rspData with route := route }⟩
      up down := by
  have hTop : Mailbox.Leads (net.handle c) ch.Connected
      (ch.upAt own destination eventData top)
      ⟨top, sendEvent destination (ch.requestAt own destination eventData top).event⟩ := by
    have hReact : net.react c top (ch.upAt own destination eventData top).content = _ :=
      react_upAt_top c ch hDest
    have hLeads := Network.leads_react (I := ch.Connected) hReact
    cases top <;> exact hLeads
  have hTurn : Mailbox.Leads (net.handle c) ch.Connected
      ⟨top, sendEvent destination (ch.requestAt own destination eventData top).event⟩
      (ch.downAt own rspData top) :=
    Network.leads_react (react_destination c ch hDest hInner hAnswer hRsp.packed)
  have hLast := Network.leads_react (I := ch.Connected)
    (react_downAt_zero c ch hRsp hHome)
  obtain ⟨up, hUp, hUpLast, hUpVisits⟩ := climb ch hSizes (c := c) rfl hTop top 0 (Nat.zero_add _)
  obtain ⟨down, hDown, hDownLast, hDownVisits⟩ :=
    descend ch hSizes (c := c) rfl hLast top (Nat.le_refl _)
  have hJourney : ((ch.upAt own destination eventData 0 :: up) ++
      (ch.downAt own rspData top :: down)).IsChain
        (Mailbox.Leads (net.handle c) ch.Connected) := by
    refine List.isChain_append.2 ⟨hUp, hDown, ?_⟩
    intro x hx y hy
    rw [hUpLast] at hx
    cases hx
    cases hy
    exact hTurn
  refine ⟨ch.upAt own destination eventData 0 :: up, ch.downAt own rspData top :: down, rfl,
    ?_, ?_, hDownVisits, hDownLast, ?_, ?_⟩
  · rw [hUpVisits, List.range_eq_range']
  · refine ⟨_, Chain.uuidAt net top, _, hUpLast, ?_, rfl⟩
    have hRoute : ∃ tail, ch.routeAt own top = .localService ServiceEnum.dfsReferrer :: tail := by
      cases top with
      | zero => exact ⟨_, rfl⟩
      | succ top => exact ⟨_, rfl⟩
    obtain ⟨tail, hRoute⟩ := hRoute
    simp [ToplinkDeliverREQ.event, Chain.requestAt, poppedFrontRoute, passEvent, hRoute, bind,
      Except.bind]
  · intro w t acts hAt hPath hTurns
    have := Mailbox.thread_exec hJourney acts w 0 hAt hPath (by rwa [Nat.zero_add])
    rwa [Nat.zero_add] at this
  · intro s t request hUp' hRequest
    obtain rfl : ch.upAt own destination eventData 0 = request := Option.some.inj hRequest
    obtain ⟨-, s', hUp'', hExec⟩ := Mailbox.exec_alone (t := t) _ _ s hJourney hUp'
    refine ⟨s', hUp'', hExec.trans ?_⟩
    have hEnd : (ch.upAt own destination eventData 0 ::
        (up ++ ch.downAt own rspData top :: down)).getLast? = some
          ⟨0, .event svs { homecoming own ⟨inner.route, b⟩ rspData with route := route }⟩ := by
      rw [← List.cons_append, List.getLast?_append_of_ne_nil _ (by simp), hDownLast]
    rw [List.getLast?_eq_some_getLast (by simp)] at hEnd
    rw [← Option.some.inj hEnd]
    rfl

/-! ## A line of nodes -/

section Line

theorem reads_plainCodec {a : Nat} (ha : a < 2 ^ 64) :
    Reads plainCodec.getAddr (plainCodec.putAddr a) a := by
  have h := (reads_getPN (UInt64.ofNat a)).map UInt64.toNat
  rwa [UInt64.toNat_ofNat_of_lt' ha] at h

/-- Node `i` has address `i` and its uplink at `i + 1`. -/
def line (top : Nat) : Network Nat Empty where
  node i := ⟨List.replicate 8 (UInt8.ofNat i), by simp, i == top, some (i + 1)⟩
  wire i sid :=
    if sid = 1 then some (i + 1, .accepted, ⟨2, none⟩)
    else some (i - 1, .connected, ⟨1, some i⟩)
  caps _ := ⟨fun _ => [7], fun _ => []⟩
  answer _ _ := none

def lineChain (top : Nat) (h : top < 256) : Chain (line top) top where
  addr i := i + 1
  up i := ⟨1, some (i + 1)⟩
  down _ := ⟨2, none⟩
  isTop := by simp [line]
  notTop i hi := by simpa [line] using hi.ne
  uplink _ _ := rfl
  requested _ _ := rfl
  wireUp _ _ := rfl
  wireDown _ _ := rfl
  cookies i hi j hj hEq := by
    have hByte : UInt8.ofNat i = UInt8.ofNat j := (List.replicate_right_inj (by decide)).1 hEq
    have hNat := congrArg UInt8.toNat hByte
    rw [UInt8.toNat_ofNat', UInt8.toNat_ofNat'] at hNat
    omega

/-- A question for `dfsCaps` whose answer is for service `X`. -/
def question : Event Nat Empty :=
  ⟨[.localService (ascii "X"), .socketRoute 9], .getReferrersREQ {5}⟩

/-- The answer. -/
def reply : Event Nat Empty :=
  ⟨[.localService (ascii "X"), .socketRoute 9], .getReferrersRSP [7]⟩

theorem carried_question : ∃ data, data.length < 2 ^ 64 ∧ Carried plainCodec question data := by
  refine ⟨putPSTR DfsCapsEventEnum.getReferrersREQ ++
    (putPN 2 ++ ((putPN 1 ++ putPSTR (ascii "X")) ++ ((putPN 4 ++ putPN 9) ++ []))) ++
    (putPN 1 ++ (putPN 5 ++ [])), by decide, ?_, ⟨by decide, ?_⟩, by decide, ?_⟩
  · simp only [packEvent, question, Body.pack, putSet, walk_singleton]
    rfl
  · intro e he
    rcases List.mem_cons.1 he with rfl | he
    · show (ascii "X").length < 2 ^ 64
      decide
    · rw [List.mem_singleton.1 he]
      trivial
  · refine roundTrips_getReferrersREQ _ (fun a ha => reads_plainCodec ?_) (by simp)
    rw [Finset.mem_singleton.1 ha]
    decide

theorem carried_reply : ∃ data, data.length < 2 ^ 64 ∧ Carried plainCodec reply data := by
  refine ⟨putPSTR DfsCapsEventEnum.getReferrersRSP ++
    (putPN 2 ++ ((putPN 1 ++ putPSTR (ascii "X")) ++ ((putPN 4 ++ putPN 9) ++ []))) ++
    (putPN 1 ++ (putPN 7 ++ [])), by decide, rfl, ⟨by decide, ?_⟩, by decide, ?_⟩
  · intro e he
    rcases List.mem_cons.1 he with rfl | he
    · show (ascii "X").length < 2 ^ 64
      decide
    · rw [List.mem_singleton.1 he]
      trivial
  · refine roundTrips_getReferrersRSP _ (fun a ha => reads_plainCodec ?_) (by simp)
    rw [List.mem_singleton.1 ha]
    decide

theorem answers_question (top : Nat) :
    (line top).answers top ServiceEnum.dfsCaps question.body = some reply.body := by
  simp only [Network.answers, if_true, question, DfsCaps.answer, DfsCaps.onGetReferrersREQ,
    Finset.singleton_ne_empty, if_false, walk_singleton]
  rfl

/-- Every session of the line is there. -/
def lineState (i : Nat) : NodeState Nat where
  rpc := { Rpc.State.initial with
    heap := fun r => if r = 0 then ⟨1, [], some ⟨1, some (i + 1)⟩⟩ else ⟨2, [], some ⟨2, none⟩⟩
    nextRef := 2
    mxSa2Session := AList.insert (i + 1) 0 ∅
    mxSocketId2session := AList.insert 2 1 ∅ }
  sockIdGen := 2

theorem connected_lineState (top : Nat) (h : top < 256) :
    (lineChain top h).Connected lineState :=
  fun _ _ => ⟨⟨0, AList.lookup_insert _, rfl, rfl⟩, 1, AList.lookup_insert _, rfl, rfl⟩

/-- Three nodes: the answer is passed to `X` with the rest of its route. -/
theorem threeNodes_roundtrip :
    (lineChain 2 (by decide)).Connected lineState ∧
    ∃ eventData rspData up down,
      RoundTrip plainCodec (lineChain 2 (by decide)) [] ServiceEnum.dfsCaps eventData rspData
        ⟨0, .event (ascii "X") ⟨[.socketRoute 9], .getReferrersRSP [7]⟩⟩ up down := by
  obtain ⟨eventData, hSize, hInner⟩ := carried_question
  obtain ⟨rspData, hSize', hRsp⟩ := carried_reply
  have hSizes : Sizes (line 2) 2 [] ServiceEnum.dfsCaps eventData rspData :=
    ⟨by simp [Packable], by simp, by decide, by decide, hSize, hSize'⟩
  obtain ⟨up, down, h⟩ := toplink_roundtrip (lineChain 2 (by decide)) hSizes (by decide) hInner
    (answers_question 2) hRsp rfl
  exact ⟨connected_lineState 2 (by decide), eventData, rspData, up, down, h⟩

/-- A request that names its sender `S` behind the referrer: the answer comes
home to `S`, still packed, and is not passed to `X`. -/
theorem own_route_keeps_packed : ∃ eventData rspData,
    Sizes (line 0) 0 [.localService (ascii "S")] ServiceEnum.dfsCaps eventData rspData ∧
    Carried plainCodec question eventData ∧ Carried plainCodec reply rspData ∧
    ∀ up down, ¬ RoundTrip plainCodec (lineChain 0 (by decide)) [.localService (ascii "S")]
      ServiceEnum.dfsCaps eventData rspData
      ⟨0, .event (ascii "X") ⟨[.socketRoute 9], .getReferrersRSP [7]⟩⟩ up down := by
  obtain ⟨eventData, hSize, hInner⟩ := carried_question
  obtain ⟨rspData, hSize', hRsp⟩ := carried_reply
  let ch : Chain (line 0) 0 := lineChain 0 (by decide)
  let own : RouteT := [.localService (ascii "S")]
  refine ⟨eventData, rspData, ⟨by simp [Packable], ?_, by decide, by decide, hSize, hSize'⟩,
    hInner, hRsp, ?_⟩
  · intro e he
    rw [List.mem_singleton.1 he]
    show (ascii "S").length < 2 ^ 64
    decide
  intro up down h
  -- the four stages of this request; none is an event for `X`
  let m₀ : Msg Nat Empty := ch.upAt own ServiceEnum.dfsCaps eventData 0
  let m₁ : Msg Nat Empty :=
    ⟨0, sendEvent ServiceEnum.dfsCaps (ch.requestAt own ServiceEnum.dfsCaps eventData 0).event⟩
  let m₂ : Msg Nat Empty := ch.downAt own rspData 0
  let m₃ : Msg Nat Empty := ⟨0, .event (ascii "S") ⟨[], .toplinkDeliverRSP rspData⟩⟩
  have h₀ : Mailbox.Leads ((line 0).handle plainCodec) ch.Connected m₀ m₁ :=
    Network.leads_react (react_upAt_top plainCodec ch (by decide))
  have h₁ : Mailbox.Leads ((line 0).handle plainCodec) ch.Connected m₁ m₂ :=
    Network.leads_react (react_destination plainCodec ch (by decide) hInner
      (answers_question 0) hRsp.packed)
  have hHome : (homecoming own reply rspData).route = [.localService (ascii "S")] := rfl
  have h₂ : Mailbox.Leads ((line 0).handle plainCodec) ch.Connected m₂ m₃ :=
    Network.leads_react (react_downAt_zero plainCodec ch hRsp hHome)
  have hEnd : ∀ (n : Nat) (s : Nat → NodeState Nat),
      ((Mailbox.machine ((line 0).handle plainCodec)).exec ⟨s, [(0, m₃)]⟩
        (List.replicate (n + 1) (.turn 0))).inFlight = [] := by
    intro n s
    have hDone : (Mailbox.machine ((line 0).handle plainCodec)).apply ⟨s, [(0, m₃)]⟩ (.turn 0) =
        ⟨s, []⟩ := rfl
    rw [List.replicate_succ, Lib.Machine.exec_cons, hDone]
    induction n with
    | zero => rfl
    | succ n ih => exact ih
  obtain ⟨s', -, hExec⟩ := h.alone lineState 0 m₀ (connected_lineState 0 (by decide)) h.starts
  have hPassed := congrArg Mailbox.inFlight hExec
  have hStage : ∀ m ∈ [m₀, m₁, m₂, m₃], m ≠
      ⟨0, .event (ascii "X") ⟨[.socketRoute 9], .getReferrersRSP [7]⟩⟩ := by
    intro m hm hEq
    subst hEq
    simp only [List.mem_cons, List.not_mem_nil, or_false] at hm
    rcases hm with hm | hm | hm | hm
    all_goals exact absurd (congrArg Msg.content hm) (by
      intro hContent
      cases hContent)
  generalize (up ++ down).length - 1 = k at hPassed
  have hChain : [m₀, m₁, m₂, m₃].IsChain
      (Mailbox.Leads ((line 0).handle plainCodec) ch.Connected) :=
    .cons_cons h₀ (.cons_cons h₁ (.cons_cons h₂ (.singleton m₃)))
  have hAlone : ∀ l : List (Msg Nat Empty),
      (m₀ :: l).IsChain (Mailbox.Leads ((line 0).handle plainCodec) ch.Connected) →
      ∃ s', (Mailbox.machine ((line 0).handle plainCodec)).exec ⟨lineState, [(0, m₀)]⟩
        (List.replicate l.length (.turn 0)) = ⟨s', [(0, (m₀ :: l).getLast (by simp))]⟩ := by
    intro l hl
    obtain ⟨-, s₁, -, hRun⟩ := Mailbox.exec_alone (t := 0) l m₀ lineState hl
      (connected_lineState 0 (by decide))
    exact ⟨s₁, hRun⟩
  rcases k with _ | _ | _ | _ | n
  · exact hStage m₀ (by simp) (by simpa using hPassed)
  · obtain ⟨s₁, hRun⟩ := hAlone [m₁] (hChain.take 2)
    rw [show List.replicate (0 + 1) _ = List.replicate [m₁].length _ from rfl, hRun] at hPassed
    exact hStage m₁ (by simp) (by simpa using hPassed)
  · obtain ⟨s₂, hRun⟩ := hAlone [m₁, m₂] (hChain.take 3)
    rw [show List.replicate (0 + 1 + 1) _ = List.replicate [m₁, m₂].length _ from rfl, hRun]
      at hPassed
    exact hStage m₂ (by simp) (by simpa using hPassed)
  · obtain ⟨s₃, hRun⟩ := hAlone [m₁, m₂, m₃] hChain
    rw [show List.replicate (0 + 1 + 1 + 1) _ = List.replicate [m₁, m₂, m₃].length _ from rfl,
      hRun] at hPassed
    exact hStage m₃ (by simp) (by simpa using hPassed)
  · -- the answer is at home, and the turns behind it find nothing
    obtain ⟨s₃, hRun⟩ := hAlone [m₁, m₂, m₃] hChain
    have hLast : [m₀, m₁, m₂, m₃].getLast (List.cons_ne_nil _ _) = m₃ := rfl
    rw [show n + 1 + 1 + 1 + 1 = [m₁, m₂, m₃].length + (n + 1) by simp; omega,
      List.replicate_add, Lib.Machine.exec_append, hRun, hLast, hEnd] at hPassed
    cases hPassed

end Line

end Megatron.Dfs
