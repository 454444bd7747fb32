import Mathlib.Data.Fintype.Card
import Megatron.Dfs.Network

/-!
# Requests do not run in circles

A cloud of referrers whose uplinks change as they like, in circles or not.  A
`ToplinkDeliverREQ` is forwarded from uplink to uplink until a top server hands
it to the service it is for; on its way it collects the cookies of the nodes
that forwarded it, and a node that finds its own closes the connection it came
over.  The cookies travel packed inside the request, in a set whose size is
written as an `unsigned int`.

The requests in flight are numbered.  A packet that is sent comes to one node,
over one of its sockets, or is lost.

## Main results

* `handles_handleRequest` — what a referrer does with a request.
* `travel_sendEventTo` — a request that is sent comes to one node, one hop
  longer, or to none.
* `loop_free` — no request is forwarded twice by a node or handed on twice,
  with fewer than `2 ^ 32` nodes below the top.
* `ring_circles` — with `2 ^ 32` of them one can be.
-/

namespace Megatron.Dfs

open Megatron.Corelib Megatron.Rpc Megatron.Lib

variable {ι Addr B : Type}

/-! ## The cloud -/

/-- What stays of the nodes of a cloud: no two have the same cookie. -/
structure Cloud (ι : Type) where
  globalCookie : ι → GlobalCookie
  length_globalCookie : ∀ i, (globalCookie i).length = 8
  distinct : Function.Injective globalCookie
  mIsTopServer : ι → Bool

/-- Node `i` while its uplink is `uplink`. -/
def Cloud.node (cl : Cloud ι) (i : ι) (uplink : Option Addr) : Node Addr :=
  ⟨cl.globalCookie i, cl.length_globalCookie i, cl.mIsTopServer i, uplink⟩

/-- A request that has come to a referrer, on an acceptor or from a service of
the node. -/
structure Arrival (ι Addr : Type) where
  tag : Nat
  node : ι
  acc : Option (Esi Addr)
  req : ToplinkDeliverREQ

/-- What is seen of a request. -/
inductive Mark (ι : Type) where
  | forwarded (tag : Nat) (node : ι)
  | handed (tag : Nat) (node : ι) (svs : ServiceId)
  deriving DecidableEq

/-- The end of a connection a packet comes out of. -/
structure Peer (ι Addr : Type) where
  node : ι
  streamType : Socket.StreamType
  esi : Esi Addr

/-- The requests in flight, how many there have been, and what was seen. -/
structure CloudState (ι Addr : Type) where
  arrivals : List (Arrival ι Addr)
  issued : Nat
  log : List (Mark ι)

/-- What can happen next. A turn names the uplink the node has at that moment,
and where the packet it sends comes out. -/
inductive CloudMove (ι Addr : Type) where
  | fromService (i : ι) (req : ToplinkDeliverREQ)
  | fromBrowser (i : ι) (esi : Esi Addr) (req : ToplinkDeliverREQ)
  | own (i : ι) (uplink : Addr) (req : ToplinkDeliverREQ) (peer : Option (Peer ι Addr))
  | turn (k : Nat) (uplink : Option Addr) (peer : Option (Peer ι Addr))

/-- The sizes a program can hold, with room for the route to grow by so many
hops. -/
structure ToplinkDeliverREQ.Fits (req : ToplinkDeliverREQ) (hops : Nat) : Prop where
  elements : ∀ e ∈ req.route, e.Fits
  route : req.route.length + 2 * hops < 2 ^ 64
  destination : req.destinationService.length < 2 ^ 64
  eventData : req.eventData.length < 2 ^ 64

/-- What is seen when node `i` hands on a message. -/
def mark? (tag : Nat) (i : ι) : Content Addr B → Option (Mark ι)
  | .sendPacket _ _ _ => some (.forwarded tag i)
  | .event svs _ => some (.handed tag i svs)
  | _ => none

/-- A request among what the RPC service of node `j` hands on. -/
def arrival? (tag : Nat) (j : ι) : Content Addr B → Option (Arrival ι Addr)
  | .incomingOnAcceptor svs esi e =>
      if svs = ServiceEnum.dfsReferrer then
        match e.body with
        | .toplinkDeliverREQ destinationService eventData uuid =>
            some ⟨tag, j, some esi, ⟨e.route, destinationService, eventData, uuid⟩⟩
        | _ => none
      else none
  | _ => none

section

variable [LinearOrder Addr] (c : Codec Addr B)

/-- What becomes of a message a referrer hands on; a connector takes no
requests. -/
def travel (tag : Nat) (peer : Option (Peer ι Addr)) : Content Addr B → List (Arrival ι Addr)
  | .sendPacket _ destination ev =>
      match peer, Rpc.State.packSend (packEvent c) destination ev with
      | some p, .ok buf =>
          match p.streamType, onPacketOnAcceptor c p.esi buf with
          | .accepted, .ok out => out.filterMap (arrival? tag p.node)
          | _, _ => []
      | _, _ => []
  | _ => []

/-- The messages a referrer hands on for a request. -/
def CloudState.sends (s : CloudState ι Addr) (tag : Nat) (i : ι) (peer : Option (Peer ι Addr))
    (out : List (Content Addr B)) : CloudState ι Addr where
  arrivals := s.arrivals ++ out.flatMap (travel c tag peer)
  issued := s.issued
  log := s.log ++ out.filterMap (mark? tag i)

namespace Cloud

variable (cl : Cloud ι)

/-- The handler a request meets. -/
def handleRequest (x : Arrival ι Addr) (uplink : Option Addr) :
    Except CommonError (List (Content Addr B)) :=
  match x.acc with
  | none => DfsReferrer.handleEvent c (cl.node x.node uplink) x.req.event
  | some esi => DfsReferrer.onIncomingOnAcceptor c (cl.node x.node uplink) esi x.req.event

def enabled [Fintype ι] (s : CloudState ι Addr) : CloudMove ι Addr → Prop
  | .fromService _ req => req.uuid = ∅ ∧ req.Fits (Fintype.card ι)
  | .fromBrowser _ _ req => req.uuid = ∅ ∧ req.Fits (Fintype.card ι)
  | .own _ _ req _ => req.uuid = ∅ ∧ req.Fits (Fintype.card ι) ∧
      req.destinationService = ServiceEnum.dfsCaps
  | .turn k _ _ => k < s.arrivals.length

def apply (s : CloudState ι Addr) : CloudMove ι Addr → CloudState ι Addr
  | .fromService i req =>
      { s with arrivals := s.arrivals ++ [⟨s.issued, i, none, req⟩], issued := s.issued + 1 }
  | .fromBrowser i esi req =>
      { s with arrivals := s.arrivals ++ [⟨s.issued, i, some esi, req⟩], issued := s.issued + 1 }
  | .own i uplink req peer =>
      { s with issued := s.issued + 1 }.sends c s.issued i peer
        (sendToplinkReq (cl.node i (some uplink)) uplink req)
  | .turn k uplink peer =>
      match s.arrivals[k]? with
      | none => s
      | some x =>
          match cl.handleRequest c x uplink with
          | .ok out =>
              { s with arrivals := s.arrivals.eraseIdx k }.sends c x.tag x.node peer out
          | .error _ => { s with arrivals := s.arrivals.eraseIdx k }

/-- A cloud under any order of deliveries. -/
def machine [Fintype ι] : Machine (CloudState ι Addr) (CloudMove ι Addr) where
  init s := s = ⟨[], 0, []⟩
  enabled := enabled
  apply := cl.apply c

end Cloud

end

/-! ## What is seen of a request -/

/-- The nodes that forwarded it, in order. -/
def hops (t : Nat) (log : List (Mark ι)) : List ι :=
  log.filterMap fun
    | .forwarded tag i => if tag = t then some i else none
    | _ => none

/-- Where it was handed to a service, and to which. -/
def handings (t : Nat) (log : List (Mark ι)) : List (ι × ServiceId) :=
  log.filterMap fun
    | .handed tag i svs => if tag = t then some (i, svs) else none
    | _ => none

section Marks

variable {t tag : Nat} {i : ι} {svs : ServiceId} {log log' : List (Mark ι)}

@[simp] theorem hops_nil : hops t ([] : List (Mark ι)) = [] := rfl

@[simp] theorem handings_nil : handings t ([] : List (Mark ι)) = [] := rfl

@[simp] theorem hops_append : hops t (log ++ log') = hops t log ++ hops t log' := by
  simp [hops]

@[simp] theorem handings_append :
    handings t (log ++ log') = handings t log ++ handings t log' := by
  simp [handings]

@[simp] theorem hops_forwarded :
    hops t [Mark.forwarded tag i] = if tag = t then [i] else [] := by
  by_cases h : tag = t <;> simp [hops, h]

@[simp] theorem hops_handed : hops t [Mark.handed tag i svs] = [] := by
  simp [hops]

@[simp] theorem handings_forwarded : handings t [Mark.forwarded tag i] = [] := by
  simp [handings]

@[simp] theorem handings_handed :
    handings t [Mark.handed tag i svs] = if tag = t then [(i, svs)] else [] := by
  by_cases h : tag = t <;> simp [handings, h]

end Marks

/-- No node forwards a request twice, it is handed on once at most, at a top
server, and it makes as many hops as there are nodes at most. -/
structure LoopFree [Fintype ι] (cl : Cloud ι) (s : CloudState ι Addr) : Prop where
  once : ∀ t, (hops t s.log).Nodup
  below : ∀ t, ∀ i ∈ hops t s.log, cl.mIsTopServer i = false
  handed : ∀ t, (handings t s.log).length ≤ 1
  atTop : ∀ t, ∀ x ∈ handings t s.log, cl.mIsTopServer x.1 = true
  bounded : ∀ t, (hops t s.log).length ≤ Fintype.card ι

/-! ## One hop -/

/-- A set of fewer than `2 ^ 32` elements comes back whole. -/
theorem received_of_card_lt {α : Type} [LinearOrder α] {s : Finset α} (h : s.card < 2 ^ 32) :
    received s = s := by
  have hAll : (walk s).take (s.card % 2 ^ 32) = walk s := by
    rw [Nat.mod_eq_of_lt h]
    exact List.take_of_length_le (by rw [length_walk])
  rw [received, hAll, toFinset_walk]

/-- The request as it comes out of the socket `esi`. -/
def ToplinkDeliverREQ.arrived (req : ToplinkDeliverREQ) (esi : Esi Addr) : ToplinkDeliverREQ :=
  { req with
    route := .localService ServiceEnum.dfsReferrer :: .remoteAddr esi.mId :: req.route
    uuid := received req.uuid }

namespace ToplinkDeliverREQ.Fits

variable {req : ToplinkDeliverREQ} {m n : Nat}

theorem le (h : req.Fits n) (hm : m ≤ n) : req.Fits m :=
  ⟨h.elements, lt_of_le_of_lt (by omega) h.route, h.destination, h.eventData⟩

theorem withUuid (h : req.Fits n) (uuid : Finset GlobalCookie) :
    ToplinkDeliverREQ.Fits { req with uuid := uuid } n :=
  ⟨h.elements, h.route, h.destination, h.eventData⟩

/-- A hop takes the room of a hop. -/
theorem arrived (h : req.Fits (n + 1)) (esi : Esi Addr) : (req.arrived esi).Fits n := by
  have hName : (Route.localService ServiceEnum.dfsReferrer).Fits := by
    show (11 : Nat) < 2 ^ 64
    decide
  have hRoute := h.route
  refine ⟨?_, ?_, h.destination, h.eventData⟩
  · exact List.forall_mem_cons.2 ⟨hName, List.forall_mem_cons.2 ⟨trivial, h.elements⟩⟩
  · simp only [ToplinkDeliverREQ.arrived, List.length_cons]
    omega

end ToplinkDeliverREQ.Fits

/-- The handling of a request at node `i`, by what it hands on. -/
inductive Handles (cl : Cloud ι) (i : ι) (req : ToplinkDeliverREQ) :
    List (Content Addr B) → Prop
  | stops {out} (h : out = [] ∨ ∃ esi reason, out = [.close esi reason]) : Handles cl i req out
  | hands (svs e) (hTop : cl.mIsTopServer i = true) : Handles cl i req [.event svs e]
  | forwards (uplink) (hTop : cl.mIsTopServer i = false)
      (hNew : cl.globalCookie i ∉ req.uuid) :
      Handles cl i req [sendEventTo uplink ServiceEnum.dfsReferrer
        { req with uuid := insert (cl.globalCookie i) req.uuid }.event]

section Hop

variable [LinearOrder Addr] {c : Codec Addr B} {cl : Cloud ι}

/-- Below the top a request is sent on, its way closed, or it is dropped with
an error. -/
theorem onToplinkDeliverREQ_below {i : ι} {uplink : Option Addr} {req : ToplinkDeliverREQ}
    {acc : Option (Esi Addr)} {out : List (Content Addr B)} (hTop : cl.mIsTopServer i = false)
    (h : onToplinkDeliverREQ c (cl.node i uplink) req acc = .ok out) :
    (∃ esi, out = [.close esi "ciclic uuid"]) ∨
      cl.globalCookie i ∉ req.uuid ∧ ∃ a, out = [sendEventTo a ServiceEnum.dfsReferrer
        { req with uuid := insert (cl.globalCookie i) req.uuid }.event] := by
  -- what happens once the cookie is known to be new
  have hSent : ∀ (a : Addr), (Except.ok (sendToplinkReq (cl.node i (some a)) a
        { req with uuid := insert (cl.globalCookie i) req.uuid }) :
          Except CommonError (List (Content Addr B))) = .ok out →
      ∃ a, out = [sendEventTo a ServiceEnum.dfsReferrer
        { req with uuid := insert (cl.globalCookie i) req.uuid }.event] := by
    intro a hOut
    obtain rfl := Except.ok.inj hOut
    exact ⟨a, by simp [sendToplinkReq, Cloud.node, hTop]⟩
  cases acc with
  | none =>
      by_cases hEmpty : req.uuid = ∅
      · cases uplink with
        | none => simp [onToplinkDeliverREQ, Cloud.node, hTop, hEmpty] at h
        | some a =>
            refine Or.inr ⟨by simp [hEmpty], hSent a ?_⟩
            simpa [onToplinkDeliverREQ, Cloud.node, hTop, hEmpty] using h
      · simp [onToplinkDeliverREQ, Cloud.node, hTop, hEmpty] at h
  | some esi =>
      by_cases hSeen : cl.globalCookie i ∈ req.uuid
      · refine Or.inl ⟨esi, ?_⟩
        simpa [onToplinkDeliverREQ, Cloud.node, hTop, hSeen] using h.symm
      · cases uplink with
        | none => simp [onToplinkDeliverREQ, Cloud.node, hTop, hSeen] at h
        | some a =>
            refine Or.inr ⟨hSeen, hSent a ?_⟩
            simpa [onToplinkDeliverREQ, Cloud.node, hTop, hSeen] using h

theorem handles_onToplinkDeliverREQ {i : ι} {uplink : Option Addr} {req : ToplinkDeliverREQ}
    {acc : Option (Esi Addr)} {out : List (Content Addr B)}
    (h : onToplinkDeliverREQ c (cl.node i uplink) req acc = .ok out) : Handles cl i req out := by
  cases hTop : cl.mIsTopServer i with
  | true =>
      simp only [onToplinkDeliverREQ, Cloud.node, hTop, if_true] at h
      split at h
      · obtain rfl := Except.ok.inj h
        exact .hands _ _ hTop
      · split at h
        · cases hInner : getEvent c req.eventData with
          | error err => simp [hInner, bind, Except.bind] at h
          | ok z =>
              simp only [hInner, bind, Except.bind, pure, Except.pure] at h
              obtain rfl := Except.ok.inj h
              exact .hands _ _ hTop
        · obtain rfl := Except.ok.inj h
          exact .hands _ _ hTop
  | false =>
      obtain ⟨esi, rfl⟩ | ⟨hNew, a, rfl⟩ := onToplinkDeliverREQ_below hTop h
      · exact .stops (Or.inr ⟨esi, _, rfl⟩)
      · exact .forwards a hTop hNew

/-- What a referrer does with an arrival. -/
theorem handles_handleRequest {x : Arrival ι Addr} {uplink : Option Addr}
    {out : List (Content Addr B)} (h : cl.handleRequest c x uplink = .ok out) :
    Handles cl x.node x.req out := by
  cases hAcc : x.acc with
  | none =>
      simp only [Cloud.handleRequest, hAcc, DfsReferrer.handleEvent,
        ToplinkDeliverREQ.event] at h
      exact handles_onToplinkDeliverREQ h
  | some esi =>
      simp only [Cloud.handleRequest, hAcc, DfsReferrer.onIncomingOnAcceptor,
        ToplinkDeliverREQ.event] at h
      exact handles_onToplinkDeliverREQ h

omit [LinearOrder Addr] in
/-- The requests a referrer makes itself go the same way. -/
theorem handles_sendToplinkReq {i : ι} {uplink : Addr} {req : ToplinkDeliverREQ}
    (hNew : req.uuid = ∅) (hDest : req.destinationService = ServiceEnum.dfsCaps) :
    Handles cl i req
      (sendToplinkReq (cl.node i (some uplink)) uplink req : List (Content Addr B)) := by
  have hOther : ServiceEnum.dfsCaps ≠ ServiceEnum.dfsReferrer := by decide
  cases hTop : cl.mIsTopServer i with
  | true =>
      have hHands : Handles cl i req
          [(sendEvent ServiceEnum.dfsCaps req.event : Content Addr B)] := .hands _ _ hTop
      simpa [sendToplinkReq, Cloud.node, hTop, hDest, hOther, sendEvent] using hHands
  | false =>
      have hSends : Handles cl i req
          [(sendEventTo uplink ServiceEnum.dfsReferrer
            { req with uuid := insert (cl.globalCookie i) req.uuid }.event : Content Addr B)] :=
        .forwards uplink hTop (by simp [hNew])
      simpa [sendToplinkReq, Cloud.node, hTop] using hSends

/-! ## A packet on its way -/

/-- What comes out of an acceptor is the request that was sent, one hop
longer. -/
theorem readPacket_req {req : ToplinkDeliverREQ} {esi : Esi Addr} {buf : Bytes}
    (hFits : req.Fits 0) (hUuid : ∀ x ∈ req.uuid, x.length < 2 ^ 64)
    (hPack : Rpc.State.packSend (packEvent c) ServiceEnum.dfsReferrer req.event = .ok buf) :
    onPacketOnAcceptor c esi buf =
      .ok [.incomingOnAcceptor ServiceEnum.dfsReferrer esi (req.arrived esi).event] := by
  cases hEvent : packEvent c req.event with
  | error err => simp [Rpc.State.packSend, hEvent, bind, Except.bind] at hPack
  | ok enc =>
      obtain rfl : putPN 0x73 ++ putPSTR ServiceEnum.dfsReferrer ++ enc = buf := by
        simpa [Rpc.State.packSend, hEvent, bind, Except.bind, pure, Except.pure] using hPack
      have hRoute : RouteFits req.route := ⟨hFits.route, hFits.elements⟩
      have hFront := front_unpackEvent c hEvent hRoute length_toplinkDeliverREQ
        fun b hb => front_unpackBody_req c hFits.destination hFits.eventData hUuid hb
      exact readPacket_front (front_onPacket_send c (by decide) hFront rfl)

/-- A packet that carries a request arrives as that request, or not at all. -/
theorem travel_sendEventTo (tag : Nat) (peer : Option (Peer ι Addr)) (a : Addr)
    {req : ToplinkDeliverREQ} (hFits : req.Fits 0)
    (hUuid : ∀ x ∈ req.uuid, x.length < 2 ^ 64) :
    travel c tag peer (sendEventTo a ServiceEnum.dfsReferrer req.event) = [] ∨
      ∃ j esi, travel c tag peer (sendEventTo a ServiceEnum.dfsReferrer req.event) =
        [⟨tag, j, some esi, req.arrived esi⟩] := by
  cases peer with
  | none => exact Or.inl rfl
  | some p =>
      cases hPack : Rpc.State.packSend (packEvent c) ServiceEnum.dfsReferrer req.event with
      | error err => exact Or.inl (by simp [travel, sendEventTo, hPack])
      | ok buf =>
          have hRead : onPacketOnAcceptor c p.esi buf = _ := readPacket_req hFits hUuid hPack
          cases hType : p.streamType with
          | connected => exact Or.inl (by simp [travel, sendEventTo, hPack, hType])
          | accepted =>
              refine Or.inr ⟨p.node, p.esi, ?_⟩
              simp only [travel, sendEventTo, hPack, hType, hRead]
              rfl

end Hop

/-! ## What is known of the requests in flight -/

/-- The requests in flight with the number `t`. -/
def waiting (t : Nat) (l : List (Arrival ι Addr)) : List (Arrival ι Addr) :=
  l.filter (·.tag = t)

/-- The nodes that forward. -/
def Cloud.belowTop [Fintype ι] (cl : Cloud ι) : Finset ι :=
  Finset.univ.filter (cl.mIsTopServer · = false)

/-- A request in flight knows the nodes that forwarded it, and no others. -/
structure Arrival.Traced [Fintype ι] (cl : Cloud ι) (log : List (Mark ι))
    (x : Arrival ι Addr) : Prop where
  hops : ∀ i ∈ hops x.tag log, cl.globalCookie i ∈ x.req.uuid
  uuid : ∀ y ∈ x.req.uuid, ∃ i ∈ cl.belowTop, cl.globalCookie i = y
  fits : x.req.Fits (Fintype.card ι - (Dfs.hops x.tag log).length)

/-- The invariant of a cloud. -/
structure CloudInv [Fintype ι] (cl : Cloud ι) (s : CloudState ι Addr) : Prop where
  once : ∀ t, (hops t s.log).Nodup
  below : ∀ t, ∀ i ∈ hops t s.log, cl.mIsTopServer i = false
  atTop : ∀ t, ∀ x ∈ handings t s.log, cl.mIsTopServer x.1 = true
  single : ∀ t, (waiting t s.arrivals).length + (handings t s.log).length ≤ 1
  traced : ∀ x ∈ s.arrivals, x.Traced cl s.log
  fresh : ∀ t, s.issued ≤ t →
    waiting t s.arrivals = [] ∧ hops t s.log = [] ∧ handings t s.log = []

section Waiting

variable {t : Nat} {x : Arrival ι Addr} {l l' : List (Arrival ι Addr)}

@[simp] theorem waiting_nil : waiting t ([] : List (Arrival ι Addr)) = [] := rfl

@[simp] theorem waiting_append : waiting t (l ++ l') = waiting t l ++ waiting t l' := by
  simp [waiting]

@[simp] theorem waiting_singleton : waiting t [x] = if x.tag = t then [x] else [] := by
  by_cases h : x.tag = t <;> simp [waiting, h]

theorem tag_ne_of_waiting_nil (h : waiting t l = []) (hMem : x ∈ l) : x.tag ≠ t := by
  intro hTag
  have hIn : x ∈ waiting t l := List.mem_filter.2 ⟨hMem, by simpa using hTag⟩
  rw [h] at hIn
  cases hIn

theorem length_waiting_eraseIdx_le (k : Nat) :
    (waiting t (l.eraseIdx k)).length ≤ (waiting t l).length :=
  ((List.eraseIdx_sublist l k).filter _).length_le

/-- A request that is taken out is no longer in flight. -/
theorem length_waiting_eraseIdx {k : Nat} (h : l[k]? = some x) (hTag : x.tag = t) :
    (waiting t (l.eraseIdx k)).length + 1 = (waiting t l).length := by
  obtain ⟨hk, rfl⟩ := List.getElem?_eq_some_iff.1 h
  have hPerm := ((List.getElem_cons_eraseIdx_perm hk).filter (·.tag = t)).length_eq
  simpa [waiting, hTag] using hPerm

end Waiting

section Invariant

variable [LinearOrder Addr] {c : Codec Addr B} [Fintype ι] {cl : Cloud ι}

omit [LinearOrder Addr] in
/-- What is seen of one request says nothing about the others. -/
theorem Arrival.Traced.append {log log' : List (Mark ι)} {x : Arrival ι Addr}
    (h : x.Traced cl log) (hOther : Dfs.hops x.tag log' = []) :
    x.Traced cl (log ++ log') := by
  refine ⟨?_, h.uuid, ?_⟩
  · intro i hi
    rw [hops_append, hOther, List.append_nil] at hi
    exact h.hops i hi
  · rw [hops_append, hOther, List.append_nil]
    exact h.fits

/-- Fewer cookies than nodes below the top. -/
theorem card_le_of_traced {uuid : Finset GlobalCookie}
    (h : ∀ y ∈ uuid, ∃ i ∈ cl.belowTop, cl.globalCookie i = y) :
    uuid.card ≤ cl.belowTop.card := by
  have hSub : uuid ⊆ cl.belowTop.image cl.globalCookie := fun y hy =>
    Finset.mem_image.2 (h y hy)
  exact (Finset.card_le_card hSub).trans Finset.card_image_le

theorem length_of_traced {uuid : Finset GlobalCookie}
    (h : ∀ y ∈ uuid, ∃ i ∈ cl.belowTop, cl.globalCookie i = y) :
    ∀ y ∈ uuid, y.length < 2 ^ 64 := by
  intro y hy
  obtain ⟨i, -, rfl⟩ := h y hy
  rw [cl.length_globalCookie i]
  decide

omit [LinearOrder Addr] in
/-- A request sent on is known to have come one hop further. -/
theorem traced_arrived (hCard : cl.belowTop.card < 2 ^ 32) {log : List (Mark ι)}
    {x : Arrival ι Addr} (hTraced : x.Traced cl log) (hTop : cl.mIsTopServer x.node = false)
    (hRoom : (hops x.tag log).length < Fintype.card ι) (j : ι) (esi : Esi Addr) :
    Arrival.Traced cl (log ++ [.forwarded x.tag x.node])
      ⟨x.tag, j, some esi, ToplinkDeliverREQ.arrived
        { x.req with uuid := insert (cl.globalCookie x.node) x.req.uuid } esi⟩ := by
  have hNode : x.node ∈ cl.belowTop := by simp [Cloud.belowTop, hTop]
  have hUuid : ∀ y ∈ insert (cl.globalCookie x.node) x.req.uuid,
      ∃ i ∈ cl.belowTop, cl.globalCookie i = y := by
    intro y hy
    rcases Finset.mem_insert.1 hy with rfl | hy
    · exact ⟨x.node, hNode, rfl⟩
    · exact hTraced.uuid y hy
  have hWhole := received_of_card_lt ((card_le_of_traced hUuid).trans_lt hCard)
  refine ⟨?_, ?_, ?_⟩
  · intro i hi
    simp only [ToplinkDeliverREQ.arrived, hWhole, hops_append, hops_forwarded, if_true,
      List.mem_append, List.mem_singleton] at hi ⊢
    rcases hi with hi | rfl
    · exact Finset.mem_insert_of_mem (hTraced.hops i hi)
    · exact Finset.mem_insert_self _ _
  · intro y hy
    simp only [ToplinkDeliverREQ.arrived, hWhole] at hy
    exact hUuid y hy
  · have hLeft : Fintype.card ι - (hops x.tag log).length =
        Fintype.card ι - (hops x.tag (log ++ [.forwarded x.tag x.node])).length + 1 := by
      simp only [hops_append, hops_forwarded, if_true, List.length_append, List.length_cons,
        List.length_nil]
      omega
    exact ((hLeft ▸ hTraced.fits).withUuid _).arrived esi

variable {s : CloudState ι Addr} {x : Arrival ι Addr}

omit [LinearOrder Addr] in
/-- A request that is no longer in flight is handed on. -/
theorem CloudInv.hands (h : CloudInv cl s) (hGone : waiting x.tag s.arrivals = [])
    (hUnhanded : handings x.tag s.log = []) (hIssued : x.tag < s.issued) (svs : ServiceId)
    (hTop : cl.mIsTopServer x.node = true) :
    CloudInv cl ⟨s.arrivals, s.issued, s.log ++ [.handed x.tag x.node svs]⟩ := by
  refine ⟨by simpa using h.once, by simpa using h.below, ?_, ?_, ?_, ?_⟩
  · intro t y hy
    rw [handings_append, List.mem_append] at hy
    rcases hy with hy | hy
    · exact h.atTop t y hy
    · by_cases hTag : x.tag = t
      · simp only [handings_handed, hTag, if_true, List.mem_singleton] at hy
        rw [hy]
        exact hTop
      · simp [hTag] at hy
  · intro t
    have hSingle := h.single t
    by_cases hTag : x.tag = t
    · subst hTag
      simp [hGone, hUnhanded]
    · simpa [hTag] using hSingle
  · exact fun y hy => (h.traced y hy).append hops_handed
  · intro t ht
    have hFresh := h.fresh t ht
    have hTag : x.tag ≠ t := (hIssued.trans_le ht).ne
    simpa [hTag] using hFresh

omit [LinearOrder Addr] in
/-- A request that is no longer in flight is forwarded, and arrives or not. -/
theorem CloudInv.forwards (h : CloudInv cl s) (hGone : waiting x.tag s.arrivals = [])
    (hUnhanded : handings x.tag s.log = []) (hIssued : x.tag < s.issued)
    (hTop : cl.mIsTopServer x.node = false) (hOnce : x.node ∉ hops x.tag s.log)
    {l : List (Arrival ι Addr)}
    (hSent : l = [] ∨ ∃ y : Arrival ι Addr, l = [y] ∧ y.tag = x.tag ∧
      y.Traced cl (s.log ++ [.forwarded x.tag x.node])) :
    CloudInv cl ⟨s.arrivals ++ l, s.issued, s.log ++ [.forwarded x.tag x.node]⟩ := by
  have hTag : ∀ y ∈ l, y.tag = x.tag := by
    rcases hSent with rfl | ⟨y, rfl, hTag, -⟩
    · simp
    · simpa using hTag
  have hOthers : ∀ t, x.tag ≠ t → waiting t l = [] := by
    intro t hNe
    refine List.filter_eq_nil_iff.2 fun y hy => ?_
    simpa [hTag y hy] using hNe
  refine ⟨?_, ?_, by simpa using h.atTop, ?_, ?_, ?_⟩
  · intro t
    by_cases hEq : x.tag = t
    · subst hEq
      rw [hops_append, hops_forwarded, if_pos rfl, List.nodup_append_comm]
      exact List.nodup_cons.2 ⟨hOnce, h.once x.tag⟩
    · simpa [hEq] using h.once t
  · intro t i hi
    rw [hops_append, List.mem_append] at hi
    rcases hi with hi | hi
    · exact h.below t i hi
    · by_cases hEq : x.tag = t
      · simp only [hops_forwarded, hEq, if_true, List.mem_singleton] at hi
        rw [hi]
        exact hTop
      · simp [hEq] at hi
  · intro t
    have hSingle := h.single t
    by_cases hEq : x.tag = t
    · subst hEq
      have hLen : (waiting x.tag l).length ≤ 1 := by
        refine (List.length_filter_le _ l).trans ?_
        rcases hSent with rfl | ⟨y, rfl, -⟩ <;> simp
      simpa [hGone, hUnhanded] using hLen
    · simpa [hEq, hOthers t hEq] using hSingle
  · intro y hy
    rcases List.mem_append.1 hy with hy | hy
    · refine (h.traced y hy).append ?_
      rw [hops_forwarded, if_neg (tag_ne_of_waiting_nil hGone hy).symm]
    · rcases hSent with rfl | ⟨z, rfl, -, hTraced⟩
      · cases hy
      · rwa [List.mem_singleton.1 hy]
  · intro t ht
    have hFresh := h.fresh t ht
    have hNe : x.tag ≠ t := (hIssued.trans_le ht).ne
    simpa [hNe, hOthers t hNe] using hFresh

/-- What a referrer hands on for a request keeps the invariant. -/
theorem CloudInv.sends (hCard : cl.belowTop.card < 2 ^ 32) (h : CloudInv cl s)
    (hTraced : x.Traced cl s.log) (hGone : waiting x.tag s.arrivals = [])
    (hUnhanded : handings x.tag s.log = []) (hIssued : x.tag < s.issued)
    {peer : Option (Peer ι Addr)} {out : List (Content Addr B)}
    (hHandles : Handles cl x.node x.req out) :
    CloudInv cl (s.sends c x.tag x.node peer out) := by
  cases hHandles with
  | stops hOut =>
      have hSame : s.sends c x.tag x.node peer out = s := by
        rcases hOut with rfl | ⟨esi, reason, rfl⟩ <;>
          simp [CloudState.sends, travel, mark?, List.filterMap_cons]
      rwa [hSame]
  | hands svs e hTop =>
      have hSent : s.sends c x.tag x.node peer [.event svs e] =
          ⟨s.arrivals, s.issued, s.log ++ [.handed x.tag x.node svs]⟩ := by
        simp [CloudState.sends, travel, mark?]
      rw [hSent]
      exact h.hands hGone hUnhanded hIssued svs hTop
  | forwards uplink hTop hNew =>
      let req : ToplinkDeliverREQ :=
        { x.req with uuid := insert (cl.globalCookie x.node) x.req.uuid }
      have hOnce : x.node ∉ hops x.tag s.log := fun hMem => hNew (hTraced.hops _ hMem)
      have hRoom : (hops x.tag s.log).length < Fintype.card ι := by
        have hLe := (List.nodup_cons.2 ⟨hOnce, h.once x.tag⟩).length_le_card
        rwa [List.length_cons] at hLe
      have hUuid : ∀ y ∈ req.uuid, y.length < 2 ^ 64 := by
        intro y hy
        rcases Finset.mem_insert.1 hy with rfl | hy
        · rw [cl.length_globalCookie x.node]
          decide
        · exact length_of_traced hTraced.uuid y hy
      have hFits : req.Fits 0 := (hTraced.fits.le (Nat.zero_le _)).withUuid _
      have hSent : s.sends c x.tag x.node peer
            [sendEventTo uplink ServiceEnum.dfsReferrer req.event] =
          ⟨s.arrivals ++ travel c x.tag peer
            (sendEventTo uplink ServiceEnum.dfsReferrer req.event), s.issued,
            s.log ++ [.forwarded x.tag x.node]⟩ := by
        simp [CloudState.sends, sendEventTo, mark?]
      rw [hSent]
      refine h.forwards hGone hUnhanded hIssued hTop hOnce ?_
      rcases travel_sendEventTo (c := c) x.tag peer uplink hFits hUuid with
        hLost | ⟨j, esi, hCame⟩
      · exact Or.inl hLost
      · exact Or.inr ⟨_, hCame, rfl, traced_arrived hCard hTraced hTop hRoom j esi⟩

/-! ## Every run -/

omit [LinearOrder Addr] in
/-- A new request. -/
theorem CloudInv.issue (h : CloudInv cl s) (i : ι) (acc : Option (Esi Addr))
    {req : ToplinkDeliverREQ} (hUuid : req.uuid = ∅) (hFits : req.Fits (Fintype.card ι)) :
    Arrival.Traced cl s.log ⟨s.issued, i, acc, req⟩ ∧
      CloudInv cl { s with issued := s.issued + 1 } := by
  obtain ⟨-, hHops, -⟩ := h.fresh s.issued le_rfl
  refine ⟨⟨?_, by simp [hUuid], ?_⟩, h.once, h.below, h.atTop, h.single, h.traced, ?_⟩
  · simp [hHops]
  · rw [hHops]
    exact hFits
  · exact fun t ht => h.fresh t ((Nat.le_succ _).trans ht)

omit [LinearOrder Addr] in
/-- A request that comes in. -/
theorem CloudInv.comes (h : CloudInv cl s) {i : ι} {acc : Option (Esi Addr)}
    {req : ToplinkDeliverREQ} (hUuid : req.uuid = ∅) (hFits : req.Fits (Fintype.card ι)) :
    CloudInv cl ⟨s.arrivals ++ [⟨s.issued, i, acc, req⟩], s.issued + 1, s.log⟩ := by
  obtain ⟨hTraced, hIssued⟩ := h.issue i acc hUuid hFits
  obtain ⟨hNone, -, hUnhanded⟩ := h.fresh s.issued le_rfl
  refine ⟨h.once, h.below, h.atTop, ?_, ?_, ?_⟩
  · intro t
    by_cases hTag : s.issued = t
    · subst hTag
      simp [hNone, hUnhanded]
    · simpa [hTag] using h.single t
  · intro y hy
    rcases List.mem_append.1 hy with hy | hy
    · exact h.traced y hy
    · rwa [List.mem_singleton.1 hy]
  · intro t ht
    have hTag : s.issued ≠ t := (Nat.lt_of_succ_le ht).ne
    simpa [hTag] using hIssued.fresh t ht

omit [LinearOrder Addr] in
/-- A request whose turn it is is no longer in flight. -/
theorem CloudInv.takes (h : CloudInv cl s) {k : Nat} (hTurn : s.arrivals[k]? = some x) :
    CloudInv cl { s with arrivals := s.arrivals.eraseIdx k } ∧ x.Traced cl s.log ∧
      waiting x.tag (s.arrivals.eraseIdx k) = [] ∧ handings x.tag s.log = [] ∧
      x.tag < s.issued := by
  have hMem : x ∈ s.arrivals := List.mem_of_getElem? hTurn
  have hErased := length_waiting_eraseIdx hTurn rfl
  have hSingle := h.single x.tag
  refine ⟨⟨h.once, h.below, h.atTop, ?_, ?_, ?_⟩, h.traced x hMem, ?_, ?_, ?_⟩
  · intro t
    have hLe := length_waiting_eraseIdx_le (t := t) (l := s.arrivals) k
    have hBefore := h.single t
    show (waiting t (s.arrivals.eraseIdx k)).length + (handings t s.log).length ≤ 1
    omega
  · exact fun y hy => h.traced y (List.mem_of_mem_eraseIdx hy)
  · intro t ht
    obtain ⟨hNone, hRest⟩ := h.fresh t ht
    refine ⟨?_, hRest⟩
    have hLe := length_waiting_eraseIdx_le (t := t) (l := s.arrivals) k
    rw [hNone, List.length_nil] at hLe
    exact List.length_eq_zero_iff.1 (Nat.le_zero.1 hLe)
  · exact List.length_eq_zero_iff.1 (by omega)
  · exact List.length_eq_zero_iff.1 (by omega)
  · by_contra hLate
    have hNone := (h.fresh x.tag (Nat.le_of_not_lt hLate)).1
    exact tag_ne_of_waiting_nil hNone hMem rfl

/-- One step. -/
theorem cloudInv_step (hCard : cl.belowTop.card < 2 ^ 32) (h : CloudInv cl s)
    {m : CloudMove ι Addr} (hEn : (cl.machine c).enabled s m) :
    CloudInv cl ((cl.machine c).apply s m) := by
  cases m with
  | fromService i req => exact h.comes hEn.1 hEn.2
  | fromBrowser i esi req => exact h.comes hEn.1 hEn.2
  | own i uplink req peer =>
      obtain ⟨hUuid, hFits, hDest⟩ := hEn
      obtain ⟨hTraced, hIssued⟩ := h.issue i none hUuid hFits
      obtain ⟨hNone, -, hUnhanded⟩ := h.fresh s.issued le_rfl
      exact hIssued.sends hCard hTraced hNone hUnhanded (Nat.lt_succ_self _)
        (handles_sendToplinkReq hUuid hDest)
  | turn k uplink peer =>
      cases hTurn : s.arrivals[k]? with
      | none => simpa [Cloud.machine, Cloud.apply, hTurn] using h
      | some x =>
          obtain ⟨hTaken, hTraced, hGone, hUnhanded, hIssued⟩ := h.takes hTurn
          cases hOut : cl.handleRequest c x uplink with
          | error err => simpa [Cloud.machine, Cloud.apply, hTurn, hOut] using hTaken
          | ok out =>
              have hSent : CloudInv cl (CloudState.sends c _ x.tag x.node peer out) :=
                hTaken.sends hCard hTraced hGone hUnhanded hIssued (handles_handleRequest hOut)
              simpa [Cloud.machine, Cloud.apply, hTurn, hOut] using hSent

/-- **Requests do not run in circles.** However the uplinks change and the
packets travel or are lost. -/
theorem loop_free (hCard : cl.belowTop.card < 2 ^ 32)
    (h : (cl.machine c).Reachable s) : LoopFree cl s := by
  have hInv : CloudInv cl s := by
    refine Machine.Reachable.invariant (m := cl.machine c) (I := CloudInv cl) ?_ ?_ h
    · rintro _ rfl
      refine ⟨?_, ?_, ?_, ?_, ?_, ?_⟩ <;> simp
    · exact fun _ _ hInv hEn => cloudInv_step hCard hInv hEn
  refine ⟨hInv.once, hInv.below, ?_, hInv.atTop, fun t => (hInv.once t).length_le_card⟩
  intro t
  have hSingle := hInv.single t
  omega

end Invariant

/-! ## A ring -/

section Ring

variable [LinearOrder Addr] {c : Codec Addr B} {s : CloudState ι Addr} {x : Arrival ι Addr}

/-- A request that is new to its node is forwarded, and comes to any node. -/
theorem apply_turn_forwards [Fintype ι] (c : Codec Addr B) (cl : Cloud ι) (hArrivals : s.arrivals = [x])
    (hTop : cl.mIsTopServer x.node = false) (hNew : cl.globalCookie x.node ∉ x.req.uuid)
    (hAcc : x.acc = none → x.req.uuid = ∅) (hFits : x.req.Fits 0)
    (hUuid : ∀ y ∈ x.req.uuid, y.length < 2 ^ 64) (hPackable : Packable x.req.route)
    (a : Addr) (j : ι) (esi : Esi Addr) :
    (cl.machine c).apply s (.turn 0 (some a) (some ⟨j, .accepted, esi⟩)) =
      ⟨[⟨x.tag, j, some esi, ToplinkDeliverREQ.arrived
          { x.req with uuid := insert (cl.globalCookie x.node) x.req.uuid } esi⟩],
        s.issued, s.log ++ [.forwarded x.tag x.node]⟩ := by
  let req : ToplinkDeliverREQ :=
    { x.req with uuid := insert (cl.globalCookie x.node) x.req.uuid }
  have hHandled : cl.handleRequest c x (some a) =
      .ok [sendEventTo a ServiceEnum.dfsReferrer req.event] := by
    cases hFrom : x.acc with
    | none =>
        simp [Cloud.handleRequest, hFrom, DfsReferrer.handleEvent, ToplinkDeliverREQ.event,
          onToplinkDeliverREQ, Cloud.node, hTop, hAcc hFrom, sendToplinkReq, req]
    | some esi =>
        simp [Cloud.handleRequest, hFrom, DfsReferrer.onIncomingOnAcceptor,
          ToplinkDeliverREQ.event, onToplinkDeliverREQ, Cloud.node, hTop, hNew,
          sendToplinkReq, req]
  obtain ⟨r, hRoute⟩ := packRoute_ok hPackable
  obtain ⟨buf, hPack⟩ : ∃ buf, Rpc.State.packSend (packEvent c) ServiceEnum.dfsReferrer
      req.event = .ok buf := ⟨_, by
    simp only [Rpc.State.packSend, packEvent, ToplinkDeliverREQ.event,
      show req.route = x.req.route from rfl, hRoute]
    rfl⟩
  have hAll : ∀ y ∈ req.uuid, y.length < 2 ^ 64 := by
    intro y hy
    rcases Finset.mem_insert.1 hy with rfl | hy
    · rw [cl.length_globalCookie x.node]
      decide
    · exact hUuid y hy
  have hRead : onPacketOnAcceptor c esi buf = _ :=
    readPacket_req (hFits.withUuid _) hAll hPack
  have hTravel : travel c x.tag (some ⟨j, .accepted, esi⟩)
      (sendEventTo a ServiceEnum.dfsReferrer req.event) =
      [⟨x.tag, j, some esi, req.arrived esi⟩] := by
    simp only [travel, sendEventTo, hPack, hRead]
    rfl
  have hMark : [(sendEventTo a ServiceEnum.dfsReferrer req.event : Content Addr B)].filterMap
      (mark? x.tag x.node) = [.forwarded x.tag x.node] := rfl
  simp only [Cloud.machine, Cloud.apply, hArrivals, List.getElem?_cons_zero, hHandled,
    CloudState.sends, List.flatMap_cons, List.flatMap_nil, hTravel, hMark]
  rfl

/-- The bytes of a 32 bit number, and four more. -/
def ringCookie (i : Nat) : GlobalCookie :=
  [UInt8.ofNat i, UInt8.ofNat (i / 256), UInt8.ofNat (i / 65536), UInt8.ofNat (i / 16777216),
    0, 0, 0, 0]

theorem ringCookie_inj {i j : Nat} (hi : i < 2 ^ 32) (hj : j < 2 ^ 32)
    (h : ringCookie i = ringCookie j) : i = j := by
  simp only [ringCookie, List.cons.injEq, ← UInt8.toNat_inj, UInt8.toNat_ofNat',
    and_true] at h
  omega

/-- `N` nodes without a top server, numbered around a ring. -/
def ring (N : Nat) (hN : N ≤ 2 ^ 32) : Cloud (Fin N) where
  globalCookie i := ringCookie i.1
  length_globalCookie _ := rfl
  distinct i j h := Fin.ext (ringCookie_inj (i.2.trans_le hN) (j.2.trans_le hN) h)
  mIsTopServer _ := false

/-- The cookies in a request that has made `k` hops around a ring. -/
def ringUuid (k : Nat) : Finset GlobalCookie :=
  if k < 2 ^ 32 then (Finset.range k).image ringCookie else ∅

theorem received_ringUuid {k : Nat} (hk : k < 2 ^ 32) :
    received (insert (ringCookie k) (ringUuid k)) = ringUuid (k + 1) := by
  have hAll : insert (ringCookie k) (ringUuid k) = (Finset.range (k + 1)).image ringCookie := by
    rw [ringUuid, if_pos hk, Finset.range_add_one, Finset.image_insert]
  have hCard : ((Finset.range (k + 1)).image ringCookie).card = k + 1 := by
    rw [Finset.card_image_of_injOn, Finset.card_range]
    intro i hi j hj h
    have hi := Finset.mem_range.1 hi
    have hj := Finset.mem_range.1 hj
    exact ringCookie_inj (by omega) (by omega) h
  rw [hAll]
  by_cases hNext : k + 1 < 2 ^ 32
  · rw [ringUuid, if_pos hNext]
    exact received_of_card_lt (by rwa [hCard])
  · have hFull : k + 1 = 2 ^ 32 := by omega
    rw [ringUuid, if_neg hNext, received, hCard, hFull, Nat.mod_self, List.take_zero]
    rfl

/-- A request that has made `k` hops around a ring. -/
structure Circles {N : Nat} [NeZero N] (k : Nat) (s : CloudState (Fin N) Addr) : Prop where
  arrivals : ∃ acc req, s.arrivals = [⟨0, Fin.ofNat N k, acc, req⟩] ∧
    req.uuid = ringUuid k ∧ (acc = none → k = 0) ∧ Packable req.route ∧ req.Fits (N - k)
  log : hops 0 s.log = (List.range k).map (Fin.ofNat N)

/-- A request goes once around the whole ring. -/
theorem reachable_circles (c : Codec Addr B) {N : Nat} [NeZero N] (hN : N ≤ 2 ^ 32) (a : Addr)
    {k : Nat} (hk : k ≤ N) :
    ∃ s, ((ring N hN).machine c).Reachable s ∧ Circles k s := by
  induction k with
  | zero =>
      let req : ToplinkDeliverREQ := ⟨[], ServiceEnum.dfsCaps, [], ∅⟩
      have hFits : req.Fits N :=
        ⟨by simp [req], by simp [req]; omega, by decide, by decide⟩
      have hStart : ((ring N hN).machine c).Reachable
          (⟨[], 0, []⟩ : CloudState (Fin N) Addr) := Machine.Reachable.init rfl
      refine ⟨_, hStart.step (a := .fromService (Fin.ofNat N 0) req) ⟨rfl, by simpa using hFits⟩,
        ⟨none, req, rfl, by simp [ringUuid, req], fun _ => rfl, by simp [Packable, req],
          hFits⟩, rfl⟩
  | succ k ih =>
      obtain ⟨s, hReach, ⟨acc, req, hArrivals, hUuid, hAcc, hPackable, hFits⟩, hLog⟩ :=
        ih (Nat.le_of_succ_le hk)
      have hSmall : k < 2 ^ 32 := by omega
      have hNode : (Fin.ofNat N k).1 = k := Nat.mod_eq_of_lt hk
      have hCookie : (ring N hN).globalCookie (Fin.ofNat N k) = ringCookie k :=
        congrArg ringCookie hNode
      have hBefore : ∀ y ∈ req.uuid, ∃ i < k, y = ringCookie i := by
        intro y hy
        rw [hUuid, ringUuid, if_pos hSmall, Finset.mem_image] at hy
        obtain ⟨i, hi, rfl⟩ := hy
        exact ⟨i, Finset.mem_range.1 hi, rfl⟩
      have hNew : (ring N hN).globalCookie (Fin.ofNat N k) ∉ req.uuid := by
        rw [hCookie]
        intro hMem
        obtain ⟨i, hi, hEq⟩ := hBefore _ hMem
        have := ringCookie_inj hSmall (hi.trans hSmall) hEq
        omega
      have hLength : ∀ y ∈ req.uuid, y.length < 2 ^ 64 := by
        intro y hy
        obtain ⟨i, -, rfl⟩ := hBefore y hy
        show 8 < 2 ^ 64
        decide
      have hNone : acc = none → req.uuid = ∅ := by
        intro hAcc'
        rw [hUuid, hAcc hAcc']
        rfl
      have hNext := apply_turn_forwards c (ring N hN) hArrivals rfl hNew hNone
        (hFits.le (Nat.zero_le _)) hLength hPackable a (Fin.ofNat N (k + 1)) ⟨1, none⟩
      refine ⟨_, hReach.step (a := .turn 0 (some a)
        (some ⟨Fin.ofNat N (k + 1), .accepted, ⟨1, none⟩⟩)) ?_, ?_⟩
      · show 0 < s.arrivals.length
        rw [hArrivals]
        exact Nat.one_pos
      rw [hNext]
      refine ⟨⟨_, _, rfl, ?_, by simp, ?_, ?_⟩, ?_⟩
      · simp only [ToplinkDeliverREQ.arrived, hCookie, hUuid]
        exact received_ringUuid hSmall
      · intro id hMem
        exact hPackable id (by simpa [ToplinkDeliverREQ.arrived] using hMem)
      · have hLeft : N - k = N - (k + 1) + 1 := by omega
        exact ((hLeft ▸ hFits).withUuid _).arrived _
      · simp [hLog, List.range_succ]

/-- Two nodes with each other as their uplink: the request goes round once. -/
theorem pair_loopFree : ∃ s : CloudState (Fin 2) Nat,
    ((ring 2 (by decide)).machine plainCodec).Reachable s ∧ hops 0 s.log = [0, 1] ∧
      LoopFree (ring 2 (by decide)) s := by
  obtain ⟨s, hReach, hCircles⟩ := reachable_circles plainCodec (N := 2) (by decide) 0 le_rfl
  exact ⟨s, hReach, hCircles.log, loop_free (by decide) hReach⟩

/-- The last of `2 ^ 32` nodes announces that it sends no cookies, and the first
forwards the request again. -/
theorem not_loopFree_of_circles {N : Nat} [NeZero N] (hN : N = 2 ^ 32) (a : Addr)
    {s : CloudState (Fin N) Addr} (hReach : ((ring N hN.le).machine c).Reachable s)
    (h : Circles N s) :
    ∃ s', ((ring N hN.le).machine c).Reachable s' ∧ ¬ LoopFree (ring N hN.le) s' := by
  obtain ⟨⟨acc, req, hArrivals, hUuid, -, hPackable, hFits⟩, hLog⟩ := h
  have hEmpty : req.uuid = ∅ := by rw [hUuid, ringUuid, if_neg (by omega)]
  have hNext := apply_turn_forwards c (ring N hN.le) hArrivals rfl
    (by simp [hEmpty]) (fun _ => hEmpty) (hFits.le (Nat.zero_le _)) (by simp [hEmpty])
    hPackable a 0 ⟨1, none⟩
  refine ⟨_, hReach.step (a := .turn 0 (some a) (some ⟨0, .accepted, ⟨1, none⟩⟩)) ?_, ?_⟩
  · show 0 < s.arrivals.length
    rw [hArrivals]
    exact Nat.one_pos
  intro hFree
  have hOnce := hFree.once 0
  rw [hNext] at hOnce
  simp only [hops_append, hLog, hops_forwarded, if_true, List.nodup_append_comm,
    List.singleton_append, List.nodup_cons, List.mem_map, List.mem_range, not_exists,
    not_and] at hOnce
  refine hOnce.1 0 (by omega) ?_
  exact Fin.ext (by simp)

/-- In a ring of 2^32 nodes a request runs in a circle. -/
theorem ring_circles : ∃ s : CloudState (Fin (2 ^ 32)) Nat,
    ((ring (2 ^ 32) le_rfl).machine plainCodec).Reachable s ∧
      ¬ LoopFree (ring (2 ^ 32) le_rfl) s := by
  obtain ⟨s, hReach, hCircles⟩ :=
    reachable_circles plainCodec (N := 2 ^ 32) le_rfl (0 : Nat) le_rfl
  exact not_loopFree_of_circles rfl 0 hReach hCircles

end Ring

end Megatron.Dfs
