import Megatron.Rpc.Delivery

/-!
# Sending an event to several hosts

An object handler sends through its proxy, which puts itself in front of the
route of the event, so that the reply comes back to it, and hands the event to
the RPC service.  That one runs on the caller's thread and packs the event at
once.

`sendEvent(std::set<msockaddr_in>, ...)` makes one such call for each element
of the set, with one and the same event: the second call finds the route as
the first one left it, the proxy in front.

## Main results

* `given_sendEvent` — the `k`-th host gets the event with the proxy `k` times
  in front of its route.
* `alike_iff` — the hosts get what they would get alone exactly when there is
  at most one of them, or when the event cannot be packed.
-/

namespace Megatron.ObjectProxy

open Megatron.Corelib Megatron.Rpc

/-- `Event::Base`. -/
structure Event (Body : Type) where
  id : Bytes
  route : RouteT
  body : Body
  deriving DecidableEq

/-- An element of `dstHost`, with what the send to it meets: the id
`getSocketId` returns, and what the RPC service has gone through since the
send before. -/
structure Destination (Addr : Type) where
  addr : Addr
  sockId : SocketId
  since : Rpc.State Addr → Rpc.State Addr

/-- The RPC service, the event, and what each host has been given so far. -/
structure Sending (Addr Body : Type) where
  rpc : Rpc.State Addr
  e : Event Body
  given : List (Addr × List Bytes)

section Service

variable {Addr Body : Type} [DecidableEq Addr]
variable (pack : Body → Except CommonError Bytes) (serviceId dstService : ServiceId)

/-- `CUtils::packEvent`. -/
def packEvent (e : Event Body) : Except CommonError Bytes := do
  let r ← packRoute e.route
  let b ← pack e.body
  return putPSTR e.id ++ r ++ b

/-- `ObjectProxy::sendObjectRequest`, of either proxy. -/
def sendObjectRequest (w : Sending Addr Body) (d : Destination Addr) : Sending Addr Body :=
  let e := { w.e with route := .localService serviceId :: w.e.route }
  let rpc := d.since w.rpc
  let send := Call.sendPacket d.sockId d.addr dstService e
  { rpc := handle (packEvent pack) rpc send
    e := e
    given := w.given ++ [(d.addr, (acceptedBy (packEvent pack) rpc send).map Prod.snd)] }

/-- `sendEvent(const std::set<msockaddr_in>&, ...)`, of either handler. -/
def sendEvent (w : Sending Addr Body) (dstHost : List (Destination Addr)) : Sending Addr Body :=
  dstHost.foldl (sendObjectRequest pack serviceId dstService) w

/-- Every host gets what it gets when it is the only one. -/
def Alike (rpc : Rpc.State Addr) (e : Event Body) (dstHost : List (Destination Addr)) : Prop :=
  (sendEvent pack serviceId dstService ⟨rpc, e, []⟩ dstHost).given =
    dstHost.flatMap fun d => (sendEvent pack serviceId dstService ⟨rpc, e, []⟩ [d]).given

/-- The event with the proxy `k` times in front. -/
def pushed (k : Nat) (e : Event Body) : Event Body :=
  { e with route := List.replicate k (.localService serviceId) ++ e.route }

/-- The packet of an event, where it can be packed. -/
def packets (e : Event Body) : List Bytes :=
  match Rpc.State.packSend (packEvent pack) dstService e with
  | .ok p => [p]
  | .error _ => []

/-! ## The route grows -/

variable {pack serviceId dstService}

theorem pushed_add (j k : Nat) (e : Event Body) :
    pushed serviceId j (pushed serviceId k e) = pushed serviceId (j + k) e := by
  rw [pushed, pushed, pushed, List.replicate_add, List.append_assoc]

/-- One send: the event grows by one element, and the host gets it so. -/
theorem sendObjectRequest_eq (pack : Body → Except CommonError Bytes)
    (serviceId dstService : ServiceId) (w : Sending Addr Body) (d : Destination Addr) :
    (sendObjectRequest pack serviceId dstService w d).e = pushed serviceId 1 w.e ∧
      (sendObjectRequest pack serviceId dstService w d).given =
        w.given ++ [(d.addr, packets pack dstService (pushed serviceId 1 w.e))] := by
  refine ⟨rfl, ?_⟩
  rw [sendObjectRequest]
  simp only [acceptedBy, packets, pushed, List.replicate_one, List.singleton_append]
  cases Rpc.State.packSend (packEvent pack) dstService
    { w.e with route := .localService serviceId :: w.e.route } <;> rfl

/-- **What the hosts are given.** -/
theorem given_sendEvent (dstHost : List (Destination Addr)) :
    ∀ w : Sending Addr Body, (sendEvent pack serviceId dstService w dstHost).given =
      w.given ++ dstHost.mapIdx fun k d =>
        (d.addr, packets pack dstService (pushed serviceId (k + 1) w.e)) := by
  induction dstHost with
  | nil => exact fun w => (List.append_nil _).symm
  | cons d dstHost ih =>
      intro w
      obtain ⟨hEvent, hGiven⟩ :=
        sendObjectRequest_eq pack serviceId dstService w d
      rw [sendEvent, List.foldl_cons, ← sendEvent, ih, hEvent, hGiven, List.mapIdx_cons,
        List.append_assoc]
      simp only [pushed_add, List.singleton_append]

/-! ## Bytes -/

/-- A packed number is read back, so it tells what it packs. -/
theorem putPN_inj {a b : UInt64} {s t : Bytes} (h : putPN a ++ s = putPN b ++ t) : a = b := by
  obtain ⟨b₁, hRun, -⟩ := reads_getPN a (InBuffer.ofBytes (putPN a ++ s)) s rfl
  obtain ⟨b₂, hRun', -⟩ := reads_getPN b (InBuffer.ofBytes (putPN a ++ s)) t h
  rw [hRun] at hRun'
  exact (Prod.mk.inj (Except.ok.inj hRun')).1

/-- The proxy can be packed, so it makes no difference to what can. -/
theorem packElements_pushed (k : Nat) (r : RouteT) :
    (packElements (List.replicate k (.localService serviceId) ++ r)).isOk =
      (packElements r).isOk := by
  induction k with
  | zero => rfl
  | succ k ih =>
      rw [List.replicate_succ, List.cons_append, ← ih]
      cases hRest : packElements (List.replicate k (.localService serviceId) ++ r) with
      | error x => simp [packElements, hRest, Route.pack, bind, Except.bind, Except.isOk,
          Except.toBool]
      | ok es => simp [packElements, hRest, Route.pack, bind, Except.bind, Except.isOk,
          Except.toBool, pure, Except.pure]

theorem isOk_packEvent (e : Event Body) :
    (packEvent pack e).isOk = ((packElements e.route).isOk && (pack e.body).isOk) := by
  rw [packEvent, packRoute]
  cases packElements e.route with
  | error x => rfl
  | ok es => cases pack e.body <;> rfl

theorem isOk_packEvent_pushed (k : Nat) (e : Event Body) :
    (packEvent pack (pushed serviceId k e)).isOk = (packEvent pack e).isOk := by
  rw [isOk_packEvent, isOk_packEvent]
  congr 1
  exact packElements_pushed k e.route

/-- What cannot be packed reaches nobody. -/
theorem packets_of_not_isOk {e : Event Body} (h : ¬ (packEvent pack e).isOk) :
    packets pack dstService e = [] := by
  rw [packets, Rpc.State.packSend]
  cases hPack : packEvent pack e with
  | error x => rfl
  | ok p =>
      rw [hPack] at h
      exact absurd rfl h

/-- The packet of an event: behind the destination and the id stands the size
of the route. -/
theorem packets_of_isOk (dstService : ServiceId) (e : Event Body)
    (h : (packEvent pack e).isOk) :
    ∃ rest, packets pack dstService e =
      [putPN 0x73 ++ putPSTR dstService ++ putPSTR e.id ++
        (putPN (UInt64.ofNat e.route.length) ++ rest)] := by
  rw [isOk_packEvent, Bool.and_eq_true] at h
  obtain ⟨hRoute, hBody⟩ := h
  rw [packets, Rpc.State.packSend, packEvent, packRoute]
  cases hEs : packElements e.route with
  | error x => simp [hEs, Except.isOk, Except.toBool] at hRoute
  | ok es =>
      cases hb : pack e.body with
      | error x => simp [hb, Except.isOk, Except.toBool] at hBody
      | ok b =>
          refine ⟨es ++ b, ?_⟩
          simp only [bind, Except.bind, pure, Except.pure, List.append_assoc]

/-- The proxy twice in front makes another packet than once. -/
theorem packets_pushed_ne {e : Event Body} (h : (packEvent pack e).isOk) :
    packets pack dstService (pushed serviceId 2 e) ≠
      packets pack dstService (pushed serviceId 1 e) := by
  obtain ⟨rest₂, h₂⟩ := packets_of_isOk dstService (pushed serviceId 2 e)
    (by rwa [isOk_packEvent_pushed])
  obtain ⟨rest₁, h₁⟩ := packets_of_isOk dstService (pushed serviceId 1 e)
    (by rwa [isOk_packEvent_pushed])
  rw [h₂, h₁]
  intro hSame
  have hCount := putPN_inj (List.append_cancel_left (List.singleton_inj.1 hSame))
  simp only [pushed, List.length_append, List.length_replicate, UInt64.ofNat_add] at hCount
  exact absurd ((UInt64.add_left_inj _).1 hCount) (by decide)

/--
**Sending to a set.** Each of the hosts gets what it gets when the event is
sent to it alone if and only if there is at most one of them, or the event
cannot be packed and reaches none.
-/
theorem alike_iff (rpc : Rpc.State Addr) (e : Event Body) (dstHost : List (Destination Addr)) :
    Alike pack serviceId dstService rpc e dstHost ↔
      dstHost.length ≤ 1 ∨ ¬ (packEvent pack e).isOk := by
  have hAlone : ∀ d : Destination Addr,
      (sendEvent pack serviceId dstService ⟨rpc, e, []⟩ [d]).given =
        [(d.addr, packets pack dstService (pushed serviceId 1 e))] := by
    intro d
    rw [given_sendEvent]
    rfl
  rw [Alike, given_sendEvent]
  simp only [hAlone, List.nil_append]
  constructor
  · intro hAlike
    by_contra hNot
    rw [not_or, not_not, not_le] at hNot
    obtain ⟨hTwo, hOk⟩ := hNot
    obtain ⟨d₁, d₂, rest, rfl⟩ : ∃ d₁ d₂ rest, dstHost = d₁ :: d₂ :: rest := by
      cases dstHost with
      | nil => simp at hTwo
      | cons d₁ dstHost =>
          cases dstHost with
          | nil => simp at hTwo
          | cons d₂ rest => exact ⟨d₁, d₂, rest, rfl⟩
    simp only [List.mapIdx_cons, List.flatMap_cons, List.singleton_append, List.cons.injEq,
      Prod.mk.injEq, true_and] at hAlike
    exact packets_pushed_ne hOk hAlike.1
  · rintro (hOne | hError)
    · cases dstHost with
      | nil => rfl
      | cons d dstHost =>
          cases dstHost with
          | nil => rfl
          | cons d' rest => simp at hOne
    · have hNone : ∀ k, packets pack dstService (pushed serviceId k e) = [] := fun k =>
        packets_of_not_isOk (by rwa [isOk_packEvent_pushed])
      simp only [hNone]
      clear hAlone
      induction dstHost with
      | nil => rfl
      | cons d dstHost ih =>
          rw [List.mapIdx_cons, ih, List.flatMap_cons, List.singleton_append]

end Service

/-- An event of an object handler, sent to two hosts the RPC service has no
session for. -/
def request : Event Unit := ⟨[5], [.objectHandlerPolled [9]], ()⟩

def host (addr : Nat) (sockId : SocketId) : Destination Nat := ⟨addr, sockId, id⟩

/-- The second host gets a route in which the proxy stands twice. -/
theorem second_host_differs :
    (sendEvent (fun _ => .ok []) [1] [2] ⟨Rpc.State.initial, request, []⟩ [host 10 1, host 11 2]).given =
        [(10, packets (fun _ => .ok []) [2] ⟨[5], [.localService [1], .objectHandlerPolled [9]], ()⟩),
          (11, packets (fun _ => .ok []) [2]
            ⟨[5], [.localService [1], .localService [1], .objectHandlerPolled [9]], ()⟩)] ∧
      ¬ Alike (fun _ : Unit => .ok []) [1] [2] Rpc.State.initial request [host 10 1, host 11 2] := by
  constructor
  · rw [given_sendEvent]
    rfl
  · rw [Alike, given_sendEvent]
    decide +kernel

end Megatron.ObjectProxy
