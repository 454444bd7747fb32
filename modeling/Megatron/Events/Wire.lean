import Megatron.Corelib.AddressSets
import Megatron.Corelib.RouteCodec
import Megatron.Dfs.Service

/-!
# Events on the wire

What the events of the modules look like in a packet. A class of events writes its
fields one behind the other with `operator<<` and reads them in the same order with
`operator>>`; `Format` is such a pair of functions with the values that come back. The
codec `wire` puts the classes together, over the addresses that `msockaddr_in` makes.
The strings are below 2^31 bytes: `put_PSTR` moves on by an `int`.

Which constructors a process has registered is generated by the build: `registered`.

## Main results

* `SockAddr.lt_iff` — the sets of addresses are in the order of `operator<`.
* `event_trip` — an event that can be packed is read back.
* `request_answer` — over RPC a request comes to its service, and the answer to the
  service that has sent the request.
-/

namespace Megatron.Events

open Megatron.Corelib Megatron.Dfs
open Megatron.Rpc (Esi)

/-! ## Addresses -/

/-- `msockaddr_in` as the constructor and `unpack` make it: of the union only what
belongs to the family is set. -/
inductive SockAddr where
  | ip4 (port : UInt16) (sAddr : UInt32)
  | ip6 (port : UInt16) (sin6Addr : Vector UInt8 16)

namespace SockAddr

def toMsockaddrIn : SockAddr → MsockaddrIn
  | ip4 port sAddr => { MsockaddrIn.construct with port := port, sAddr := sAddr }
  | ip6 port sin6Addr =>
      { MsockaddrIn.construct with family := afInet6, port := port, sin6Addr := sin6Addr }

theorem family8_ip4 (port : UInt16) (sAddr : UInt32) :
    (ip4 port sAddr).toMsockaddrIn.family8 = 2 := by
  show afInet.toUInt8.toInt8 = 2
  decide

theorem family8_ip6 (port : UInt16) (sin6Addr : Vector UInt8 16) :
    (ip6 port sin6Addr).toMsockaddrIn.family8 = 10 := by
  show afInet6.toUInt8.toInt8 = 10
  decide

theorem isInet (a : SockAddr) : a.toMsockaddrIn.IsInet := by
  cases a with
  | ip4 port sAddr => exact Or.inl (family8_ip4 port sAddr)
  | ip6 port sin6Addr => exact Or.inr (family8_ip6 port sin6Addr)

theorem key_injective : Function.Injective fun a : SockAddr => a.toMsockaddrIn.key := by
  intro a b h
  obtain ⟨hFamily, hHost, hPort⟩ : a.toMsockaddrIn.family8.toInt = b.toMsockaddrIn.family8.toInt ∧
      a.toMsockaddrIn.host = b.toMsockaddrIn.host ∧
      a.toMsockaddrIn.port.toNat = b.toMsockaddrIn.port.toNat := by
    simpa only [MsockaddrIn.key, EmbeddingLike.apply_eq_iff_eq, Prod.mk.injEq] using h
  cases a with
  | ip4 port sAddr =>
      cases b with
      | ip4 port' sAddr' =>
          have hAddr : sAddr = sAddr' := UInt32.toNat_inj.1 (List.cons.inj hHost).1
          have hPort' : port = port' := UInt16.toNat_inj.1 hPort
          rw [hPort', hAddr]
      | ip6 port' sin6Addr' =>
          rw [family8_ip4, family8_ip6] at hFamily
          exact absurd hFamily (by decide)
  | ip6 port sin6Addr =>
      cases b with
      | ip4 port' sAddr' =>
          rw [family8_ip4, family8_ip6] at hFamily
          exact absurd hFamily (by decide)
      | ip6 port' sin6Addr' =>
          have hMap : sin6Addr.toList.map UInt8.toNat = sin6Addr'.toList.map UInt8.toNat := hHost
          have hList := (List.map_injective_iff.2 fun x y => UInt8.toNat_inj.1) hMap
          have hPort' : port = port' := UInt16.toNat_inj.1 hPort
          rw [hPort', Vector.toList_inj.1 hList]

instance : LinearOrder SockAddr := LinearOrder.lift' _ key_injective

/-- The order is that of `operator<`. -/
theorem lt_iff (a b : SockAddr) :
    a < b ↔ a.toMsockaddrIn.lt b.toMsockaddrIn = .ok true := by
  rw [MsockaddrIn.lt_eq a.isInet, Except.ok.injEq, decide_eq_true_eq]
  rfl

variable (net : Inet)

/-- `operator<<`. -/
def put (a : SockAddr) : Bytes := a.toMsockaddrIn.put net

/-- `operator>>` into a new `msockaddr_in`. -/
def get : Reader SockAddr := do
  let fam := (← getPN).toUInt8
  if fam = 2 then do
    let port := net.ntohs (← getPN).toUInt16
    return ip4 port (net.ntohl (← getPN).toUInt32)
  else if fam = 10 then do
    let port := net.ntohs (← getPN).toUInt16
    let s ← getPSTR
    return ip6 port ((net.pton (cStr s)).getD (Vector.replicate 16 0))
  else throw ⟨"2 invalid family " ++ toString fam.toNat ++ " "⟩

variable {net}

/-- An address is read back. -/
theorem reads_get (hNet : net.Lawful) (a : SockAddr) : Reads (get net) (a.put net) a := by
  refine (reads_getPN _).bind ?_
  cases a with
  | ip4 port sAddr =>
      have hFamily : afInet.toUInt64.toUInt8 = 2 := by decide
      dsimp only [toMsockaddrIn, MsockaddrIn.construct]
      rw [hFamily, if_pos rfl]
      refine (reads_getPN _).bind ?_
      have hAddr := (reads_getPN (net.ntohl sAddr).toUInt64).map fun n =>
        ip4 (net.ntohs (net.ntohs port).toUInt64.toUInt16) (net.ntohl n.toUInt32)
      have hValue : ip4 (net.ntohs (net.ntohs port).toUInt64.toUInt16)
          (net.ntohl (net.ntohl sAddr).toUInt64.toUInt32) = ip4 port sAddr := by
        rw [UInt16.toUInt16_toUInt64, UInt32.toUInt32_toUInt64, Inet.ntohs_ntohs, Inet.ntohl_ntohl]
      rw [hValue] at hAddr
      exact hAddr
  | ip6 port sin6Addr =>
      have hFamily : afInet6.toUInt64.toUInt8 = 10 := by decide
      dsimp only [toMsockaddrIn, MsockaddrIn.construct]
      rw [hFamily, if_neg (by decide), if_pos rfl]
      refine (reads_getPN _).bind ?_
      have hText : (net.ntop sin6Addr).length < 2 ^ 64 :=
        (hNet.length_ntop sin6Addr).trans (by decide)
      have hAddr := (reads_getPSTR hText).map fun s =>
        ip6 (net.ntohs (net.ntohs port).toUInt64.toUInt16)
          ((net.pton (cStr s)).getD (Vector.replicate 16 0))
      have hValue : ip6 (net.ntohs (net.ntohs port).toUInt64.toUInt16)
          ((net.pton (cStr (net.ntop sin6Addr))).getD (Vector.replicate 16 0)) =
            ip6 port sin6Addr := by
        rw [UInt16.toUInt16_toUInt64, Inet.ntohs_ntohs, MsockaddrIn.cStr_ntop hNet,
          hNet.pton_ntop, Option.getD_some]
      rw [hValue] at hAddr
      exact hAddr

end SockAddr

/-! ## Formats -/

/-- How a value is written and read, and which values come back. -/
structure Format (α : Type) where
  put : α → Bytes
  get : Reader α
  Fits : α → Prop
  reads : ∀ x, Fits x → Reads get (put x) x

namespace Format

variable {α β : Type}

/-- No fields. -/
def nothing : Format Unit where
  put _ := []
  get := return ()
  Fits _ := True
  reads _ _ := Reads.pure ()

/-- One field, then the others. -/
def seq (f : Format α) (g : Format β) : Format (α × β) where
  put x := f.put x.1 ++ g.put x.2
  get := do
    let a ← f.get
    let b ← g.get
    return (a, b)
  Fits x := f.Fits x.1 ∧ g.Fits x.2
  reads x h := (f.reads x.1 h.1).bind ((g.reads x.2 h.2).map (Prod.mk x.1))

/-- The fields of a class. -/
def of (f : Format α) (mk : α → β) (fields : β → α) (h : ∀ x, mk (fields x) = x) : Format β where
  put x := f.put (fields x)
  get := do return mk (← f.get)
  Fits x := f.Fits (fields x)
  reads x hFits := by
    have hRead := (f.reads (fields x) hFits).map mk
    rw [h] at hRead
    exact hRead

/-- `int`. -/
def int : Format Int32 where
  put x := putPN x.toInt64.toUInt64
  get := do return (← getPN).toInt64.toInt32
  Fits _ := True
  reads x _ := by
    have hRead := (reads_getPN x.toInt64.toUInt64).map fun n => n.toInt64.toInt32
    rw [Int64.toInt64_toUInt64, Int32.toInt32_toInt64] at hRead
    exact hRead

/-- `int64_t`. -/
def int64 : Format Int64 where
  put x := putPN x.toUInt64
  get := do return (← getPN).toInt64
  Fits _ := True
  reads x _ := by
    have hRead := (reads_getPN x.toUInt64).map fun n => n.toInt64
    rw [Int64.toInt64_toUInt64] at hRead
    exact hRead

/-- `unsigned short`. -/
def unsignedShort : Format UInt16 where
  put x := putPN x.toUInt64
  get := do return (← getPN).toUInt16
  Fits _ := True
  reads x _ := by
    have hRead := (reads_getPN x.toUInt64).map fun n => n.toUInt16
    rw [UInt16.toUInt16_toUInt64] at hRead
    exact hRead

/-- `std::string`, and the ids that are one. -/
def string : Format Bytes where
  put := putPSTR
  get := getPSTR
  Fits s := s.length < 2 ^ 31
  reads _ h := reads_getPSTR (h.trans (by decide))

/-- `std::set`. -/
def set [LinearOrder α] (f : Format α) : Format (Finset α) where
  put := putSet f.put
  get := getSet f.get
  Fits s := s.card < 2 ^ 32 ∧ ∀ x ∈ s, f.Fits x
  reads s h := reads_getSet s (fun x hx => f.reads x (h.2 x hx)) h.1

/-- `msockaddr_in`. -/
def addr {net : Inet} (hNet : net.Lawful) : Format SockAddr where
  put a := a.put net
  get := SockAddr.get net
  Fits _ := True
  reads a _ := SockAddr.reads_get hNet a

end Format

/-! ## The classes of events -/

/-- `dfsReferrerEvent::Ping`. -/
structure Ping where
  pingType : Int32
  globalCookieOfSender : GlobalCookie
  externalListenPort : UInt16
  internalListenAddr : Finset SockAddr
  pingTime : Int64
  connectionSequenceId : Int32
  clientType : Int32

/-- `dfsReferrerEvent::Pong`. -/
structure Pong where
  pingType : Int32
  visibleNameOfPinger : SockAddr
  globalCookieOfResponder : GlobalCookie
  nodeLevelInHierarhy : Int32
  pingTime : Int64
  connectionSequenceId : Int32

/-- `dfsReferrerEvent::UpdateConfigREQ` and `UpdateConfigRSP`. -/
structure UpdateConfig where
  bod : Bytes

/-- `dfsCapsEvent::RegisterMyRefferrerNodeREQ`. -/
structure RegisterMyRefferrerNodeREQ where
  externalListenAddr : Finset SockAddr
  uplink : SockAddr
  downlinkCount : Int32

/-- `dfsCapsEvent::RegisterCloudRoot`. -/
structure RegisterCloudRoot where
  externalListenAddr : Finset SockAddr
  uplink : SockAddr

/-- `errorDispatcherEvent::NotifySubscriber` and `SendMessage`. -/
structure Message where
  opcode : Bytes
  msg : Bytes

/-- `httpEvent::GetBindPortsRSP`. -/
structure GetBindPortsRSP where
  listenAddrs : Finset SockAddr

/-- `jsonRefEvent::JsonREQ`. -/
structure JsonREQ where
  action : Bytes
  json : Bytes
  binData : Bytes

/-- `jsonRefEvent::JsonRSP`. -/
structure JsonRSP where
  errcode : Int32
  action : Bytes
  json : Bytes
  binData : Bytes

/-- `errorEvent::ErrorRSP`. -/
structure ErrorRSP where
  errcode : Int32
  errText : Bytes

/-- The classes that have a `pack`, beside those of `Body`. -/
inductive EventClass where
  | ping
  | pong
  | subscribeNotifications
  | updateConfigREQ
  | updateConfigRSP
  | registerMyRefferrerNodeREQ
  | registerCloudRoot
  | notifySubscriber
  | sendMessage
  | subscribe
  | unsubscribe
  | getBindPortsREQ
  | getBindPortsRSP
  | jsonREQ
  | jsonRSP
  | errorRSP

namespace EventClass

def id : EventClass → EventId
  | ping => ascii "DFSReferrer.Ping"
  | pong => ascii "DFSReferrer.Pong"
  | subscribeNotifications => ascii "DFSReferrer.SubscribeNotifications"
  | updateConfigREQ => ascii "DFSReferrer.UpdateConfigREQ"
  | updateConfigRSP => ascii "DFSReferrer.UpdateConfigRSP"
  | registerMyRefferrerNodeREQ => ascii "DFSCaps.RegisterMyRefferrerNodeREQ"
  | registerCloudRoot => ascii "DFSCaps.RegisterCloudRoot"
  | notifySubscriber => ascii "errorDispatcherNotifySubscriber"
  | sendMessage => ascii "errorDispatcherSendMessage"
  | subscribe => ascii "errorDispatcherSubscribe"
  | unsubscribe => ascii "errorDispatcherUnsubscribe"
  | getBindPortsREQ => ascii "GetBindPortsREQ"
  | getBindPortsRSP => ascii "GetBindPortsRSP"
  | jsonREQ => ascii "JsonREQ"
  | jsonRSP => ascii "JsonRSP"
  | errorRSP => ascii "ErrorRSP"

/-- What an event of the class has beside its id and its route. -/
def Data : EventClass → Type
  | ping => Ping
  | pong => Pong
  | updateConfigREQ | updateConfigRSP => UpdateConfig
  | registerMyRefferrerNodeREQ => RegisterMyRefferrerNodeREQ
  | registerCloudRoot => RegisterCloudRoot
  | notifySubscriber | sendMessage => Message
  | getBindPortsRSP => GetBindPortsRSP
  | jsonREQ => JsonREQ
  | jsonRSP => JsonRSP
  | errorRSP => ErrorRSP
  | subscribeNotifications | subscribe | unsubscribe | getBindPortsREQ => Unit

end EventClass

section Formats

open Format

variable {net : Inet} (hNet : net.Lawful)

def Ping.format : Format Ping :=
  (int.seq (string.seq (unsignedShort.seq ((set (addr hNet)).seq (int64.seq (int.seq int)))))).of
    (fun x => ⟨x.1, x.2.1, x.2.2.1, x.2.2.2.1, x.2.2.2.2.1, x.2.2.2.2.2.1, x.2.2.2.2.2.2⟩)
    (fun x => (x.pingType, x.globalCookieOfSender, x.externalListenPort, x.internalListenAddr,
      x.pingTime, x.connectionSequenceId, x.clientType))
    fun _ => rfl

def Pong.format : Format Pong :=
  (int.seq ((addr hNet).seq (string.seq (int.seq (int64.seq int))))).of
    (fun x => ⟨x.1, x.2.1, x.2.2.1, x.2.2.2.1, x.2.2.2.2.1, x.2.2.2.2.2⟩)
    (fun x => (x.pingType, x.visibleNameOfPinger, x.globalCookieOfResponder,
      x.nodeLevelInHierarhy, x.pingTime, x.connectionSequenceId))
    fun _ => rfl

def UpdateConfig.format : Format UpdateConfig := string.of mk bod fun _ => rfl

def RegisterMyRefferrerNodeREQ.format : Format RegisterMyRefferrerNodeREQ :=
  ((set (addr hNet)).seq ((addr hNet).seq int)).of (fun x => ⟨x.1, x.2.1, x.2.2⟩)
    (fun x => (x.externalListenAddr, x.uplink, x.downlinkCount)) fun _ => rfl

def RegisterCloudRoot.format : Format RegisterCloudRoot :=
  ((set (addr hNet)).seq (addr hNet)).of (fun x => ⟨x.1, x.2⟩)
    (fun x => (x.externalListenAddr, x.uplink)) fun _ => rfl

def Message.format : Format Message :=
  (string.seq string).of (fun x => ⟨x.1, x.2⟩) (fun x => (x.opcode, x.msg)) fun _ => rfl

def GetBindPortsRSP.format : Format GetBindPortsRSP :=
  (set (addr hNet)).of mk listenAddrs fun _ => rfl

def JsonREQ.format : Format JsonREQ :=
  (string.seq (string.seq string)).of (fun x => ⟨x.1, x.2.1, x.2.2⟩)
    (fun x => (x.action, x.json, x.binData)) fun _ => rfl

def JsonRSP.format : Format JsonRSP :=
  (int.seq (string.seq (string.seq string))).of (fun x => ⟨x.1, x.2.1, x.2.2.1, x.2.2.2⟩)
    (fun x => (x.errcode, x.action, x.json, x.binData)) fun _ => rfl

def ErrorRSP.format : Format ErrorRSP :=
  (int.seq string).of (fun x => ⟨x.1, x.2⟩) (fun x => (x.errcode, x.errText)) fun _ => rfl

/-- `pack` and `unpack` of a class. -/
def EventClass.format : (k : EventClass) → Format k.Data
  | .ping => Ping.format hNet
  | .pong => Pong.format hNet
  | .updateConfigREQ | .updateConfigRSP => UpdateConfig.format
  | .registerMyRefferrerNodeREQ => RegisterMyRefferrerNodeREQ.format hNet
  | .registerCloudRoot => RegisterCloudRoot.format hNet
  | .notifySubscriber | .sendMessage => Message.format
  | .getBindPortsRSP => GetBindPortsRSP.format hNet
  | .jsonREQ => JsonREQ.format
  | .jsonRSP => JsonRSP.format
  | .errorRSP => ErrorRSP.format
  | .subscribeNotifications | .subscribe | .unsubscribe | .getBindPortsREQ => nothing

end Formats

/-! ## The ids -/

namespace EventClass

def all : List EventClass :=
  [ping, pong, subscribeNotifications, updateConfigREQ, updateConfigRSP,
    registerMyRefferrerNodeREQ, registerCloudRoot, notifySubscriber, sendMessage, subscribe,
    unsubscribe, getBindPortsREQ, getBindPortsRSP, jsonREQ, jsonRSP, errorRSP]

theorem mem_all (k : EventClass) : k ∈ all := by
  cases k <;> simp [all]

/-- The ids of `Body`. -/
def bodyIds : List EventId :=
  [DfsReferrerEventEnum.toplinkDeliverREQ, DfsReferrerEventEnum.toplinkDeliverRSP,
    DfsCapsEventEnum.getReferrersREQ, DfsCapsEventEnum.getReferrersRSP,
    DfsCapsEventEnum.getCloudRootsREQ, DfsCapsEventEnum.getCloudRootsRSP]

theorem nodup_ids : (bodyIds ++ all.map id).Nodup := by decide +kernel

theorem id_injective : Function.Injective id := fun k k' h =>
  List.inj_on_of_nodup_map (List.nodup_append.1 nodup_ids).2.1 (mem_all k) (mem_all k') h

theorem id_notMem (k : EventClass) : k.id ∉ bodyIds := fun h =>
  (List.nodup_append.1 nodup_ids).2.2 _ h _ (List.mem_map_of_mem (mem_all k)) rfl

theorem length_id (k : EventClass) : k.id.length < 2 ^ 64 := by
  cases k <;> decide

end EventClass

/-! ## The codec -/

/-- An event of one of the classes. -/
abbrev Packed := (k : EventClass) × k.Data

section Wire

variable {net : Inet} (hNet : net.Lawful) (registered : List EventClass)

/-- The codec of a process that has the constructors `registered`. -/
def wire : Codec SockAddr Packed where
  putAddr a := a.put net
  getAddr := SockAddr.get net
  packOther _ b := .ok ((b.1.format hNet).put b.2)
  constructors id := (registered.find? fun k => k.id = id).map fun k => do
    return ⟨k, ← (k.format hNet).get⟩

theorem constructors_id {k : EventClass} (hk : k ∈ registered) :
    (wire hNet registered).constructors k.id = some (do return ⟨k, ← (k.format hNet).get⟩) := by
  have hFind : (registered.find? fun k' => decide (k'.id = k.id)) = some k := by
    cases hFound : registered.find? fun k' => decide (k'.id = k.id) with
    | none => exact absurd (decide_eq_true rfl) (List.find?_eq_none.1 hFound k hk)
    | some k' =>
        have hSame : k'.id = k.id := by simpa using List.find?_some hFound
        rw [EventClass.id_injective hSame]
  show Option.map _ _ = _
  rw [hFind]
  rfl

/-- A route with sizes that a program can hold, and strings that `put_PSTR` can. -/
def ShortRoute (r : RouteT) : Prop :=
  r.length < 2 ^ 64 ∧ ∀ s ∈ routeStrings r, s.length < 2 ^ 31

theorem ShortRoute.fits {r : RouteT} (h : ShortRoute r) : RouteFits r :=
  ⟨h.1, fun _ he => Route.fits_of_strings fun s hs =>
    (h.2 s (List.mem_flatMap_of_mem he hs)).trans (by decide)⟩

/-- What a packet can hold of a body, of the classes that are registered. -/
def BodyFits : Body SockAddr Packed → Prop
  | .toplinkDeliverREQ destinationService eventData uuid =>
      destinationService.length < 2 ^ 31 ∧ eventData.length < 2 ^ 63 ∧ uuid.card < 2 ^ 32 ∧
        ∀ x ∈ uuid, x.length < 2 ^ 31
  | .toplinkDeliverRSP eventData => eventData.length < 2 ^ 63
  | .getReferrersREQ addrs => addrs.card < 2 ^ 32
  | .getReferrersRSP addrs => addrs.length < 2 ^ 32
  | .getCloudRootsREQ addrs => addrs.card < 2 ^ 32
  | .getCloudRootsRSP addrs => addrs.length < 2 ^ 32
  | .other id b => id = b.1.id ∧ b.1 ∈ registered ∧ (b.1.format hNet).Fits b.2

/-- An event of one of the classes is read back. -/
theorem roundTrips_other {b : Packed} (hRegistered : b.1 ∈ registered)
    (hFits : (b.1.format hNet).Fits b.2) :
    (Body.other b.1.id b : Body SockAddr Packed).RoundTrips (wire hNet registered) := by
  intro enc hPack
  obtain rfl : (b.1.format hNet).put b.2 = enc := Except.ok.inj hPack
  have hNot := b.1.id_notMem
  simp only [EventClass.bodyIds, List.mem_cons, List.not_mem_nil, or_false, not_or] at hNot
  obtain ⟨h₁, h₂, h₃, h₄, h₅, h₆⟩ := hNot
  show Reads (unpackBody (wire hNet registered) b.1.id) _ _
  rw [unpackBody, if_neg h₁, if_neg h₂, if_neg h₃, if_neg h₄, if_neg h₅, if_neg h₆,
    constructors_id hNet registered hRegistered]
  exact (((b.1.format hNet).reads b.2 hFits).map (Sigma.mk b.1)).map (Body.other b.1.id)

theorem roundTrips {b : Body SockAddr Packed} (hFits : BodyFits hNet registered b) :
    b.RoundTrips (wire hNet registered) := by
  have hAddr : ∀ a : SockAddr, Reads (wire hNet registered).getAddr
      ((wire hNet registered).putAddr a) a := SockAddr.reads_get hNet
  cases b with
  | toplinkDeliverREQ destinationService eventData uuid =>
      intro enc hPack
      obtain rfl := Except.ok.inj hPack
      rw [List.append_assoc]
      obtain ⟨hDestination, hData, hCard, hUuid⟩ := hFits
      refine (reads_getPSTR (hDestination.trans (by decide))).bind
        ((reads_getRefbuffer (hData.trans (by decide))).bind ?_)
      exact (reads_getSet uuid (fun x hx => reads_getPSTR ((hUuid x hx).trans (by decide)))
        hCard).map _
  | toplinkDeliverRSP eventData => exact roundTrips_rsp _ (Nat.lt_trans hFits (by decide))
  | getReferrersREQ addrs => exact roundTrips_getReferrersREQ _ (fun a _ => hAddr a) hFits
  | getReferrersRSP addrs => exact roundTrips_getReferrersRSP _ (fun a _ => hAddr a) hFits
  | getCloudRootsREQ addrs =>
      intro enc hPack
      obtain rfl := Except.ok.inj hPack
      exact (reads_getSet addrs (fun a _ => hAddr a) hFits).map _
  | getCloudRootsRSP addrs =>
      intro enc hPack
      obtain rfl := Except.ok.inj hPack
      exact (reads_getItems addrs (fun a _ => hAddr a) hFits).map _
  | other id b =>
      obtain ⟨rfl, hRegistered, hData⟩ := hFits
      exact roundTrips_other hNet registered hRegistered hData

theorem length_bodyId {b : Body SockAddr Packed} (hFits : BodyFits hNet registered b) :
    b.id.length < 2 ^ 64 := by
  cases b with
  | other id b =>
      obtain ⟨rfl, -, -⟩ := hFits
      exact b.1.length_id
  | _ =>
      dsimp only [Body.id]
      decide

/-- No body throws in `pack`. -/
theorem pack_ok (b : Body SockAddr Packed) : ∃ enc, b.pack (wire hNet registered) = .ok enc := by
  cases b <;> exact ⟨_, rfl⟩

theorem packEvent_of_route {e : Event SockAddr Packed} {r : Bytes}
    (hRoute : packRoute e.route = .ok r) :
    ∃ enc, packEvent (wire hNet registered) e = .ok enc := by
  obtain ⟨b, hBody⟩ := pack_ok hNet registered e.body
  refine ⟨putPSTR e.body.id ++ r ++ b, ?_⟩
  rw [packEvent, hRoute]
  show (e.body.pack (wire hNet registered)).bind _ = _
  rw [hBody]
  rfl

variable {e : Event SockAddr Packed}

theorem reads_unpacked {enc : Bytes} (hPack : packEvent (wire hNet registered) e = .ok enc)
    (hRoute : ShortRoute e.route) (hFits : BodyFits hNet registered e.body) :
    Reads (unpackEvent (wire hNet registered)) enc e :=
  reads_unpackEvent _ hPack hRoute.fits (length_bodyId hNet registered hFits)
    (roundTrips hNet registered hFits)

theorem front_unpacked {enc : Bytes} (hPack : packEvent (wire hNet registered) e = .ok enc)
    (hRoute : ShortRoute e.route) (hFits : BodyFits hNet registered e.body) :
    Front (unpackEvent (wire hNet registered)) enc e := by
  have hFront := (reads_unpacked hNet registered hPack hRoute hFits).front []
  rw [List.append_nil] at hFront
  exact hFront

end Wire

/-! ## A ping and its answer -/

theorem Ping.fits_iff {net : Inet} (hNet : net.Lawful) {p : Ping} :
    (Ping.format hNet).Fits p ↔
      p.globalCookieOfSender.length < 2 ^ 31 ∧ p.internalListenAddr.card < 2 ^ 32 := by
  constructor
  · rintro ⟨-, hCookie, -, hAddrs, -⟩
    exact ⟨hCookie, hAddrs.1⟩
  · rintro ⟨hCookie, hCard⟩
    exact ⟨trivial, hCookie, trivial, ⟨hCard, fun _ _ => trivial⟩, trivial, trivial, trivial⟩

/-- A ping by which a node says that it listens on `10.0.0.1:80`. -/
def ping : Body SockAddr Packed :=
  .other EventClass.ping.id
    ⟨.ping, (⟨1, ascii "cookie", 80, {.ip4 0x5000 0x0100000A}, -1, 7, 0⟩ : Ping)⟩

/-- Its answer. -/
def pong : Body SockAddr Packed :=
  .other EventClass.pong.id
    ⟨.pong, (⟨1, .ip4 0x5000 0x0100000A, ascii "other", 0, -1, 7⟩ : Pong)⟩

theorem fits_ping : BodyFits lawful_full [.ping, .pong] ping :=
  ⟨rfl, List.mem_cons_self, (Ping.fits_iff lawful_full).2
    ⟨by decide, (Finset.card_singleton _).trans_lt (by decide)⟩⟩

theorem fits_pong : BodyFits lawful_full [.ping, .pong] pong :=
  ⟨rfl, List.mem_cons_of_mem _ List.mem_cons_self, trivial, trivial,
    (by decide : (ascii "other").length < 2 ^ 31), trivial, trivial, trivial⟩

theorem shortRoute_pinger : ShortRoute [.localService ServiceEnum.dfsReferrer, .thread 1] :=
  ⟨by decide, by decide⟩

/-! ## There and back -/

section Trips

variable {net : Inet} (hNet : net.Lawful) (registered : List EventClass) {e : Event SockAddr Packed}

/-- **Events on the wire.** An event is packed where its route can be, and what is
packed is read back, whatever follows it. -/
theorem event_trip (hRoute : ShortRoute e.route) (hFits : BodyFits hNet registered e.body) :
    (∀ err, packRoute e.route = .error err →
      packEvent (wire hNet registered) e = .error err) ∧
    ∀ r, packRoute e.route = .ok r → ∃ enc, packEvent (wire hNet registered) e = .ok enc ∧
      Reads (unpackEvent (wire hNet registered)) enc e := by
  refine ⟨fun err hErr => ?_, fun r hr => ?_⟩
  · rw [packEvent, hErr]
    rfl
  · obtain ⟨enc, hPack⟩ := packEvent_of_route hNet registered hr
    exact ⟨enc, hPack, reads_unpacked hNet registered hPack hRoute hFits⟩

theorem event_trip_ping :
    (∀ err, packRoute [.localService ServiceEnum.dfsReferrer, .thread 1] = .error err →
      packEvent (wire lawful_full [.ping, .pong])
        ⟨[.localService ServiceEnum.dfsReferrer, .thread 1], ping⟩ = .error err) ∧
    ∀ r, packRoute [.localService ServiceEnum.dfsReferrer, .thread 1] = .ok r →
      ∃ enc, packEvent (wire lawful_full [.ping, .pong])
          ⟨[.localService ServiceEnum.dfsReferrer, .thread 1], ping⟩ = .ok enc ∧
        Reads (unpackEvent (wire lawful_full [.ping, .pong])) enc
          ⟨[.localService ServiceEnum.dfsReferrer, .thread 1], ping⟩ :=
  event_trip lawful_full [.ping, .pong]
    (e := ⟨[.localService ServiceEnum.dfsReferrer, .thread 1], ping⟩) shortRoute_pinger fits_ping

/-- **A request and its answer.** A request that a service has sent comes to the service
it is for. What that one passes on with the route it was given, less itself, comes to the
service that has sent the request, with the rest of the route it was sent by. -/
theorem request_answer {svs dst : ServiceId} {route : RouteT} {r : Bytes}
    {body answer : Body SockAddr Packed} (hRoute : ShortRoute (.localService svs :: route))
    (hPacked : packRoute (.localService svs :: route) = .ok r) (hDst : dst.length < 2 ^ 31)
    (hBody : BodyFits hNet registered body) (hAnswer : BodyFits hNet registered answer)
    (esi : Esi SockAddr) {esi' : Esi SockAddr} {addr : SockAddr}
    (hAddr : esi'.requestForConnect = some addr) :
    ∃ there got route' z back,
      Rpc.State.packSend (packEvent (wire hNet registered)) dst ⟨.localService svs :: route, body⟩ =
          .ok there ∧
        onPacketOnAcceptor (wire hNet registered) esi there =
          .ok [.incomingOnAcceptor dst esi got] ∧ got.body = body ∧
        poppedFrontRoute got.route = .ok route' ∧
        passEvent ⟨route', answer⟩ = .ok (.passPacket esi.mId z) ∧
        Rpc.State.packPass (packEvent (wire hNet registered)) z = .ok back ∧
        onPacketOnConnector (wire hNet registered) esi' back =
          .ok [.incomingOnConnector svs esi' addr ⟨route, answer⟩] := by
  let request : Event SockAddr Packed := ⟨.localService svs :: route, body⟩
  let z : Event SockAddr Packed := ⟨.localService svs :: route, answer⟩
  obtain ⟨there, hThere⟩ := packEvent_of_route hNet registered (e := request) hPacked
  obtain ⟨back, hBack⟩ := packEvent_of_route hNet registered (e := z) hPacked
  have hRequest := front_unpacked hNet registered hThere hRoute hBody
  have hZ := front_unpacked hNet registered hBack hRoute hAnswer
  refine ⟨putPN 0x73 ++ putPSTR dst ++ there,
    (request.pushFront (.remoteAddr esi.mId)).pushFront (.localService dst),
    .remoteAddr esi.mId :: .localService svs :: route, z, putPN 0x70 ++ back, ?_, ?_, rfl, rfl,
    rfl, ?_, ?_⟩
  · rw [Rpc.State.packSend, hThere]
    rfl
  · exact readPacket_front (front_onPacket_send _ (hDst.trans (by decide)) hRequest rfl)
  · rw [Rpc.State.packPass, hBack]
    rfl
  · refine readPacket_front (front_onPacket_pass _ hZ ?_)
    rw [hAddr]

/-- The one end has accepted the connection, the other has asked for it at `10.0.0.2:80`. -/
theorem request_answer_pong :
    ∃ there got route' z back,
      Rpc.State.packSend (packEvent (wire lawful_full [.ping, .pong])) ServiceEnum.dfsReferrer
          ⟨[.localService ServiceEnum.dfsReferrer, .thread 1], ping⟩ = .ok there ∧
        onPacketOnAcceptor (wire lawful_full [.ping, .pong]) ⟨5, none⟩ there =
          .ok [.incomingOnAcceptor ServiceEnum.dfsReferrer ⟨5, none⟩ got] ∧ got.body = ping ∧
        poppedFrontRoute got.route = .ok route' ∧
        passEvent ⟨route', pong⟩ = .ok (.passPacket 5 z) ∧
        Rpc.State.packPass (packEvent (wire lawful_full [.ping, .pong])) z = .ok back ∧
        onPacketOnConnector (wire lawful_full [.ping, .pong])
            ⟨9, some (.ip4 0x5000 0x0200000A)⟩ back =
          .ok [.incomingOnConnector ServiceEnum.dfsReferrer ⟨9, some (.ip4 0x5000 0x0200000A)⟩
            (.ip4 0x5000 0x0200000A) ⟨[.thread 1], pong⟩] :=
  request_answer lawful_full [.ping, .pong] shortRoute_pinger rfl (by decide) fits_ping fits_pong
    ⟨5, none⟩ rfl

end Trips

end Megatron.Events
