import Megatron.Lib.Machine
import Megatron.Oscar.Service
import Megatron.Ssl.Aes

/-!
# The secure Oscar layer

The frames are those of Oscar, with a handshake in front of the packets.  The
accepting side sends an RSA key as soon as it has accepted
(`SB_HELLO_SSL_S2C`); the other side makes an AES key and returns it encrypted
(`SB_SET_AES_KEY_C2S`); the answer to that (`SB_HELLO_SSL2_S2C`) ends the
handshake, and packets follow (`SB_SINGLEPACKET_AES`).

The SSL module is a plug-in behind an interface; `Ssl` is what it does.  What
it draws at random, the environment draws.  A `State` keeps everything the
service has done on the socket, the latest first: the events it passed up,
what it wrote and closed, each session key it installed and each frame it
handled, with the user data before and after.
-/

namespace Megatron.OscarSecure

open Megatron.Corelib Megatron.Lib Megatron.Ssl
open Megatron.Oscar (EpollSocketInfo StreamType coreVersion sendPacketPlain)

/-! ## The wire format -/

/-- `SB_SINGLEPACKET_AES`. -/
def sbSinglePacketAes : UInt8 := 0x11

/-- `SB_SET_AES_KEY_C2S`. -/
def sbSetAesKeyC2S : UInt8 := 0x14

/-- `SB_HELLO_SSL_S2C`. -/
def sbHelloSslS2C : UInt8 := 0x15

/-- `SB_HELLO_SSL2_S2C`. -/
def sbHelloSsl2S2C : UInt8 := 0x16

/-- What one round of the locked section finds. -/
inductive Taken
  | wait
  | broken (disconnectReason : String)
  | frame (startByte : UInt8) (req rest : Bytes)

/-- The locked section of `on_StreamRead`. -/
def takeFrame (maxPacketSize : UInt64) (mxData : Bytes) : Taken :=
  match (InBuffer.ofBytes mxData).get8Nothrow with
  | (none, _) => .wait
  | (some startByte, b) =>
      match b.getPNNothrow with
      | (none, _) => .wait
      | (some len, b) =>
          if b.remains < len.toNat then .wait
          else if len > maxPacketSize then
            .broken ("oscar packet len>max_packet_size len=" ++ toString len.toInt64 ++
              " max_packet_size=" ++ toString maxPacketSize.toInt64)
          else
            match b.unpackNothrow len with
            | (none, _) => .wait
            | (some req, b) => .frame startByte req (mxData.drop (mxData.length - b.remains))

/-! ## The data of a socket -/

/-- The RSA of the SSL module, `RSA_new()` included, and the block function of
its AES. -/
structure Ssl (Key : Type) where
  new : Key
  getPublicKey : Key → Bytes
  fromPublicKey : Bytes → Option Key
  privateDecrypt : Key → Bytes → Except CommonError Bytes
  publicEncrypt : Key → Bytes → Except CommonError Bytes
  cipher : Bytes → Bytes → Bytes

/-- `OscarSecureData`; a socket without one has a fresh one, as `getData`
makes it. -/
structure OscarSecureData (Key : Type) where
  rsa : Option Key
  aes : Aes
  deriving DecidableEq

/-- What the service does on a socket; `Key` and `ρ` are the types of RSA keys
and of routes. No code of the service makes an `accepted`. -/
inductive Entry (Key ρ : Type)
  | connected (route : ρ)
  | accepted (route : ρ)
  | disconnected (reason : String) (route : ρ)
  | disaccepted (reason : String) (route : ρ)
  | packetOnAcceptor (buf : Refbuffer) (route : ρ)
  | packetOnConnector (buf : Refbuffer) (route : ρ)
  | write (packet : Bytes)
  | close (reason : String)
  | installed
  | handled (startByte : UInt8) (req : Bytes) (before after : OscarSecureData Key)
  deriving DecidableEq

/-- A socket and what has been done on it, the latest first. -/
structure State (Key ρ : Type) where
  esi : EpollSocketInfo
  od : OscarSecureData Key
  trace : List (Entry Key ρ)
  deriving DecidableEq

variable {Key ρ : Type}

namespace State

/-- A new socket. -/
def fresh (mId : Nat) (mStreamType : StreamType) : State Key ρ :=
  ⟨.fresh mId mStreamType, ⟨none, none⟩, []⟩

def record (s : State Key ρ) (e : Entry Key ρ) : State Key ρ := { s with trace := e :: s.trace }

/-- `esi->close(reason)`. -/
def close (s : State Key ρ) (reason : String) : State Key ρ :=
  { s with esi := { s.esi with closed := true }, trace := .close reason :: s.trace }

/-- `catch (...)`: what is thrown here is no `std::exception`. -/
def unknown (s : State Key ρ) : State Key ρ := s.close "exception: unknown "

/-- The session key is in place. -/
def install (s : State Key ρ) (aes : Aes) : State Key ρ :=
  { s with od := { s.od with aes := aes }, trace := .installed :: s.trace }

end State

/-! ## The frames -/

/-- `SB_SET_AES_KEY_C2S`, up to the key: the schedule it asks for. -/
def sessionKey (ssl : Ssl Key) (rsa : Option Key) (req : Bytes) : Except CommonError Aes := do
  let m ← StateT.run' getPSTR (InBuffer.ofBytes req)
  match rsa with
  | none => throw ⟨"!rsa_xxx"⟩
  | some key => Aes.init (← ssl.privateDecrypt key m)

/-- `SB_HELLO_SSL_S2C`: the public key and the version of the peer. -/
def peerHello (req : Bytes) : Except CommonError (Bytes × Int64) :=
  StateT.run' (do
    let pubkey ← getPSTR
    let version ← getPN
    return (pubkey, version.toInt64)) (InBuffer.ofBytes req)

/-- `case SB_SINGLEPACKET_AES`. -/
def onPacket (ssl : Ssl Key) (route : ρ) (req : Bytes) (s : State Key ρ) :
    State Key ρ × Framing.Verdict :=
  match s.od.aes.decrypt ssl.cipher req with
  | .error _ => (s.unknown, .shut)
  | .ok buf =>
      if s.esi.mStreamType = .accepted then (s.record (.packetOnAcceptor buf route), .next)
      else (s.record (.packetOnConnector buf route), .next)

/-- `case SB_SET_AES_KEY_C2S`; the role is looked at last. -/
def onSetAesKey (ssl : Ssl Key) (req : Bytes) (s : State Key ρ) :
    State Key ρ × Framing.Verdict :=
  match sessionKey ssl s.od.rsa req with
  | .error _ => (s.unknown, .shut)
  | .ok aes =>
      let s := s.install aes
      if s.esi.mStreamType ≠ .accepted then (s.unknown, .shut)
      else (s.record (.write (sendPacketPlain sbHelloSsl2S2C (some []))), .next)

/-- `case SB_HELLO_SSL2_S2C`. -/
def onHelloSsl2 (route : ρ) (s : State Key ρ) : State Key ρ × Framing.Verdict :=
  (s.record (.connected route), .leave)

/-- A session key and its schedule; `rand` is what `generateRandomKey`
draws. -/
def newSessionKey (rand : Except CommonError Bytes) : Except CommonError (Bytes × Aes) := do
  let aesKey ← rand
  return (aesKey, ← Aes.init aesKey)

/-- `case SB_HELLO_SSL_S2C`. -/
def onHelloSsl (ssl : Ssl Key) (rand : Except CommonError Bytes) (req : Bytes)
    (s : State Key ρ) : State Key ρ × Framing.Verdict :=
  match peerHello req with
  | .error _ => (s.unknown, .shut)
  | .ok (pubkey, version) =>
      if version >>> 8 ≠ coreVersion >>> 8 then
        (s.close "oscarSecure: invalid peer version", .shut)
      else
        let s := { s with od := { s.od with rsa := ssl.fromPublicKey pubkey } }
        match ssl.fromPublicKey pubkey with
        | none => (s.unknown, .shut)
        | some key =>
            match newSessionKey rand with
            | .error _ => (s.unknown, .shut)
            | .ok (aesKey, aes) =>
                let s := s.install aes
                match ssl.publicEncrypt key aesKey with
                | .error _ => (s.unknown, .shut)
                | .ok out =>
                    (s.record (.write (sendPacketPlain sbSetAesKeyC2S (some (putPSTR out)))), .leave)

/-- The `switch` on the start byte. -/
def dispatch (ssl : Ssl Key) (rand : Except CommonError Bytes) (route : ρ) (startByte : UInt8)
    (req : Bytes) (s : State Key ρ) : State Key ρ × Framing.Verdict :=
  if startByte = sbSinglePacketAes then onPacket ssl route req s
  else if startByte = sbSetAesKeyC2S then onSetAesKey ssl req s
  else if startByte = sbHelloSsl2S2C then onHelloSsl2 route s
  else if startByte = sbHelloSslS2C then onHelloSsl ssl rand req s
  else (s.close "oscar: Invalid start byte", .shut)

/-- One frame, taken off the buffer. -/
def handleFrame (ssl : Ssl Key) (rand : Except CommonError Bytes) (route : ρ) (startByte : UInt8)
    (req rest : Bytes) (s : State Key ρ) : State Key ρ × Framing.Verdict :=
  let s := { s with esi := { s.esi with mInBuffer := rest } }
  let r := dispatch ssl rand route startByte req s
  (r.1.record (.handled startByte req s.od r.1.od), r.2)

/-- The loop of `on_StreamRead`, with the number of iterations bounded. -/
def streamReadLoop (ssl : Ssl Key) (maxPacketSize : UInt64) (rand : Except CommonError Bytes)
    (route : ρ) : Nat → State Key ρ → State Key ρ
  | 0, s => s
  | fuel + 1, s =>
      match takeFrame maxPacketSize s.esi.mInBuffer with
      | .wait => s
      | .broken disconnectReason => s.close ("oscar: buffer broken. " ++ disconnectReason)
      | .frame startByte req rest =>
          match handleFrame ssl rand route startByte req rest s with
          | (s, .next) => streamReadLoop ssl maxPacketSize rand route fuel s
          | (s, _) => s

/-- `on_StreamRead`; every iteration takes a byte at least. -/
def onStreamRead (ssl : Ssl Key) (maxPacketSize : UInt64) (rand : Except CommonError Bytes)
    (route : ρ) (s : State Key ρ) : State Key ρ :=
  streamReadLoop ssl maxPacketSize rand route (s.esi.mInBuffer.length + 1) s

/-! ## The socket events -/

/-- `on_Accepted`; `none` is a `generate_key` that throws, which leaves a
key without numbers. -/
def onAccepted (ssl : Ssl Key) (key : Option Key) (s : State Key ρ) : State Key ρ :=
  let s := { s with od := { s.od with rsa := some (key.getD ssl.new) } }
  match key with
  | none => s
  | some key => s.record (.write (sendPacketPlain sbHelloSslS2C
      (some (putPSTR (ssl.getPublicKey key) ++ putPN coreVersion.toUInt64))))

/-- `on_Disconnected`. -/
def onDisconnected (reason : String) (route : ρ) (s : State Key ρ) : State Key ρ :=
  s.record (.disconnected reason route)

/-- `on_Disaccepted`. -/
def onDisaccepted (reason : String) (route : ρ) (s : State Key ρ) : State Key ρ :=
  s.record (.disaccepted reason route)

/-- What can happen to a socket: bytes arrive, and socket events are handled,
in any order and on a socket of either role. `on_Connected` does nothing. -/
inductive Action (Key ρ : Type)
  | arrive (chunk : Bytes)
  | streamRead (rand : Except CommonError Bytes) (route : ρ)
  | accepted (key : Option Key)
  | connected
  | disconnected (reason : String) (route : ρ)
  | disaccepted (reason : String) (route : ρ)

def apply (ssl : Ssl Key) (maxPacketSize : UInt64) (s : State Key ρ) : Action Key ρ → State Key ρ
  | .arrive chunk => { s with esi := { s.esi with mInBuffer := s.esi.mInBuffer ++ chunk } }
  | .streamRead rand route => onStreamRead ssl maxPacketSize rand route s
  | .accepted key => onAccepted ssl key s
  | .connected => s
  | .disconnected reason route => onDisconnected reason route s
  | .disaccepted reason route => onDisaccepted reason route s

/-- One socket, opened by `connect` or accepted. -/
def machine (ssl : Ssl Key) (maxPacketSize : UInt64) : Machine (State Key ρ) (Action Key ρ) where
  init s := ∃ mId, s = .fresh mId .accepted ∨ s = .fresh mId .connected
  enabled _ _ := True
  apply := apply ssl maxPacketSize

end Megatron.OscarSecure
