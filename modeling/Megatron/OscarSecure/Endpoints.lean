import Megatron.OscarSecure.Segmentation
import Megatron.Ssl.Encrypt
import Megatron.Ssl.Rsa

/-!
# Both ends of a secure connection

One end has accepted the connection, the other has opened it.  Either may be asked
for a packet at any time; bytes arrive in order, in chunks cut anywhere.  Before the
keys are exchanged `encrypt` throws, and nothing is written.

What the SSL module must do for this is `Works`.

## Main results

* `onSendPacket_eq`, `onSendPacket_refused` — what `on_SendPacket` does.
* `works_toSsl` — the SSL module does what it must, where it encrypts as
  `st_rsa_impl` does.
* `does_hello`, `does_keyFrame`, `does_readyFrame`, `does_packets` — what each frame
  of a session makes the end do that gets it.
-/

namespace Megatron.OscarSecure

open Megatron.Corelib Megatron.Lib Megatron.Ssl
open Megatron.Oscar (StreamType coreVersion sendPacketPlain)

variable {Key ρ : Type}

/-! ## `on_SendPacket` -/

/-- `on_SendPacket`.  The loop over the blocks makes one pass for each, and one that
ends it; there is no result where `encrypt` has none. -/
def onSendPacket (enc : Bytes → Bytes → Bytes) (buf : Refbuffer) (s : State Key ρ) :
    Option (Except CommonError (State Key ρ)) := do
  match ← s.od.aes.encrypt enc ((buf.size_.toNat + (padding buf.size_).toNat) / 16 + 1) buf with
  | .error e => return .error e
  | .ok (out, _) =>
      let o ← out.bytes.mapM id
      return .ok (s.record (.write (sendPacketPlain sbSinglePacketAes (some o))))

/-- A text in blocks with its padding, encrypted. -/
def sealText (enc : Bytes → Bytes → Bytes) (key text : Bytes) : Bytes :=
  (blocks (text ++ addl (UInt64.ofNat text.length))).flatMap (enc key)

/-- A text that fits a packet, and that `unsigned` can count. -/
abbrev Text (maxPacketSize : UInt64) :=
  {t : Bytes // t.length + 16 ≤ maxPacketSize.toNat ∧ t.length + 16 < 2 ^ 32}

/-- A refbuffer with such a text. -/
structure Parcel (maxPacketSize : UInt64) where
  buf : Refbuffer
  text : Text maxPacketSize
  holds : Holds buf text.1

section Sealing

variable {enc : Bytes → Bytes → Bytes} {key : Bytes} {buf : Refbuffer} {text : Bytes}

/-- The blocks of the padded text. -/
theorem padded_blocks (text : Bytes) (hShort : text.length + 16 < 2 ^ 32) :
    ∃ bs, blocks (text ++ addl (UInt64.ofNat text.length)) = bs ∧ (∀ b ∈ bs, b.length = 16) ∧
      bs.flatten = text ++ addl (UInt64.ofNat text.length) ∧
      text.length + (padding (UInt64.ofNat text.length)).toNat = 16 * bs.length := by
  have hLen : (UInt64.ofNat text.length).toNat = text.length :=
    UInt64.toNat_ofNat_of_lt' (show text.length < 2 ^ 64 by omega)
  obtain ⟨n, hn⟩ := dvd_padded (UInt64.ofNat text.length)
  rw [hLen] at hn
  obtain ⟨bs, hCount, hAll, hFlat⟩ :=
    exists_blocks n (text ++ addl (UInt64.ofNat text.length)) (by
      rw [List.length_append, length_addl, hn])
  refine ⟨bs, ?_, hAll, hFlat, ?_⟩
  · rw [← hFlat, blocks_flatten hAll]
  · rw [hCount, hn]

theorem length_sealText (hEnc : ∀ b, b.length = 16 → (enc key b).length = 16)
    (hShort : text.length + 16 < 2 ^ 32) : (sealText enc key text).length ≤ text.length + 16 := by
  obtain ⟨bs, hBlocks, hAll, -, hCount⟩ := padded_blocks text hShort
  obtain ⟨-, hLe⟩ := padding_range (UInt64.ofNat text.length)
  have hMap : ∀ b ∈ bs.map (enc key), b.length = 16 := by
    intro b hb
    obtain ⟨b₀, hb₀, rfl⟩ := List.mem_map.1 hb
    exact hEnc b₀ (hAll b₀ hb₀)
  rw [sealText, hBlocks, List.flatMap_def, length_flatten_blocks hMap, List.length_map]
  omega

/-- Where there is room for the padding, the text goes out sealed. -/
theorem onSendPacket_eq (hEnc : ∀ b, b.length = 16 → (enc key b).length = 16)
    (h : Holds buf text) (hShort : text.length + 16 < 2 ^ 32) (hRoom : Room buf)
    {s : State Key ρ} (hKey : s.od.aes = some key) :
    onSendPacket enc buf s =
      some (.ok (s.record (.write (sendPacketPlain sbSinglePacketAes
        (some (sealText enc key text)))))) := by
  obtain ⟨buf', hPad, hHolds, hSize⟩ := pad_eq h hRoom
  have hSame : UInt64.ofNat text.length = buf.size_ := by rw [h.length_eq, UInt64.ofNat_toNat]
  obtain ⟨bs, hBlocks, hAll, hFlat, hCount⟩ := padded_blocks text hShort
  rw [hSame] at hBlocks hFlat hCount
  obtain ⟨-, hLe⟩ := padding_range buf.size_
  have hLoop := ecb_flatten (enc key) bs [] (i := 0) hAll (by
    rw [List.nil_append, hFlat, List.length_append, length_addl]
    omega) rfl
  rw [List.nil_append, hFlat] at hLoop
  have hFuel : (buf.size_.toNat + (padding buf.size_).toNat) / 16 + 1 = bs.length + 1 := by
    rw [← h.length_eq, hCount, Nat.mul_div_cancel_left _ (by decide)]
  have hLen : (bs.flatMap (enc key)).length = buf'.size_.toNat := by
    have hMap : ∀ b ∈ bs.map (enc key), b.length = 16 := by
      intro b hb
      obtain ⟨b₀, hb₀, rfl⟩ := List.mem_map.1 hb
      exact hEnc b₀ (hAll b₀ hb₀)
    rw [← hHolds.length_eq, List.length_append, length_addl, hCount, List.flatMap_def,
      length_flatten_blocks hMap, List.length_map]
  have hOut : (⟨some ((bs.flatMap (enc key)).map some), buf'.size_, buf'.size_⟩ : Refbuffer).bytes =
      (bs.flatMap (enc key)).map some := by
    rw [Refbuffer.bytes, Option.getD_some, ← hLen]
    exact List.take_of_length_le (List.length_map _).le
  have hRun : Aes.encrypt enc (some key) (bs.length + 1) buf =
      some (.ok (⟨some ((bs.flatMap (enc key)).map some), buf'.size_, buf'.size_⟩, buf')) := by
    rw [Aes.encrypt]
    simp only [Option.isSome_some, hPad, Option.bind_eq_bind, Option.bind_some, hHolds.bytes_eq,
      mapM_id_map_some, Option.getD_some, hLoop]
    rfl
  rw [onSendPacket, hKey, hFuel, hRun, sealText, hSame, hBlocks]
  simp only [Option.bind_eq_bind, Option.bind_some, hOut, mapM_id_map_some]
  rfl

/-- Without a key, or without room for the padding, `encrypt` throws. -/
theorem onSendPacket_refused {s : State Key ρ} (h : s.od.aes = none ∨ ¬ Room buf) :
    ∃ e, onSendPacket enc buf s = some (.error e) := by
  have hPad : ∃ e, pad s.od.aes.isSome buf = some (.error e) := by
    rw [pad]
    rcases h with hNone | hFull
    · rw [hNone]
      exact ⟨_, rfl⟩
    · split
      · exact ⟨_, rfl⟩
      · exact ⟨_, if_neg hFull⟩
  obtain ⟨e, he⟩ := hPad
  refine ⟨e, ?_⟩
  rw [onSendPacket, Aes.encrypt]
  simp only [he, Option.bind_eq_bind, Option.bind_some]
  rfl

end Sealing

/-! ## Two ends -/

/-- What a step of the service writes. -/
def Entry.bytes : Entry Key ρ → Bytes
  | .write packet => packet
  | _ => []

/-- The bytes of a packet that is passed up. -/
def Entry.passed? : Entry Key ρ → Option (List (Option UInt8))
  | .packetOnAcceptor buf _ => some buf.bytes
  | .packetOnConnector buf _ => some buf.bytes
  | _ => none

namespace State

/-- All bytes written, the first in front. -/
def written (s : State Key ρ) : Bytes := s.trace.reverse.flatMap Entry.bytes

/-- The packets passed up, the first in front. -/
def passed (s : State Key ρ) : List (List (Option UInt8)) := s.trace.reverse.filterMap Entry.passed?

/-- How often `Connected` has been passed up. -/
def connecteds (s : State Key ρ) : Nat := s.trace.countP Entry.isConnected

end State

/-- The two sockets of a connection, the texts that have been sent on each, and how
many of the bytes written on the other have arrived there. -/
structure Session (Key ρ : Type) (maxPacketSize : UInt64) where
  acc : State Key ρ
  con : State Key ρ
  accSent : List (Text maxPacketSize)
  conSent : List (Text maxPacketSize)
  accArrived : Nat
  conArrived : Nat

/-- What can happen at the accepting end and at the connecting one. -/
inductive SessionAction (maxPacketSize : UInt64)
  | accepted
  | accSends (p : Parcel maxPacketSize)
  | conSends (p : Parcel maxPacketSize)
  | accReads (n : Nat) (rand : Except CommonError Bytes)
  | conReads (n : Nat) (aesKey : {a : Bytes // a.length = 16})

namespace Session

variable {maxPacketSize : UInt64}

/-- All bytes have arrived. -/
def Settled (s : Session Key ρ maxPacketSize) : Prop :=
  s.accArrived = s.con.written.length ∧ s.conArrived = s.acc.written.length

/-- No whole frame waits at either end. -/
def Waiting (s : Session Key ρ maxPacketSize) : Prop :=
  takeFrame maxPacketSize s.acc.esi.mInBuffer = .wait ∧
    takeFrame maxPacketSize s.con.esi.mInBuffer = .wait

/-- What `on_SendPacket` does on the accepting end; what it throws ends in the loop of
the thread. -/
def accWrites (s : Session Key ρ maxPacketSize) (p : Parcel maxPacketSize) :
    Option (Except CommonError (State Key ρ)) → Session Key ρ maxPacketSize
  | some (.ok acc) => { s with acc := acc, accSent := s.accSent ++ [p.text] }
  | _ => s

/-- What `on_SendPacket` does on the connecting end. -/
def conWrites (s : Session Key ρ maxPacketSize) (p : Parcel maxPacketSize) :
    Option (Except CommonError (State Key ρ)) → Session Key ρ maxPacketSize
  | some (.ok con) => { s with con := con, conSent := s.conSent ++ [p.text] }
  | _ => s

/-- The accepting end has read. -/
def accReads (s : Session Key ρ maxPacketSize) (acc : State Key ρ) (n : Nat) :
    Session Key ρ maxPacketSize := { s with acc := acc, accArrived := s.accArrived + n }

/-- The connecting end has read. -/
def conReads (s : Session Key ρ maxPacketSize) (con : State Key ρ) (n : Nat) :
    Session Key ρ maxPacketSize := { s with con := con, conArrived := s.conArrived + n }

end Session

section Machine

variable (enc : Bytes → Bytes → Bytes) (ssl : Ssl Key) (maxPacketSize : UInt64) (key : Key)
  (accId conId : Nat) (accRoute conRoute : ρ)

/-- A session in any interleaving; `key` is what `generate_key` makes. -/
def session : Machine (Session Key ρ maxPacketSize) (SessionAction maxPacketSize) where
  init s := s = ⟨.fresh accId .accepted, .fresh conId .connected, [], [], 0, 0⟩
  enabled s
    | .accepted => s.acc.od.rsa.isNone
    | .accSends _ => True
    | .conSends _ => True
    | .accReads n _ => s.accArrived + n ≤ s.con.written.length
    | .conReads n _ => s.conArrived + n ≤ s.acc.written.length
  apply s
    | .accepted => { s with acc := onAccepted ssl (some key) s.acc }
    | .accSends p => s.accWrites p (onSendPacket enc p.buf s.acc)
    | .conSends p => s.conWrites p (onSendPacket enc p.buf s.con)
    | .accReads n rand =>
        s.accReads (receive ssl maxPacketSize rand accRoute s.acc
          ((s.con.written.drop s.accArrived).take n)) n
    | .conReads n aesKey =>
        s.conReads (receive ssl maxPacketSize (.ok aesKey.1) conRoute s.con
          ((s.acc.written.drop s.conArrived).take n)) n

end Machine

/-- The body of the first hello. -/
def helloBody (ssl : Ssl Key) (key : Key) : Bytes :=
  putPSTR (ssl.getPublicKey key) ++ putPN coreVersion.toUInt64

/-- What the session needs of the SSL module: the ciphers belong together, and so do
`key` and the key `pub` that is read off the hello, and the packets of the handshake
are within `m_maxPacketSize`. -/
structure Works (enc : Bytes → Bytes → Bytes) (ssl : Ssl Key) (maxPacketSize : UInt64)
    (key pub : Key) : Prop where
  inverts : Inverts enc ssl.cipher
  fromPublicKey : ssl.fromPublicKey (ssl.getPublicKey key) = some pub
  hello_short : (helloBody ssl key).length ≤ maxPacketSize.toNat
  trip : ∀ aesKey : Bytes, aesKey.length = 16 → ∃ c, ssl.publicEncrypt pub aesKey = .ok c ∧
    ssl.privateDecrypt key c = .ok aesKey ∧ (putPSTR c).length ≤ maxPacketSize.toNat

/-- The SSL module as OpenSSL is under it: RSA keys, what `RSA_public_encrypt` and
`RSA_private_decrypt` do under them, and the block function. -/
structure SslModule (Key : Type) where
  new : Key
  getPublicKey : Key → Bytes
  fromPublicKey : Bytes → Option Key
  publicEncrypt : Key → RsaKey
  privateDecrypt : Key → RsaKey
  cipher : Bytes → Bytes → Bytes

/-- `st_rsa_impl` over that; a pass takes a byte at least, and no text runs out of
passes. -/
def SslModule.toSsl (m : SslModule Key) : Ssl Key where
  new := m.new
  getPublicKey := m.getPublicKey
  fromPublicKey := m.fromPublicKey
  publicEncrypt key ms :=
    (encrypt (some (m.publicEncrypt key)) (ms.length + 1) ms).getD
      (.error (rsaError (m.publicEncrypt key)))
  privateDecrypt key c :=
    (decrypt (some (m.privateDecrypt key)) (c.length + 1) c).getD
      (.error (rsaError (m.privateDecrypt key)))
  cipher := m.cipher

theorem works_toSsl {m : SslModule Key} {enc : Bytes → Bytes → Bytes} {maxPacketSize : UInt64}
    {key pub : Key} (hInverts : Inverts enc m.cipher)
    (hPub : m.fromPublicKey (m.getPublicKey key) = some pub)
    (hPair : Paired (m.publicEncrypt pub) (m.privateDecrypt key))
    (hHello : (helloBody m.toSsl key).length ≤ maxPacketSize.toNat) {count : Nat}
    (hCount : count = (16 + ((m.publicEncrypt pub).size - rsaPkcs1PaddingSize) - 1) /
      ((m.publicEncrypt pub).size - rsaPkcs1PaddingSize))
    (hFits : (m.publicEncrypt pub).size * (count + 1) < 2 ^ 64)
    (hShort : 10 + (m.publicEncrypt pub).size * count ≤ maxPacketSize.toNat) :
    Works enc m.toSsl maxPacketSize key pub where
  inverts := hInverts
  fromPublicKey := hPub
  hello_short := hHello
  trip aesKey hSize := by
    have hPos : 0 < (m.publicEncrypt pub).size := Nat.lt_of_le_of_lt (Nat.zero_le _) hPair.large
    obtain ⟨c, hThere, hLen, hBack⟩ := cipherText_trip hPair aesKey
    rw [hSize, ← hCount] at hLen
    rw [Nat.mul_add, Nat.mul_one, ← hLen] at hFits
    have hLonger := length_le_cipherText hPair aesKey
    rw [hSize, ← hCount, ← hLen] at hLonger
    have hEncrypt := run_encryptStep hPair.large (by omega) []
      (Nat.lt_succ_self aesKey.length)
    have hDecrypt := run_decryptStep (m := c) (hPair.size_eq ▸ hPos)
      (by rw [hPair.size_eq]; exact hFits) [] (Nat.lt_succ_self c.length)
    have hWhole : c.length % (m.privateDecrypt key).size = 0 := by
      rw [hLen, hPair.size_eq, Nat.mul_mod_right]
    refine ⟨c, ?_, ?_, ?_⟩
    · show (encrypt (some (m.publicEncrypt pub)) (aesKey.length + 1) aesKey).getD _ = _
      rw [encrypt, hEncrypt, hThere]
      rfl
    · show (decrypt (some (m.privateDecrypt key)) (c.length + 1) c).getD _ = _
      rw [decrypt, if_neg (not_not.2 hWhole), hDecrypt, hBack]
      rfl
    · have hPN := OutBuffer.length_putPN_le (UInt64.ofNat c.length)
      rw [← hLen] at hShort
      rw [putPSTR, List.length_append]
      omega

/-! ## The frames of a session -/

/-- A frame within the bound. -/
def frameOf (maxPacketSize : UInt64) (startByte : UInt8) (req : Bytes)
    (h : req.length ≤ maxPacketSize.toNat) : PeerFrame maxPacketSize :=
  ⟨⟨startByte, req, Nat.lt_of_le_of_lt h maxPacketSize.toNat_lt⟩, h⟩

section Frames

variable {enc : Bytes → Bytes → Bytes} {ssl : Ssl Key} {maxPacketSize : UInt64} {key pub : Key}

/-- `SB_HELLO_SSL_S2C`. -/
def Works.hello (h : Works enc ssl maxPacketSize key pub) : PeerFrame maxPacketSize :=
  frameOf maxPacketSize sbHelloSslS2C (helloBody ssl key) h.hello_short

/-- `SB_SET_AES_KEY_C2S`, around what RSA has made of the key. -/
def keyFrame {c : Bytes} (hc : (putPSTR c).length ≤ maxPacketSize.toNat) :
    PeerFrame maxPacketSize :=
  frameOf maxPacketSize sbSetAesKeyC2S (putPSTR c) hc

/-- `SB_HELLO_SSL2_S2C`. -/
def readyFrame (maxPacketSize : UInt64) : PeerFrame maxPacketSize :=
  frameOf maxPacketSize sbHelloSsl2S2C [] (Nat.zero_le _)

/-- `SB_SINGLEPACKET_AES`. -/
def Works.packet (h : Works enc ssl maxPacketSize key pub) (aesKey : Bytes)
    (t : Text maxPacketSize) : PeerFrame maxPacketSize :=
  frameOf maxPacketSize sbSinglePacketAes (sealText enc aesKey t.1)
    ((length_sealText (h.inverts.length_enc aesKey) t.2.2).trans t.2.1)

end Frames

/-! ## What a frame does -/

/-- From `s` to `s'` the service has written `w`, passed up the packets `ps` and `n`
times `Connected`; of the socket only the buffer has changed. -/
structure Does (s s' : State Key ρ) (w : Bytes) (ps : List (List (Option UInt8))) (n : Nat) :
    Prop where
  esi : (withBuffer s' []).esi = (withBuffer s []).esi
  written : s'.written = s.written ++ w
  passed : s'.passed = s.passed ++ ps
  connecteds : s'.connecteds = s.connecteds + n

section Does

variable {s s' s'' : State Key ρ} {w w' : Bytes} {ps ps' : List (List (Option UInt8))} {n n' : Nat}

theorem Does.trans (h : Does s s' w ps n) (h' : Does s' s'' w' ps' n') :
    Does s s'' (w ++ w') (ps ++ ps') (n + n') where
  esi := h'.esi.trans h.esi
  written := by rw [h'.written, h.written, List.append_assoc]
  passed := by rw [h'.passed, h.passed, List.append_assoc]
  connecteds := by rw [h'.connecteds, h.connecteds, Nat.add_assoc]

/-- A step that leaves the trace as it is. -/
theorem does_nothing (hEsi : (withBuffer s' []).esi = (withBuffer s []).esi)
    (hTrace : s'.trace = s.trace) : Does s s' [] [] 0 where
  esi := hEsi
  written := by rw [State.written, hTrace, List.append_nil, State.written]
  passed := by rw [State.passed, hTrace, List.append_nil, State.passed]
  connecteds := by rw [State.connecteds, hTrace, Nat.add_zero, State.connecteds]

theorem does_record (s : State Key ρ) (e : Entry Key ρ) :
    Does s (s.record e) e.bytes e.passed?.toList (if e.isConnected then 1 else 0) where
  esi := rfl
  written := by
    rw [State.written, State.record, List.reverse_cons, List.flatMap_append, List.flatMap_singleton]
    rfl
  passed := by
    rw [State.passed, State.record, List.reverse_cons, List.filterMap_append]
    cases h : e.passed? with
    | none => rw [List.filterMap_cons_none h, List.filterMap_nil, State.passed, Option.toList_none]
    | some p =>
        rw [List.filterMap_cons_some h, List.filterMap_nil, State.passed, Option.toList_some]
  connecteds := List.countP_cons

/-- Installing the keys of a session writes nothing and passes nothing up. -/
theorem does_install (s : State Key ρ) (rsa : Option Key) (aes : Aes) :
    Does s (({ s with od := ⟨rsa, s.od.aes⟩ } : State Key ρ).install aes) [] [] 0 := by
  have hRecord : Does s (s.record .installed) [] [] 0 := does_record s .installed
  have hKeys : Does (s.record .installed)
      (({ s with od := ⟨rsa, s.od.aes⟩ } : State Key ρ).install aes) [] [] 0 := does_nothing rfl rfl
  exact hRecord.trans hKeys

/-- The entry of a frame counts for nothing. -/
theorem Does.handled (h : Does s s' w ps n) (startByte : UInt8) (req : Bytes)
    (before after : OscarSecureData Key) :
    Does s (s'.record (.handled startByte req before after)) w ps n := by
  have hEntry : Does s' (s'.record (.handled startByte req before after)) [] [] 0 :=
    does_record s' _
  have hAll := h.trans hEntry
  rwa [List.append_nil, List.append_nil] at hAll

end Does

section Effects

variable {enc : Bytes → Bytes → Bytes} {ssl : Ssl Key} {maxPacketSize : UInt64} {key pub : Key}
  (rand : Except CommonError Bytes) (route : ρ) {s : State Key ρ}

/-- A sealed text is opened. -/
theorem Works.open_seal (h : Works enc ssl maxPacketSize key pub) (aesKey : Bytes)
    (t : Text maxPacketSize) :
    ∃ buf, Aes.decrypt ssl.cipher (some aesKey) (sealText enc aesKey t.1) = .ok buf ∧
      buf.bytes = t.1.map some := by
  obtain ⟨bs, hBlocks, hAll, hFlat, -⟩ := padded_blocks t.1 t.2.2
  have hShort := t.2.2
  obtain ⟨-, hLe⟩ := padding_range (UInt64.ofNat t.1.length)
  rw [sealText, hBlocks]
  refine decrypt_encrypted aesKey h.inverts ?_ hAll hFlat ?_
  · rw [UInt64.toNat_ofNat_of_lt' (show t.1.length < 2 ^ 64 by omega)]
  · rw [List.length_append, length_addl]
    omega

/-- A frame does what the `switch` does. -/
theorem does_frame {f : PeerFrame maxPacketSize} {r : State Key ρ × Framing.Verdict}
    (hRun : dispatch ssl rand route f.1.startByte f.1.req (withBuffer s []) = r) {w : Bytes}
    {ps : List (List (Option UInt8))} {n : Nat} (hDoes : Does (withBuffer s []) r.1 w ps n) :
    (handle ssl maxPacketSize rand route s f).2 = r.2 ∧
      (handle ssl maxPacketSize rand route s f).1.od = r.1.od ∧
      Does s (handle ssl maxPacketSize rand route s f).1 w ps n := by
  have hHandle : handle ssl maxPacketSize rand route s f =
      (r.1.record (.handled f.1.startByte f.1.req s.od r.1.od), r.2) := by
    rw [← hRun]
    rfl
  have hBuffer : Does s (withBuffer s []) [] [] 0 := does_nothing rfl rfl
  have hAll := hBuffer.trans hDoes
  rw [List.nil_append, List.nil_append, Nat.zero_add] at hAll
  rw [hHandle]
  exact ⟨rfl, rfl, hAll.handled _ _ _ _⟩

/-- A packet is passed up. -/
theorem Works.does_packet (h : Works enc ssl maxPacketSize key pub) {aesKey : Bytes}
    (hKey : s.od.aes = some aesKey) (t : Text maxPacketSize) :
    (handle ssl maxPacketSize rand route s (h.packet aesKey t)).2 ≠ .shut ∧
      (handle ssl maxPacketSize rand route s (h.packet aesKey t)).1.od = s.od ∧
      Does s (handle ssl maxPacketSize rand route s (h.packet aesKey t)).1 []
        [t.1.map some] 0 := by
  obtain ⟨buf, hOpen, hText⟩ := h.open_seal aesKey t
  have hEmpty : (withBuffer s []).od.aes = some aesKey := hKey
  have hRun : dispatch ssl rand route sbSinglePacketAes (sealText enc aesKey t.1) (withBuffer s []) =
      onPacket ssl route (sealText enc aesKey t.1) (withBuffer s []) := if_pos rfl
  rw [onPacket, hEmpty, hOpen] at hRun
  dsimp only at hRun
  split at hRun
  · have hPass := does_record (withBuffer s []) (.packetOnAcceptor buf route)
    rw [Entry.passed?, hText] at hPass
    obtain ⟨hVerdict, hOd, hDoes⟩ := does_frame _ _ (f := h.packet aesKey t) hRun hPass
    refine ⟨?_, hOd, hDoes⟩
    rw [hVerdict]
    rintro ⟨⟩
  · have hPass := does_record (withBuffer s []) (.packetOnConnector buf route)
    rw [Entry.passed?, hText] at hPass
    obtain ⟨hVerdict, hOd, hDoes⟩ := does_frame _ _ (f := h.packet aesKey t) hRun hPass
    refine ⟨?_, hOd, hDoes⟩
    rw [hVerdict]
    rintro ⟨⟩

/-- Packets are passed up in order. -/
theorem Works.does_packets (h : Works enc ssl maxPacketSize key pub) {aesKey : Bytes}
    (ts : List (Text maxPacketSize)) :
    ∀ {s : State Key ρ}, s.od.aes = some aesKey →
      Honest ssl maxPacketSize rand route s (ts.map (h.packet aesKey)) ∧
      (handleAll ssl maxPacketSize rand route s (ts.map (h.packet aesKey))).od = s.od ∧
      Does s (handleAll ssl maxPacketSize rand route s (ts.map (h.packet aesKey))) []
        (ts.map fun t => t.1.map some) 0 := by
  induction ts with
  | nil => exact fun _ => ⟨trivial, rfl, does_nothing rfl rfl⟩
  | cons t ts ih =>
      intro s hKey
      obtain ⟨hOpen, hOd, hDoes⟩ := h.does_packet rand route hKey t
      obtain ⟨hHonest, hRest, hAll⟩ := ih (hOd ▸ hKey)
      exact ⟨⟨hOpen, hHonest⟩, hRest.trans hOd, hDoes.trans hAll⟩

/-- A key of 16 bytes is its own schedule. -/
theorem init_aes {aesKey : Bytes} (hSize : aesKey.length = 16) :
    Aes.init aesKey = .ok (some aesKey) := by
  have hBuff : keyBuff aesKey = aesKey := by
    rw [keyBuff, List.replicate_succ, List.flatten_cons, List.take_left' hSize]
  have hNonempty : aesKey ≠ [] := by
    rintro rfl
    cases hSize
  rw [Aes.init, if_neg hNonempty, hBuff]

/-- The first hello is answered with a session key. -/
theorem Works.does_hello (h : Works enc ssl maxPacketSize key pub) {aesKey : Bytes}
    (hSize : aesKey.length = 16) :
    ∃ (c : Bytes) (hc : (putPSTR c).length ≤ maxPacketSize.toNat),
      ssl.privateDecrypt key c = .ok aesKey ∧
      (handle ssl maxPacketSize (.ok aesKey) route s h.hello).2 ≠ .shut ∧
      (handle ssl maxPacketSize (.ok aesKey) route s h.hello).1.od = ⟨some pub, some aesKey⟩ ∧
      Does s (handle ssl maxPacketSize (.ok aesKey) route s h.hello).1
        (keyFrame hc).1.encode [] 0 := by
  obtain ⟨c, hEncrypt, hDecrypt, hc⟩ := h.trip aesKey hSize
  refine ⟨c, hc, hDecrypt, ?_⟩
  have hFits : (ssl.getPublicKey key).length < 2 ^ 64 := by
    have hShort := h.hello_short
    have hLt := maxPacketSize.toNat_lt
    rw [helloBody, List.length_append, putPSTR, List.length_append] at hShort
    omega
  have hPeer : peerHello (helloBody ssl key) = .ok (ssl.getPublicKey key, coreVersion) := by
    have hReads : Reads (do
        let pubkey ← getPSTR
        let version ← getPN
        return (pubkey, version.toInt64)) (helloBody ssl key)
        (ssl.getPublicKey key, coreVersion) :=
      (reads_getPSTR hFits).bind ((reads_getPN coreVersion.toUInt64).map fun version =>
        (ssl.getPublicKey key, version.toInt64))
    obtain ⟨b, hRun, -⟩ := hReads (InBuffer.ofBytes (helloBody ssl key)) [] (List.append_nil _).symm
    exact congrArg (Except.map Prod.fst) hRun
  have hNew : newSessionKey (.ok aesKey) = .ok (aesKey, some aesKey) :=
    congrArg (Except.map fun aes => (aesKey, aes)) (init_aes hSize)
  have hRun : dispatch ssl (.ok aesKey) route sbHelloSslS2C (helloBody ssl key) (withBuffer s []) =
      onHelloSsl ssl (.ok aesKey) (helloBody ssl key) (withBuffer s []) := rfl
  rw [onHelloSsl, hPeer] at hRun
  dsimp only at hRun
  rw [if_neg (not_not.2 rfl), h.fromPublicKey] at hRun
  dsimp only at hRun
  rw [hNew] at hRun
  dsimp only at hRun
  rw [hEncrypt] at hRun
  have hAnswer := (does_install (withBuffer s []) (some pub) (some aesKey)).trans
    (does_record _ (.write (keyFrame hc).1.encode))
  obtain ⟨hVerdict, hOd, hDoes⟩ := does_frame _ _ (f := h.hello) hRun hAnswer
  refine ⟨?_, hOd, hDoes⟩
  rw [hVerdict]
  rintro ⟨⟩

/-- The session key is answered with the second hello. -/
theorem does_keyFrame {aesKey c : Bytes} (hSize : aesKey.length = 16)
    (hc : (putPSTR c).length ≤ maxPacketSize.toNat) (hDecrypt : ssl.privateDecrypt key c = .ok aesKey)
    (hRsa : s.od.rsa = some key) (hRole : s.esi.mStreamType = .accepted) :
    (handle ssl maxPacketSize rand route s (keyFrame hc)).2 ≠ .shut ∧
      (handle ssl maxPacketSize rand route s (keyFrame hc)).1.od = ⟨some key, some aesKey⟩ ∧
      Does s (handle ssl maxPacketSize rand route s (keyFrame hc)).1
        (readyFrame maxPacketSize).1.encode [] 0 := by
  have hFits : c.length < 2 ^ 64 := by
    have hLt := maxPacketSize.toNat_lt
    rw [putPSTR, List.length_append] at hc
    omega
  have hSession : sessionKey ssl (some key) (putPSTR c) = .ok (some aesKey) := by
    obtain ⟨b, hRun, -⟩ := reads_getPSTR hFits (InBuffer.ofBytes (putPSTR c)) []
      (List.append_nil _).symm
    have hText : StateT.run' getPSTR (InBuffer.ofBytes (putPSTR c)) = .ok c :=
      congrArg (Except.map Prod.fst) hRun
    rw [sessionKey, hText]
    show (ssl.privateDecrypt key c).bind Aes.init = _
    rw [hDecrypt]
    exact init_aes hSize
  have hEmpty : (withBuffer s []).od.rsa = some key := hRsa
  have hRun : dispatch ssl rand route sbSetAesKeyC2S (putPSTR c) (withBuffer s []) =
      onSetAesKey ssl (putPSTR c) (withBuffer s []) := rfl
  have hSame : ({ withBuffer s [] with od := ⟨some key, (withBuffer s []).od.aes⟩ } : State Key ρ) =
      withBuffer s [] := by
    rw [← hEmpty]
  rw [onSetAesKey, hEmpty, hSession] at hRun
  dsimp only at hRun
  rw [if_neg (not_not.2 (show ((withBuffer s []).install (some aesKey)).esi.mStreamType = _ from
    hRole))] at hRun
  have hAnswer := (does_install (withBuffer s []) (some key) (some aesKey)).trans
    (does_record _ (.write (readyFrame maxPacketSize).1.encode))
  rw [hSame] at hAnswer
  obtain ⟨hVerdict, hOd, hDoes⟩ := does_frame _ _ (f := keyFrame hc) hRun hAnswer
  refine ⟨?_, hOd.trans ?_, hDoes⟩
  · rw [hVerdict]
    rintro ⟨⟩
  · show OscarSecureData.mk s.od.rsa (some aesKey) = _
    rw [hRsa]

/-- The second hello is passed up as `Connected`. -/
theorem does_readyFrame (s : State Key ρ) :
    (handle ssl maxPacketSize rand route s (readyFrame maxPacketSize)).2 ≠ .shut ∧
      (handle ssl maxPacketSize rand route s (readyFrame maxPacketSize)).1.od = s.od ∧
      Does s (handle ssl maxPacketSize rand route s (readyFrame maxPacketSize)).1 [] [] 1 := by
  have hRun : dispatch ssl rand route sbHelloSsl2S2C [] (withBuffer s []) =
      onHelloSsl2 route (withBuffer s []) := rfl
  obtain ⟨hVerdict, hOd, hDoes⟩ := does_frame _ _ (f := readyFrame maxPacketSize) hRun
    (does_record (withBuffer s []) (.connected route))
  refine ⟨?_, hOd, hDoes⟩
  rw [hVerdict]
  rintro ⟨⟩

end Effects

end Megatron.OscarSecure
