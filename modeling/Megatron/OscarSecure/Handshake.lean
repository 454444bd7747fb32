import Megatron.Lib.Trace
import Megatron.OscarSecure.Service

/-!
# The handshake of a secure socket

The peer chooses the frames and their order, on a socket of either role.  What
the layers above may rely on is `Sound`; the service keeps it while no frame
and no socket event does what `Fits` excludes.  Most of `Fits` is what the
service does not ask: which role the socket has, whether it has a session key,
whether it was reported before.

## Main results

* `handshake_sound` — a run whose steps all meet `Fits` is `Sound`.
* `handshake_breaks` — one frame of two bytes breaks it on any socket.
-/

namespace Megatron.OscarSecure

open Megatron.Corelib Megatron.Lib Megatron.Ssl
open Megatron.Oscar (StreamType coreVersion)

variable {Key ρ : Type}

namespace Entry

def isConnected : Entry Key ρ → Bool
  | connected _ => true
  | _ => false

def isAccepted : Entry Key ρ → Bool
  | accepted _ => true
  | _ => false

def isDisconnected : Entry Key ρ → Bool
  | disconnected _ _ => true
  | _ => false

def isDisaccepted : Entry Key ρ → Bool
  | disaccepted _ _ => true
  | _ => false

def isPacket : Entry Key ρ → Bool
  | packetOnAcceptor _ _ | packetOnConnector _ _ => true
  | _ => false

def isInstalled : Entry Key ρ → Bool
  | installed => true
  | _ => false

end Entry

/-- The handshake frames of the other side. -/
def WrongRole (mStreamType : StreamType) (startByte : UInt8) : Prop :=
  (startByte = sbSetAesKeyC2S ∧ mStreamType ≠ .accepted) ∨
    ((startByte = sbHelloSslS2C ∨ startByte = sbHelloSsl2S2C) ∧ mStreamType ≠ .connected)

/-- What the handshake guarantees of everything done on a socket. -/
structure Sound (mStreamType : StreamType) (t : List (Entry Key ρ)) : Prop where
  connected_once : t.countP Entry.isConnected ≤ 1
  connected_role : Occurs Entry.isConnected t → mStreamType = .connected
  connected_keyed : Preceded Entry.isInstalled Entry.isConnected t
  accepted_once : mStreamType = .accepted → Occurs Entry.isInstalled t →
    t.countP Entry.isAccepted = 1
  accepted_only : Occurs Entry.isAccepted t → mStreamType = .accepted
  accepted_keyed : Preceded Entry.isInstalled Entry.isAccepted t
  disconnected_after : Preceded Entry.isConnected Entry.isDisconnected t
  disaccepted_after : Preceded Entry.isAccepted Entry.isDisaccepted t
  payload_keyed : Preceded Entry.isInstalled Entry.isPacket t
  wrong_role : ∀ startByte req before after, .handled startByte req before after ∈ t →
    WrongRole mStreamType startByte → after = before

/-- What a session key must meet: it is not for an accepted socket, and it
replaces no other. -/
def KeyFits (s : State Key ρ) : Except CommonError Aes → Prop
  | .ok aes => s.esi.mStreamType ≠ .accepted ∧ aes = s.od.aes
  | .error _ => True

/-- What a hello must meet on a socket that was not opened by `connect`: the
version or the key is refused, and no RSA key is lost by that. -/
def HelloFits (ssl : Ssl Key) (rand : Except CommonError Bytes) (s : State Key ρ) :
    Except CommonError (Bytes × Int64) → Prop
  | .ok (pubkey, version) => version >>> 8 = coreVersion >>> 8 →
      ssl.fromPublicKey pubkey = s.od.rsa ∧
        (s.od.rsa ≠ none → (newSessionKey rand).toOption = none)
  | .error _ => True

/-- What a frame must meet, in the state it is handled in. -/
def FrameFits (ssl : Ssl Key) (rand : Except CommonError Bytes) (startByte : UInt8)
    (req : Bytes) (s : State Key ρ) : Prop :=
  if startByte = sbSetAesKeyC2S then KeyFits s (sessionKey ssl s.od.rsa req)
  else if startByte = sbHelloSsl2S2C then
    s.esi.mStreamType = .connected ∧ s.od.aes ≠ none ∧ ¬ Occurs Entry.isConnected s.trace
  else if startByte = sbHelloSslS2C then
    s.esi.mStreamType = .connected ∨ HelloFits ssl rand s (peerHello req)
  else True

/-- What the rest of the loop must meet, where there is one. -/
def RestFits (next : State Key ρ → Prop) : State Key ρ × Framing.Verdict → Prop
  | (s, .next) => next s
  | (_, .leave) | (_, .shut) => True

def TakenFits (ssl : Ssl Key) (rand : Except CommonError Bytes) (route : ρ)
    (next : State Key ρ → Prop) (s : State Key ρ) : Taken → Prop
  | .wait | .broken _ => True
  | .frame startByte req rest => FrameFits ssl rand startByte req s ∧
      RestFits next (handleFrame ssl rand route startByte req rest s)

/-- Every frame that `on_StreamRead` handles meets `FrameFits`. -/
def LoopFits (ssl : Ssl Key) (maxPacketSize : UInt64) (rand : Except CommonError Bytes)
    (route : ρ) : Nat → State Key ρ → Prop
  | 0, _ => True
  | fuel + 1, s => TakenFits ssl rand route (LoopFits ssl maxPacketSize rand route fuel) s
      (takeFrame maxPacketSize s.esi.mInBuffer)

/-- What a step must meet: every frame fits, and the end of the connection is
reported after its beginning. -/
def Fits (ssl : Ssl Key) (maxPacketSize : UInt64) (s : State Key ρ) : Action Key ρ → Prop
  | .streamRead rand route =>
      LoopFits ssl maxPacketSize rand route (s.esi.mInBuffer.length + 1) s
  | .disconnected _ _ => Occurs Entry.isConnected s.trace
  | .disaccepted _ _ => Occurs Entry.isAccepted s.trace
  | .arrive _ | .accepted _ | .connected => True

section Decidable

variable [DecidableEq Key]

instance (s : State Key ρ) : (r : Except CommonError Aes) → Decidable (KeyFits s r)
  | .ok _ => inferInstanceAs (Decidable (_ ∧ _))
  | .error _ => .isTrue trivial

instance (ssl : Ssl Key) (rand : Except CommonError Bytes) (s : State Key ρ) :
    (r : Except CommonError (Bytes × Int64)) → Decidable (HelloFits ssl rand s r)
  | .ok (_, _) => inferInstanceAs (Decidable (_ → _))
  | .error _ => .isTrue trivial

instance (ssl : Ssl Key) (rand : Except CommonError Bytes) (startByte : UInt8) (req : Bytes)
    (s : State Key ρ) : Decidable (FrameFits ssl rand startByte req s) :=
  inferInstanceAs (Decidable
    (if startByte = sbSetAesKeyC2S then KeyFits s (sessionKey ssl s.od.rsa req)
    else if startByte = sbHelloSsl2S2C then
      s.esi.mStreamType = .connected ∧ s.od.aes ≠ none ∧ ¬ Occurs Entry.isConnected s.trace
    else if startByte = sbHelloSslS2C then
      s.esi.mStreamType = .connected ∨ HelloFits ssl rand s (peerHello req)
    else True))

instance (next : State Key ρ → Prop) [h : ∀ s, Decidable (next s)] :
    (r : State Key ρ × Framing.Verdict) → Decidable (RestFits next r)
  | (s, .next) => h s
  | (_, .leave) | (_, .shut) => .isTrue trivial

instance (ssl : Ssl Key) (rand : Except CommonError Bytes) (route : ρ)
    (next : State Key ρ → Prop) [∀ s, Decidable (next s)] (s : State Key ρ) :
    (r : Taken) → Decidable (TakenFits ssl rand route next s r)
  | .wait | .broken _ => .isTrue trivial
  | .frame _ _ _ => inferInstanceAs (Decidable (_ ∧ _))

instance decidableLoopFits (ssl : Ssl Key) (maxPacketSize : UInt64)
    (rand : Except CommonError Bytes) (route : ρ) :
    (fuel : Nat) → (s : State Key ρ) →
      Decidable (LoopFits ssl maxPacketSize rand route fuel s)
  | 0, _ => .isTrue trivial
  | fuel + 1, s =>
      have := decidableLoopFits ssl maxPacketSize rand route fuel
      inferInstanceAs (Decidable (TakenFits _ _ _ _ s _))

instance (ssl : Ssl Key) (maxPacketSize : UInt64) (s : State Key ρ) :
    (a : Action Key ρ) → Decidable (Fits ssl maxPacketSize s a)
  | .streamRead _ _ => decidableLoopFits _ _ _ _ _ _
  | .disconnected _ _ => inferInstanceAs (Decidable (Occurs _ _))
  | .disaccepted _ _ => inferInstanceAs (Decidable (Occurs _ _))
  | .arrive _ | .accepted _ | .connected => .isTrue trivial

instance (ssl : Ssl Key) (maxPacketSize : UInt64) (s : State Key ρ) (a : Action Key ρ) :
    Decidable ((machine ssl maxPacketSize).enabled s a) := .isTrue trivial

end Decidable

/-! ## What one entry does -/

/-- What the entry asks of the state it is recorded in. -/
def Allowed (s : State Key ρ) : Entry Key ρ → Prop
  | .connected _ =>
      s.esi.mStreamType = .connected ∧ s.od.aes ≠ none ∧ ¬ Occurs Entry.isConnected s.trace
  | .accepted _ => False
  | .disconnected _ _ => Occurs Entry.isConnected s.trace
  | .disaccepted _ _ => Occurs Entry.isAccepted s.trace
  | .packetOnAcceptor _ _ | .packetOnConnector _ _ => s.od.aes ≠ none
  | .write _ | .close _ => True
  | .installed => s.esi.mStreamType ≠ .accepted
  | .handled startByte _ before after =>
      WrongRole s.esi.mStreamType startByte → after = before

/-- `Sound`, and what the user data says about the trace. -/
structure Kept (s : State Key ρ) : Prop where
  sound : Sound s.esi.mStreamType s.trace
  keyed : s.od.aes ≠ none → Occurs Entry.isInstalled s.trace
  unkeyed : s.esi.mStreamType = .accepted → ¬ Occurs Entry.isInstalled s.trace
  silent : ¬ Occurs Entry.isAccepted s.trace

variable {s : State Key ρ}

theorem kept_fresh (mId : Nat) (st : StreamType) :
    Kept (State.fresh mId st : State Key ρ) where
  sound := ⟨Nat.zero_le _, by simp [Occurs, State.fresh], trivial, by simp [Occurs, State.fresh],
    by simp [Occurs, State.fresh], trivial, trivial, trivial, trivial, by simp [State.fresh]⟩
  keyed h := absurd rfl h
  unkeyed _ := by simp [Occurs, State.fresh]
  silent := by simp [Occurs, State.fresh]

/-- One entry more, while nothing has been reported as accepted. -/
theorem Sound.cons {st : StreamType} {t : List (Entry Key ρ)} (h : Sound st t) {e : Entry Key ρ}
    (hSilent : ¬ Occurs Entry.isAccepted (e :: t))
    (hUnkeyed : st = .accepted → ¬ Occurs Entry.isInstalled (e :: t))
    (hConnected : e.isConnected = true →
      st = .connected ∧ Occurs Entry.isInstalled t ∧ ¬ Occurs Entry.isConnected t)
    (hDisconnected : e.isDisconnected = true → Occurs Entry.isConnected t)
    (hDisaccepted : e.isDisaccepted = true → Occurs Entry.isAccepted t)
    (hPacket : e.isPacket = true → Occurs Entry.isInstalled t)
    (hHandled : ∀ startByte req before after, e = .handled startByte req before after →
      WrongRole st startByte → after = before) : Sound st (e :: t) where
  connected_once := by
    rw [List.countP_cons]
    by_cases hNew : e.isConnected = true
    · have hNone : t.countP Entry.isConnected = 0 := by
        rw [List.countP_eq_zero]
        exact fun x hx hIs => (hConnected hNew).2.2 ⟨x, hx, hIs⟩
      rw [hNone, if_pos hNew]
    · rw [if_neg hNew]
      exact h.connected_once
  connected_role hOccurs := (occurs_cons.1 hOccurs).elim (fun hNew => (hConnected hNew).1)
    h.connected_role
  connected_keyed := ⟨fun hNew => (hConnected hNew).2.1, h.connected_keyed⟩
  accepted_once hRole hKey := absurd hKey (hUnkeyed hRole)
  accepted_only hOccurs := absurd hOccurs hSilent
  accepted_keyed := ⟨fun hNew => absurd (occurs_cons.2 (Or.inl hNew)) hSilent, h.accepted_keyed⟩
  disconnected_after := ⟨hDisconnected, h.disconnected_after⟩
  disaccepted_after := ⟨hDisaccepted, h.disaccepted_after⟩
  payload_keyed := ⟨hPacket, h.payload_keyed⟩
  wrong_role startByte req before after hMem hRole := by
    rcases List.mem_cons.1 hMem with hNew | hOld
    · exact hHandled startByte req before after hNew.symm hRole
    · exact h.wrong_role startByte req before after hOld hRole

/-- **One entry.** -/
theorem Kept.record (h : Kept s) {e : Entry Key ρ} (he : Allowed s e) : Kept (s.record e) := by
  have hSilent : ¬ Occurs Entry.isAccepted (e :: s.trace) := by
    rw [occurs_cons, not_or]
    refine ⟨fun hNew => ?_, h.silent⟩
    cases e with
    | accepted route => exact he
    | _ => exact Bool.false_ne_true hNew
  have hUnkeyed : s.esi.mStreamType = .accepted →
      ¬ Occurs Entry.isInstalled (e :: s.trace) := by
    intro hRole
    rw [occurs_cons, not_or]
    refine ⟨fun hNew => ?_, h.unkeyed hRole⟩
    cases e with
    | installed => exact he hRole
    | _ => exact Bool.false_ne_true hNew
  refine ⟨h.sound.cons hSilent hUnkeyed ?_ ?_ ?_ ?_ ?_, fun hKey => (h.keyed hKey).cons e, hUnkeyed,
    hSilent⟩
  · intro hNew
    cases e with
    | connected route => exact ⟨he.1, h.keyed he.2.1, he.2.2⟩
    | _ => exact absurd hNew Bool.false_ne_true
  · intro hNew
    cases e with
    | disconnected reason route => exact he
    | _ => exact absurd hNew Bool.false_ne_true
  · intro hNew
    cases e with
    | disaccepted reason route => exact he
    | _ => exact absurd hNew Bool.false_ne_true
  · intro hNew
    cases e with
    | packetOnAcceptor buf route => exact h.keyed he
    | packetOnConnector buf route => exact h.keyed he
    | _ => exact absurd hNew Bool.false_ne_true
  · rintro startByte req before after rfl hRole
    exact he hRole

/-- The socket itself plays no part, its role apart. -/
theorem Kept.of_same {s' : State Key ρ} (h : Kept s)
    (hRole : s'.esi.mStreamType = s.esi.mStreamType) (hTrace : s'.trace = s.trace)
    (hAes : s'.od.aes = s.od.aes) : Kept s' where
  sound := by rw [hRole, hTrace]; exact h.sound
  keyed hKey := by rw [hTrace]; exact h.keyed (hAes ▸ hKey)
  unkeyed hAccepted := by rw [hTrace]; exact h.unkeyed (hRole ▸ hAccepted)
  silent := by rw [hTrace]; exact h.silent

theorem Kept.close (h : Kept s) (reason : String) : Kept (s.close reason) :=
  (h.record (e := .close reason) trivial).of_same rfl rfl rfl

theorem Kept.install (h : Kept s) (aes : Aes) (hRole : s.esi.mStreamType ≠ .accepted) :
    Kept (s.install aes) := by
  have hRecord := h.record (e := .installed) hRole
  exact ⟨hRecord.sound, fun _ => occurs_cons.2 (Or.inl rfl), hRecord.unkeyed, hRecord.silent⟩

/-! ## The frames -/

/-- A frame is in order when it keeps `Kept` and, where it belongs to the other
side, the user data. -/
structure Handled (s s' : State Key ρ) (startByte : UInt8) : Prop where
  kept : Kept s'
  mStreamType_eq : s'.esi.mStreamType = s.esi.mStreamType
  od_eq : WrongRole s.esi.mStreamType startByte → s'.od = s.od

variable {ssl : Ssl Key} {rand : Except CommonError Bytes} {route : ρ} {req : Bytes}

theorem handled_unknown (h : Kept s) (startByte : UInt8) : Handled s s.unknown startByte :=
  ⟨h.close _, rfl, fun _ => rfl⟩

theorem handled_onPacket (h : Kept s) :
    Handled s (onPacket ssl route req s).1 sbSinglePacketAes := by
  rw [onPacket]
  cases hRun : s.od.aes.decrypt ssl.cipher req with
  | error e => exact handled_unknown h _
  | ok buf =>
      have hKey : s.od.aes ≠ none := by
        intro hNone
        rw [hNone] at hRun
        cases hRun
      simp only
      split
      · exact ⟨h.record hKey, rfl, fun _ => rfl⟩
      · exact ⟨h.record hKey, rfl, fun _ => rfl⟩

theorem handled_onSetAesKey (h : Kept s) (hFits : FrameFits ssl rand sbSetAesKeyC2S req s) :
    Handled s (onSetAesKey ssl req s).1 sbSetAesKeyC2S := by
  rw [FrameFits, if_pos rfl] at hFits
  rw [onSetAesKey]
  cases hRun : sessionKey ssl s.od.rsa req with
  | error e => exact handled_unknown h _
  | ok aes =>
      rw [hRun] at hFits
      obtain ⟨hRole, rfl⟩ := hFits
      have hInstall := h.install s.od.aes hRole
      have hSame : (s.install s.od.aes).esi.mStreamType ≠ .accepted := hRole
      simp only
      rw [if_pos hSame]
      exact ⟨hInstall.close _, rfl, fun _ => rfl⟩

theorem handled_onHelloSsl2 (h : Kept s) (hFits : FrameFits ssl rand sbHelloSsl2S2C req s) :
    Handled s (onHelloSsl2 route s).1 sbHelloSsl2S2C := by
  rw [FrameFits, if_neg (by decide), if_pos rfl] at hFits
  exact ⟨h.record hFits, rfl, fun _ => rfl⟩

theorem handled_onHelloSsl (h : Kept s) (hFits : FrameFits ssl rand sbHelloSslS2C req s) :
    Handled s (onHelloSsl ssl rand req s).1 sbHelloSslS2C := by
  rw [FrameFits, if_neg (by decide), if_neg (by decide), if_pos rfl] at hFits
  rw [onHelloSsl]
  cases hHello : peerHello req with
  | error e => exact handled_unknown h _
  | ok hello =>
      obtain ⟨pubkey, version⟩ := hello
      simp only
      split
      · exact ⟨h.close _, rfl, fun _ => rfl⟩
      rename_i hVersion
      rw [not_not] at hVersion
      rcases hFits with hRole | hFits
      · -- the right role: whatever comes in is taken
        have hRight : ¬ WrongRole s.esi.mStreamType sbHelloSslS2C := by
          rintro (⟨hByte, -⟩ | ⟨-, hNot⟩)
          · exact absurd hByte (by decide)
          · exact hNot hRole
        have hNot : s.esi.mStreamType ≠ .accepted := by rw [hRole]; decide
        have hRsa : ∀ rsa, Kept { s with od := { s.od with rsa := rsa } } :=
          fun _ => h.of_same rfl rfl rfl
        split
        · exact ⟨(hRsa _).close _, rfl, fun hWrong => absurd hWrong hRight⟩
        split
        · exact ⟨(hRsa _).close _, rfl, fun hWrong => absurd hWrong hRight⟩
        rename_i aes _
        have hInstall := (hRsa (ssl.fromPublicKey pubkey)).install aes hNot
        split
        · exact ⟨hInstall.close _, rfl, fun hWrong => absurd hWrong hRight⟩
        · exact ⟨hInstall.record trivial, rfl, fun hWrong => absurd hWrong hRight⟩
      · -- the wrong role: the key is the old one, and there is no other
        rw [hHello] at hFits
        obtain ⟨hSame, hNone⟩ := hFits hVersion
        have hState : { s with od := { s.od with rsa := ssl.fromPublicKey pubkey } } = s := by
          rw [hSame]
        rw [hState]
        split
        · exact handled_unknown h _
        rename_i hKey
        split
        · exact handled_unknown h _
        rename_i hNew
        have hFails := hNone (by rw [← hSame, hKey]; exact Option.some_ne_none _)
        rw [hNew] at hFails
        cases hFails

theorem handled_dispatch (route : ρ) (h : Kept s) {startByte : UInt8}
    (hFits : FrameFits ssl rand startByte req s) :
    Handled s (dispatch ssl rand route startByte req s).1 startByte := by
  rw [dispatch]
  split
  · rename_i hByte
    subst hByte
    exact handled_onPacket h
  split
  · rename_i hByte
    subst hByte
    exact handled_onSetAesKey h hFits
  split
  · rename_i hByte
    subst hByte
    exact handled_onHelloSsl2 h hFits
  split
  · rename_i hByte
    subst hByte
    exact handled_onHelloSsl h hFits
  · exact ⟨h.close _, rfl, fun _ => rfl⟩

/-- One frame keeps `Kept`. -/
theorem kept_handleFrame (route : ρ) (rest : Bytes) (h : Kept s) {startByte : UInt8}
    (hFits : FrameFits ssl rand startByte req s) :
    Kept (handleFrame ssl rand route startByte req rest s).1 := by
  have hTaken : Kept { s with esi := { s.esi with mInBuffer := rest } } := h.of_same rfl rfl rfl
  obtain ⟨hKept, hRole, hSame⟩ := handled_dispatch route hTaken hFits
  refine hKept.record fun hWrong => hSame ?_
  rw [← hRole]
  exact hWrong

theorem kept_streamReadLoop {maxPacketSize : UInt64} :
    ∀ (fuel : Nat) (s : State Key ρ), Kept s →
      LoopFits ssl maxPacketSize rand route fuel s →
        Kept (streamReadLoop ssl maxPacketSize rand route fuel s) := by
  intro fuel
  induction fuel with
  | zero => exact fun s h _ => h
  | succ fuel ih =>
      intro s h hFits
      rw [LoopFits] at hFits
      rw [streamReadLoop]
      split
      · exact h
      · exact h.close _
      · rename_i startByte req rest hTake
        rw [hTake, TakenFits] at hFits
        obtain ⟨hFrame, hRest⟩ := hFits
        have hNext := kept_handleFrame route rest h hFrame
        split
        · rename_i hRun
          rw [hRun] at hNext hRest
          exact ih _ hNext hRest
        · rename_i hRun
          rw [hRun] at hNext
          exact hNext

theorem kept_apply {maxPacketSize : UInt64} (h : Kept s) {a : Action Key ρ}
    (hFits : Fits ssl maxPacketSize s a) : Kept (apply ssl maxPacketSize s a) := by
  cases a with
  | arrive chunk => exact h.of_same rfl rfl rfl
  | streamRead rand route => exact kept_streamReadLoop _ s h hFits
  | accepted key =>
      have hRsa : Kept { s with od := { s.od with rsa := some (key.getD ssl.new) } } :=
        h.of_same rfl rfl rfl
      cases key with
      | none => exact hRsa
      | some key => exact hRsa.record trivial
  | connected => exact h
  | disconnected reason route => exact h.record hFits
  | disaccepted reason route => exact h.record hFits

/--
**The handshake.** In every run on a socket of either role whose steps all
meet `Fits`, whatever arrives in whatever pieces, everything done is `Sound`.
-/
theorem handshake_sound (ssl : Ssl Key) (maxPacketSize : UInt64) {s : State Key ρ}
    (hReach : ((machine ssl maxPacketSize).guarded (Fits ssl maxPacketSize)).Reachable s) :
    Sound s.esi.mStreamType s.trace := by
  have hKept : Kept s := by
    refine Machine.Reachable.invariant (I := Kept) ?_ ?_ hReach
    · rintro _ ⟨mId, rfl | rfl⟩
      · exact kept_fresh mId _
      · exact kept_fresh mId _
    · exact fun s a h hEn => kept_apply h hEn.2
  exact hKept.sound

/-- An SSL module whose keys are byte strings and whose encryption is none. -/
def plain : Ssl Bytes where
  new := []
  getPublicKey := id
  fromPublicKey pubkey := if pubkey = [] then none else some pubkey
  privateDecrypt _ m := .ok m
  publicEncrypt _ m := .ok m
  cipher _ d := d

/-- A run on a new socket. -/
def run (mStreamType : StreamType) (acts : List (Action Bytes Unit)) : State Bytes Unit :=
  (machine plain 1024).exec (.fresh 1 mStreamType) acts

/-- The connecting side: the hello, the answer to the session key, and a packet
of one byte. -/
def connects : List (Action Bytes Unit) :=
  [.connected,
   .arrive (Oscar.sendPacketPlain sbHelloSslS2C (some (putPSTR [7] ++ putPN 0x300))),
   .streamRead (.ok [1, 2, 3]) (),
   .arrive (Oscar.sendPacketPlain sbHelloSsl2S2C (some [])),
   .streamRead (.ok [4]) (),
   .arrive (Oscar.sendPacketPlain sbSinglePacketAes (some (5 :: List.replicate 15 15))),
   .streamRead (.ok [4]) (),
   .disconnected "socket closed" ()]

theorem connects_sound :
    Sound (run .connected connects).esi.mStreamType (run .connected connects).trace ∧
      (run .connected connects).trace.countP Entry.isPacket = 1 :=
  ⟨handshake_sound plain 1024 ⟨.fresh 1 .connected, connects, ⟨1, Or.inr rfl⟩, by decide +kernel,
    Machine.exec_guarded _ _ _ _⟩, by decide +kernel⟩

/-- What a peer sends without any key. -/
def early : List (Action Bytes Unit) := [.arrive [0x16, 0x00], .streamRead (.ok []) ()]

/-- A complete handshake on an accepted socket. -/
def accepts : List (Action Bytes Unit) :=
  [.accepted (some [7]),
   .arrive (Oscar.sendPacketPlain sbSetAesKeyC2S (some (putPSTR [1, 2, 3]))),
   .streamRead (.ok []) ()]

/-- A session key sent to the connecting side, after its own. -/
def replaces : List (Action Bytes Unit) :=
  connects.take 3 ++
    [.arrive (Oscar.sendPacketPlain sbSetAesKeyC2S (some (putPSTR [9]))), .streamRead (.ok []) ()]

/-- Two bytes make an accepted socket report that it is connected; a complete
handshake reports nothing on an accepted socket; and a session key is taken on
a socket that only sends one. -/
theorem handshake_breaks :
    Occurs Entry.isConnected (run .accepted early).trace ∧
    Occurs Entry.isInstalled (run .accepted accepts).trace ∧
    (run .accepted accepts).trace.countP Entry.isAccepted = 0 ∧
    (run .connected replaces).od.aes = some (keyBuff [9]) ∧
    ¬ ∀ s, (machine (ρ := Unit) plain 1024).Reachable s → Sound s.esi.mStreamType s.trace := by
  have hConnected : Occurs Entry.isConnected (run .accepted early).trace := by decide +kernel
  refine ⟨hConnected, by decide +kernel, by decide +kernel, by decide +kernel, fun hAll => ?_⟩
  have hReach : (machine plain 1024).Reachable (run .accepted early) :=
    ⟨.fresh 1 .accepted, early, ⟨1, Or.inl rfl⟩, ⟨trivial, trivial, trivial⟩, rfl⟩
  have hRole := (hAll _ hReach).connected_role hConnected
  exact absurd hRole (by decide +kernel)

end Megatron.OscarSecure
