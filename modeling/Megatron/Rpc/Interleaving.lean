import Megatron.Rpc.Delivery

/-!
# Delivery, handlers interleaved

The handlers of a `ListenerSimple` run on their callers' threads.  Here any
number of threads send packets to one address while the `Connected` events of
its connections are delivered, and the scheduler may switch between any two
locked sections and at every synchronous call.  A thread is its program
counter (`Pc`); `stepThread` runs it to the next such point with the steps of
`Megatron.Rpc.Service`.

The lookup of `on_SendPacket` and the `emplace` behind its `Connect` are two
locked sections.  While a thread is between them (`Pc.gap`) the address has a
connection but no session: a second sender opens another connection for a
session no map leads to, and a `Connected` finds nothing.

## Main results

* `delivery_interleaved` — if no lookup falls into another thread's gap, one
  `Connect` is issued, every `Connected` finds its session, and every accepted
  packet is handed to Oscar once or waits in the registered session.
* `two_senders_two_connects` — two lookups in a row violate this.
* `runThread_sendPacket` — a thread that is not interrupted is the atomic
  handler.
-/

namespace Megatron.Rpc

open Megatron.Corelib
open Megatron.Lib
open State

variable {Addr : Type} {Ev : Type}

abbrev ThreadId := Nat

/-! ## Threads -/

/-- Where a thread is: between two locked sections or synchronous calls of
`on_SendPacket` (`start`, `missed`, `emplacing`, `adding`), of `on_Connected`
(`find`, `notifying`) or of `doSend` (`sending`). -/
inductive Pc (Addr Ev : Type) where
  | idle
  | start (destination : ServiceId) (ev : Ev)
  | missed (destination : ServiceId) (ev : Ev)
  | emplacing (r : SessionRef) (destination : ServiceId) (ev : Ev)
  | adding (r : SessionRef) (destination : ServiceId) (ev : Ev)
  | sending (r : SessionRef)
  | find (esi : Esi Addr)
  | notifying (r : SessionRef) (esi : Esi Addr) (subscribers : List RouteT)

namespace Pc

def isIdle : Pc Addr Ev → Bool
  | .idle => true
  | _ => false

/-- Between a lookup that found nothing and the `emplace`. -/
def gap : Pc Addr Ev → Bool
  | .missed _ _ => true
  | .emplacing _ _ _ => true
  | _ => false

/-- In the gap with the `Connect` issued. -/
def pending : Pc Addr Ev → Option SessionRef
  | .emplacing r _ _ => some r
  | _ => none

/-- About to look the address up. -/
def looksUp : Pc Addr Ev → Bool
  | .start _ _ => true
  | .find _ => true
  | _ => false

/-- The session a thread has found or put into the map. -/
def holds : Pc Addr Ev → Option SessionRef
  | .adding r _ _ => some r
  | .sending r => some r
  | .notifying r _ _ => some r
  | _ => none

theorem pending_eq_none {q : Pc Addr Ev} (h : q.gap = false) : q.pending = none := by
  cases q <;> first | rfl | cases h

end Pc

variable [DecidableEq Addr] (packEvent : Ev → Except CommonError Bytes) (addr : Addr)

/-- One step of a thread; `sockId` is what `getSocketId` returns in it. -/
def stepThread (sockId : SocketId) (s : State Addr) : Pc Addr Ev → State Addr × Pc Addr Ev
  | .idle => (s, .idle)
  | .start destination ev =>
      match s.mxSa2Session.lookup addr with
      | some r => (s, .adding r destination ev)
      | none => (s, .missed destination ev)
  | .missed destination ev =>
      ((s.newSession sockId none).emit (.connect sockId addr),
        .emplacing s.nextRef destination ev)
  | .emplacing r destination ev => (s.emplaceSa addr r, .adding r destination ev)
  | .adding r destination ev =>
      match packSend packEvent destination ev with
      | .error e => (s.emit (.commonError .onSendPacket e.what), .idle)
      | .ok p =>
          if (s.heap r).esi.isSome then (s.pushBack r p, .sending r)
          else (s.pushBack r p, .idle)
  | .sending r => if s.cache r = [] then (s, .idle) else (s.sendFront r, .sending r)
  | .find esi =>
      match s.mxSa2Session.lookup addr with
      | none =>
          (s.emit (.commonError .onConnected "2cannot find RPC session on connected"), .idle)
      | some r => (s, .notifying r esi s.mxSubscribers)
  | .notifying r esi [] => (s.setEsi r esi, .sending r)
  | .notifying r esi (i :: subscribers) =>
      (s.emit (.passEvent (.connected esi) i.tail), .notifying r esi subscribers)

/-- The service and the threads in it. -/
structure System (Addr Ev : Type) where
  rpc : State Addr
  pc : ThreadId → Pc Addr Ev

/-- A thread enters a handler, or takes a step in it. -/
inductive Action (Addr Ev : Type) where
  | sendPacket (t : ThreadId) (destination : ServiceId) (ev : Ev)
  | connected (t : ThreadId) (esi : Esi Addr)
  | step (t : ThreadId) (sockId : SocketId)

/-- The threads in any interleaving. A `Connected` is delivered for a socket
whose `Connect` has been issued. -/
def interleaved : Machine (System Addr Ev) (Action Addr Ev) where
  init y := y = ⟨initial, fun _ => .idle⟩
  enabled y
    | .sendPacket t _ _ => (y.pc t).isIdle
    | .connected t esi =>
        (y.pc t).isIdle ∧ esi.requestForConnect = some addr ∧
          Output.connect esi.mId addr ∈ y.rpc.trace
    | .step t _ => !(y.pc t).isIdle
  apply y
    | .sendPacket t destination ev => { y with pc := Function.update y.pc t (.start destination ev) }
    | .connected t esi => { y with pc := Function.update y.pc t (.find esi) }
    | .step t sockId =>
        let r := stepThread packEvent addr sockId y.rpc (y.pc t)
        ⟨r.1, Function.update y.pc t r.2⟩

/-- No lookup while another thread is in its gap. -/
def NoLookupInGap (y : System Addr Ev) : Action Addr Ev → Prop
  | .step t _ => (y.pc t).looksUp → ∀ t', (y.pc t').gap = false
  | _ => True

/-! ## What holds in every state -/

/-- The sockets a `Connect` to the address was issued for. -/
def connects (s : State Addr) : List SocketId :=
  s.trace.filterMap fun
    | .connect sockId a => if a = addr then some sockId else none
    | _ => none

/-- All packets handed to Oscar. -/
def handedAll (s : State Addr) : List Bytes :=
  s.trace.filterMap fun
    | .sendPacket _ _ p => some p
    | _ => none

/-- The address has at most one `Connect`, and one once it has a session; no
`Connected` without a session; every accepted packet is handed to Oscar or
waits in the session registered for the address, in order and once. -/
structure Delivered (s : State Addr) : Prop where
  atMostOnce : (connects addr s).length ≤ 1
  once : s.mxSa2Session.lookup addr ≠ none → (connects addr s).length = 1
  found : ∀ what, Output.commonError .onConnected what ∉ s.trace
  registered : s.accepted ≠ [] → s.mxSa2Session.lookup addr ≠ none
  packets : ∀ r, s.mxSa2Session.lookup addr = some r →
    handedAll s ++ s.cache r = s.accepted.map Prod.snd

/-- The invariant of the guarded runs. One thread at most is in its gap, and
only while the address has no session; whoever holds a session holds the
registered one. -/
structure Inv (y : System Addr Ev) : Prop where
  booked : Booked y.rpc
  gapOne : ∀ t t', (y.pc t).gap → (y.pc t').gap → t = t'
  gapFree : ∀ t, (y.pc t).gap → y.rpc.mxSa2Session.lookup addr = none
  pendingLt : ∀ t r, (y.pc t).pending = some r → r < y.rpc.nextRef
  held : ∀ t r, (y.pc t).holds = some r → y.rpc.mxSa2Session.lookup addr = some r
  once : y.rpc.mxSa2Session.lookup addr ≠ none → (connects addr y.rpc).length = 1
  issued : ∀ t r, (y.pc t).pending = some r → (connects addr y.rpc).length = 1
  unissued : y.rpc.mxSa2Session.lookup addr = none → (∀ t, (y.pc t).pending = none) →
    connects addr y.rpc = []
  finding : ∀ t esi, y.pc t = .find esi → connects addr y.rpc ≠ []
  accepted : ∀ a ∈ y.rpc.accepted, y.rpc.mxSa2Session.lookup addr = some a.1
  found : ∀ what, Output.commonError .onConnected what ∉ y.rpc.trace

theorem inv_initial : Inv addr (⟨initial, fun _ => .idle⟩ : System Addr Ev) where
  booked := booked_initial
  gapOne _ _ h := by cases h
  gapFree _ h := by cases h
  pendingLt _ _ h := by cases h
  held _ _ h := by cases h
  once h := absurd rfl h
  issued _ _ h := by cases h
  unissued _ _ := rfl
  finding _ _ h := by cases h
  accepted _ h := by cases h
  found _ h := by cases h

/-- A step that leaves the session and the `Connect`s of the address alone,
and takes its thread neither out of the gap nor past the `Connect`. -/
theorem Inv.move {y : System Addr Ev} (h : Inv addr y) {t : ThreadId} {s : State Addr}
    {q : Pc Addr Ev} (hBooked : Booked s)
    (hLookup : s.mxSa2Session.lookup addr = y.rpc.mxSa2Session.lookup addr)
    (hNext : y.rpc.nextRef ≤ s.nextRef) (hConnects : connects addr s = connects addr y.rpc)
    (hAccepted : ∀ a ∈ s.accepted, y.rpc.mxSa2Session.lookup addr = some a.1)
    (hFound : ∀ what, Output.commonError .onConnected what ∉ s.trace)
    (hBefore : (y.pc t).pending = none) (hAfter : q.pending = none)
    (hGap : q.gap → (∀ t', (y.pc t').gap = false) ∧
      y.rpc.mxSa2Session.lookup addr = none)
    (hHolds : ∀ r, q.holds = some r → y.rpc.mxSa2Session.lookup addr = some r)
    (hFind : ∀ esi, q = .find esi → connects addr y.rpc ≠ []) :
    Inv addr ⟨s, Function.update y.pc t q⟩ := by
  have hPending : ∀ t', (Function.update y.pc t q t').pending = (y.pc t').pending := by
    intro t'
    by_cases ht : t' = t
    · subst ht
      simp [hBefore, hAfter]
    · simp [ht]
  refine ⟨hBooked, ?_, ?_, ?_, ?_, ?_, ?_, ?_, ?_, ?_, hFound⟩
  · intro t₁ t₂ h₁ h₂
    by_cases ht₁ : t₁ = t <;> by_cases ht₂ : t₂ = t
    · rw [ht₁, ht₂]
    · subst ht₁
      simp only [Function.update_self, Function.update_of_ne ht₂] at h₁ h₂
      simp [(hGap h₁).1 t₂] at h₂
    · subst ht₂
      simp only [Function.update_self, Function.update_of_ne ht₁] at h₁ h₂
      simp [(hGap h₂).1 t₁] at h₁
    · simp only [Function.update_of_ne ht₁, Function.update_of_ne ht₂] at h₁ h₂
      exact h.gapOne t₁ t₂ h₁ h₂
  · intro t' h'
    show s.mxSa2Session.lookup addr = none
    rw [hLookup]
    by_cases ht : t' = t
    · subst ht
      exact (hGap (by simpa using h')).2
    · exact h.gapFree t' (by simpa [ht] using h')
  · intro t' r h'
    exact Nat.lt_of_lt_of_le (h.pendingLt t' r (hPending t' ▸ h')) hNext
  · intro t' r h'
    show s.mxSa2Session.lookup addr = some r
    rw [hLookup]
    by_cases ht : t' = t
    · subst ht
      exact hHolds r (by simpa using h')
    · exact h.held t' r (by simpa [ht] using h')
  · intro h'
    show (connects addr s).length = 1
    rw [hConnects]
    exact h.once (hLookup ▸ h')
  · intro t' r h'
    show (connects addr s).length = 1
    rw [hConnects]
    exact h.issued t' r (hPending t' ▸ h')
  · intro hNone hAll
    show connects addr s = []
    rw [hConnects]
    exact h.unissued (hLookup ▸ hNone) fun t' => hPending t' ▸ hAll t'
  · intro t' esi h'
    show connects addr s ≠ []
    rw [hConnects]
    by_cases ht : t' = t
    · subst ht
      exact hFind esi (by simpa using h')
    · exact h.finding t' esi (by simpa [ht] using h')
  · intro a ha
    show s.mxSa2Session.lookup addr = some a.1
    rw [hLookup]
    exact hAccepted a ha

/-- With one thread in the gap, no other has issued a `Connect`. -/
theorem Inv.others_idle {y : System Addr Ev} (h : Inv addr y) {t : ThreadId}
    (hGap : (y.pc t).gap) : ∀ t', t' ≠ t → (y.pc t').gap = false := by
  intro t' ht
  by_contra hOther
  exact ht (h.gapOne t' t (by simpa using hOther) hGap)

/-- While a thread is in the gap the address has no session, and nobody
holds one. -/
theorem Inv.gap_empty {y : System Addr Ev} (h : Inv addr y) {t : ThreadId}
    (hGap : (y.pc t).gap) :
    y.rpc.mxSa2Session.lookup addr = none ∧ y.rpc.accepted = [] ∧
      ∀ t', (y.pc t').holds = none := by
  have hNone := h.gapFree t hGap
  refine ⟨hNone, ?_, fun t' => ?_⟩
  · refine List.eq_nil_iff_forall_not_mem.2 fun a ha => ?_
    have hReg := h.accepted a ha
    rw [hNone] at hReg
    cases hReg
  · refine Option.eq_none_iff_forall_ne_some.2 fun r hr => ?_
    have hReg := h.held t' r hr
    rw [hNone] at hReg
    cases hReg

/-- The gap opens: the one `Connect` of the address is issued. -/
theorem Inv.connect {y : System Addr Ev} (h : Inv addr y) {t : ThreadId}
    {destination : ServiceId} {ev : Ev} (hPc : y.pc t = .missed destination ev)
    (sockId : SocketId) :
    Inv addr ⟨(y.rpc.newSession sockId none).emit (.connect sockId addr),
      Function.update y.pc t (.emplacing y.rpc.nextRef destination ev)⟩ := by
  have hGap : (y.pc t).gap := by rw [hPc]; rfl
  have hOthers := h.others_idle addr hGap
  obtain ⟨hNone, hAccepted, hHolds⟩ := h.gap_empty addr hGap
  have hPending : ∀ t', (y.pc t').pending = none := by
    intro t'
    by_cases ht : t' = t
    · rw [ht, hPc]; rfl
    · exact Pc.pending_eq_none (hOthers t' ht)
  have hConnects : connects addr ((y.rpc.newSession sockId none).emit (.connect sockId addr)) =
      [sockId] := by
    have hBefore := h.unissued hNone hPending
    simp only [connects, emit, State.newSession, setSession, List.filterMap_append] at hBefore ⊢
    simp [hBefore]
  refine ⟨(h.booked.newSession sockId none).sends (sends_emit _ (by simp)), ?_, ?_, ?_, ?_, ?_,
    ?_, ?_, ?_, ?_, ?_⟩
  · intro t₁ t₂ h₁ h₂
    have hOnly : ∀ t', (Function.update y.pc t (.emplacing y.rpc.nextRef destination ev)
        t').gap → t' = t := by
      intro t' h'
      by_contra ht
      simp [Function.update_of_ne ht, hOthers t' ht] at h'
    rw [hOnly t₁ h₁, hOnly t₂ h₂]
  · exact fun _ _ => hNone
  · intro t' r h'
    show r < y.rpc.nextRef + 1
    by_cases ht : t' = t
    · subst ht
      obtain rfl : y.rpc.nextRef = r := by simpa [Pc.pending] using h'
      exact Nat.lt_succ_self _
    · simp [Function.update_of_ne ht, hPending t'] at h'
  · intro t' r h'
    by_cases ht : t' = t
    · subst ht
      simp [Pc.holds] at h'
    · simp [Function.update_of_ne ht, hHolds t'] at h'
  · exact fun h' => absurd hNone h'
  · intro _ _ _
    show (connects addr _).length = 1
    rw [hConnects]
    rfl
  · intro _ hAll
    have hSelf := hAll t
    simp [Pc.pending] at hSelf
  · intro t' esi _
    show connects addr _ ≠ []
    rw [hConnects]
    simp
  · intro a ha
    rw [show ((y.rpc.newSession sockId none).emit (.connect sockId addr)).accepted =
      y.rpc.accepted from rfl, hAccepted] at ha
    cases ha
  · simpa [emit, State.newSession, setSession] using h.found

/-- The gap closes: the session of the `Connect` is registered. -/
theorem Inv.emplace {y : System Addr Ev} (h : Inv addr y) {t : ThreadId} {r : SessionRef}
    {destination : ServiceId} {ev : Ev} (hPc : y.pc t = .emplacing r destination ev) :
    Inv addr ⟨y.rpc.emplaceSa addr r,
      Function.update y.pc t (.adding r destination ev)⟩ := by
  have hGap : (y.pc t).gap := by rw [hPc]; rfl
  have hPend : (y.pc t).pending = some r := by rw [hPc]; rfl
  have hOthers := h.others_idle addr hGap
  obtain ⟨hNone, hAccepted, hHolds⟩ := h.gap_empty addr hGap
  have hState : y.rpc.emplaceSa addr r =
      { y.rpc with mxSa2Session := y.rpc.mxSa2Session.insert addr r } := by
    rw [State.emplaceSa, hNone]
    rfl
  have hNoGap : ∀ t', (Function.update y.pc t (Pc.adding r destination ev) t').gap = false := by
    intro t'
    by_cases ht : t' = t
    · subst ht
      simp [Pc.gap]
    · simp [Function.update_of_ne ht, hOthers t' ht]
  have hOne : connects addr (y.rpc.emplaceSa addr r) = connects addr y.rpc := by
    rw [hState]
    rfl
  have hLookup : (y.rpc.emplaceSa addr r).mxSa2Session.lookup addr = some r := by
    rw [hState]
    exact AList.lookup_insert _
  refine ⟨h.booked.emplaceSa addr (h.pendingLt t r hPend), ?_, ?_, ?_, ?_, ?_, ?_, ?_, ?_, ?_,
    ?_⟩
  · intro t₁ _ h₁ _
    simp [hNoGap t₁] at h₁
  · intro t₁ h₁
    simp [hNoGap t₁] at h₁
  · intro t' r' h'
    rw [Pc.pending_eq_none (hNoGap t')] at h'
    cases h'
  · intro t' r' h'
    by_cases ht : t' = t
    · subst ht
      obtain rfl : r = r' := by simpa [Pc.holds] using h'
      exact hLookup
    · simp [Function.update_of_ne ht, hHolds t'] at h'
  · intro _
    show (connects addr _).length = 1
    rw [hOne]
    exact h.issued t r hPend
  · intro t' r' h'
    rw [Pc.pending_eq_none (hNoGap t')] at h'
    cases h'
  · intro h' _
    rw [hLookup] at h'
    cases h'
  · intro t' esi h'
    show connects addr _ ≠ []
    rw [hOne]
    intro hEmpty
    have hIssued := h.issued t r hPend
    rw [hEmpty] at hIssued
    cases hIssued
  · intro a ha
    rw [hState] at ha
    rw [show y.rpc.accepted = [] from hAccepted] at ha
    cases ha
  · rw [hState]
    exact h.found

/-- A step of a thread in a handler keeps the invariant. -/
theorem Inv.step {y : System Addr Ev} (h : Inv addr y) (t : ThreadId) (sockId : SocketId)
    (hGuard : NoLookupInGap y (.step t sockId)) :
    Inv addr ⟨(stepThread packEvent addr sockId y.rpc (y.pc t)).1,
      Function.update y.pc t (stepThread packEvent addr sockId y.rpc (y.pc t)).2⟩ := by
  cases hPc : y.pc t with
  | idle =>
      exact h.move addr h.booked rfl (Nat.le_refl _) rfl h.accepted h.found (by rw [hPc]; rfl)
        rfl (by simp [stepThread, Pc.gap]) (by simp [stepThread, Pc.holds])
        (by simp [stepThread])
  | start destination ev =>
      have hNoGap := hGuard (by rw [hPc]; rfl)
      simp only [stepThread]
      split
      · rename_i r hReg
        exact h.move addr h.booked rfl (Nat.le_refl _) rfl h.accepted h.found
          (by rw [hPc]; rfl) rfl (by simp [Pc.gap]) (by simpa [Pc.holds] using hReg) (by simp)
      · rename_i hNone
        exact h.move addr h.booked rfl (Nat.le_refl _) rfl h.accepted h.found
          (by rw [hPc]; rfl) rfl (fun _ => ⟨hNoGap, hNone⟩) (by simp [Pc.holds]) (by simp)
  | missed destination ev => exact h.connect addr hPc sockId
  | emplacing r destination ev => exact h.emplace addr hPc
  | adding r destination ev =>
      have hReg : y.rpc.mxSa2Session.lookup addr = some r := h.held t r (by rw [hPc]; rfl)
      have hPend : (y.pc t).pending = none := by rw [hPc]; rfl
      simp only [stepThread]
      split
      · rename_i e _
        refine h.move addr (h.booked.sends (sends_emit y.rpc (by simp))) rfl (Nat.le_refl _) ?_
          h.accepted ?_ hPend rfl (by simp [Pc.gap]) (by simp [Pc.holds]) (by simp)
        · simp [connects, emit]
        · simpa [emit] using h.found
      · rename_i p _
        have hBooked := h.booked.pushBack p (h.booked.sa_lt addr r hReg)
        have hAccepted : ∀ a ∈ (y.rpc.pushBack r p).accepted,
            y.rpc.mxSa2Session.lookup addr = some a.1 := by
          intro a ha
          rcases List.mem_append.1 (show a ∈ y.rpc.accepted ++ [(r, p)] from ha) with ha | ha
          · exact h.accepted a ha
          · obtain rfl := List.mem_singleton.1 ha
            exact hReg
        split
        · exact h.move addr hBooked rfl (Nat.le_refl _) rfl hAccepted h.found hPend rfl
            (by simp [Pc.gap]) (by simpa [Pc.holds] using hReg) (by simp)
        · exact h.move addr hBooked rfl (Nat.le_refl _) rfl hAccepted h.found hPend rfl
            (by simp [Pc.gap]) (by simp [Pc.holds]) (by simp)
  | sending r =>
      have hReg : y.rpc.mxSa2Session.lookup addr = some r := h.held t r (by rw [hPc]; rfl)
      have hPend : (y.pc t).pending = none := by rw [hPc]; rfl
      simp only [stepThread]
      split
      · exact h.move addr h.booked rfl (Nat.le_refl _) rfl h.accepted h.found hPend rfl
          (by simp [Pc.gap]) (by simp [Pc.holds]) (by simp)
      · have hs := sends_sendFront y.rpc r
        refine h.move addr (h.booked.sends hs) (by rw [hs.mxSa2Session]) hs.nextRef.ge ?_
          (by rw [hs.accepted]; exact h.accepted) ?_ hPend rfl (by simp [Pc.gap])
          (by simpa [Pc.holds] using hReg) (by simp)
        · rcases trace_sendFront y.rpc r with hTrace | ⟨esi, p, hTrace⟩ <;>
            simp [connects, hTrace]
        · rcases trace_sendFront y.rpc r with hTrace | ⟨esi, p, hTrace⟩ <;>
            simpa [hTrace] using h.found
  | find esi =>
      have hNoGap := hGuard (by rw [hPc]; rfl)
      have hPend : (y.pc t).pending = none := by rw [hPc]; rfl
      simp only [stepThread]
      split
      · rename_i hNone
        exact absurd (h.unissued hNone fun t' => Pc.pending_eq_none (hNoGap t'))
          (h.finding t esi hPc)
      · rename_i r hReg
        exact h.move addr h.booked rfl (Nat.le_refl _) rfl h.accepted h.found hPend rfl
          (by simp [Pc.gap]) (by simpa [Pc.holds] using hReg) (by simp)
  | notifying r esi subscribers =>
      have hReg : y.rpc.mxSa2Session.lookup addr = some r := h.held t r (by rw [hPc]; rfl)
      have hPend : (y.pc t).pending = none := by rw [hPc]; rfl
      cases subscribers with
      | nil =>
          exact h.move addr (h.booked.setEsi r esi) rfl (Nat.le_refl _) rfl h.accepted h.found
            hPend rfl (by simp [stepThread, Pc.gap])
            (by simpa [stepThread, Pc.holds] using hReg) (by simp [stepThread])
      | cons i subscribers =>
          exact h.move addr (h.booked.sends (sends_emit y.rpc (by simp))) rfl (Nat.le_refl _)
            (by simp [stepThread, connects, emit]) h.accepted
            (by simpa [stepThread, emit] using h.found) hPend rfl
            (by simp [stepThread, Pc.gap]) (by simpa [stepThread, Pc.holds] using hReg)
            (by simp [stepThread])

theorem inv_apply {y : System Addr Ev} (h : Inv addr y) (a : Action Addr Ev)
    (hEn : ((interleaved packEvent addr).guarded NoLookupInGap).enabled y a) :
    Inv addr ((interleaved packEvent addr).apply y a) := by
  obtain ⟨hEn, hGuard⟩ := hEn
  have hIdle : ∀ {q : Pc Addr Ev}, q.isIdle → q.pending = none := by
    intro q hq
    cases q <;> first | rfl | cases hq
  cases a with
  | sendPacket t destination ev =>
      exact h.move addr h.booked rfl (Nat.le_refl _) rfl h.accepted h.found (hIdle hEn) rfl
        (by simp [Pc.gap]) (by simp [Pc.holds]) (by simp)
  | connected t esi =>
      refine h.move addr h.booked rfl (Nat.le_refl _) rfl h.accepted h.found (hIdle hEn.1) rfl
        (by simp [Pc.gap]) (by simp [Pc.holds]) fun esi' _ hEmpty => ?_
      have hMem : esi.mId ∈ connects addr y.rpc :=
        List.mem_filterMap.2 ⟨_, hEn.2.2, by simp⟩
      rw [hEmpty] at hMem
      cases hMem
  | step t sockId => exact h.step packEvent addr t sockId hGuard

omit [DecidableEq Addr] in
/-- When every accepted packet is for one session, the whole trace is that
session's. -/
theorem handedAll_eq {s : State Addr} {r : SessionRef}
    (hLedger : ∀ r', s.handed r' ++ s.cache r' = s.acceptedFor r')
    (hOnly : ∀ a ∈ s.accepted, a.1 = r) :
    handedAll s = s.handed r ∧ s.acceptedFor r = s.accepted.map Prod.snd := by
  have hOthers : ∀ r', r' ≠ r → s.handed r' = [] := by
    intro r' hr
    have hNone : s.acceptedFor r' = [] := by
      refine List.filterMap_eq_nil_iff.2 fun a ha => ?_
      rw [if_neg (by rw [hOnly a ha]; exact hr.symm)]
    have hBoth := hLedger r'
    rw [hNone, List.append_eq_nil_iff] at hBoth
    exact hBoth.1
  constructor
  · refine List.filterMap_congr fun o ho => ?_
    cases o with
    | sendPacket r' esi p =>
        by_cases hr : r' = r
        · simp [hr]
        · have hMem : p ∈ s.handed r' := List.mem_filterMap.2 ⟨_, ho, by simp⟩
          rw [hOthers r' hr] at hMem
          cases hMem
    | _ => rfl
  · rw [acceptedFor, forSession, ← List.filterMap_eq_map]
    refine List.filterMap_congr fun a ha => ?_
    rw [if_pos (hOnly a ha)]
    rfl

theorem Inv.delivered {y : System Addr Ev} (h : Inv addr y) : Delivered addr y.rpc := by
  refine ⟨?_, h.once, h.found, ?_, ?_⟩
  · by_cases hReg : y.rpc.mxSa2Session.lookup addr = none
    · by_cases hPend : ∀ t, (y.pc t).pending = none
      · rw [h.unissued hReg hPend]
        exact Nat.zero_le 1
      · obtain ⟨t, ht⟩ := not_forall.1 hPend
        obtain ⟨r, hr⟩ := Option.ne_none_iff_exists'.1 ht
        exact (h.issued t r hr).le
    · exact (h.once hReg).le
  · intro hSome hNone
    obtain ⟨a, ha⟩ := List.exists_mem_of_ne_nil _ hSome
    have hReg := h.accepted a ha
    rw [hNone] at hReg
    cases hReg
  · intro r hReg
    have hOnly : ∀ a ∈ y.rpc.accepted, a.1 = r := by
      intro a ha
      have hA := h.accepted a ha
      rw [hReg] at hA
      exact (Option.some.inj hA).symm
    obtain ⟨hAll, hAccepted⟩ := handedAll_eq h.booked.ledger hOnly
    rw [hAll, h.booked.ledger r, hAccepted]

/--
**Delivery, handlers interleaved.**  In every run in which no lookup of the
address falls between another thread's failed lookup and its `emplace`, the
address has one `Connect`, no `Connected` fails to find its session, and the
packets handed to Oscar and the packets waiting in the registered session are
the accepted packets.
-/
theorem delivery_interleaved {y : System Addr Ev}
    (h : ((interleaved packEvent addr).guarded NoLookupInGap).Reachable y) :
    Delivered addr y.rpc := by
  refine Inv.delivered addr (Machine.Reachable.invariant (I := Inv addr) ?_ ?_ h)
  · intro y hInit
    rw [show y = ⟨initial, fun _ => .idle⟩ from hInit]
    exact inv_initial addr
  · exact fun y a hInv hEn => inv_apply packEvent addr hInv a hEn

/-- One sender to its end, then the connection. -/
theorem delivery_sender_then_connected :
    ∃ y : System Nat Bytes, y.rpc.accepted = [(0, [0x73, 0x01, 0x64, 0x01])] ∧
      handedAll y.rpc = [[0x73, 0x01, 0x64, 0x01]] ∧ Delivered 80 y.rpc := by
  let m : Machine (System Nat Bytes) (Action Nat Bytes) :=
    (interleaved .ok 80).guarded NoLookupInGap
  let acts : List (Action Nat Bytes) :=
    [.sendPacket 0 [0x64] [1], .step 0 0, .step 0 5, .step 0 0, .step 0 0,
      .connected 1 ⟨5, some 80⟩, .step 1 0, .step 1 0, .step 1 0]
  have hPath : m.Path ⟨initial, fun _ => .idle⟩ acts := by
    refine ⟨⟨rfl, trivial⟩, ⟨rfl, fun _ t' => ?_⟩, ⟨rfl, nofun⟩, ⟨rfl, nofun⟩, ⟨rfl, nofun⟩,
      ⟨⟨rfl, rfl, by decide⟩, trivial⟩, ⟨rfl, fun _ t' => ?_⟩, ⟨rfl, nofun⟩, ⟨rfl, nofun⟩,
      trivial⟩
    · rcases t' with _ | t' <;> rfl
    · rcases t' with _ | _ | t' <;> rfl
  have hReach := (Machine.Reachable.init (m := m) rfl).path hPath
  exact ⟨_, by decide, by decide, delivery_interleaved .ok 80 hReach⟩

/-- Two senders look the address up before either registers a session: two
connections are opened, and the second packet waits where no map leads. -/
theorem two_senders_two_connects :
    ¬ ∀ y : System Nat Bytes, (interleaved .ok 80).Reachable y → Delivered 80 y.rpc := by
  let m : Machine (System Nat Bytes) (Action Nat Bytes) := interleaved .ok 80
  let acts : List (Action Nat Bytes) :=
    [.sendPacket 0 [0x64] [1], .sendPacket 1 [0x64] [2], .step 0 0, .step 1 0, .step 0 5,
      .step 1 6, .step 0 0, .step 1 0, .step 0 0, .step 1 0]
  intro hAll
  have hPath : m.Path ⟨initial, fun _ => .idle⟩ acts :=
    ⟨rfl, rfl, rfl, rfl, rfl, rfl, rfl, rfl, rfl, rfl, trivial⟩
  have hDelivered := hAll _ ((Machine.Reachable.init (m := m) rfl).path hPath)
  have hTwo : connects 80 (m.exec ⟨initial, fun _ => .idle⟩ acts).rpc = [5, 6] := by decide
  have hOnce := hDelivered.atMostOnce
  rw [hTwo] at hOnce
  exact absurd hOnce (by decide)

/-! ## Uninterrupted threads -/

/-- A thread running by itself. -/
def runThread (sockId : SocketId) : Nat → State Addr × Pc Addr Ev → State Addr × Pc Addr Ev
  | 0, c => c
  | n + 1, c => runThread sockId n (stepThread packEvent addr sockId c.1 c.2)

/-- The steps of `sending` are the loop of `doSend`. -/
theorem runThread_sending (sockId : SocketId) (r : SessionRef) :
    ∀ (n : Nat) (s : State Addr), (s.heap r).esi.isSome → (s.cache r).length = n →
      runThread packEvent addr sockId (n + 1) (s, .sending r) = (doSendLoop r n s, .idle) := by
  intro n
  induction n with
  | zero =>
      intro s _ hLen
      simp [runThread, stepThread, List.length_eq_zero_iff.1 hLen, doSendLoop]
  | succ n ih =>
      intro s hEsi hLen
      have hCons : s.cache r ≠ [] := by
        intro hNil
        rw [hNil] at hLen
        cases hLen
      have hNext := ih (s.sendFront r) (by rw [(sends_sendFront s r).esi]; exact hEsi)
        (by rw [cache_sendFront s r hEsi, List.length_tail, hLen]; rfl)
      rw [runThread]
      simp only [stepThread, hCons, if_false]
      exact hNext

/-- A thread that adds a packet and sends is the end of `on_SendPacket`. -/
theorem runThread_adding (sockId : SocketId) (s : State Addr) (r : SessionRef)
    (destination : ServiceId) (ev : Ev) :
    ∃ n, runThread packEvent addr sockId n (s, .adding r destination ev) =
      (s.packAndAdd r (packSend packEvent destination ev), .idle) := by
  cases hPack : packSend packEvent destination ev with
  | error e => exact ⟨1, by simp [runThread, stepThread, hPack, packAndAdd]⟩
  | ok p =>
      by_cases hEsi : (s.heap r).esi.isSome
      · have hEsi' : ((s.pushBack r p).heap r).esi.isSome := by rwa [esi_pushBack]
        refine ⟨((s.pushBack r p).cache r).length + 1 + 1, ?_⟩
        rw [runThread]
        simp only [stepThread, hPack, hEsi, if_true]
        rw [runThread_sending packEvent addr sockId r _ _ hEsi' rfl]
        simp only [packAndAdd, addSendPacket, hEsi', if_true, doSend]
        rfl
      · have hEsi' : ¬ ((s.pushBack r p).heap r).esi.isSome := by rwa [esi_pushBack]
        exact ⟨1, by simp [runThread, stepThread, hPack, packAndAdd, addSendPacket, hEsi, hEsi']⟩

/-- A sender that is not interrupted is the atomic `on_SendPacket`. -/
theorem runThread_sendPacket (sockId : SocketId) (s : State Addr) (destination : ServiceId)
    (ev : Ev) :
    ∃ n, runThread packEvent addr sockId n (s, .start destination ev) =
      (s.onSendPacket packEvent id sockId addr destination ev, .idle) := by
  unfold onSendPacket
  cases hReg : s.mxSa2Session.lookup addr with
  | some r =>
      obtain ⟨n, hn⟩ := runThread_adding packEvent addr sockId s r destination ev
      exact ⟨n + 1, by simpa [runThread, stepThread, hReg] using hn⟩
  | none =>
      obtain ⟨n, hn⟩ := runThread_adding packEvent addr sockId
        (((s.newSession sockId none).emit (.connect sockId addr)).emplaceSa addr s.nextRef)
        s.nextRef destination ev
      exact ⟨n + 1 + 1 + 1, by simpa [runThread, stepThread, hReg] using hn⟩

end Megatron.Rpc
