import Megatron.Corelib.RouteKeys
import Megatron.Dfs.Service
import Megatron.Lib.Machine

/-!
# The error dispatcher

A service keeps the routes of its subscribers in a `std::set`, and sends every message on
to each of them, with the first element popped. An event that cannot be passed on throws,
which ends the loop: the routes are walked from the longest on, and those behind it are
not served.

A route with a listener comes from the process itself. Two of them that have it at the
same place cannot be compared (`Clash`), nor can one be compared with itself: so the first
that has subscribed stays for good, and a later `Subscribe` or `Unsubscribe` by one that
clashes with it throws.

## Main results

* `keeps_of_reachable` — the subscribers are those that are `Current`.
* `subscription_throws_iff` — which subscriptions throw.
* `sendMessage_served` — who is sent a message.
-/

namespace Megatron.ErrorDispatcher

open Megatron.Lib Megatron.Corelib
open Megatron.Dfs (ascii passEvent poppedFrontRoute)

/-! ## The service -/

/-- `errorDispatcherEventEnum::NotifySubscriber`. -/
def notifySubscriber : Dfs.EventId := ascii "errorDispatcherNotifySubscriber"

/-- `NotifySubscriber`: the `opcode` and the `msg`. -/
abbrev NotifySubscriber := Bytes × Bytes

/-- What has been passed on. -/
abbrev Content (Addr : Type) := Dfs.Content Addr NotifySubscriber

/-- The events of the service, with their routes. -/
inductive Act where
  | subscribe (route : RouteT)
  | unsubscribe (route : RouteT)
  | sendMessage (opcode msg : Bytes)

/-- `ErrorDispatcher::Service`; `log` are the events, the last one first. -/
structure State where
  mSubscribers : List RouteT
  log : List Act

/-- `on_errorDispatcherSubscribe`. -/
def onErrorDispatcherSubscribe (route : RouteT) (s : State) : Except CommonError State := do
  return { s with mSubscribers := ← insertM routeLt route s.mSubscribers }

/-- `on_errorDispatcherUnsubscribeAll`. -/
def onErrorDispatcherUnsubscribeAll (route : RouteT) (s : State) : Except CommonError State := do
  return { s with mSubscribers := ← eraseM routeLt route s.mSubscribers }

section

variable {Addr : Type}

/-- What the loop does for a subscriber. -/
def notify (opcode msg : Bytes) (i : RouteT) : Except CommonError (Content Addr) := do
  passEvent ⟨← poppedFrontRoute i, .other notifySubscriber (opcode, msg)⟩

/-- The loop, with what has been passed on when it throws. -/
def notifyLoop (opcode msg : Bytes) : List RouteT → List (Content Addr) × Except CommonError Unit
  | [] => ([], .ok ())
  | i :: is =>
      match notify opcode msg i with
      | .error e => ([], .error e)
      | .ok content => ((content :: (notifyLoop opcode msg is).1), (notifyLoop opcode msg is).2)

/-- `on_errorDispatcherSendMessage`. -/
def onErrorDispatcherSendMessage (opcode msg : Bytes) (s : State) :
    List (Content Addr) × Except CommonError Unit :=
  notifyLoop opcode msg s.mSubscribers

end

/-- The route that a subscription is about. -/
def Act.route? : Act → Option RouteT
  | .subscribe route => some route
  | .unsubscribe route => some route
  | .sendMessage .. => none

/-- An event, where one that throws leaves the subscribers as they are. -/
def handle (a : Act) (s : State) : State :=
  let s' := match a with
    | .subscribe route => (onErrorDispatcherSubscribe route s).toOption.getD s
    | .unsubscribe route => (onErrorDispatcherUnsubscribeAll route s).toOption.getD s
    | .sendMessage .. => s
  { s' with log := a :: s.log }

/-- Runs: any events by any routes. -/
def service : Machine State Act where
  init s := s = ⟨[], []⟩
  enabled _ _ := True
  apply s a := handle a s

/-! ## The subscribers -/

/-- The last word about a route was `Subscribe`. -/
def Subscribed (log : List Act) (route : RouteT) : Prop :=
  log.find? (fun a => a.route? = some route) = some (.subscribe route)

/-- Of the routes that clash with it, this one was the first to subscribe. -/
def FirstSubscribed (log : List Act) (route : RouteT) : Prop :=
  ∃ newer older, log = newer ++ .subscribe route :: older ∧
    ∀ r, .subscribe r ∈ older → ¬ Clash r route

/-- Who is a subscriber: a route without listeners by the last word about it, and a route
with one by the first. -/
def Current (log : List Act) (route : RouteT) : Prop :=
  if Packable route then Subscribed log route else FirstSubscribed log route

section

variable {log : List Act} {r route : RouteT}

theorem Current.of_packable (h : Packable r) : Current log r ↔ Subscribed log r := by
  rw [Current, if_pos h]

theorem Current.of_not_packable (h : ¬ Packable r) : Current log r ↔ FirstSubscribed log r := by
  rw [Current, if_neg h]

theorem FirstSubscribed.mem (h : FirstSubscribed log r) : .subscribe r ∈ log := by
  obtain ⟨newer, older, rfl, -⟩ := h
  exact List.mem_append_right newer List.mem_cons_self

theorem FirstSubscribed.cons (h : FirstSubscribed log r) (a : Act) :
    FirstSubscribed (a :: log) r := by
  obtain ⟨newer, older, rfl, hFirst⟩ := h
  exact ⟨a :: newer, older, rfl, hFirst⟩

theorem firstSubscribed_cons {a : Act} :
    FirstSubscribed (a :: log) r ↔
      FirstSubscribed log r ∨ a = .subscribe r ∧ ∀ r', .subscribe r' ∈ log → ¬ Clash r' r := by
  constructor
  · rintro ⟨_ | ⟨_, newer⟩, older, hSplit, hFirst⟩
    · obtain ⟨rfl, rfl⟩ := List.cons.inj hSplit
      exact Or.inr ⟨rfl, hFirst⟩
    · exact Or.inl ⟨newer, older, (List.cons.inj hSplit).2, hFirst⟩
  · rintro (hLog | ⟨rfl, hFirst⟩)
    · exact hLog.cons a
    · exact ⟨[], log, rfl, hFirst⟩

/-- Of the subscriptions that clash with a route, one was the first. -/
theorem exists_firstSubscribed (h : ∃ r', .subscribe r' ∈ log ∧ Clash r' r) :
    ∃ r', FirstSubscribed log r' ∧ Clash r' r := by
  induction log with
  | nil => simp at h
  | cons a log ih =>
      by_cases hOlder : ∃ r', .subscribe r' ∈ log ∧ Clash r' r
      · obtain ⟨r', hFirst, hClash⟩ := ih hOlder
        exact ⟨r', hFirst.cons a, hClash⟩
      · obtain ⟨r', hMem, hClash⟩ := h
        have hHead : a = .subscribe r' :=
          ((List.mem_cons.1 hMem).resolve_right fun hTail => hOlder ⟨r', hTail, hClash⟩).symm
        refine ⟨r', firstSubscribed_cons.2 (Or.inr ⟨hHead, fun r'' hMem' hClash' => ?_⟩), hClash⟩
        exact hOlder ⟨r'', hMem', hClash'.trans hClash⟩

theorem current_cons {a : Act} (h : a.route? ≠ some r) : Current (a :: log) r ↔ Current log r := by
  by_cases hPack : Packable r
  · rw [Current.of_packable hPack, Current.of_packable hPack, Subscribed, Subscribed,
      List.find?_cons_of_neg (by simpa using h)]
  · rw [Current.of_not_packable hPack, Current.of_not_packable hPack]
    refine firstSubscribed_cons.trans (or_iff_left fun hHead => ?_)
    rw [hHead.1] at h
    exact h rfl

end

/-- What holds in every run. -/
structure Keeps (s : State) : Prop where
  sorted : s.mSubscribers.Pairwise fun r r' => routeLt r r' = .ok true
  mem : ∀ r, r ∈ s.mSubscribers ↔ Current s.log r

section

variable {s : State} {route : RouteT}

theorem keeps_subscribe (hs : Keeps s) : Keeps (handle (.subscribe route) s) := by
  rcases throwingKey_routes.insertM_cases hs.sorted route with
    ⟨⟨b, hb, hClash⟩, e, hThrow⟩ | ⟨hFree, l, hInsert, hMem, hSorted⟩
  · have hRun : handle (.subscribe route) s = ⟨s.mSubscribers, .subscribe route :: s.log⟩ := by
      rw [handle, onErrorDispatcherSubscribe, hThrow]
      rfl
    have hFirst := (Current.of_not_packable hClash.symm.not_packable).1 ((hs.mem b).1 hb)
    rw [hRun]
    refine ⟨hs.sorted, fun r => (hs.mem r).trans ?_⟩
    by_cases hSame : route = r
    · -- it comes too late
      subst hSame
      rw [Current.of_not_packable hClash.not_packable, Current.of_not_packable hClash.not_packable]
      refine (firstSubscribed_cons.trans (or_iff_left fun hHead => ?_)).symm
      exact hHead.2 b hFirst.mem hClash.symm
    · exact (current_cons (by simpa [Act.route?] using hSame)).symm
  · have hRun : handle (.subscribe route) s = ⟨l, .subscribe route :: s.log⟩ := by
      rw [handle, onErrorDispatcherSubscribe, hInsert]
      rfl
    rw [hRun]
    refine ⟨hSorted, fun r => (hMem r).trans ?_⟩
    by_cases hSame : route = r
    · subst hSame
      refine iff_of_true (Or.inl rfl) ?_
      by_cases hPack : Packable route
      · rw [Current.of_packable hPack, Subscribed]
        simp [Act.route?]
      · rw [Current.of_not_packable hPack]
        refine firstSubscribed_cons.2 (Or.inr ⟨rfl, fun r hLog hClash => ?_⟩)
        obtain ⟨r', hFirst, hClash'⟩ := exists_firstSubscribed ⟨r, hLog, hClash⟩
        have hOld := (hs.mem r').2 ((Current.of_not_packable hClash'.not_packable).2 hFirst)
        exact hFree r' hOld hClash'.symm
    · rw [or_iff_right (Ne.symm hSame), hs.mem]
      exact (current_cons (by simpa [Act.route?] using hSame)).symm

theorem keeps_unsubscribe (hs : Keeps s) : Keeps (handle (.unsubscribe route) s) := by
  rcases throwingKey_routes.eraseM_cases hs.sorted route with
    ⟨⟨b, hb, hClash⟩, e, hThrow⟩ | ⟨hFree, l, hErase, hMem, hSub⟩
  · have hRun : handle (.unsubscribe route) s = ⟨s.mSubscribers, .unsubscribe route :: s.log⟩ := by
      rw [handle, onErrorDispatcherUnsubscribeAll, hThrow]
      rfl
    rw [hRun]
    refine ⟨hs.sorted, fun r => (hs.mem r).trans ?_⟩
    by_cases hSame : route = r
    · subst hSame
      rw [Current.of_not_packable hClash.not_packable, Current.of_not_packable hClash.not_packable]
      exact (firstSubscribed_cons.trans (or_iff_left fun hHead => Act.noConfusion hHead.1)).symm
    · exact (current_cons (by simpa [Act.route?] using hSame)).symm
  · have hRun : handle (.unsubscribe route) s = ⟨l, .unsubscribe route :: s.log⟩ := by
      rw [handle, onErrorDispatcherUnsubscribeAll, hErase]
      rfl
    rw [hRun]
    refine ⟨hs.sorted.sublist hSub, fun r => (hMem r).trans ?_⟩
    by_cases hSame : route = r
    · subst hSame
      refine iff_of_false (fun h => h.1 rfl) fun hCurrent => ?_
      by_cases hPack : Packable route
      · rw [Current.of_packable hPack, Subscribed] at hCurrent
        simp [Act.route?] at hCurrent
      · -- it would clash with itself
        rw [Current.of_not_packable hPack, firstSubscribed_cons] at hCurrent
        have hOld := hCurrent.resolve_right fun hHead => Act.noConfusion hHead.1
        exact hFree route ((hs.mem route).2 ((Current.of_not_packable hPack).2 hOld))
          (clash_self hPack)
    · rw [and_iff_right (Ne.symm hSame), hs.mem]
      exact (current_cons (by simpa [Act.route?] using hSame)).symm

end

theorem keeps_of_reachable {s : State} (hReach : service.Reachable s) : Keeps s := by
  refine Machine.Reachable.invariant (I := Keeps) ?_ ?_ hReach
  · rintro _ rfl
    refine ⟨List.Pairwise.nil, fun r => iff_of_false List.not_mem_nil fun hCurrent => ?_⟩
    rw [Current] at hCurrent
    split at hCurrent
    · cases hCurrent
    · exact absurd hCurrent.mem List.not_mem_nil
  · rintro s (route | route | ⟨opcode, msg⟩) hs -
    · exact keeps_subscribe hs
    · exact keeps_unsubscribe hs
    · refine ⟨hs.sorted, fun r => (hs.mem r).trans ?_⟩
      have hOther : (Act.sendMessage opcode msg).route? ≠ some r := nofun
      exact (current_cons hOther).symm

/-- **Routes with a listener.** A `Subscribe` or an `Unsubscribe` throws exactly where its
route clashes with that of a subscriber. -/
theorem subscription_throws_iff {s : State} (hReach : service.Reachable s) (route : RouteT) :
    ((∃ e, onErrorDispatcherSubscribe route s = .error e) ↔
        ∃ r, Current s.log r ∧ Clash route r) ∧
      ((∃ e, onErrorDispatcherUnsubscribeAll route s = .error e) ↔
        ∃ r, Current s.log r ∧ Clash route r) := by
  have hs := keeps_of_reachable hReach
  have hIs : (∃ r, Current s.log r ∧ Clash route r) ↔ ∃ r ∈ s.mSubscribers, Clash route r :=
    exists_congr fun r => and_congr_left fun _ => (hs.mem r).symm
  rw [hIs, onErrorDispatcherSubscribe, onErrorDispatcherUnsubscribeAll]
  constructor
  · rcases throwingKey_routes.insertM_cases hs.sorted route with
      ⟨hClash, e, hThrow⟩ | ⟨hFree, l, hInsert, -⟩
    · rw [hThrow]
      exact iff_of_true ⟨e, rfl⟩ hClash
    · rw [hInsert]
      exact iff_of_false nofun fun ⟨r, hr, hClash⟩ => hFree r hr hClash
  · rcases throwingKey_routes.eraseM_cases hs.sorted route with
      ⟨hClash, e, hThrow⟩ | ⟨hFree, l, hErase, -⟩
    · rw [hThrow]
      exact iff_of_true ⟨e, rfl⟩ hClash
    · rw [hErase]
      exact iff_of_false nofun fun ⟨r, hr, hClash⟩ => hFree r hr hClash

/-! ## Who is sent a message -/

/-- A route that an event can be passed on by: an element to pop, and one to pass to. -/
def Deliverable : RouteT → Prop
  | _ :: .socketRoute _ :: _ => False
  | _ :: .thread _ :: _ => False
  | _ :: _ :: _ => True
  | _ => False

section

variable {Addr : Type} {opcode msg : Bytes}

theorem notify_of_deliverable {i : RouteT} (h : Deliverable i) :
    ∃ content : Content Addr, notify opcode msg i = .ok content := by
  obtain _ | ⟨x, _ | ⟨y, rest⟩⟩ := i
  · exact h.elim
  · exact h.elim
  · cases y with
    | socketRoute id => exact h.elim
    | thread id => exact h.elim
    | _ => exact ⟨_, rfl⟩

theorem notify_of_not_deliverable {i : RouteT} (h : ¬ Deliverable i) :
    ∃ e, (notify opcode msg i : Except CommonError (Content Addr)) = .error e := by
  obtain _ | ⟨x, _ | ⟨y, rest⟩⟩ := i
  · exact ⟨_, rfl⟩
  · exact ⟨_, rfl⟩
  · cases y with
    | socketRoute id => exact ⟨_, rfl⟩
    | thread id => exact ⟨_, rfl⟩
    | _ => exact absurd trivial h

/-- The loop serves the subscribers in front of the first that it cannot. -/
theorem notifyLoop_spec (l : List RouteT) :
    ∃ served rest, l = served ++ rest ∧ (∀ i ∈ served, Deliverable i) ∧
      (∀ i ∈ rest.head?, ¬ Deliverable i) ∧
      (notifyLoop opcode msg l : List (Content Addr) × _).1.map .ok =
        served.map (notify opcode msg) ∧
      ((notifyLoop opcode msg l : List (Content Addr) × _).2 = .ok () ↔ rest = []) := by
  induction l with
  | nil =>
      refine ⟨[], [], rfl, fun _ h => absurd h List.not_mem_nil, ?_, rfl, iff_of_true rfl rfl⟩
      rintro _ ⟨⟩
  | cons i l ih =>
      by_cases hi : Deliverable i
      · obtain ⟨served, rest, hSplit, hServed, hRest, hOut, hOk⟩ := ih
        obtain ⟨content, hNotify⟩ := @notify_of_deliverable Addr opcode msg i hi
        refine ⟨i :: served, rest, by rw [hSplit, List.cons_append],
          List.forall_mem_cons.2 ⟨hi, hServed⟩, hRest, ?_, ?_⟩
        · rw [notifyLoop, hNotify, List.map_cons, List.map_cons, hOut, hNotify]
        · rw [notifyLoop, hNotify]
          exact hOk
      · obtain ⟨e, hNotify⟩ := @notify_of_not_deliverable Addr opcode msg i hi
        refine ⟨[], i :: l, rfl, fun _ h => absurd h List.not_mem_nil, ?_, ?_, ?_⟩
        · rintro _ ⟨⟩
          exact hi
        · rw [notifyLoop, hNotify]
          rfl
        · rw [notifyLoop, hNotify]
          exact iff_of_false nofun nofun

/-- A message is sent once to each subscriber that it can be passed on to, as long as every
one that it cannot comes later in the order of the routes. No error is thrown if and only
if all can be served. -/
theorem sendMessage_served {s : State} (hReach : service.Reachable s) (opcode msg : Bytes) :
    ∃ served : List RouteT, served.Nodup ∧
      (∀ r, r ∈ served ↔ Current s.log r ∧ Deliverable r ∧
        ∀ r', Current s.log r' → ¬ Deliverable r' → routeLt r r' = .ok true) ∧
      (onErrorDispatcherSendMessage opcode msg s : List (Content Addr) × _).1.map .ok =
        served.map (notify opcode msg) ∧
      ((onErrorDispatcherSendMessage opcode msg s : List (Content Addr) × _).2 = .ok () ↔
        ∀ r, Current s.log r → Deliverable r) := by
  have hs := keeps_of_reachable hReach
  obtain ⟨served, rest, hSplit, hServed, hRest, hOut, hOk⟩ :=
    @notifyLoop_spec Addr opcode msg s.mSubscribers
  have hSorted := hs.sorted
  rw [hSplit] at hSorted
  obtain ⟨hFront, hBack, hBetween⟩ := List.pairwise_append.1 hSorted
  have hIs : ∀ r, Current s.log r ↔ r ∈ served ∨ r ∈ rest := fun r => by
    rw [← hs.mem, hSplit, List.mem_append]
  have hAsymm : ∀ r r', routeLt r r' = .ok true → routeLt r' r ≠ .ok true := fun r r' h h' =>
    lt_asymm (throwingKey_routes.lt_iff.1 h).2 (throwingKey_routes.lt_iff.1 h').2
  refine ⟨served, ?_, fun r => ⟨fun hr => ?_, ?_⟩, hOut, hOk.trans ⟨?_, fun hAll => ?_⟩⟩
  · refine hFront.imp_of_mem fun {r r'} hr _ hLt => ?_
    rintro rfl
    exact hAsymm r r hLt hLt
  · exact ⟨(hIs r).2 (.inl hr), hServed r hr, fun r' hr' hNot =>
      hBetween r hr r' (((hIs r').1 hr').resolve_left fun h => hNot (hServed r' h))⟩
  · -- one behind the first that cannot be served comes behind that
    rintro ⟨hr, hDeliver, hBefore⟩
    refine ((hIs r).1 hr).resolve_right fun hLate => ?_
    cases rest with
    | nil => exact absurd hLate List.not_mem_nil
    | cons i rest =>
        have hi : ¬ Deliverable i := hRest i rfl
        have hiCurrent := (hIs i).2 (.inr List.mem_cons_self)
        have hFirst := hBefore i hiCurrent hi
        rcases List.mem_cons.1 hLate with rfl | hLater
        · exact hi hDeliver
        · exact hAsymm r i hFirst ((List.pairwise_cons.1 hBack).1 r hLater)
  · rintro rfl r hr
    exact hServed r (((hIs r).1 hr).resolve_right List.not_mem_nil)
  · cases rest with
    | nil => rfl
    | cons i rest =>
        exact absurd (hAll i ((hIs i).2 (.inr List.mem_cons_self))) (hRest i rfl)

end

/-- Two subscribe, one with nowhere to send to, and one takes it back; of two listeners that
subscribe to the service only the first is there. -/
def threeSubscribers : List Act :=
  [.subscribe [.thread 1, .remoteAddr 5], .subscribe [.thread 1], .subscribe [.thread 2],
    .unsubscribe [.thread 2], .subscribe [.localService [1], .listener 8],
    .subscribe [.localService [1], .listener 9]]

theorem sendMessage_served_three :
    ∃ served : List RouteT, served.Nodup ∧
      (∀ r, r ∈ served ↔
        Current (service.exec ⟨[], []⟩ threeSubscribers).log r ∧ Deliverable r ∧
          ∀ r', Current (service.exec ⟨[], []⟩ threeSubscribers).log r' → ¬ Deliverable r' →
            routeLt r r' = .ok true) ∧
      (onErrorDispatcherSendMessage [1] [2] (service.exec ⟨[], []⟩ threeSubscribers) :
        List (Content Empty) × _).1.map .ok = served.map (notify [1] [2]) ∧
      ((onErrorDispatcherSendMessage [1] [2] (service.exec ⟨[], []⟩ threeSubscribers) :
        List (Content Empty) × _).2 = .ok () ↔
        ∀ r, Current (service.exec ⟨[], []⟩ threeSubscribers).log r → Deliverable r) :=
  sendMessage_served ⟨_, threeSubscribers, rfl, Machine.path_of_enabled (fun _ _ => trivial) _ _, rfl⟩
    [1] [2]

end Megatron.ErrorDispatcher
