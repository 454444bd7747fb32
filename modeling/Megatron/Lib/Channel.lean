import Megatron.Lib.Framing

/-!
# A framed channel

A sender writes one frame behind the other.  Their symbols travel in order and
arrive in chunks, cut anywhere; the receive loop takes the frames off them.  A
frame may leave the loop with others behind it, which then wait for the next
chunk: nothing is lost by that, so `Carried` holds of every stream in which no
frame shuts the connection, not only of one that flows.

## Main results

* `Carried.writes`, `Carried.deliver` — the sender writes frames, a chunk arrives.
* `Carried.settled` — nothing in flight and no whole frame in the buffer: every
  frame has been handled.
* `Carried.waits` — when no whole frame is left in the buffer.
-/

namespace Megatron.Lib.Framing

universe u v

variable {φ : Type u} {β : Type v} (fmt : FrameFormat φ β) (verdict : φ → Verdict)

/-- The frames written, the symbols that have not arrived yet, and the receiver:
it has handled the first of the frames, and what it keeps and what is in flight
is the rest. -/
structure Carried (fs : List φ) (flight : List β) (r : Receiver φ β) : Prop where
  shut_eq : r.shut = false
  split : ∃ todo, fs = r.handled ++ todo ∧ wire fmt todo = r.buffer ++ flight

/-- No whole frame is in the buffer. -/
def Waits (r : Receiver φ β) : Prop := fmt.decode r.buffer = none

section Loop

variable {fmt verdict}

/-- The loop on the front of a stream that nothing shuts takes frames off it, and
where none of them leaves the loop it ends for want of a frame. -/
theorem loop_carried (fs : List φ) (hOpen : ∀ f ∈ fs, verdict f ≠ .shut) :
    ∀ (fuel : Nat) (p flight : List β), wire fmt fs = p ++ flight → p.length < fuel →
      Carried fmt fs flight (loop fmt verdict fuel p) ∧
        ((∀ f ∈ (loop fmt verdict fuel p).handled, verdict f = .next) →
          Waits fmt (loop fmt verdict fuel p)) := by
  induction fs with
  | nil =>
      intro fuel p flight hWire hFuel
      cases fuel with
      | zero => omega
      | succ fuel =>
          obtain ⟨rfl, rfl⟩ := List.append_eq_nil_iff.1 hWire.symm
          rw [loop_none fmt.decode_nil]
          exact ⟨⟨rfl, [], rfl, rfl⟩, fun _ => fmt.decode_nil⟩
  | cons f fs ih =>
      intro fuel p flight hWire hFuel
      cases fuel with
      | zero => omega
      | succ fuel =>
      have hPre : p <+: fmt.encode f ++ wire fmt fs := ⟨flight, hWire.symm⟩
      by_cases hLen : (fmt.encode f).length ≤ p.length
      · -- the first frame has arrived
        obtain ⟨q, rfl⟩ : fmt.encode f <+: p :=
          List.prefix_of_prefix_length_le (List.prefix_append _ _) hPre hLen
        rw [wire_cons, List.append_assoc] at hWire
        have hRest : wire fmt fs = q ++ flight := List.append_cancel_left hWire
        have hDec := fmt.decode_encode f q
        have hPos := encode_length_pos fmt f
        rw [List.length_append] at hFuel
        cases hv : verdict f with
        | next =>
            rw [loop_next hDec hv]
            obtain ⟨⟨hShut, todo, hfs, hTodo⟩, hWaits⟩ :=
              ih (fun g hg => hOpen g (List.mem_cons_of_mem f hg)) fuel q flight hRest (by omega)
            exact ⟨⟨hShut, todo, congrArg (f :: ·) hfs, hTodo⟩,
              fun hNext => hWaits fun g hg => hNext g (List.mem_cons_of_mem f hg)⟩
        | leave =>
            rw [loop_leave hDec hv]
            refine ⟨⟨rfl, fs, rfl, hRest⟩, fun hNext => ?_⟩
            rw [hNext f List.mem_cons_self] at hv
            cases hv
        | shut => exact absurd hv (hOpen f List.mem_cons_self)
      · have hCut : p <+: fmt.encode f :=
          List.prefix_of_prefix_length_le hPre (List.prefix_append _ _) (by omega)
        have hNone := fmt.decode_short f p hCut (by omega)
        rw [loop_none hNone]
        exact ⟨⟨rfl, f :: fs, rfl, hWire⟩, fun _ => hNone⟩

end Loop

namespace Carried

variable {fmt verdict} {fs : List φ} {flight c : List β} {r : Receiver φ β}

/-- Nothing has been written. -/
theorem start : Carried fmt [] [] ⟨[], [], false⟩ := ⟨rfl, [], rfl, rfl⟩

theorem handled_prefix (h : Carried fmt fs flight r) : r.handled <+: fs := by
  obtain ⟨todo, hfs, -⟩ := h.split
  exact ⟨todo, hfs.symm⟩

/-- The sender writes frames. -/
theorem writes (h : Carried fmt fs flight r) (ws : List φ) :
    Carried fmt (fs ++ ws) (flight ++ wire fmt ws) r := by
  obtain ⟨todo, hfs, hTodo⟩ := h.split
  refine ⟨h.shut_eq, todo ++ ws, ?_, ?_⟩
  · rw [← List.append_assoc, ← hfs]
  · rw [wire_append, hTodo, List.append_assoc]

theorem write (h : Carried fmt fs flight r) (f : φ) :
    Carried fmt (fs ++ [f]) (flight ++ fmt.encode f) r := by
  have hOne := h.writes [f]
  rwa [wire_cons, wire_nil, List.append_nil] at hOne

/-- A chunk arrives: the frames behind those handled before. -/
theorem poll (h : Carried fmt fs (c ++ flight) r) (hOpen : ∀ f ∈ fs, verdict f ≠ .shut) :
    ∃ todo, fs = r.handled ++ todo ∧
      Carried fmt todo flight (Framing.poll fmt verdict (r.buffer ++ c)) ∧
      ((∀ f ∈ (Framing.poll fmt verdict (r.buffer ++ c)).handled, verdict f = .next) →
        Waits fmt (Framing.poll fmt verdict (r.buffer ++ c))) := by
  obtain ⟨todo, hfs, hTodo⟩ := h.split
  rw [← List.append_assoc] at hTodo
  refine ⟨todo, hfs, loop_carried todo (fun f hf => hOpen f ?_) _ _ _ hTodo (Nat.lt_succ_self _)⟩
  rw [hfs]
  exact List.mem_append_right _ hf

theorem feed_eq (h : Carried fmt fs flight r) (c : List β) :
    feed fmt verdict r c =
      ⟨r.handled ++ (Framing.poll fmt verdict (r.buffer ++ c)).handled,
        (Framing.poll fmt verdict (r.buffer ++ c)).buffer,
        (Framing.poll fmt verdict (r.buffer ++ c)).shut⟩ := by
  rw [feed, h.shut_eq, if_neg Bool.false_ne_true]

theorem deliver (h : Carried fmt fs (c ++ flight) r) (hOpen : ∀ f ∈ fs, verdict f ≠ .shut) :
    Carried fmt fs flight (feed fmt verdict r c) := by
  obtain ⟨todo, hfs, ⟨hShut, todo', hSplit, hRest⟩, -⟩ := h.poll hOpen
  rw [h.feed_eq]
  refine ⟨hShut, todo', ?_, hRest⟩
  rw [hfs, List.append_assoc]
  exact congrArg _ hSplit

/-- Where no frame leaves the loop, no whole frame stays in the buffer. -/
theorem waits (h : Carried fmt fs (c ++ flight) r) (hNext : ∀ f ∈ fs, verdict f = .next) :
    Waits fmt (feed fmt verdict r c) := by
  have hOpen : ∀ f ∈ fs, verdict f ≠ .shut := fun f hf hShut => by
    rw [hNext f hf] at hShut
    cases hShut
  obtain ⟨todo, hfs, hCarried, hWaits⟩ := h.poll hOpen
  rw [h.feed_eq]
  refine hWaits fun f hf => hNext f ?_
  rw [hfs]
  exact List.mem_append_right _ (hCarried.handled_prefix.subset hf)

/-- **Arrival.** Nothing is in flight and the buffer has no whole frame: every
frame has been handled and nothing is left. -/
theorem settled (h : Carried fmt fs [] r) (hWaits : Waits fmt r) :
    r.handled = fs ∧ r.buffer = [] := by
  obtain ⟨todo, hfs, hTodo⟩ := h.split
  rw [List.append_nil] at hTodo
  cases todo with
  | nil =>
      rw [List.append_nil] at hfs
      exact ⟨hfs.symm, hTodo.symm⟩
  | cons f todo =>
      rw [Waits, ← hTodo, wire_cons, fmt.decode_encode] at hWaits
      cases hWaits

end Carried

end Megatron.Lib.Framing
