import Mathlib.Data.List.Basic

/-!
# Incremental reception of a framed stream

A sender writes frames one behind the other; a receiver gets the same symbols
cut into chunks at arbitrary places, keeps what it could not decode yet in a
buffer, and after each chunk decodes as many frames as it can.  This module
states once what such a receiver has done after any prefix of the stream and
any cutting, for an arbitrary frame type, symbol type and codec.

A frame may also end the receive loop (`Verdict.leave`: wait for the next
chunk) or end the connection (`Verdict.shut`).  `Flows` says that no frame
leaves the loop with another frame behind it; it is exactly the condition
under which the cutting cannot be observed.

## Main results

* `feedAll_received` — after any chunking of any prefix of a flowing stream,
  the frames handled and the bytes buffered are those of the prefix.
* `feedAll_handled` — after the whole stream, the handled frames do not
  depend on the chunking.
* `poll_wire_stop` — one chunk with the whole stream is handled up to the
  first frame that stops the loop, and the rest stays in the buffer.
-/

namespace Megatron.Lib.Framing

universe u v

/-- What the receive loop does after a frame. -/
inductive Verdict where
  | next
  | leave
  | shut
  deriving DecidableEq, Repr

/--
A codec for one frame: decoding inverts encoding whatever follows, and a
proper prefix of an encoding does not decode.
-/
structure FrameFormat (φ : Type u) (β : Type v) where
  encode : φ → List β
  decode : List β → Option (φ × List β)
  decode_encode : ∀ f rest, decode (encode f ++ rest) = some (f, rest)
  decode_short : ∀ f p, p <+: encode f → p.length < (encode f).length → decode p = none
  decode_nil : decode [] = none

/-- The state of a receiver: the frames it has handled, the symbols it keeps,
and whether it has shut the connection. -/
structure Receiver (φ : Type u) (β : Type v) where
  handled : List φ
  buffer : List β
  shut : Bool
  deriving DecidableEq, Repr

variable {φ : Type u} {β : Type v} (fmt : FrameFormat φ β) (verdict : φ → Verdict)

/-! ## The receive loop -/

/-- The receive loop over a buffer, with the number of iterations bounded. -/
def loop : Nat → List β → Receiver φ β
  | 0, buf => ⟨[], buf, false⟩
  | fuel + 1, buf =>
      match fmt.decode buf with
      | none => ⟨[], buf, false⟩
      | some (f, rest) =>
          match verdict f with
          | .next =>
              let r := loop fuel rest
              { r with handled := f :: r.handled }
          | .leave => ⟨[f], rest, false⟩
          | .shut => ⟨[f], rest, true⟩

section LoopStep

variable {fmt verdict} {fuel : Nat} {buf rest : List β} {f : φ}

attribute [local simp] loop

theorem loop_none (h : fmt.decode buf = none) :
    loop fmt verdict (fuel + 1) buf = ⟨[], buf, false⟩ := by
  simp only [loop, h]

theorem loop_next (h : fmt.decode buf = some (f, rest)) (hv : verdict f = .next) :
    loop fmt verdict (fuel + 1) buf =
      { loop fmt verdict fuel rest with
        handled := f :: (loop fmt verdict fuel rest).handled } := by
  simp only [loop, h, hv]

theorem loop_leave (h : fmt.decode buf = some (f, rest)) (hv : verdict f = .leave) :
    loop fmt verdict (fuel + 1) buf = ⟨[f], rest, false⟩ := by
  simp only [loop, h, hv]

theorem loop_shut (h : fmt.decode buf = some (f, rest)) (hv : verdict f = .shut) :
    loop fmt verdict (fuel + 1) buf = ⟨[f], rest, true⟩ := by
  simp only [loop, h, hv]

end LoopStep

/-- The receive loop; every frame takes at least one symbol, so the length of
the buffer bounds the iterations. -/
def poll (buf : List β) : Receiver φ β := loop fmt verdict (buf.length + 1) buf

/-- One chunk arrives. A receiver that has shut the connection gets no more. -/
def feed (s : Receiver φ β) (chunk : List β) : Receiver φ β :=
  if s.shut then s
  else
    let r := poll fmt verdict (s.buffer ++ chunk)
    ⟨s.handled ++ r.handled, r.buffer, r.shut⟩

/-- All chunks arrive, from an empty buffer. -/
def feedAll (chunks : List (List β)) : Receiver φ β :=
  chunks.foldl (feed fmt verdict) ⟨[], [], false⟩

/-! ## The stream -/

/-- The symbols of a list of frames. -/
def wire (fs : List φ) : List β := fs.flatMap fmt.encode

@[simp] theorem wire_nil : wire fmt ([] : List φ) = [] := rfl

@[simp] theorem wire_cons (f : φ) (fs : List φ) :
    wire fmt (f :: fs) = fmt.encode f ++ wire fmt fs := rfl

@[simp] theorem wire_append (xs ys : List φ) :
    wire fmt (xs ++ ys) = wire fmt xs ++ wire fmt ys := by
  simp [wire]

/-- No frame leaves the loop with another frame behind it, up to the first
frame that shuts the connection. -/
def Flows : List φ → Prop
  | [] => True
  | f :: fs =>
      match verdict f with
      | .next => Flows fs
      | .leave => fs = []
      | .shut => True

/-- The frames up to the first one that shuts the connection. -/
def live : List φ → List φ
  | [] => []
  | f :: fs => if verdict f = .shut then [f] else f :: live fs

theorem encode_ne_nil (f : φ) : fmt.encode f ≠ [] := by
  intro hNil
  have h := fmt.decode_encode f []
  rw [hNil, List.append_nil, fmt.decode_nil] at h
  exact absurd h (by simp)

theorem encode_length_pos (f : φ) : 0 < (fmt.encode f).length :=
  List.length_pos_of_ne_nil (encode_ne_nil fmt f)

theorem flows_suffix {xs ys : List φ} (h : Flows verdict (xs ++ ys))
    (hOpen : ∀ x ∈ xs, verdict x ≠ .shut) : Flows verdict ys := by
  induction xs with
  | nil => exact h
  | cons x xs ih =>
      have hRest : ∀ y ∈ xs, verdict y ≠ .shut := fun y hy => hOpen y (by simp [hy])
      cases hv : verdict x with
      | next =>
          simp only [List.cons_append, Flows, hv] at h
          exact ih h hRest
      | leave =>
          simp only [List.cons_append, Flows, hv, List.append_eq_nil_iff] at h
          rw [h.2]
          trivial
      | shut => exact absurd hv (hOpen x (by simp))

theorem live_append_of_open {xs : List φ} (ys : List φ)
    (hOpen : ∀ x ∈ xs, verdict x ≠ .shut) :
    live verdict (xs ++ ys) = xs ++ live verdict ys := by
  induction xs with
  | nil => rfl
  | cons x xs ih =>
      have hx : verdict x ≠ .shut := hOpen x (by simp)
      simp [live, hx, ih fun y hy => hOpen y (by simp [hy])]

theorem live_of_open {xs : List φ} (hOpen : ∀ x ∈ xs, verdict x ≠ .shut) :
    live verdict xs = xs := by
  simpa [live] using live_append_of_open verdict [] hOpen

/-! ## What has been received -/

/-- The receiver after the symbols `p` of the stream `wire fs`. While the
connection is open it has handled the frames complete in `p` and keeps the
rest of `p`, which is shorter than the next frame; once shut it has handled
the live frames and keeps some symbols of the frames behind them. -/
def Received (fs : List φ) (p : List β) (s : Receiver φ β) : Prop :=
  (s.shut = false ∧ (∀ f ∈ s.handled, verdict f ≠ .shut) ∧
    ∃ todo, fs = s.handled ++ todo ∧ p = wire fmt s.handled ++ s.buffer ∧
      ∀ f ∈ todo.head?, s.buffer.length < (fmt.encode f).length) ∨
  (s.shut = true ∧ (∃ f ∈ s.handled, verdict f = .shut) ∧ s.handled = live verdict fs ∧
    ∃ dead, fs = s.handled ++ dead ∧ s.buffer <+: wire fmt dead)

/-- The loop on a prefix of a flowing stream receives that prefix. -/
theorem loop_received (fs : List φ) :
    ∀ (fuel : Nat) (p : List β), Flows verdict fs → p <+: wire fmt fs →
      p.length < fuel → Received fmt verdict fs p (loop fmt verdict fuel p) := by
  induction fs with
  | nil =>
      intro fuel p _ hp hFuel
      obtain rfl : p = [] := by simpa using hp
      cases fuel with
      | zero => omega
      | succ fuel =>
          rw [loop_none fmt.decode_nil]
          exact .inl ⟨rfl, by simp, [], by simp⟩
  | cons f fs ih =>
      intro fuel p hFlows hp hFuel
      cases fuel with
      | zero => omega
      | succ fuel =>
      rw [wire_cons] at hp
      by_cases hLen : (fmt.encode f).length ≤ p.length
      · -- the first frame is complete in `p`
        obtain ⟨q, rfl⟩ : fmt.encode f <+: p :=
          List.prefix_of_prefix_length_le (List.prefix_append _ _) hp hLen
        have hq : q <+: wire fmt fs := (List.prefix_append_right_inj _).1 hp
        have hPos := encode_length_pos fmt f
        have hDec := fmt.decode_encode f q
        cases hv : verdict f with
        | next =>
            rw [loop_next hDec hv]
            simp only [Flows, hv] at hFlows
            rw [List.length_append] at hFuel
            rcases ih fuel q hFlows hq (by omega) with
              ⟨hs, hOpen, todo, hfs, hqEq, hShort⟩ | ⟨hs, ⟨g, hg, hgv⟩, hLive, dead, hfs, hBuf⟩
            · refine .inl ⟨hs, ?_, todo, by simp [← hfs], by simp [← hqEq], hShort⟩
              intro g hg
              rcases List.mem_cons.1 hg with rfl | hg
              · simp [hv]
              · exact hOpen g hg
            · exact .inr ⟨hs, ⟨g, List.mem_cons_of_mem f hg, hgv⟩,
                by simp [live, hv, hLive], dead, by simp [← hfs], hBuf⟩
        | leave =>
            rw [loop_leave hDec hv]
            simp only [Flows, hv] at hFlows
            subst hFlows
            obtain rfl : q = [] := by simpa using hq
            exact .inl ⟨rfl, by simp [hv], [], by simp⟩
        | shut =>
            rw [loop_shut hDec hv]
            exact .inr ⟨rfl, ⟨f, by simp, hv⟩, by simp [live, hv], fs, rfl, hq⟩
      · -- `p` is a proper prefix of the first frame
        have hPre : p <+: fmt.encode f :=
          List.prefix_of_prefix_length_le hp (List.prefix_append _ _) (by omega)
        rw [loop_none (fmt.decode_short f p hPre (by omega))]
        exact .inl ⟨rfl, by simp, f :: fs, rfl, by simp, by simpa using hLen⟩

theorem poll_received {fs : List φ} {p : List β} (hFlows : Flows verdict fs)
    (hp : p <+: wire fmt fs) : Received fmt verdict fs p (poll fmt verdict p) :=
  loop_received fmt verdict fs _ p hFlows hp (Nat.lt_succ_self _)

/-- One more chunk of the stream. -/
theorem feed_received {fs : List φ} {p c : List β} {s : Receiver φ β}
    (hFlows : Flows verdict fs) (hpc : p ++ c <+: wire fmt fs)
    (h : Received fmt verdict fs p s) :
    Received fmt verdict fs (p ++ c) (feed fmt verdict s c) := by
  rcases h with ⟨hs, hOpen, todo, rfl, rfl, _⟩ | ⟨hs, hShut, hLive, hDead⟩
  · have hTodo : Flows verdict todo := flows_suffix verdict hFlows hOpen
    have hChunk : s.buffer ++ c <+: wire fmt todo := by
      rw [wire_append, List.append_assoc] at hpc
      exact (List.prefix_append_right_inj _).1 hpc
    simp only [feed, hs, Bool.false_eq_true, if_false]
    rcases poll_received fmt verdict hTodo hChunk with
      ⟨hr, hOpen', todo', hEq, hBuf, hShort⟩ | ⟨hr, ⟨g, hg, hgv⟩, hLive', dead, hEq, hBuf⟩
    · refine .inl ⟨hr, ?_, todo', ?_, ?_, hShort⟩
      · intro f hf
        rcases List.mem_append.1 hf with hf | hf
        · exact hOpen f hf
        · exact hOpen' f hf
      · rw [List.append_assoc, ← hEq]
      · rw [wire_append, List.append_assoc, List.append_assoc, ← hBuf]
    · refine .inr ⟨hr, ⟨g, List.mem_append_right _ hg, hgv⟩, ?_, dead, ?_, hBuf⟩
      · rw [live_append_of_open verdict todo hOpen, hLive']
      · rw [List.append_assoc, ← hEq]
  · simp only [feed, hs, if_true]
    exact .inr ⟨hs, hShut, hLive, hDead⟩

/--
**Reception of a flowing stream.**  Whatever prefix of the stream has arrived
and however it was cut, the receiver has received exactly that prefix.
-/
theorem feedAll_received {fs : List φ} (hFlows : Flows verdict fs)
    (chunks : List (List β)) (hChunks : chunks.flatten <+: wire fmt fs) :
    Received fmt verdict fs chunks.flatten (feedAll fmt verdict chunks) := by
  have key : ∀ (cs : List (List β)) (p : List β) (s : Receiver φ β),
      p ++ cs.flatten <+: wire fmt fs → Received fmt verdict fs p s →
      Received fmt verdict fs (p ++ cs.flatten) (cs.foldl (feed fmt verdict) s) := by
    intro cs
    induction cs with
    | nil => intro p s _ hs; simpa using hs
    | cons c cs ih =>
        intro p s hcs hs
        rw [List.flatten_cons, ← List.append_assoc] at hcs ⊢
        have hpc : p ++ c <+: wire fmt fs := (List.prefix_append _ _).trans hcs
        exact ih (p ++ c) _ hcs (feed_received fmt verdict hFlows hpc hs)
  have h0 : Received fmt verdict fs [] ⟨[], [], false⟩ :=
    .inl ⟨rfl, by simp, fs, rfl, rfl, fun f _ => encode_length_pos fmt f⟩
  simpa [feedAll] using key chunks [] _ (by simpa using hChunks) h0

/-! ## The whole stream -/

theorem received_whole {fs : List φ} {s : Receiver φ β}
    (h : Received fmt verdict fs (wire fmt fs) s) :
    s.handled = live verdict fs ∧ (s.shut = false → s.buffer = [] ∧ s.handled = fs) := by
  rcases h with ⟨hs, hOpen, todo, hfs, hp, hShort⟩ | ⟨hs, -, hLive, -⟩
  · have hBuf : s.buffer = wire fmt todo := by
      rw [hfs, wire_append] at hp
      exact (List.append_cancel_left hp).symm
    cases todo with
    | nil =>
        have hEq : fs = s.handled := by simpa using hfs
        refine ⟨?_, fun _ => ⟨by simpa using hBuf, hEq.symm⟩⟩
        rw [hEq, live_of_open verdict hOpen]
    | cons f todo =>
        have hLt := hShort f (by simp)
        rw [hBuf, wire_cons, List.length_append] at hLt
        omega
  · exact ⟨hLive, by simp [hs]⟩

/-- After the whole of a flowing stream, the handled frames are the live ones
and an open receiver has nothing left, whatever the chunking. -/
theorem feedAll_handled {fs : List φ} (hFlows : Flows verdict fs)
    {chunks : List (List β)} (hChunks : chunks.flatten = wire fmt fs) :
    (feedAll fmt verdict chunks).handled = live verdict fs ∧
      ((feedAll fmt verdict chunks).shut = false →
        (feedAll fmt verdict chunks).buffer = []) := by
  have h := feedAll_received fmt verdict hFlows chunks
    (hChunks ▸ List.prefix_refl _)
  rw [hChunks] at h
  obtain ⟨hLive, hOpen⟩ := received_whole fmt verdict h
  exact ⟨hLive, fun hs => (hOpen hs).1⟩

/-- One chunk with the whole stream: the loop stops behind the first frame
that does not ask for the next one, and keeps everything behind it. -/
theorem loop_wire_stop {f : φ} (post : List φ) (hf : verdict f ≠ .next) (pre : List φ) :
    ∀ fuel : Nat, (∀ x ∈ pre, verdict x = .next) → (wire fmt pre).length < fuel →
      loop fmt verdict fuel (wire fmt (pre ++ f :: post)) =
        ⟨pre ++ [f], wire fmt post, verdict f = .shut⟩ := by
  induction pre with
  | nil =>
      intro fuel _ hFuel
      obtain ⟨fuel, rfl⟩ : ∃ m, fuel = m + 1 := ⟨fuel - 1, by omega⟩
      have hDec := fmt.decode_encode f (wire fmt post)
      cases hv : verdict f with
      | next => exact absurd hv hf
      | leave => simp [loop_leave hDec hv]
      | shut => simp [loop_shut hDec hv]
  | cons x pre ih =>
      intro fuel hNext hFuel
      obtain ⟨fuel, rfl⟩ : ∃ m, fuel = m + 1 := ⟨fuel - 1, by omega⟩
      have hPos := encode_length_pos fmt x
      rw [wire_cons, List.length_append] at hFuel
      have hRest := ih fuel (fun y hy => hNext y (by simp [hy])) (by omega)
      rw [List.cons_append, wire_cons,
        loop_next (fmt.decode_encode x _) (hNext x (by simp)), hRest]
      rfl

theorem poll_wire_stop {pre : List φ} {f : φ} (post : List φ)
    (hPre : ∀ x ∈ pre, verdict x = .next) (hf : verdict f ≠ .next) :
    poll fmt verdict (wire fmt (pre ++ f :: post)) =
      ⟨pre ++ [f], wire fmt post, verdict f = .shut⟩ :=
  loop_wire_stop fmt verdict post hf pre _ hPre (by rw [wire_append, List.length_append]; omega)

/-- A stream that does not flow has a frame that leaves the loop with another
frame behind it, and no frame before that stops the loop. -/
theorem exists_leave_of_not_flows {fs : List φ} (h : ¬ Flows verdict fs) :
    ∃ pre f g post, fs = pre ++ f :: g :: post ∧ (∀ x ∈ pre, verdict x = .next) ∧
      verdict f = .leave := by
  induction fs with
  | nil => exact absurd trivial h
  | cons f fs ih =>
      cases hv : verdict f with
      | next =>
          simp only [Flows, hv] at h
          obtain ⟨pre, g, k, post, rfl, hPre, hg⟩ := ih h
          exact ⟨f :: pre, g, k, post, rfl, by simpa [hv] using hPre, hg⟩
      | leave =>
          simp only [Flows, hv] at h
          obtain ⟨g, gs, rfl⟩ := List.exists_cons_of_ne_nil h
          exact ⟨[], f, g, gs, rfl, by simp, hv⟩
      | shut => simp [Flows, hv] at h

theorem feedAll_singleton (p : List β) :
    feedAll fmt verdict [p] = poll fmt verdict p := by
  simp [feedAll, feed]

end Megatron.Lib.Framing
