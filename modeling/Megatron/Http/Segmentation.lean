import Mathlib.Data.List.Infix
import Megatron.Http.Sanity
import Megatron.Lib.Paced

/-!
# Cutting an HTTP stream into chunks

The parser takes up a request where the last chunk left it, so a request may be
cut anywhere.  But a `StreamRead` parses one request at most: a second one that
is complete in the same chunk stays in `m_inBuffer` until the next chunk
arrives, if there is one.  A `POST` with an empty urlencoded body is never
passed on.

## Main results

* `faithful_iff` — a stream of well-formed requests is parsed as its requests
  are alone exactly when none of them is such a `POST`, and for every number of
  chunks no more requests than chunks end in that many last chunks.
* `pipelined_stuck` — two requests in one chunk.
-/

namespace Megatron.Http

open Megatron.Corelib (Bytes)
open Megatron.Lib

variable {svc : Service} {w : Request}

/-! ## Well-formed requests -/

/-- A request as a client writes it: the head up to the empty line, the body,
and what a client writes behind the delimiter that ends a multipart body. -/
structure Message where
  head : Bytes
  body : Bytes
  trail : Bytes

def Message.text (m : Message) : Bytes := m.head ++ (crlf ++ crlf) ++ m.body ++ m.trail

/-- The bytes of a list of requests. -/
def stream (ms : List Message) : Bytes := ms.flatMap Message.text

/-- The request that the head alone makes. -/
abbrev Message.request (svc : Service) (m : Message) : Request := headRequest svc m.head

/-- The body that the head announces: none for a `GET`, `Content-Length` bytes
within `m_maxPost`, or parts up to the delimiter that ends them. -/
inductive BodyFits (svc : Service) (w : Request) (body : Bytes) : Prop where
  | get (hMethod : w.method = get) (hBody : body = [])
  | urlencoded (hMethod : w.method = post) (hNot : ¬ w.Multipart) (hLen : body.length = w.clen)
      (hMax : w.clen ≤ svc.mMaxPost)
  | multipart (hMethod : w.method = post) (hMulti : w.Multipart) (bound sbuf : Bytes)
      (hBound : w.bound = some bound) (hGets : gets (ebound bound) body = some (sbuf, []))
      (hParts : ∀ s ∈ pieces bound sbuf, PartGood s)

/-- A `GET` or `POST` with a head that the parser takes, its first empty line
at its end, and the body that the head announces.  A line end may follow the
delimiter that ends a multipart body. -/
structure WellFormed (svc : Service) (m : Message) : Prop where
  ends : gets (crlf ++ crlf) (m.head ++ (crlf ++ crlf)) = some (m.head, [])
  starts : ¬ crlf <+: m.head
  fine : HeadFine svc m.head
  body : BodyFits svc (m.request svc) m.body
  trail : m.trail = [] ∨ (m.request svc).Multipart ∧ m.trail = crlf

/-- Anything but a `POST` with an empty urlencoded body. -/
def Answered (svc : Service) (m : Message) : Prop :=
  ¬ ((m.request svc).method = post ∧ ¬ (m.request svc).Multipart ∧ m.body = [])

/-- The request that is passed on for `m` alone. -/
def alone (svc : Service) (m : Message) : Option Request := (onStreamRead svc ⟨none, m.text⟩).2

/-- The requests are passed on in order, as each of them is alone, and nothing
but the line end behind a delimiter stays in `m_inBuffer`. -/
def Faithful (svc : Service) (ms : List Message) (chunks : List Bytes) : Prop :=
  ((machine svc).exec {} chunks).incoming.map some = ms.map (alone svc) ∧
    (((machine svc).exec {} chunks).esi.mInBuffer = [] ∨
      ((machine svc).exec {} chunks).esi.mInBuffer = crlf)

/-! ## One request -/

/-- The request that is passed on for a well-formed message. -/
def answer (svc : Service) (m : Message) : Request :=
  sent (takeBody svc (m.request svc) m.body).1.w

theorem notMem_one_fresh : 1 ∉ Request.fresh.parseState := OrdSet.notMem_empty 1

section OneMessage

variable {m : Message}

/-- A whole body is taken, whatever follows. -/
theorem takeBody_whole (hWf : WellFormed svc m) (hAnswered : Answered svc m) (t : Bytes) :
    takeBody svc (m.request svc) (m.body ++ t) =
        ((takeBody svc (m.request svc) m.body).1, t) ∧
      (takeBody svc (m.request svc) m.body).1.exit = .passed := by
  have hTwo := notMem_two_of_fine hWf.fine
  rcases hWf.body with ⟨hMethod, hBody⟩ | ⟨hMethod, hNot, hLen, hMax⟩ |
    ⟨hMethod, hMulti, bound, sbuf, hBound, hGets, hParts⟩
  · have hPost : (m.request svc).method ≠ post := by
      rw [hMethod]
      decide +kernel
    rw [takeBody_not_post hPost hTwo, takeBody_not_post hPost hTwo, hBody]
    exact ⟨rfl, rfl⟩
  · have hPos : (m.request svc).clen ≠ 0 := fun hZero =>
      hAnswered ⟨hMethod, hNot, List.length_eq_zero_iff.1 (hLen.trans hZero)⟩
    have hTake (t : Bytes) := takePost_urlencoded hNot hPos hMax
      (readbuf_iff.2 ⟨rfl, hLen⟩ : readbuf (m.request svc).clen (m.body ++ t) = some (m.body, t))
    have hAlone := hTake []
    rw [List.append_nil] at hAlone
    rw [takeBody_post hMethod hTwo, takeBody_post hMethod hTwo, hTake, hAlone]
    exact ⟨rfl, rfl⟩
  · have hTake := takePost_multipart svc hMulti hBound (dropInfix?_append hGets t)
    rw [takeBody_post hMethod hTwo, takeBody_post hMethod hTwo, hTake,
      takePost_multipart svc hMulti hBound hGets]
    exact ⟨rfl, exit_andThen.2 ⟨storeParts_passed_iff.2 hParts, rfl⟩⟩

/-- A part of a body is waited behind. -/
theorem takeBody_part (hWf : WellFormed svc m) (hAnswered : Answered svc m) {p q : Bytes}
    (hBody : m.body = p ++ q) (hq : q ≠ []) :
    (m.request svc).method = post ∧
      takeBody svc (m.request svc) p = (⟨(m.request svc).consult, .returned⟩, p) := by
  obtain ⟨-, -, -, hContent, -⟩ := headRequest_taken hWf.fine
  rcases takeBody_cut svc hContent (notMem_two_of_fine hWf.fine) p with hLeft | ⟨body, hp, hCut⟩
  · exact hLeft
  · have hWhole := (takeBody_whole hWf hAnswered []).1
    rw [List.append_nil, hBody, hp, List.append_assoc, hCut] at hWhole
    exact absurd (List.append_eq_nil_iff.1 (congrArg Prod.snd hWhole)).2 hq

/-- A head is found at its empty line, also behind the line end of a multipart
body. -/
theorem gets_head (hWf : WellFormed svc m) {slack : Bytes} (hSlack : slack = [] ∨ slack = crlf)
    (t : Bytes) :
    gets (crlf ++ crlf) (slack ++ m.head ++ (crlf ++ crlf) ++ t) = some (slack ++ m.head, t) := by
  rcases hSlack with rfl | rfl
  · exact dropInfix?_append hWf.ends t
  · have hCut := dropInfix?_append hWf.ends t
    rw [List.nil_append] at hCut
    have hLine : ¬ crlf <+: m.head ++ (crlf ++ crlf) ++ t := by
      intro hPrefix
      -- a head of one byte is no line end either
      cases hHead : m.head with
      | nil =>
          obtain ⟨fl, dq, hLines, -, -⟩ := hWf.fine
          rw [hHead] at hLines
          cases hLines
      | cons a rest =>
          rw [hHead] at hPrefix
          cases rest with
          | nil =>
              have hSecond := (List.cons_prefix_cons.1 hPrefix).2
              exact absurd (List.cons_prefix_cons.1 hSecond).1 (by decide)
          | cons b rest =>
              refine hWf.starts ?_
              rw [hHead]
              have hTwo := List.cons_prefix_cons.1 hPrefix
              refine List.cons_prefix_cons.2 ⟨hTwo.1, ?_⟩
              exact List.cons_prefix_cons.2 ⟨(List.cons_prefix_cons.1 hTwo.2).1, List.nil_prefix⟩
    have hPrepend := dropInfix?_prepend (t := crlf) hCut (by
      intro i hi
      have hCases : i = 0 ∨ i = 1 := by
        have hLen : crlf.length = 2 := rfl
        omega
      rcases hCases with rfl | rfl
      · intro hPrefix
        exact hLine ((List.prefix_append_right_inj crlf).1 hPrefix)
      · intro hPrefix
        exact absurd (List.cons_prefix_cons.1 hPrefix).1 (by decide))
    simpa only [gets, List.append_assoc] using hPrepend

theorem parseHead_slack (svc : Service) {slack : Bytes} (hSlack : slack = [] ∨ slack = crlf)
    (head : Bytes) (w : Request) : parseHead svc (slack ++ head) w = parseHead svc head w := by
  rcases hSlack with rfl | rfl
  · rfl
  · rw [parseHead, splitString_crlf_append, parseHead]

theorem takeHead_whole (hWf : WellFormed svc m) {slack : Bytes}
    (hSlack : slack = [] ∨ slack = crlf) (t : Bytes) :
    takeHead svc .fresh (slack ++ m.head ++ (crlf ++ crlf) ++ t) =
      (⟨m.request svc, .passed⟩, t) := by
  rw [takeHead, if_neg notMem_one_fresh, gets_head hWf hSlack]
  dsimp only
  rw [parseHead_slack svc hSlack, parseHead_of_fine hWf.fine between_fresh]

theorem takeHead_part (hWf : WellFormed svc m) {slack p q : Bytes}
    (hSlack : slack = [] ∨ slack = crlf) (hText : slack ++ m.head ++ (crlf ++ crlf) = p ++ q)
    (hq : q ≠ []) : takeHead svc .fresh p = (⟨.fresh, .returned⟩, p) := by
  have hCut := gets_head hWf hSlack []
  rw [List.append_nil, hText] at hCut
  have hNone : gets (crlf ++ crlf) p = none := by
    refine dropInfix?_short hCut ?_
    have hLen := congrArg List.length hText
    have hPos := List.length_pos_iff.2 hq
    simp only [List.length_append] at hLen ⊢
    omega
  rw [takeHead, if_neg notMem_one_fresh, hNone]

end OneMessage

/-! ## Where the receiver stands -/

/-- The connection has requests to come and `future` bytes to receive: either
no head of theirs was taken yet, or the head of the first. -/
inductive Waiting (svc : Service) : List Message → EpollSocketInfo → Bytes → Prop where
  | idle {ms esi future} (slack : Bytes) (hData : esi.data.getD .fresh = .fresh)
      (hSlack : slack = [] ∨ slack = crlf)
      (hText : esi.mInBuffer ++ future = slack ++ stream ms) : Waiting svc ms esi future
  | headed {m ms esi future} (hData : esi.data = some (m.request svc).consult)
      (hPost : (m.request svc).method = post)
      (hText : esi.mInBuffer ++ future = m.body ++ (m.trail ++ stream ms)) :
      Waiting svc (m :: ms) esi future

/-- One `StreamRead`: the first request is passed on if it is complete. -/
def Served (svc : Service) (m : Message) (ms : List Message) (esi : EpollSocketInfo)
    (future : Bytes) : Prop :=
  if future.length ≤ (m.trail ++ stream ms).length then
    (onStreamRead svc esi).2 = some (answer svc m) ∧ Waiting svc ms (onStreamRead svc esi).1 future
  else
    (onStreamRead svc esi).2 = none ∧ Waiting svc (m :: ms) (onStreamRead svc esi).1 future

/-- What arrived and what is to come, cut where `x` ends. -/
theorem cut_at_end {b future x y : Bytes} (h : b ++ future = x ++ y) :
    (future.length ≤ y.length ∧ ∃ rest, b = x ++ rest ∧ rest ++ future = y) ∨
      (y.length < future.length ∧ ∃ q, q ≠ [] ∧ x = b ++ q ∧ future = q ++ y) := by
  have hLen := congrArg List.length h
  simp only [List.length_append] at hLen
  rcases List.append_eq_append_iff.1 h with ⟨q, rfl, rfl⟩ | ⟨rest, rfl, rfl⟩
  · cases q with
    | nil => exact Or.inl ⟨by simp, [], by simp, rfl⟩
    | cons a q =>
        refine Or.inr ⟨?_, a :: q, List.cons_ne_nil _ _, rfl, rfl⟩
        simp only [List.length_append, List.length_cons]
        omega
  · exact Or.inl ⟨by simp, rest, rfl, rfl⟩

section Step

variable {m : Message} {ms : List Message} {esi : EpollSocketInfo} {future : Bytes}

/-- The second half, with the head of `m` taken and `b` behind it. -/
theorem served_of_body (hWf : WellFormed svc m) (hAnswered : Answered svc m) {b : Bytes}
    (hText : b ++ future = m.body ++ (m.trail ++ stream ms))
    (hParse : parse svc (esi.data.getD .fresh) esi.mInBuffer =
      takeBody svc (m.request svc) b) : Served svc m ms esi future := by
  obtain ⟨-, -, -, -, hSent⟩ := headRequest_taken hWf.fine
  rcases cut_at_end hText with ⟨hLe, rest, rfl, hRest⟩ | ⟨hLt, q, hq, hBody, -⟩
  · obtain ⟨hTake, hPassed⟩ := takeBody_whole hWf hAnswered rest
    obtain ⟨hs, ps, vps, pc, states, hFrame, -⟩ :=
      takeBody_frame svc (notMem_two_of_fine hWf.fine) m.body
    have hStep := onStreamRead_passed esi (hParse.trans hTake) hPassed (by rw [hFrame]; exact hSent)
    rw [Served, if_pos hLe, hStep]
    refine ⟨rfl, .idle m.trail rfl ?_ hRest⟩
    exact hWf.trail.imp_right And.right
  · obtain ⟨hPost, hTake⟩ := takeBody_part hWf hAnswered hBody hq
    have hStep := onStreamRead_left esi (hParse.trans hTake) Exit.noConfusion
    rw [Served, if_neg (by omega), hStep]
    exact ⟨rfl, .headed rfl hPost hText⟩

/-- **One step.** -/
theorem served_of_waiting (hWf : WellFormed svc m) (hAnswered : Answered svc m)
    (h : Waiting svc (m :: ms) esi future) : Served svc m ms esi future := by
  cases h with
  | idle slack hData hSlack hText =>
      have hStream : slack ++ stream (m :: ms) =
          (slack ++ m.head ++ (crlf ++ crlf)) ++ (m.body ++ (m.trail ++ stream ms)) := by
        simp only [stream, List.flatMap_cons, Message.text, List.append_assoc]
      rw [hStream] at hText
      rcases cut_at_end hText with ⟨-, rest, hBuf, hRest⟩ | ⟨hLt, q, hq, hHead, -⟩
      · refine served_of_body hWf hAnswered hRest ?_
        rw [hData, hBuf, parse_of_taken (takeHead_whole hWf hSlack rest)]
      · have hParse : parse svc (esi.data.getD .fresh) esi.mInBuffer =
            (⟨.fresh, .returned⟩, esi.mInBuffer) := by
          rw [hData]
          exact parse_of_left (takeHead_part hWf hSlack hHead hq) Exit.noConfusion
        have hStep := onStreamRead_left esi hParse Exit.noConfusion
        have hLate : ¬ future.length ≤ (m.trail ++ stream ms).length := by
          rw [List.length_append] at hLt
          omega
        rw [Served, if_neg hLate, hStep]
        exact ⟨rfl, .idle slack rfl hSlack (hText.trans hStream.symm)⟩
  | headed hData hPost hText =>
      refine served_of_body hWf hAnswered hText ?_
      have hOne : 1 ∈ (m.request svc).consult.parseState := mem_one_of_fine hWf.fine
      have hTake : takeHead svc (m.request svc).consult esi.mInBuffer =
          (⟨(m.request svc).consult, .passed⟩, esi.mInBuffer) := by
        rw [takeHead, if_pos hOne]
      rw [hData, Option.getD_some, parse_of_taken hTake]
      exact takeBody_consult hPost (notMem_two_of_fine hWf.fine)

/-- Behind the last request there is nothing to take. -/
theorem waiting_none (h : Waiting svc [] esi future) :
    (onStreamRead svc esi).2 = none ∧ Waiting svc [] (onStreamRead svc esi).1 future := by
  cases h with
  | idle slack hData hSlack hText =>
      have hNone : gets (crlf ++ crlf) esi.mInBuffer = none := by
        rw [Option.eq_none_iff_forall_not_mem]
        rintro ⟨p, r⟩ hCut
        have hLen := length_of_dropInfix? hCut
        have hAll := congrArg List.length hText
        have hTwo : slack.length ≤ 2 := by rcases hSlack with rfl | rfl <;> decide
        have hFour : (crlf ++ crlf).length = 4 := rfl
        simp only [stream, List.flatMap_nil, List.append_nil, List.length_append] at hAll
        omega
      have hParse : parse svc (esi.data.getD .fresh) esi.mInBuffer =
          (⟨.fresh, .returned⟩, esi.mInBuffer) := by
        refine parse_of_left ?_ Exit.noConfusion
        rw [hData, takeHead, if_neg notMem_one_fresh, hNone]
      have hStep := onStreamRead_left esi hParse Exit.noConfusion
      rw [hStep]
      exact ⟨rfl, .idle slack rfl hSlack hText⟩

end Step

/-! ## Runs -/

/-- How many bytes of the stream are behind the end of each request. -/
def behind : List Message → List Nat
  | [] => []
  | m :: ms => (m.trail ++ stream ms).length :: behind ms

theorem Waiting.receive {ms : List Message} {esi : EpollSocketInfo} {chunk future : Bytes}
    (h : Waiting svc ms esi (chunk ++ future)) :
    Waiting svc ms ⟨esi.data, esi.mInBuffer ++ chunk⟩ future := by
  cases h with
  | idle slack hData hSlack hText =>
      exact .idle slack hData hSlack (by rw [List.append_assoc]; exact hText)
  | headed hData hPost hText =>
      exact .headed hData hPost (by rw [List.append_assoc]; exact hText)

/-- **A run.** The requests are passed on one for each chunk, as they are
complete. -/
theorem exec_waiting {ms : List Message} (hWf : ∀ m ∈ ms, WellFormed svc m ∧ Answered svc m)
    (chunks : List Bytes) (c : Connection) (h : Waiting svc ms c.esi chunks.flatten) :
    ∃ answered left, ms = answered ++ left ∧
      behind left = Paced.serve (behind ms) chunks ∧
      ((machine svc).exec c chunks).incoming = c.incoming ++ answered.map (answer svc) ∧
      Waiting svc left ((machine svc).exec c chunks).esi [] := by
  induction chunks generalizing ms c with
  | nil => exact ⟨[], ms, rfl, rfl, by simp, h⟩
  | cons chunk chunks ih =>
      have hReceived : Waiting svc ms ⟨c.esi.data, c.esi.mInBuffer ++ chunk⟩ chunks.flatten :=
        Waiting.receive h
      cases ms with
      | nil =>
          obtain ⟨hNone, hWaiting⟩ := waiting_none hReceived
          obtain ⟨answered, left, hSplit, hLeft, hIncoming, hEnd⟩ :=
            ih hWf (c.streamRead svc chunk) hWaiting
          refine ⟨answered, left, hSplit, hLeft, hIncoming.trans ?_, hEnd⟩
          simp only [Connection.streamRead, hNone, Option.toList_none, List.append_nil]
      | cons m ms =>
          obtain ⟨hm, hms⟩ := List.forall_mem_cons.1 hWf
          have hServed := served_of_waiting hm.1 hm.2 hReceived
          rw [Served] at hServed
          rw [behind, Paced.serve]
          split at hServed
          · rename_i hComplete
            obtain ⟨hSome, hWaiting⟩ := hServed
            obtain ⟨answered, left, hSplit, hLeft, hIncoming, hEnd⟩ :=
              ih hms (c.streamRead svc chunk) hWaiting
            rw [if_pos hComplete]
            refine ⟨m :: answered, left, congrArg (m :: ·) hSplit, hLeft, hIncoming.trans ?_, hEnd⟩
            simp only [Connection.streamRead, hSome, Option.toList_some, List.append_assoc,
              List.singleton_append, List.map_cons]
          · rename_i hComing
            obtain ⟨hNone, hWaiting⟩ := hServed
            obtain ⟨answered, left, hSplit, hLeft, hIncoming, hEnd⟩ :=
              ih hWf (c.streamRead svc chunk) hWaiting
            rw [if_neg hComing]
            refine ⟨answered, left, hSplit, hLeft, hIncoming.trans ?_, hEnd⟩
            simp only [Connection.streamRead, hNone, Option.toList_none, List.append_nil]

/-! ## One at a time -/

theorem behind_lt (ms : List Message) : ∀ e ∈ behind ms, e < (stream ms).length := by
  induction ms with
  | nil => exact List.forall_mem_nil _
  | cons m ms ih =>
      have hLen : (stream (m :: ms)).length =
          m.head.length + 4 + m.body.length + m.trail.length + (stream ms).length := by
        have hFour : crlf.length = 2 := rfl
        simp only [stream, List.flatMap_cons, Message.text, List.length_append, hFour]
      intro e he
      rcases List.mem_cons.1 he with rfl | he
      · rw [hLen, List.length_append]
        omega
      · have hLt := ih e he
        omega

theorem behind_sorted (ms : List Message) : (behind ms).Pairwise (· ≥ ·) := by
  induction ms with
  | nil => exact List.Pairwise.nil
  | cons m ms ih =>
      refine List.pairwise_cons.2 ⟨fun e he => ?_, ih⟩
      have hLt := behind_lt ms e he
      rw [List.length_append]
      omega

theorem behind_eq_nil {ms : List Message} (h : behind ms = []) : ms = [] := by
  cases ms with
  | nil => rfl
  | cons m ms => cases h

/-- How many of the requests end in the last `n` bytes of their stream; a
multipart request ends with its last delimiter. -/
def endingIn (ms : List Message) (n : Nat) : Nat := Paced.endingIn (behind ms) n

theorem alone_of_answered {m : Message} (hWf : WellFormed svc m) (hAnswered : Answered svc m) :
    alone svc m = some (answer svc m) := by
  have hStart : Waiting svc [m] ⟨none, m.text⟩ [] :=
    .idle [] rfl (Or.inl rfl) (by simp [stream])
  have hServed := served_of_waiting hWf hAnswered hStart
  have hComplete : ([] : Bytes).length ≤ (m.trail ++ stream []).length := Nat.zero_le _
  rw [Served, if_pos hComplete] at hServed
  exact hServed.1

/-- A `POST` with `Content-Length: 0` is never passed on. -/
theorem alone_of_not_answered {m : Message} (hWf : WellFormed svc m)
    (hNot : ¬ Answered svc m) : alone svc m = none := by
  rw [Answered, not_not] at hNot
  obtain ⟨hPost, hForm, hBody⟩ := hNot
  have hZero : (m.request svc).clen = 0 := by
    rcases hWf.body with ⟨hMethod, -⟩ | ⟨-, -, hLen, -⟩ | ⟨-, hMulti, -, -, -, -, -⟩
    · rw [hPost] at hMethod
      exact absurd hMethod (by decide +kernel)
    · rw [← hLen, hBody]
      rfl
    · exact absurd hMulti hForm
  have hTake := takeHead_whole hWf (Or.inl rfl) (m.body ++ m.trail)
  have hStay : takePost svc (m.request svc) (m.body ++ m.trail) =
      (⟨(m.request svc).consult, .returned⟩, m.body ++ m.trail) := by
    rw [takePost, if_pos hForm, if_pos (Or.inl hZero)]
  have hText : m.text = [] ++ m.head ++ (crlf ++ crlf) ++ (m.body ++ m.trail) := by
    simp only [Message.text, List.nil_append, List.append_assoc]
  have hParse : parse svc .fresh m.text =
      (⟨(m.request svc).consult, .returned⟩, m.body ++ m.trail) := by
    rw [hText, parse_of_taken hTake, takeBody_post hPost (notMem_two_of_fine hWf.fine), hStay]
    rfl
  have hStep := onStreamRead_left ⟨none, m.text⟩ hParse Exit.noConfusion
  rw [alone, hStep]

/--
**Which streams are parsed as their requests are.** A stream of well-formed
requests, cut into any chunks, is parsed into what its requests give alone, and
leaves none behind, exactly when none of them is a `POST` with an empty
urlencoded body, and in any number of last chunks no more requests than chunks
end.
-/
theorem faithful_iff {ms : List Message} (hWf : ∀ m ∈ ms, WellFormed svc m) {chunks : List Bytes}
    (hChunks : chunks.flatten = stream ms) :
    Faithful svc ms chunks ↔ (∀ m ∈ ms, Answered svc m) ∧
      ∀ later, later <:+ chunks → endingIn ms later.flatten.length ≤ later.length := by
  have hIn : ∀ e ∈ behind ms, e < chunks.flatten.length := by
    rw [hChunks]
    exact behind_lt ms
  have hKept := Paced.serve_eq_nil (behind_sorted ms) hIn
  have hStart : Waiting svc ms ({} : Connection).esi chunks.flatten :=
    .idle [] rfl (Or.inl rfl) hChunks
  constructor
  · rintro ⟨hSame, -⟩
    have hAnswered : ∀ m ∈ ms, Answered svc m := by
      intro m hm
      by_contra hNot
      have hMem : alone svc m ∈ ms.map (alone svc) := List.mem_map_of_mem hm
      rw [alone_of_not_answered (hWf m hm) hNot, ← hSame] at hMem
      simp at hMem
    obtain ⟨answered, left, hSplit, hLeft, hIncoming, -⟩ :=
      exec_waiting (fun m hm => ⟨hWf m hm, hAnswered m hm⟩) chunks {} hStart
    have hLen := congrArg List.length hSame
    rw [hIncoming] at hLen
    have hNone : left = [] := by
      rw [hSplit] at hLen
      refine List.length_eq_zero_iff.1 ?_
      simpa using hLen
    refine ⟨hAnswered, hKept.1 ?_⟩
    rw [← hLeft, hNone]
    rfl
  · rintro ⟨hAnswered, hLater⟩
    obtain ⟨answered, left, hSplit, hLeft, hIncoming, hEnd⟩ :=
      exec_waiting (fun m hm => ⟨hWf m hm, hAnswered m hm⟩) chunks {} hStart
    have hNone : left = [] := behind_eq_nil (hLeft.trans (hKept.2 hLater))
    rw [hNone, List.append_nil] at hSplit
    subst hSplit
    rw [hNone] at hEnd
    constructor
    · rw [hIncoming, show ({} : Connection).incoming = [] from rfl, List.nil_append, List.map_map]
      refine List.map_congr_left fun m hm => ?_
      exact (alone_of_answered (hWf m hm) (hAnswered m hm)).symm
    · cases hEnd with
      | idle slack hData hSlack hText =>
          have hRest : ((machine svc).exec {} chunks).esi.mInBuffer = slack := by
            simpa [stream] using hText
          rw [hRest]
          exact hSlack

/-! ## Three requests -/

def getMessage : Message :=
  ⟨text "GET /a?b=c HTTP/1.1" ++ crlf ++ text "Host: x", [], []⟩

def formMessage : Message :=
  ⟨text "POST /f HTTP/1.1" ++ crlf ++ text "Content-Length: 3", text "d=e", []⟩

def multipartMessage : Message :=
  ⟨text "POST /m HTTP/1.1" ++ crlf ++ text "Content-Type: multipart/form-data; boundary=B",
    text "--B" ++ crlf ++ text "Content-Disposition: form-data; name=g" ++ crlf ++ crlf ++
      text "h" ++ crlf ++ text "--B--", crlf⟩

theorem wellFormed_messages :
    WellFormed standard getMessage ∧ WellFormed standard formMessage ∧
      WellFormed standard multipartMessage := by
  refine ⟨⟨?_, ?_, ⟨text "GET /a?b=c HTTP/1.1", [text "Host: x"], ?_, ?_, ?_⟩, .get ?_ rfl, .inl rfl⟩,
    ⟨?_, ?_, ⟨text "POST /f HTTP/1.1", [text "Content-Length: 3"], ?_, ?_, ?_⟩,
      .urlencoded ?_ ?_ ?_ ?_, .inl rfl⟩,
    ⟨?_, ?_, ⟨text "POST /m HTTP/1.1", [text "Content-Type: multipart/form-data; boundary=B"],
      ?_, ?_, ?_⟩,
      .multipart ?_ ?_ (text "--B")
        (text "--B" ++ crlf ++ text "Content-Disposition: form-data; name=g" ++ crlf ++ crlf ++
          text "h" ++ crlf) ?_ ?_ ?_, .inr ⟨?_, rfl⟩⟩⟩
  all_goals decide +kernel

/-- Three requests, cut inside a head, inside a body and between two of them. -/
def fourChunks : List Bytes :=
  let bytes := stream [multipartMessage, getMessage, formMessage]
  let form := formMessage.text.length
  [bytes.take 100, (bytes.drop 100).take (bytes.length - form - 110),
    (bytes.drop (bytes.length - form - 10)).take 20, bytes.drop (bytes.length - form + 10)]

theorem fourChunks_faithful : Faithful standard [multipartMessage, getMessage, formMessage] fourChunks := by
  have hWf : ∀ m ∈ [multipartMessage, getMessage, formMessage], WellFormed standard m := by
    obtain ⟨hGet, hForm, hMultipart⟩ := wellFormed_messages
    intro m hm
    simp only [List.mem_cons, List.not_mem_nil, or_false] at hm
    rcases hm with rfl | rfl | rfl
    · exact hMultipart
    · exact hGet
    · exact hForm
  refine (faithful_iff hWf (by decide +kernel)).2 ⟨?_, ?_⟩
  · intro m hm
    simp only [List.mem_cons, List.not_mem_nil, or_false] at hm
    rcases hm with rfl | rfl | rfl <;> unfold Answered <;> decide +kernel
  · intro later hSuffix
    have hAll : ∀ later ∈ fourChunks.tails,
        endingIn [multipartMessage, getMessage, formMessage] later.flatten.length ≤
          later.length := by decide +kernel
    exact hAll later ((List.mem_tails _ _).2 hSuffix)

/-- Two requests in one chunk: the second one stays. -/
theorem pipelined_stuck :
    ¬ ∀ ms, (∀ m ∈ ms, WellFormed standard m) → ∀ chunks : List Bytes,
      chunks.flatten = stream ms → Faithful standard ms chunks := by
  intro h
  have hWf : ∀ m ∈ [getMessage, getMessage], WellFormed standard m := by
    intro m hm
    obtain rfl : m = getMessage := by simpa using hm
    exact wellFormed_messages.1
  have hSame := (h [getMessage, getMessage] hWf [stream [getMessage, getMessage]] (by simp)).1
  have hOne : ((machine standard).exec {} [stream [getMessage, getMessage]]).incoming.length =
      1 := by decide +kernel
  have hLen := congrArg List.length hSame
  rw [List.length_map, List.length_map, hOne] at hLen
  exact absurd hLen (by decide)

end Megatron.Http
