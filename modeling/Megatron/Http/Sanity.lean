import Megatron.Http.Parsing

/-!
# What `RequestIncoming` carries

`RequestIncoming` should carry the fields of one head that was accepted whole,
and of the body behind it.  A rejected head leaves `METHOD` and `url` behind,
and the next request line overwrites them before it is accepted.  Three inputs
break that: a head without a line, which is taken as it stands, `METHOD` and
`url` included; a header line without a value behind others that have one,
whose headers stay for the next head; and a bad part of a multipart body, which
leaves its head to the next body that comes.

## Main results

* `requests_sane` — in every run without these three inputs every request that
  is passed on is sane.
* `dots_passed` — two chunks after which the connection has passed on a url
  with `..`.
-/

namespace Megatron.Http

open Megatron.Corelib (Bytes)
open Megatron.Lib

variable {svc : Service} {w : Request} {c : Connection}

/-! ## Sane requests -/

/-- `e` says what one head says and the body behind it, all of it. -/
structure Says (svc : Service) (head body : Bytes) (e : Request) : Prop where
  fine : HeadFine svc head
  taken : (takeBody svc (headRequest svc head) body).1.exit = .passed
  whole : (takeBody svc (headRequest svc head) body).2 = []
  method : e.method = (headRequest svc head).method
  url : e.url = (headRequest svc head).url
  originalUrl : e.originalUrl = (headRequest svc head).originalUrl
  originalParams : e.originalParams = (headRequest svc head).originalParams
  headers : ∀ k, e.headers.at' k = (headRequest svc head).headers.at' k
  inCookies : e.inCookies = (headRequest svc head).inCookies
  params : e.params = (takeBody svc (headRequest svc head) body).1.w.params
  vParams : e.vParams = (takeBody svc (headRequest svc head) body).1.w.vParams
  postContent : e.postContent = (takeBody svc (headRequest svc head) body).1.w.postContent

/-- A request as a handler of `RequestIncoming` may trust it: a known method, a
url that stays below its root, and every field from one head and its body in
what was received. -/
structure Sane (svc : Service) (received : Bytes) (e : Request) : Prop where
  method : e.method = get ∨ e.method = post
  url : ¬ text ".." <:+: e.url
  source : ∃ head body, head ++ (crlf ++ crlf) ++ body <:+: received ∧ Says svc head body e

theorem Sane.more {received : Bytes} {e : Request} (h : Sane svc received e) (chunk : Bytes) :
    Sane svc (received ++ chunk) e := by
  obtain ⟨head, body, hIn, hSays⟩ := h.source
  exact ⟨h.method, h.url, head, body, hIn.trans (List.prefix_append _ _).isInfix, hSays⟩

theorem keepAlive_frame (w : Request) : ∃ b, keepAlive w = { w with isKeepAlive := b } := by
  unfold keepAlive
  split
  · exact ⟨w.isKeepAlive, rfl⟩
  · exact ⟨_, rfl⟩

theorem takeBody_frame (svc : Service) (hTwo : 2 ∉ w.parseState) (buf : Bytes) :
    ∃ hs ps vps pc states, (takeBody svc w buf).1.w =
        { w with
          headers := hs, params := ps, vParams := vps, postContent := pc,
          parseState := states } ∧
      ∀ k, OrdMap.at' hs k = w.headers.at' k := by
  by_cases hPost : w.method = post
  · obtain ⟨ps, vps, pc, hFrame⟩ := takePost_frame svc w buf
    rw [takeBody_post hPost hTwo]
    by_cases hPassed : (takePost svc w buf).1.exit = .passed
    · rw [andThen_of_passed hPassed, markBody, hFrame]
      exact ⟨w.consult.headers, ps, vps, pc, _, rfl, at'_consult w⟩
    · rw [andThen_of_ne hPassed, hFrame]
      exact ⟨w.consult.headers, ps, vps, pc, _, rfl, at'_consult w⟩
  · rw [takeBody_not_post hPost hTwo]
    exact ⟨w.headers, w.params, w.vParams, w.postContent, _, rfl, fun _ => rfl⟩

/-- A head that is fine, with a body that is taken whole, gives a sane request. -/
theorem sane_of_taken {head body received : Bytes} (hFine : HeadFine svc head)
    (hIn : head ++ (crlf ++ crlf) ++ body <:+: received)
    (hTaken : (takeBody svc (headRequest svc head) body).1.exit = .passed)
    (hWhole : (takeBody svc (headRequest svc head) body).2 = []) :
    Sane svc received (sent (takeBody svc (headRequest svc head) body).1.w) := by
  obtain ⟨hMethod, hUrl, -, -, -⟩ := headRequest_taken hFine
  have hTwo := notMem_two_of_fine hFine
  obtain ⟨hs, ps, vps, pc, states, hFrame, hHeaders⟩ := takeBody_frame svc hTwo body
  obtain ⟨b, hKeep⟩ := keepAlive_frame (takeBody svc (headRequest svc head) body).1.w
  have hSays : Says svc head body (sent (takeBody svc (headRequest svc head) body).1.w) := by
    rw [sent, hKeep]
    refine ⟨hFine, hTaken, hWhole, ?_, ?_, ?_, ?_, ?_, ?_, rfl, rfl, rfl⟩
    all_goals rw [hFrame]
    exact hHeaders
  refine ⟨?_, ?_, head, body, hIn, hSays⟩
  · rw [hSays.method]
    exact hMethod
  · rw [hSays.url]
    exact hUrl

/-! ## Clean input -/

/-- A head with a line, that is rejected before it has stored a header if it is
rejected: behind a request line that is fine only the first header line may
lack a value. -/
def HeadClean (svc : Service) (head : Bytes) : Prop :=
  splitString crlf head ≠ [] ∧
    (lineFine svc ((splitString crlf head).headD []) = true →
      (∀ line ∈ (splitString crlf head).tail.head?, hasValue line = true) →
      ∀ line ∈ (splitString crlf head).tail, hasValue line = true)

instance (svc : Service) (head : Bytes) : Decidable (HeadClean svc head) :=
  inferInstanceAs (Decidable (_ ∧ (_ → (∀ _ ∈ _, _) → ∀ _ ∈ _, _)))

/-- No bad part in the multipart body that is taken next. -/
def PartsClean (w : Request) (buf : Bytes) : Prop :=
  w.method = post → w.Multipart → ∀ bound ∈ w.bound, ∀ cut ∈ gets (ebound bound) buf,
    ∀ s ∈ pieces bound cut.1, PartGood s

instance (w : Request) (buf : Bytes) : Decidable (PartsClean w buf) :=
  inferInstanceAs (Decidable (_ → _ → ∀ _ ∈ _, ∀ _ ∈ _, ∀ _ ∈ _, _))

/-- The chunk lets the handler take no head that is not clean and no body with
a bad part. -/
structure Clean (svc : Service) (c : Connection) (chunk : Bytes) : Prop where
  head : 1 ∉ (c.esi.data.getD .fresh).parseState →
    ∀ cut ∈ gets (crlf ++ crlf) (c.esi.mInBuffer ++ chunk), HeadClean svc cut.1
  parts : (takeHead svc (c.esi.data.getD .fresh) (c.esi.mInBuffer ++ chunk)).1.exit = .passed →
    PartsClean (takeHead svc (c.esi.data.getD .fresh) (c.esi.mInBuffer ++ chunk)).1.w
      (takeHead svc (c.esi.data.getD .fresh) (c.esi.mInBuffer ++ chunk)).2

instance (svc : Service) (c : Connection) (chunk : Bytes) : Decidable (Clean svc c chunk) :=
  decidable_of_iff ((_ → ∀ _ ∈ _, _) ∧ (_ → _)) ⟨fun h => ⟨h.1, h.2⟩, fun h => ⟨h.head, h.parts⟩⟩

/-- A clean head that is rejected leaves nothing but `METHOD` and `url`. -/
theorem parseHead_rejected {head : Bytes} (hClean : HeadClean svc head)
    (hNot : ¬ HeadFine svc head) (hw : Between w) :
    (parseHead svc head w).exit ≠ .passed ∧ Between (parseHead svc head w).w := by
  obtain ⟨hLines, hFirst⟩ := hClean
  obtain ⟨fl, dq, hEq⟩ := List.exists_cons_of_ne_nil hLines
  refine ⟨fun hPassed => hNot (parseHead_passed hLines hPassed), ?_⟩
  obtain ⟨m₀, url₀, rfl⟩ := hw
  rw [parseHead_eq hEq]
  cases hFine : lineFine svc fl with
  | false =>
      obtain ⟨hExit, m, url, hLeft⟩ := requestLine_not_fine hFine (.named m₀ url₀)
      have hNe : (requestLine svc fl (.named m₀ url₀)).exit ≠ .passed := by
        rw [hExit]
        exact Exit.noConfusion
      rw [andThen_of_ne hNe, andThen_of_ne hNe, hLeft]
      exact ⟨m, url, rfl⟩
  | true =>
      obtain ⟨m, url, -, -, hLine⟩ := requestLine_fine hFine
      have hNamed : requestLine svc fl (.named m₀ url₀) = ⟨.named m url, .passed⟩ := hLine _
      rw [hNamed, andThen_passed]
      rw [hEq] at hFirst
      -- the line without a value is the first one, with nothing stored yet
      cases dq with
      | nil => exact absurd ⟨fl, [], hEq, hFine, List.forall_mem_nil _⟩ hNot
      | cons line dq =>
          have hBad : hasValue line = false := by
            by_contra hValue
            rw [Bool.not_eq_false] at hValue
            refine hNot ⟨fl, line :: dq, hEq, hFine, hFirst hFine ?_⟩
            intro line' hMem
            obtain rfl : line = line' := Option.some.inj hMem
            exact hValue
          obtain ⟨hNe, hLeft⟩ := headerLines_cons_not hBad dq (.named m url)
          rw [andThen_of_ne hNe, hLeft]
          exact ⟨m, url, rfl⟩

/-! ## Runs -/

/-- A request whose head was taken and whose body has not come yet. -/
def Headed (svc : Service) (c : Connection) (w : Request) : Prop :=
  ∃ head, HeadFine svc head ∧ (headRequest svc head).method = post ∧
    w = (headRequest svc head).consult ∧
    head ++ (crlf ++ crlf) ++ c.esi.mInBuffer <:+ c.received

/-- What every clean run keeps. -/
structure Inv (svc : Service) (c : Connection) : Prop where
  unread : c.esi.mInBuffer <:+ c.received
  data : ∀ w ∈ c.esi.data, Between w ∨ Headed svc c w
  incoming : ∀ e ∈ c.incoming, Sane svc c.received e

theorem onStreamRead_left (esi : EpollSocketInfo) {r : Outcome × Bytes}
    (h : parse svc (esi.data.getD .fresh) esi.mInBuffer = r) (hNot : r.1.exit ≠ .passed) :
    onStreamRead svc esi = (⟨some r.1.w, r.2⟩, none) := by
  rw [onStreamRead, h]
  exact if_pos hNot

theorem onStreamRead_passed (esi : EpollSocketInfo) {r : Outcome × Bytes}
    (h : parse svc (esi.data.getD .fresh) esi.mInBuffer = r) (hPassed : r.1.exit = .passed)
    (hSent : r.1.w.sendRequestIncomingIsSent = false) :
    onStreamRead svc esi = (⟨none, r.2⟩, some (sent r.1.w)) := by
  rw [onStreamRead, h]
  simp [hPassed, hSent]

/-- Without a bad part the second half waits or takes a body. -/
theorem takeBody_clean (svc : Service) (hContent : w.postContent = []) (hTwo : 2 ∉ w.parseState)
    {buf : Bytes} (hParts : PartsClean w buf) :
    takeBody svc w buf = (⟨w.consult, .returned⟩, buf) ∨
      (takeBody svc w buf).1.exit = .passed := by
  by_cases hPost : w.method = post
  · rw [takeBody_post hPost hTwo]
    rcases takePost_cases svc hContent buf with hLeft | ⟨content, rest, hNot, hPos, hMax, hRead⟩ |
      ⟨bound, sbuf, rest, hMulti, hBound, hGets⟩
    · left
      rw [hLeft]
      rfl
    · right
      rw [takePost_urlencoded hNot hPos hMax hRead]
      rfl
    · right
      rw [takePost_multipart svc hMulti hBound hGets]
      refine exit_andThen.2 ⟨storeParts_passed_iff.2 ?_, rfl⟩
      exact hParts hPost hMulti bound hBound (sbuf, rest) hGets
  · right
    rw [takeBody_not_post hPost hTwo]
    rfl

/-- The step from a head that was taken: the request waits for its body, or is
passed on. -/
theorem inv_body (h : Inv svc c) {head chunk : Bytes} (rest : Bytes) (hFine : HeadFine svc head)
    (hIn : head ++ (crlf ++ crlf) ++ rest <:+ c.received ++ chunk)
    (hParts : PartsClean (headRequest svc head) rest)
    (hParse : parse svc (c.esi.data.getD .fresh) (c.esi.mInBuffer ++ chunk) =
      takeBody svc (headRequest svc head) rest) :
    Inv svc (c.streamRead svc chunk) := by
  obtain ⟨-, -, -, hContent, hSent⟩ := headRequest_taken hFine
  have hTwo := notMem_two_of_fine hFine
  have hMore : ∀ e ∈ c.incoming, Sane svc (c.received ++ chunk) e :=
    fun e he => (h.incoming e he).more chunk
  have hRest : rest <:+ c.received ++ chunk := (List.suffix_append _ rest).trans hIn
  have hLeft (hPost : (headRequest svc head).method = post)
      (hEq : takeBody svc (headRequest svc head) rest =
        (⟨(headRequest svc head).consult, .returned⟩, rest)) :
      Inv svc (c.streamRead svc chunk) := by
    have hStep := onStreamRead_left ⟨c.esi.data, c.esi.mInBuffer ++ chunk⟩
      (hParse.trans hEq) Exit.noConfusion
    simp only [Connection.streamRead, hStep, Option.toList_none, List.append_nil]
    refine ⟨hRest, fun w hw => Or.inr ⟨head, hFine, hPost, ?_, hIn⟩, hMore⟩
    exact (Option.some.inj hw).symm
  rcases takeBody_cut svc hContent hTwo rest with ⟨hPost, hEq⟩ | ⟨body, hBody, hCut⟩
  · exact hLeft hPost hEq
  rcases takeBody_clean svc hContent hTwo hParts with hEq | hPassed
  · by_cases hPost : (headRequest svc head).method = post
    · exact hLeft hPost hEq
    · rw [takeBody_not_post hPost hTwo] at hEq
      have hExit : Exit.passed = .returned := congrArg (fun r => r.1.exit) hEq
      cases hExit
  -- the body has come: the request is passed on
  have hTaken : takeBody svc (headRequest svc head) body =
      ((takeBody svc (headRequest svc head) rest).1, []) := by
    simpa using hCut []
  obtain ⟨hs, ps, vps, pc, states, hFrame, -⟩ := takeBody_frame svc hTwo rest
  have hStep := onStreamRead_passed ⟨c.esi.data, c.esi.mInBuffer ++ chunk⟩
    hParse hPassed (by rw [hFrame]; exact hSent)
  simp only [Connection.streamRead, hStep]
  refine ⟨?_, fun w hw => (by cases hw), fun e he => ?_⟩
  · refine List.IsSuffix.trans ⟨body, ?_⟩ hRest
    exact hBody.symm
  · rcases List.mem_append.1 he with he | he
    · exact hMore e he
    · obtain rfl : e = sent (takeBody svc (headRequest svc head) rest).1.w := by simpa using he
      have hWithin : head ++ (crlf ++ crlf) ++ body <:+: c.received ++ chunk := by
        refine List.IsInfix.trans ?_ hIn.isInfix
        refine ⟨[], (takeBody svc (headRequest svc head) rest).2, ?_⟩
        rw [List.nil_append, List.append_assoc, ← hBody]
      have hSane := sane_of_taken hFine hWithin (by rw [hTaken]; exact hPassed) (by rw [hTaken])
      rwa [hTaken] at hSane

theorem inv_streamRead (h : Inv svc c) {chunk : Bytes} (hClean : Clean svc c chunk) :
    Inv svc (c.streamRead svc chunk) := by
  obtain ⟨hHead, hParts⟩ := hClean
  have hBuf : c.esi.mInBuffer ++ chunk <:+ c.received ++ chunk := by
    obtain ⟨before, hBefore⟩ := h.unread
    exact ⟨before, by rw [← hBefore, List.append_assoc]⟩
  have hData : Between (c.esi.data.getD .fresh) ∨ Headed svc c (c.esi.data.getD .fresh) := by
    cases hSome : c.esi.data with
    | none => exact Or.inl between_fresh
    | some w => exact h.data w hSome
  have hMore : ∀ e ∈ c.incoming, Sane svc (c.received ++ chunk) e :=
    fun e he => (h.incoming e he).more chunk
  -- a step that only rejects
  have hReject {o : Outcome} {rest : Bytes} (hw : Between o.w) (hNot : o.exit ≠ .passed)
      (hRest : rest <:+ c.received ++ chunk)
      (hEq : takeHead svc (c.esi.data.getD .fresh) (c.esi.mInBuffer ++ chunk) = (o, rest)) :
      Inv svc (c.streamRead svc chunk) := by
    have hStep := onStreamRead_left ⟨c.esi.data, c.esi.mInBuffer ++ chunk⟩
      (parse_of_left hEq hNot) hNot
    simp only [Connection.streamRead, hStep, Option.toList_none, List.append_nil]
    refine ⟨hRest, fun w' hw' => Or.inl ?_, hMore⟩
    rwa [← Option.some.inj hw']
  rcases hData with hw | ⟨head, hFine, hPost, hw, hIn⟩
  · have hOne : 1 ∉ (c.esi.data.getD .fresh).parseState := by
      obtain ⟨m, url, hEq⟩ := hw
      rw [hEq]
      exact OrdSet.notMem_empty 1
    cases hGets : gets (crlf ++ crlf) (c.esi.mInBuffer ++ chunk) with
    | none =>
        refine hReject (o := ⟨c.esi.data.getD .fresh, .returned⟩) hw Exit.noConfusion hBuf ?_
        rw [takeHead, if_neg hOne, hGets]
    | some cut =>
        obtain ⟨head, rest⟩ := cut
        have hTake : takeHead svc (c.esi.data.getD .fresh) (c.esi.mInBuffer ++ chunk) =
            (parseHead svc head (c.esi.data.getD .fresh), rest) := by
          rw [takeHead, if_neg hOne, hGets]
        have hCut := (dropInfix?_iff.1 hGets).1
        have hHeadClean : HeadClean svc head := hHead hOne _ hGets
        by_cases hFine : HeadFine svc head
        · have hTaken := parseHead_of_fine hFine hw
          rw [hTaken] at hTake
          refine inv_body h rest hFine (hCut ▸ hBuf) ?_ (parse_of_taken hTake)
          rw [hTake] at hParts
          exact hParts rfl
        · obtain ⟨hNot, hLeft⟩ := parseHead_rejected hHeadClean hFine hw
          refine hReject hLeft hNot ?_ hTake
          exact (hCut ▸ List.suffix_append _ rest).trans hBuf
  · have hTwo := notMem_two_of_fine hFine
    have hOne : 1 ∈ (c.esi.data.getD .fresh).parseState := by
      rw [hw]
      exact mem_one_of_fine hFine
    have hTake : takeHead svc (c.esi.data.getD .fresh) (c.esi.mInBuffer ++ chunk) =
        (⟨c.esi.data.getD .fresh, .passed⟩, c.esi.mInBuffer ++ chunk) := by
      rw [takeHead, if_pos hOne]
    refine inv_body h (c.esi.mInBuffer ++ chunk) hFine ?_ ?_ ?_
    · obtain ⟨before, hBefore⟩ := hIn
      refine ⟨before, ?_⟩
      rw [← hBefore]
      simp only [List.append_assoc]
    · rw [hTake] at hParts
      have hSame := hParts rfl
      rw [hw] at hSame
      simpa only [PartsClean, method_consult, multipart_consult, bound_consult] using hSame
    · rw [parse_of_taken hTake, hw, takeBody_consult hPost hTwo]

theorem inv_start : Inv svc {} :=
  ⟨List.suffix_refl _, fun _ h => (by cases h), fun _ h => absurd h List.not_mem_nil⟩

/--
**Sane requests.** In every run in which no head without a line, no header line
without a value behind one that has one, and no bad part of a multipart body is
taken: every request that is passed on has a known method, a url without `..`,
and all its fields from one head and the body behind it.
-/
theorem requests_sane (hReach : ((machine svc).guarded (Clean svc)).Reachable c) :
    ∀ e ∈ c.incoming, Sane svc c.received e := by
  have h : Inv svc c := Machine.Reachable.invariant (m := (machine svc).guarded (Clean svc))
    (I := Inv svc)
    (fun c hc => by
      obtain rfl : c = {} := hc
      exact inv_start)
    (fun _ _ hInv hEn => inv_streamRead hInv hEn.2) hReach
  exact h.incoming

/-- The service with the default `max_post`. -/
def standard : Service := ⟨1000000, id⟩

/-- A rejected request line, and a request behind it in two chunks. -/
def rejected : List Bytes :=
  [text "GET /.. HTTP/1.1" ++ crlf ++ crlf, text "GET /a?b=c HTT",
    text "P/1.1" ++ crlf ++ text "Host: x" ++ crlf ++ crlf]

theorem rejected_sane : ∃ e, ((machine standard).exec {} rejected).incoming = [e] ∧
    Sane standard rejected.flatten e := by
  have hOne : ((machine standard).exec {} rejected).incoming.length = 1 := by decide +kernel
  obtain ⟨e, hEq⟩ := List.length_eq_one_iff.mp hOne
  have hReceived : ((machine standard).exec {} rejected).received = rejected.flatten := by
    decide +kernel
  refine ⟨e, hEq, ?_⟩
  rw [← hReceived]
  refine requests_sane ⟨_, rejected, rfl, ?_, Machine.exec_guarded _ _ _ _⟩ e (by simp [hEq])
  exact ⟨⟨trivial, by decide +kernel⟩, ⟨trivial, by decide +kernel⟩, ⟨trivial, by decide +kernel⟩,
    trivial⟩

/-- A request line with `..` in it, and an empty line. -/
def dots : List Bytes := [text "GET /.. HTTP/1.1" ++ crlf ++ crlf, crlf ++ crlf]

theorem dots_passed :
    ¬ ∀ c, (machine standard).Reachable c → ∀ e ∈ c.incoming, Sane standard c.received e := by
  intro h
  have hSane := h _ ⟨_, dots, rfl, ⟨trivial, trivial, trivial⟩, rfl⟩
  have hDots : ∃ e ∈ ((machine standard).exec {} dots).incoming,
      (e.url.dropInfix? (text "..")).isSome := by decide +kernel
  obtain ⟨e, he, hUrl⟩ := hDots
  rw [dropInfix?_eq_none.2 (hSane e he).url] at hUrl
  cases hUrl

end Megatron.Http
