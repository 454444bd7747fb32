import Megatron.Http.Request

/-!
# What the two halves of `on_StreamRead` do

A head whose request line is fine and whose header lines all have a value is
taken whole; any other leaves behind what was filled until then.  A body is
waited for, taken, or, when a part of a multipart body is bad, given up with
the parts before it stored.

## Main results

* `parseHead_of_fine`, `parseHead_passed` — which heads are taken.
* `headRequest_taken` — what the request is after a head that is taken.
* `takePost_cases` — the three things that the second half does with a `POST`.
* `takeBody_cut` — what it takes is cut off the front of the buffer, whatever
  follows.
-/

namespace Megatron.Http

open Megatron.Corelib (Bytes)
open Megatron.Lib

variable {svc : Service} {w : Request}

/-! ## Outcomes -/

@[simp] theorem andThen_passed (w : Request) (next : Request → Outcome) :
    Outcome.andThen ⟨w, .passed⟩ next = next w := if_pos rfl

theorem andThen_of_ne {o : Outcome} (h : o.exit ≠ .passed) (next : Request → Outcome) :
    o.andThen next = o := if_neg h

theorem andThen_of_passed {o : Outcome} (h : o.exit = .passed) (next : Request → Outcome) :
    o.andThen next = next o.w := if_pos h

theorem exit_andThen {o : Outcome} {next : Request → Outcome} :
    (o.andThen next).exit = .passed ↔ o.exit = .passed ∧ (next o.w).exit = .passed := by
  by_cases h : o.exit = .passed
  · simp [andThen_of_passed h, h]
  · simp [andThen_of_ne h, h]

/-! ## The request line -/

/-- A request line that the parser goes on behind: it has a space, the method
is `GET` or `POST`, and the url has no `..`. -/
def lineFine (svc : Service) (fl : Bytes) : Bool :=
  match fl.dropInfix? (text " ") with
  | none => false
  | some (m, behind) =>
      (strupper m = get || strupper m = post) &&
        ((urlOf svc behind).dropInfix? (text "..")).isNone

theorem requestLine_fine {fl : Bytes} (h : lineFine svc fl = true) :
    ∃ m url, (m = get ∨ m = post) ∧ ¬ text ".." <:+: url ∧
      ∀ w, requestLine svc fl w = ⟨{ w with method := m, url := url }, .passed⟩ := by
  unfold lineFine at h
  cases hCut : fl.dropInfix? (text " ") with
  | none =>
      rw [hCut] at h
      cases h
  | some c =>
      obtain ⟨m, behind⟩ := c
      rw [hCut] at h
      simp only [Bool.and_eq_true, Bool.or_eq_true, decide_eq_true_eq, Option.isNone_iff_eq_none]
        at h
      obtain ⟨hMethod, hUrl⟩ := h
      refine ⟨strupper m, urlOf svc behind, hMethod, dropInfix?_eq_none.1 hUrl, fun w => ?_⟩
      have hKnown : ¬ (strupper m ≠ get ∧ strupper m ≠ post) := by tauto
      simp only [requestLine, hCut, if_neg hKnown, hUrl, Option.isSome_none, Bool.false_eq_true,
        if_false]

theorem requestLine_not_fine {fl : Bytes} (h : lineFine svc fl = false) (w : Request) :
    (requestLine svc fl w).exit = .returned ∧
      ∃ m url, (requestLine svc fl w).w = { w with method := m, url := url } := by
  unfold lineFine at h
  cases hCut : fl.dropInfix? (text " ") with
  | none => simp only [requestLine, hCut]; exact ⟨trivial, w.method, w.url, rfl⟩
  | some c =>
      obtain ⟨m, behind⟩ := c
      rw [hCut] at h
      simp only [requestLine, hCut]
      split
      · exact ⟨rfl, strupper m, w.url, rfl⟩
      · rename_i hKnown
        have hUrl : ((urlOf svc behind).dropInfix? (text "..")).isSome = true := by
          simp only [Bool.and_eq_false_iff, Bool.or_eq_false_iff, decide_eq_false_iff_not] at h
          rcases h with hMethod | hUrl
          · exact absurd hMethod hKnown
          · simpa using hUrl
        rw [if_pos hUrl]
        exact ⟨rfl, strupper m, urlOf svc behind, rfl⟩

/-! ## The header lines -/

/-- A header line with a colon and a character behind it. -/
def hasValue (line : Bytes) : Bool :=
  match line.dropInfix? (text ":") with
  | some (_, _ :: _) => true
  | _ => false

theorem headerLines_cons {line : Bytes} (h : hasValue line = true) :
    ∃ k v, ∀ dq w, headerLines (line :: dq) w =
      headerLines dq { w with headers := w.headers.insert k v } := by
  unfold hasValue at h
  split at h
  · rename_i k c v hCut
    exact ⟨strupper k, v, fun dq w => by simp only [headerLines, hCut]⟩
  · cases h

theorem headerLines_cons_not {line : Bytes} (h : hasValue line = false) (dq : List Bytes)
    (w : Request) :
    (headerLines (line :: dq) w).exit ≠ .passed ∧ (headerLines (line :: dq) w).w = w := by
  unfold hasValue at h
  rw [headerLines]
  split
  · exact ⟨Exit.noConfusion, rfl⟩
  · exact ⟨Exit.noConfusion, rfl⟩
  · rename_i hCut
    rw [hCut] at h
    cases h

theorem headerLines_passed_iff {dq : List Bytes} :
    (headerLines dq w).exit = .passed ↔ ∀ line ∈ dq, hasValue line = true := by
  induction dq generalizing w with
  | nil => simp [headerLines]
  | cons line dq ih =>
      cases hLine : hasValue line with
      | false => simp [(headerLines_cons_not hLine dq w).1, hLine]
      | true =>
          obtain ⟨k, v, hStep⟩ := headerLines_cons hLine
          rw [hStep, ih, List.forall_mem_cons]
          exact ⟨fun h => ⟨hLine, h⟩, And.right⟩

/-- Header lines store headers, whatever else the request holds. -/
theorem headerLines_frame (dq : List Bytes) (w : Request) :
    ∃ hs, (headerLines dq w).w = { w with headers := hs } := by
  induction dq generalizing w with
  | nil => exact ⟨w.headers, rfl⟩
  | cons line dq ih =>
      cases hLine : hasValue line with
      | false => exact ⟨w.headers, (headerLines_cons_not hLine dq w).2⟩
      | true =>
          obtain ⟨k, v, hStep⟩ := headerLines_cons hLine
          rw [hStep]
          exact ih { w with headers := w.headers.insert k v }

/-! ## Parameters and cookies -/

theorem splitParams_frame (svc : Service) (s : Bytes) (w : Request) :
    ∃ ps vps, splitParams svc s w = { w with params := ps, vParams := vps } := by
  unfold splitParams
  generalize splitString (text "&") s = pr
  induction pr generalizing w with
  | nil => exact ⟨w.params, w.vParams, rfl⟩
  | cons p pr ih =>
      rw [List.foldl_cons]
      have hParam : ∃ ps vps, splitParam svc w p = { w with params := ps, vParams := vps } := by
        unfold splitParam
        split
        · exact ⟨w.params, w.vParams, rfl⟩
        · exact ⟨_, _, rfl⟩
      obtain ⟨ps, vps, hParam⟩ := hParam
      rw [hParam]
      exact ih { w with params := ps, vParams := vps }

theorem readCookies_frame (w : Request) : ∃ cs, readCookies w = { w with inCookies := cs } := by
  unfold readCookies
  split
  · exact ⟨w.inCookies, rfl⟩
  · rename_i v _
    generalize splitString (text "; ") v = qs
    induction qs generalizing w with
    | nil => exact ⟨w.inCookies, rfl⟩
    | cons q qs ih =>
        rw [List.foldl_cons]
        have hCookie : ∃ cs, readCookie w q = { w with inCookies := cs } := by
          unfold readCookie
          split
          · exact ⟨w.inCookies, rfl⟩
          · exact ⟨_, rfl⟩
        obtain ⟨cs, hCookie⟩ := hCookie
        rw [hCookie]
        exact ih { w with inCookies := cs } ‹_›

/-- The query is cut off the url, and the rest of the request stands. -/
theorem readQuery_frame (svc : Service) (w : Request) :
    ∃ ps vps path query, path <+: w.url ∧ readQuery svc w =
      { w with
        params := ps, vParams := vps, url := path, originalUrl := w.url,
        originalParams := query } := by
  unfold readQuery
  dsimp only
  split
  · exact ⟨w.params, w.vParams, w.url, w.originalParams, List.prefix_refl _, rfl⟩
  · rename_i path query hCut
    obtain ⟨ps, vps, hParams⟩ := splitParams_frame svc query
      { w with originalUrl := w.url, originalParams := query }
    rw [hParams]
    refine ⟨ps, vps, path, query, ?_, rfl⟩
    rw [(dropInfix?_iff.1 hCut).1, List.append_assoc]
    exact List.prefix_append _ _

/-! ## The head -/

/-- A head with a request line that is fine and a value in every header line. -/
def HeadFine (svc : Service) (head : Bytes) : Prop :=
  ∃ fl dq, splitString crlf head = fl :: dq ∧ lineFine svc fl = true ∧
    ∀ line ∈ dq, hasValue line = true

theorem parseHead_eq {head fl : Bytes} {dq : List Bytes}
    (h : splitString crlf head = fl :: dq) (w : Request) :
    parseHead svc head w = ((requestLine svc fl w).andThen (headerLines dq)).andThen
      fun w => ⟨readHead svc w, .passed⟩ := by
  rw [parseHead, h, headLines]

/-- The request that a head alone makes. -/
def headRequest (svc : Service) (head : Bytes) : Request := (parseHead svc head .fresh).w

/-- A new request with something in `METHOD` and `url`. -/
def Request.named (m url : Bytes) : Request := { method := m, url := url }

/-- Between two heads the request is as `new HTTP::Request` made it, apart from
what rejected request lines wrote to `METHOD` and `url`. -/
def Between (w : Request) : Prop := ∃ m url, w = .named m url

theorem between_fresh : Between .fresh := ⟨[], [], rfl⟩

/-- A head that is fine gives the same request on a new connection and behind
any rejected request lines. -/
theorem parseHead_of_fine {head : Bytes} (h : HeadFine svc head) (hw : Between w) :
    parseHead svc head w = ⟨headRequest svc head, .passed⟩ := by
  obtain ⟨fl, dq, hLines, hFine, hValues⟩ := h
  obtain ⟨m, url, -, -, hLine⟩ := requestLine_fine hFine
  have hNamed (m₀ url₀ : Bytes) :
      requestLine svc fl (.named m₀ url₀) = ⟨.named m url, .passed⟩ := hLine _
  have hHead (m₀ url₀ : Bytes) : parseHead svc head (.named m₀ url₀) =
      ⟨readHead svc (headerLines dq (.named m url)).w, .passed⟩ := by
    rw [parseHead_eq hLines, hNamed, andThen_passed,
      andThen_of_passed (headerLines_passed_iff.2 hValues)]
  obtain ⟨m₀, url₀, rfl⟩ := hw
  rw [hHead, headRequest, show Request.fresh = .named [] [] from rfl, hHead]

theorem parseHead_passed {head : Bytes} (hLines : splitString crlf head ≠ [])
    (hPassed : (parseHead svc head w).exit = .passed) : HeadFine svc head := by
  obtain ⟨fl, dq, hEq⟩ := List.exists_cons_of_ne_nil hLines
  rw [parseHead_eq hEq, exit_andThen, exit_andThen] at hPassed
  obtain ⟨⟨hLine, hRest⟩, -⟩ := hPassed
  refine ⟨fl, dq, hEq, ?_, headerLines_passed_iff.1 hRest⟩
  cases hFine : lineFine svc fl with
  | true => rfl
  | false =>
      rw [(requestLine_not_fine hFine w).1] at hLine
      cases hLine

/-- What the request is after a head that is taken. -/
theorem headRequest_taken {head : Bytes} (h : HeadFine svc head) :
    ((headRequest svc head).method = get ∨ (headRequest svc head).method = post) ∧
      ¬ text ".." <:+: (headRequest svc head).url ∧
      (headRequest svc head).parseState.toList = [1] ∧
      (headRequest svc head).postContent = [] ∧
      (headRequest svc head).sendRequestIncomingIsSent = false := by
  obtain ⟨fl, dq, hLines, hFine, hValues⟩ := h
  obtain ⟨m, url, hMethod, hUrl, hLine⟩ := requestLine_fine hFine
  have hNamed : requestLine svc fl .fresh = ⟨.named m url, .passed⟩ := hLine _
  obtain ⟨hs, hHeaders⟩ := headerLines_frame dq (.named m url)
  rw [headRequest, parseHead_eq hLines, hNamed, andThen_passed,
    andThen_of_passed (headerLines_passed_iff.2 hValues), hHeaders, readHead]
  obtain ⟨cs, hCookies⟩ := readCookies_frame { Request.named m url with headers := hs }
  rw [hCookies]
  obtain ⟨ps, vps, path, query, hPath, hQuery⟩ := readQuery_frame svc
    { Request.named m url with headers := hs, inCookies := cs }
  rw [hQuery]
  exact ⟨hMethod, fun hDots => hUrl (hDots.trans hPath.isInfix), rfl, rfl, rfl⟩

theorem notMem_two_of_fine {head : Bytes} (h : HeadFine svc head) :
    2 ∉ (headRequest svc head).parseState := by
  rw [← OrdSet.mem_toList, (headRequest_taken h).2.2.1]
  decide

theorem mem_one_of_fine {head : Bytes} (h : HeadFine svc head) :
    1 ∈ (headRequest svc head).parseState := by
  rw [← OrdSet.mem_toList, (headRequest_taken h).2.2.1]
  decide

/-! ## The entries that `operator[]` makes -/

section Consult

variable (w : Request)

@[simp] theorem at'_consult (k : Bytes) : w.consult.headers.at' k = w.headers.at' k := by
  unfold Request.consult
  dsimp only
  split <;> simp

@[simp] theorem method_consult : w.consult.method = w.method := rfl

@[simp] theorem multipart_consult : w.consult.Multipart ↔ w.Multipart := by
  simp [Request.Multipart]

@[simp] theorem clen_consult : w.consult.clen = w.clen := by
  simp [Request.clen]

@[simp] theorem bound_consult : w.consult.bound = w.bound := by
  simp [Request.bound]

@[simp] theorem consult_consult : w.consult.consult = w.consult := by
  have hMulti : w.consult.Multipart ↔ w.Multipart := multipart_consult w
  by_cases h : w.Multipart
  · have hHeaders : w.consult.headers = w.headers.touch contentType := if_pos h
    rw [Request.consult, if_pos (hMulti.2 h), hHeaders, OrdMap.touch_touch, ← hHeaders]
  · have hHeaders : w.consult.headers = (w.headers.touch contentType).touch contentLength :=
      if_neg h
    have hType : w.consult.headers.touch contentType = w.consult.headers := by
      rw [hHeaders]
      refine OrdMap.touch_of_isSome ?_
      rw [OrdMap.get?_touch_of_ne (by decide +kernel)]
      exact OrdMap.get?_touch_self _ _
    rw [Request.consult, if_neg (mt hMulti.1 h), hType, hHeaders, OrdMap.touch_touch, ← hHeaders]

end Consult

/-! ## The parts of a multipart body -/

/-- The bytes between two delimiters hold nothing, or a part. -/
def PartGood (s : Bytes) : Prop := skipCrlf s = [] ∨ (readPart (skipCrlf s)).isSome

instance (s : Bytes) : Decidable (PartGood s) := inferInstanceAs (Decidable (_ ∨ _))

theorem storeParts_passed_iff {parts : List Bytes} :
    (storeParts parts w).exit = .passed ↔ ∀ s ∈ parts, PartGood s := by
  induction parts generalizing w with
  | nil => simp [storeParts]
  | cons s parts ih =>
      rw [storeParts, List.forall_mem_cons]
      split
      · rename_i hEmpty
        rw [ih]
        exact ⟨fun h => ⟨Or.inl hEmpty, h⟩, And.right⟩
      · rename_i hSome
        cases hPart : readPart (skipCrlf s) with
        | none => simp [PartGood, hSome, hPart]
        | some part =>
            obtain ⟨lparams, content⟩ := part
            dsimp only
            rw [ih]
            exact ⟨fun h => ⟨Or.inr (by simp [hPart]), h⟩, And.right⟩

theorem storeParts_frame (parts : List Bytes) (w : Request) :
    ∃ ps, (storeParts parts w).w = { w with params := ps } := by
  induction parts generalizing w with
  | nil => exact ⟨w.params, rfl⟩
  | cons s parts ih =>
      rw [storeParts]
      split
      · exact ih w
      · split
        · exact ⟨w.params, rfl⟩
        · rename_i lparams content _
          have hPart : ∃ ps, storePart w lparams content = { w with params := ps } := by
            unfold storePart
            split
            · exact ⟨w.params, rfl⟩
            · exact ⟨_, rfl⟩
          obtain ⟨ps, hPart⟩ := hPart
          rw [hPart]
          exact ih { w with params := ps }

/-! ## The body -/

theorem readbuf_iff {sz : Nat} {data content rest : Bytes} :
    readbuf sz data = some (content, rest) ↔ data = content ++ rest ∧ content.length = sz := by
  unfold readbuf
  constructor
  · intro h
    split at h
    · rename_i hLe
      simp only [Option.some.injEq, Prod.mk.injEq] at h
      obtain ⟨rfl, rfl⟩ := h
      exact ⟨(List.take_append_drop sz data).symm, List.length_take_of_le hLe⟩
    · cases h
  · rintro ⟨rfl, rfl⟩
    simp

section TakeBody

variable {buf content sbuf rest bound : Bytes}

theorem takePost_urlencoded (hNot : ¬ w.Multipart) (hPos : w.clen ≠ 0)
    (hMax : w.clen ≤ svc.mMaxPost) (hRead : readbuf w.clen buf = some (content, rest)) :
    takePost svc w buf =
      (⟨splitParams svc content { w.consult with postContent := content }, .passed⟩, rest) := by
  have hLen : ¬ (w.clen = 0 ∨ svc.mMaxPost < w.clen) := by omega
  rw [takePost, if_pos hNot, if_neg hLen, hRead]

theorem takePost_multipart (svc : Service) (hMulti : w.Multipart) (hBound : w.bound = some bound)
    (hGets : gets (ebound bound) buf = some (sbuf, rest)) :
    takePost svc w buf = (storeParts (pieces bound sbuf) w.consult, rest) := by
  simp only [takePost, hMulti, not_true_eq_false, if_false, hBound, hGets]

/-- **The three things that the second half does with a `POST`**: it leaves the
buffer as it is, or takes a body of `Content-Length` bytes, or takes a
multipart body. -/
theorem takePost_cases (svc : Service) (hContent : w.postContent = []) (buf : Bytes) :
    takePost svc w buf = (⟨w.consult, .returned⟩, buf) ∨
    (∃ content rest, ¬ w.Multipart ∧ w.clen ≠ 0 ∧ w.clen ≤ svc.mMaxPost ∧
      readbuf w.clen buf = some (content, rest)) ∨
    ∃ bound sbuf rest, w.Multipart ∧ w.bound = some bound ∧
      gets (ebound bound) buf = some (sbuf, rest) := by
  by_cases hMulti : w.Multipart
  · cases hBound : w.bound with
    | none => left; simp only [takePost, hMulti, not_true_eq_false, if_false, hBound]
    | some bound =>
        cases hGets : gets (ebound bound) buf with
        | none => left; simp only [takePost, hMulti, not_true_eq_false, if_false, hBound, hGets]
        | some c => exact Or.inr (Or.inr ⟨bound, c.1, c.2, hMulti, rfl, hGets⟩)
  · by_cases hLen : w.clen = 0 ∨ svc.mMaxPost < w.clen
    · left
      rw [takePost, if_pos hMulti, if_pos hLen]
    · cases hRead : readbuf w.clen buf with
      | none =>
          left
          rw [takePost, if_pos hMulti, if_neg hLen, hRead]
          have hSame : { w.consult with postContent := [] } = w.consult := by
            rw [← hContent]
            rfl
          rw [hSame]
      | some c =>
          exact Or.inr (Or.inl ⟨c.1, c.2, hMulti, by omega, by omega, rfl⟩)

/-- What is not left is cut off the front of the buffer, whatever follows. -/
theorem takePost_cut (svc : Service) (hContent : w.postContent = []) (buf : Bytes) :
    takePost svc w buf = (⟨w.consult, .returned⟩, buf) ∨
    ∃ body, buf = body ++ (takePost svc w buf).2 ∧
      ∀ t, takePost svc w (body ++ t) = ((takePost svc w buf).1, t) := by
  rcases takePost_cases svc hContent buf with hLeft | ⟨content, rest, hNot, hPos, hMax, hRead⟩ |
    ⟨bound, sbuf, rest, hMulti, hBound, hGets⟩
  · exact Or.inl hLeft
  · obtain ⟨hBuf, hLen⟩ := readbuf_iff.1 hRead
    rw [takePost_urlencoded hNot hPos hMax hRead]
    exact Or.inr ⟨content, hBuf, fun t =>
      takePost_urlencoded hNot hPos hMax (readbuf_iff.2 ⟨rfl, hLen⟩)⟩
  · rw [takePost_multipart svc hMulti hBound hGets]
    refine Or.inr ⟨sbuf ++ ebound bound, (dropInfix?_iff.1 hGets).1, fun t => ?_⟩
    exact takePost_multipart svc hMulti hBound (dropInfix?_append (dropInfix?_exact hGets) t)

/-- A body stores parameters, and leaves the head as it is. -/
theorem takePost_frame (svc : Service) (w : Request) (buf : Bytes) :
    ∃ ps vps pc, (takePost svc w buf).1.w =
      { w.consult with params := ps, vParams := vps, postContent := pc } := by
  unfold takePost
  split
  · split
    · exact ⟨_, _, _, rfl⟩
    · split
      · exact ⟨_, _, _, rfl⟩
      · rename_i content rest _
        obtain ⟨ps, vps, hParams⟩ := splitParams_frame svc content
          { w.consult with postContent := content }
        exact ⟨ps, vps, content, hParams⟩
  · split
    · exact ⟨_, _, _, rfl⟩
    · split
      · exact ⟨_, _, _, rfl⟩
      · rename_i bound _ _ sbuf _ _
        obtain ⟨ps, hParts⟩ := storeParts_frame (pieces bound sbuf) w.consult
        exact ⟨ps, _, _, hParts⟩

theorem takePost_consult (svc : Service) (w : Request) (buf : Bytes) :
    takePost svc w.consult buf = takePost svc w buf := by
  simp only [takePost, multipart_consult, clen_consult, consult_consult, bound_consult]

theorem takeBody_post (hPost : w.method = post) (hTwo : 2 ∉ w.parseState) :
    takeBody svc w buf =
      ((takePost svc w buf).1.andThen markBody, (takePost svc w buf).2) := by
  rw [takeBody, if_neg hTwo, if_pos hPost]

theorem takeBody_not_post (hPost : w.method ≠ post) (hTwo : 2 ∉ w.parseState) :
    takeBody svc w buf = (markBody w, buf) := by
  rw [takeBody, if_neg hTwo, if_neg hPost]

/-- The second half again, on the request that it left: the same. -/
theorem takeBody_consult (hPost : w.method = post) (hTwo : 2 ∉ w.parseState) :
    takeBody svc w.consult buf = takeBody svc w buf := by
  rw [takeBody_post (w := w.consult) hPost hTwo, takeBody_post hPost hTwo, takePost_consult]

theorem takeBody_cut (svc : Service) (hContent : w.postContent = []) (hTwo : 2 ∉ w.parseState)
    (buf : Bytes) :
    (w.method = post ∧ takeBody svc w buf = (⟨w.consult, .returned⟩, buf)) ∨
    ∃ body, buf = body ++ (takeBody svc w buf).2 ∧
      ∀ t, takeBody svc w (body ++ t) = ((takeBody svc w buf).1, t) := by
  by_cases hPost : w.method = post
  · rw [takeBody_post hPost hTwo]
    rcases takePost_cut svc hContent buf with hLeft | ⟨body, hBuf, hCut⟩
    · refine Or.inl ⟨hPost, ?_⟩
      rw [hLeft]
      rfl
    · refine Or.inr ⟨body, hBuf, fun t => ?_⟩
      rw [takeBody_post hPost hTwo, hCut]
  · rw [takeBody_not_post hPost hTwo]
    exact Or.inr ⟨[], rfl, fun t => takeBody_not_post hPost hTwo⟩

end TakeBody

/-! ## Both halves -/

theorem parse_of_taken {w' : Request} {buf rest : Bytes}
    (h : takeHead svc w buf = (⟨w', .passed⟩, rest)) :
    parse svc w buf = takeBody svc w' rest := by
  rw [parse, h]
  exact if_pos rfl

theorem parse_of_left {buf : Bytes} {r : Outcome × Bytes} (h : takeHead svc w buf = r)
    (hNot : r.1.exit ≠ .passed) : parse svc w buf = r := by
  rw [parse, h]
  exact if_neg hNot

end Megatron.Http
