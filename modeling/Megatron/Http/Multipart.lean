import Megatron.Http.Form
import Megatron.Http.Parsing

/-!
# Multipart bodies

A form in the body of a `POST` becomes parameters of the request: the content
of a part under its name, the name of the file and the headers under the name
of the part with a suffix.  The body is cut wherever the boundary is behind two
dashes, and not at the beginning of a line only, so the boundary may be in none
of the texts of the parts.  A file name that is empty is not stored, and what
the query says about it stays.

## Main results

* `gets_renderForm`, `pieces_form` — the body is cut into the parts.
* `storePart_lparams`, `storeParts_blocks` — what the parts leave in the request.
* `multipart_decoded` — forms are decoded, and all loops end.
* `multipart_misread` — forms that are not.
-/

namespace Megatron.Http

open Megatron.Corelib (Bytes)
open Megatron.Lib

/-! ## Cutting a body -/

section Cut

variable {bound : Bytes} {parts : List Part}

/-- The lines of the parts do not have the boundary in them. -/
def FreeLines (bound : Bytes) (parts : List Part) : Prop :=
  ∀ p ∈ parts, ∀ l ∈ p.lines, ¬ bound <:+: l

theorem oneLine_ebound (hBound : OneLine bound) : OneLine (ebound bound) where
  ne_nil := by simp [ebound]
  cr := by simp [ebound, hBound.cr]
  lf := by simp [ebound, hBound.lf]

/-- The delimiter at the end of a body is found there. -/
theorem gets_renderForm (hBound : OneLine bound) (hFree : FreeLines bound parts) (tail : Bytes) :
    gets (ebound bound) (renderForm bound parts ++ tail) =
      some (joinLines (parts.flatMap fun p => bound :: p.lines), tail) := by
  have hNot : ∀ l ∈ parts.flatMap fun p => bound :: p.lines, ¬ ebound bound <:+: l := by
    intro l hl hIn
    obtain ⟨p, hp, hl⟩ := List.mem_flatMap.1 hl
    rcases List.mem_cons.1 hl with rfl | hl
    · -- a boundary is shorter than the delimiter
      have hLength := hIn.length_le
      rw [ebound, List.length_append] at hLength
      simp at hLength
    · exact hFree p hp l hl (List.IsInfix.trans ⟨[], [45, 45], rfl⟩ hIn)
  have hCut := dropInfix?_joinLines (oneLine_ebound hBound) hNot
    (dropInfix?_self_append (ebound bound) tail)
  rw [gets, renderForm, List.append_assoc, hCut, List.append_nil]

/-- What is between two boundaries are the lines of a part. -/
theorem pieces_blocks (hBound : OneLine bound) (p : Part) (hFree : FreeLines bound (p :: parts)) :
    pieces bound (joinLines ([] :: p.lines) ++ joinLines (parts.flatMap fun p => bound :: p.lines)) =
      (p :: parts).map fun p => joinLines ([] :: p.lines) := by
  have hLines : ∀ l ∈ [] :: p.lines, ¬ bound <:+: l := by
    rw [List.forall_mem_cons]
    exact ⟨hBound.not_infix_nil, hFree p List.mem_cons_self⟩
  induction parts generalizing p with
  | nil =>
      have hNone := dropInfix?_eq_none.2 (hBound.not_infix_joinLines hLines)
      rw [List.flatMap_nil, joinLines_nil, List.append_nil, pieces_self _ hNone]
      · rfl
      · simp [crlf]
  | cons q parts ih =>
      have hRest : FreeLines bound (q :: parts) := fun q' hq' =>
        hFree q' (List.mem_cons_of_mem p hq')
      have hNext : joinLines ((q :: parts).flatMap fun p => bound :: p.lines) =
          bound ++ (joinLines ([] :: q.lines) ++
            joinLines (parts.flatMap fun p => bound :: p.lines)) := by
        simp [joinLines_append]
      have hCut := dropInfix?_joinLines hBound hLines (dropInfix?_self_append bound
        (joinLines ([] :: q.lines) ++ joinLines (parts.flatMap fun p => bound :: p.lines)))
      rw [hNext, pieces_cut hBound.ne_nil hCut, List.append_nil, ih q hRest]
      · rfl
      · rw [List.forall_mem_cons]
        exact ⟨hBound.not_infix_nil, hRest q List.mem_cons_self⟩

/-- In front of the first boundary is nothing. -/
theorem pieces_form (hBound : OneLine bound) (hFree : FreeLines bound parts) :
    pieces bound (joinLines (parts.flatMap fun p => bound :: p.lines)) =
      if parts = [] then [] else [] :: parts.map fun p => joinLines ([] :: p.lines) := by
  cases parts with
  | nil => rfl
  | cons p parts =>
      have hFront : joinLines ((p :: parts).flatMap fun p => bound :: p.lines) =
          bound ++ (joinLines ([] :: p.lines) ++
            joinLines (parts.flatMap fun p => bound :: p.lines)) := by
        simp [joinLines_append]
      rw [hFront, pieces_cut hBound.ne_nil (dropInfix?_self_append _ _), pieces_blocks hBound p hFree,
        if_neg (List.cons_ne_nil _ _)]

end Cut

/-! ## What a part leaves in the request -/

/-- What is put behind the name of a part. -/
def suffixes : List Bytes :=
  [text "FILENAME", text "CONTENT-DISPOSITION", text "CONTENT-TYPE"]

namespace Part

/-- The name of a parameter about a part. -/
def key (p : Part) (h : Bytes) : Bytes := p.name ++ text "_" ++ h

/-- The parameters with those of a part. -/
def stored (p : Part) (params : OrdMap Bytes Bytes) : OrdMap Bytes Bytes :=
  let params := params.insert p.name p.content
  let params :=
    if p.filename.getD [] = [] then params
    else params.insert (p.key (text "FILENAME")) (p.filename.getD [])
  p.lparams.toList.foldl (fun params i => params.insert (p.key (strupper i.1)) i.2) params

end Part

section Store

variable {p q : Part} {params : OrdMap Bytes Bytes}

theorem storePart_lparams (hWF : p.WellFormed) (w : Request) :
    storePart w p.lparams p.content = { w with params := p.stored w.params } := by
  have hName : text "_FILENAME" = text "_" ++ text "FILENAME" := by decide +kernel
  unfold storePart
  rw [get?_lparams]
  dsimp only
  rw [pieces_disposition hWF, foldl_dispositionField hWF]
  dsimp only
  rw [hName, ← List.append_assoc]
  rfl

theorem name_ne_key (p : Part) (h : Bytes) : p.name ≠ p.key h := by
  intro hSame
  have hText : (text "_").length = 1 := by decide +kernel
  have hLength := congrArg List.length hSame
  rw [Part.key, List.length_append, List.length_append, hText] at hLength
  omega

theorem key_injective {h : Bytes} (hSame : p.key h = q.key h) : p.name = q.name :=
  List.append_cancel_right (List.append_cancel_right hSame)

theorem strupper_lparams {i : Bytes × Bytes} (hi : i ∈ p.lparams.toList) :
    strupper i.1 = text "CONTENT-DISPOSITION" ∨ strupper i.1 = text "CONTENT-TYPE" := by
  rcases mem_lparams hi with hKey | hKey
  · left
    rw [hKey]
    decide +kernel
  · right
    rw [hKey]
    decide +kernel

/-- The parameter with the file name is none of those with the headers. -/
theorem key_filename_ne {i : Bytes × Bytes} (hi : i ∈ p.lparams.toList) :
    p.key (strupper i.1) ≠ q.key (text "FILENAME") := by
  have hEnds : ¬ text "FILENAME" <:+ text "CONTENT-DISPOSITION" ∧
      ¬ text "FILENAME" <:+ text "CONTENT-TYPE" ∧
        (text "FILENAME").length ≤ (text "CONTENT-DISPOSITION").length ∧
          (text "FILENAME").length ≤ (text "CONTENT-TYPE").length := by
    decide +kernel
  intro hSame
  have hFile : text "FILENAME" <:+ p.key (strupper i.1) := by
    rw [hSame]
    exact List.suffix_append _ _
  have hHeader : strupper i.1 <:+ p.key (strupper i.1) := List.suffix_append _ _
  rcases strupper_lparams hi with hKey | hKey
  · rw [hKey] at hFile hHeader
    exact hEnds.1 (List.suffix_of_suffix_length_le hFile hHeader hEnds.2.2.1)
  · rw [hKey] at hFile hHeader
    exact hEnds.2.1 (List.suffix_of_suffix_length_le hFile hHeader hEnds.2.2.2)

/-- A part leaves its content under its name. -/
theorem get?_stored_name : (p.stored params).get? p.name = some p.content := by
  rw [Part.stored, OrdMap.get?_foldl_insert fun i _ => (name_ne_key p (strupper i.1)).symm]
  split
  · exact OrdMap.get?_insert_self _ _ _
  · rw [OrdMap.get?_insert_of_ne (name_ne_key p _), OrdMap.get?_insert_self]

/-- A part leaves the name of its file, if that is not empty. -/
theorem get?_stored_filename : (p.stored params).get? (p.key (text "FILENAME")) =
    if p.filename.getD [] = [] then params.get? (p.key (text "FILENAME")) else p.filename := by
  rw [Part.stored, OrdMap.get?_foldl_insert fun i hi => key_filename_ne hi]
  split
  · exact OrdMap.get?_insert_of_ne (name_ne_key p _).symm _ _
  · rename_i hSome
    rw [OrdMap.get?_insert_self]
    cases hFile : p.filename with
    | none =>
        rw [hFile] at hSome
        exact absurd rfl hSome
    | some f => rfl

/-- All other parameters stay. -/
theorem get?_stored_of_ne {k : Bytes} (hName : k ≠ p.name) (hKeys : ∀ h ∈ suffixes, k ≠ p.key h) :
    (p.stored params).get? k = params.get? k := by
  have hHeaders : ∀ i ∈ p.lparams.toList, p.key (strupper i.1) ≠ k := by
    intro i hi hSame
    have hMem : strupper i.1 ∈ suffixes := by
      rcases strupper_lparams hi with hKey | hKey <;> rw [hKey] <;> decide +kernel
    exact hKeys _ hMem hSame.symm
  rw [Part.stored, OrdMap.get?_foldl_insert hHeaders]
  split
  · exact OrdMap.get?_insert_of_ne hName _ _
  · rw [OrdMap.get?_insert_of_ne (hKeys (text "FILENAME") (by decide +kernel)),
      OrdMap.get?_insert_of_ne hName]

end Store

/-! ## All parts -/

/-- The parts of a form: their names are different, and none of them is that of
another with a suffix. -/
structure Form (parts : List Part) : Prop where
  wellFormed : ∀ p ∈ parts, p.WellFormed
  distinct : parts.Pairwise fun p q => p.name ≠ q.name
  plain : ∀ p ∈ parts, ∀ q ∈ parts, ∀ h ∈ suffixes, p.name ≠ q.key h

section Form

variable {parts : List Part} {params : OrdMap Bytes Bytes}

theorem Form.tail {p : Part} (h : Form (p :: parts)) : Form parts where
  wellFormed q hq := h.wellFormed q (List.mem_cons_of_mem p hq)
  distinct := (List.pairwise_cons.1 h.distinct).2
  plain q hq q' hq' := h.plain q (List.mem_cons_of_mem p hq) q' (List.mem_cons_of_mem p hq')

/-- The parameters with those of all parts. -/
def storedAll (parts : List Part) (params : OrdMap Bytes Bytes) : OrdMap Bytes Bytes :=
  parts.foldl (fun params p => p.stored params) params

theorem skipCrlf_block (p : Part) : skipCrlf (joinLines ([] :: p.lines)) = joinLines p.lines := rfl

theorem joinLines_lines_ne_nil (p : Part) : joinLines p.lines ≠ [] := by
  rw [Part.lines, joinLines_append]
  simp [crlf]

theorem storeParts_blocks (h : Form parts) (w : Request) :
    storeParts (parts.map fun p => joinLines ([] :: p.lines)) w =
      ⟨{ w with params := storedAll parts w.params }, .passed⟩ := by
  induction parts generalizing w with
  | nil => rfl
  | cons p parts ih =>
      have hWF := h.wellFormed p List.mem_cons_self
      rw [List.map_cons, storeParts, skipCrlf_block, if_neg (joinLines_lines_ne_nil p),
        readPart_lines hWF]
      dsimp only
      rw [storePart_lparams hWF, ih h.tail]
      rfl

theorem get?_storedAll_of_ne {k : Bytes}
    (h : ∀ p ∈ parts, k ≠ p.name ∧ ∀ h ∈ suffixes, k ≠ p.key h) (params : OrdMap Bytes Bytes) :
    (storedAll parts params).get? k = params.get? k := by
  induction parts generalizing params with
  | nil => rfl
  | cons p parts ih =>
      rw [List.forall_mem_cons] at h
      have hRest := ih h.2 (p.stored params)
      rw [storedAll] at hRest
      rw [storedAll, List.foldl_cons, hRest, get?_stored_of_ne h.1.1 h.1.2]

/-- The parameters of one part are not those of another. -/
theorem key_filename_ne_of_ne {p q : Part} (hName : p.name ≠ q.name) :
    ∀ h ∈ suffixes, p.key (text "FILENAME") ≠ q.key h := by
  have hEnds : ∀ h ∈ suffixes, h ≠ text "FILENAME" →
      ¬ text "FILENAME" <:+ h ∧ (text "FILENAME").length ≤ h.length := by
    decide +kernel
  intro h hh hSame
  by_cases hFile : h = text "FILENAME"
  · rw [hFile] at hSame
    exact hName (key_injective hSame)
  · have hEnd := hEnds h hh hFile
    have hSuffix : text "FILENAME" <:+ q.key h := by
      rw [← hSame]
      exact List.suffix_append _ _
    exact hEnd.1 (List.suffix_of_suffix_length_le hSuffix (List.suffix_append _ _) hEnd.2)

/-- **The parameters of a form.** -/
theorem get?_storedAll (h : Form parts) (params : OrdMap Bytes Bytes) :
    ∀ p ∈ parts, (storedAll parts params).get? p.name = some p.content ∧
      (storedAll parts params).get? (p.key (text "FILENAME")) =
        if p.filename.getD [] = [] then params.get? (p.key (text "FILENAME")) else p.filename := by
  induction parts generalizing params with
  | nil => exact fun p hp => absurd hp List.not_mem_nil
  | cons p parts ih =>
      have hNames := (List.pairwise_cons.1 h.distinct).1
      have hRest := ih h.tail (p.stored params)
      rw [storedAll] at hRest
      intro q hq
      rw [storedAll, List.foldl_cons]
      rcases List.mem_cons.1 hq with rfl | hq
      · -- the parts behind it leave its parameters as they are
        have hName : (storedAll parts (q.stored params)).get? q.name =
            (q.stored params).get? q.name := get?_storedAll_of_ne
          (fun q' hq' => ⟨hNames q' hq',
            h.plain q List.mem_cons_self q' (List.mem_cons_of_mem q hq')⟩) (q.stored params)
        have hFile : (storedAll parts (q.stored params)).get? (q.key (text "FILENAME")) =
            (q.stored params).get? (q.key (text "FILENAME")) := get?_storedAll_of_ne
          (fun q' hq' => ⟨(h.plain q' (List.mem_cons_of_mem q hq') q List.mem_cons_self _
            (by decide +kernel)).symm, key_filename_ne_of_ne (hNames q' hq')⟩) (q.stored params)
        rw [storedAll] at hName hFile
        rw [hName, hFile]
        exact ⟨get?_stored_name, get?_stored_filename⟩
      · -- the part in front of it has not touched them
        have hKept : (p.stored params).get? (q.key (text "FILENAME")) =
            params.get? (q.key (text "FILENAME")) :=
          get?_stored_of_ne
            (h.plain p List.mem_cons_self q (List.mem_cons_of_mem p hq) _ (by decide +kernel)).symm
            (key_filename_ne_of_ne (Ne.symm (hNames q hq)))
        rw [(hRest q hq).1, (hRest q hq).2, hKept]
        exact ⟨rfl, rfl⟩

end Form

/-! ## The request -/

/-- A `POST` with a form in its body: the head is taken, by this `StreamRead` or
by an earlier one, and leaves the request `w`; its `Content-Type` has the boundary
`b` behind `boundary=` at its end; the body is there, with whatever follows. -/
structure Posted (svc : Service) (esi : EpollSocketInfo) (w : Request) (front b : Bytes)
    (parts : List Part) (tail : Bytes) : Prop where
  head : takeHead svc (esi.data.getD .fresh) esi.mInBuffer =
    (⟨w, .passed⟩, renderForm ([45, 45] ++ b) parts ++ tail)
  method : w.method = post
  waiting : 2 ∉ w.parseState ∧ w.sendRequestIncomingIsSent = false
  multipart : w.Multipart
  boundary : w.headers.at' contentType = front ++ text "boundary=" ++ b

/-- A boundary that is not in quotes, and in one line. -/
structure Boundary (b : Bytes) : Prop where
  quote : 34 ∉ b
  cr : 13 ∉ b
  lf : 10 ∉ b

theorem Boundary.oneLine {b : Bytes} (h : Boundary b) : OneLine ([45, 45] ++ b) where
  ne_nil := List.cons_ne_nil _ _
  cr := by simp [h.cr]
  lf := by simp [h.lf]

theorem Boundary.freeLines {b : Bytes} (h : Boundary b) {parts : List Part}
    (hApart : ∀ p ∈ parts, p.Apart ([45, 45] ++ b)) : FreeLines ([45, 45] ++ b) parts := by
  intro p hp l hl
  rw [Part.lines, List.mem_append, List.mem_map] at hl
  rcases hl with ⟨header, hHeader, rfl⟩ | hl
  · exact notMem_headerLine h.quote (hApart p hp) header hHeader
  · rw [List.mem_cons, List.mem_singleton] at hl
    rcases hl with rfl | rfl
    · exact h.oneLine.not_infix_nil
    · exact (hApart p hp).content

section Request

variable {svc : Service} {esi : EpollSocketInfo} {w : Request} {front b tail : Bytes}
  {parts : List Part}

theorem takePost_form (hPosted : Posted svc esi w front b parts tail) (hBoundary : Boundary b)
    (hFirst : (w.headers.at' contentType).dropInfix? (text "boundary=") = some (front, b))
    (hForm : Form parts) (hApart : ∀ p ∈ parts, p.Apart ([45, 45] ++ b)) :
    takePost svc w (renderForm ([45, 45] ++ b) parts ++ tail) =
      (⟨{ w.consult with params := storedAll parts w.params }, .passed⟩, tail) := by
  have hFree := hBoundary.freeLines hApart
  have hBound : w.bound = some ([45, 45] ++ b) := by
    rw [Request.bound, hFirst]
    rfl
  have hParts : storeParts (pieces ([45, 45] ++ b)
      (joinLines (parts.flatMap fun p => ([45, 45] ++ b) :: p.lines))) w.consult =
        ⟨{ w.consult with params := storedAll parts w.params }, .passed⟩ := by
    rw [pieces_form hBoundary.oneLine hFree]
    by_cases hNil : parts = []
    · rw [if_pos hNil, hNil]
      rfl
    · have hSkip : skipCrlf [] = [] := rfl
      rw [if_neg hNil, storeParts, if_pos hSkip]
      exact storeParts_blocks hForm w.consult
  rw [takePost_multipart svc hPosted.multipart hBound
    (gets_renderForm hBoundary.oneLine hFree tail), hParts]

/-- The request with the parameters of the form is passed on. -/
theorem onStreamRead_form (hPosted : Posted svc esi w front b parts tail)
    (hBoundary : Boundary b)
    (hFirst : (w.headers.at' contentType).dropInfix? (text "boundary=") = some (front, b))
    (hForm : Form parts) (hApart : ∀ p ∈ parts, p.Apart ([45, 45] ++ b)) :
    ∃ w', onStreamRead svc esi = (⟨none, tail⟩, some w') ∧
      w'.params = storedAll parts w.params := by
  set w' : Request := { w.consult with
    params := storedAll parts w.params, parseState := w.parseState.insert 2 } with hw'
  have hParse : parse svc (esi.data.getD .fresh) esi.mInBuffer = (⟨w', .passed⟩, tail) := by
    rw [parse_of_taken hPosted.head, takeBody_post hPosted.method hPosted.waiting.1,
      takePost_form hPosted hBoundary hFirst hForm hApart]
    rfl
  refine ⟨sent w', ?_, ?_⟩
  · have hNotSent : w'.sendRequestIncomingIsSent = false := hPosted.waiting.2
    simp only [onStreamRead, hParse, hNotSent]
    rfl
  · rw [sent, keepAlive]
    split <;> rfl

end Request

/--
**Multipart forms.** Whatever the parts of a form are, its request is passed on
with the content of each part under its name, and with the name of its file, if
that is not empty, behind it; nothing else is stored there. And whatever a body
is, the loops over it end.
-/
theorem multipart_decoded (svc : Service) :
    (∀ (esi : EpollSocketInfo) (w : Request) (front b tail : Bytes) (parts : List Part),
      Posted svc esi w front b parts tail → Boundary b →
      (w.headers.at' contentType).dropInfix? (text "boundary=") = some (front, b) →
      Form parts → (∀ p ∈ parts, p.Apart ([45, 45] ++ b)) →
      ∃ w', onStreamRead svc esi = (⟨none, tail⟩, some w') ∧
        ∀ p ∈ parts, w'.params.get? p.name = some p.content ∧
          w'.params.get? (p.key (text "FILENAME")) =
            if p.filename.getD [] = [] then w.params.get? (p.key (text "FILENAME"))
            else p.filename) ∧
      (∀ (w : Request) (bound sbuf : Bytes), w.bound = some bound →
        Loop.Ends (partStep bound) (sbuf, w.consult) (storeParts (pieces bound sbuf) w.consult)) ∧
      (∀ s : Bytes, Loop.Ends lineStep (s, ∅) (readPart s)) ∧
      ∀ cd : Bytes, Loop.Ends (fieldStep (text "; ")) (cd, []) (pieces (text "; ") cd) := by
  refine ⟨?_, ?_, ends_lineStep, ?_⟩
  · intro esi w front b tail parts hPosted hBoundary hFirst hForm hApart
    obtain ⟨w', hRead, hParams⟩ := onStreamRead_form hPosted hBoundary hFirst hForm hApart
    refine ⟨w', hRead, ?_⟩
    rw [hParams]
    exact get?_storedAll hForm w.params
  · intro w bound sbuf hBound
    have hSome : bound ≠ [] := by
      rw [Request.bound, Option.map_eq_some_iff] at hBound
      obtain ⟨c, -, rfl⟩ := hBound
      exact List.cons_ne_nil _ _
    exact ends_partStep hSome sbuf w.consult
  · have hDelim : text "; " ≠ [] := by decide +kernel
    exact ends_fieldStep hDelim

/-! ## Samples -/

/-- A `POST` of a form to a new connection. -/
def formSent (url type b : Bytes) (parts : List Part) : EpollSocketInfo :=
  ⟨none, text "POST " ++ url ++ text " HTTP/1.1" ++ crlf ++ text "Content-Type: " ++ type ++
    crlf ++ crlf ++ renderForm ([45, 45] ++ b) parts⟩

/-- A service without limits. -/
def plainService : Service := ⟨0, id⟩

/-- Two parts, one of them a file with line ends and a header in its content. -/
def letterParts : List Part :=
  [⟨text "to", none, none, text "you"⟩,
    ⟨text "letter", some (text "a.txt"), some (text "text/plain"),
      text "To: you" ++ crlf ++ crlf ++ text "--"⟩]

def letterSent : EpollSocketInfo :=
  formSent (text "/") (text "multipart/form-data; boundary=b7") (text "b7") letterParts

theorem posted_letter : Posted plainService letterSent
    (takeHead plainService .fresh letterSent.mInBuffer).1.w (text "multipart/form-data; ")
    (text "b7") letterParts [] where
  head := by decide +kernel
  method := by decide +kernel
  waiting := by decide +kernel
  multipart := by decide +kernel
  boundary := by decide +kernel

theorem multipart_decoded_letter :
    ∃ w', onStreamRead plainService letterSent = (⟨none, []⟩, some w') ∧
      ∀ p ∈ letterParts, w'.params.get? p.name = some p.content ∧
        w'.params.get? (p.key (text "FILENAME")) =
          if p.filename.getD [] = [] then
            (takeHead plainService .fresh letterSent.mInBuffer).1.w.params.get?
              (p.key (text "FILENAME"))
          else p.filename :=
  (multipart_decoded plainService).1 _ _ _ _ _ _ posted_letter
    ⟨by decide +kernel, by decide +kernel, by decide +kernel⟩ (by decide +kernel)
    ⟨by decide +kernel, by decide +kernel, by decide +kernel⟩ (by decide +kernel)

/-! ## Forms that are misread -/

/-- What a form should become, also where the name of a file is empty. -/
def Decoded (svc : Service) (esi : EpollSocketInfo) (parts : List Part) : Prop :=
  ∃ w', (onStreamRead svc esi).2 = some w' ∧ ∀ p ∈ parts, w'.params.at' p.name = p.content ∧
    ∀ f, p.filename = some f → w'.params.at' (p.key (text "FILENAME")) = f

/-- A part whose type has the boundary in it. -/
def typedParts : List Part := [⟨text "a", none, some (text "x--b"), text "y"⟩]

def typedSent : EpollSocketInfo :=
  formSent (text "/") (text "multipart/form-data; boundary=b") (text "b") typedParts

/-- A part with nothing special. -/
def bareParts : List Part := [⟨text "a", none, none, text "y"⟩]

/-- A type with `boundary=` at the end of another parameter. -/
def bareSent : EpollSocketInfo :=
  formSent (text "/") (text "multipart/form-data; xboundary=c; boundary=b") (text "b") bareParts

/-- A part whose file has an empty name. -/
def namelessParts : List Part := [⟨text "a", some [], none, text "y"⟩]

/-- A query that says something about the file. -/
def namelessSent : EpollSocketInfo :=
  formSent (text "/?a_FILENAME=z") (text "multipart/form-data; boundary=b") (text "b")
    namelessParts

/-- The three of them have arrived, under a boundary in one line. -/
theorem posted_misread :
    Posted plainService typedSent (takeHead plainService .fresh typedSent.mInBuffer).1.w
        (text "multipart/form-data; ") (text "b") typedParts [] ∧
      Posted plainService bareSent (takeHead plainService .fresh bareSent.mInBuffer).1.w
        (text "multipart/form-data; xboundary=c; ") (text "b") bareParts [] ∧
      Posted plainService namelessSent (takeHead plainService .fresh namelessSent.mInBuffer).1.w
        (text "multipart/form-data; ") (text "b") namelessParts [] ∧ Boundary (text "b") := by
  refine ⟨⟨?_, ?_, ?_, ?_, ?_⟩, ⟨?_, ?_, ?_, ?_, ?_⟩, ⟨?_, ?_, ?_, ?_, ?_⟩, ⟨?_, ?_, ?_⟩⟩
  all_goals decide +kernel

theorem form_singleton {p : Part} (hWF : p.WellFormed) : Form [p] where
  wellFormed q hq := by rwa [List.mem_singleton.1 hq]
  distinct := List.pairwise_singleton _ p
  plain q hq q' hq' h _ := by
    rw [List.mem_singleton.1 hq, List.mem_singleton.1 hq']
    exact name_ne_key p h

/--
**Forms that are misread**: with the boundary in the type of a part; with another
`boundary=` in front of that of the boundary; and with an empty file name, where
the query has one.
-/
theorem multipart_misread :
    (¬ ∀ svc esi w front b tail parts, Posted svc esi w front b parts tail → Boundary b →
      (w.headers.at' contentType).dropInfix? (text "boundary=") = some (front, b) →
      Form parts → (∀ p ∈ parts, p.NamesApart ([45, 45] ++ b)) → Decoded svc esi parts) ∧
    (¬ ∀ svc esi w front b tail parts, Posted svc esi w front b parts tail → Boundary b →
      Form parts → (∀ p ∈ parts, p.Apart ([45, 45] ++ b)) → Decoded svc esi parts) ∧
    ¬ ∀ svc esi w front b tail parts, Posted svc esi w front b parts tail → Boundary b →
      (w.headers.at' contentType).dropInfix? (text "boundary=") = some (front, b) →
      Form parts → (∀ p ∈ parts, p.Apart ([45, 45] ++ b)) → Decoded svc esi parts := by
  obtain ⟨hTyped, hBare, hNameless, hBoundary⟩ := posted_misread
  refine ⟨?_, ?_, ?_⟩
  · intro hAll
    obtain ⟨w', hRead, -⟩ := hAll _ _ _ _ _ _ _ hTyped hBoundary (by decide +kernel)
      (form_singleton (by decide +kernel)) (by decide +kernel)
    have hNone : (onStreamRead plainService typedSent).2 = none := by decide +kernel
    rw [hNone] at hRead
    cases hRead
  · intro hAll
    obtain ⟨w', hRead, -⟩ := hAll _ _ _ _ _ _ _ hBare hBoundary
      (form_singleton (by decide +kernel)) (by decide +kernel)
    have hNone : (onStreamRead plainService bareSent).2 = none := by decide +kernel
    rw [hNone] at hRead
    cases hRead
  · intro hAll
    obtain ⟨w', hRead, hParts⟩ := hAll _ _ _ _ _ _ _ hNameless hBoundary
      (by decide +kernel) (form_singleton (by decide +kernel)) (by decide +kernel)
    have hStays : (onStreamRead plainService namelessSent).2.map
        (fun w => w.params.at' (text "a_FILENAME")) = some (text "z") := by
      decide +kernel
    have hKey : (⟨text "a", some [], none, text "y"⟩ : Part).key (text "FILENAME") =
        text "a_FILENAME" := by
      decide +kernel
    have hEmpty := (hParts _ List.mem_cons_self).2 [] rfl
    rw [hKey] at hEmpty
    rw [hRead, Option.map_some, hEmpty] at hStays
    revert hStays
    decide +kernel

end Megatron.Http
