import Megatron.Http.Cutting

/-!
# Forms as a client writes them

A form in `multipart/form-data`: each part has a name, perhaps the name of a
file and a type, and any bytes as its content.  A part is the lines of its
headers, an empty line, and the content, which is ended like a line.

## Main results

* `dropInfix?_joinLines` — where a delimiter without line ends is behind lines
  that do not have it.
* `pieces_disposition`, `foldl_dispositionField` — `Content-Disposition` says
  the name and the file name.
* `readPart_lines` — what is read of a part is what was written.
* `notMem_headerLine` — a boundary that is in none of the texts of a part is in
  none of its header lines.
-/

namespace Megatron.Http

open Megatron.Corelib (Bytes)
open Megatron.Lib

/-! ## Lines -/

/-- Lines with their ends. -/
def joinLines (ls : List Bytes) : Bytes := (ls.map fun l => l ++ crlf).flatten

@[simp] theorem joinLines_nil : joinLines [] = [] := rfl

@[simp] theorem joinLines_cons (l : Bytes) (ls : List Bytes) :
    joinLines (l :: ls) = l ++ crlf ++ joinLines ls := rfl

theorem joinLines_append (ls ls' : List Bytes) :
    joinLines (ls ++ ls') = joinLines ls ++ joinLines ls' := by
  simp [joinLines]

/-- A delimiter that is not empty and has no line end in it. -/
structure OneLine (d : Bytes) : Prop where
  ne_nil : d ≠ []
  cr : 13 ∉ d
  lf : 10 ∉ d

section Lines

variable {d s t p r : Bytes} {ls : List Bytes}

theorem OneLine.not_infix_nil (h : OneLine d) : ¬ d <:+: [] := fun hIn =>
  h.ne_nil (List.infix_nil.1 hIn)

/-- No occurrence is across a line end. -/
theorem OneLine.not_infix (h : OneLine d) (hs : ¬ d <:+: s) (ht : ¬ d <:+: t) :
    ¬ d <:+: s ++ crlf ++ t := by
  intro hIn
  rw [crlf, List.append_assoc, List.cons_append, List.singleton_append] at hIn
  rcases infix_append_cons h.cr hIn with hLine | hRest
  · exact hs hLine
  · rcases infix_append_cons (s := []) h.lf hRest with hNil | hBehind
    · exact h.not_infix_nil hNil
    · exact ht hBehind

theorem OneLine.not_infix_joinLines (h : OneLine d) (hFree : ∀ l ∈ ls, ¬ d <:+: l) :
    ¬ d <:+: joinLines ls := by
  induction ls with
  | nil => exact h.not_infix_nil
  | cons l ls ih =>
      rw [List.forall_mem_cons] at hFree
      exact h.not_infix hFree.1 (ih hFree.2)

/-- A delimiter behind lines without it. -/
theorem dropInfix?_joinLines (h : OneLine d) (hFree : ∀ l ∈ ls, ¬ d <:+: l)
    (hCut : s.dropInfix? d = some (p, r)) :
    (joinLines ls ++ s).dropInfix? d = some (joinLines ls ++ p, r) := by
  induction ls with
  | nil => exact hCut
  | cons l ls ih =>
      rw [List.forall_mem_cons] at hFree
      have hRest := dropInfix?_behind (t := []) h.lf h.not_infix_nil (ih hFree.2)
      have hAll := dropInfix?_behind h.cr hFree.1 hRest
      simpa [crlf] using hAll

/-- A line end is found behind a line. -/
theorem dropInfix?_crlf (hLine : 13 ∉ s) (t : Bytes) :
    (s ++ crlf ++ t).dropInfix? crlf = some (s, t) :=
  dropInfix?_head hLine

end Lines

/-! ## Texts -/

theorem text_fields : text "; " = [59, 32] ∧ text "=" = [61] ∧ text ": " = [58, 32] := by
  decide +kernel

/-- A value in quotes. -/
def quote (s : Bytes) : Bytes := 34 :: s ++ [34]

theorem unquote_quote {s : Bytes} (h : 34 ∉ s) : unquote (quote s) = s := by
  cases s with
  | nil => rfl
  | cons c s =>
      have hLast : (quote (c :: s)).getLast? = some 34 := List.getLast?_concat
      have hLength : (quote (c :: s)).length = s.length + 3 := by simp [quote]
      have hStripped : ((quote (c :: s)).drop 1).take ((quote (c :: s)).length - 2) = c :: s := by
        rw [hLength]
        simp [quote]
      have hNot : c :: s ≠ [34, 34] := by
        intro hEq
        rw [hEq] at h
        exact h List.mem_cons_self
      have hQuoted : 2 < (quote (c :: s)).length ∧ (quote (c :: s)).head? = some 34 ∧
          (quote (c :: s)).getLast? = some 34 := ⟨by omega, rfl, hLast⟩
      unfold unquote
      dsimp only
      rw [if_pos hQuoted, hStripped, if_neg hNot]

/-- One field of `Content-Disposition`. -/
def field (key val : Bytes) : Bytes := key ++ text "=" ++ quote val

theorem dispositionField_field {key val : Bytes} (hKey : 61 ∉ key) (hVal : 34 ∉ val)
    (found : Bytes × Bytes) :
    dispositionField found (field key val) =
      (if key = text "name" then val else found.1,
        if key = text "filename" then val else found.2) := by
  have hCut : (field key val).dropInfix? (text "=") = some (key, quote val) := by
    rw [field, text_fields.2.1]
    exact dropInfix?_head hKey
  rw [dispositionField, hCut]
  simp only [unquote_quote hVal]

/-! ## Parts -/

/-- A part of a form. -/
structure Part where
  name : Bytes
  filename : Option Bytes
  contentType : Option Bytes
  content : Bytes

/-- `;`, `=`, `"` and the line ends. -/
def reserved : Bytes := [59, 61, 34, 13, 10]

namespace Part

def fields (p : Part) : List Bytes :=
  [text "form-data", field (text "name") p.name] ++
    (p.filename.map (field (text "filename"))).toList

/-- The value of `Content-Disposition`. -/
def disposition (p : Part) : Bytes := List.intercalate (text "; ") p.fields

def headers (p : Part) : List (Bytes × Bytes) :=
  (text "Content-Disposition", p.disposition) ::
    (p.contentType.map fun t => (text "Content-Type", t)).toList

end Part

def headerLine (h : Bytes × Bytes) : Bytes := h.1 ++ text ": " ++ h.2

/-- The lines of a part, with the content as the last one. -/
def Part.lines (p : Part) : List Bytes := p.headers.map headerLine ++ [[], p.content]

/-- A body of `multipart/form-data`. -/
def renderForm (bound : Bytes) (parts : List Part) : Bytes :=
  joinLines (parts.flatMap fun p => bound :: p.lines) ++ ebound bound

/-- What the names and the type of a part do not have in them. -/
structure Part.WellFormed (p : Part) : Prop where
  name_ne_nil : p.name ≠ []
  name : ∀ x ∈ reserved, x ∉ p.name
  filename : ∀ f, p.filename = some f → ∀ x ∈ reserved, x ∉ f
  contentType : ∀ t, p.contentType = some t → 13 ∉ t ∧ 10 ∉ t

instance (p : Part) : Decidable p.WellFormed :=
  decidable_of_iff ((!p.name.isEmpty && reserved.all (fun x => !p.name.contains x) &&
      p.filename.all (fun f => reserved.all fun x => !f.contains x) &&
        p.contentType.all fun t => !t.contains 13 && !t.contains 10) = true) (by
    simp only [Bool.and_eq_true, Bool.not_eq_true', List.isEmpty_eq_false_iff, List.all_eq_true,
      List.contains_eq_mem, decide_eq_false_iff_not, Option.all_eq_true]
    exact ⟨fun h => ⟨h.1.1.1, h.1.1.2, h.1.2, h.2⟩, fun h => ⟨⟨⟨h.1, h.2⟩, h.3⟩, h.4⟩⟩)

/-! ## Reading `Content-Disposition` -/

theorem pieces_intercalate {c : UInt8} {d : Bytes} :
    ∀ fs : List Bytes, (∀ f ∈ fs, f ≠ [] ∧ c ∉ f) →
      pieces (c :: d) (List.intercalate (c :: d) fs) = fs := by
  intro fs
  induction fs with
  | nil => exact fun _ => rfl
  | cons f fs ih =>
      intro hFields
      rw [List.forall_mem_cons] at hFields
      obtain ⟨⟨hSome, hFree⟩, hRest⟩ := hFields
      cases fs with
      | nil =>
          have hNone : f.dropInfix? (c :: d) = none :=
            dropInfix?_eq_none.2 fun hIn => hFree (hIn.subset List.mem_cons_self)
          simpa using pieces_self hSome hNone
      | cons g fs =>
          rw [List.intercalate_cons_cons, pieces_cut (List.cons_ne_nil _ _)
            (dropInfix?_head hFree), ih hRest]

section Part

variable {p : Part}

theorem reserved_of_mem {x : UInt8} (hx : x ∈ reserved) (hWF : p.WellFormed) :
    x ∉ p.name ∧ ∀ f ∈ p.filename, x ∉ f :=
  ⟨hWF.name x hx, fun f hf => hWF.filename f hf x hx⟩

theorem forall_mem_fields {P : Bytes → Prop} : (∀ f ∈ p.fields, P f) ↔
    P (text "form-data") ∧ P (field (text "name") p.name) ∧
      ∀ f, p.filename = some f → P (field (text "filename") f) := by
  rw [Part.fields]
  cases p.filename <;> simp

theorem forall_mem_headers {P : Bytes × Bytes → Prop} : (∀ h ∈ p.headers, P h) ↔
    P (text "Content-Disposition", p.disposition) ∧
      ∀ t, p.contentType = some t → P (text "Content-Type", t) := by
  rw [Part.headers]
  cases p.contentType <;> simp

/-- A reserved character is in a field only between the name and the value, or
as a quote. -/
theorem notMem_fields (hWF : p.WellFormed) {x : UInt8} (hx : x ∈ reserved)
    (hKeys : x ∉ text "form-data" ++ text "name" ++ text "filename" ++ text "=" ++ [34]) :
    ∀ f ∈ p.fields, x ∉ f := by
  have hTexts := reserved_of_mem hx hWF
  simp only [List.mem_append, List.mem_singleton, not_or] at hKeys
  obtain ⟨⟨⟨⟨hForm, hName⟩, hFilename⟩, hSign⟩, hQuote⟩ := hKeys
  have hField : ∀ key val : Bytes, x ∉ key → x ∉ val → x ∉ field key val := by
    intro key val hKey hVal
    simp [field, quote, hKey, hVal, hSign, hQuote]
  exact forall_mem_fields.2 ⟨hForm, hField _ _ hName hTexts.1,
    fun f hf => hField _ _ hFilename (hTexts.2 f hf)⟩

theorem pieces_disposition (hWF : p.WellFormed) :
    pieces (text "; ") p.disposition = p.fields := by
  have hSemicolon : ∀ f ∈ p.fields, 59 ∉ f := notMem_fields hWF (by decide) (by decide +kernel)
  have hSome : ∀ f ∈ p.fields, f ≠ [] := by
    rw [forall_mem_fields]
    exact ⟨by decide +kernel, by simp [field, quote], fun f _ => by simp [field, quote]⟩
  rw [Part.disposition, text_fields.1]
  exact pieces_intercalate _ fun f hf => ⟨hSome f hf, hSemicolon f hf⟩

/-- The name and the file name, which is empty where there is none. -/
theorem foldl_dispositionField (hWF : p.WellFormed) :
    p.fields.foldl dispositionField ([], []) = (p.name, p.filename.getD []) := by
  have hQuote := reserved_of_mem (x := 34) (by decide) hWF
  have hForm : dispositionField ([], []) (text "form-data") = ([], []) := by decide +kernel
  have hKeys : 61 ∉ text "name" ∧ 61 ∉ text "filename" ∧ text "name" ≠ text "filename" := by
    decide +kernel
  rw [Part.fields, List.foldl_append, List.foldl_cons, List.foldl_cons, List.foldl_nil, hForm,
    dispositionField_field hKeys.1 hQuote.1]
  cases hFile : p.filename with
  | none => simp [hKeys.2.2]
  | some f =>
      have hLast := dispositionField_field hKeys.2.1 (hQuote.2 f hFile) (p.name, [])
      simp [hKeys.2.2, hLast, Ne.symm hKeys.2.2]

/-! ## Reading a part -/

/-- A header that is read as it was written. -/
def Header (h : Bytes × Bytes) : Prop := 58 ∉ h.1 ∧ 13 ∉ headerLine h

theorem dropInfix?_headerLine {h : Bytes × Bytes} (hHeader : Header h) :
    (headerLine h).dropInfix? (text ": ") = some h := by
  rw [headerLine, text_fields.2.2]
  exact dropInfix?_head hHeader.1

theorem headerLine_ne_nil (h : Bytes × Bytes) : headerLine h ≠ [] := by
  rw [headerLine, text_fields.2.2]
  simp

/-- The headers are put down, and behind the empty line is the content. -/
theorem partLines_joinLines {hs : List (Bytes × Bytes)} (hHeaders : ∀ h ∈ hs, Header h)
    (content : Bytes) {n : Nat} (hFuel : hs.length < n) (m : OrdMap Bytes Bytes) :
    partLines n (joinLines (hs.map headerLine ++ [[], content])) m =
      some (hs.foldl (fun m h => m.insert h.1 h.2) m, content) := by
  induction hs generalizing n m with
  | nil =>
      obtain ⟨n, rfl⟩ := Nat.exists_eq_succ_of_ne_zero (Nat.ne_of_gt hFuel)
      have hCut : (joinLines [[], content]).dropInfix? crlf = some ([], content ++ crlf) := by
        simp
      have hEnough : ¬ (content ++ crlf).length < 2 := by simp [crlf]
      have hContent : (content ++ crlf).take ((content ++ crlf).length - 2) = content := by
        simp [crlf]
      rw [List.map_nil, List.nil_append, partLines_empty hCut, if_neg hEnough, hContent]
      rfl
  | cons h hs ih =>
      obtain ⟨n, rfl⟩ := Nat.exists_eq_succ_of_ne_zero (Nat.ne_of_gt (Nat.zero_lt_of_lt hFuel))
      rw [List.forall_mem_cons] at hHeaders
      have hCut := dropInfix?_crlf hHeaders.1.2 (joinLines (hs.map headerLine ++ [[], content]))
      rw [List.map_cons, List.cons_append, joinLines_cons,
        partLines_line hCut (headerLine_ne_nil h) (dropInfix?_headerLine hHeaders.1),
        ih hHeaders.2 (Nat.lt_of_succ_lt_succ hFuel), List.foldl_cons]

theorem notMem_intercalate {x : UInt8} {d : Bytes} (hSep : x ∉ d) :
    ∀ fs : List Bytes, (∀ f ∈ fs, x ∉ f) → x ∉ List.intercalate d fs := by
  intro fs
  induction fs with
  | nil => exact fun _ => List.not_mem_nil
  | cons f fs ih =>
      intro hFree
      rw [List.forall_mem_cons] at hFree
      cases fs with
      | nil => simpa using hFree.1
      | cons g fs =>
          have hRest := ih hFree.2
          simp [List.intercalate_cons_cons, hFree.1, hSep, hRest]

/-- No line end is in what a client writes for the names. -/
theorem notMem_disposition (hWF : p.WellFormed) : 13 ∉ p.disposition :=
  notMem_intercalate (by decide +kernel) _ (notMem_fields hWF (by decide) (by decide +kernel))

theorem Part.WellFormed.header (hWF : p.WellFormed) : ∀ h ∈ p.headers, Header h := by
  have hKeys : (58 ∉ text "Content-Disposition" ∧ 58 ∉ text "Content-Type") ∧
      13 ∉ text "Content-Disposition" ++ text ": " ∧ 13 ∉ text "Content-Type" ++ text ": " := by
    decide +kernel
  rw [forall_mem_headers]
  constructor
  · refine ⟨hKeys.1.1, ?_⟩
    rw [headerLine, List.mem_append, not_or]
    exact ⟨hKeys.2.1, notMem_disposition hWF⟩
  · intro t ht
    refine ⟨hKeys.1.2, ?_⟩
    rw [headerLine, List.mem_append, not_or]
    exact ⟨hKeys.2.2, (hWF.contentType t ht).1⟩

/-- The parameters of a part. -/
def Part.lparams (p : Part) : OrdMap Bytes Bytes :=
  p.headers.foldl (fun m h => m.insert h.1 h.2) ∅

theorem readPart_lines (hWF : p.WellFormed) :
    readPart (joinLines p.lines) = some (p.lparams, p.content) := by
  refine partLines_joinLines hWF.header p.content ?_ ∅
  have hFew : p.headers.length ≤ 2 := by
    rw [Part.headers]
    cases p.contentType <;> simp
  rw [Part.lines, joinLines_append, List.length_append]
  simp only [joinLines_cons, joinLines_nil, List.length_append, crlf, List.length_cons,
    List.length_nil]
  omega

theorem disposition_ne_type : text "Content-Disposition" ≠ text "Content-Type" := by
  decide +kernel

theorem get?_lparams : p.lparams.get? (text "Content-Disposition") = some p.disposition := by
  rw [Part.lparams, Part.headers]
  cases p.contentType with
  | none => exact OrdMap.get?_insert_self _ _ _
  | some t =>
      rw [Option.map_some, Option.toList_some, List.foldl_cons, List.foldl_cons, List.foldl_nil,
        OrdMap.get?_insert_of_ne disposition_ne_type, OrdMap.get?_insert_self]

/-- There are no parameters but the two. -/
theorem mem_lparams {i : Bytes × Bytes} (hi : i ∈ p.lparams.toList) :
    i.1 = text "Content-Disposition" ∨ i.1 = text "Content-Type" := by
  by_contra hOther
  rw [not_or] at hOther
  have hNone : p.lparams.get? i.1 = none := by
    rw [Part.lparams, OrdMap.get?_foldl_insert]
    · rfl
    · exact forall_mem_headers.2 ⟨Ne.symm hOther.1, fun _ _ => Ne.symm hOther.2⟩
  have hSome : p.lparams.get? i.1 = some i.2 := OrdMap.mem_toList.1 hi
  rw [hNone] at hSome
  cases hSome

/-! ## Where a boundary may be -/

/-- An occurrence of what begins with two dashes is behind a text that has no two
dashes and does not end with one. -/
theorem infix_of_dashes {b s t : Bytes} (hIn : 45 :: 45 :: b <:+: s ++ t)
    (hDashes : ¬ [45, 45] <:+: s) (hLast : s.getLast? ≠ some 45) : 45 :: 45 :: b <:+: t := by
  rw [List.infix_append_iff] at hIn
  rcases hIn with hFront | hBehind | ⟨q, r, hSplit, hSuffix, hPrefix⟩
  · exact absurd (List.IsInfix.trans ⟨[], b, rfl⟩ hFront) hDashes
  · exact hBehind
  · match q with
    | [] =>
        rw [List.nil_append] at hSplit
        rw [hSplit]
        exact hPrefix.isInfix
    | [x] =>
        obtain ⟨rfl, -⟩ := List.cons.inj hSplit
        obtain ⟨front, rfl⟩ := hSuffix
        exact absurd List.getLast?_concat hLast
    | x :: y :: q =>
        obtain ⟨rfl, hRest⟩ := List.cons.inj hSplit
        obtain ⟨rfl, -⟩ := List.cons.inj hRest
        exact absurd (List.IsInfix.trans ⟨[], q, rfl⟩ hSuffix.isInfix) hDashes

/-- The names and the content of a part do not have the boundary in them. -/
structure Part.NamesApart (bound : Bytes) (p : Part) : Prop where
  name : ¬ bound <:+: p.name
  filename : ∀ f, p.filename = some f → ¬ bound <:+: f
  content : ¬ bound <:+: p.content

/-- None of the texts of a part has the boundary in it. -/
structure Part.Apart (bound : Bytes) (p : Part) : Prop extends Part.NamesApart bound p where
  contentType : ∀ t, p.contentType = some t → ¬ bound <:+: t

instance (bound : Bytes) (p : Part) : Decidable (p.NamesApart bound) :=
  decidable_of_iff (¬ bound <:+: p.name ∧ (∀ f ∈ p.filename.toList, ¬ bound <:+: f) ∧
      ¬ bound <:+: p.content) (by
    simp only [Option.mem_toList]
    exact ⟨fun h => ⟨h.1, h.2.1, h.2.2⟩, fun h => ⟨h.1, h.2, h.3⟩⟩)

instance (bound : Bytes) (p : Part) : Decidable (p.Apart bound) :=
  decidable_of_iff (p.NamesApart bound ∧ ∀ t ∈ p.contentType.toList, ¬ bound <:+: t) (by
    simp only [Option.mem_toList]
    exact ⟨fun h => ⟨h.1, h.2⟩, fun h => ⟨h.1, h.2⟩⟩)

theorem headerLine_disposition (p : Part) :
    headerLine (text "Content-Disposition", p.disposition) =
      text "Content-Disposition: form-data; name=" ++ 34 :: (p.name ++ 34 ::
        ((p.filename.map fun f => text "; filename=" ++ 34 :: (f ++ [34])).getD [])) := by
  have hTexts : text "Content-Disposition: form-data; name=" = text "Content-Disposition" ++
      text ": " ++ text "form-data" ++ text "; " ++ text "name" ++ text "=" ∧
        text "; filename=" = text "; " ++ text "filename" ++ text "=" := by
    decide +kernel
  rw [hTexts.1, hTexts.2, headerLine, Part.disposition, Part.fields]
  cases p.filename with
  | none => simp [field, quote, List.intercalate_cons_cons]
  | some f => simp [field, quote, List.intercalate_cons_cons]

section Boundary

variable {b : Bytes} (hQuote : 34 ∉ b) (hApart : p.Apart (45 :: 45 :: b))

include hQuote hApart

/-- Between the quotes of `Content-Disposition` are the names. -/
theorem notMem_headerLine_disposition :
    ¬ 45 :: 45 :: b <:+: headerLine (text "Content-Disposition", p.disposition) := by
  have hFree : 34 ∉ 45 :: 45 :: b := by simpa using hQuote
  have hConst : ∀ s : Bytes, ¬ [45, 45] <:+: s → ¬ 45 :: 45 :: b <:+: s := fun s hs hIn =>
    hs (List.IsInfix.trans ⟨[], b, rfl⟩ hIn)
  have hTexts : ¬ [45, 45] <:+: text "Content-Disposition: form-data; name=" ∧
      ¬ [45, 45] <:+: text "; filename=" ∧ ¬ [45, 45] <:+: ([] : Bytes) := by
    decide +kernel
  intro hIn
  rw [headerLine_disposition] at hIn
  rcases infix_append_cons hFree hIn with hFront | hIn
  · exact hConst _ hTexts.1 hFront
  rcases infix_append_cons hFree hIn with hName | hIn
  · exact hApart.name hName
  cases hFile : p.filename with
  | none =>
      rw [hFile] at hIn
      exact hConst _ hTexts.2.2 hIn
  | some f =>
      rw [hFile, Option.map_some, Option.getD_some] at hIn
      rcases infix_append_cons hFree hIn with hFront | hIn
      · exact hConst _ hTexts.2.1 hFront
      rcases infix_append_cons hFree hIn with hFilename | hIn
      · exact hApart.filename f hFile hFilename
      · exact hConst _ hTexts.2.2 hIn

/-- A boundary without quotes that is in none of the texts of a part is in none
of its header lines. -/
theorem notMem_headerLine : ∀ h ∈ p.headers, ¬ 45 :: 45 :: b <:+: headerLine h := by
  rw [forall_mem_headers]
  refine ⟨notMem_headerLine_disposition hQuote hApart, fun t ht hIn => ?_⟩
  have hType : text "Content-Type" ++ text ": " = text "Content-Type: " ∧
      ¬ [45, 45] <:+: text "Content-Type: " ∧ (text "Content-Type: ").getLast? ≠ some 45 := by
    decide +kernel
  rw [headerLine, hType.1] at hIn
  exact hApart.contentType t ht (infix_of_dashes hIn hType.2.1 hType.2.2)

end Boundary

end Part

end Megatron.Http
