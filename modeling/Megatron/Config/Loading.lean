import Mathlib.Data.List.DropRight
import Megatron.Corelib.Address
import Megatron.Http.Numerals

/-!
# Reading a configuration file

`loadStringMapFromFile` cuts a file into lines and reads them from the first to
the last: blank lines and comments change nothing, a line that begins with `%`
says which section the keys behind it are in, every other line is a key, `=` and
a value.  A line without `=` is a syntax error, and then nothing of the file
counts.

A line that is written at the end of a file is read after all others, and
together with the last of them where that one is not finished.

## Main results

* `kind_append` — what becomes of a line when text is written behind it.
* `reading_before`, `reading_after` — a file before and after a line was
  appended to it, read up to the same place.
-/

namespace Megatron.Config

open Megatron.Corelib (Bytes cStr cStr_subset)
open Megatron.Http

/-! ## Pieces -/

section Pieces

variable {seps seps' s t p : Bytes} {c : UInt8}

theorem splitFrom_separator (tmp : Bytes) (hc : c ∈ seps) :
    splitFrom seps tmp (s ++ c :: t) = splitFrom seps tmp s ++ splitString seps t := by
  induction s generalizing tmp with
  | nil =>
      rw [List.nil_append, splitFrom.eq_def seps tmp (c :: t), splitFrom]
      simp only [hc, not_true_eq_false, if_false]
      split <;> rfl
  | cons d s ih =>
      rw [List.cons_append, splitFrom, splitFrom]
      split
      · exact ih _
      · split
        · exact ih []
        · rw [ih [], List.cons_append]

/-- A separator ends a piece, wherever it stands. -/
theorem splitString_separator (hc : c ∈ seps) :
    splitString seps (s ++ c :: t) = splitString seps s ++ splitString seps t :=
  splitFrom_separator [] hc

/-- The pieces hold the bytes that are no separators. -/
theorem exists_mem_splitFrom (tmp : Bytes) :
    (∃ p ∈ splitFrom seps tmp s, c ∈ p) ↔ c ∈ tmp ∨ c ∈ s ∧ c ∉ seps := by
  induction s generalizing tmp with
  | nil =>
      rw [splitFrom]
      split <;> simp_all
  | cons d s ih =>
      rw [splitFrom]
      split
      · rename_i hd
        rw [ih, List.mem_append, List.mem_singleton, List.mem_cons]
        constructor
        · rintro ((hOld | rfl) | ⟨hs, hNot⟩)
          · exact Or.inl hOld
          · exact Or.inr ⟨Or.inl rfl, hd⟩
          · exact Or.inr ⟨Or.inr hs, hNot⟩
        · rintro (hOld | ⟨rfl | hs, hNot⟩)
          · exact Or.inl (Or.inl hOld)
          · exact Or.inl (Or.inr rfl)
          · exact Or.inr ⟨hs, hNot⟩
      · rename_i hd
        have hSkip : (c ∈ d :: s ∧ c ∉ seps) ↔ c ∈ s ∧ c ∉ seps := by
          rw [List.mem_cons]
          constructor
          · rintro ⟨rfl | hs, hNot⟩
            · exact absurd hNot hd
            · exact ⟨hs, hNot⟩
          · exact fun h => ⟨Or.inr h.1, h.2⟩
        have hTail := ih []
        rw [hSkip]
        split
        · rename_i hTmp
          rw [hTail, hTmp]
        · simp only [List.mem_cons, exists_eq_or_imp, hTail, List.not_mem_nil, false_or]

theorem exists_mem_splitString :
    (∃ p ∈ splitString seps s, c ∈ p) ↔ c ∈ s ∧ c ∉ seps := by
  rw [splitString, exists_mem_splitFrom]
  simp

/-- Separators that do not occur make no difference. -/
theorem splitFrom_congr (tmp : Bytes) (h : ∀ c ∈ s, c ∈ seps ↔ c ∈ seps') :
    splitFrom seps tmp s = splitFrom seps' tmp s := by
  induction s generalizing tmp with
  | nil => rfl
  | cons c s ih =>
      rw [List.forall_mem_cons] at h
      simp only [splitFrom, h.1, ih _ h.2]

end Pieces

/-! ## One line -/

/-- `std::map<std::string,std::string>`. -/
abbrev StringMap := Bytes → Option Bytes

def StringMap.empty : StringMap := fun _ => none

/-- `m[key]=val`. -/
def StringMap.set (m : StringMap) (key val : Bytes) : StringMap :=
  fun k => if k = key then some val else m k

/-- What the loop over the lines has so far: `m` and `section`. -/
structure Reading where
  m : StringMap
  inSection : Bytes

/-- A reading that has seen nothing. -/
def Reading.start : Reading := ⟨.empty, []⟩

/-- The key of a line in the section. -/
def Reading.key (r : Reading) (k : Bytes) : Bytes :=
  if r.inSection ≠ [] then r.inSection ++ text "_" ++ k else k

/-- One round of the loop; `none` is the exception. -/
def parseLine (r : Reading) (line : Bytes) : Option Reading :=
  let theString := line.dropWhile isSpace
  if line.all isSpace then some r
  else if theString.head? = some 35 then some r
  else if theString.head? = some 37 then some { r with inSection := theString.tail }
  else if 61 ∉ theString then none
  else
    let key := r.key (theString.takeWhile (· ≠ 61))
    let val := (theString.dropWhile (· ≠ 61)).tail
    some { r with m := r.m.set key val }

/-- `CUtils::loadStringMapFromFile`, with the section it ends in. -/
def readLines (bod : Bytes) : Option Reading := (splitString crlf bod).foldlM parseLine .start

/-- `CUtils::loadStringMapFromFile`. -/
def loadStringMapFromFile (bod : Bytes) : Option StringMap := (readLines bod).map Reading.m

/-! ### The kinds of lines -/

/-- What a line is, and the text it is made of. -/
inductive Kind
  | blank
  | comment
  | header (name : Bytes)
  | entry (key val : Bytes)
  | wrong
  deriving DecidableEq, Repr

/-- The kind of a line that does not begin with a blank. -/
def Kind.ofText : Bytes → Kind
  | [] => blank
  | c :: s =>
      if c = 35 then comment
      else if c = 37 then header s
      else if 61 ∈ c :: s then
        entry ((c :: s).takeWhile (· ≠ 61)) ((c :: s).dropWhile (· ≠ 61)).tail
      else wrong

def kind (line : Bytes) : Kind := Kind.ofText (line.dropWhile isSpace)

/-- What a line of a kind does. -/
def Kind.apply (r : Reading) : Kind → Option Reading
  | blank | comment => some r
  | header name => some { r with inSection := name }
  | entry key val => some { r with m := r.m.set (r.key key) val }
  | wrong => none

theorem parseLine_eq (r : Reading) (line : Bytes) : parseLine r line = (kind line).apply r := by
  rw [parseLine, kind]
  have hBlank : line.all isSpace ↔ line.dropWhile isSpace = [] := by
    rw [List.dropWhile_eq_nil_iff, List.all_eq_true]
  cases hText : line.dropWhile isSpace with
  | nil => simp [hBlank.2 hText, Kind.ofText, Kind.apply]
  | cons c s =>
      have hNot : ¬ line.all isSpace := fun h => by simp [hBlank.1 h] at hText
      simp only [if_neg hNot, List.head?_cons, Option.some.injEq, List.tail_cons, Kind.ofText]
      split
      · rfl
      · split
        · rfl
        · by_cases hMem : 61 ∈ c :: s
          · rw [if_neg (not_not.2 hMem), if_pos hMem]
            rfl
          · rw [if_pos hMem, if_neg hMem]
            rfl

section Lines

variable {line k v : Bytes}

theorem kind_of_text {c : UInt8} {s : Bytes} (h : line.dropWhile isSpace = c :: s) :
    kind line = if c = 35 then .comment else if c = 37 then .header s
      else if 61 ∈ c :: s then
        .entry ((c :: s).takeWhile (· ≠ 61)) ((c :: s).dropWhile (· ≠ 61)).tail
      else .wrong := by
  rw [kind, h, Kind.ofText]

/-- The first `=` of a line ends its key. -/
theorem split_entry (hk : 61 ∉ k) :
    (k ++ 61 :: v).takeWhile (· ≠ 61) = k ∧ ((k ++ 61 :: v).dropWhile (· ≠ 61)).tail = v := by
  have hAll : ∀ c ∈ k, decide (c ≠ 61) = true := by
    intro c hc
    rw [decide_eq_true_eq]
    rintro rfl
    exact hk hc
  rw [List.takeWhile_append_of_pos hAll, List.dropWhile_append_of_pos hAll]
  simp

/-- The kind of a line that is a key, `=` and a value. -/
theorem kind_entry (hk : 61 ∉ k) :
    kind (k ++ 61 :: v) = match k.dropWhile isSpace with
      | [] => .entry [] v
      | c :: s => if c = 35 then .comment else if c = 37 then .header (s ++ 61 :: v)
          else .entry (c :: s) v := by
  have hDrop : (k ++ 61 :: v).dropWhile isSpace = k.dropWhile isSpace ++ 61 :: v := by
    rw [List.dropWhile_append]
    split
    · rename_i hNil
      rw [List.isEmpty_iff] at hNil
      rw [hNil]
      rfl
    · rfl
  cases hText : k.dropWhile isSpace with
  | nil =>
      rw [hText, List.nil_append] at hDrop
      simp [kind_of_text hDrop]
  | cons c s =>
      rw [hText, List.cons_append] at hDrop
      have hFree : 61 ∉ c :: s := fun hMem => hk ((List.dropWhile_sublist _).subset (hText ▸ hMem))
      obtain ⟨hKey, hValue⟩ := split_entry (v := v) hFree
      rw [List.cons_append] at hKey hValue
      rw [kind_of_text hDrop, if_pos (show 61 ∈ c :: (s ++ 61 :: v) by simp), hKey, hValue]

theorem kind_entry_cases (hk : 61 ∉ k) : kind (k ++ 61 :: v) = .comment ∨
    (∃ name, kind (k ++ 61 :: v) = .header name) ∨
      kind (k ++ 61 :: v) = .entry (k.dropWhile isSpace) v := by
  rw [kind_entry hk]
  cases k.dropWhile isSpace with
  | nil => exact Or.inr (Or.inr rfl)
  | cons c s =>
      by_cases hComment : c = 35
      · exact Or.inl (by simp only [if_pos hComment])
      by_cases hHeader : c = 37
      · exact Or.inr (Or.inl ⟨s ++ 61 :: v, by simp only [if_neg hComment, if_pos hHeader]⟩)
      · exact Or.inr (Or.inr (by simp only [if_neg hComment, if_neg hHeader]))

/-- **Text written behind a line.** What the line is decides what becomes of
it, unless it is blank or has no `=` yet. -/
theorem kind_append (hk : 61 ∉ k) :
    kind (line ++ (k ++ 61 :: v)) = match kind line with
      | .blank => kind (k ++ 61 :: v)
      | .comment => .comment
      | .header name => .header (name ++ (k ++ 61 :: v))
      | .entry key val => .entry key (val ++ (k ++ 61 :: v))
      | .wrong => .entry (line.dropWhile isSpace ++ k) v := by
  cases hText : line.dropWhile isSpace with
  | nil =>
      have hBlank : kind line = .blank := by rw [kind, hText, Kind.ofText]
      have hAll : ∀ c ∈ line, isSpace c = true := List.dropWhile_eq_nil_iff.1 hText
      rw [hBlank]
      simp only [kind]
      rw [List.dropWhile_append_of_pos hAll]
  | cons c s =>
      have hDrop : (line ++ (k ++ 61 :: v)).dropWhile isSpace = c :: (s ++ (k ++ 61 :: v)) := by
        rw [List.dropWhile_append, hText]
        rfl
      rw [kind_of_text hDrop, kind_of_text hText]
      by_cases hComment : c = 35
      · simp only [if_pos hComment]
      by_cases hHeader : c = 37
      · simp only [if_neg hComment, if_pos hHeader]
      have hMem : (61 : UInt8) ∈ c :: (s ++ (k ++ 61 :: v)) := by simp
      simp only [if_neg hComment, if_neg hHeader, if_pos hMem]
      by_cases hEntry : 61 ∈ c :: s
      · -- the first `=` is in the line already
        obtain ⟨a, b, hEq, hFree⟩ := List.eq_append_cons_of_mem hEntry
        have hWhole : c :: (s ++ (k ++ 61 :: v)) = a ++ 61 :: (b ++ (k ++ 61 :: v)) := by
          rw [← List.cons_append, hEq, List.append_assoc, List.cons_append]
        obtain ⟨hKey, hValue⟩ := split_entry (v := b) hFree
        obtain ⟨hKey', hValue'⟩ := split_entry (v := b ++ (k ++ 61 :: v)) hFree
        simp only [if_pos hEntry]
        rw [hWhole, hEq, hKey, hValue, hKey', hValue']
      · have hFree : 61 ∉ c :: s ++ k := by
          rw [List.mem_append, not_or]
          exact ⟨hEntry, hk⟩
        obtain ⟨hKey, hValue⟩ := split_entry (v := v) hFree
        rw [List.append_assoc, List.cons_append] at hKey hValue
        simp only [if_neg hEntry]
        rw [hKey, hValue]

end Lines

/-! ## The end of a file -/

/-- `appendLine`: what it writes. -/
def appended (key val comment : Bytes) : Bytes :=
  (if comment ≠ [] then text "\n# " ++ cStr comment ++ text "\n" else []) ++
    cStr key ++ text "=" ++ cStr val ++ text "\n"

/-- A byte that does not end a line. -/
def inLine (c : UInt8) : Bool := !crlf.contains c

/-- The last line of a file, where no line break ends it. -/
def unfinished (file : Bytes) : Bytes := file.rtakeWhile inLine

/-- The lines of a file that are finished. -/
def finished (file : Bytes) : Bytes := file.rdropWhile inLine

/-- The lines of a file that a line which is appended leaves alone: a comment
begins with a line break. -/
def settled (file comment : Bytes) : Bytes := if comment ≠ [] then file else finished file

/-- What stands in front of the appended key. -/
def stub (file comment : Bytes) : Bytes := if comment ≠ [] then [] else unfinished file

section Appending

variable {file key val comment s : Bytes}

/-- No line break stands in `s`. -/
def Unbroken (s : Bytes) : Prop := ∀ c ∈ s, c ∉ crlf

theorem Unbroken.cStr (h : Unbroken s) : Unbroken (cStr s) :=
  fun c hc => h c (cStr_subset _ hc)

theorem unbroken_unfinished (file : Bytes) : Unbroken (unfinished file) := by
  intro c hc
  simpa [inLine] using List.mem_rtakeWhile_imp hc

theorem finished_append (file : Bytes) : finished file ++ unfinished file = file :=
  List.rdropWhile_append_rtakeWhile

/-- What comes behind finished lines is lines of its own. -/
theorem splitString_finished (file s : Bytes) :
    splitString crlf (finished file ++ s) =
      splitString crlf (finished file) ++ splitString crlf s := by
  rw [finished]
  induction file using List.reverseRecOn with
  | nil => rfl
  | append_singleton file c ih =>
      by_cases hc : inLine c = true
      · rw [List.rdropWhile_concat_pos _ _ _ hc]
        exact ih
      · have hBreak : c ∈ crlf := by simpa [inLine] using hc
        have hEnd : splitString crlf (file ++ [c]) = splitString crlf file := by
          rw [splitString_separator (t := []) hBreak]
          exact List.append_nil _
        rw [List.rdropWhile_concat_neg _ _ _ hc, hEnd, List.append_assoc, List.singleton_append,
          splitString_separator hBreak]

theorem readLines_append {a b : Bytes}
    (h : splitString crlf (a ++ b) = splitString crlf a ++ splitString crlf b) :
    readLines (a ++ b) = (readLines a).bind fun r => (splitString crlf b).foldlM parseLine r := by
  rw [readLines, h, List.foldlM_append]
  rfl

/-- Reading one line that may be empty. -/
theorem foldlM_unbroken (r : Reading) (h : Unbroken s) :
    (splitString crlf s).foldlM parseLine r = (kind s).apply r := by
  by_cases hs : s = []
  · rw [hs]
    rfl
  · rw [splitString_self hs h, List.foldlM_cons, parseLine_eq]
    cases (kind s).apply r <;> rfl

/-- **A file, up to where a line is appended.** -/
theorem reading_before (file comment : Bytes) :
    readLines file = (readLines (settled file comment)).bind
      fun r => (kind (stub file comment)).apply r := by
  by_cases hComment : comment = []
  · rw [settled, stub, if_neg (not_not.2 hComment), if_neg (not_not.2 hComment)]
    conv_lhs => rw [← finished_append file, readLines_append (splitString_finished file _)]
    congr 1
    funext r
    exact foldlM_unbroken r (unbroken_unfinished file)
  · rw [settled, stub, if_pos hComment, if_pos hComment]
    cases readLines file <;> rfl

/-- **The file with the line.** -/
theorem reading_after (hKey : Unbroken key) (hVal : Unbroken val) (hComment : Unbroken comment) :
    readLines (file ++ appended key val comment) = (readLines (settled file comment)).bind
      fun r => (kind (stub file comment ++ (cStr key ++ 61 :: cStr val))).apply r := by
  have hBreak : (10 : UInt8) ∈ crlf := by decide
  have hEquals : text "=" = [61] := by decide +kernel
  have hNewline : text "\n" = [10] := by decide +kernel
  have hHash : text "\n# " = [10, 35, 32] := by decide +kernel
  generalize hLine : cStr key ++ 61 :: cStr val = line
  have hUnbroken : Unbroken line := by
    rw [← hLine]
    intro c hc
    rcases List.mem_append.1 hc with hc | hc
    · exact hKey.cStr c hc
    · rcases List.mem_cons.1 hc with rfl | hc
      · decide
      · exact hVal.cStr c hc
  have hEnd : ∀ a, splitString crlf (a ++ [10]) = splitString crlf a := by
    intro a
    rw [splitString_separator (t := []) hBreak]
    exact List.append_nil _
  by_cases hNone : comment = []
  · rw [settled, stub, if_neg (not_not.2 hNone), if_neg (not_not.2 hNone), appended,
      if_neg (not_not.2 hNone), hEquals, hNewline, List.nil_append]
    have hFile : file ++ (cStr key ++ [61] ++ cStr val ++ [10]) =
        finished file ++ (unfinished file ++ line) ++ [10] := by
      rw [← hLine, ← List.append_assoc (finished file), finished_append]
      simp
    have hBoth : Unbroken (unfinished file ++ line) := fun c hc =>
      (List.mem_append.1 hc).elim (unbroken_unfinished file c) (hUnbroken c)
    rw [hFile, readLines, hEnd, ← readLines, readLines_append (splitString_finished file _)]
    congr 1
    funext r
    exact foldlM_unbroken r hBoth
  · rw [settled, stub, if_pos hNone, if_pos hNone, appended, if_pos hNone, hEquals, hNewline,
      hHash, List.nil_append]
    have hFile : file ++ ([10, 35, 32] ++ cStr comment ++ [10] ++ cStr key ++ [61] ++ cStr val ++
        [10]) = file ++ 10 :: (35 :: 32 :: cStr comment ++ 10 :: (line ++ [10])) := by
      rw [← hLine]
      simp
    have hMark : Unbroken (35 :: 32 :: cStr comment) := by
      intro c hc
      rcases List.mem_cons.1 hc with rfl | hc
      · decide
      · rcases List.mem_cons.1 hc with rfl | hc
        · decide
        · exact hComment.cStr c hc
    have hLines : splitString crlf
        (file ++ 10 :: (35 :: 32 :: cStr comment ++ 10 :: (line ++ [10]))) =
        splitString crlf file ++ [35 :: 32 :: cStr comment] ++ splitString crlf line := by
      rw [splitString_separator hBreak, splitString_separator hBreak, hEnd,
        splitString_self (List.cons_ne_nil _ _) hMark, List.append_assoc]
    have hSkip : ∀ r, [35 :: 32 :: cStr comment].foldlM parseLine r = some r := by
      intro r
      rw [List.foldlM_cons, parseLine_eq, kind_of_text (c := 35) (s := 32 :: cStr comment) rfl]
      rfl
    rw [hFile, readLines, hLines, List.foldlM_append, List.foldlM_append, ← readLines]
    cases readLines file with
    | none => rfl
    | some r =>
        show ([35 :: 32 :: cStr comment].foldlM parseLine r).bind
          (fun r => (splitString crlf line).foldlM parseLine r) = (kind line).apply r
        rw [hSkip, Option.bind_some]
        exact foldlM_unbroken r hUnbroken

end Appending

end Megatron.Config
