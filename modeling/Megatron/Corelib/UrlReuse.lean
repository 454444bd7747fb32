import Megatron.Corelib.Url

/-!
# Parsing into a used `Url`

`Url::parse` clears the object first, all of it but `host_port` and `dirname`.
Either copy of the code that reads a host sets `host_port`; `dirname` is set
with a path only.  So a text without a path leaves in the object the directory
of the text before it.

## Main results

* `parse_eq` — what parsing into a used object gives, by what it gives in a
  fresh one.
* `parse_eq_iff` — two objects come to agree when the text has a path, or when
  they agreed on `dirname`.
-/

namespace Megatron.Corelib

open Megatron.Lib

namespace Url

/-- What is left to read behind the protocol. -/
def afterProtocol (u : Bytes) : Bytes :=
  match u.dropInfix? schemeEnd with
  | some (_, rest) => rest
  | none => u

/-- The two fields that `clear` leaves. -/
def used (dirname hostPort : Bytes) (x : Url) : Url :=
  { x with dirname := dirname, hostPort := hostPort }

theorem clear_eq (x : Url) : x.clear = used x.dirname x.hostPort {} := rfl

/-! ## The stages of the parser -/

section Stages

variable {d h : Bytes} {x : Url}

theorem parseProtocol_used (u : Bytes) :
    parseProtocol u (used d h x) = (used d h (parseProtocol u x).1, afterProtocol u) := by
  unfold parseProtocol afterProtocol
  cases u.dropInfix? schemeEnd <;> rfl

theorem parseUser_used (hostmax : Bytes) :
    parseUser hostmax (used d h x) =
      (used d h (parseUser hostmax x).1, (parseUser hostmax x).2) := by
  unfold parseUser
  cases hostmax.dropInfix? [atSign] with
  | none => rfl
  | some c =>
      dsimp only
      cases c.1.dropInfix? [colon] <;> rfl

/-- Either copy sets `host_port`. -/
theorem parseHost_used (find : Bytes → Option (Bytes × Bytes)) (s : Bytes) :
    parseHost find s (used d h x) = { parseHost find s x with dirname := d } := by
  unfold parseHost
  cases find s <;> rfl

theorem stripSkobka_dirname (x : Url) :
    stripSkobka { x with dirname := d } = { stripSkobka x with dirname := d } := by
  unfold stripSkobka
  dsimp only
  split <;> rfl

/-- A path begins with its `'/'`, so that one is found in it. -/
theorem exists_rfind_slash {s : Bytes} (hHead : s.head? = some slash) :
    ∃ c, rfind slash s = some c := by
  obtain ⟨dir, file, rfl, hFile⟩ := Components.exists_lastSlash hHead
  exact ⟨_, Components.rfind_slash hFile⟩

theorem parsePath_dirname (rest : Bytes) (x : Url) :
    parsePath (slash :: rest) { x with dirname := d } = parsePath (slash :: rest) x := by
  unfold parsePath
  cases hCut : (slash :: rest).dropInfix? [question] with
  | none =>
      obtain ⟨c, hFind⟩ := exists_rfind_slash (s := slash :: rest) rfl
      simp only [hFind]
  | some c =>
      obtain ⟨path, params⟩ := c
      have hHead : path.head? = some slash := by
        have hText := (dropInfix?_iff.1 hCut).1
        cases path with
        | nil => simp [slash, question] at hText
        | cons b path =>
            simp only [List.cons_append, List.cons.injEq] at hText
            simp [hText.1]
      obtain ⟨c, hFind⟩ := exists_rfind_slash hHead
      simp only [hFind]

end Stages

/-! ## The whole parser -/

/-- The text has a path: a `'/'` behind the protocol. -/
def HasPath (u : Bytes) : Prop := slash ∈ afterProtocol u

instance (u : Bytes) : Decidable (HasPath u) := inferInstanceAs (Decidable (_ ∈ _))

theorem parse_of_path {u : Bytes} (hPath : HasPath u) (x : Url) : parse u x = parse u {} := by
  obtain ⟨hostmax, rest, hText, hNot⟩ := List.eq_append_cons_of_mem hPath
  have hCut : (afterProtocol u).dropInfix? [slash] = some (hostmax, rest) := by
    rw [hText]
    exact dropInfix?_singleton hNot
  unfold parse
  rw [clear_eq, parseProtocol_used, clear_eq, parseProtocol_used]
  simp only [hCut, parseUser_used, parseHost_used, parsePath_dirname]

theorem parse_of_not_path {u : Bytes} (hPath : ¬ HasPath u) (x : Url) :
    parse u x = { parse u {} with dirname := x.dirname } := by
  have hCut : (afterProtocol u).dropInfix? [slash] = none := dropInfix?_singleton_eq_none.2 hPath
  unfold parse
  rw [clear_eq, parseProtocol_used, clear_eq, parseProtocol_used]
  simp only [hCut, parseUser_used, parseHost_used, stripSkobka_dirname]

/-- Parsing forgets all of the object but its `dirname`, and that one where the
text has a path. -/
theorem parse_eq (u : Bytes) (x : Url) :
    parse u x = if HasPath u then parse u {} else { parse u {} with dirname := x.dirname } := by
  split
  · rename_i hPath
    exact parse_of_path hPath x
  · rename_i hPath
    exact parse_of_not_path hPath x

theorem dirname_parse {u : Bytes} (hPath : ¬ HasPath u) (x : Url) :
    (parse u x).dirname = x.dirname := by
  rw [parse_of_not_path hPath]

/--
**Two runs of the parser.** Whatever two objects held before, they hold the same
ten fields after a text is parsed into both, if and only if the text has a path
or the two agreed on `dirname`.
-/
theorem parse_eq_iff (u : Bytes) (x y : Url) :
    parse u x = parse u y ↔ HasPath u ∨ x.dirname = y.dirname := by
  by_cases hPath : HasPath u
  · simp [parse_of_path hPath x, parse_of_path hPath y, hPath]
  · constructor
    · intro hSame
      right
      rw [← dirname_parse hPath x, ← dirname_parse hPath y, hSame]
    · rintro (hHas | hDir)
      · exact absurd hHas hPath
      · rw [parse_of_not_path hPath x, parse_of_not_path hPath y, hDir]

/-- `"h"` parsed into an object that has read `"h/d/f"`. -/
theorem parse_after_path :
    ¬ ∀ (x y : Url) (u : Bytes), parse u x = parse u y := by
  intro hAll
  have hSame := hAll (parse "h/d/f".toUTF8.data.toList {}) {} "h".toUTF8.data.toList
  revert hSame
  decide +kernel

end Url

end Megatron.Corelib
