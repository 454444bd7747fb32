import Megatron.Http.Request
import Megatron.Lib.Loop
import Megatron.Lib.Search

/-!
# The loops over a multipart body

One loop cuts the body at the boundary, one the part into its lines, and one
`Content-Disposition` into its fields.  Every round takes something off the
text it is about, so each of them ends, whatever the text is, with what
`storeParts`, `readPart` and `pieces` say.

## Main results

* `pieces_cut`, `pieces_self` — the pieces of a text from its front on.
* `ends_fieldStep`, `ends_lineStep`, `ends_partStep` — the loops end.
-/

namespace Megatron.Http

open Megatron.Corelib (Bytes)
open Megatron.Lib

/-! ## The pieces of a text -/

section Pieces

variable {delim s p r : Bytes}

theorem length_lt_of_cut (hDelim : delim ≠ []) (h : s.dropInfix? delim = some (p, r)) :
    r.length < s.length := by
  have hPos := List.length_pos_iff.2 hDelim
  have hLength := length_of_dropInfix? h
  omega

theorem piecesFrom_nil (n : Nat) : piecesFrom delim n [] = [] := by
  cases n <;> rfl

/-- As many rounds as there are bytes are enough. -/
theorem piecesFrom_eq (hDelim : delim ≠ []) :
    ∀ (n m : Nat) (s : Bytes), s.length ≤ n → s.length ≤ m →
      piecesFrom delim n s = piecesFrom delim m s := by
  intro n
  induction n with
  | zero =>
      intro m s hn _
      rw [List.length_eq_zero_iff.1 (Nat.le_zero.1 hn), piecesFrom_nil, piecesFrom_nil]
  | succ n ih =>
      intro m s hn hm
      cases m with
      | zero =>
          rw [List.length_eq_zero_iff.1 (Nat.le_zero.1 hm), piecesFrom_nil, piecesFrom_nil]
      | succ m =>
          rw [piecesFrom, piecesFrom]
          split
          · rfl
          · cases hCut : s.dropInfix? delim with
            | none => rfl
            | some c =>
                have hLess := length_lt_of_cut hDelim hCut
                dsimp only
                rw [ih m c.2 (by omega) (by omega)]

@[simp] theorem pieces_nil : pieces delim [] = [] := rfl

theorem pieces_cut (hDelim : delim ≠ []) (h : s.dropInfix? delim = some (p, r)) :
    pieces delim s = p :: pieces delim r := by
  have hLess := length_lt_of_cut hDelim h
  have hNe : s ≠ [] := List.ne_nil_of_length_pos (by omega)
  rw [pieces, piecesFrom_eq hDelim s.length (s.length + 1) s le_rfl (Nat.le_succ _), piecesFrom,
    if_neg hNe, h]
  dsimp only
  rw [pieces, piecesFrom_eq hDelim s.length r.length r (by omega) le_rfl]

theorem pieces_self (hSome : s ≠ []) (h : s.dropInfix? delim = none) : pieces delim s = [s] := by
  obtain ⟨n, hn⟩ := Nat.exists_eq_succ_of_ne_zero (mt List.length_eq_zero_iff.1 hSome)
  rw [pieces, hn, piecesFrom, if_neg hSome, h]

/-- A round of `while(cd.size())`. -/
def fieldStep (delim : Bytes) (c : Bytes × List Bytes) : List Bytes ⊕ (Bytes × List Bytes) :=
  if c.1 = [] then .inl c.2
  else
    match c.1.dropInfix? delim with
    | none => .inr ([], c.2 ++ [c.1])
    | some (p, rest) => .inr (rest, c.2 ++ [p])

theorem ends_fieldStep (hDelim : delim ≠ []) (s : Bytes) :
    Loop.Ends (fieldStep delim) (s, []) (pieces delim s) := by
  have hRound : ∀ c, Loop.Progress (fun c : Bytes × List Bytes => c.1.length)
      (fun c => c.2 ++ pieces delim c.1) c (fieldStep delim c) := by
    intro c
    rw [fieldStep]
    split
    · rename_i hNil
      show c.2 ++ pieces delim c.1 = c.2
      rw [hNil, pieces_nil, List.append_nil]
    · rename_i hSome
      split
      · rename_i hCut
        exact ⟨List.length_pos_iff.2 hSome, by simp [pieces_self hSome hCut]⟩
      · rename_i p rest hCut
        exact ⟨length_lt_of_cut hDelim hCut, by simp [pieces_cut hDelim hCut]⟩
  simpa using Loop.ends_of_measure hRound (s, [])

end Pieces

/-! ## The lines of a part -/

theorem crlf_ne_nil : crlf ≠ [] := List.cons_ne_nil _ _

section Lines

variable {s sloc rest key val : Bytes} {lparams : OrdMap Bytes Bytes}

/-- A header line is put down. -/
theorem partLines_line (hCut : s.dropInfix? crlf = some (sloc, rest)) (hSome : sloc ≠ [])
    (hLine : sloc.dropInfix? (text ": ") = some (key, val)) (n : Nat) :
    partLines (n + 1) s lparams = partLines n rest (lparams.insert key val) := by
  rw [partLines, hCut]
  dsimp only
  rw [if_neg hSome, hLine]

/-- The empty line ends the headers. -/
theorem partLines_empty (hCut : s.dropInfix? crlf = some ([], rest)) (n : Nat) :
    partLines (n + 1) s lparams =
      some (lparams, if rest.length < 2 then rest else rest.take (rest.length - 2)) := by
  rw [partLines, hCut]
  rfl

end Lines

/-- As many rounds as there are bytes, and one, are enough. -/
theorem partLines_eq :
    ∀ (n m : Nat) (s : Bytes) (lparams : OrdMap Bytes Bytes), s.length < n → s.length < m →
      partLines n s lparams = partLines m s lparams := by
  intro n
  induction n with
  | zero => intro m s lparams hn; omega
  | succ n ih =>
      intro m s lparams hn hm
      obtain ⟨m, rfl⟩ := Nat.exists_eq_succ_of_ne_zero (Nat.ne_of_gt (Nat.zero_lt_of_lt hm))
      rw [partLines, partLines]
      cases hCut : s.dropInfix? crlf with
      | none => rfl
      | some c =>
          have hLess := length_lt_of_cut crlf_ne_nil hCut
          dsimp only
          split
          · rfl
          · cases hLine : c.1.dropInfix? (text ": ") with
            | none => rfl
            | some kv => exact ih m c.2 _ (by omega) (by omega)

/-- A round of `while (1)`; `none` is `bad multipart`. -/
def lineStep (c : Bytes × OrdMap Bytes Bytes) :
    Option (OrdMap Bytes Bytes × Bytes) ⊕ (Bytes × OrdMap Bytes Bytes) :=
  match c.1.dropInfix? crlf with
  | none => .inl none
  | some (sloc, rest) =>
      if sloc = [] then
        .inl (some (c.2, if rest.length < 2 then rest else rest.take (rest.length - 2)))
      else
        match sloc.dropInfix? (text ": ") with
        | none => .inl none
        | some (key, val) => .inr (rest, c.2.insert key val)

theorem ends_lineStep (s : Bytes) : Loop.Ends lineStep (s, ∅) (readPart s) := by
  have hRound : ∀ c, Loop.Progress (fun c : Bytes × OrdMap Bytes Bytes => c.1.length)
      (fun c => partLines (c.1.length + 1) c.1 c.2) c (lineStep c) := by
    intro c
    rw [lineStep]
    cases hCut : c.1.dropInfix? crlf with
    | none =>
        show partLines (c.1.length + 1) c.1 c.2 = none
        rw [partLines, hCut]
    | some cut =>
        dsimp only
        by_cases hEmpty : cut.1 = []
        · rw [if_pos hEmpty]
          have hEnd : c.1.dropInfix? crlf = some ([], cut.2) := by rw [hCut, ← hEmpty]
          exact partLines_empty hEnd c.1.length
        · rw [if_neg hEmpty]
          cases hLine : cut.1.dropInfix? (text ": ") with
          | none =>
              show partLines (c.1.length + 1) c.1 c.2 = none
              rw [partLines, hCut]
              dsimp only
              rw [if_neg hEmpty, hLine]
          | some kv =>
              have hLess := length_lt_of_cut crlf_ne_nil hCut
              refine ⟨hLess, ?_⟩
              dsimp only
              rw [partLines_line hCut hEmpty hLine]
              exact partLines_eq _ _ _ _ (Nat.lt_succ_self _) hLess
  exact Loop.ends_of_measure hRound (s, ∅)

/-! ## The parts of a body -/

/-- A round of `while (sbuf.size())`. -/
def partStep (bound : Bytes) (c : Bytes × Request) : Outcome ⊕ (Bytes × Request) :=
  if c.1 = [] then .inl ⟨c.2, .passed⟩
  else
    let (s, sbuf) := (c.1.dropInfix? bound).getD (c.1, [])
    if skipCrlf s = [] then .inr (sbuf, c.2)
    else
      match readPart (skipCrlf s) with
      | none => .inl ⟨c.2, .returned⟩
      | some (lparams, content) => .inr (sbuf, storePart c.2 lparams content)

/-- What a round cuts off is the first of the pieces. -/
theorem pieces_getD {bound s : Bytes} (hBound : bound ≠ []) (hSome : s ≠ []) :
    pieces bound s = ((s.dropInfix? bound).getD (s, [])).1 ::
        pieces bound ((s.dropInfix? bound).getD (s, [])).2 ∧
      ((s.dropInfix? bound).getD (s, [])).2.length < s.length := by
  cases hCut : s.dropInfix? bound with
  | none =>
      rw [pieces_self hSome hCut]
      exact ⟨rfl, List.length_pos_iff.2 hSome⟩
  | some c => exact ⟨pieces_cut hBound hCut, length_lt_of_cut hBound hCut⟩

theorem ends_partStep {bound : Bytes} (hBound : bound ≠ []) (sbuf : Bytes) (w : Request) :
    Loop.Ends (partStep bound) (sbuf, w) (storeParts (pieces bound sbuf) w) := by
  have hRound : ∀ c, Loop.Progress (fun c : Bytes × Request => c.1.length)
      (fun c => storeParts (pieces bound c.1) c.2) c (partStep bound c) := by
    intro c
    rw [partStep]
    by_cases hNil : c.1 = []
    · rw [if_pos hNil]
      show storeParts (pieces bound c.1) c.2 = ⟨c.2, .passed⟩
      rw [hNil]
      rfl
    · obtain ⟨hPieces, hLess⟩ := pieces_getD hBound hNil
      rw [if_neg hNil]
      dsimp only
      split
      · rename_i hPart
        refine ⟨hLess, ?_⟩
        dsimp only
        rw [hPieces, storeParts, if_pos hPart]
      · rename_i hPart
        cases hRead : readPart (skipCrlf ((c.1.dropInfix? bound).getD (c.1, [])).1) with
        | none =>
            show storeParts (pieces bound c.1) c.2 = ⟨c.2, .returned⟩
            rw [hPieces, storeParts, if_neg hPart, hRead]
        | some part =>
            refine ⟨hLess, ?_⟩
            dsimp only
            rw [hPieces, storeParts, if_neg hPart, hRead]
  exact Loop.ends_of_measure hRound (sbuf, w)

end Megatron.Http
