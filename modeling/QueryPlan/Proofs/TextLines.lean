import QueryPlan.Proofs.CatalogueText
import QueryPlan.Text.Lines

/-! Lines of texts. A text is a line after the other, so what is said of its lines is proved line by
line: either the text has no line feed, or it has a first one. -/

namespace QueryPlan.Text
variable {sep c : Char} {cs line rest : List Char} {k : Nat}

theorem split_ne_nil (sep : Char) (cs : List Char) : split sep cs ≠ [] := by
  cases cs with
  | nil => simp [split]
  | cons c cs =>
    unfold split
    split
    · exact List.cons_ne_nil _ _
    · split <;> exact List.cons_ne_nil _ _

theorem split_append (sep : Char) (cs rest : List Char) :
    split sep (cs ++ sep :: rest) = split sep cs ++ split sep rest := by
  induction cs with
  | nil => simp only [List.nil_append, split, if_true, List.singleton_append]
  | cons c cs ih =>
    obtain ⟨piece, pieces, hsplit⟩ := List.exists_cons_of_ne_nil (split_ne_nil sep cs)
    by_cases hc : c = sep
    · rw [List.cons_append, split, split, if_pos hc, if_pos hc, ih, List.cons_append]
    · rw [List.cons_append, split, split, if_neg hc, if_neg hc, ih, hsplit]
      rfl

theorem line_cases (cs : List Char) :
    '\n' ∉ cs ∨ ∃ line rest, cs = line ++ '\n' :: rest ∧ '\n' ∉ line := by
  by_cases h : '\n' ∈ cs
  · exact .inr (List.eq_append_cons_of_mem h)
  · exact .inl h

theorem lines_of_not_mem (h : '\n' ∉ cs) : lines cs = if cs = [] then [] else [cs] := by
  rw [lines, split_of_not_mem h, linesOf]

theorem lines_append (h : '\n' ∉ line) :
    lines (line ++ '\n' :: rest) = withoutReturn line :: lines rest := by
  obtain ⟨piece, pieces, hsplit⟩ := List.exists_cons_of_ne_nil (split_ne_nil '\n' rest)
  rw [lines, lines, split_append_cons h, hsplit, linesOf]
  exact List.cons_ne_nil piece pieces

theorem withoutReturn_of_getLast? (h : line.getLast? ≠ some '\r') : withoutReturn line = line :=
  if_neg h

theorem lines_flatMap {ls : List (List Char)}
    (h : ∀ line ∈ ls, '\n' ∉ line ∧ line.getLast? ≠ some '\r') :
    lines (ls.flatMap fun line => line ++ ['\n']) = ls := by
  induction ls with
  | nil => rfl
  | cons line ls ih =>
    obtain ⟨hline, hls⟩ := List.forall_mem_cons.mp h
    rw [List.flatMap_cons, List.append_assoc, List.singleton_append, lines_append hline.1,
      withoutReturn_of_getLast? hline.2, ih hls]

theorem lines_firstLines (k : Nat) (cs : List Char) :
    lines (firstLines k cs) = (lines cs).take k := by
  induction k generalizing cs with
  | zero => rfl
  | succ k ih =>
    rcases line_cases cs with h | ⟨line, rest, rfl, h⟩
    · have hall : (lines cs).length ≤ k + 1 := by
        rw [lines_of_not_mem h]
        split <;> simp
      rw [firstLines, cut_of_not_mem h, List.take_of_length_le hall]
    · rw [firstLines, cut_append_cons h]
      simp only [lines_append h, List.take_succ_cons, ih]

end QueryPlan.Text
