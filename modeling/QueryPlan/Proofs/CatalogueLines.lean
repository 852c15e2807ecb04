import QueryPlan.Proofs.Outcome
import QueryPlan.Proofs.TextLines

/-! What a catalogue text is read from: its significant lines without the white space around them.
The other lines are only counted, so that an error has the number of its line; up to that line the
text is read without an error, and what follows it is not read. -/

namespace QueryPlan
open Outcome

def SourceError.unnumbered : SourceError → SourceError
  | .line _ f => .line 0 f
  | e => e

namespace Catalogue

def LineError.onLine (number : Nat) : LineError → SourceError
  | .malformed f => .line number f
  | .refused e => .plan e

def Skipped (line : List Char) : Prop := line = [] ∨ line.head? = some '#'

instance (line : List Char) : Decidable (Skipped line) := inferInstanceAs (Decidable (_ ∨ _))

def significant (cs : List Char) : List (List Char) :=
  ((Text.lines cs).map trim).filter fun line => ¬ Skipped line

def StartsLine (before : List Char) : Prop := before = [] ∨ ∃ front, before = front ++ ['\n']

def EndsLine (after : List Char) : Prop := after = [] ∨ ∃ rest, after = '\n' :: rest

/-- The second text has one more line that is blank or a comment, or more white space at the start
or the end of a line, such as the carriage return before a line feed. -/
inductive Padded : List Char → List Char → Prop
  | line {before line after : List Char} (hb : StartsLine before) (hn : '\n' ∉ line)
      (hs : Skipped (trim line)) :
      Padded (before ++ after) (before ++ (line ++ '\n' :: after))
  | front {before after : List Char} {c : Char} (hb : StartsLine before)
      (hc : Text.isBlank c = true) (hn : c ≠ '\n') : Padded (before ++ after) (before ++ c :: after)
  | back {before after : List Char} {c : Char} (ha : EndsLine after)
      (hc : Text.isBlank c = true) (hn : c ≠ '\n') : Padded (before ++ after) (before ++ c :: after)
  | ending (cs : List Char) : Padded cs (cs ++ ['\n'])

variable {c d : Catalogue} {n number : Nat} {line before after cs : List Char}
  {ls earlier later : List (List Char)} {f : LineFault} {b : Char}

theorem trim_cons_blank (h : Text.isBlank b = true) (cs : List Char) :
    trim (b :: cs) = trim cs := by
  have hstart : Text.trimStart (b :: cs) = Text.trimStart cs := List.dropWhile_cons_of_pos h
  rw [trim, trim, hstart]

theorem trimEnd_append_blank (h : Text.isBlank b = true) (cs : List Char) :
    Text.trimEnd (cs ++ [b]) = Text.trimEnd cs := by
  have hlast : (cs ++ [b]).reverse = b :: cs.reverse := by
    rw [List.reverse_append, List.reverse_singleton, List.singleton_append]
  rw [Text.trimEnd, Text.trimEnd, hlast, List.dropWhile_cons_of_pos h]

theorem trim_append_blank (h : Text.isBlank b = true) (cs : List Char) :
    trim (cs ++ [b]) = trim cs := by
  unfold trim Text.trimStart
  rw [List.dropWhile_append]
  split
  · next hall =>
    have hnil : cs.dropWhile Text.isBlank = [] := List.isEmpty_iff.mp hall
    have hblank : [b].dropWhile Text.isBlank = [] := List.dropWhile_cons_of_pos h
    rw [hnil, hblank]
  · exact trimEnd_append_blank h _

theorem trim_withoutReturn (line : List Char) : trim (Text.withoutReturn line) = trim line := by
  unfold Text.withoutReturn
  split
  · next hlast =>
    obtain ⟨front, rfl⟩ := List.getLast?_eq_some_iff.mp hlast
    have hreturn : Text.isBlank '\r' = true := by decide
    rw [List.dropLast_concat, trim_append_blank hreturn]
  · rfl

theorem isSignificant_iff : isSignificant line = true ↔ ¬ Skipped line := by
  cases line <;> simp [isSignificant, Skipped]

theorem filter_linesOf (pieces : List (List Char)) :
    ((Text.linesOf pieces).map trim).filter isSignificant =
      (pieces.map trim).filter isSignificant := by
  induction pieces using Text.linesOf.induct with
  | case1 => rfl
  | case2 => rfl
  | case3 last hlast => rw [Text.linesOf, if_neg hlast]
  | case4 piece rest hrest ih =>
    rw [Text.linesOf, List.map_cons, List.map_cons, trim_withoutReturn, List.filter_cons,
      List.filter_cons, ih]
    exact hrest

theorem significant_eq (cs : List Char) :
    significant cs = ((Text.lines cs).map trim).filter isSignificant := by
  apply List.filter_congr
  intro line _
  rw [Bool.eq_iff_iff, decide_eq_true_iff, isSignificant_iff]

theorem significant_append (cs rest : List Char) :
    significant (cs ++ '\n' :: rest) = significant cs ++ significant rest := by
  simp only [significant_eq, Text.lines, filter_linesOf, Text.split_append, List.map_append,
    List.filter_append]

theorem significant_of_not_mem (h : '\n' ∉ line) :
    significant line = [trim line].filter isSignificant := by
  rw [significant_eq, Text.lines, filter_linesOf, Text.split_of_not_mem h, List.map_singleton]

theorem significant_nil : significant [] = [] := rfl

theorem StartsLine.significant (h : StartsLine before) (cs : List Char) :
    significant (before ++ cs) = Catalogue.significant before ++ Catalogue.significant cs := by
  rcases h with rfl | ⟨front, rfl⟩
  · rfl
  · rw [List.append_assoc, List.singleton_append, significant_append, significant_append,
      significant_nil, List.append_nil]

theorem EndsLine.significant (h : EndsLine after) (cs : List Char) :
    significant (cs ++ after) = Catalogue.significant cs ++ Catalogue.significant after := by
  rcases h with rfl | ⟨rest, rfl⟩
  · rw [List.append_nil, significant_nil, List.append_nil]
  · have hstart := significant_append [] rest
    rw [List.nil_append, significant_nil, List.nil_append] at hstart
    rw [significant_append, hstart]

theorem exists_endsLine (cs : List Char) :
    ∃ line after, cs = line ++ after ∧ '\n' ∉ line ∧ EndsLine after := by
  rcases Text.line_cases cs with h | ⟨line, rest, hcs, h⟩
  · exact ⟨cs, [], (List.append_nil cs).symm, h, .inl rfl⟩
  · exact ⟨line, '\n' :: rest, hcs, h, .inr ⟨rest, rfl⟩⟩

theorem exists_startsLine (cs : List Char) :
    ∃ before line, cs = before ++ line ∧ '\n' ∉ line ∧ StartsLine before := by
  by_cases h : '\n' ∈ cs.reverse
  · obtain ⟨line, front, hcs, hline⟩ := List.eq_append_cons_of_mem h
    have hcs : cs = (front.reverse ++ ['\n']) ++ line.reverse := by
      rw [← List.reverse_reverse cs, hcs, List.reverse_append, List.reverse_cons]
    exact ⟨_, line.reverse, hcs, mt List.mem_reverse.mp hline, .inr ⟨front.reverse, rfl⟩⟩
  · exact ⟨[], cs, rfl, mt List.mem_reverse.mpr h, .inl rfl⟩

theorem significant_cons_blank (h : Text.isBlank b = true) (hn : b ≠ '\n') (cs : List Char) :
    significant (b :: cs) = significant cs := by
  obtain ⟨line, after, rfl, hline, hafter⟩ := exists_endsLine cs
  have hcons : '\n' ∉ b :: line := by
    simp only [List.mem_cons, not_or]
    exact ⟨hn.symm, hline⟩
  rw [← List.cons_append, hafter.significant, hafter.significant, significant_of_not_mem hline,
    significant_of_not_mem hcons, trim_cons_blank h]

theorem significant_append_blank (h : Text.isBlank b = true) (hn : b ≠ '\n') (cs : List Char) :
    significant (cs ++ [b]) = significant cs := by
  obtain ⟨before, line, rfl, hline, hbefore⟩ := exists_startsLine cs
  have hconcat : '\n' ∉ line ++ [b] := by
    simp only [List.mem_append, List.mem_singleton, not_or]
    exact ⟨hline, hn.symm⟩
  rw [List.append_assoc, hbefore.significant, hbefore.significant, significant_of_not_mem hline,
    significant_of_not_mem hconcat, trim_append_blank h]

theorem Padded.significant (h : Padded before after) :
    Catalogue.significant after = Catalogue.significant before := by
  cases h with
  | @line before line after hb hn hs =>
    have hnone : Catalogue.significant line = [] := by
      rw [significant_of_not_mem hn]
      exact List.filter_cons_of_neg (mt isSignificant_iff.mp (not_not.mpr hs))
    rw [hb.significant, hb.significant, significant_append, hnone, List.nil_append]
  | front hb hc hn => rw [hb.significant, hb.significant, significant_cons_blank hc hn]
  | @back before after c ha hc hn =>
    rw [List.append_cons, ha.significant, ha.significant, significant_append_blank hc hn]
  | ending cs =>
    rw [significant_append, significant_nil, List.append_nil]

def readTrimmed (c : Catalogue) (number : Nat) (line : List Char) : Except SourceError Catalogue :=
  if isSignificant (trim line) then (c.readLine (trim line)).mapError (LineError.onLine number)
  else .ok c

theorem readLines_cons (c : Catalogue) (number : Nat) (line : List Char) (ls : List (List Char)) :
    c.readLines number (line :: ls) =
      c.readTrimmed number line >>= fun d => d.readLines (number + 1) ls := by
  rw [readLines, readTrimmed]
  split
  · cases c.readLine (trim line) with
    | ok d => rfl
    | error e => cases e <;> rfl
  · rfl

theorem readLines_append (c : Catalogue) (number : Nat) (earlier later : List (List Char)) :
    c.readLines number (earlier ++ later) =
      c.readLines number earlier >>= fun d => d.readLines (number + earlier.length) later := by
  induction earlier generalizing c number with
  | nil => rfl
  | cons line earlier ih =>
    have hlength : number + 1 + earlier.length = number + (earlier.length + 1) := by omega
    simp only [List.cons_append, readLines_cons, bind_assoc, ih, List.length_cons, hlength]

theorem readLines_linesOf (c : Catalogue) (number : Nat) (pieces : List (List Char)) :
    c.readLines number (Text.linesOf pieces) = c.readLines number pieces := by
  induction pieces using Text.linesOf.induct generalizing c number with
  | case1 => rfl
  | case2 => rfl
  | case3 last hlast => rw [Text.linesOf, if_neg hlast]
  | case4 piece rest hrest ih =>
    rw [Text.linesOf, readLines_cons, readLines_cons, readTrimmed, readTrimmed, trim_withoutReturn]
    · exact bind_congr fun d => ih d (number + 1)
    · exact hrest

theorem ofText_eq (src : String) : ofText src = empty.readLines 1 (Text.lines src.toList) := by
  rw [ofText, Text.lines, readLines_linesOf]

/-- Up to the number of a line in its error, reading is a fold over the significant lines. -/
theorem readLines_unnumbered (c : Catalogue) (number : Nat) (ls : List (List Char)) :
    (c.readLines number ls).mapError SourceError.unnumbered =
      (((ls.map trim).filter isSignificant).foldlM readLine c).mapError (LineError.onLine 0) := by
  induction ls generalizing c number with
  | nil => rfl
  | cons line ls ih =>
    rw [readLines_cons, readTrimmed, List.map_cons]
    split
    · next hs =>
      rw [List.filter_cons_of_pos hs, List.foldlM_cons]
      cases c.readLine (trim line) with
      | ok d => exact ih d (number + 1)
      | error e => cases e <;> rfl
    · next hs =>
      rw [List.filter_cons_of_neg hs]
      exact ih c (number + 1)

theorem readTrimmed_eq_line (h : c.readTrimmed number line = .error (.line n f)) :
    n = number ∧ isSignificant (trim line) = true := by
  unfold readTrimmed at h
  split at h
  · next hs =>
    refine ⟨?_, hs⟩
    cases hread : c.readLine (trim line) with
    | ok d => simp [hread, Except.mapError] at h
    | error e =>
      cases e with
      | malformed f =>
        simp only [hread, Except.mapError, LineError.onLine, Except.error.injEq,
          SourceError.line.injEq] at h
        exact h.1.symm
      | refused e => simp [hread, Except.mapError, LineError.onLine] at h
  · cases h

theorem readLines_eq_line (h : c.readLines number ls = .error (.line n f)) :
    ∃ earlier line later d, ls = earlier ++ line :: later ∧ n = number + earlier.length ∧
      isSignificant (trim line) = true ∧ c.readLines number earlier = .ok d ∧
        d.readTrimmed n line = .error (.line n f) := by
  induction ls generalizing c number with
  | nil => cases h
  | cons line ls ih =>
    rw [readLines_cons] at h
    rcases bind_eq_error.mp h with h | ⟨d, hd, h⟩
    · obtain ⟨rfl, hs⟩ := readTrimmed_eq_line h
      exact ⟨[], line, ls, c, rfl, rfl, hs, rfl, h⟩
    · obtain ⟨earlier, bad, later, d', rfl, rfl, hs, hread, hbad⟩ := ih h
      have hlength : number + 1 + earlier.length = number + (earlier.length + 1) := by omega
      refine ⟨line :: earlier, bad, later, d', rfl, hlength, hs, ?_, hbad⟩
      rw [readLines_cons, hd, ok_bind, hread]

def beginning (k : Nat) (src : String) : String := String.ofList (Text.firstLines k src.toList)

theorem ofText_beginning (k : Nat) (src : String) :
    ofText (beginning k src) = empty.readLines 1 ((Text.lines src.toList).take k) := by
  rw [ofText_eq, beginning, String.toList_ofList, Text.lines_firstLines]

theorem ofText_unnumbered {a b : String} (h : significant a.toList = significant b.toList) :
    (ofText a).mapError SourceError.unnumbered = (ofText b).mapError SourceError.unnumbered := by
  rw [ofText_eq, ofText_eq, readLines_unnumbered, readLines_unnumbered, ← significant_eq, h,
    significant_eq]

theorem ofText_eq_line {src : String} (h : ofText src = .error (.line n f)) :
    (∃ line, 0 < n ∧ (Text.lines src.toList)[n - 1]? = some line ∧ ¬ Skipped (trim line)) ∧
    (∃ d, ofText (beginning (n - 1) src) = .ok d) ∧
    ofText (beginning n src) = .error (.line n f) := by
  rw [ofText_eq] at h
  obtain ⟨earlier, line, later, d, hlines, rfl, hs, hread, hbad⟩ := readLines_eq_line h
  have hpred : 1 + earlier.length - 1 = earlier.length := by omega
  have hbefore : (earlier ++ line :: later).take earlier.length = earlier := List.take_left
  have hupto : (earlier ++ line :: later).take (1 + earlier.length) = earlier ++ [line] := by
    rw [Nat.add_comm, List.take_length_add_append]
    rfl
  refine ⟨⟨line, by omega, ?_, isSignificant_iff.mp hs⟩, ⟨d, ?_⟩, ?_⟩
  · rw [hpred, hlines, List.getElem?_append_right (Nat.le_refl _), Nat.sub_self]
    rfl
  · rw [ofText_beginning, hpred, hlines, hbefore, hread]
  · rw [ofText_beginning, hlines, hupto, readLines_append, hread, ok_bind, readLines_cons, hbad]
    rfl

/-- Reading a text gives what reading its significant lines gives, save for the line number of an
error; padding the text changes none of them. An error names a significant line: the lines before it
are read, and together with it they fail in the same way. -/
theorem ofText_significant :
    (∀ a b : String, significant a.toList = significant b.toList →
      (ofText a).mapError SourceError.unnumbered = (ofText b).mapError SourceError.unnumbered) ∧
    (∀ a b : String, Padded a.toList b.toList →
      (ofText a).mapError SourceError.unnumbered = (ofText b).mapError SourceError.unnumbered) ∧
    ∀ (src : String) (n : Nat) (f : LineFault), ofText src = .error (.line n f) →
      (∃ line, 0 < n ∧ (Text.lines src.toList)[n - 1]? = some line ∧ ¬ Skipped (trim line)) ∧
      (∃ d, ofText (beginning (n - 1) src) = .ok d) ∧
      ofText (beginning n src) = .error (.line n f) := by
  refine ⟨fun a b h => ofText_unnumbered h, fun a b h => ?_, fun src n f h => ofText_eq_line h⟩
  exact ofText_unnumbered h.significant.symm

def sampleText : String := "# company\n\r\n A:1:x:1\r\nB:ten\nB:2"

theorem ofText_significant_sample :
    (ofText "A:1:x:1\n").mapError SourceError.unnumbered =
      (ofText "# one\r\n \tA:1:x:1 \r\n\r\n# end").mapError SourceError.unnumbered ∧
    (ofText "A:1\nB:2").mapError SourceError.unnumbered =
      (ofText "A:1\n # two\nB:2").mapError SourceError.unnumbered ∧
    ofText sampleText = .error (.line 4 (.notACount "ten")) ∧
    beginning 3 sampleText = "# company\n\r\n A:1:x:1\r\n" ∧
    (∃ d, ofText (beginning 3 sampleText) = .ok d) ∧
    ofText (beginning 4 sampleText) = .error (.line 4 (.notACount "ten")) := by
  have hpadded : Padded "A:1\nB:2".toList "A:1\n # two\nB:2".toList :=
    @Padded.line "A:1\n".toList " # two".toList "B:2".toList (.inr ⟨"A:1".toList, rfl⟩)
      (by decide) (by decide)
  have herror : ofText sampleText = .error (.line 4 (.notACount "ten")) := by rfl
  have hbeginning : beginning 3 sampleText = "# company\n\r\n A:1:x:1\r\n" := by rfl
  obtain ⟨hlines, hpad, hline⟩ := ofText_significant
  obtain ⟨-, hbefore, hupto⟩ := hline _ _ _ herror
  exact ⟨hlines _ _ (by decide), hpad _ _ hpadded, herror, hbeginning, hbefore, hupto⟩

end Catalogue
end QueryPlan
