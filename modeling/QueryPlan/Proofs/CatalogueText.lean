import QueryPlan.Catalogue.Text
import QueryPlan.Catalogue.Definition
import QueryPlan.Proofs.Registration
import Mathlib.Data.List.Basic
import Mathlib.Data.List.TakeWhile

/-! A written catalogue is read back as the list of definitions it was written from. Each level of
the format has a separator that no piece at that level contains, and each piece begins and ends with
a character that is not white space; so cutting undoes joining, and trimming changes nothing. -/

namespace QueryPlan

namespace Text

section Separators
variable {sep : Char} {piece rest : List Char} {pieces : List (List Char)}

theorem cut_of_not_mem (h : sep ∉ piece) : cut sep piece = (piece, none) := by
  have hne : ∀ c ∈ piece, (c != sep) = true := fun c hc => bne_iff_ne.mpr fun e => h (e ▸ hc)
  rw [cut, List.takeWhile_eq_self_iff.mpr hne, List.dropWhile_eq_nil_iff.mpr hne]

theorem cut_append_cons (h : sep ∉ piece) : cut sep (piece ++ sep :: rest) = (piece, some rest) := by
  have hne : ∀ c ∈ piece, (c != sep) = true := fun c hc => bne_iff_ne.mpr fun e => h (e ▸ hc)
  rw [cut, List.takeWhile_append_of_pos hne, List.dropWhile_append_of_pos hne]
  simp

theorem split_of_not_mem (h : sep ∉ piece) : split sep piece = [piece] := by
  induction piece with
  | nil => rfl
  | cons c piece ih =>
    obtain ⟨hc, hpiece⟩ := not_or.mp (mt List.mem_cons.mpr h)
    rw [split, if_neg (Ne.symm hc), ih hpiece]

theorem split_append_cons (h : sep ∉ piece) :
    split sep (piece ++ sep :: rest) = piece :: split sep rest := by
  induction piece with
  | nil => rw [List.nil_append, split, if_pos rfl]
  | cons c piece ih =>
    obtain ⟨hc, hpiece⟩ := not_or.mp (mt List.mem_cons.mpr h)
    rw [List.cons_append, split, if_neg (Ne.symm hc), ih hpiece]

theorem split_intercalate (hne : pieces ≠ []) (h : ∀ p ∈ pieces, sep ∉ p) :
    split sep (List.intercalate [sep] pieces) = pieces := by
  induction pieces with
  | nil => exact absurd rfl hne
  | cons p pieces ih =>
    obtain ⟨hp, hpieces⟩ := List.forall_mem_cons.mp h
    cases pieces with
    | nil => rw [List.intercalate_singleton, split_of_not_mem hp]
    | cons q pieces =>
      rw [List.intercalate_cons_cons, List.append_assoc, List.singleton_append,
        split_append_cons hp, ih (List.cons_ne_nil q pieces) hpieces]

theorem split_flatMap (h : ∀ p ∈ pieces, sep ∉ p) :
    split sep (pieces.flatMap fun p => p ++ [sep]) = pieces ++ [[]] := by
  induction pieces with
  | nil => rfl
  | cons p pieces ih =>
    obtain ⟨hp, hpieces⟩ := List.forall_mem_cons.mp h
    rw [List.flatMap_cons, List.append_assoc, List.singleton_append, split_append_cons hp,
      ih hpieces, List.cons_append]

theorem mem_of_mem_intercalate {c : Char} {sep : List Char} (h : c ∈ List.intercalate sep pieces) :
    c ∈ sep ∨ ∃ p ∈ pieces, c ∈ p := by
  induction pieces with
  | nil => cases h
  | cons p pieces ih =>
    cases pieces with
    | nil =>
      rw [List.intercalate_singleton] at h
      exact .inr ⟨p, List.mem_cons_self, h⟩
    | cons q pieces =>
      rw [List.intercalate_cons_cons, List.mem_append, List.mem_append] at h
      rcases h with (hp | hsep) | hrest
      · exact .inr ⟨p, List.mem_cons_self, hp⟩
      · exact .inl hsep
      · refine (ih hrest).imp_right fun ⟨r, hr, hc⟩ => ?_
        exact ⟨r, List.mem_cons_of_mem p hr, hc⟩

theorem exists_intercalate_eq_append (sep : Char) (hne : pieces ≠ []) :
    ∃ front, ∃ p ∈ pieces, List.intercalate [sep] pieces = front ++ p := by
  induction pieces with
  | nil => exact absurd rfl hne
  | cons p pieces ih =>
    cases pieces with
    | nil => exact ⟨[], p, List.mem_cons_self, List.intercalate_singleton⟩
    | cons q pieces =>
      obtain ⟨front, r, hr, h⟩ := ih (List.cons_ne_nil q pieces)
      refine ⟨p ++ [sep] ++ front, r, List.mem_cons_of_mem p hr, ?_⟩
      rw [List.intercalate_cons_cons, h, ← List.append_assoc]

end Separators

theorem isBlank_of_isDigit {c : Char} (h : isDigit c = true) : isBlank c = false := by
  have hrange : '0' ≤ c ∧ c ≤ '9' := by simpa [isDigit] using h
  have hlow : 48 ≤ c.toNat := hrange.1
  have hhigh : c.toNat ≤ 57 := hrange.2
  simp only [isBlank, blankRuns, List.any_cons, List.any_nil, Bool.or_false]
  simp only [Bool.or_eq_false_iff, Bool.and_eq_false_iff, decide_eq_false_iff_not]
  omega

end Text

namespace Catalogue

theorem trim_eq {cs : List Char} (hhead : ∀ c ∈ cs.head?, Text.isBlank c = false)
    (hlast : ∀ c ∈ cs.getLast?, Text.isBlank c = false) : trim cs = cs := by
  have hstart : Text.trimStart cs = cs := by
    cases cs with
    | nil => rfl
    | cons c cs => exact List.dropWhile_cons_of_neg (by simp [hhead c rfl])
  have hend : cs.reverse.dropWhile Text.isBlank = cs.reverse := by
    rw [← List.head?_reverse] at hlast
    cases h : cs.reverse with
    | nil => rfl
    | cons c rest => exact List.dropWhile_cons_of_neg (by simp [hlast c (by rw [h]; rfl)])
  rw [trim, hstart, Text.trimEnd, hend, List.reverse_reverse]

end Catalogue

namespace Count
variable {n : Count} {c : Char}

theorem isDigit_of_mem_digits (h : c ∈ n.digits) : Text.isDigit c = true :=
  Text.isDigit_of_mem_toDigits h

theorem digits_ne_nil (n : Count) : n.digits ≠ [] := Nat.toDigits_ne_nil

theorem not_mem_digits (h : Text.isDigit c = false) : c ∉ n.digits := by
  intro hc
  rw [isDigit_of_mem_digits hc] at h
  cases h

theorem not_blank_of_getLast? (front : List Char) (h : c ∈ (front ++ n.digits).getLast?) :
    Text.isBlank c = false := by
  rw [List.getLast?_append_of_ne_nil _ n.digits_ne_nil] at h
  exact Text.isBlank_of_isDigit (isDigit_of_mem_digits (List.mem_of_getLast? h))

theorem ofText?_digits (n : Count) : ofText? n.digits = some n := by
  have hvalue : (Text.decimal? n.digits).bind ofNat? = some n := by
    rw [digits, Text.decimal?_toDigits]
    exact ofNat?_eq_some.mpr rfl
  have hplus : ∀ ds, n.digits ≠ '+' :: ds := by
    intro ds h
    exact not_mem_digits (by decide : Text.isDigit '+' = false) (h ▸ List.mem_cons_self)
  rw [ofText?]
  · exact hvalue
  · exact hplus

end Count

namespace Bare
variable {name rest : List Char}

theorem trim_eq (h : Bare name) : Catalogue.trim name = name :=
  Catalogue.trim_eq h.head_not_blank h.last_not_blank

theorem head_append (h : Bare name) : (name ++ rest).head? = name.head? := by
  cases name with
  | nil => exact absurd rfl h.ne_nil
  | cons c name => rfl

end Bare

namespace Catalogue
open Definition
variable {c : Catalogue} {a : String × Count} {as : List (String × Count)} {d : Definition}
  {ds : List Definition}

theorem readCount_digits (n : Count) : readCount n.digits = .ok n := by
  have hhead : ∀ x ∈ n.digits.head?, Text.isBlank x = false := fun x hx =>
    Text.isBlank_of_isDigit (Count.isDigit_of_mem_digits (List.mem_of_head? hx))
  have hlast : ∀ x ∈ n.digits.getLast?, Text.isBlank x = false := fun x hx =>
    Count.not_blank_of_getLast? [] hx
  rw [readCount, trim_eq hhead hlast, Count.ofText?_digits]

theorem trim_entry (h : Bare a.1.toList) : trim (entry a) = entry a := by
  refine trim_eq ?_ ?_
  · rw [entry, h.head_append]
    exact h.head_not_blank
  · intro x hx
    rw [entry, List.append_cons] at hx
    exact Count.not_blank_of_getLast? _ hx

theorem readEntry_entry (relation : String) (c : Catalogue) (h : Bare a.1.toList) :
    readEntry relation c (entry a) = refuse (c.createAttribute relation a.1 a.2) := by
  obtain ⟨x, xs, hname⟩ := List.exists_cons_of_ne_nil h.ne_nil
  have hcut : Text.cut ':' (entry a) = (a.1.toList, some a.2.digits) :=
    Text.cut_append_cons h.no_colon
  have hentry : entry a = x :: (xs ++ ':' :: a.2.digits) := by
    rw [entry, hname, List.cons_append]
  have hread : String.ofList (x :: xs) = a.1 := by rw [← hname, String.ofList_toList]
  rw [readEntry, trim_entry h, hentry]
  rw [hentry, hname] at hcut
  have htrim := h.trim_eq
  rw [hname] at htrim
  simp only [hcut, htrim, readCount_digits, hread]
  rfl

theorem refuse_bind {α β : Type} (x : Except PlanError α) (f : α → Except PlanError β) :
    refuse (x >>= f) = refuse x >>= fun a => refuse (f a) := by
  cases x <;> rfl

theorem foldlM_readEntry (relation : String) (c : Catalogue) (h : ∀ a ∈ as, Bare a.1.toList) :
    (as.map entry).foldlM (readEntry relation) c =
      refuse (as.foldlM (fun c (name, n) => c.createAttribute relation name n) c) := by
  induction as generalizing c with
  | nil => rfl
  | cons a as ih =>
    obtain ⟨ha, has⟩ := List.forall_mem_cons.mp h
    rw [List.map_cons, List.foldlM_cons, List.foldlM_cons, readEntry_entry relation c ha,
      refuse_bind]
    exact bind_congr fun c => ih c has

theorem comma_not_mem_entry (h : ',' ∉ a.1.toList) : ',' ∉ entry a := by
  have hdigits : ',' ∉ a.2.digits := Count.not_mem_digits (by decide)
  simp [entry, h, hdigits]

theorem split_entries (hne : as ≠ []) (h : ∀ a ∈ as, ',' ∉ a.1.toList) :
    Text.split ',' (List.intercalate [','] (as.map entry)) = as.map entry := by
  refine Text.split_intercalate (mt List.map_eq_nil_iff.mp hne) fun p hp => ?_
  obtain ⟨a, ha, rfl⟩ := List.mem_map.mp hp
  exact comma_not_mem_entry (h a ha)

theorem readLine_line (c : Catalogue) (h : d.Writable) :
    readLine c d.line = refuse (c.define d) := by
  obtain ⟨x, xs, hcons⟩ := List.exists_cons_of_ne_nil h.name_bare.ne_nil
  have hcut : Text.cut ':' d.line = (x :: xs, some (d.tuples.digits ++ entries d.attributes)) :=
    hcons ▸ Text.cut_append_cons h.name_bare.no_colon
  have htrim : trim (x :: xs) = x :: xs := hcons ▸ h.name_bare.trim_eq
  have hname : String.ofList (x :: xs) = d.name := by rw [← hcons, String.ofList_toList]
  have hcolon : ':' ∉ d.tuples.digits := Count.not_mem_digits (by decide)
  rw [readLine, hcut, define, refuse_bind]
  simp only [htrim, hname]
  cases has : d.attributes with
  | nil =>
    rw [entries, List.append_nil, Text.cut_of_not_mem hcolon]
    simp only [readCount_digits]
    rfl
  | cons a as =>
    have hne : d.attributes ≠ [] := has ▸ List.cons_ne_nil a as
    have hentries := fun c => foldlM_readEntry d.name c h.attribute_bare
    have hsplit := split_entries hne h.attribute_no_comma
    rw [has] at hentries hsplit
    rw [entries, Text.cut_append_cons hcolon]
    · simp only [readCount_digits, hsplit, hentries]
      rfl
    · exact List.cons_ne_nil a as

theorem exists_line_eq_append (d : Definition) :
    ∃ (front : List Char) (n : Count), d.line = front ++ n.digits := by
  cases has : d.attributes with
  | nil => exact ⟨d.name.toList ++ [':'], d.tuples, by simp [line, has, entries]⟩
  | cons a as =>
    have hne : (a :: as).map entry ≠ [] := List.cons_ne_nil (entry a) (as.map entry)
    obtain ⟨front, p, hp, h⟩ := Text.exists_intercalate_eq_append ',' hne
    obtain ⟨b, -, rfl⟩ := List.mem_map.mp hp
    refine ⟨d.name.toList ++ ':' :: (d.tuples.digits ++ ':' :: (front ++ b.1.toList ++ [':'])), b.2, ?_⟩
    rw [line, has, entries, h]
    · simp [entry]
    · exact List.cons_ne_nil a as

theorem trim_line (h : d.Writable) : trim d.line = d.line := by
  refine trim_eq ?_ ?_
  · rw [line, h.name_bare.head_append]
    exact h.name_bare.head_not_blank
  · intro x hx
    obtain ⟨front, n, hline⟩ := exists_line_eq_append d
    rw [hline] at hx
    exact Count.not_blank_of_getLast? _ hx

theorem isSignificant_line (h : d.Writable) : isSignificant d.line = true := by
  have hhead : d.line.head? = d.name.toList.head? := h.name_bare.head_append
  have hcomment := h.name_not_comment
  obtain ⟨x, xs, hcons⟩ := List.exists_cons_of_ne_nil h.name_bare.ne_nil
  rw [← hhead] at hcomment
  cases hline : d.line with
  | nil => rw [hline, hcons] at hhead; cases hhead
  | cons y ys =>
    rw [hline] at hcomment
    exact bne_iff_ne.mpr fun e => hcomment (congrArg some e)

theorem lineFeed_not_mem_entries (h : ∀ a ∈ as, Bare a.1.toList) : '\n' ∉ entries as := by
  intro hmem
  rw [entries.eq_def] at hmem
  split at hmem
  · cases hmem
  · next as _ =>
    rcases List.mem_cons.mp hmem with hcolon | hmem
    · exact absurd hcolon (by decide)
    rcases Text.mem_of_mem_intercalate hmem with hcomma | ⟨p, hp, hmem⟩
    · exact absurd hcomma (by decide)
    obtain ⟨a, ha, rfl⟩ := List.mem_map.mp hp
    have hdigits : '\n' ∉ a.2.digits := Count.not_mem_digits (by decide)
    simp [entry, (h a ha).no_lineFeed, hdigits] at hmem

theorem lineFeed_not_mem_line (h : d.Writable) : '\n' ∉ d.line := by
  have hdigits : '\n' ∉ d.tuples.digits := Count.not_mem_digits (by decide)
  have hentries := lineFeed_not_mem_entries h.attribute_bare
  simp [line, h.name_bare.no_lineFeed, hdigits, hentries]

theorem readLines_append_blank (number : Nat) (c : Catalogue) (lines : List (List Char)) :
    readLines c number (lines ++ [[]]) = readLines c number lines := by
  induction lines generalizing number c with
  | nil => rfl
  | cons line lines ih =>
    rw [List.cons_append, readLines, readLines]
    simp only [ih]

theorem readLines_lines (number : Nat) (c : Catalogue) (h : ∀ d ∈ ds, d.Writable) :
    readLines c number (ds.map line) = SourceError.ofPlan (ds.foldlM define c) := by
  induction ds generalizing number c with
  | nil => rfl
  | cons d ds ih =>
    obtain ⟨hd, hds⟩ := List.forall_mem_cons.mp h
    rw [List.map_cons, readLines, List.foldlM_cons]
    simp only [trim_line hd, isSignificant_line hd, readLine_line c hd, if_true]
    cases c.define d with
    | ok c => exact ih (number + 1) c hds
    | error e => rfl

def samples : List Definition :=
  [⟨"R", 100, [("a", 0), ("b", 7)]⟩, ⟨"S", 0, []⟩, ⟨"R", 3, []⟩]

/-- A list of definitions means the same catalogue, or the same first error, written out as a text
as it does taken as it is. The only errors are names that were given before. -/
theorem ofText_text (h : ∀ d ∈ ds, d.Writable) :
    ofText (text ds) = SourceError.ofPlan (ofDefinitions ds) ∧
      ofText (openText ds) = SourceError.ofPlan (ofDefinitions ds) ∧
      ∀ e, ofDefinitions ds = .error e → ∃ d ∈ ds, e = .duplicateRelation d.name ∨
        ∃ a ∈ d.attributes, e = .duplicateAttribute d.name a.1 := by
  have hlines : ∀ l ∈ ds.map line, '\n' ∉ l := by
    intro l hl
    obtain ⟨d, hd, rfl⟩ := List.mem_map.mp hl
    exact lineFeed_not_mem_line (h d hd)
  refine ⟨?_, ?_, fun e => ofDefinitions_error⟩
  · rw [ofText, text, String.toList_ofList, Text.split_flatMap hlines, readLines_append_blank,
      readLines_lines 1 empty h, ofDefinitions]
  · rw [ofText, openText, String.toList_ofList]
    cases ds with
    | nil => rfl
    | cons d ds =>
      have hne : (d :: ds).map line ≠ [] := List.cons_ne_nil d.line (ds.map line)
      rw [Text.split_intercalate hne hlines, readLines_lines 1 empty h, ofDefinitions]

theorem ofText_text_sample :
    (∀ d ∈ samples, d.Writable) ∧
      text samples = "R:100:a:0,b:7\nS:0\nR:3\n" ∧
      ofText (text samples) = SourceError.ofPlan (ofDefinitions samples) := by
  have h : ∀ d ∈ samples, d.Writable := by decide
  have htext : text samples = "R:100:a:0,b:7\nS:0\nR:3\n" := by rfl
  exact ⟨h, htext, (ofText_text h).1⟩

end Catalogue
end QueryPlan
