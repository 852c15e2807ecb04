import QueryPlan.Json.Parser
import QueryPlan.Proofs.Recursion
import Mathlib.Data.List.Forall2

/-! The text of a JSON value without white space is read back as that value, whatever characters
its strings have and however large its numbers are. What comes after a value decides where a number
ends, so the statements are about a value in front of any text that does not go on with it. The
reader of values is taken through its equation, which it satisfies as it goes on to a value inside
only behind a mark. -/

namespace QueryPlan.Json

open Reading (Takes Same)

namespace Scan

theorem next_takes : Takes next fun _ => True := by
  intro cs c rest hrun _
  cases cs with
  | nil => cases hrun
  | cons d cs =>
    cases hrun
    exact Nat.lt_succ_self _

theorem take_takes (c : Char) : Takes (take c) (· = true) := by
  refine Takes.bind (P := fun found => found.isSome) ?_ fun found hn => .pure hn
  refine .bind_right fun cs => ?_
  split
  · exact .bind_left next_takes
  · exact .pure Bool.false_ne_true

theorem mark_takes (c : Char) : Takes (mark c) (· = true) := .bind_right fun _ => take_takes c

theorem separator_takes (close : Char) : Takes (separator close) (· = true) := by
  refine (mark_takes ',').or_else ?_
  exact (take_takes close).or_else (.fail ())

theorem value_eq : value = valueRule value := by
  refine Reading.again_eq fun n p q h => .bind_right fun _ => .bind_right fun start => ?_
  refine (take_takes _).same_if ?_ ((take_takes _).same_if ?_ (.refl _ _))
  · exact .bind_right fun closed => .ite (.refl _ _) h.sepBy.bind_left
  · refine .bind_right fun closed => .ite (.refl _ _) (Same.bind_left ?_)
    exact Same.sepBy (.bind_right fun _ => .bind_right fun _ => .bind_right fun _ => h.bind_left)

section Runs
variable {c d : Char} {cs : List Char}

theorem run_takeIf_true {f : Char → Bool} (h : f d = true) :
    (takeIf f).run (d :: cs) = (.ok (some d), cs) := by
  rw [takeIf, Reading.run_bind_ok rfl, List.head?_cons, Option.filter_some_pos h]
  rfl

theorem run_takeIf_false {f : Char → Bool} (h : f d = false) :
    (takeIf f).run (d :: cs) = (.ok none, d :: cs) := by
  rw [takeIf, Reading.run_bind_ok rfl, List.head?_cons, Option.filter_some_neg h]
  rfl

theorem run_take_self : (take c).run (c :: cs) = (.ok true, cs) := by
  rw [take, Reading.run_bind_ok (run_takeIf_true (decide_eq_true rfl))]
  rfl

theorem run_take_ne (h : d ≠ c) : (take c).run (d :: cs) = (.ok false, d :: cs) := by
  rw [take, Reading.run_bind_ok (run_takeIf_false (decide_eq_false h))]
  rfl

theorem run_space (h : isSpace d = false) : space.run (d :: cs) = (.ok (), d :: cs) := by
  change (_, List.dropWhile isSpace (d :: cs)) = _
  rw [List.dropWhile_cons, h]
  rfl

theorem run_mark_ne (hs : isSpace d = false) (h : d ≠ c) :
    (mark c).run (d :: cs) = (.ok false, d :: cs) :=
  (Reading.run_bind_ok (run_space hs)).trans (run_take_ne h)

end Runs
end Scan

section Numbers
open Scan
variable {n : Nat} {ds rest : List Char}

/-- The text after a number: no digit, fraction or exponent comes first. -/
def Stops : List Char → Prop
  | [] => True
  | c :: _ => Text.isDigit c = false ∧ c ≠ '.' ∧ c ≠ 'e' ∧ c ≠ 'E'

theorem run_digits (hd : ∀ c ∈ ds, Text.isDigit c = true) (hr : Stops rest) :
    digits.run (ds ++ rest) = (.ok ds, rest) := by
  change (_, List.dropWhile Text.isDigit (ds ++ rest)) = _
  rw [List.takeWhile_append_of_pos hd, List.dropWhile_append_of_pos hd]
  cases rest with
  | nil => simp
  | cons c rest => simp [hr.1]

theorem run_fraction (hr : Stops rest) : fraction.run rest = (.ok [], rest) := by
  cases rest with
  | nil => rfl
  | cons c rest =>
    rw [fraction, Reading.run_bind_ok (run_takeIf_false (decide_eq_false hr.2.1))]
    rfl

theorem run_exponent (hr : Stops rest) : exponent.run rest = (.ok [], rest) := by
  cases rest with
  | nil => rfl
  | cons c rest =>
    rw [exponent, Reading.run_bind_ok (run_takeIf_false (by simpa using hr.2.2))]
    rfl

theorem exists_toDigits (n : Nat) :
    ∃ d ds, Nat.toDigits 10 n = d :: ds ∧ Text.isDigit d = true := by
  obtain ⟨d, ds, h⟩ := List.exists_cons_of_ne_nil (Nat.toDigits_ne_nil : Nat.toDigits 10 n ≠ [])
  exact ⟨d, ds, h, Text.isDigit_of_mem_toDigits (h ▸ List.mem_cons_self)⟩

theorem run_number (hr : Stops rest) :
    number.run (Nat.toDigits 10 n ++ rest) = (.ok (natural n), rest) := by
  obtain ⟨d, ds, h, hd⟩ := exists_toDigits n
  have hminus : d ≠ '-' := by rintro rfl; exact absurd hd (by decide)
  have hsign : (takeIf (· = '-')).run (d :: ds ++ rest) = (.ok none, d :: ds ++ rest) :=
    run_takeIf_false (decide_eq_false hminus)
  have hdigits : digits.run (d :: ds ++ rest) = (.ok (d :: ds), rest) :=
    h ▸ run_digits (fun _ => Text.isDigit_of_mem_toDigits) hr
  have hvalue : Text.decimal? (d :: ds) = some n := h ▸ Text.decimal?_toDigits n
  have hzero : ∀ c cs, d :: ds ≠ '0' :: c :: cs := by
    rintro c cs he
    rw [he] at h
    exact absurd (Text.toDigits_eq_zero_cons h) (List.cons_ne_nil c cs)
  rw [h, number, Reading.run_bind_ok hsign, Reading.run_bind_ok hdigits,
    Reading.run_bind_ok (run_fraction hr), Reading.run_bind_ok (run_exponent hr)]
  dsimp only
  split
  · next he => cases he
  · next c cs he => exact absurd he (hzero c cs)
  · rw [if_pos ⟨rfl, rfl⟩, hvalue]
    rfl

end Numbers

section Strings
variable {c e : Char} {rest : List Char}

inductive Piece.Names : Piece → Char → Prop
  | char (c : Char) : Piece.Names (.char c) c
  | unit {c : Char} (h : c.toNat < 0x20) : Piece.Names (.unit c.toNat) c

theorem pieces?_quote : pieces? ('\x22' :: rest) = some ([], rest) := by
  rw [pieces?.eq_def]
  exact if_pos rfl

theorem pieces?_plain (hquote : c ≠ '\x22') (hslash : c ≠ '\\') (hcontrol : ¬c.toNat < 0x20) :
    pieces? (c :: rest) = headed (some (.char c)) (pieces? rest) := by
  rw [pieces?.eq_def]
  simp only [hquote, hslash, hcontrol, if_false]

theorem pieces?_short (he : e ≠ 'u') (hc : simpleEscape? e = some c) :
    pieces? ('\\' :: e :: rest) = headed (some (.char c)) (pieces? rest) := by
  rw [pieces?, if_neg (by decide), if_pos rfl, hc]
  · rfl
  · exact fun _ _ _ _ _ h => absurd h he

theorem hexValue?_hexDigit : ∀ d < 16, hexValue? (hexDigit d) = some d := by decide

theorem unit?_hexDigit {u : Nat} (hu : u < 256) :
    unit? '0' '0' (hexDigit (u / 16)) (hexDigit (u % 16)) = some u := by
  have hhigh := hexValue?_hexDigit (u / 16) (by omega)
  have hlow := hexValue?_hexDigit (u % 16) (by omega)
  have hzero : hexValue? '0' = some 0 := rfl
  simp only [unit?, hzero, hhigh, hlow, Option.bind_eq_bind, Option.bind_some]
  rw [show ((0 * 16 + 0) * 16 + u / 16) * 16 + u % 16 = u by omega]
  rfl

theorem pieces?_unit {u : Nat} (hu : u < 256) :
    pieces? (['\\', 'u', '0', '0', hexDigit (u / 16), hexDigit (u % 16)] ++ rest) =
      headed (some (.unit u)) (pieces? rest) := by
  simp only [List.cons_append, List.nil_append]
  rw [pieces?, if_neg (by decide), if_pos rfl, unit?_hexDigit hu]
  rfl

theorem pieces?_escape (c : Char) : ∃ p : Piece, p.Names c ∧ ∀ rest,
    pieces? (escape c ++ rest) = headed (some p) (pieces? rest) := by
  unfold escape
  split_ifs with hquote hslash hb hf hn hr ht hcontrol
  · subst hquote; exact ⟨_, .char _, fun rest => pieces?_short (by decide) rfl⟩
  · subst hslash; exact ⟨_, .char _, fun rest => pieces?_short (by decide) rfl⟩
  · subst hb; exact ⟨_, .char _, fun rest => pieces?_short (by decide) rfl⟩
  · subst hf; exact ⟨_, .char _, fun rest => pieces?_short (by decide) rfl⟩
  · subst hn; exact ⟨_, .char _, fun rest => pieces?_short (by decide) rfl⟩
  · subst hr; exact ⟨_, .char _, fun rest => pieces?_short (by decide) rfl⟩
  · subst ht; exact ⟨_, .char _, fun rest => pieces?_short (by decide) rfl⟩
  · exact ⟨_, .unit hcontrol, fun rest => pieces?_unit (by omega)⟩
  · exact ⟨_, .char c, fun rest => pieces?_plain hquote hslash hcontrol⟩

theorem pieces?_escaped (cs rest : List Char) : ∃ ps, List.Forall₂ Piece.Names ps cs ∧
    pieces? (cs.flatMap escape ++ '\x22' :: rest) = some (ps, rest) := by
  induction cs with
  | nil => exact ⟨[], .nil, pieces?_quote⟩
  | cons c cs ih =>
    obtain ⟨p, hp, hhead⟩ := pieces?_escape c
    obtain ⟨ps, hps, htail⟩ := ih
    refine ⟨p :: ps, .cons hp hps, ?_⟩
    rw [List.flatMap_cons, List.append_assoc, hhead, htail]
    rfl

theorem decodeUnits_controls {cs : List Char} (h : ∀ c ∈ cs, c.toNat < 0x20) :
    decodeUnits (cs.map Char.toNat) = some cs := by
  induction cs with
  | nil => rfl
  | cons c cs ih =>
    obtain ⟨hc, hcs⟩ := List.forall_mem_cons.mp h
    rw [List.map_cons]
    unfold decodeUnits
    rw [if_neg (by omega), if_neg (by omega), ih hcs, Option.map_some, Char.ofNat_toNat]

/-- `opened` are the controls of the run of code units that is not closed yet. -/
theorem textOf_names {ps : List Piece} {cs opened : List Char} (h : List.Forall₂ Piece.Names ps cs)
    (ho : ∀ c ∈ opened, c.toNat < 0x20) :
    textOf (opened.map Char.toNat) ps = some (opened ++ cs) := by
  induction h generalizing opened with
  | nil => rw [textOf, decodeUnits_controls ho, List.append_nil]
  | @cons p c ps cs hp _ ih =>
    cases hp with
    | char =>
      have htail : textOf [] ps = some cs := ih (List.forall_mem_nil _)
      rw [textOf, decodeUnits_controls ho, htail]
      rfl
    | unit hc =>
      have hsnoc : ∀ d ∈ opened ++ [c], d.toNat < 0x20 :=
        List.forall_mem_append.mpr ⟨ho, List.forall_mem_singleton.mpr hc⟩
      have htail := ih hsnoc
      rw [List.map_append, List.append_assoc] at htail
      exact htail

theorem run_string (s : String) (rest : List Char) :
    Scan.string.run (s.toList.flatMap escape ++ '\x22' :: rest) = (.ok (some s), rest) := by
  obtain ⟨ps, hps, hread⟩ := pieces?_escaped s.toList rest
  have htext : textOf [] ps = some s.toList := textOf_names hps (List.forall_mem_nil _)
  simp [Scan.string, hread, htext]

end Strings

section Values
open Scan
variable {c : Char} {cs rest : List Char} {j : Json}

theorem ne_of_isDigit {d : Char} (hd : Text.isDigit d = true) (hc : Text.isDigit c = false) :
    d ≠ c := by
  rintro rfl
  exact absurd hd (by rw [hc]; decide)

theorem isSpace_of_isDigit {d : Char} (hd : Text.isDigit d = true) : isSpace d = false := by
  simp only [isSpace, ne_of_isDigit hd (c := ' ') rfl, ne_of_isDigit hd (c := '\n') rfl,
    ne_of_isDigit hd (c := '\t') rfl, ne_of_isDigit hd (c := '\r') rfl, decide_false, Bool.or_false]

theorem stops_cons (h : c ∈ [',', ']', '\x7d']) : Stops (c :: rest) := by
  simp only [List.mem_cons, List.not_mem_nil, or_false] at h
  rcases h with rfl | rfl | rfl <;> exact ⟨by decide, by decide, by decide, by decide⟩

/-- Values that are made of data alone, with no literal kept as it was written. -/
inductive Plain : Json → Prop
  | null : Plain .null
  | bool (b : Bool) : Plain (.bool b)
  | natural (n : Nat) : Plain (.natural n)
  | string (s : String) : Plain (.string s)
  | array {items : List Json} (h : ∀ j ∈ items, Plain j) : Plain (.array items)
  | object {members : List (String × Json)} (h : ∀ m ∈ members, Plain m.2) :
    Plain (.object members)

@[simp] theorem plain_array {items : List Json} : (array items).Plain ↔ ∀ j ∈ items, j.Plain :=
  ⟨fun | .array h => h, .array⟩

@[simp] theorem plain_object {members : List (String × Json)} :
    (object members).Plain ↔ ∀ m ∈ members, m.2.Plain :=
  ⟨fun | .object h => h, .object⟩

theorem renderItems_cons_cons (j k : Json) (items : List Json) :
    renderItems (j :: k :: items) = j.render ++ ',' :: renderItems (k :: items) := by
  rw [renderItems]
  exact fun h => nomatch h

theorem renderMembers_cons_cons (name : String) (j : Json) (m : String × Json)
    (members : List (String × Json)) :
    renderMembers ((name, j) :: m :: members) =
      renderString name ++ ':' :: (j.render ++ ',' :: renderMembers (m :: members)) := by
  rw [renderMembers]
  exact fun h => nomatch h

theorem Plain.exists_render (h : j.Plain) :
    ∃ c cs, j.render = c :: cs ∧ isSpace c = false ∧ c ≠ ']' := by
  cases h with
  | null => exact ⟨_, _, by rw [render], by decide, by decide⟩
  | bool b => cases b <;> exact ⟨_, _, by rw [render], by decide, by decide⟩
  | natural n =>
    obtain ⟨d, ds, hn, hd⟩ := exists_toDigits n
    exact ⟨d, ds, by rw [render, hn], isSpace_of_isDigit hd, ne_of_isDigit hd rfl⟩
  | string s => exact ⟨_, _, by rw [render, renderString], by decide, by decide⟩
  | array => exact ⟨_, _, by rw [render], by decide, by decide⟩
  | object => exact ⟨_, _, by rw [render], by decide, by decide⟩

theorem exists_renderItems (h : j.Plain) (items : List Json) :
    ∃ c cs, renderItems (j :: items) = c :: cs ∧ isSpace c = false ∧ c ≠ ']' := by
  obtain ⟨c, cs, hc, hhead⟩ := h.exists_render
  cases items with
  | nil => exact ⟨c, cs, by rw [renderItems, hc], hhead⟩
  | cons k items => exact ⟨c, _, by rw [renderItems_cons_cons, hc, List.cons_append], hhead⟩

theorem exists_renderMembers (m : String × Json) (members : List (String × Json)) :
    ∃ cs, renderMembers (m :: members) = '\x22' :: cs := by
  cases members with
  | nil => exact ⟨_, by rw [renderMembers, renderString, List.cons_append]⟩
  | cons k members => exact ⟨_, by rw [renderMembers_cons_cons, renderString, List.cons_append]⟩

/-- The text of `j` is read as `j` before any text that does not go on with a number. -/
def ReadsBack (j : Json) : Prop :=
  ∀ rest, Stops rest → value.run (j.render ++ rest) = (.ok j, rest)

theorem run_value (s : List Char) : value.run s = (valueRule value).run s :=
  congrFun (congrArg Reading.run value_eq) s

theorem run_separator_comma (close : Char) :
    (separator close).run (',' :: rest) = (.ok true, rest) := rfl

theorem run_separator_close (h : c ∈ [']', '\x7d']) :
    (separator c).run (c :: rest) = (.ok false, rest) := by
  simp only [List.mem_cons, List.not_mem_nil, or_false] at h
  rcases h with rfl | rfl <;> rfl

theorem run_value_digit (hc : Text.isDigit c = true) :
    value.run (c :: cs) = number.run (c :: cs) := by
  have htake {d : Char} (hd : Text.isDigit d = false) :
      (take d).run (c :: cs) = (.ok false, c :: cs) := run_take_ne (ne_of_isDigit hc hd)
  have hword {d : Char} {w : List Char} (hd : Text.isDigit d = false) :
      (word (d :: w)).run (c :: cs) = (.ok false, c :: cs) := by
    refine if_neg ?_
    rw [List.isPrefixOf_cons_cons, beq_eq_false_iff_ne.mpr (ne_of_isDigit hc hd).symm]
    exact Bool.false_ne_true
  rw [run_value, valueRule, Reading.run_bind_ok (run_space (isSpace_of_isDigit hc)),
    Reading.run_bind_ok rfl, Reading.run_if_false (htake rfl), Reading.run_if_false (htake rfl),
    Reading.run_if_false (htake rfl), Reading.run_if_false (hword rfl),
    Reading.run_if_false (hword rfl), Reading.run_if_false (hword rfl)]

theorem readsBack_null : ReadsBack .null := by
  intro rest _
  rw [render, run_value]
  rfl

theorem readsBack_bool (b : Bool) : ReadsBack (.bool b) := by
  intro rest _
  cases b <;>
  · rw [render, run_value]
    rfl

theorem readsBack_natural (n : Nat) : ReadsBack (.natural n) := by
  intro rest hr
  obtain ⟨d, ds, hn, hd⟩ := exists_toDigits n
  rw [render, hn, List.cons_append, run_value_digit hd, ← List.cons_append, ← hn, run_number hr]

theorem readsBack_string (s : String) : ReadsBack (.string s) := by
  intro rest _
  rw [render, renderString, List.cons_append, List.append_assoc, List.singleton_append, run_value]
  exact Reading.run_bind_ok (run_string s rest)

theorem run_items {js : List Json} (hne : js ≠ []) (h : ∀ j ∈ js, ReadsBack j)
    (rest : List Char) :
    (items value).run (renderItems js ++ ']' :: rest) = (.ok js, rest) := by
  induction js with
  | nil => exact absurd rfl hne
  | cons j js ih =>
    obtain ⟨hj, hjs⟩ := List.forall_mem_cons.mp h
    rw [items, Reading.sepBy_eq (separator_takes _)]
    cases js with
    | nil =>
      rw [renderItems]
      exact (Reading.run_bind_ok (hj _ (stops_cons (by simp)))).trans
        (Reading.run_bind_ok (run_separator_close (by simp)))
    | cons k js =>
      rw [renderItems_cons_cons, List.append_assoc, List.cons_append]
      refine (Reading.run_bind_ok (hj _ (stops_cons (by simp)))).trans ?_
      refine (Reading.run_bind_ok (run_separator_comma _)).trans ?_
      exact Reading.run_bind_ok (ih (List.cons_ne_nil k js) hjs)

theorem run_member (hj : ReadsBack j) (hr : Stops rest) (name : String) :
    (member value).run (renderString name ++ ':' :: (j.render ++ rest)) =
      (.ok (some name, j), rest) := by
  rw [renderString, List.cons_append, List.append_assoc, List.singleton_append, member,
    Reading.run_bind_ok rfl, Reading.run_bind_ok (run_string name _), Reading.run_bind_ok rfl,
    Reading.run_bind_ok (hj rest hr)]
  rfl

theorem run_members {ms : List (String × Json)} (hne : ms ≠ []) (h : ∀ m ∈ ms, ReadsBack m.2)
    (rest : List Char) :
    (members value).run (renderMembers ms ++ '\x7d' :: rest) =
      (.ok (ms.map fun (name, j) => (some name, j)), rest) := by
  induction ms with
  | nil => exact absurd rfl hne
  | cons m ms ih =>
    obtain ⟨name, j⟩ := m
    obtain ⟨hj, hms⟩ := List.forall_mem_cons.mp h
    rw [members, Reading.sepBy_eq (separator_takes _)]
    cases ms with
    | nil =>
      rw [renderMembers, List.append_assoc, List.cons_append]
      exact (Reading.run_bind_ok (run_member hj (stops_cons (by simp)) name)).trans
        (Reading.run_bind_ok (run_separator_close (by simp)))
    | cons k ms =>
      rw [renderMembers_cons_cons, List.append_assoc, List.cons_append, List.append_assoc,
        List.cons_append]
      refine (Reading.run_bind_ok (run_member hj (stops_cons (by simp)) name)).trans ?_
      refine (Reading.run_bind_ok (run_separator_comma _)).trans ?_
      exact Reading.run_bind_ok (ih (List.cons_ne_nil k ms) hms)

theorem mapM_named (members : List (String × Json)) :
    ((members.map fun (name, j) => (some name, j)).mapM fun (k, j) => k.map (·, j)) =
      some members := by
  induction members with
  | nil => rfl
  | cons m members ih => simp [List.mapM_cons, ih]

theorem readsBack_array {js : List Json} (hplain : ∀ j ∈ js, j.Plain)
    (h : ∀ j ∈ js, ReadsBack j) : ReadsBack (.array js) := by
  intro rest _
  rw [render, List.cons_append, List.append_assoc, List.singleton_append, run_value]
  cases js with
  | nil => rfl
  | cons j js =>
    have hitems := run_items (List.cons_ne_nil j js) h rest
    obtain ⟨c, cs, hc, hspace, hclose⟩ := exists_renderItems (hplain j List.mem_cons_self) js
    rw [hc, List.cons_append] at hitems ⊢
    rw [valueRule, Reading.run_bind_ok (run_space rfl), Reading.run_bind_ok rfl,
      Reading.run_if_true run_take_self, Reading.run_if_false (run_mark_ne hspace hclose),
      Reading.run_bind_ok hitems]
    rfl

theorem readsBack_object {ms : List (String × Json)} (h : ∀ m ∈ ms, ReadsBack m.2) :
    ReadsBack (.object ms) := by
  intro rest _
  rw [render, List.cons_append, List.append_assoc, List.singleton_append, run_value]
  cases ms with
  | nil => rfl
  | cons m ms =>
    have hmembers := run_members (List.cons_ne_nil m ms) h rest
    obtain ⟨cs, hc⟩ := exists_renderMembers m ms
    rw [hc, List.cons_append] at hmembers ⊢
    rw [valueRule, Reading.run_bind_ok (run_space rfl), Reading.run_bind_ok rfl,
      Reading.run_if_false (run_take_ne (by decide)), Reading.run_if_true run_take_self,
      Reading.run_if_false (run_mark_ne rfl (by decide)), Reading.run_bind_ok hmembers, mapM_named]
    rfl

theorem Plain.readsBack (h : j.Plain) : j.ReadsBack := by
  induction h with
  | null => exact readsBack_null
  | bool b => exact readsBack_bool b
  | natural n => exact readsBack_natural n
  | string s => exact readsBack_string s
  | array h ih => exact readsBack_array h ih
  | object _ ih => exact readsBack_object ih

theorem parse?_compact (h : j.Plain) : parse? j.compact = some j := by
  have hread := h.readsBack [] trivial
  rw [List.append_nil] at hread
  rw [parse?, compact, String.toList_ofList, Reading.run_bind_ok hread]
  rfl

end Values
end QueryPlan.Json
