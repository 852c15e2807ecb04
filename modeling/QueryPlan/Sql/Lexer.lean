import QueryPlan.Sql.Escaped
import QueryPlan.Sql.Token
import QueryPlan.Text.Lines
import QueryPlan.Text.Character

/-! From SQL text to tokens. White space and comments part tokens and are dropped. The readers here
look at the front of a text and answer how many of its characters they take. -/

namespace QueryPlan.Sql

def unescaped (c : Char) : Char :=
  if c = '0' then '\x00'
  else if c = 'a' then '\x07'
  else if c = 'b' then '\x08'
  else if c = 'f' then '\x0c'
  else if c = 'n' then '\n'
  else if c = 'r' then '\r'
  else if c = 't' then '\t'
  else if c = 'Z' then '\x1a'
  else c

def quotedBody (quote : Char) (escapes : Bool) : List Char → Option (List Char × Nat)
  | [] => none
  | [c] => if c = quote then some ([], 1) else none
  | c :: d :: rest =>
    if c = quote then
      if d = quote then (quotedBody quote escapes rest).map fun (s, n) => (quote :: s, n + 2)
      else some ([], 1)
    else if c = '\\' ∧ escapes then
      (quotedBody quote escapes rest).map fun (s, n) => (unescaped d :: s, n + 2)
    else (quotedBody quote escapes (d :: rest)).map fun (s, n) => (c :: s, n + 1)

def commentBody (depth : Nat) (last : Char) : List Char → Option Nat
  | [] => none
  | c :: rest =>
    if last = '/' ∧ c = '*' then (commentBody (depth + 1) c rest).map (· + 1)
    else if last = '*' ∧ c = '/' then
      if depth = 0 then some 1 else (commentBody (depth - 1) c rest).map (· + 1)
    else (commentBody depth c rest).map (· + 1)

def longMarks : List (List Char) := [
  ['!', '~', '~', '*'], ['!', '~', '~'], ['!', '~', '*'], ['~', '~', '*'], ['-', '>', '>'],
  ['<', '=', '>'], ['|', '|', '/'], ['|', '|'], ['|', '/'], ['-', '>'], ['=', '>'], ['=', '='],
  ['!', '='], ['!', '!'], ['!', '~'], ['<', '='], ['<', '>'], ['<', '<'], ['<', '@'], ['>', '='],
  ['>', '>'], [':', ':'], [':', '='], ['&', '&'], ['^', '@'], ['~', '~'], ['~', '*']]

def markAt (c : Char) (rest : List Char) : Symbol × Nat :=
  match longMarks.find? fun m => m.isPrefixOf (c :: rest) with
  | some m => (.mark (String.ofList m), m.length)
  | none => (.mark c.toString, 1)

def exponent? (cs : List Char) : Option (List Char) :=
  match cs with
  | e :: rest =>
    let sign := rest.take 1 |>.filter fun c => c = '+' || c = '-'
    let digits := (rest.drop sign.length).takeWhile Text.isDigit
    if (e = 'e' ∨ e = 'E') ∧ digits ≠ [] then some (e :: sign ++ digits) else none
  | [] => none

/-- A number or a full stop. Digits that run into letters, unless these could start an exponent,
make a word. -/
def numberAt (cs : List Char) : Symbol × Nat :=
  let whole := cs.takeWhile Text.isDigit
  match whole, cs.drop whole.length with
  | ['0'], 'x' :: rest =>
    let digits := rest.takeWhile isHexDigit
    (.hex (String.ofList digits), 2 + digits.length)
  | _, rest =>
    let point := rest.take 1 |>.filter (· = '.')
    let fraction := (rest.drop point.length).takeWhile Text.isDigit
    let digits := whole ++ point ++ fraction
    let rest := cs.drop digits.length
    if digits = ['.'] then (.mark ".", 1)
    else
      match exponent? rest, rest.takeWhile isWordPart with
      | some exponent, _ => number (digits ++ exponent) (rest.drop exponent.length)
      | none, [] => number digits rest
      | none, letter :: more =>
        if letter = 'e' ∨ letter = 'E' then number digits rest
        else (.ofWord (digits ++ letter :: more), digits.length + 1 + more.length)
where
  number (digits rest : List Char) : Symbol × Nat :=
    let long := rest.head? == some 'L'
    (.number (String.ofList digits) long, digits.length + long.toNat)

def wordAt (start rest : List Char) : Symbol × Nat :=
  let more := rest.takeWhile isWordPart
  (.ofWord (start ++ more), start.length + more.length)

/-- An at sign takes the character after it into a word, whatever that is. -/
def atSign (rest : List Char) : Symbol × Nat :=
  match rest with
  | '>' :: _ => (.mark "@>", 2)
  | '?' :: _ => (.mark "@?", 2)
  | '@' :: ' ' :: _ => (.mark "@@", 2)
  | '@' :: c :: r => wordAt ['@', '@', c] r
  | '@' :: [] => (.mark "@@", 2)
  | ' ' :: _ => (.mark "@", 1)
  | c :: r => wordAt ['@', c] r
  | [] => (.mark "@", 1)

def stringAt (opening : Nat) (quote : Char) (escapes : Bool) (make : String → Symbol)
    (rest : List Char) : Option (Symbol × Nat) :=
  (quotedBody quote escapes rest).map fun (s, n) => (make (String.ofList s), n + opening)

def symbolAt (c : Char) (rest : List Char) : Option (Symbol × Nat) :=
  match c, rest with
  | 'n', '\x27' :: rest | 'N', '\x27' :: rest => stringAt 2 '\x27' true .national rest
  | 'x', '\x27' :: rest | 'X', '\x27' :: rest => stringAt 2 '\x27' true .hex rest
  | 'e', '\x27' :: rest | 'E', '\x27' :: rest =>
    (Escaped.body 0 rest).map fun (s, n) => (.escaped (String.ofList s), n + 2)
  | '\x27', rest => stringAt 1 '\x27' true (.string '\x27') rest
  | '\x22', rest => stringAt 1 '\x22' true (.string '\x22') rest
  | '\x60', rest => (quotedBody '\x60' false rest).map fun (s, n) => (.ofQuoted '\x60' s, n + 1)
  | '@', rest => some (atSign rest)
  | '?', rest =>
    let digits := rest.takeWhile Text.isNumeric
    some (.placeholder (String.ofList ('?' :: digits)), 1 + digits.length)
  | c, rest =>
    if c = '.' ∨ Text.isDigit c then some (numberAt (c :: rest))
    else if isWordStart c then some (wordAt [c] rest)
    else some (markAt c rest)

theorem number_pos {digits : List Char} (h : digits ≠ []) (rest : List Char) :
    0 < (numberAt.number digits rest).2 :=
  Nat.add_pos_left (List.length_pos_iff.mpr h) _

theorem numberAt_pos {c : Char} (h : c = '.' ∨ Text.isDigit c) (rest : List Char) :
    0 < (numberAt (c :: rest)).2 := by
  have hfront : ∀ more,
      (c :: rest).takeWhile Text.isDigit ++
        (((c :: rest).drop ((c :: rest).takeWhile Text.isDigit).length).take 1).filter (· = '.') ++
          more ≠ [] := by
    intro more
    by_cases hd : Text.isDigit c
    · simp [List.takeWhile_cons_of_pos hd]
    · obtain rfl := h.resolve_right hd
      simp [List.takeWhile_cons_of_neg hd]
  unfold numberAt
  simp only
  split
  · exact Nat.add_pos_left Nat.two_pos _
  · split
    · exact Nat.one_pos
    · split
      · exact number_pos (List.append_ne_nil_of_left_ne_nil (hfront _) _) _
      · exact number_pos (hfront _) _
      · split
        · exact number_pos (hfront _) _
        · exact Nat.add_pos_left (Nat.succ_pos _) _

theorem wordAt_pos {start : List Char} (h : start ≠ []) (rest : List Char) :
    0 < (wordAt start rest).2 :=
  Nat.add_pos_left (List.length_pos_iff.mpr h) _

theorem markAt_pos (c : Char) (rest : List Char) : 0 < (markAt c rest).2 := by
  unfold markAt
  split
  · next m hm =>
    have hlong : ∀ m ∈ longMarks, 0 < m.length := by decide
    exact hlong m (List.mem_of_find?_eq_some hm)
  · exact Nat.one_pos

theorem atSign_pos (rest : List Char) : 0 < (atSign rest).2 := by
  unfold atSign
  split <;> first | exact wordAt_pos (List.cons_ne_nil _ _) _ | exact Nat.succ_pos _

theorem stringAt_pos {opening : Nat} {quote : Char} {escapes : Bool} {make : String → Symbol}
    {rest : List Char} {symbol : Symbol} {n : Nat} (ho : 0 < opening)
    (h : stringAt opening quote escapes make rest = some (symbol, n)) : 0 < n := by
  obtain ⟨⟨s, m⟩, -, hn⟩ := Option.map_eq_some_iff.mp h
  cases hn
  exact Nat.add_pos_right _ ho

theorem symbolAt_pos {c : Char} {rest : List Char} {symbol : Symbol} {n : Nat}
    (h : symbolAt c rest = some (symbol, n)) : 0 < n := by
  have of_some {found : Symbol × Nat} (hpos : 0 < found.2) (h : some found = some (symbol, n)) :
      0 < n := by
    obtain rfl := Option.some.inj h
    exact hpos
  unfold symbolAt at h
  split at h
  any_goals exact stringAt_pos (by decide) h
  any_goals
    obtain ⟨⟨s, m⟩, -, hn⟩ := Option.map_eq_some_iff.mp h
    cases hn
    exact Nat.succ_pos _
  · exact of_some (atSign_pos _) h
  · exact of_some (Nat.add_pos_left Nat.one_pos _) h
  · split at h
    · next hc => exact of_some (numberAt_pos hc _) h
    · split at h
      · exact of_some (wordAt_pos (List.cons_ne_nil _ _) _) h
      · exact of_some (markAt_pos _ _) h

def tokensFrom (line : Nat) : List Char → Except Nat (List Token)
  | [] => .ok []
  | '\n' :: rest => tokensFrom (line + 1) rest
  | '#' :: rest => tokensFrom line (rest.dropWhile (· ≠ '\n'))
  | '-' :: '-' :: rest => tokensFrom line (rest.dropWhile (· ≠ '\n'))
  | '/' :: '*' :: rest =>
    match commentBody 0 ' ' rest with
    | some n => tokensFrom (line + (rest.take n).count '\n') (rest.drop n)
    | none => .error (line + rest.count '\n')
  | c :: rest =>
    if Text.isBlank c ∧ !isWordStart c then tokensFrom line rest
    else
      match _h : symbolAt c rest with
      | none => .error line
      | some (symbol, n) => do
        let cs := c :: rest
        let later ← tokensFrom (line + (cs.take n).count '\n') (cs.drop n)
        return ⟨symbol, line⟩ :: later
termination_by cs => cs.length
decreasing_by
  all_goals simp only [List.length_cons, List.length_drop]
  · exact Nat.lt_succ_self _
  · exact Nat.lt_succ_of_le (List.dropWhile_sublist _).length_le
  · exact Nat.lt_succ_of_le (Nat.le_succ_of_le (List.dropWhile_sublist _).length_le)
  · omega
  · exact Nat.lt_succ_self _
  · have := symbolAt_pos _h
    omega

def tokens (text : String) : Except Nat (List Token) := tokensFrom 1 text.toList

end QueryPlan.Sql
