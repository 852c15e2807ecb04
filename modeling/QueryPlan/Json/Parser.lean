import QueryPlan.Json
import QueryPlan.Reading
import QueryPlan.Text.Decimal

/-! Reading JSON text. The grammar is the strict one: no comments, no trailing commas, no leading
zeros, no bare controls in strings. -/

namespace QueryPlan.Json

def isSpace (c : Char) : Bool := c = ' ' || c = '\n' || c = '\t' || c = '\r'

def hexValue? (c : Char) : Option Nat :=
  if '0' ≤ c ∧ c ≤ '9' then some (c.toNat - '0'.toNat)
  else if 'a' ≤ c ∧ c ≤ 'f' then some (c.toNat - 'a'.toNat + 10)
  else if 'A' ≤ c ∧ c ≤ 'F' then some (c.toNat - 'A'.toNat + 10)
  else none

def unit? (a b c d : Char) : Option Nat := do
  let a ← hexValue? a
  let b ← hexValue? b
  let c ← hexValue? c
  let d ← hexValue? d
  return ((a * 16 + b) * 16 + c) * 16 + d

/-- Code units to characters: a pair of surrogates is one character, half a pair is none. -/
def decodeUnits : List Nat → Option (List Char)
  | [] => some []
  | u :: rest =>
    if 0xD800 ≤ u ∧ u < 0xDC00 then
      match rest with
      | v :: rest =>
        if 0xDC00 ≤ v ∧ v < 0xE000 then
          (decodeUnits rest).map (Char.ofNat (0x10000 + (u - 0xD800) * 0x400 + (v - 0xDC00)) :: ·)
        else none
      | [] => none
    else if 0xDC00 ≤ u ∧ u < 0xE000 then none
    else (decodeUnits rest).map (Char.ofNat u :: ·)

inductive Piece
  | char (c : Char)
  | unit (u : Nat)

def simpleEscape? (c : Char) : Option Char :=
  if c = '\x22' ∨ c = '\\' ∨ c = '/' then some c
  else if c = 'b' then some '\x08'
  else if c = 'f' then some '\x0c'
  else if c = 'n' then some '\n'
  else if c = 'r' then some '\r'
  else if c = 't' then some '\t'
  else none

def headed (p : Option Piece) (tail : Option (List Piece × List Char)) :
    Option (List Piece × List Char) := do
  let (ps, rest) ← tail
  return ((← p) :: ps, rest)

/-- What precedes the closing quote, and what follows it. -/
def pieces? : List Char → Option (List Piece × List Char)
  | [] => none
  | c :: rest =>
    if c = '\x22' then some ([], rest)
    else if c = '\\' then
      match rest with
      | 'u' :: a :: b :: c :: d :: rest => headed ((unit? a b c d).map .unit) (pieces? rest)
      | e :: rest => headed ((simpleEscape? e).map .char) (pieces? rest)
      | [] => none
    else if c.toNat < 0x20 then none
    else headed (some (.char c)) (pieces? rest)

theorem length_lt_of_headed {p : Option Piece} {tail : Option (List Piece × List Char)}
    {ps : List Piece} {rest : List Char} {n : Nat} (h : headed p tail = some (ps, rest))
    (ht : ∀ {qs}, tail = some (qs, rest) → rest.length < n) : rest.length < n := by
  obtain ⟨⟨qs, r⟩, htail, h⟩ := Option.bind_eq_some_iff.mp h
  obtain ⟨q, -, h⟩ := Option.bind_eq_some_iff.mp h
  cases h
  exact ht htail

theorem pieces?_length {cs rest : List Char} {ps : List Piece} (h : pieces? cs = some (ps, rest)) :
    rest.length < cs.length := by
  fun_induction pieces? cs generalizing ps with
  | case1 | case5 | case6 => cases h
  | case2 => cases h; exact Nat.lt_succ_self _
  | case3 a b c d tail _ ih =>
    have := length_lt_of_headed h ih
    simp only [List.length_cons]
    omega
  | case4 e tail _ _ ih =>
    have := length_lt_of_headed h ih
    simp only [List.length_cons]
    omega
  | case7 c tail _ _ _ ih => exact Nat.lt_succ_of_lt (length_lt_of_headed h ih)

/-- The text of the pieces, unless a run of code units has half a surrogate pair; `units` is the
run that is open. -/
def textOf (units : List Nat) : List Piece → Option (List Char)
  | [] => decodeUnits units
  | .unit u :: rest => textOf (units ++ [u]) rest
  | .char c :: rest => do
    let head ← decodeUnits units
    let tail ← textOf [] rest
    return head ++ c :: tail

abbrev Scan (α : Type) := Reading (List Char) Unit α

namespace Scan

open Reading (fail here again sepBy)

def next : Scan Char where
  run
    | [] => (.error (), [])
    | c :: rest => (.ok c, rest)
  le cs := by cases cs <;> simp [Remains.remaining]

def takeWhile (f : Char → Bool) : Scan (List Char) where
  run cs := (.ok (cs.takeWhile f), cs.dropWhile f)
  le _ := (List.dropWhile_suffix f).length_le

def takeIf (f : Char → Bool) : Scan (Option Char) := do
  match (← here).head?.filter f with
  | some _ => return some (← next)
  | none => return none

def space : Scan Unit := discard (takeWhile isSpace)

def take (c : Char) : Scan Bool := do return (← takeIf (· = c)).isSome

/-- A character that white space may precede. -/
def mark (c : Char) : Scan Bool := do
  space
  take c

def expect (c : Char) : Scan Unit := do
  if !(← mark c) then fail ()

def separator (close : Char) : Scan Bool := do
  if ← mark ',' then return true
  else if ← take close then return false
  else fail ()

def word (w : List Char) : Scan Bool where
  run cs := if w.isPrefixOf cs then (.ok true, cs.drop w.length) else (.ok false, cs)
  le cs := by
    split
    · simp [Remains.remaining]
    · exact Nat.le_refl _

def string : Scan (Option String) where
  run cs :=
    match pieces? cs with
    | some (ps, rest) => (.ok ((textOf [] ps).map String.ofList), rest)
    | none => (.error (), cs)
  le cs := by
    split
    · next h => exact Nat.le_of_lt (pieces?_length h)
    · exact Nat.le_refl _

def digits : Scan (List Char) := takeWhile Text.isDigit

def someDigits : Scan (List Char) := do
  let ds ← digits
  if ds.isEmpty then fail () else return ds

def fraction : Scan (List Char) := do
  match ← takeIf (· = '.') with
  | some c => return c :: (← someDigits)
  | none => return []

def exponent : Scan (List Char) := do
  match ← takeIf fun c => c = 'e' || c = 'E' with
  | some e =>
    let sign ← takeIf fun c => c = '+' || c = '-'
    return e :: sign.toList ++ (← someDigits)
  | none => return []

def number : Scan Json := do
  let sign ← takeIf (· = '-')
  let ds ← digits
  let tail := (← fraction) ++ (← exponent)
  match ds with
  | [] | '0' :: _ :: _ => fail ()
  | ds =>
    match if sign.isNone ∧ tail.isEmpty then Text.decimal? ds else none with
    | some n => return natural n
    | none => return raw (String.ofList (sign.toList ++ ds ++ tail))

def textSince (start : List Char) : Scan String := do
  let rest ← here
  return String.ofList (start.take (start.length - rest.length))

def items (value : Scan Json) : Scan (List Json) := sepBy (separator ']') value

def member (value : Scan Json) : Scan (Option String × Json) := do
  expect '\x22'
  let name ← string
  expect ':'
  return (name, ← value)

def members (value : Scan Json) : Scan (List (Option String × Json)) :=
  sepBy (separator '\x7d') (member value)

def valueRule (self : Scan Json) : Scan Json := do
  space
  let start ← here
  if ← take '[' then
    if ← mark ']' then return array [] else return array (← items self)
  else if ← take '\x7b' then
    if ← mark '\x7d' then return object []
    else
      match (← members self).mapM fun (name, j) => name.map (·, j) with
      | some members => return object members
      | none => return raw (← textSince start)
  else if ← take '\x22' then
    match ← string with
    | some s => return .string s
    | none => return raw (← textSince start)
  else if ← word ['n', 'u', 'l', 'l'] then return null
  else if ← word ['t', 'r', 'u', 'e'] then return bool true
  else if ← word ['f', 'a', 'l', 's', 'e'] then return bool false
  else number

def value : Scan Json := again valueRule

end Scan

/-- The value that the whole text denotes. -/
def parse? (s : String) : Option Json :=
  match (do let j ← Scan.value; Scan.space; return j : Scan Json).run s.toList with
  | (.ok j, []) => some j
  | _ => none

end QueryPlan.Json
