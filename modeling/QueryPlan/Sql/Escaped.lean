import QueryPlan.Text.Decimal

/-! Strings in which a backslash can spell any character: by a letter, by the digits of a byte or by
those of a code point. The readers here answer how many characters they take. -/

namespace QueryPlan.Sql

def isHexDigit (c : Char) : Bool := c.isDigit || 'a' ≤ c && c ≤ 'f' || 'A' ≤ c && c ≤ 'F'

def isOctalDigit (c : Char) : Bool := '0' ≤ c && c ≤ '7'

def digitValue (c : Char) : Nat :=
  if c.isDigit then c.toNat - '0'.toNat
  else if 'a' ≤ c then c.toNat - 'a'.toNat + 10
  else c.toNat - 'A'.toNat + 10

def valueOf (base : Nat) (digits : List Char) : Nat :=
  digits.foldl (fun n c => base * n + digitValue c) 0

namespace Escaped

def byte? (n : Nat) : Option Char :=
  let code := n % 256
  if 0 < code ∧ code < 128 then some (Char.ofNat code) else none

/-- The character that so many hexadecimal digits spell, of which the first can be a plus sign. -/
def codePoint? (length : Nat) (cs : List Char) : Option Char :=
  let spelt := cs.take length
  let digits := if spelt.head? = some '+' then spelt.drop 1 else spelt
  let code := valueOf 16 digits
  if spelt.length ≠ length ∨ digits = [] ∨ !digits.all isHexDigit then none
  else if code ≠ 0 ∧ code.isValidChar then some (Char.ofNat code)
  else none

def spelt? (c : Char) (more : List Char) : Option (Char × Nat) :=
  if c = 'b' then some ('\x08', 1)
  else if c = 'f' then some ('\x0c', 1)
  else if c = 'n' then some ('\n', 1)
  else if c = 'r' then some ('\r', 1)
  else if c = 't' then some ('\t', 1)
  else if c = 'u' then (codePoint? 4 more).map (·, 5)
  else if c = 'U' then (codePoint? 8 more).map (·, 9)
  else if c = 'x' then
    let digits := (more.take 2).takeWhile isHexDigit
    if digits.isEmpty then some (c, 1)
    else (byte? (valueOf 16 digits)).map (·, 1 + digits.length)
  else if isOctalDigit c then
    let digits := c :: (more.take 2).takeWhile isOctalDigit
    (byte? (valueOf 8 digits)).map (·, digits.length)
  else if c = '\x00' then none
  else some (c, 1)

def body : Nat → List Char → Option (List Char × Nat)
  | _, [] => none
  | known + 1, _ :: rest => (body known rest).map fun (s, n) => (s, n + 1)
  | 0, '\x27' :: rest =>
    if rest.head? = some '\x27' then (body 1 rest).map fun (s, n) => ('\x27' :: s, n + 1)
    else some ([], 1)
  | 0, '\\' :: rest => do
    let (d, n) ← spelt? (← rest.head?) (rest.drop 1)
    let (s, m) ← body n rest
    return (d :: s, m + 1)
  | 0, c :: rest => (body 0 rest).map fun (s, n) => (c :: s, n + 1)

def shownChar (c : Char) : List Char :=
  if c = '\x27' ∨ c = '\\' then ['\\', c]
  else if c = '\n' then ['\\', 'n']
  else if c = '\t' then ['\\', 't']
  else if c = '\r' then ['\\', 'r']
  else [c]

def shown (s : String) : String :=
  "E'" ++ String.ofList (s.toList.flatMap shownChar) ++ "'"

end Escaped
end QueryPlan.Sql
