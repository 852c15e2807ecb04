import QueryPlan.Yaml.Cursor

/-! Scalars in their five styles. Line ends inside a scalar are folded: one of them reads as a
space, and of several the first is dropped. -/

namespace QueryPlan.Yaml

inductive Style
  | plain
  | quoted
  | literal
  | folded
deriving DecidableEq

/-- What has been read since the last character of a scalar: blanks, or line ends with the first
one apart. -/
inductive Gap
  | blanks (text : List Char)
  | lines (first : List Char) (later : List Char)

namespace Gap

def none : Gap := blanks []

def text : Gap → List Char
  | blanks cs => cs
  | lines ['\n'] [] => [' ']
  | lines ['\n'] later => later
  | lines first later => first ++ later

def hasLines : Gap → Bool
  | blanks _ => false
  | lines .. => true

def withBlank : Gap → Char → Gap
  | blanks cs, b => blanks (cs ++ [b])
  | found, _ => found

def withLine : Gap → Char → Gap
  | blanks _, b => lines [b] []
  | lines first later, b => lines first (later ++ [b])

end Gap

namespace Scan

open Reading (here fail update again fix many)

def gapStep (least : Nat) (found : Gap) : Scan (Option Gap) := do
  if let some b ← lineBreak then return some (found.withLine b)
  let column := (← here).column
  match ← takeIf isBlank with
  | some b =>
    if found.hasLines ∧ column < least ∧ b = '\t' then fail ()
    return some (found.withBlank b)
  | none => return none

def gapRule (least : Nat) (self : Gap → Scan Gap) (found : Gap) : Scan Gap := do
  match ← gapStep least found with
  | some found => self found
  | none => return found

def gapFrom (least : Nat) : Gap → Scan Gap := fix (gapRule least)

def gap (least : Nat) : Scan (Option Gap) := do
  match ← gapStep least .none with
  | some found => return some (← gapFrom least found)
  | none => return none

def flowSigns : List Char := [',', '[', ']', '\x7b', '\x7d']

def plainChar (inFlow : Bool) : Scan (Option Char) := do
  let later ← peek 1
  if inFlow ∧ (← peek) = some ':' ∧ later.any (fun d => d = '?' || flowSigns.contains d) then
    fail ()
  takeIf fun c =>
    !(isBlank c || isBreak c || c = ':' && endsWord later || inFlow && flowSigns.contains c)

def plainRun (inFlow : Bool) : Scan (List Char) := many (plainChar inFlow)

/-- A plain scalar of which some text has been read; `least` is the column it must keep to outside
brackets. Answers the text and whether a line end follows it. -/
def plainRule (inFlow : Bool) (least : Nat) (self : List Char → Scan (List Char × Bool))
    (text : List Char) : Scan (List Char × Bool) := do
  match ← gap least with
  | none => return (text, false)
  | some found =>
    let c ← here
    if !inFlow ∧ c.column < least ∨ c.atDocumentMark ∨ c.peek = some '#' then
      return (text, found.hasLines)
    let run ← plainRun inFlow
    if run.isEmpty then return (text, found.hasLines) else self (text ++ found.text ++ run)

def plainFrom (inFlow : Bool) (least : Nat) : List Char → Scan (List Char × Bool) :=
  fix (plainRule inFlow least)

def plain (inFlow : Bool) (least : Nat) : Scan (List Char × Bool) := do
  match ← plainChar inFlow with
  | some c => plainFrom inFlow least (c :: (← plainRun inFlow))
  | none => fail ()

def named (digits : List Char) : Option Char := do
  let n ← digits.foldlM (fun n d => do
    let v ←
      if d.isDigit then some (d.toNat - '0'.toNat)
      else if 'a' ≤ d ∧ d ≤ 'f' then some (d.toNat - 'a'.toNat + 10)
      else if 'A' ≤ d ∧ d ≤ 'F' then some (d.toNat - 'A'.toNat + 10)
      else none
    return 16 * n + v) 0
  if n.isValidChar then some (Char.ofNat n) else none

def escapes : List (Char × Char) := [
  ('0', '\x00'), ('a', '\x07'), ('b', '\x08'), ('t', '\t'), ('\t', '\t'), ('n', '\n'),
  ('v', '\x0b'), ('f', '\x0c'), ('r', '\r'), ('e', '\x1b'), (' ', ' '), ('\x22', '\x22'),
  ('/', '/'), ('\\', '\\'), ('N', '\u0085'), ('_', '\u00a0'), ('L', '\u2028'), ('P', '\u2029')]

def escaped : Scan Char := do
  match ← peek with
  | none => fail ()
  | some c =>
    skip
    match escapes.lookup c with
    | some d => return d
    | none =>
      let length ←
        if c = 'x' then pure 2 else if c = 'u' then pure 4 else if c = 'U' then pure 8 else fail ()
      let digits := (← here).rest.take length
      skip length
      match named digits with
      | some d => return d
      | none => fail ()

def quotedRule (single : Bool) (self : Scan (List Char)) : Scan (List Char) := do
  if (← here).atDocumentMark then fail ()
  match ← gap 0 with
  | some found => return found.text ++ (← self)
  | none =>
    match ← takeIf fun _ => true with
    | none => fail ()
    | some d =>
      if single ∧ d = '\x27' then
        if ← take '\x27' then return d :: (← self) else return []
      else if !single ∧ d = '\x22' then return []
      else if !single ∧ d = '\\' then
        if (← lineBreak).isSome then return (← gapFrom 0 (.lines [] [])).text ++ (← self)
        else return (← escaped) :: (← self)
      else return d :: (← self)

def quoted (single : Bool) : Scan (List Char) := again (quotedRule single)

/-- The line ends and the indentation before the next line of a block scalar. An indentation that
is not known yet is none; the column reached is followed in `widest`. -/
def blockBreaksRule (indent : Option Nat) (self : Nat × List Char → Scan (Nat × List Char)) :
    Nat × List Char → Scan (Nat × List Char)
  | (widest, found) => do
    let c ← here
    let spaces := (c.rest.takeWhile (· = ' ')).length
    let spaces := match indent with
      | some i => min spaces (i - c.column)
      | none => spaces
    update (·.skip spaces) fun c => by simp [Remains.remaining, Cursor.skip]
    let c ← here
    let widest := max widest c.column
    if indent.all (c.column < ·) ∧ c.peek = some '\t' then fail ()
    match ← lineBreak with
    | some b => self (widest, found ++ [b])
    | none => return (widest, found)

def blockBreaksFrom (indent : Option Nat) : Nat × List Char → Scan (Nat × List Char) :=
  fix (blockBreaksRule indent)

def blockBreaks (indent : Option Nat) : Scan (Nat × List Char) := blockBreaksFrom indent (0, [])

/-- What has been read of a block scalar: a text, the end of its last line and empty lines after it;
`blank` tells that the last line began with a blank. -/
structure Block where
  text : List Char := []
  lineEnd : List Char := []
  empty : List Char
  blank : Bool := false

def Block.withLine (folded : Bool) (b : Block) (line lineEnd empty : List Char) : Block :=
  let blank := line.head?.any isBlank
  let joined :=
    if folded ∧ b.lineEnd = ['\n'] ∧ !b.blank ∧ !blank then if b.empty.isEmpty then [' '] else []
    else b.lineEnd
  ⟨b.text ++ joined ++ b.empty ++ line, lineEnd, empty, blank⟩

def blockLine (indent : Nat) : Scan (Option (List Char)) := do
  if (← here).column ≠ indent then return none
  match ← takeIf (!isBreak ·) with
  | some c => return some (c :: (← takeWhile (!isBreak ·)))
  | none => return none

def blockLinesRule (folded : Bool) (indent : Nat) (self : Block → Scan Block) (b : Block) :
    Scan Block := do
  match ← blockLine indent with
  | none => return b
  | some line =>
    let lineEnd := (← lineBreak).toList
    let (_, empty) ← blockBreaks (some indent)
    self (b.withLine folded line lineEnd empty)

def blockLines (folded : Bool) (indent : Nat) : Block → Scan Block :=
  fix (blockLinesRule folded indent)

inductive Chomping
  | strip
  | clip
  | keep

def blockHeader : Scan (Chomping × Option Nat) := do
  let chomping : Scan (Option Chomping) := do
    if ← take '+' then return some .keep
    else if ← take '-' then return some .strip
    else return none
  let width : Scan (Option Nat) := do
    match ← takeIf Char.isDigit with
    | some d => if d = '0' then fail () else return some (d.toNat - '0'.toNat)
    | none => return none
  match ← chomping with
  | some c => return (c, ← width)
  | none =>
    match ← width with
    | some w => return ((← chomping).getD .clip, some w)
    | none => return (.clip, none)

def blockScalar (folded : Bool) (block : Int) : Scan (List Char) := do
  let (chomping, width) ← blockHeader
  finishLine
  let given := width.map fun w => if block ≥ 0 then block.toNat + w else w
  let (widest, empty) ← blockBreaks given
  let indent := given.getD (max widest (max (block + 1).toNat 1))
  let b ← blockLines folded indent { empty }
  return match chomping with
    | .strip => b.text
    | .clip => b.text ++ b.lineEnd
    | .keep => b.text ++ b.lineEnd ++ b.empty

end Scan
end QueryPlan.Yaml
