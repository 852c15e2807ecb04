import QueryPlan.Reading

/-! A place in a YAML text, and the moves from one place to a later one. -/

namespace QueryPlan.Yaml

structure Cursor where
  rest : List Char
  index : Nat := 0
  line : Nat := 0
  column : Nat := 0

instance : Remains Cursor := ⟨fun c => c.rest.length⟩

abbrev Scan (α : Type) := Reading Cursor Unit α

def isBlank (c : Char) : Bool := c = ' ' || c = '\t'

def isBreak (c : Char) : Bool :=
  c = '\n' || c = '\r' || c.toNat = 0x85 || c.toNat = 0x2028 || c.toNat = 0x2029

def endsWord : Option Char → Bool
  | none => true
  | some c => isBlank c || isBreak c

def isWordChar (c : Char) : Bool := c.isAlphanum || c = '_' || c = '-'

def isAllowed (c : Char) : Bool :=
  let n := c.toNat
  n = 0x9 || n = 0xa || n = 0xd || (0x20 ≤ n && n ≤ 0x7e) || n = 0x85 || (0xa0 ≤ n && n ≤ 0xd7ff) ||
    (0xe000 ≤ n && n ≤ 0xfffd) || 0x10000 ≤ n

namespace Cursor

def peek (c : Cursor) (n : Nat := 0) : Option Char := c.rest[n]?

def skip (c : Cursor) (n : Nat := 1) : Cursor :=
  ⟨c.rest.drop n, c.index + n, c.line, c.column + n⟩

/-- The first place of a text. A byte order mark there is passed, but takes up a column. -/
def start (text : List Char) : Cursor :=
  let c : Cursor := { rest := text }
  if c.peek = some '\ufeff' then c.skip else c

/-- The line end at this place, as the text keeps it, and the place behind it. -/
def lineEnd? (c : Cursor) : Option (Char × Cursor) :=
  match c.rest with
  | '\r' :: '\n' :: rest => some ('\n', ⟨rest, c.index + 2, c.line + 1, 0⟩)
  | b :: rest =>
    if isBreak b then
      let kept := if b.toNat = 0x2028 ∨ b.toNat = 0x2029 then b else '\n'
      some (kept, ⟨rest, c.index + 1, c.line + 1, 0⟩)
    else none
  | [] => none

theorem lineEnd?_length {c after : Cursor} {b : Char} (h : c.lineEnd? = some (b, after)) :
    after.rest.length < c.rest.length := by
  unfold lineEnd? at h
  split at h
  · next rest hr => cases h; simp only [hr, List.length_cons]; omega
  · next b rest _ hr =>
    split at h
    · cases h; simp only [hr, List.length_cons]; omega
    · cases h
  · cases h

def atDocumentMark (c : Cursor) : Bool :=
  c.column = 0 && endsWord (c.peek 3) &&
    (c.rest.take 3 = ['-', '-', '-'] || c.rest.take 3 = ['.', '.', '.'])

end Cursor

namespace Scan

open Reading (here fail update)

def peek (n : Nat := 0) : Scan (Option Char) := do return (← here).peek n

def skip (n : Nat := 1) : Scan Unit := do
  if (← peek (n - 1)).isNone then fail ()
  update (·.skip n) fun c => by simp [Remains.remaining, Cursor.skip]

def takeIf (p : Char → Bool) : Scan (Option Char) := do
  let found := (← peek).filter p
  if found.isSome then skip
  return found

def take (c : Char) : Scan Bool := do return (← takeIf (· = c)).isSome

def takeWhile (p : Char → Bool) : Scan (List Char) := do
  let run := (← here).rest.takeWhile p
  update (·.skip run.length) fun c => by simp [Remains.remaining, Cursor.skip]
  return run

def lineBreak : Scan (Option Char) where
  run c :=
    match c.lineEnd? with
    | some (b, after) => (.ok (some b), after)
    | none => (.ok none, c)
  le c := by
    split
    · next h => exact Nat.le_of_lt (Cursor.lineEnd?_length h)
    · exact Nat.le_refl _

def skipBlanks : Scan Unit := discard (takeWhile isBlank)

def comment : Scan Unit := do
  if (← peek) = some '#' then discard (takeWhile (!isBreak ·))

def finishLine : Scan Unit := do
  skipBlanks
  comment
  if (← lineBreak).isNone ∧ (← peek).isSome then fail ()

end Scan
end QueryPlan.Yaml
