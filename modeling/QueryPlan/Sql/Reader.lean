import QueryPlan.Reading
import QueryPlan.Sql.Token

/-! Readers of token lists. A failure at a token has the line of that token, and the end of the text
counts as line one. -/

namespace QueryPlan.Sql

inductive Cause
  | unexpected (line : Nat)
  | tooDeep
deriving DecidableEq

instance : Inhabited Cause := ⟨.unexpected 1⟩

abbrev Reader (α : Type) := Reading (List Token) Cause α

namespace Reader

open Reading

variable {α : Type}

def peek (n : Nat := 0) : Reader (Option Symbol) := do return ((← here)[n]?).map (·.symbol)

def lineOf : List Token → Nat
  | t :: _ => t.line
  | [] => 1

def fail : Reader α := do Reading.fail (.unexpected (lineOf (← here)))

def failNowhere : Reader α := Reading.fail (.unexpected 1)

def failDeep : Reader α := Reading.fail .tooDeep

def failAt (start : List Token) : Reader α := Reading.fail (.unexpected (lineOf start))

def skip (n : Nat) : Reader Unit := update (·.drop n) (by simp [Remains.remaining])

def advance : Reader Unit := do
  if (← here).isEmpty then fail else skip 1

def next : Reader (Option Symbol) := do
  match ← peek with
  | some s => advance; return some s
  | none => return none

def reject : Reader α := do
  let start ← here
  skip 1
  failAt start

/-- Reads, or answers nothing and takes nothing; nesting that is too deep still fails. -/
def attempt (p : Reader α) : Reader (Option α) where
  run ts :=
    match p.run ts with
    | (.ok a, rest) => (.ok (some a), rest)
    | (.error (.unexpected _), _) => (.ok none, ts)
    | (.error .tooDeep, rest) => (.error .tooDeep, rest)
  le ts := by
    split
    · next h => exact le_of_run h
    · exact Nat.le_refl _
    · next h => exact le_of_run h

def attempts (p : Reader α) : Reader Bool := do return (← attempt p).isSome

/-- Reads, or answers nothing and goes on where the failure came. -/
def tolerate (p : Reader α) : Reader (Option α) where
  run ts :=
    match p.run ts with
    | (.ok a, rest) => (.ok (some a), rest)
    | (.error _, rest) => (.ok none, rest)
  le ts := by
    split
    · next h => exact le_of_run h
    · next h => exact le_of_run h

def perhaps (p : Reader (Option α)) : Reader (Option α) where
  run ts :=
    match p.run ts with
    | (.ok none, _) => (.ok none, ts)
    | (r, rest) => (r, rest)
  le ts := by
    split
    · exact Nat.le_refl _
    · next h => exact le_of_run h

def peekKeyword (n : Nat := 0) : Reader String := do
  match ← peek n with
  | some (.word _ k) => return k
  | _ => return ""

def keyword (k : String) : Reader Bool := do
  if (← peekKeyword) = k then
    advance
    return true
  else return false

def keywords (ks : List String) : Reader Bool := do
  let ahead := ((← here).take ks.length).map fun t => match t.symbol with
    | .word _ k => k
    | _ => ""
  if ahead = ks then
    skip ks.length
    return true
  else return false

def phrase : List (List String) → Reader (Option (List String))
  | [] => return none
  | ks :: rest => do if ← keywords ks then return some ks else phrase rest

def anyPhrase (phrases : List (List String)) : Reader Bool := do
  return (← phrase phrases).isSome

def phraseText (phrases : List (List String)) : Reader String := do
  return ((← phrase phrases).map fun ks => " " ++ " ".intercalate ks).getD ""

def oneOf (ks : List String) : Reader (Option String) := do
  let k ← peekKeyword
  if k ∈ ks then
    advance
    return some k
  else return none

def expectKeyword (k : String) : Reader Unit := do if !(← keyword k) then fail

def expectKeywords (ks : List String) : Reader Unit := ks.forM expectKeyword

def expectPhrase (phrases : List (List String)) : Reader Unit := do
  if !(← anyPhrase phrases) then fail

def expectOneOf (ks : List String) : Reader String := do
  match ← oneOf ks with
  | some k => return k
  | none => fail

def takeOneOf (ks : List String) : Reader String := do
  match ← oneOf ks with
  | some k => return k
  | none => reject

def peekMark (m : String) : Reader Bool := do return (← peek) = some (.mark m)

def mark (m : String) : Reader Bool := do
  if ← peekMark m then
    advance
    return true
  else return false

def expectMark (m : String) : Reader Unit := do if !(← mark m) then fail

def inParens (p : Reader α) : Reader α := do
  expectMark "("
  let a ← p
  expectMark ")"
  return a

def commas (p : Reader α) : Reader (List α) := sepBy (mark ",") p

def commasBefore (close : String) (p : Reader α) : Reader (List α) := do
  if ← peekMark close then return [] else commas p

/-- The readers left when the first of them that takes something has done so. -/
def takeFirst : List (Reader Bool) → Reader (Option (List (Reader Bool)))
  | [] => return none
  | p :: ps => do if ← p then return some ps else return (← takeFirst ps).map (p :: ·)

/-- At most `n` of the readers, each once and in any order. -/
def eachOnce (ps : List (Reader Bool)) : Nat → Reader Unit
  | 0 => return ()
  | n + 1 => do
    if let some rest ← takeFirst ps then eachOnce rest n

def behind (ks : List String) (p : Reader α) : Reader (Option α) := do
  if ← keywords ks then return some (← p) else return none

def name : Reader Name := do
  match ← peek with
  | some (.word n _) => advance; return n
  | some (.string q s) => advance; return ⟨s, some q⟩
  | _ => reject

def word : Reader Unit := do
  match ← peek with
  | some (.word ..) => advance
  | _ => reject

def dottedNames : Reader (List Name) := sepBy (mark ".") name

end Reader
end QueryPlan.Sql
