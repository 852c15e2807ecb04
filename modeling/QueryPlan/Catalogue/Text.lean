import QueryPlan.Error
import QueryPlan.Catalogue
import QueryPlan.Text.Lines
import QueryPlan.Text.Decimal

/-! The line format of catalogues, `Name:Tuples:Attr:Count,Attr:Count`. Blank lines and lines that
start with `#` do not count. -/

namespace QueryPlan.Catalogue

inductive LineError
  | malformed (fault : LineFault)
  | refused (error : PlanError)

def trim (cs : List Char) : List Char := Text.trimEnd (Text.trimStart cs)

def readCount (cs : List Char) : Except LineError Count :=
  match Count.ofText? (trim cs) with
  | some n => .ok n
  | none => .error (.malformed (.notACount (String.ofList (trim cs))))

def refuse {α : Type} : Except PlanError α → Except LineError α
  | .ok a => .ok a
  | .error e => .error (.refused e)

def readEntry (relation : String) (c : Catalogue) (entry : List Char) :
    Except LineError Catalogue :=
  match trim entry with
  | [] => .ok c
  | entry =>
    match Text.cut ':' entry with
    | (_, none) => .error (.malformed (.noAttributeCount (String.ofList entry)))
    | (name, some count) =>
      match trim name with
      | [] => .error (.malformed .noAttributeName)
      | name => do
        let n ← readCount count
        refuse (c.createAttribute relation (String.ofList name) n)

def readLine (c : Catalogue) (line : List Char) : Except LineError Catalogue :=
  let (name, rest) := Text.cut ':' line
  match trim name, rest with
  | [], _ => .error (.malformed .noName)
  | name, none => .error (.malformed (.noTupleCount (String.ofList name)))
  | name, some rest => do
    let name := String.ofList name
    let (tuples, entries) := Text.cut ':' rest
    let n ← readCount tuples
    let c ← refuse (c.createRelation name n)
    match entries with
    | none => return c
    | some entries => (Text.split ',' entries).foldlM (readEntry name) c

def isSignificant : List Char → Bool
  | [] => false
  | c :: _ => c != '#'

def readLines (c : Catalogue) : Nat → List (List Char) → Except SourceError Catalogue
  | _, [] => .ok c
  | number, line :: rest =>
    let line := trim line
    if isSignificant line then
      match c.readLine line with
      | .ok c => readLines c (number + 1) rest
      | .error (.malformed f) => .error (.line number f)
      | .error (.refused e) => .error (.plan e)
    else readLines c (number + 1) rest

def ofText (src : String) : Except SourceError Catalogue :=
  empty.readLines 1 (Text.split '\n' src.toList)

end QueryPlan.Catalogue
