import QueryPlan.Yaml.Lexer

/-! The content of a YAML document, read from its tokens. Anchors are kept apart from the tree: an
alias refers to the number of its anchor, and a table tells which node has which number. -/

namespace QueryPlan.Yaml

inductive Node
  | scalar (tag : Option String) (style : Style) (text : String)
  | sequence (tag : Option String) (items : List Node)
  | mapping (tag : Option String) (entries : List (Node × Node))
  | reference (number : Nat)

structure Anchored where
  number : Nat
  place : Nat
  node : Node

abbrev Stems := List (String × String)

structure NodeReader where
  tokens : List Token
  stems : Stems
  /-- Numbers of the anchors so far. An anchor that is used again gets a new number, the count of
  the different names before it. -/
  numbers : List (String × Nat) := []
  places : Nat := 0
  anchored : List Anchored := []

instance : Remains NodeReader := ⟨fun s => s.tokens.length⟩

abbrev Read (α : Type) := Reading NodeReader Unit α

namespace Read

open Reading (here fail update again fix many repeated)

def note (f : NodeReader → NodeReader) : Read Unit :=
  update (fun s => { f s with tokens := s.tokens }) fun _ => Nat.le_refl _

def peek : Read (Option Token) := do return (← here).tokens.head?

def skip : Read Unit := do
  if (← peek).isNone then fail ()
  update (fun s => { s with tokens := s.tokens.drop 1 }) fun s => by simp [Remains.remaining]

def takes (t : Token) : Read Bool := do
  if (← peek) = some t then
    skip
    return true
  else return false

def ahead (ts : List Token) : Read Bool := do return (← peek).any ts.contains

def place : Read Nat := do
  let n := (← here).places
  note fun s => { s with places := n + 1 }
  return n

def number (name : String) : Read Nat := do
  let n := (← here).numbers.length
  note fun s => { s with numbers := (name, n) :: s.numbers.filter (·.1 ≠ name) }
  return n

def fullTag (handle suffix : String) : Read String := do
  if handle.isEmpty then return suffix
  match (← here).stems.lookup handle with
  | some stem => return stem ++ suffix
  | none => fail ()

def properties : Read (Option String × Option String) := do
  let anchor : Read (Option String) := do
    match ← peek with
    | some (.anchor n) => skip; return some n
    | _ => return none
  let tag : Read (Option String) := do
    match ← peek with
    | some (.tag h s) => skip; return some (← fullTag h s)
    | _ => return none
  match ← anchor with
  | some a => return (some a, ← tag)
  | none =>
    match ← tag with
    | some t => return (← anchor, some t)
    | none => return (none, none)

def anchoring (name : Option String) (content : Read Node) : Read Node := do
  let start ← place
  match name with
  | none => content
  | some name =>
    let n ← number name
    let node ← content
    note fun s => { s with anchored := ⟨n, start, node⟩ :: s.anchored }
    return node

def blank (anchor tag : Option String) : Read Node :=
  anchoring anchor (return .scalar tag .plain "")

def emptyScalar : Read Node := blank none none

def ended {α : Type} (p : Read α) : Read α := do
  let a ← p
  discard place
  return a

def blockItem (node : Read Node) (ends : List Token) : Read (Option Node) := do
  if ← takes .entry then return some (← if ← ahead ends then emptyScalar else node)
  else return none

def flowItemsRule {α : Type} (close : Token) (item : Read α) (self : Read (List α)) :
    Read (List α) := do
  if ← takes close then return []
  let a ← item
  if ← takes .flowEntry then return a :: (← self)
  else if ← takes close then return [a]
  else fail ()

def flowItems {α : Type} (close : Token) (item : Read α) : Read (List α) :=
  again (flowItemsRule close item)

def valueBefore (node : Read Node) (ends : List Token) : Read Node := do
  if ← takes .value then
    if ← ahead ends then emptyScalar else node
  else emptyScalar

def entryBefore (node : Read Node) (ends : List Token) : Read (Node × Node) := do
  let k ← if ← ahead (.value :: ends) then emptyScalar else node
  return (k, ← valueBefore node ends)

def pair (node : Read Node) : Read Node := anchoring none <| ended do
  let k ← if ← ahead [.value, .flowEntry, .flowSequenceEnd] then
      skip
      emptyScalar
    else node
  return .mapping none [(k, ← valueBefore node [.flowEntry, .flowSequenceEnd])]

def closed (close : Token) : Read Unit := do if !(← takes close) then fail ()

def blockSequence (node : Read Node) : Read (List Node) := ended do
  let is ← many (blockItem node [.entry, .blockEnd])
  closed .blockEnd
  return is

def sameColumnSequence (node : Read Node) : Read (List Node) :=
  ended (many (blockItem node [.entry, .key, .value, .blockEnd]))

def blockEntry (node : Read Node) : Read (Option (Node × Node)) := do
  if ← takes .key then return some (← entryBefore node [.key, .value, .blockEnd]) else return none

def blockMapping (node : Read Node) : Read (List (Node × Node)) := ended do
  let es ← many (blockEntry node)
  closed .blockEnd
  return es

def flowSequence (node : Read Node) : Read (List Node) :=
  ended (flowItems .flowSequenceEnd do if ← takes .key then pair node else node)

def flowMapping (node : Read Node) : Read (List (Node × Node)) :=
  ended <| flowItems .flowMappingEnd do
    if ← takes .key then entryBefore node [.flowEntry, .flowMappingEnd]
    else return (← node, ← emptyScalar)

inductive Position
  | flow
  | block
  | entry
deriving DecidableEq

def aliased (name : String) : Read Node := do
  skip
  discard place
  match (← here).numbers.lookup name with
  | some n => return .reference n
  | none => fail ()

def nodeRule (self : Position → Read Node) (position : Position) : Read Node := do
  if let some (.reference name) ← peek then return ← aliased name
  let (anchor, tag) ← properties
  let next ← peek
  match next with
  | some (.scalar style text) =>
    skip
    anchoring anchor do return .scalar (tag.filter (· ≠ "!")) style text
  | some .flowSequence =>
    skip
    anchoring anchor do return .sequence tag (← flowSequence (self .flow))
  | some .flowMapping =>
    skip
    anchoring anchor do return .mapping tag (← flowMapping (self .flow))
  | _ =>
    if next = some .entry ∧ position = .entry then
      anchoring anchor do return .sequence tag (← sameColumnSequence (self .block))
    else if next = some .blockSequence ∧ position ≠ .flow then
      skip
      anchoring anchor do return .sequence tag (← blockSequence (self .block))
    else if next = some .blockMapping ∧ position ≠ .flow then
      skip
      anchoring anchor do return .mapping tag (← blockMapping (self .entry))
    else if anchor.isSome ∨ tag.isSome then blank anchor tag
    else fail ()

def node : Position → Read Node := fix nodeRule

/-- The directives before a document, added to the handles before them. Of versions, 1.1 and 1.2 are
known. -/
def directivesRule (self : Bool × Stems → Read Stems) : Bool × Stems → Read Stems
  | (versioned, stems) => do
    match ← peek with
    | some (.version major minor) =>
      if versioned ∨ major ≠ 1 ∨ !(minor = 1 ∨ minor = 2) then fail ()
      skip
      self (true, stems)
    | some (.tagStem handle stem) =>
      if (stems.lookup handle).isSome then fail ()
      skip
      self (versioned, stems ++ [(handle, stem)])
    | _ => return stems

def directivesFrom : Bool × Stems → Read Stems := fix directivesRule

def startsDocument : Option Token → Bool
  | some (.version ..) | some (.tagStem ..) | some .documentStart => true
  | _ => false

def standardStems : Stems := [("!", "!"), ("!!", "tag:yaml.org,2002:")]

/-- The only document of a text, and nothing after it; a text may also have none. -/
def document : Read (Option Node) := do
  if (← peek).isNone then return none
  let root ←
    if startsDocument (← peek) then do
      let stems ← directivesFrom (false, [])
      note fun s => { s with stems := stems ++ standardStems }
      closed .documentStart
      let t ← peek
      if t.isNone ∨ t = some .documentEnd ∨ startsDocument t then emptyScalar
      else node .block
    else node .block
  repeated (takes .documentEnd)
  if (← peek).isSome then fail ()
  return some root

end Read

structure Document where
  root : Option Node
  anchored : List Anchored
  places : Nat

namespace Document

def target? (d : Document) (number : Nat) : Option Node :=
  let found := d.anchored.filter (·.number = number)
  (found.foldl (fun best a =>
    match best with
    | none => some a
    | some b => if b.place < a.place then some a else best) none).map (·.node)

def ofText? (text : String) : Option Document := do
  let ts ← tokens? text
  match Read.document.run { tokens := ts, stems := Read.standardStems } with
  | (.ok root, s) => some ⟨root, s.anchored, s.places⟩
  | (.error (), _) => none

end Document
end QueryPlan.Yaml
