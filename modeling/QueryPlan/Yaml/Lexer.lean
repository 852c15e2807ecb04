import QueryPlan.Yaml.Token

/-! From YAML text to tokens. Blocks begin and end with the indentation. A mapping key is only known
for one when its colon comes; until then its place among the tokens is kept open. -/

namespace QueryPlan.Yaml

/-- A place where a key may have begun. -/
structure PossibleKey where
  /-- A key is needed here: the place is in the column of a block. -/
  required : Bool
  slot : Nat
  start : Cursor

structure Lexer where
  cursor : Cursor
  /-- The tokens so far; places kept open are empty. -/
  tokens : Array (List Token) := #[]
  blocks : List Int := []
  outerKey : Option PossibleKey := none
  flowKeys : List (Option PossibleKey) := []
  keyAllowed : Bool := true

instance : Remains Lexer := ⟨fun s => s.cursor.rest.length⟩

abbrev Lex (α : Type) := Reading Lexer Unit α

namespace Lexer

def block (s : Lexer) : Int := s.blocks.headD (-1)

def inFlow (s : Lexer) : Bool := !s.flowKeys.isEmpty

def currentKey (s : Lexer) : Option PossibleKey :=
  match s.flowKeys with
  | k :: _ => k
  | [] => s.outerKey

def withKey (s : Lexer) (k : Option PossibleKey) : Lexer :=
  match s.flowKeys with
  | _ :: rest => { s with flowKeys := k :: rest }
  | [] => { s with outerKey := k }

def isStale (s : Lexer) (k : PossibleKey) : Bool :=
  k.start.line < s.cursor.line || k.start.index + 1024 < s.cursor.index

def withoutStale? (s : Lexer) : Option Lexer :=
  if s.outerKey.any fun k => k.required && s.isStale k then none
  else some { s with
    outerKey := s.outerKey.filter (!s.isStale ·)
    flowKeys := s.flowKeys.map (·.filter (!s.isStale ·)) }

def unroll (column : Int) : List Int → Array (List Token) → List Int × Array (List Token)
  | [], ts => ([], ts)
  | b :: rest, ts =>
    if b > column then unroll column rest (ts.push [.blockEnd]) else (b :: rest, ts)

end Lexer

namespace Lex

open Reading (here fail update again)

def note (f : Lexer → Lexer) : Lex Unit :=
  update (fun s => { f s with cursor := s.cursor }) fun _ => Nat.le_refl _

def emit (t : Token) : Lex Unit := note fun s => { s with tokens := s.tokens.push [t] }

def allowKey (b : Bool) : Lex Unit := note fun s => { s with keyAllowed := b }

def scan {α : Type} (p : Scan α) : Lex α where
  run s := ((p.run s.cursor).1, { s with cursor := (p.run s.cursor).2 })
  le s := p.le s.cursor

def skip (n : Nat := 1) : Lex Unit := scan (Scan.skip n)

def unrollTo (column : Int) : Lex Unit := note fun s =>
  if s.inFlow then s
  else
    let (blocks, tokens) := Lexer.unroll column s.blocks s.tokens
    { s with blocks, tokens }

def roll (column : Int) (start : Token) (slot : Option Nat) : Lex Unit := note fun s =>
  if s.inFlow ∨ column ≤ s.block then s
  else
    let tokens := match slot with
      | some i => s.tokens.modify i (start :: ·)
      | none => s.tokens.push [start]
    { s with blocks := column :: s.blocks, tokens }

def forgetKey : Lex Unit := do
  if (← here).currentKey.any (·.required) then fail ()
  note (·.withKey none)

def saveKey : Lex Unit := do
  if (← here).keyAllowed then
    forgetKey
    note fun s =>
      let required := !s.inFlow && s.block = s.cursor.column
      { s.withKey (some ⟨required, s.tokens.size, s.cursor⟩) with tokens := s.tokens.push [] }

def forgetStale : Lex Unit := do
  match (← here).withoutStale? with
  | some s => note fun _ => s
  | none => fail ()

/-- Blanks, comments and line ends before the next token. A tab is no indentation. -/
def toNextTokenRule (self : Lex Unit) : Lex Unit := do
  let s ← here
  let tabs := s.inFlow || !s.keyAllowed
  scan do
    discard (Scan.takeWhile fun c => c = ' ' || tabs && c = '\t')
    Scan.comment
  match ← scan Scan.lineBreak with
  | some _ =>
    if !s.inFlow then allowKey true
    self
  | none => return ()

def toNextToken : Lex Unit := again toNextTokenRule

def leaveBlocks : Lex Unit := do
  unrollTo (-1)
  forgetKey
  allowKey false

def openFlow (t : Token) : Lex Unit := do
  saveKey
  note fun s => { s with flowKeys := none :: s.flowKeys }
  allowKey true
  skip
  emit t

def closeFlow (t : Token) : Lex Unit := do
  forgetKey
  note fun s => { s with flowKeys := s.flowKeys.drop 1 }
  allowKey false
  skip
  emit t

def flowEntry : Lex Unit := do
  forgetKey
  allowKey true
  skip
  emit .flowEntry

def beginBlock (start : Token) : Lex Unit := do
  let s ← here
  if !s.inFlow then
    if !s.keyAllowed then fail ()
    roll s.cursor.column start none

def entry : Lex Unit := do
  beginBlock .blockSequence
  forgetKey
  allowKey true
  skip
  emit .entry

def key : Lex Unit := do
  beginBlock .blockMapping
  forgetKey
  allowKey (!(← here).inFlow)
  skip
  emit .key

def value : Lex Unit := do
  let s ← here
  match s.currentKey with
  | some k =>
    note fun s => { s.withKey none with tokens := s.tokens.modify k.slot (Token.key :: ·) }
    roll k.start.column .blockMapping (some k.slot)
    allowKey false
  | none =>
    beginBlock .blockMapping
    allowKey (!s.inFlow)
  skip
  emit .value

def within (p : Scan Token) : Lex Unit := do
  saveKey
  allowKey false
  emit (← scan p)

def plain : Lex Unit := do
  saveKey
  allowKey false
  let s ← here
  let (text, followed) ← scan (Scan.plain s.inFlow (s.block + 1).toNat)
  if followed then allowKey true
  emit (.scalar .plain (String.ofList text))

def blockScalar (folded : Bool) : Lex Unit := do
  forgetKey
  allowKey true
  skip
  let text ← scan (Scan.blockScalar folded (← here).block)
  emit (.scalar (if folded then .folded else .literal) (String.ofList text))

def quoted (single : Bool) : Lex Unit := within do
  Scan.skip
  return .scalar .quoted (String.ofList (← Scan.quoted single))

def indicators : List Char := [
  '-', '?', ':', ',', '[', ']', '\x7b', '\x7d', '#', '&', '*', '!', '|', '>', '\x27', '\x22', '%',
  '@', '\x60']

def tokenAt (c : Char) : Lex Unit := do
  let s ← here
  let parted := endsWord (s.cursor.peek 1)
  if s.cursor.column = 0 ∧ c = '%' then
    leaveBlocks
    skip
    emit (← scan Scan.directive)
  else if s.cursor.atDocumentMark then
    leaveBlocks
    skip 3
    emit (if c = '-' then .documentStart else .documentEnd)
  else if c = '[' then openFlow .flowSequence
  else if c = '\x7b' then openFlow .flowMapping
  else if c = ']' then closeFlow .flowSequenceEnd
  else if c = '\x7d' then closeFlow .flowMappingEnd
  else if c = ',' then flowEntry
  else if c = '-' ∧ parted then entry
  else if c = '?' ∧ (s.inFlow ∨ parted) then key
  else if c = ':' ∧ (s.inFlow ∨ parted) then value
  else if c = '*' then within do
    Scan.skip
    return .reference (← Scan.anchorName)
  else if c = '&' then within do
    Scan.skip
    return .anchor (← Scan.anchorName)
  else if c = '!' then within (Scan.tag s.inFlow)
  else if c = '|' ∧ !s.inFlow then blockScalar false
  else if c = '>' ∧ !s.inFlow then blockScalar true
  else if c = '\x27' then quoted true
  else if c = '\x22' then quoted false
  else if !isBlank c ∧ !indicators.contains c ∨ c = '-' ∧ !(s.cursor.peek 1).any isBlank ∨
      !s.inFlow ∧ (c = '?' ∨ c = ':') then plain
  else fail ()

def toEndRule (self : Lex Unit) : Lex Unit := do
  toNextToken
  forgetStale
  unrollTo (← here).cursor.column
  match (← here).cursor.peek with
  | none => leaveBlocks
  | some c =>
    tokenAt c
    self

def toEnd : Lex Unit := again toEndRule

end Lex

def tokens? (text : String) : Option (List Token) :=
  let cs := text.toList
  if cs.all isAllowed then
    match Lex.toEnd.run { cursor := Cursor.start cs } with
    | (.ok (), s) => some s.tokens.toList.flatten
    | (.error (), _) => none
  else none

end QueryPlan.Yaml
