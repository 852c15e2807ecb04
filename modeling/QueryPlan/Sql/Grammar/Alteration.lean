import QueryPlan.Sql.Grammar.Definition

/-! Statements that alter what has been defined. -/

namespace QueryPlan.Sql.Grammar

open Reading (repeated)
open Reader

def columnPlace : Reader Unit := do
  if !(← keyword "FIRST") then
    if ← keyword "AFTER" then discard name

def columnChange (g : Grammar) : Reader Unit := do
  discard dataType
  g.columnOptions
  columnPlace

def newPartition (g : Grammar) : Reader Bool := do
  return (← behind ["PARTITION"] g.values).isSome

def addition (g : Grammar) : Reader Unit := do
  if ← g.tableConstraint then return ()
  discard ifNotExists
  if (← peekKeyword) = "PARTITION" then repeated g.newPartition
  else
    discard (keyword "COLUMN")
    g.columnDefinition
    columnPlace

def newNames : Reader Unit := do
  if ← keyword "TO" then discard objectName
  else
    discard (keyword "COLUMN")
    discard name
    expectKeyword "TO"
    discard name

def removal (g : Grammar) : Reader Unit := do
  if ← anyPhrase [["IF", "EXISTS", "PARTITION"], ["PARTITION"]] then g.values
  else if ← keyword "CONSTRAINT" then named
  else if ← keywords ["PRIMARY", "KEY"] then return ()
  else
    discard (keyword "PROJECTION")
    discard (keyword "COLUMN")
    named
where
  named : Reader Unit := do
    discard ifExists
    discard name
    discard (keyword "CASCADE")

def columnAlteration (g : Grammar) : Reader Unit := do
  discard (keyword "COLUMN")
  discard name
  if ← anyPhrase [["SET", "NOT", "NULL"], ["DROP", "NOT", "NULL"], ["DROP", "DEFAULT"]] then
    return ()
  else if ← keywords ["SET", "DEFAULT"] then discard g.anyExpression
  else if ← keywords ["SET", "DATA", "TYPE"] then discard dataType
  else if ← keywords ["ADD", "GENERATED"] then
    discard (anyPhrase [["ALWAYS"], ["BY", "DEFAULT"]])
    expectKeywords ["AS", "IDENTITY"]
    if ← peekMark "(" then inParens sequenceOptions
  else fail

def enabled : List (List String) :=
  [["ALWAYS", "RULE"], ["ALWAYS", "TRIGGER"], ["REPLICA", "RULE"], ["REPLICA", "TRIGGER"], ["RULE"],
    ["TRIGGER"]]

def security : Reader Bool := keywords ["ROW", "LEVEL", "SECURITY"]

/-- One alteration of a table. The words for projections count for nothing, but are taken. -/
def alteration (g : Grammar) : Reader Unit := do
  match ← oneOf ["ADD", "RENAME", "DISABLE", "ENABLE"] with
  | some "ADD" => g.addition
  | some "RENAME" => newNames
  | some "DISABLE" =>
    if !(← security) then
      discard (expectOneOf ["RULE", "TRIGGER"])
      discard name
  | some _ =>
    if !(← security) then
      expectPhrase enabled
      discard name
  | none =>
    discard (keywords ["CLEAR", "PROJECTION"])
    discard (keywords ["MATERIALIZE", "PROJECTION"])
    match ← oneOf ["DROP", "PARTITION", "CHANGE", "MODIFY", "ALTER", "SWAP"] with
    | some "DROP" => g.removal
    | some "PARTITION" =>
      g.values
      expectKeywords ["RENAME", "TO", "PARTITION"]
      g.values
    | some "CHANGE" =>
      discard (keyword "COLUMN")
      discard name
      discard name
      g.columnChange
    | some "MODIFY" =>
      discard (keyword "COLUMN")
      discard name
      g.columnChange
    | some "ALTER" => g.columnAlteration
    | some _ =>
      expectKeyword "WITH"
      discard objectName
    | none =>
      if ← keywords ["SET", "TBLPROPERTIES"] then discard (inParens (commas g.property))
      else fail

def alterTable (g : Grammar) : Reader Unit := do
  discard ifExists
  discard (keyword "ONLY")
  discard objectName
  onCluster
  discard (commas g.alteration)
  if ← anyPhrase [["LOCATION"], ["SET", "LOCATION"]] then discard name

def alter (g : Grammar) : Reader Unit := do
  match ← expectOneOf ["VIEW", "TABLE", "INDEX", "ROLE", "POLICY"] with
  | "VIEW" =>
    discard objectName
    discard optionalColumns
    g.properties "WITH"
    expectKeyword "AS"
    discard g.query
  | "TABLE" => g.alterTable
  | "INDEX" =>
    discard objectName
    expectKeywords ["RENAME", "TO"]
    discard objectName
  | "ROLE" => failNowhere
  | _ =>
    discard name
    expectKeyword "ON"
    discard objectName
    if ← keyword "RENAME" then
      expectKeyword "TO"
      discard name
    else g.policyRules

end QueryPlan.Sql.Grammar
