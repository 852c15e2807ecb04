import QueryPlan.Sql.Grammar.Operation

/-! The columns of tables and the constraints on them. They are read for what they are, and nothing
is kept. -/

namespace QueryPlan.Sql.Grammar

open Reading (repeated)
open Reader

def sequenceNumber : Reader Unit := do
  if !(← mark "+") then discard (mark "-")
  literalQuantity

def sequenceEnd (k : String) : Reader Unit := do
  if ← keyword k then sequenceNumber else discard (keywords ["NO", k])

def sequenceOptions : Reader Unit := do
  if ← keyword "INCREMENT" then
    discard (keyword "BY")
    sequenceNumber
  sequenceEnd "MINVALUE"
  sequenceEnd "MAXVALUE"
  if ← keyword "START" then
    discard (keyword "WITH")
    sequenceNumber
  if ← keyword "CACHE" then sequenceNumber
  discard (anyPhrase [["NO", "CYCLE"], ["CYCLE"]])

def characteristics : Reader Unit :=
  eachOnce [
    anyPhrase [["NOT", "DEFERRABLE"], ["DEFERRABLE"]],
    do
      if ← keyword "INITIALLY" then
        discard (expectOneOf ["DEFERRED", "IMMEDIATE"])
        return true
      else return false,
    anyPhrase [["ENFORCED"], ["NOT", "ENFORCED"]]] 3

def referentialActions : Reader Unit := do
  let action (change : String) : Reader Bool := do
    if ← keywords ["ON", change] then
      expectPhrase
        [["RESTRICT"], ["CASCADE"], ["SET", "NULL"], ["NO", "ACTION"], ["SET", "DEFAULT"]]
      return true
    else return false
  eachOnce [action "DELETE", action "UPDATE"] 2

def computed (g : Grammar) : Reader Unit := do
  g.condition
  discard (oneOf ["STORED", "VIRTUAL"])

def generated (g : Grammar) : Reader Bool := do
  if ← anyPhrase [["ALWAYS", "AS", "IDENTITY"], ["BY", "DEFAULT", "AS", "IDENTITY"]] then
    if ← peekMark "(" then inParens sequenceOptions
    return true
  else if ← keywords ["ALWAYS", "AS"] then
    if ← peekMark "(" then
      g.computed
      return true
    else return false
  else return false

def reference : Reader Unit := do
  discard objectName
  discard optionalColumns
  referentialActions
  characteristics

/-- What begins with none of the common words. Some words count for nothing, but are taken. -/
def rareColumnOption (g : Grammar) : Reader Bool := do
  discard (keyword "AUTOINCREMENT")
  discard (keyword "ASC")
  discard (keyword "DESC")
  if ← keywords ["ON", "UPDATE"] then
    discard g.anyExpression
    return true
  else if ← keyword "GENERATED" then g.generated
  else if ← keyword "AS" then
    g.computed
    return true
  else
    discard (keyword "IDENTITY")
    return false

def columnOption (g : Grammar) : Reader Bool := do
  if ← anyPhrase [["NOT", "NULL"], ["NULL"], ["AUTO_INCREMENT"]] then return true
  else if ← keywords ["CHARACTER", "SET"] then discard objectName
  else if ← keyword "COMMENT" then discard quotedText
  else if ← keyword "DEFAULT" then discard g.anyExpression
  else if ← anyPhrase [["PRIMARY", "KEY"], ["UNIQUE"]] then characteristics
  else if ← keyword "REFERENCES" then reference
  else if ← keyword "CHECK" then g.condition
  else return ← g.rareColumnOption
  return true

def columnOptions (g : Grammar) : Reader Unit := repeated g.columnOption

def columnPart (g : Grammar) : Reader Bool := do
  if ← keyword "CONSTRAINT" then
    discard name
    if ← g.columnOption then return true else fail
  else if ← g.columnOption then return true
  else if ← keyword "COLLATE" then
    discard objectName
    return true
  else return false

def columnDefinition (g : Grammar) : Reader Unit := do
  discard name
  discard dataType
  if ← keyword "COLLATE" then discard objectName
  repeated g.columnPart

def indexKind : Reader Bool := do
  if ← keyword "USING" then
    discard (expectOneOf ["BTREE", "HASH"])
    return true
  else return false

def keyColumns : Reader Unit := do
  discard (attempt name)
  discard indexKind
  discard columns

def keyOption : Reader Bool := do
  if ← indexKind then return true
  else if ← keyword "COMMENT" then
    discard literalText
    return true
  else return false

def key : Reader Unit := do
  keyColumns
  repeated keyOption
  characteristics

def tableConstraint (g : Grammar) : Reader Bool := do
  let named := (← behind ["CONSTRAINT"] name).isSome
  let k ← peekKeyword
  if k ∈ ["INDEX", "KEY", "FULLTEXT", "SPATIAL"] ∧ named then reject
  match k with
  | "UNIQUE" =>
    advance
    discard (oneOf ["KEY", "INDEX"])
    key
  | "PRIMARY" =>
    advance
    expectKeyword "KEY"
    key
  | "FOREIGN" =>
    advance
    expectKeyword "KEY"
    discard columns
    expectKeyword "REFERENCES"
    discard objectName
    discard columns
    referentialActions
    characteristics
  | "CHECK" =>
    advance
    g.condition
  | "INDEX" | "KEY" =>
    advance
    if (← peekKeyword) = "USING" then
      discard indexKind
      discard columns
    else keyColumns
  | "FULLTEXT" | "SPATIAL" =>
    advance
    discard (oneOf ["KEY", "INDEX"])
    discard (attempt name)
    discard columns
  | _ => if named then reject else return false
  return true

def tableElement (g : Grammar) : Reader Unit := do
  if !(← g.tableConstraint) then
    match ← peek with
    | some (.word ..) => g.columnDefinition
    | _ => fail

def tableElements (g : Grammar) : Reader Unit := do
  if ← peekMark "(" then discard (inParens (commasBefore ")" g.tableElement))

end QueryPlan.Sql.Grammar
