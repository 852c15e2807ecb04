import QueryPlan.Sql.Grammar.Table

/-! Statements that define objects or drop them. -/

namespace QueryPlan.Sql.Grammar

open Reading (here again repeated)
open Reader

def view (g : Grammar) : Reader Unit := do
  discard objectName
  discard anyColumns
  g.properties "WITH"
  if ← keyword "CLUSTER" then
    expectKeyword "BY"
    discard optionalColumns
  expectKeyword "AS"
  discard g.query

def newIndex (g : Grammar) : Reader Unit := do
  discard (keyword "CONCURRENTLY")
  let named ← ifNotExists
  if named ∨ (← peekKeyword) ≠ "ON" then discard objectName
  expectKeyword "ON"
  discard objectName
  if ← keyword "USING" then discard name
  discard (inParens g.orderItems)
  if ← keyword "INCLUDE" then discard columns
  if ← keyword "NULLS" then
    discard (keyword "NOT")
    expectKeyword "DISTINCT"
  discard g.whereText

def virtualTable : Reader Unit := do
  expectKeyword "TABLE"
  discard ifNotExists
  discard objectName
  expectKeyword "USING"
  discard name
  discard anyColumns

def newSchema : Reader Unit := do
  discard ifNotExists
  if (← peekKeyword) ≠ "AUTHORIZATION" then discard objectName
  if ← keyword "AUTHORIZATION" then discard name

def databasePlace : Reader Bool := do
  match ← oneOf ["LOCATION", "MANAGEDLOCATION"] with
  | some _ =>
    discard literalText
    return true
  | none => return false

def newDatabase : Reader Unit := do
  discard ifNotExists
  discard objectName
  repeated databasePlace

def newRole : Reader Unit := do
  discard ifNotExists
  objectNames
  discard (keyword "WITH")

def newSequence : Reader Unit := do
  discard ifNotExists
  discard objectName
  if ← keyword "AS" then discard dataType
  sequenceOptions
  if ← keywords ["OWNED", "BY"] then
    if !(← keyword "NONE") then discard objectName

def partsRule (part : Reader Unit) (self : Reader Unit) : Reader Unit := do
  part
  let more ← mark ","
  if !(← mark ")") then
    if more then self else fail

def parts (part : Reader Unit) : Reader Unit := again (partsRule part)

def anyParts (part : Reader Unit) : Reader Unit := do
  if ← mark "(" then
    if !(← mark ")") then parts part

def newType : Reader Unit := do
  discard objectName
  expectKeyword "AS"
  if ← keyword "ENUM" then discard (inParens (commasBefore ")" name))
  else
    anyParts do
      discard name
      discard dataType
      if ← keyword "COLLATE" then discard objectName

def procedure (statements : Reader Unit) : Reader Unit := do
  discard objectName
  anyParts do
    if let some (.word ..) ← peek then
      advance
      discard dataType
  expectKeywords ["AS", "BEGIN"]
  statements
  expectKeyword "END"

def extension : Reader Unit := do
  discard ifNotExists
  discard name
  if ← keyword "WITH" then
    if ← keyword "SCHEMA" then discard name
    if ← keyword "VERSION" then discard name
    discard (keyword "CASCADE")

def policyRules (g : Grammar) : Reader Unit := do
  if ← keyword "TO" then names
  if ← keyword "USING" then g.condition
  if ← keywords ["WITH", "CHECK"] then g.condition

def newPolicy (g : Grammar) : Reader Unit := do
  discard name
  expectKeyword "ON"
  discard objectName
  if ← keyword "AS" then discard (expectOneOf ["PERMISSIVE", "RESTRICTIVE"])
  if ← keyword "FOR" then discard (expectOneOf ["ALL", "SELECT", "INSERT", "UPDATE", "DELETE"])
  g.policyRules

def newSecret : Reader Unit := do
  discard ifNotExists
  if !(← peekMark "(") then
    let placed ← if ← keyword "IN" then pure (← tolerate name).isSome else
      discard (tolerate name)
      pure false
    if !placed then
      if ← keyword "IN" then discard (tolerate name)
  inParens do
    expectKeyword "TYPE"
    discard name
    if ← mark "," then
      discard <| commas do
        discard name
        discard name

def replaceable : List String := ["TABLE", "MATERIALIZED", "VIEW", "POLICY", "EXTERNAL", "SECRET"]

def unique : List String :=
  ["EXTENSION", "INDEX", "VIRTUAL", "SCHEMA", "DATABASE", "ROLE", "SEQUENCE", "TYPE", "PROCEDURE"]

def create (g : Grammar) (statements : Reader Unit) : Reader Unit := do
  let replaces ← keywords ["OR", "REPLACE"]
  discard (keywords ["OR", "ALTER"])
  discard (keyword "LOCAL")
  discard (keyword "GLOBAL")
  discard (keyword "TRANSIENT")
  discard (oneOf ["TEMP", "TEMPORARY"])
  if (← peekKeyword) = "CONSTRAINT" ∧ (← peekKeyword 1) = "TRIGGER" then
    advance
    fail
  if !replaces then
    if ← keywords ["UNIQUE", "INDEX"] then return ← g.newIndex
  match ← expectOneOf (replaceable ++ if replaces then [] else unique) with
  | "TABLE" => g.newTable
  | "MATERIALIZED" =>
    expectKeyword "VIEW"
    g.view
  | "VIEW" => g.view
  | "POLICY" => g.newPolicy
  | "EXTERNAL" => g.externalTable
  | "SECRET" => newSecret
  | "EXTENSION" => extension
  | "INDEX" => g.newIndex
  | "VIRTUAL" => virtualTable
  | "SCHEMA" => newSchema
  | "DATABASE" => newDatabase
  | "ROLE" => newRole
  | "SEQUENCE" => newSequence
  | "TYPE" => newType
  | _ => procedure statements

/-- An argument by which a function is told from others of its name. An unknown type is taken for
the argument's name. -/
def argumentType (g : Grammar) : Reader Unit := do
  discard (oneOf ["IN", "OUT", "INOUT"])
  if let .custom _ ← DataType.read then discard dataType
  let preset ← keyword "DEFAULT" <||> mark "="
  if preset then discard g.anyExpression

def dropFunctions (g : Grammar) : Reader Unit := do
  discard ifExists
  discard <| commas do
    discard objectName
    if ← peekMark "(" then discard (inParens (commasBefore ")" g.argumentType))
  discard (oneOf ["CASCADE", "RESTRICT"])

/-- Objects of one kind. What depends on them is either dropped with them or forbids it; for roles
neither can be said. -/
def dropObjects (kind : String) : Reader Unit := do
  discard ifExists
  objectNames
  let start ← here
  let cascade ← keyword "CASCADE"
  let restrict ← keyword "RESTRICT"
  let purge ← keyword "PURGE"
  if cascade ∧ restrict ∨ kind = "ROLE" ∧ (cascade ∨ restrict ∨ purge) then failAt start

def drop (g : Grammar) : Reader Unit := do
  discard (keyword "TEMPORARY")
  match ← expectOneOf ["TABLE", "VIEW", "INDEX", "ROLE", "SCHEMA", "DATABASE", "SEQUENCE", "STAGE",
      "TYPE", "FUNCTION", "PROCEDURE", "POLICY", "SECRET"] with
  | "FUNCTION" | "PROCEDURE" => g.dropFunctions
  | "POLICY" =>
    discard ifExists
    discard name
    expectKeyword "ON"
    discard objectName
    discard (oneOf ["CASCADE", "RESTRICT"])
  | "SECRET" =>
    discard ifExists
    discard name
    if ← keyword "FROM" then discard (tolerate name)
  | kind => dropObjects kind

end QueryPlan.Sql.Grammar
