import QueryPlan.Sql.Grammar.Select

/-! Statements that change the rows of tables, and the query they can stand in. Insertions and
updates are read into their text for this; deletions and mergers leave nothing. -/

namespace QueryPlan.Sql.Grammar

open Reading (again)
open Reader

def assignment (g : Grammar) : Reader String := do
  let target ←
    if ← peekMark "(" then pure ("(" ++ listed (← inParens (commas objectName)) ++ ")")
    else objectName
  expectMark "="
  return target ++ " = " ++ (← g.expressionText)

def assignments (g : Grammar) : Reader String := do return listed (← commas g.assignment)

def whereText (g : Grammar) : Reader String := do
  return ((← behind ["WHERE"] g.expressionText).map (" WHERE " ++ ·)).getD ""

def returning (g : Grammar) : Reader String := do
  match ← behind ["RETURNING"] (commas g.item) with
  | some is => return " RETURNING " ++ listed (is.map Item.text)
  | none => return ""

def fileFormat : Reader String :=
  takeOneOf ["AVRO", "JSONFILE", "ORC", "PARQUET", "RCFILE", "SEQUENCEFILE", "TEXTFILE"]

def anyColumns : Reader (List Name) := do
  if ← peekMark "(" then inParens (commasBefore ")" name) else return []

def inserted (g : Grammar) : Reader String := do
  if ← keywords ["DEFAULT", "VALUES"] then return "DEFAULT VALUES"
  let ns ← anyColumns
  let columns := if ns.isEmpty then "" else "(" ++ listed (ns.map Name.shown) ++ ") "
  let partition ← behind ["PARTITION"] (inParens g.expressionTexts)
  let source ← g.query
  return columns ++ (partition.map fun es => "PARTITION (" ++ listed es ++ ") ").getD "" ++ source

def conflict (g : Grammar) : Reader String := do
  if !(← keyword "ON") then return ""
  if ← keyword "CONFLICT" then
    let target ← if ← keywords ["ON", "CONSTRAINT"] then pure (" ON CONSTRAINT " ++ (← objectName))
      else
        if ← peekMark "(" then pure ("(" ++ (← columns) ++ ")") else pure ""
    expectKeyword "DO"
    if ← keyword "NOTHING" then return " ON CONFLICT" ++ target ++ " DO NOTHING"
    expectKeywords ["UPDATE", "SET"]
    let values ← g.assignments
    return " ON CONFLICT" ++ target ++ " DO UPDATE SET " ++ values ++ (← g.whereText)
  else
    expectKeywords ["DUPLICATE", "KEY", "UPDATE"]
    return " ON DUPLICATE KEY UPDATE " ++ (← g.assignments)

def insertFiles (g : Grammar) : Reader String := do
  let path ← literalText
  let format ← behind ["STORED", "AS"] fileFormat
  let source ← g.query
  return " DIRECTORY '" ++ path ++ "'" ++ (format.map (" STORED AS " ++ ·)).getD "" ++ " " ++ source

def insert (g : Grammar) (verb : String) : Reader String := do
  let priority ← oneOf ["LOW_PRIORITY", "DELAYED", "HIGH_PRIORITY"]
  let ignore ← phraseText [["IGNORE"]]
  let action ← oneOf ["INTO", "OVERWRITE"]
  let here ← keyword "LOCAL"
  if ← keyword "DIRECTORY" then
    let replaces := if action = some "OVERWRITE" then " OVERWRITE" else ""
    return "INSERT" ++ replaces ++ (if here then " LOCAL" else "") ++ (← g.insertFiles)
  let table ← phraseText [["TABLE"]]
  let n ← objectName
  let rows ← g.inserted
  let rowAlias ← behind ["AS"] do return " AS " ++ (← objectName) ++ (← optionalColumns)
  let conflict ← g.conflict
  let back ← g.returning
  return verb ++ (priority.map (" " ++ ·)).getD "" ++ ignore ++ (action.map (" " ++ ·)).getD "" ++
    table ++ " " ++ n ++ " " ++ rows ++ rowAlias.getD "" ++ conflict ++ back

def update (g : Grammar) : Reader String := do
  let t ← g.source
  expectKeyword "SET"
  let values ← g.assignments
  discard (keyword "FROM")
  let condition ← g.whereText
  return "UPDATE " ++ t.text ++ " SET " ++ values ++ condition ++ (← g.returning)

def delete (g : Grammar) : Reader Unit := do
  if !(← keyword "FROM") then
    discard (commas objectName)
    expectKeyword "FROM"
  discard (commas g.source)
  discard (behind ["USING"] (commas g.source))
  discard g.whereText
  discard g.returning
  discard (behind ["ORDER", "BY"] g.orderItems)
  discard <| behind ["LIMIT"] do if ← keyword "ALL" then return "" else g.expressionText

def mergeInsertion (g : Grammar) : Reader Unit := do
  discard anyColumns
  expectKeyword "VALUES"
  discard g.rows

def mergeClause (g : Grammar) : Reader Unit := do
  let negated ← keyword "NOT"
  expectKeyword "MATCHED"
  let bySource ← if negated then keywords ["BY", "SOURCE"] else pure false
  if negated ∧ !bySource then discard (keywords ["BY", "TARGET"])
  if ← keyword "AND" then discard g.anyExpression
  expectKeyword "THEN"
  let inserts := negated ∧ !bySource
  match ← oneOf ["UPDATE", "INSERT", "DELETE"] with
  | some "UPDATE" =>
    if inserts then failNowhere
    expectKeyword "SET"
    discard g.assignments
  | some "DELETE" => if inserts then failNowhere
  | some _ => if inserts then g.mergeInsertion else failNowhere
  | none => failNowhere

def mergeClausesRule (g : Grammar) (self : Reader Unit) : Reader Unit := do
  if (← peek).isSome ∧ !(← peekMark ";") then
    expectKeyword "WHEN"
    g.mergeClause
    self

def mergeClauses (g : Grammar) : Reader Unit := again g.mergeClausesRule

def merge (g : Grammar) : Reader Unit := do
  discard (keyword "INTO")
  discard g.table
  expectKeyword "USING"
  discard g.table
  expectKeyword "ON"
  discard g.anyExpression
  g.mergeClauses

def queryHere (g : Grammar) : Reader Retrieval := do
  let definitions ← g.definitions
  if ← keyword "INSERT" then return ⟨definitions, .other (← g.insert "INSERT"), []⟩
  if ← keyword "UPDATE" then return ⟨definitions, .other (← g.update), []⟩
  let body ← g.combinedFrom (0, ← g.simpleBody)
  let order ← behind ["ORDER", "BY"] g.orderItems
  let limits ← g.limits
  let fetched ← fetch
  let purposes ← purposes
  return ⟨definitions, body, (order.map ("ORDER BY " ++ ·)).toList ++ limits ++ fetched ++ purposes⟩

/-- The grammar with so many levels left to open. -/
def ofLevels : Nat → Grammar
  | 0 => ⟨fun _ => failDeep, failDeep⟩
  | levels + 1 =>
    let inner := ofLevels levels
    ⟨inner.expressionHere, do return (← inner.queryHere).text⟩

end QueryPlan.Sql.Grammar
