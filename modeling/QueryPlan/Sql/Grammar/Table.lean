import QueryPlan.Sql.Grammar.Change
import QueryPlan.Sql.Grammar.Column

/-! Definitions of tables: their columns, the files that hold them, and how these are written. -/

namespace QueryPlan.Sql.Grammar

open Reading (repeated)
open Reader

def delimiter : Reader Bool := do
  let behindAll (ks : List String) : Reader Bool := do return (← behind ks name).isSome
  match ← oneOf ["FIELDS", "COLLECTION", "MAP", "LINES", "NULL"] with
  | some "FIELDS" =>
    if ← behindAll ["TERMINATED", "BY"] then
      discard (behindAll ["ESCAPED", "BY"])
      return true
    else return false
  | some "COLLECTION" => behindAll ["ITEMS", "TERMINATED", "BY"]
  | some "MAP" => behindAll ["KEYS", "TERMINATED", "BY"]
  | some "LINES" => behindAll ["TERMINATED", "BY"]
  | some _ => behindAll ["DEFINED", "AS"]
  | none => return false

def rowFormat : Reader Unit := do
  expectKeyword "FORMAT"
  if ← keyword "SERDE" then discard literalText
  else
    discard (keyword "DELIMITED")
    repeated delimiter

def storage (g : Grammar) : Reader Bool := do
  if ← keyword "ROW" then rowFormat
  else if ← keyword "STORED" then
    expectKeyword "AS"
    if ← keyword "INPUTFORMAT" then
      discard g.anyExpression
      expectKeyword "OUTPUTFORMAT"
      discard g.anyExpression
    else discard fileFormat
  else if ← keyword "LOCATION" then discard literalText
  else if ← keywords ["WITH", "SERDEPROPERTIES"] then
    discard (inParens (commas g.property))
  else return false
  return true

def distribution (g : Grammar) : Reader Unit := do
  if ← keywords ["PARTITIONED", "BY"] then
    discard (inParens (commas g.columnDefinition))
  repeated g.storage

def engine : Reader Unit := do
  if ← keyword "ENGINE" then
    expectMark "="
    word
    if ← peekMark "(" then discard columns

def firstNumber : Reader Unit := do
  if ← keyword "AUTO_INCREMENT" then
    discard (mark "=")
    match ← peek with
    | some (.number digits _) =>
      match Text.decimal? digits.toList with
      | some n => if n < UInt32.size then advance else reject
      | none => reject
    | _ => reject

def sortingKey (g : Grammar) : Reader Unit := do
  if ← keywords ["ORDER", "BY"] then
    if ← peekMark "(" then discard (inParens (commasBefore ")" g.anyExpression))
    else discard g.anyExpression

def tableOptions (g : Grammar) : Reader Unit := do
  g.properties "WITH"
  g.properties "TBLPROPERTIES"
  engine
  firstNumber
  g.sortingKey
  if ← keywords ["DEFAULT", "CHARSET"] then
    expectMark "="
    word
  if ← keyword "COLLATE" then
    expectMark "="
    word
  discard (anyPhrase [["ON", "COMMIT", "DELETE", "ROWS"], ["ON", "COMMIT", "PRESERVE", "ROWS"],
    ["ON", "COMMIT", "DROP"]])
  discard (keyword "STRICT")
  if ← keyword "COMMENT" then
    discard (mark "=")
    discard quotedText

/-- A new table. A name that cannot be read behind `LIKE` or `CLONE` is passed over. -/
def newTable (g : Grammar) : Reader Unit := do
  discard ifNotExists
  discard objectName
  onCluster
  if (← oneOf ["LIKE", "ILIKE"]).isSome then discard (tolerate objectName)
  if ← keyword "CLONE" then discard (tolerate objectName)
  g.tableElements
  discard (keywords ["WITHOUT", "ROWID"])
  g.distribution
  g.tableOptions
  if ← keyword "AS" then discard g.query

def externalTable (g : Grammar) : Reader Unit := do
  expectKeyword "TABLE"
  discard ifNotExists
  discard objectName
  g.tableElements
  g.distribution
  g.properties "TBLPROPERTIES"

end QueryPlan.Sql.Grammar
