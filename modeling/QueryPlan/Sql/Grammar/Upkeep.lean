import QueryPlan.Sql.Grammar.Operation

/-! Statements by which a server and its tables are looked after. -/

namespace QueryPlan.Sql.Grammar

open Reading (here again repeated)
open Reader

def kill : Reader Unit := do
  let kind ← oneOf ["CONNECTION", "QUERY", "MUTATION"]
  discard literalNumber
  if kind = some "MUTATION" then fail

/-- Tables to flush, and how. Keywords that say nothing are passed over, and the first token that is
no word ends the statement. -/
def flushTablesRule (self : Reader Unit) : Reader Unit := do
  match ← peek with
  | some (.word _ k) =>
    if k = "WITH" then
      advance
      discard (keywords ["READ", "LOCK"])
    else if k = "FOR" then
      advance
      discard (keyword "EXPORT")
    else if isKeyword k then advance
    else objectNames
    self
  | _ => skip 1

def flushTables : Reader Unit := again flushTablesRule

def flushed : List (List String) :=
  [["BINARY", "LOGS"], ["ENGINE", "LOGS"], ["ERROR", "LOGS"], ["GENERAL", "LOGS"], ["HOSTS"],
    ["PRIVILEGES"], ["OPTIMIZER_COSTS"], ["SLOW", "LOGS"], ["STATUS"], ["USER_RESOURCES"], ["LOGS"]]

def flush : Reader Unit := do
  discard (oneOf ["NO_WRITE_TO_BINLOG", "LOCAL"])
  if ← keywords ["RELAY", "LOGS"] then
    if ← keywords ["FOR", "CHANNEL"] then discard objectName
  else if ← keyword "TABLES" then flushTables
  else expectPhrase flushed

def inquiry (g : Grammar) : Reader Bool := do
  match ← oneOf ["PARTITION", "FOR", "CACHE", "NOSCAN", "COMPUTE"] with
  | some "PARTITION" => g.values
  | some "FOR" =>
    expectKeyword "COLUMNS"
    discard (attempt names)
  | some "CACHE" => expectKeyword "METADATA"
  | some "COMPUTE" => expectKeyword "STATISTICS"
  | some _ => return true
  | none => return false
  return true

def analyze (g : Grammar) : Reader Unit := do
  expectKeyword "TABLE"
  discard objectName
  repeated g.inquiry

def truncate (g : Grammar) : Reader Unit := do
  discard (keyword "TABLE")
  discard (keyword "ONLY")
  objectNames
  if ← keyword "PARTITION" then g.values
  onCluster

def attachment (g : Grammar) : Reader Unit := do
  discard (keyword "DATABASE")
  discard g.anyExpression
  expectKeyword "AS"
  discard name

def repair : Reader Unit := do
  discard (keyword "REPAIR")
  expectKeyword "TABLE"
  discard objectName
  discard <| attempt do
    discard (oneOf ["ADD", "DROP", "SYNC"])
    expectKeyword "PARTITIONS"

def cached (g : Grammar) : Reader Unit := do
  discard objectName
  g.properties "OPTIONS"
  match ← peek with
  | none => return ()
  | some (.word ..) =>
    discard (keyword "AS")
    discard g.query
  | _ => fail

def cache (g : Grammar) : Reader Unit := do
  if ← keyword "TABLE" then g.cached
  else
    let start ← here
    discard objectName
    if ← keyword "TABLE" then g.cached
    else if (← peek).isNone then failAt (start.drop (start.length - 1))
    else fail

def uncache : Reader Unit := do
  expectKeyword "TABLE"
  discard ifExists
  discard objectName

def pragmaValue : Reader Unit := do
  match ← peek with
  | some (.string ..) => advance
  | _ => literalQuantity

def pragma : Reader Unit := do
  discard objectName
  if ← peekMark "(" then inParens pragmaValue
  else if ← mark "=" then pragmaValue

def assertion (g : Grammar) : Reader Unit := do
  discard g.anyExpression
  if ← keyword "AS" then discard g.anyExpression

end QueryPlan.Sql.Grammar
