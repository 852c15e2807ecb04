import QueryPlan.Sql.Grammar.Operation

/-! Statements about a session: its variables and transactions, its cursors and prepared statements,
the tables it locks, what it asks the server to show, and who may do what in it. -/

namespace QueryPlan.Sql.Grammar

open Reading (fix here update)
open Reader

def transactionModesRule (self : Bool → Reader Unit) (required : Bool) : Reader Unit := do
  if ← keywords ["ISOLATION", "LEVEL"] then
    expectPhrase [["READ", "UNCOMMITTED"], ["READ", "COMMITTED"], ["REPEATABLE", "READ"],
      ["SERIALIZABLE"]]
    self (← mark ",")
  else if ← anyPhrase [["READ", "ONLY"], ["READ", "WRITE"]] then self (← mark ",")
  else if required then fail

def transactionModesIf : Bool → Reader Unit := fix transactionModesRule

def transactionModes : Reader Unit := transactionModesIf false

def chained : Reader Unit := do
  discard (oneOf ["TRANSACTION", "WORK"])
  if ← keyword "AND" then
    discard (keyword "NO")
    expectKeyword "CHAIN"

def rollback : Reader Unit := do
  chained
  if ← keyword "TO" then
    discard (keyword "SAVEPOINT")
    discard name

def settingValue (g : Grammar) : Reader Unit := do
  if (← peekKeyword) ∈ ["SELECT", "WITH"] then discard g.query
  else if (← tolerate g.anyExpression).isNone then fail

def assignedSetting (g : Grammar) (modified : Bool) : Reader Unit := do
  let target ← if ← keywords ["TIME", "ZONE"] then pure "TIMEZONE" else objectName
  if target.toUpper = "NAMES" then
    if !(← keyword "DEFAULT") then
      discard literalText
      if ← keyword "COLLATE" then discard literalText
  else if ← mark "=" <||> keyword "TO" then discard (commas g.settingValue)
  else if target.toUpper = "TIMEZONE" then
    if (← tolerate g.anyExpression).isNone then fail
  else if target = "CHARACTERISTICS" then
    expectKeywords ["AS", "TRANSACTION"]
    transactionModes
  else if target = "TRANSACTION" ∧ !modified then
    if ← keyword "SNAPSHOT" then discard literal else transactionModes
  else fail

def setting (g : Grammar) : Reader Unit := do
  let modifier ← oneOf ["SESSION", "LOCAL", "HIVEVAR"]
  if modifier = some "HIVEVAR" then
    expectMark ":"
    g.assignedSetting true
  else
    let role ← attempt do
      expectKeyword "ROLE"
      discard name
    if role.isNone then g.assignedSetting modifier.isSome

def shownFilter (g : Grammar) : Reader Unit := do
  if (← oneOf ["LIKE", "ILIKE"]).isSome then discard literalText
  else if ← keyword "WHERE" then discard g.anyExpression
  else discard (attempt literalText)

def skipVariable : Reader Unit :=
  update (·.dropWhile fun t => t.symbol ≠ .mark "=") fun _ => (List.dropWhile_sublist _).length_le

def showRelations (g : Grammar) : Reader Unit := do
  if (← oneOf ["FROM", "IN"]).isSome then discard name
  g.shownFilter

def showing (g : Grammar) : Reader Unit := do
  let extended ← keyword "EXTENDED"
  let full ← keyword "FULL"
  discard (keyword "SESSION")
  discard (keyword "GLOBAL")
  if (← oneOf ["COLUMNS", "FIELDS"]).isSome then
    discard (expectOneOf ["FROM", "IN"])
    discard objectName
    g.showRelations
  else if ← anyPhrase [["TABLES"], ["MATERIALIZED", "VIEWS"], ["VIEWS"]] then g.showRelations
  else if ← keyword "FUNCTIONS" then g.shownFilter
  else if extended ∨ full then failNowhere
  else if ← keyword "CREATE" then
    discard (expectOneOf ["TABLE", "TRIGGER", "FUNCTION", "PROCEDURE", "EVENT", "VIEW"])
    discard objectName
  else if (← oneOf ["COLLATION", "VARIABLES", "STATUS", "DATABASES", "SCHEMAS"]).isSome then
    g.shownFilter
  else skipVariable

def tableLock : Reader Unit := do
  discard name
  discard (aliasName ["READ", "WRITE", "LOW_PRIORITY"])
  expectPhrase [["READ", "LOCAL"], ["READ"], ["WRITE"], ["LOW_PRIORITY", "WRITE"]]

def declare (g : Grammar) : Reader Unit := do
  discard name
  discard (keyword "BINARY")
  discard (oneOf ["INSENSITIVE", "ASENSITIVE"])
  discard (anyPhrase [["SCROLL"], ["NO", "SCROLL"]])
  expectKeyword "CURSOR"
  if (← oneOf ["WITH", "WITHOUT"]).isSome then expectKeyword "HOLD"
  expectKeyword "FOR"
  discard g.query

def direction : Reader Unit := do
  match ← oneOf ["NEXT", "PRIOR", "FIRST", "LAST", "ALL", "ABSOLUTE", "RELATIVE", "FORWARD",
      "BACKWARD"] with
  | some "ABSOLUTE" | some "RELATIVE" | none => literalQuantity
  | some "FORWARD" | some "BACKWARD" => if !(← keyword "ALL") then literalQuantity
  | some _ => return ()

def fetchRows : Reader Unit := do
  direction
  discard (expectOneOf ["FROM", "IN"])
  discard name
  if ← keyword "INTO" then discard objectName

def prepare (statement : Reader Unit) : Reader Unit := do
  discard name
  if ← peekMark "(" then discard (inParens (commas dataType))
  expectKeyword "AS"
  statement

def execute (g : Grammar) : Reader Unit := do
  discard objectName
  if ← peekMark "(" then discard (inParens (commasBefore ")" g.anyExpression))
  else if (← peek).isSome ∧ !(← peekMark ";") ∧ (← peekKeyword) ≠ "USING" then
    discard g.expressionTexts
  if ← keyword "USING" then discard g.expressionTexts

def callProcedure (g : Grammar) : Reader Unit := do
  let n ← dottedNames
  if ← peekMark "(" then discard (g.call n)

def privilege : Reader Unit := do
  match ← expectOneOf ["CONNECT", "CREATE", "DELETE", "EXECUTE", "INSERT", "REFERENCES", "SELECT",
      "TEMPORARY", "TRIGGER", "TRUNCATE", "UPDATE", "USAGE"] with
  | "INSERT" | "REFERENCES" | "SELECT" | "UPDATE" => discard optionalColumns
  | _ => return ()

def privileges : Reader Unit := do
  if ← keyword "ALL" then discard (keyword "PRIVILEGES")
  else discard (commas privilege)
  expectKeyword "ON"
  discard (anyPhrase [["ALL", "TABLES", "IN", "SCHEMA"], ["ALL", "SEQUENCES", "IN", "SCHEMA"],
    ["SEQUENCE"], ["SCHEMA"], ["TABLE"]])
  objectNames

def grantor : Reader Unit := do
  if ← keywords ["GRANTED", "BY"] then discard name

def grant : Reader Unit := do
  privileges
  expectKeyword "TO"
  names
  discard (keywords ["WITH", "GRANT", "OPTION"])
  grantor

def revoke : Reader Unit := do
  privileges
  expectKeyword "FROM"
  names
  grantor
  let start ← here
  let cascade ← keyword "CASCADE"
  let restrict ← keyword "RESTRICT"
  if cascade ∧ restrict then failAt start

end QueryPlan.Sql.Grammar
