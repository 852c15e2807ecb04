import QueryPlan.Sql.Grammar.JsonTable
import QueryPlan.Sql.Grammar.Operation
import QueryPlan.Sql.Syntax

/-! The tables that a query reads from, some with rows turned into columns or columns into rows. -/

namespace QueryPlan.Sql.Grammar

open Reading (again fix many)
open Reader

def tableAlias : Reader String := do
  match ← aliasName reservedForTables with
  | some n => return " AS " ++ n.shown ++ (← optionalColumns)
  | none => return ""

def newName : Reader String := do
  return ((← behind ["AS"] name).map (" AS " ++ ·.shown)).getD ""

def aggregate (g : Grammar) : Reader String := do
  match ← next with
  | some (.word n _) => return (← g.call [⟨n.text, none⟩]).text ++ (← newName)
  | _ => fail

def pivotValues (g : Grammar) : Reader String := do
  if ← keyword "ANY" then
    return "ANY" ++ ((← behind ["ORDER", "BY"] g.orderItems).map (" ORDER BY " ++ ·)).getD ""
  else if (← peekKeyword) ∈ ["SELECT", "WITH"] then g.query
  else return listed (← commas do return (← g.expressionText) ++ (← newName))

def pivot (g : Grammar) : Reader String := do
  let body ← inParens do
    let aggregates ← commas g.aggregate
    expectKeyword "FOR"
    let column ← objectName
    expectKeyword "IN"
    let values ← inParens g.pivotValues
    let missing ← behind ["DEFAULT", "ON", "NULL"] (inParens g.expressionText)
    return listed aggregates ++ " FOR " ++ column ++ " IN (" ++ values ++ ")" ++
      (missing.map (" DEFAULT ON NULL (" ++ · ++ ")")).getD ""
  return " PIVOT(" ++ body ++ ")" ++ (← tableAlias)

def unpivot : Reader String := do
  let body ← inParens do
    let value ← name
    expectKeyword "FOR"
    let column ← name
    expectKeyword "IN"
    return value.shown ++ " FOR " ++ column.shown ++ " IN (" ++ (← columns) ++ ")"
  return " UNPIVOT(" ++ body ++ ")" ++ (← tableAlias)

def turnedRule (g : Grammar) (self : Table → Reader Table) (t : Table) : Reader Table := do
  match ← oneOf ["PIVOT", "UNPIVOT"] with
  | some "PIVOT" => self (.other (t.text ++ (← g.pivot)))
  | some _ => self (.other (t.text ++ (← unpivot)))
  | none => return t

def turned (g : Grammar) : Table → Reader Table := fix g.turnedRule

def derived (g : Grammar) (lateral : String) : Reader Table := do
  let q ← g.query
  expectMark ")"
  return .other (lateral ++ "(" ++ q ++ ")" ++ (← tableAlias))

def namedTable (g : Grammar) : Reader Table := do
  let n ← dottedNames
  let partitions ← behind ["PARTITION"] columns
  let arguments ← if ← mark "(" then
      if ← mark ")" then pure "()" else
        let as ← commas g.argument
        expectMark ")"
        pure ("(" ++ listed as ++ ")")
    else pure ""
  let ordinality ← phraseText [["WITH", "ORDINALITY"]]
  let shownAlias ← tableAlias
  let hints ←
    if (← peekKeyword) = "WITH" ∧ (← peek 1) = some (.mark "(") then
      advance
      let hs ← inParens g.expressionTexts
      pure (" WITH (" ++ listed hs ++ ")")
    else pure ""
  let before := (partitions.map ("PARTITION (" ++ · ++ ")")).getD "" ++ arguments ++ ordinality
  g.turned <| if shownAlias.isEmpty then .named n (before ++ hints)
    else .other (dotted n ++ before ++ shownAlias ++ hints)

def joinCondition (g : Grammar) (natural : Bool) : Reader String := do
  if natural then return ""
  else if ← keyword "ON" then return " ON " ++ (← g.expressionText)
  else if ← keyword "USING" then return " USING(" ++ (← columns) ++ ")"
  else return ""

def joinKind (natural : Bool) : Reader (Option String) := do
  match ← peekKeyword with
  | "INNER" | "JOIN" =>
    discard (keyword "INNER")
    expectKeyword "JOIN"
    return some "JOIN"
  | "LEFT" => advance; side "LEFT"
  | "RIGHT" => advance; side "RIGHT"
  | "FULL" =>
    advance
    discard (keyword "OUTER")
    expectKeyword "JOIN"
    return some "FULL JOIN"
  | _ => if natural then fail else return none
where
  side (k : String) : Reader (Option String) := do
    match ← oneOf ["OUTER", "SEMI", "ANTI", "JOIN"] with
    | some "JOIN" => return some (k ++ " JOIN")
    | some "OUTER" =>
      expectKeyword "JOIN"
      return some (k ++ " JOIN")
    | some kind =>
      expectKeyword "JOIN"
      return some (k ++ " " ++ kind ++ " JOIN")
    | none => failNowhere

def join (g : Grammar) (table : Reader Table) : Reader (Option String) := do
  let everywhere ← phraseText [["GLOBAL"]]
  let plain (kind : String) : Reader (Option String) := do
    return some (everywhere ++ kind ++ (← table).text)
  if ← keyword "CROSS" then
    match ← expectOneOf ["JOIN", "APPLY"] with
    | "JOIN" => plain " CROSS JOIN "
    | _ => plain " CROSS APPLY "
  else if ← keyword "OUTER" then
    expectKeyword "APPLY"
    plain " OUTER APPLY "
  else if ← keyword "ASOF" then
    expectKeyword "JOIN"
    let t ← table
    expectKeyword "MATCH_CONDITION"
    let e ← inParens g.expressionText
    return some (everywhere ++ " ASOF JOIN " ++ t.text ++ " MATCH_CONDITION (" ++ e ++ ")" ++
      (← g.joinCondition false))
  else
    let natural ← keyword "NATURAL"
    match ← joinKind natural with
    | none => return none
    | some kind =>
      let t ← table
      return some (everywhere ++ (if natural then " NATURAL " else " ") ++ kind ++ " " ++ t.text ++
        (← g.joinCondition natural))

def simpleTable (g : Grammar) : Reader Table := do
  if ← keyword "LATERAL" then
    if ← mark "(" then g.derived "LATERAL "
    else
      let n ← objectName
      let as ← inParens (commasBefore ")" g.argument)
      return .other ("LATERAL " ++ n ++ "(" ++ listed as ++ ")" ++ (← tableAlias))
  else if ← keyword "TABLE" then
    let e ← inParens g.expressionText
    return .other ("TABLE(" ++ e ++ ")" ++ (← tableAlias))
  else if (← peekKeyword) = "JSON_TABLE" ∧ (← peek 1) = some (.mark "(") then
    skip 2
    let t ← g.jsonTable
    return .other (t ++ (← tableAlias))
  else g.namedTable

def tableRule (g : Grammar) (self : Reader (Table × Bool)) : Reader (Table × Bool) := do
  if ← mark "(" then
    if let some t ← attempt (g.derived "") then return (← g.turned t, false)
    let (t, isJoin) ← self
    let js ← many (g.join do return (← self).1)
    if js.isEmpty ∧ !isJoin then fail
    expectMark ")"
    return (.other ("(" ++ (Source.mk t js).text ++ ")" ++ (← tableAlias)), true)
  else return (← g.simpleTable, false)

def table (g : Grammar) : Reader (Table × Bool) := again g.tableRule

def source (g : Grammar) : Reader Source := do
  let table := do return (← g.table).1
  return ⟨← table, ← many (g.join table)⟩

end QueryPlan.Sql.Grammar
