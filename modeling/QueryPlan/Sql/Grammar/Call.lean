import QueryPlan.Sql.Grammar

/-! Intervals of time, and calls of functions with what may follow their arguments. -/

namespace QueryPlan.Sql

def timeUnits : List String := [
  "YEAR", "MONTH", "WEEK", "DAY", "HOUR", "MINUTE", "SECOND", "CENTURY", "DECADE", "DOW", "DOY",
  "EPOCH", "ISODOW", "ISOYEAR", "JULIAN", "MICROSECOND", "MICROSECONDS", "MILLENIUM", "MILLENNIUM",
  "MILLISECOND", "MILLISECONDS", "NANOSECOND", "NANOSECONDS", "QUARTER", "TIMEZONE",
  "TIMEZONE_HOUR", "TIMEZONE_MINUTE"]

def dateFields : List String :=
  ["DAYOFWEEK", "DAYOFYEAR", "DATE", "DATETIME", "ISOWEEK", "TIME", "TIMEZONE_ABBR",
    "TIMEZONE_REGION"]

inductive Starred
  | all
  | allOf (names : List Name)
  | expression (e : Expression)

def Starred.text : Starred → String
  | all => "*"
  | allOf names => dotted names ++ ".*"
  | expression e => e.text

namespace Grammar

open Reading (here again)
open Reader

def dateField : Reader String := takeOneOf (timeUnits ++ dateFields)

def interval (g : Grammar) : Reader Expression := do
  let value ← g.expressionText
  let unit ← expectOneOf timeUnits
  if unit = "SECOND" then
    let p ← DataType.precisionAndScale
    return .other ("INTERVAL " ++ value ++ " SECOND" ++ spaced (p.replace "," ", "))
  else
    let p ← DataType.precision
    let last ← behind ["TO"] do
      let last ← dateField
      let p ← if last = "SECOND" then DataType.precision else pure ""
      return " TO " ++ last ++ spaced p
    return .other ("INTERVAL " ++ value ++ " " ++ unit ++ spaced p ++ last.getD "")
where
  spaced (s : String) : String := if s.isEmpty then s else " " ++ s

/-- Names up to a star, each behind a full stop; no answer if the names end without one. -/
def namesToStarRule (self : Reader (Option (List Name))) : Reader (Option (List Name)) := do
  if ← mark "." then
    match ← peek with
    | some (.word n _) => advance; return (← self).map (n :: ·)
    | some (.string '\x27' s) => advance; return (← self).map (⟨s, some '\x27'⟩ :: ·)
    | some (.mark "*") => advance; return some []
    | _ => reject
  else return none

def namesToStar : Reader (Option (List Name)) := again namesToStarRule

def starredFrom (g : Grammar) (first : Name) : Reader Starred := do
  match ← perhaps do advance; namesToStar with
  | some names => return .allOf (first :: names)
  | none => return .expression (← g.anyExpression)

def starred (g : Grammar) : Reader Starred := do
  match ← peek with
  | some (.word n _) => g.starredFrom n
  | some (.string '\x27' s) => g.starredFrom ⟨s, some '\x27'⟩
  | some (.mark "*") => advance; return .all
  | _ => return .expression (← g.anyExpression)

def argument (g : Grammar) : Reader String := do
  if (← peek 1) = some (.mark "=>") then
    let n ← name
    advance
    return n.shown ++ " => " ++ (← g.starred).text
  else return (← g.starred).text

def quantifier : Reader String := do
  let start ← here
  let all ← keyword "ALL"
  let distinct ← keyword "DISTINCT"
  if all ∧ distinct then failAt start
  return if all then "ALL " else if distinct then "DISTINCT " else ""

def overflow (g : Grammar) : Reader String := do
  if !(← keywords ["ON", "OVERFLOW"]) then return ""
  if ← keyword "ERROR" then return " ON OVERFLOW ERROR"
  expectKeyword "TRUNCATE"
  let filler ← match ← peek with
    | some (.word _ "WITH") | some (.word _ "WITHOUT") => pure ""
    | some (.string '\x27' _) | some (.national _) | some (.escaped _) | some (.hex _) =>
      pure (" " ++ (← g.expressionText))
    | _ => fail
  let counted ← expectOneOf ["WITH", "WITHOUT"]
  expectKeyword "COUNT"
  return " ON OVERFLOW TRUNCATE" ++ filler ++ " " ++ counted ++ " COUNT"

def arguments (g : Grammar) : Reader String := do
  if ← mark ")" then return ""
  let q ← quantifier
  let args ← commas g.argument
  let order ← behind ["ORDER", "BY"] g.orderItems
  let limit ← behind ["LIMIT"] g.expressionText
  let separator ← behind ["SEPARATOR"] do return (← literal).text
  let overflow ← g.overflow
  expectMark ")"
  return q ++ listed args ++ (order.map (" ORDER BY " ++ ·)).getD "" ++
    (limit.map (" LIMIT " ++ ·)).getD "" ++ (separator.map (" SEPARATOR " ++ ·)).getD "" ++ overflow

def frameBound (g : Grammar) : Reader String := do
  if ← keywords ["CURRENT", "ROW"] then return "CURRENT ROW"
  let rows ←
    if ← keyword "UNBOUNDED" then pure "UNBOUNDED"
    else if let some (.string '\x27' _) ← peek then pure (← g.interval).text
    else g.expressionText
  return rows ++ " " ++ (← expectOneOf ["PRECEDING", "FOLLOWING"])

def frame (g : Grammar) : Reader String := do
  let unit ← takeOneOf ["ROWS", "RANGE", "GROUPS"]
  if ← keyword "BETWEEN" then
    let first ← g.frameBound
    expectKeyword "AND"
    return unit ++ " BETWEEN " ++ first ++ " AND " ++ (← g.frameBound)
  else return unit ++ " " ++ (← g.frameBound)

def window (g : Grammar) : Reader String := do
  let base ← match ← peek with
    | some (.word n k) =>
      if isKeyword k then pure [] else
        advance
        pure [n.shown]
    | _ => pure []
  let partition ← behind ["PARTITION", "BY"] g.expressionTexts
  let order ← behind ["ORDER", "BY"] g.orderItems
  let range ← if ← mark ")" then pure [] else
    let f ← g.frame
    expectMark ")"
    pure [f]
  return " ".intercalate (base ++ (partition.map fun es => "PARTITION BY " ++ listed es).toList ++
    (order.map ("ORDER BY " ++ ·)).toList ++ range)

def nullTreatment : Reader String := do
  match ← oneOf ["RESPECT", "IGNORE"] with
  | some k =>
    expectKeyword "NULLS"
    return " " ++ k ++ " NULLS"
  | none => return ""

def call (g : Grammar) (function : List Name) : Reader Expression := do
  expectMark "("
  let args ← g.arguments
  let group ← behind ["WITHIN", "GROUP"] <| inParens do
    expectKeywords ["ORDER", "BY"]
    g.orderItems
  let nulls ← nullTreatment
  let window ← behind ["OVER"] do
    if ← mark "(" then return "(" ++ (← g.window) ++ ")" else return (← name).shown
  return .other (dotted function ++ "(" ++ args ++ ")" ++
    (group.map fun o => " WITHIN GROUP (ORDER BY " ++ o ++ ")").getD "" ++ nulls ++
    (window.map (" OVER " ++ ·)).getD "")

end Grammar
end QueryPlan.Sql
