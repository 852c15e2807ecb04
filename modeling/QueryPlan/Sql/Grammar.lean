import QueryPlan.Sql.DataType

/-! What one level of nesting knows of the levels inside it. Statements, queries and expressions
open a level each; a rule of the grammar reads its parts through the readers given here, so that
rules need not refer to each other. -/

namespace QueryPlan.Sql

structure Grammar where
  /-- An expression whose operators bind tighter than the given precedence. -/
  expression : Nat → Reader Expression
  query : Reader String

namespace Grammar

open Reader

def anyExpression (g : Grammar) : Reader Expression := g.expression 0

def expressionText (g : Grammar) : Reader String := do return (← g.anyExpression).text

def expressionTexts (g : Grammar) : Reader (List String) := commas g.expressionText

def dataType : Reader String := do return (← DataType.read).shown

def objectName : Reader String := do return dotted (← dottedNames)

def objectNames : Reader Unit := discard (commas objectName)

def names : Reader Unit := discard (commas name)

def condition (g : Grammar) : Reader Unit := discard (inParens g.anyExpression)

def values (g : Grammar) : Reader Unit := discard (inParens g.expressionTexts)

def columns : Reader String := do
  return listed ((← inParens (commas name)).map Name.shown)

def optionalColumns : Reader String := do
  if ← peekMark "(" then return " (" ++ (← columns) ++ ")" else return ""

def orderItem (g : Grammar) : Reader String := do
  let e ← g.expressionText
  let direction ← oneOf ["ASC", "DESC"]
  let nulls ← phraseText [["NULLS", "FIRST"], ["NULLS", "LAST"]]
  return e ++ (direction.map (" " ++ ·)).getD "" ++ nulls

def orderItems (g : Grammar) : Reader String := do return listed (← commas g.orderItem)

def property (g : Grammar) : Reader Unit := do
  discard name
  expectMark "="
  discard g.anyExpression

def properties (g : Grammar) (k : String) : Reader Unit := do
  if ← keyword k then discard (inParens (commasBefore ")" g.property))

def ifNotExists : Reader Bool := keywords ["IF", "NOT", "EXISTS"]

def ifExists : Reader Bool := keywords ["IF", "EXISTS"]

def onCluster : Reader Unit := do
  if ← keywords ["ON", "CLUSTER"] then discard name

def aliasName (reserved : List String) : Reader (Option Name) := do
  let explicit ← keyword "AS"
  match ← peek with
  | some (.word n k) =>
    if explicit ∨ k ∉ reserved then
      advance
      return some n
    else return none
  | some (.string q s) =>
    advance
    return some ⟨s, some q⟩
  | _ => if explicit then reject else return none

end Grammar

end QueryPlan.Sql
