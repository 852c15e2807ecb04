import QueryPlan.Sql.Grammar.Operand

/-! Tables made of a JSON text: their columns, the paths of these, and what stands in for a value
that is not there. -/

namespace QueryPlan.Sql.Grammar

open Reading (again fix)
open Reader

def jsonPath : Reader String := do return (← literal).text

def standIn : Reader (Option String) := do
  let shown ←
    match ← oneOf ["NULL", "ERROR", "DEFAULT"] with
    | some "DEFAULT" => pure (some ("DEFAULT " ++ (← jsonPath)))
    | shown => pure shown
  if shown.isSome then expectKeyword "ON"
  return shown

/-- What stands in where a path leads nowhere, and where it fails; of several the last counts. -/
def standInsRule (self : String × String → Reader String) : String × String → Reader String
  | (empty, error) => do
    match ← standIn with
    | none => return empty ++ error
    | some s =>
      if ← keyword "EMPTY" then self (" " ++ s ++ " ON EMPTY", error)
      else
        expectKeyword "ERROR"
        self (empty, " " ++ s ++ " ON ERROR")

def standInsFrom : String × String → Reader String := fix standInsRule

def jsonColumnRule (self : Reader String) : Reader String := do
  if ← keyword "NESTED" then
    discard (keyword "PATH")
    let path ← jsonPath
    expectKeyword "COLUMNS"
    return "NESTED PATH " ++ path ++ " COLUMNS (" ++ listed (← inParens (commas self)) ++ ")"
  else
    let n ← name
    if ← keyword "FOR" then
      expectKeyword "ORDINALITY"
      return n.shown ++ " FOR ORDINALITY"
    else
      let type ← dataType
      let tested ← keyword "EXISTS"
      expectKeyword "PATH"
      let path ← jsonPath
      return n.shown ++ " " ++ type ++ (if tested then " EXISTS" else "") ++ " PATH " ++ path ++
        (← standInsFrom ("", ""))

def jsonColumn : Reader String := again jsonColumnRule

def jsonColumns : Reader String := do return listed (← inParens (commas jsonColumn))

def jsonTable (g : Grammar) : Reader String := do
  let e ← g.expressionText
  expectMark ","
  let path ← jsonPath
  expectKeyword "COLUMNS"
  let columns ← jsonColumns
  expectMark ")"
  return "JSON_TABLE(" ++ e ++ ", " ++ path ++ " COLUMNS(" ++ columns ++ "))"

end QueryPlan.Sql.Grammar
