import QueryPlan.Sql.Grammar

/-! What the rows of a query are for: to be locked, or to be written as a document. -/

namespace QueryPlan.Sql.Grammar

open Reading (again fix)
open Reader

def elementName : Reader String := do
  if ← peekMark "(" then return "('" ++ (← inParens literalText) ++ "')" else return ""

/-- Choices behind commas, each of which `choice` takes if it knows it; shown in the order of
`known`, the last text of each. -/
def choicesRule (known : List String) (choice : Reader (Option (String × String)))
    (self : List (String × String) → Reader String) (chosen : List (String × String)) :
    Reader String := do
  if ← mark "," then
    match ← choice with
    | some c => self (c :: chosen)
    | none => self chosen
  else return String.join (known.filterMap fun k => (chosen.lookup k).map (", " ++ ·))

def choices (known : List String) (choice : Reader (Option (String × String))) :
    List (String × String) → Reader String :=
  fix (choicesRule known choice)

def rootName : Reader String := do return "ROOT('" ++ (← inParens literalText) ++ "')"

def xmlResult : Reader String := do
  let kind ← match ← oneOf ["RAW", "AUTO", "EXPLICIT", "PATH"] with
    | some k => pure (k ++ (← if k = "RAW" ∨ k = "PATH" then elementName else pure ""))
    | none => failNowhere
  let choice : Reader (Option (String × String)) := do
    match ← oneOf ["ELEMENTS", "BINARY", "ROOT", "TYPE"] with
    | some "BINARY" =>
      expectKeyword "BASE64"
      return some ("BINARY", "BINARY BASE64")
    | some "ROOT" => return some ("ROOT", ← rootName)
    | k => return k.map fun k => (k, k)
  return "FOR XML " ++ kind ++ (← choices ["BINARY", "TYPE", "ROOT", "ELEMENTS"] choice [])

def jsonResult : Reader String := do
  let kind ← match ← oneOf ["AUTO", "PATH"] with
    | some k => pure k
    | none => failNowhere
  let choice : Reader (Option (String × String)) := do
    match ← oneOf ["ROOT", "INCLUDE_NULL_VALUES", "WITHOUT_ARRAY_WRAPPER"] with
    | some "ROOT" => return some ("ROOT", ← rootName)
    | k => return k.map fun k => (k, k)
  return "FOR JSON " ++ kind ++
    (← choices ["ROOT", "INCLUDE_NULL_VALUES", "WITHOUT_ARRAY_WRAPPER"] choice [])

def purposesRule (self : Reader (List String)) : Reader (List String) := do
  if ← keyword "FOR" then
    if ← keyword "XML" then return [← xmlResult]
    if ← keyword "JSON" then return [← jsonResult]
    if ← keyword "BROWSE" then return ["FOR BROWSE"]
    let kind ← expectOneOf ["UPDATE", "SHARE"]
    let table ← behind ["OF"] objectName
    let wait ← phraseText [["NOWAIT"], ["SKIP", "LOCKED"]]
    let shown := "FOR " ++ kind ++ (table.map (" OF " ++ ·)).getD "" ++ wait
    return shown :: (← self)
  else return []

def purposes : Reader (List String) := again purposesRule

end QueryPlan.Sql.Grammar
