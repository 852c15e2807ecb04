import QueryPlan.Sql.Grammar.Purpose
import QueryPlan.Sql.Grammar.Source

/-! Queries: selections, what combines them, and the clauses around them. -/

namespace QueryPlan.Sql.Grammar

open Reading (here fix many)
open Reader

def item (g : Grammar) : Reader Item := do
  match ← g.starred with
  | .all => return .all
  | .allOf names => return .other (Starred.allOf names).text
  | .expression e =>
    if let .name ⟨text, none⟩ := e then
      if text.toLower = "from" then fail
    match ← aliasName reservedForColumns with
    | some n => return .other (e.text ++ " AS " ++ n.shown)
    | none => return .expression e

def distinct (g : Grammar) : Reader (Option String) := do
  if (← quantifier) = "DISTINCT " then
    if ← keyword "ON" then
      let es ← inParens do if ← peekMark ")" then return [] else g.expressionTexts
      return some ("DISTINCT ON (" ++ listed es ++ ")")
    else return some "DISTINCT"
  else return none

def top (g : Grammar) : Reader String := do
  let quantity ←
    if ← peekMark "(" then pure ("(" ++ (← inParens g.expressionText) ++ ")")
    else literalNumber
  let percent ← phraseText [["PERCENT"]]
  let ties ← phraseText [["WITH", "TIES"]]
  return "TOP " ++ quantity ++ percent ++ ties

def into : Reader String := do
  let temporary ← if (← oneOf ["TEMP", "TEMPORARY"]).isSome then pure " TEMPORARY" else pure ""
  let unlogged ← phraseText [["UNLOGGED"]]
  let table ← phraseText [["TABLE"]]
  return "INTO" ++ temporary ++ unlogged ++ table ++ " " ++ (← objectName)

def lateralView (g : Grammar) : Reader (Option String) := behind ["LATERAL", "VIEW"] do
  let outer ← phraseText [["OUTER"]]
  let e ← g.expressionText
  let n ← objectName
  let aliases ← commas (aliasName ["WHERE", "GROUP", "CLUSTER", "HAVING", "LATERAL"])
  let aliases := aliases.filterMap id
  return "LATERAL VIEW" ++ outer ++ " " ++ e ++ " " ++ n ++
    if aliases.isEmpty then "" else " AS " ++ listed (aliases.map Name.shown)

def grouping (g : Grammar) : Reader (List String) := do
  let groups ← behind ["GROUP", "BY"] do
    if ← keyword "ALL" then return "ALL" else return listed (← g.expressionTexts)
  let clusters ← behind ["CLUSTER", "BY"] g.expressionTexts
  let parts ← behind ["DISTRIBUTE", "BY"] g.expressionTexts
  let sorted ← behind ["SORT", "BY"] g.expressionTexts
  return (groups.map ("GROUP BY " ++ ·)).toList ++
    (clusters.map ("CLUSTER BY " ++ listed ·)).toList ++
    (parts.map ("DISTRIBUTE BY " ++ listed ·)).toList ++
    (sorted.map ("SORT BY " ++ listed ·)).toList

def namedWindow (g : Grammar) : Reader String := do
  let n ← name
  expectKeyword "AS"
  expectMark "("
  return n.shown ++ " AS (" ++ (← g.window) ++ ")"

def windows (g : Grammar) : Reader (List String) := do
  let named : Reader (Option String) := do
    return (← behind ["WINDOW"] (commas g.namedWindow)).map ("WINDOW " ++ listed ·)
  let qualify : Reader (Option String) := do
    return (← behind ["QUALIFY"] g.expressionText).map ("QUALIFY " ++ ·)
  if (← peekKeyword) = "WINDOW" then return (← named).toList ++ (← qualify).toList
  else return (← qualify).toList ++ (← named).toList

def select (g : Grammar) : Reader Select := do
  expectKeyword "SELECT"
  let distinct ← g.distinct
  let top ← behind ["TOP"] g.top
  let items ← commas g.item
  let into ← behind ["INTO"] into
  let sources ← behind ["FROM"] (commas g.source)
  let views ← many g.lateralView
  let condition ← behind ["WHERE"] g.anyExpression
  let grouping ← g.grouping
  let having ← behind ["HAVING"] g.expressionText
  let windows ← g.windows
  return { distinct, top, items, into, sources := sources.getD [], views, condition, grouping,
           having, windows }

def row (g : Grammar) : Reader (Bool × String) := do
  let explicit ← keyword "ROW"
  return (explicit, "(" ++ listed (← inParens (commasBefore ")" g.expressionText)) ++ ")")

def rows (g : Grammar) : Reader String := do
  let rs ← commas g.row
  let opening := if rs.any (·.1) then "ROW" else ""
  return "VALUES " ++ listed (rs.map fun r => opening ++ r.2)

/-- A table as a query. The two tokens after its name are taken too, whatever they are. -/
def tableName : Reader String := do
  let start ← here
  match ← peek, ← peek 1, ← peek 2 with
  | some (.word a _), some (.mark "."), some (.word b _) =>
    skip 3
    return a.text ++ "." ++ b.text
  | some (.word _ _), some (.mark "."), _ =>
    skip 2
    reject
  | some (.word a _), _, _ =>
    skip 3
    return a.text
  | _, _, _ =>
    skip 3
    failAt start

def combiner (least : Nat) : Reader (Option (String × Nat)) := do
  let k ← oneOf ((if least < 20 then ["INTERSECT"] else []) ++
    if least < 10 then ["UNION", "EXCEPT"] else [])
  return k.map fun k => (k, if k = "INTERSECT" then 20 else 10)

def combinerQuantifier : Reader String := do
  if ← keywords ["DISTINCT", "BY", "NAME"] then return " DISTINCT BY NAME"
  else if ← keywords ["BY", "NAME"] then return " BY NAME"
  else if ← keyword "ALL" then
    if ← keywords ["BY", "NAME"] then return " ALL BY NAME" else return " ALL"
  else if ← keyword "DISTINCT" then return " DISTINCT"
  else return ""

def simpleBody (g : Grammar) : Reader Body := do
  if (← peekKeyword) = "SELECT" then return .select (← g.select)
  else if ← mark "(" then
    let q ← g.query
    expectMark ")"
    return .other ("(" ++ q ++ ")")
  else if ← keyword "VALUES" then return .other (← g.rows)
  else if ← keyword "TABLE" then return .other ("TABLE " ++ (← tableName))
  else fail

/-- What a body and all that is combined with it more tightly than a precedence come to. -/
def combinedRule (g : Grammar) (self : Nat × Body → Reader Body) : Nat × Body → Reader Body
  | (least, left) => do
    match ← combiner least with
    | none => return left
    | some (op, precedence) =>
      let quantifier ← combinerQuantifier
      let right ← self (precedence, ← g.simpleBody)
      self (least, .other (left.text ++ " " ++ op ++ quantifier ++ " " ++ right.text))

def combinedFrom (g : Grammar) : Nat × Body → Reader Body := fix g.combinedRule

def definition (g : Grammar) : Reader String := do
  let n ← name
  let columns ← if (← peekKeyword) = "AS" then pure "" else pure (" (" ++ (← columns) ++ ")")
  expectKeyword "AS"
  let q ← inParens g.query
  let origin ← behind ["FROM"] name
  return n.shown ++ columns ++ " AS (" ++ q ++ ")" ++
    (origin.map (" FROM " ++ ·.shown)).getD ""

def definitions (g : Grammar) : Reader (Option String) :=
  behind ["WITH"] do
    let recursive ← if ← keyword "RECURSIVE" then pure "RECURSIVE " else pure ""
    return "WITH " ++ recursive ++ listed (← commas g.definition)

/-- A limit and an offset, in either order; two numbers after one `LIMIT` are an offset and a
limit. -/
def limits (g : Grammar) : Reader (List String) := do
  let limit : Reader (Option String) := do
    if ← keyword "ALL" then return none else return some (← g.expressionText)
  let offset : Reader String := do
    let e ← g.expressionText
    return e ++ ((← oneOf ["ROW", "ROWS"]).map (" " ++ ·)).getD ""
  let turn (found : Option String × Option String) : Reader (Option String × Option String) := do
    let first ← if found.1.isNone ∧ (← peekKeyword) = "LIMIT" then advance; limit else pure found.1
    let second ← if found.2.isNone then behind ["OFFSET"] offset else pure found.2
    if first.isSome ∧ second.isNone then
      if ← mark "," then return (some (← g.expressionText), first)
    return (first, second)
  let (l, o) ← turn (← turn (none, none))
  return (l.map ("LIMIT " ++ ·)).toList ++ (o.map ("OFFSET " ++ ·)).toList

def fetch : Reader (List String) := do
  let found ← behind ["FETCH"] do
    discard (expectOneOf ["FIRST", "NEXT"])
    let quantity ← if (← oneOf ["ROW", "ROWS"]).isSome then pure "" else
      let v ← literal
      let percent ← phraseText [["PERCENT"]]
      discard (expectOneOf ["ROW", "ROWS"])
      pure (" " ++ v.text ++ percent)
    match ← phrase [["ONLY"], ["WITH", "TIES"]] with
    | some ks => return "FETCH FIRST" ++ quantity ++ " ROWS " ++ " ".intercalate ks
    | none => fail
  return found.toList

end QueryPlan.Sql.Grammar
