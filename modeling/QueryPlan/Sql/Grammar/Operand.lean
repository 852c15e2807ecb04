import QueryPlan.Sql.Grammar.Call

/-! Operands: names, literals, calls and what stands in parentheses or behind a sign. -/

namespace QueryPlan.Sql

namespace Precedence

def or : Nat := 5
def and : Nat := 10
def not : Nat := 15
def arrow : Nat := 16
def is : Nat := 17
def like : Nat := 19
def comparison : Nat := 20
def bitOr : Nat := 21
def bitXor : Nat := 22
def bitAnd : Nat := 23
def xor : Nat := 24
def sum : Nat := 30
def product : Nat := 40
def zone : Nat := 41
def access : Nat := 50

end Precedence

namespace Grammar

open Reading (sepBy many)
open Reader

def typedText (g : Grammar) : Reader Expression := do
  match ← DataType.read with
  | .interval => g.interval
  | .standard s => return .other (s ++ " " ++ inQuotes '\x27' (← literalText))
  | .custom _ => failNowhere

def branch (g : Grammar) : Reader String := do
  let condition ← g.expressionText
  expectKeyword "THEN"
  return " WHEN " ++ condition ++ " THEN " ++ (← g.expressionText)

def caseOf (g : Grammar) : Reader Expression := do
  let operand ← if ← keyword "WHEN" then pure "" else
    let e ← g.expressionText
    expectKeyword "WHEN"
    pure (" " ++ e)
  let branches ← sepBy (keyword "WHEN") g.branch
  let last ← behind ["ELSE"] g.expressionText
  expectKeyword "END"
  return .other ("CASE" ++ operand ++ String.join branches ++
    (last.map (" ELSE " ++ ·)).getD "" ++ " END")

def castFormat : Reader String := do
  let format ← behind ["FORMAT"] do
    let v ← literal
    let zone ← behind ["AT", "TIME", "ZONE"] do return " AT TIME ZONE " ++ (← literal).text
    return " FORMAT " ++ v.text ++ zone.getD ""
  return format.getD ""

def castAs (g : Grammar) (kind : String) : Reader Expression := inParens do
  let e ← g.expressionText
  expectKeyword "AS"
  let t ← dataType
  return .other (kind ++ "(" ++ e ++ " AS " ++ t ++ (← castFormat) ++ ")")

def convert (g : Grammar) : Reader Expression := inParens do
  let e ← g.expressionText
  if ← keyword "USING" then return .other ("CONVERT(" ++ e ++ " USING " ++ (← objectName) ++ ")")
  expectMark ","
  let t ← dataType
  let charset ← behind ["CHARACTER", "SET"] objectName
  return .other ("CONVERT(" ++ e ++ ", " ++ t ++
    (charset.map (" CHARACTER SET " ++ ·)).getD "" ++ ")")

def existsIn (g : Grammar) (negation : String) : Reader Expression := do
  return .other (negation ++ "EXISTS (" ++ (← inParens g.query) ++ ")")

def extract (g : Grammar) : Reader Expression := inParens do
  let field ← dateField
  if !(← keyword "FROM") then
    discard (mark ",")
    failNowhere
  return .other ("EXTRACT(" ++ field ++ " FROM " ++ (← g.expressionText) ++ ")")

def rounded (g : Grammar) (kind : String) : Reader Expression := inParens do
  let e ← g.expressionText
  if ← keyword "TO" then return .other (kind ++ "(" ++ e ++ " TO " ++ (← dateField) ++ ")")
  else if ← mark "," then
    match ← literal with
    | .number d long =>
      return .other (kind ++ "(" ++ e ++ ", " ++ (Expression.number d long).text ++ ")")
    | _ => failNowhere
  else return .other (kind ++ "(" ++ e ++ ")")

def positionIn (g : Grammar) : Reader Expression := inParens do
  let e ← g.expression Precedence.comparison
  expectKeyword "IN"
  return .other ("POSITION(" ++ e.text ++ " IN " ++ (← g.expressionText) ++ ")")

def substring (g : Grammar) : Reader Expression := inParens do
  let e ← g.expressionText
  let special ← mark ","
  let (before, length) := if special then (", ", ", ") else (" FROM ", " FOR ")
  let start ← if special then pure true else keyword "FROM"
  let start ← if start then pure (before ++ (← g.expressionText)) else pure ""
  let stop ← if ← keyword "FOR" then pure true else mark ","
  let stop ← if stop then pure (length ++ (← g.expressionText)) else pure ""
  return .other ("SUBSTRING(" ++ e ++ start ++ stop ++ ")")

def overlay (g : Grammar) : Reader Expression := inParens do
  let e ← g.expressionText
  expectKeyword "PLACING"
  let what ← g.expressionText
  expectKeyword "FROM"
  let start ← g.expressionText
  let length ← behind ["FOR"] g.expressionText
  return .other ("OVERLAY(" ++ e ++ " PLACING " ++ what ++ " FROM " ++ start ++
    (length.map (" FOR " ++ ·)).getD "" ++ ")")

/-- Trimming; a comma at the end counts for nothing. -/
def trim (g : Grammar) : Reader Expression := inParens do
  let side ← oneOf ["BOTH", "LEADING", "TRAILING"]
  let e ← g.expressionText
  let whole ← behind ["FROM"] g.expressionText
  if whole.isNone then
    discard (mark ",")
  return .other ("TRIM(" ++ (side.map (· ++ " ")).getD "" ++ e ++
    (whole.map (" FROM " ++ ·)).getD "" ++ ")")

def matchAgainst : Reader Expression := do
  let columns ← columns
  expectKeyword "AGAINST"
  let search ← inParens do
    let v ← literal
    let mode ← phraseText [["IN", "NATURAL", "LANGUAGE", "MODE", "WITH", "QUERY", "EXPANSION"],
      ["IN", "NATURAL", "LANGUAGE", "MODE"], ["IN", "BOOLEAN", "MODE"],
      ["WITH", "QUERY", "EXPANSION"]]
    return v.text ++ mode
  return .other ("MATCH (" ++ columns ++ ") AGAINST (" ++ search ++ ")")

def array (g : Grammar) (named : String) : Reader Expression := do
  expectMark "["
  if ← mark "]" then return .other (named ++ "[]")
  let es ← g.expressionTexts
  expectMark "]"
  return .other (named ++ "[" ++ listed es ++ "]")

def laterName : Reader (Option Name) := do
  if ← mark "." then
    match ← peek with
    | some (.word n _) => advance; return some n
    | some (.string '\x27' s) => advance; return some ⟨s, some '\x27'⟩
    | _ => reject
  else return none

def named (g : Grammar) (n : Name) : Reader Expression := do
  let introduced (v : Expression) : Reader Expression := do
    if n.text.startsWith "_" then
      advance
      return .other (n.text ++ " " ++ v.text)
    else return .name n
  match ← peek with
  | some (.mark ".") =>
    let names := n :: (← many laterName)
    if ← peekMark "(" then g.call names else return .qualified names
  | some (.mark "(") => g.call [n]
  | some (.string q s) => introduced (.string q s)
  | some (.hex d) => introduced (.other ("X'" ++ d ++ "'"))
  | _ => return .name n

def afterWord (g : Grammar) (n : Name) (k : String) : Reader Expression := do
  match k with
  | "CURRENT_TIMESTAMP" | "CURRENT_TIME" | "CURRENT_DATE" | "LOCALTIME" | "LOCALTIMESTAMP" =>
    if ← mark "(" then return .other (n.shown ++ "(" ++ (← g.arguments) ++ ")")
    else return .other n.shown
  | "CASE" => g.caseOf
  | "CONVERT" => g.convert
  | "CAST" | "TRY_CAST" | "SAFE_CAST" => g.castAs k
  | "EXISTS" => g.existsIn ""
  | "EXTRACT" => g.extract
  | "CEIL" | "FLOOR" => g.rounded k
  | "POSITION" =>
    if ← peekMark "(" then
      match ← attempt g.positionIn with
      | some e => return e
      | none => g.call [n]
    else g.named n
  | "SUBSTRING" => g.substring
  | "OVERLAY" => g.overlay
  | "TRIM" => g.trim
  | "INTERVAL" => g.interval
  | "ARRAY" =>
    if ← peekMark "[" then g.array "ARRAY"
    else if ← peekMark "(" then return .other (n.shown ++ "(" ++ (← inParens g.query) ++ ")")
    else g.named n
  | "NOT" =>
    if ← keyword "EXISTS" then g.existsIn "NOT "
    else return .other ("NOT " ++ (← g.expression Precedence.not).text)
  | "MATCH" => matchAgainst
  | _ => g.named n

def parenthesised (g : Grammar) : Reader Expression := do
  let e ← inParens do
    if (← peekKeyword) ∈ ["SELECT", "WITH"] then return .subquery (← g.query)
    match ← commas g.anyExpression with
    | [e] => return .nested e
    | es => return .other ("(" ++ listed (es.map Expression.text) ++ ")")
  if !(← mark ".") then return e
  match ← peek with
  | some (.word n _) =>
    advance
    return .other (e.text ++ "." ++ n.shown)
  | _ => reject

def plainOperand (g : Grammar) : Reader Expression := do
  match ← peek with
  | some (.word n k) =>
    if k = "TRUE" ∨ k = "FALSE" ∨ k = "NULL" then literal
    else
      advance
      g.afterWord n k
  | some (.escaped _) => reject
  | some (.mark "[") => g.array ""
  | some (.mark "(") => g.parenthesised
  | some (.mark m) =>
    if m = "+" ∨ m = "-" then
      advance
      return .other (m ++ (← g.expression Precedence.product).text)
    else literal
  | _ => literal

def collated (e : Expression) : Reader Expression := do
  match ← behind ["COLLATE"] objectName with
  | some c => return .other (e.text ++ " COLLATE " ++ c)
  | none => return e

/-- An operand, which a typed text is in preference to a name. -/
def operand (g : Grammar) : Reader Expression := do
  match ← attempt g.typedText with
  | some e => return e
  | none => collated (← g.plainOperand)

end Grammar
end QueryPlan.Sql
