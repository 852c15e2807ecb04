import QueryPlan.Sql.Grammar.Operand

/-! Operations on operands, by precedence. -/

namespace QueryPlan.Sql

/-- The precedence of a mark between operands; zero, if it stands between none. -/
def markPrecedence (m : String) : Nat :=
  if m ∈ ["=", "==", "<=>", "!=", "<>", "<", "<=", ">", ">=", "~", "~*", "!~", "!~*", "~~", "~~*",
      "!~~", "!~~*"] then Precedence.comparison
  else if m = "|" then Precedence.bitOr
  else if m ∈ ["^", "<<", ">>"] then Precedence.bitXor
  else if m = "&" then Precedence.bitAnd
  else if m ∈ ["+", "-"] then Precedence.sum
  else if m ∈ ["*", "/", "%", "||"] then Precedence.product
  else if m ∈ ["::", "!", "[", "&&", "^@"] then Precedence.access
  else if m ∈ ["->", "->>", "@>", "<@", "@?", "@@"] then Precedence.arrow
  else 0

def markOperator? (m : String) : Option Operator :=
  if m = "=" ∨ m = "==" then some .equal
  else if m = "!=" then some (.other "<>")
  else if m ∈ ["<<", ">>", "::", "!", "[", "&&", "^@"] ∨ markPrecedence m = 0 then none
  else some (.other m)

namespace Grammar

open Reading (here fix sepBy)
open Reader

def tests : List String := ["LIKE", "ILIKE", "RLIKE", "REGEXP", "SIMILAR"]

def nextPrecedence : Reader Nat := do
  match ← peek with
  | some (.mark m) => return markPrecedence m
  | some (.word _ k) =>
    match k with
    | "OR" => return Precedence.or
    | "AND" => return Precedence.and
    | "XOR" => return Precedence.xor
    | "IS" => return Precedence.is
    | "DIV" => return Precedence.product
    | "IN" | "BETWEEN" | "OPERATOR" => return Precedence.comparison
    | "AT" =>
      if (← peekKeyword 1) = "TIME" ∧ (← peekKeyword 2) = "ZONE" then return Precedence.zone
      else return 0
    | "NOT" =>
      let k ← peekKeyword 1
      if k ∈ ["IN", "BETWEEN"] then return Precedence.comparison
      else if k ∈ tests then return Precedence.like
      else return 0
    | k => return if k ∈ tests then Precedence.like else 0
  | _ => return 0

def comparisons : List Operator :=
  [.equal, .other "<>", .other "<", .other "<=", .other ">", .other ">="]

def quantified (g : Grammar) (start : List Token) (precedence : Nat) (left : Expression)
    (op : Operator) (k : String) : Reader Expression := do
  let right ←
    if (← peekMark "(") ∧ (← peekKeyword 1) ∈ ["SELECT", "WITH"] then g.expression precedence
    else inParens (g.expression precedence)
  if op ∉ comparisons then failAt start
  let shown := match right with
    | .subquery s => "(" ++ s ++ ")"
    | e => "(" ++ e.text ++ ")"
  return .other (left.text ++ " " ++ op.text ++ " " ++ k ++ shown)

def binary (g : Grammar) (precedence : Nat) (left : Expression) (op : Operator) :
    Reader Expression := do
  let start ← here
  advance
  match ← oneOf ["ANY", "ALL", "SOME"] with
  | some k => g.quantified start precedence left op k
  | none => return .binary left op (← g.expression precedence)

def isTest (g : Grammar) (left : Expression) : Reader Expression := do
  let truths := ["NULL", "TRUE", "FALSE", "UNKNOWN"]
  match ← phrase (truths.map (["NOT", ·]) ++ truths.map ([·])) with
  | some ks => return .other (left.text ++ " IS " ++ " ".intercalate ks)
  | none =>
    match ← phrase [["NOT", "DISTINCT", "FROM"], ["DISTINCT", "FROM"]] with
    | some ks =>
      return .other (left.text ++ " IS " ++ " ".intercalate ks ++ " " ++ (← g.expressionText))
    | none => fail

def member (g : Grammar) (left : String) : Reader Expression := do
  if ← keyword "UNNEST" then
    return .other (left ++ "IN UNNEST(" ++ (← inParens g.expressionText) ++ ")")
  let shown ← inParens do
    if (← peekKeyword) ∈ ["SELECT", "WITH"] then g.query
    else return listed (← g.expressionTexts)
  return .other (left ++ "IN (" ++ shown ++ ")")

def escape : Reader String := do
  match ← behind ["ESCAPE"] literalText with
  | some s => return " ESCAPE '" ++ s ++ "'"
  | none => return ""

def likeness (g : Grammar) (head : String) : Reader Expression := do
  let regexp ← keyword "REGEXP"
  let rlike ← keyword "RLIKE"
  if regexp ∨ rlike then
    let pattern ← g.expression Precedence.like
    return .other (head ++ (if regexp then "REGEXP " else "RLIKE ") ++ pattern.text)
  else if ← keyword "IN" then g.member head
  else if ← keyword "BETWEEN" then
    let low ← g.expression Precedence.comparison
    expectKeyword "AND"
    let high ← g.expression Precedence.comparison
    return .other (head ++ "BETWEEN " ++ low.text ++ " AND " ++ high.text)
  else
    match ← oneOf ["LIKE", "ILIKE"] with
    | some k =>
      let any ← phraseText [["ANY"]]
      let pattern ← g.expression Precedence.like
      let ending ← escape
      let gap := if k = "ILIKE" ∧ !any.isEmpty ∧ !ending.isEmpty then "" else " "
      return .other (head ++ k ++ any ++ gap ++ pattern.text ++ ending)
    | none =>
      if ← keywords ["SIMILAR", "TO"] then
        let pattern ← g.expression Precedence.like
        return .other (head ++ "SIMILAR TO " ++ pattern.text ++ (← escape))
      else fail

def negatable (g : Grammar) (left : Expression) : Reader Expression := do
  if ← keyword "NOT" then g.likeness (left.text ++ " NOT ") else g.likeness (left.text ++ " ")

def subscript (g : Grammar) : Reader String := do
  let e ← g.expressionText
  expectMark "]"
  return "[" ++ e ++ "]"

def afterMark (g : Grammar) (precedence : Nat) (left : Expression) (m : String) :
    Reader Expression := do
  match markOperator? m with
  | some op => g.binary precedence left op
  | none =>
    if m = "::" then
      advance
      return .other (left.text ++ "::" ++ (← dataType))
    else if m = "[" then
      advance
      return .other (left.text ++ String.join (← sepBy (mark "[") g.subscript))
    else if m = "!" then
      advance
      return .other (left.text ++ "!")
    else reject

def operation (g : Grammar) (precedence : Nat) (left : Expression) : Reader Expression := do
  match ← peek with
  | some (.mark m) => g.afterMark precedence left m
  | some (.word _ k) =>
    match k with
    | "DIV" =>
      advance
      return .binary left (.other "DIV") (← g.anyExpression)
    | "AND" => g.binary precedence left .and
    | "OR" | "XOR" => g.binary precedence left (.other k)
    | "IS" =>
      advance
      g.isTest left
    | "AT" =>
      advance
      expectKeywords ["TIME", "ZONE"]
      return .other (left.text ++ " AT TIME ZONE " ++ (← g.expression precedence).text)
    | "OPERATOR" => reject
    | _ => g.negatable left
  | _ => reject

/-- Operations for as long as they bind tighter than `least`. -/
def operationsRule (g : Grammar) (least : Nat) (self : Expression → Reader Expression)
    (left : Expression) : Reader Expression := do
  let precedence ← nextPrecedence
  if precedence ≤ least then return left else self (← g.operation precedence left)

def operations (g : Grammar) (least : Nat) : Expression → Reader Expression :=
  fix (g.operationsRule least)

def expressionHere (g : Grammar) (least : Nat) : Reader Expression := do
  g.operations least (← g.operand)

end Grammar
end QueryPlan.Sql
