import QueryPlan.Sql.Escaped
import QueryPlan.Sql.Reader
import QueryPlan.Sql.Syntax
import QueryPlan.Text.Decimal

/-! Literals: values of all kinds, and those that have to be a text or a number. -/

namespace QueryPlan.Sql

open Reading (here)
open Reader

def literal : Reader Expression := do
  match ← peek with
  | some (.word _ k) =>
    if k = "TRUE" ∨ k = "FALSE" then take (.other k.toLower)
    else if k = "NULL" then take (.other k)
    else reject
  | some (.number d long) => take (.number d long)
  | some (.string q s) => take (.string q s)
  | some (.national s) => take (.other ("N'" ++ s ++ "'"))
  | some (.escaped s) => take (.other (Escaped.shown s))
  | some (.hex d) => take (.other ("X'" ++ d ++ "'"))
  | some (.placeholder s) => take (.other s)
  | some (.mark m) =>
    if m = ":" ∨ m = "@" then
      advance
      match ← peek with
      | some (.word n _) => take (.other (m ++ n.text))
      | some (.number d false) => take (.other (m ++ d))
      | _ => reject
    else reject
  | none => reject
where
  take (e : Expression) : Reader Expression := do
    advance
    return e

def literalText : Reader String := do
  match ← peek with
  | some (.word n k) =>
    if isKeyword k then reject else
      advance
      return n.text
  | some (.string _ s) => advance; return s
  | _ => reject

def quotedText : Reader String := do
  match ← peek with
  | some (.string '\x27' s) => advance; return s
  | _ => reject

def literalCharacter : Reader Unit := do
  let start ← here
  if (← literalText).utf8ByteSize ≠ 1 then failAt start

def literalNumber : Reader String := do
  match ← peek with
  | some (.number digits _) =>
    match Count.ofText? digits.toList with
    | some n => advance; return toString n.toNat
    | none => reject
  | _ => reject

def literalQuantity : Reader Unit := do
  match ← peek with
  | some (.number ..) | some (.placeholder _) | some (.mark _) => discard literal
  | _ => fail

end QueryPlan.Sql
