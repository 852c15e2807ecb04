import QueryPlan.Query
import QueryPlan.Sql.Statement

/-! Queries from SQL text: a selection of attributes or of everything, from relations in a list,
under a conjunction of equalities. Attribute names are global, so qualifiers are dropped. -/

namespace QueryPlan

open Sql

inductive Operand
  | attribute (name : String)
  | literal (text : String)
deriving DecidableEq

namespace Query

def attribute? : Expression → Option String
  | .name n => some n.text
  | .qualified parts => parts.getLast?.map (·.text)
  | _ => none

def operand : Expression → Except QueryFault Operand
  | .nested e => operand e
  | .string _ s => .ok (.literal s)
  | .number digits _ => .ok (.literal digits)
  | e =>
    match attribute? e with
    | some a => .ok (.attribute a)
    | none => .error (.notAnOperand e.text)

/-- The predicate of an equality, with the attribute on the left of a literal. -/
def equality (shown : String) : Operand → Operand → Except QueryFault Predicate
  | .attribute l, .attribute r => .ok (.join (.named l) (.named r))
  | .attribute a, .literal v => .ok (.value (.named a) v)
  | .literal v, .attribute a => .ok (.value (.named a) v)
  | .literal _, .literal _ => .error (.twoLiterals shown)

def conjuncts : Expression → Except QueryFault (List Predicate)
  | .nested e => conjuncts e
  | .binary l .and r => do return (← conjuncts l) ++ (← conjuncts r)
  | .binary l .equal r => do
    let left ← operand l
    let right ← operand r
    return [← equality (Expression.binary l .equal r).text left right]
  | e => .error (.notAnEquality e.text)

def projectionOf : List Item → Except SourceError (Option (List String))
  | [.all] => .ok none
  | [] => .error (.plan .emptyProjection)
  | items => do return some (← SourceError.ofQuery (items.mapM one))
where
  one : Item → Except QueryFault String
    | .expression e =>
      match attribute? e with
      | some a => .ok a
      | none => .error (.notAnAttribute e.text)
    | item => .error (.unsupportedItem item.text)

def relationsFrom (earlier : List String) : List Source → Except QueryFault (List String)
  | [] => .ok earlier
  | s :: rest => do
    if !s.joins.isEmpty then throw .explicitJoin
    match s.table with
    | .other shown => throw (.notARelation shown)
    | .named n _ =>
      let r := dotted n
      if earlier.contains r then throw (.repeatedRelation r)
      relationsFrom (earlier ++ [r]) rest

def ofSelect (s : Select) : Except SourceError Query := do
  if s.distinct.isSome ∨ s.having.isSome then throw (.query .distinctOrHaving)
  let projection ← projectionOf s.items
  let relations ← SourceError.ofQuery (relationsFrom [] s.sources)
  let conditions ← match s.condition with
    | some e => SourceError.ofQuery (conjuncts e)
    | none => pure []
  return ⟨projection, relations, conditions⟩

def ofStatements : List Statement → Except SourceError Query
  | [.query r] =>
    match r.body with
    | .select s => ofSelect s
    | body => .error (.query (.compoundBody body.text))
  | [_] => .error (.query .notSelect)
  | statements => .error (.query (.statementCount statements.length))

def ofText (text : String) : Except SourceError Query :=
  match Statement.ofText text with
  | .error line => .error (.sql line)
  | .ok statements => ofStatements statements

end Query

def Plan.ofQueryText (c : Catalogue) (text : String) : Except SourceError Plan := do
  (← Query.ofText text).plan c

end QueryPlan
