import QueryPlan.Plan
import QueryPlan.Text.Quoted

/-! What can go wrong with catalogues and plans and with the texts they come from, each cause with
its wording. The steps of a linear plan description stand here too, because a fault shows the step
that it refuses. -/

namespace QueryPlan

inductive PlanError
  | unknownRelation (name : String)
  | unresolvedAttribute (name : String)
  | emptyProjection
  | literalJoin (predicate : Predicate)
  /-- An attribute of a join predicate is missing from the operand it should come from. -/
  | unspannedJoin (predicate : Predicate)
  | duplicateRelation (name : String)
  | duplicateAttribute (relation column : String)
  | unexpectedJoin
  | noOperands
  /-- An estimate was read from a node that has none. -/
  | unestimated (kind : Plan.Kind)
deriving DecidableEq

def PlanError.message : PlanError → String
  | unknownRelation n => "unknown relation: " ++ n
  | unresolvedAttribute n => "unresolved attribute: " ++ n
  | emptyProjection => "projection would retain no attributes"
  | literalJoin p =>
    "malformed predicate: value predicate " ++ p.text ++ " used as a join condition"
  | unspannedJoin p => "malformed predicate: " ++ p.text ++ " does not span the join operands"
  | duplicateRelation n => "relation already registered: " ++ n
  | duplicateAttribute r a => "attribute " ++ a ++ " already declared on relation " ++ r
  | unexpectedJoin => "Internal invariant failed: canonical plans must not contain joins"
  | noOperands => "Internal invariant failed: product without operands"
  | unestimated k => k.text ++ " node read before estimation"

inductive LineFault
  | noName
  | noTupleCount (relation : String)
  | noAttributeCount (entry : String)
  | noAttributeName
  | notACount (text : String)
deriving DecidableEq

def LineFault.message : LineFault → String
  | noName => "missing relation name"
  | noTupleCount r => "relation " ++ r ++ " has no tuple count"
  | noAttributeCount e => "expected attr:count, got " ++ Text.quoted e
  | noAttributeName => "missing attribute name"
  | notACount t => "not a non-negative count: " ++ Text.quoted t

/-- What makes a well-formed query one that the algebra cannot express. A part of the query that is
to blame is kept as the text that shows it. -/
inductive QueryFault
  | statementCount (n : Nat)
  | notSelect
  | compoundBody (shown : String)
  | distinctOrHaving
  | explicitJoin
  | notARelation (shown : String)
  | repeatedRelation (name : String)
  | notAnAttribute (shown : String)
  | unsupportedItem (shown : String)
  | notAnEquality (shown : String)
  | twoLiterals (shown : String)
  | notAnOperand (shown : String)
  | noRelations
deriving DecidableEq

def QueryFault.message : QueryFault → String
  | statementCount n => "expected one statement, found " ++ toString n
  | notSelect => "only SELECT queries are supported"
  | compoundBody s => "unsupported query body: " ++ s
  | distinctOrHaving => "DISTINCT and HAVING are not supported"
  | explicitJoin =>
    "explicit JOIN is not supported; list relations in FROM and join in WHERE"
  | notARelation s => "expected a relation name in FROM, found " ++ s
  | repeatedRelation n => "relation " ++ n ++ " appears more than once in FROM"
  | notAnAttribute s => "expected an attribute in SELECT list, found " ++ s
  | unsupportedItem s => "unsupported SELECT item: " ++ s
  | notAnEquality s => "expected attr = value or attr = attr, found " ++ s
  | twoLiterals s => "condition " ++ s ++ " compares two literals"
  | notAnOperand s => "expected attribute or literal, found " ++ s
  | noRelations => "FROM list is empty"

inductive Step
  | scan (relation : String)
  | select (column : String) (value equals : Option String)
  | project (columns : List String)
deriving DecidableEq

def Step.text : Step → String
  | scan r => "Scan \x7b relation: " ++ Text.quoted r ++ " \x7d"
  | select a v e =>
    "Select \x7b attribute: " ++ Text.quoted a ++ ", value: " ++ option v ++ ", equals: " ++
      option e ++ " \x7d"
  | project as => "Project \x7b attributes: [" ++ ", ".intercalate (as.map Text.quoted) ++ "] \x7d"
where
  option : Option String → String
    | none => "None"
    | some s => "Some(" ++ Text.quoted s ++ ")"

inductive StepFault
  | repeatedScan (relation : String)
  | notOneOperand
  | noScanBefore (step : Step)
  | noSteps
deriving DecidableEq

def StepFault.message : StepFault → String
  | repeatedScan r => "relation " ++ r ++ " is scanned more than once"
  | notOneOperand => "select needs exactly one of `value` or `equals`"
  | noScanBefore s => "first step must be 'scan', got " ++ s.text
  | noSteps => "empty step list"

inductive SourceError
  | line (number : Nat) (fault : LineFault)
  | query (fault : QueryFault)
  | sql (line : Nat)
  | step (number : Nat) (fault : StepFault)
  | missingCatalogue
  | yaml
  | plan (error : PlanError)
deriving DecidableEq

def SourceError.message : SourceError → String
  | line n f => "line " ++ toString n ++ ": " ++ f.message
  | query f => "line 1: " ++ f.message
  | sql n => "line " ++ toString n ++ ": sql parser error: "
  | step n f => "step " ++ toString n ++ ": " ++ f.message
  | missingCatalogue => "no catalogue: embed one or supply it separately"
  | yaml => "YAML error: "
  | plan e => e.message

def SourceError.ofPlan {α : Type} : Except PlanError α → Except SourceError α
  | .ok a => .ok a
  | .error e => .error (.plan e)

def SourceError.ofQuery {α : Type} : Except QueryFault α → Except SourceError α
  | .ok a => .ok a
  | .error fault => .error (.query fault)

end QueryPlan
