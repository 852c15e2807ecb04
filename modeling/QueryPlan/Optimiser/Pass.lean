import QueryPlan.Estimate
import QueryPlan.Optimiser.Required

/-! What one run of the optimiser carries along, the early projection that reads it, and the pushdown
to the scans: a scan takes every deferred predicate that reads only its own attributes. -/

namespace QueryPlan

/-- The state of a run: what is still needed, the predicates taken off their selections and not
yet reattached, in the order they were met, and whether a projection is open. -/
structure Pass where
  required : Required
  values : List Predicate
  joins : List Predicate
  narrowing : Bool

namespace Pass

def initial : Pass := ⟨.empty, [], [], false⟩

def acquire (pass : Pass) (attributes : List Attribute) : Pass :=
  { pass with required := attributes.foldl (fun r a => r.acquire a.name) pass.required }

def release (pass : Pass) (attributes : List Attribute) : Pass :=
  { pass with required := attributes.foldl (fun r a => r.release a.name) pass.required }

def defer (pass : Pass) (p : Predicate) : Pass :=
  let pass := pass.acquire p.attributes
  if p.isValue then { pass with values := pass.values ++ [p] }
  else { pass with joins := pass.joins ++ [p] }

end Pass

structure Optimiser where
  catalogue : Catalogue
  earlyProjection : Bool := true

namespace Optimiser

def declares (o : Optimiser) (relation : String) (a : Attribute) : Bool :=
  (o.catalogue.find? relation).any (·.relation.contains a.name)

/-- Early projection: below an open projection, attributes that nothing needs are dropped. All of
them may go; the projection of width zero that stays keeps the number of tuples. -/
def narrow (o : Optimiser) (pass : Pass) (plan : Plan) : Except PlanError Plan :=
  if o.earlyProjection && pass.narrowing then do
    let schema ← plan.output
    let keep := schema.attributes.filter fun a => pass.required.contains a.name
    if keep.length = schema.arity then return plan
    else (Plan.project plan keep).estimateRoot
  else .ok plan

def applySelection (o : Optimiser) (pass : Pass) (plan : Plan) (p : Predicate) :
    Except PlanError (Plan × Pass) := do
  let pass := pass.release p.attributes
  let plan ← (Plan.select plan p).estimateRoot
  return (← o.narrow pass plan, pass)

/-- Runs through the deferred comparisons with literals, of which `passed` did not apply, and
selects by those that read the schema. -/
def pushValues (schema : Relation) (passed : List Predicate) :
    List Predicate → Pass → Plan → Except PlanError (Plan × Pass)
  | [], pass, plan => .ok (plan, { pass with values := passed })
  | p :: rest, pass, plan =>
    if schema.contains p.left.name then do
      let pass := { pass.release [p.left] with values := passed ++ rest }
      let plan ← (Plan.select plan p).estimateRoot
      pushValues schema passed rest pass plan
    else pushValues schema (passed ++ [p]) rest pass plan

def pushEqualities (o : Optimiser) (schema : Relation) (passed : List Predicate) :
    List Predicate → Pass → Plan → Except PlanError (Plan × Pass)
  | [], pass, plan => .ok (plan, { pass with joins := passed })
  | p :: rest, pass, plan =>
    if p.attributes.all fun a => schema.contains a.name then do
      let (plan, pass) ← o.applySelection { pass with joins := passed ++ rest } plan p
      pushEqualities o schema passed rest pass plan
    else pushEqualities o schema (passed ++ [p]) rest pass plan

def visitScan (o : Optimiser) (name : String) (pass : Pass) : Except PlanError (Plan × Pass) := do
  let registered ← o.catalogue.lookup name
  let plan ← (Plan.scan registered).estimateRoot
  let (plan, pass) ← pushValues registered.relation [] pass.values pass plan
  let (plan, pass) ← o.pushEqualities registered.relation [] pass.joins pass plan
  return (← o.narrow pass plan, pass)

end Optimiser
end QueryPlan
