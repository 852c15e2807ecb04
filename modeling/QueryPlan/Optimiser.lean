import QueryPlan.Optimiser.Pass
import QueryPlan.Optimiser.Fragment

/-! The optimisation of a join-free plan: selections are pushed to the scans, equalities become
joins in a greedy order, and attributes are dropped early below a projection. The given plan stays
as it is; a new tree, estimated throughout, is built. -/

namespace QueryPlan

/-- A subtree after its visit: a finished plan, or the operands of a cluster of products whose
joining waits until the whole cluster has been seen. -/
inductive Visited
  | whole (plan : Plan)
  | cluster (fragments : List Fragment)

def Visited.fragments : Visited → List Fragment
  | whole plan => [.ofPlan plan]
  | cluster fragments => fragments

namespace Optimiser

def settle (o : Optimiser) : Visited → Pass → Except PlanError (Plan × Pass)
  | .whole plan, pass => .ok (plan, pass)
  | .cluster fragments, pass => o.combine fragments pass

def kept (pass : Pass) (schema : Relation) (listed : List Attribute) :
    Except PlanError (List Attribute) := do
  let keep ← listed.foldlM (fun keep a => do return add keep (← schema.resolve a)) []
  return schema.attributes.foldl
    (fun keep a => if pass.required.contains a.name then add keep a else keep) keep
where
  add (keep : List Attribute) (a : Attribute) : List Attribute :=
    if keep.any (·.same a) then keep else keep ++ [a]

def walk (o : Optimiser) : Plan → Pass → Except PlanError (Visited × Pass)
  | .scan s _, pass => do
    let (plan, pass) ← o.visitScan s.name pass
    return (.whole plan, pass)
  | .select input p _, pass => do
    let (r, pass) ← walk o input (pass.defer p)
    let (plan, pass) ← o.settle r pass
    return (.whole plan, pass)
  | .project input listed _, pass =>
    if listed.isEmpty then .error .emptyProjection
    else do
      let (r, below) ← walk o input { pass.acquire listed with narrowing := true }
      let (plan, below) ← o.settle r below
      let after := { below with narrowing := pass.narrowing }
      let schema ← plan.output
      let keep ← kept after schema listed
      let plan ←
        if keep.length < schema.arity then (Plan.project plan keep).estimateRoot else .ok plan
      return (.whole plan, after.release listed)
  | .product left right _, pass => do
    let (l, pass) ← walk o left pass
    let (r, pass) ← walk o right pass
    return (.cluster (l.fragments ++ r.fragments), pass)
  | .join .., _ => .error .unexpectedJoin

def visit (o : Optimiser) (plan : Plan) (pass : Pass) : Except PlanError (Plan × Pass) := do
  let (r, pass) ← o.walk plan pass
  o.settle r pass

/-- The attribute to blame for a predicate that found no place, if there is one left. -/
def unplaced? (o : Optimiser) (pass : Pass) (plan : Plan) : Option Attribute :=
  match pass.values, pass.joins with
  | p :: _, _ => some p.left
  | [], p :: _ =>
    some ((p.attributes.find? fun a => !plan.baseRelations.any fun r => o.declares r a).getD p.left)
  | [], [] => none

/-- A plan with the same result, estimated throughout. -/
def optimise (o : Optimiser) (plan : Plan) : Except PlanError Plan := do
  let (result, pass) ← o.visit plan .initial
  match o.unplaced? pass result with
  | some a => .error (.unresolvedAttribute a.name)
  | none => return result

end Optimiser
end QueryPlan
