import QueryPlan.Optimiser.Pass

/-! Greedy joining of a cluster of products. The cluster's operands are live fragments, each with
the relations it covers. A round first selects by every deferred equality that lies within one
fragment, then joins the two fragments whose equality promises the fewest tuples. When no equality
connects two fragments, products combine what is left. -/

namespace QueryPlan

/-- The plan of a visited subtree and the relations it covers. -/
structure Fragment where
  relations : List String
  plan : Plan

def Fragment.ofPlan (plan : Plan) : Fragment := ⟨plan.baseRelations, plan⟩

/-- A join that could be made next: its deferred equality by position and oriented to its operands,
which are live fragments, the earlier one on the left. -/
structure Candidate (fragments : List Fragment) where
  position : Nat
  left : Fin fragments.length
  right : Fin fragments.length
  predicate : Predicate
  tuples : Count

inductive Round
  | joined (fragments : List Fragment) (pass : Pass)
  | settled (fragments : List Fragment) (pass : Pass)

namespace Optimiser

/-- The first fragment that covers a relation declaring the attribute. Fragments cover registered
relations only, so no look-up of one fails. -/
def resolve? (o : Optimiser) (fragments : List Fragment) (a : Attribute) :
    Option (Fin fragments.length) :=
  fragments.findFinIdx? fun f => f.relations.any fun r => o.declares r a

def resolveBoth? (o : Optimiser) (fragments : List Fragment) :
    Predicate → Option (Fin fragments.length)
  | .value .. => none
  | .join l r => do
    let i ← o.resolve? fragments l
    let j ← o.resolve? fragments r
    if i = j then some i else none

/-- Runs through the deferred equalities, of which `passed` did not apply, and selects by those
that lie within one fragment. -/
def applyLocal (o : Optimiser) (passed : List Predicate) :
    List Predicate → List Fragment → Pass → Except PlanError (List Fragment × Pass)
  | [], fragments, pass => .ok (fragments, { pass with joins := passed })
  | p :: rest, fragments, pass =>
    match o.resolveBoth? fragments p with
    | none => applyLocal o (passed ++ [p]) rest fragments pass
    | some i => do
      let (plan, pass) ←
        o.applySelection { pass with joins := passed ++ rest } fragments[i].plan p
      applyLocal o passed rest (fragments.set i { fragments[i] with plan }) pass

def candidate? (o : Optimiser) (fragments : List Fragment) (position : Nat) :
    Predicate → Except PlanError (Option (Candidate fragments))
  | .value .. => .ok none
  | .join l r =>
    match o.resolve? fragments l, o.resolve? fragments r with
    | some i, some j =>
      if i = j then .ok none
      else if i < j then trial i j (.join l r)
      else trial j i (.join r l)
    | _, _ => .ok none
where
  trial (i j : Fin fragments.length) (p : Predicate) :
      Except PlanError (Option (Candidate fragments)) := do
    let out ← Estimate.join (← fragments[i].plan.output) (← fragments[j].plan.output) p
    return some ⟨position, i, j, p, out.tupleCount⟩

/-- Of two candidates the one with fewer tuples, at a tie the one met first. -/
def prefer {fragments : List Fragment} (best next : Option (Candidate fragments)) :
    Option (Candidate fragments) :=
  match best, next with
  | some b, some c => if c.tuples < b.tuples then some c else some b
  | some b, none => some b
  | none, c => c

def bestFrom (o : Optimiser) (fragments : List Fragment) :
    Nat → List Predicate → Option (Candidate fragments) →
      Except PlanError (Option (Candidate fragments))
  | _, [], best => .ok best
  | position, p :: rest, best => do
    let next ← o.candidate? fragments position p
    bestFrom o fragments (position + 1) rest (prefer best next)

def joinFragments (o : Optimiser) (fragments : List Fragment) (pass : Pass)
    (c : Candidate fragments) : Except PlanError (List Fragment × Pass) := do
  let pass := { pass.release c.predicate.attributes with joins := pass.joins.eraseIdx c.position }
  let left := fragments[c.left]
  let right := fragments[c.right]
  let plan ← (Plan.join left.plan right.plan c.predicate).estimateRoot
  let plan ← o.narrow pass plan
  return ((fragments.set c.left ⟨left.relations ++ right.relations, plan⟩).eraseIdx c.right, pass)

def round (o : Optimiser) (fragments : List Fragment) (pass : Pass) : Except PlanError Round := do
  let (fragments, pass) ← o.applyLocal [] pass.joins fragments pass
  match ← o.bestFrom fragments 0 pass.joins none with
  | none => return .settled fragments pass
  | some c =>
    let (fragments, pass) ← o.joinFragments fragments pass c
    return .joined fragments pass

/-- At most `n` rounds. A round that joins uses up an equality, so one round more than there are
deferred equalities always settles. -/
def rounds (o : Optimiser) : Nat → List Fragment → Pass → Except PlanError (List Fragment × Pass)
  | 0, fragments, pass => .ok (fragments, pass)
  | n + 1, fragments, pass => do
    match ← o.round fragments pass with
    | .settled fragments pass => return (fragments, pass)
    | .joined fragments pass => rounds o n fragments pass

def productAll : List Fragment → Except PlanError Plan
  | [] => .error .noOperands
  | f :: rest => rest.foldlM (fun acc g => (Plan.product acc g.plan).estimateRoot) f.plan

def combine (o : Optimiser) (fragments : List Fragment) (pass : Pass) :
    Except PlanError (Plan × Pass) := do
  let (fragments, pass) ← o.rounds (pass.joins.length + 1) fragments pass
  return (← productAll fragments, pass)

end Optimiser
end QueryPlan
