import QueryPlan.Catalogue

/-! Cardinality estimation under uniform distribution: an equality keeps one tuple in `m`, where `m`
is the larger number of distinct values compared, and leaves the smaller number of them. A node's
estimate is computed from the estimates stored in its children, so the order of visits is the
caller's; `Plan.estimateTree` visits children before parents. -/

namespace QueryPlan

def Relation.resolve (r : Relation) (a : Attribute) : Except PlanError Attribute :=
  match r.attribute? a.name with
  | some b => .ok b
  | none => .error (.unresolvedAttribute a.name)

def Relation.recount (r : Relation) (p : Attribute → Bool) (n : Count) : List Attribute :=
  r.attributes.map fun a => if p a then { a with valueCount := n } else a

namespace Estimate

def project (input : Relation) (attributes : List Attribute) : Except PlanError Relation :=
  attributes.foldlM (fun out a => do return out.insert (← input.resolve a)) ⟨input.tupleCount, []⟩

def select (input : Relation) : Predicate → Except PlanError Relation
  | .value left _ => do
    let a ← input.resolve left
    return ⟨input.tupleCount / a.valueCount.atLeastOne, input.recount (·.same a) 1⟩
  | .join left right => do
    let a ← input.resolve left
    let b ← input.resolve right
    let m := a.valueCount.atLeastOne
    let n := b.valueCount.atLeastOne
    return ⟨input.tupleCount / m.larger n,
      input.recount (fun c => c.same a || c.same b) (m.smaller n)⟩

def product (left right : Relation) : Relation :=
  ⟨left.tupleCount.product right.tupleCount, left.attributes ++ right.attributes⟩

def join (left right : Relation) (predicate : Predicate) : Except PlanError Relation :=
  match predicate with
  | .value .. => .error (.literalJoin predicate)
  | .join l r =>
    match left.attribute? l.name, right.attribute? r.name with
    | some a, some b =>
      let m := a.valueCount.atLeastOne
      let n := b.valueCount.atLeastOne
      .ok ⟨left.tupleCount.product right.tupleCount / m.larger n,
        left.recount (·.same a) (m.smaller n) ++ right.recount (·.same b) (m.smaller n)⟩
    | _, _ => .error (.unspannedJoin predicate)

end Estimate

namespace Plan

def output (p : Plan) : Except PlanError Relation :=
  match p.output? with
  | some r => .ok r
  | none => .error (.unestimated p.kind)

/-- What the root is expected to produce, given the estimates stored in its children. -/
def outputFor : Plan → Except PlanError Relation
  | scan s _ => .ok s.relation
  | select i p _ => do Estimate.select (← i.output) p
  | project i as _ => do Estimate.project (← i.output) as
  | product l r _ => do return Estimate.product (← l.output) (← r.output)
  | join l r p _ => do Estimate.join (← l.output) (← r.output) p

def estimateRoot (p : Plan) : Except PlanError Plan := do return p.withOutput (← p.outputFor)

/-- Stores the root's estimate, or reports why there is none and leaves the plan as it is. -/
def tryEstimateRoot (p : Plan) : Plan × Option PlanError :=
  match p.estimateRoot with
  | .ok q => (q, none)
  | .error e => (p, some e)

/-- Estimates every node, children before parents and left before right, up to the first node that
has no estimate; that node and the later ones stay as they were. -/
def estimateTree : Plan → Plan × Option PlanError
  | scan s o => (scan s o).tryEstimateRoot
  | select i p o =>
    match i.estimateTree with
    | (i, some e) => (select i p o, some e)
    | (i, none) => (select i p o).tryEstimateRoot
  | project i as o =>
    match i.estimateTree with
    | (i, some e) => (project i as o, some e)
    | (i, none) => (project i as o).tryEstimateRoot
  | product l r o =>
    match l.estimateTree with
    | (l, some e) => (product l r o, some e)
    | (l, none) =>
      match r.estimateTree with
      | (r, some e) => (product l r o, some e)
      | (r, none) => (product l r o).tryEstimateRoot
  | join l r p o =>
    match l.estimateTree with
    | (l, some e) => (join l r p o, some e)
    | (l, none) =>
      match r.estimateTree with
      | (r, some e) => (join l r p o, some e)
      | (r, none) => (join l r p o).tryEstimateRoot

def estimated (p : Plan) : Except PlanError Plan :=
  match p.estimateTree with
  | (q, none) => .ok q
  | (_, some e) => .error e

end Plan
end QueryPlan
