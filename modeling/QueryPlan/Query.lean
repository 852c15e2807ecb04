import QueryPlan.Error
import QueryPlan.Catalogue

/-! Queries and their canonical plans: the left-deep product of the relations, a selection for each
condition with the first innermost, and on top a projection unless everything is asked for. -/

namespace QueryPlan

structure Query where
  /-- The attributes asked for; none means all of them. -/
  projection : Option (List String)
  relations : List String
  conditions : List Predicate
deriving DecidableEq

namespace Query

def scans (c : Catalogue) (earlier : List String) :
    List String → Plan → Except SourceError Plan
  | [], plan => .ok plan
  | name :: rest, plan =>
    if earlier.contains name then .error (.query (.repeatedRelation name))
    else do
      let r ← SourceError.ofPlan (c.lookup name)
      scans c (earlier ++ [name]) rest (.product plan (.scan r))

def declares (q : Query) (c : Catalogue) (name : String) : Bool :=
  q.relations.any fun r => (c.find? r).any (·.relation.contains name)

def check (q : Query) (c : Catalogue) (name : String) : Except SourceError Unit :=
  if q.declares c name then .ok () else .error (.plan (.unresolvedAttribute name))

def plan (q : Query) (c : Catalogue) : Except SourceError Plan :=
  match q.relations with
  | [] => .error (.query .noRelations)
  | first :: rest => do
    let r ← SourceError.ofPlan (c.lookup first)
    let plan ← scans c [first] rest (.scan r)
    let plan ← q.conditions.foldlM (fun plan p => do
      p.attributes.forM fun a => q.check c a.name
      return Plan.select plan p) plan
    match q.projection with
    | none => return plan
    | some [] => .error (.plan .emptyProjection)
    | some names =>
      names.forM (q.check c)
      return .project plan (names.map .named)

end Query
end QueryPlan
