import QueryPlan.Predicate

/-! Plan trees of relational algebra. Every node has room for its estimate, the relation it is
expected to produce; a tree fresh from a front end has none. Joins are made by the optimiser only,
with the left attribute of the predicate taken from the left operand. -/

namespace QueryPlan

inductive Plan
  | scan (source : NamedRelation) (output : Option Relation := none)
  | select (input : Plan) (predicate : Predicate) (output : Option Relation := none)
  | project (input : Plan) (attributes : List Attribute) (output : Option Relation := none)
  | product (left right : Plan) (output : Option Relation := none)
  | join (left right : Plan) (predicate : Predicate) (output : Option Relation := none)
deriving DecidableEq

namespace Plan

inductive Kind
  | scan | select | project | product | join
deriving DecidableEq

def Kind.text : Kind → String
  | .scan => "SCAN"
  | .select => "SELECT"
  | .project => "PROJECT"
  | .product => "PRODUCT"
  | .join => "JOIN"

def kind : Plan → Kind
  | scan .. => .scan
  | select .. => .select
  | project .. => .project
  | product .. => .product
  | join .. => .join

def children : Plan → List Plan
  | scan .. => []
  | select i _ _ => [i]
  | project i _ _ => [i]
  | product l r _ => [l, r]
  | join l r _ _ => [l, r]

def output? : Plan → Option Relation
  | scan _ o => o
  | select _ _ o => o
  | project _ _ o => o
  | product _ _ o => o
  | join _ _ _ o => o

def withOutput (r : Relation) : Plan → Plan
  | scan s _ => scan s (some r)
  | select i p _ => select i p (some r)
  | project i as _ => project i as (some r)
  | product l t _ => product l t (some r)
  | join l t p _ => join l t p (some r)

def modifyChild? (f : Plan → Plan) : Nat → Plan → Option Plan
  | 0, select i p o => some (select (f i) p o)
  | 0, project i as o => some (project (f i) as o)
  | 0, product l r o => some (product (f l) r o)
  | 1, product l r o => some (product l (f r) o)
  | 0, join l r p o => some (join (f l) r p o)
  | 1, join l r p o => some (join l (f r) p o)
  | _, _ => none

def baseRelations : Plan → List String
  | scan s _ => [s.name]
  | select i _ _ => i.baseRelations
  | project i _ _ => i.baseRelations
  | product l r _ => l.baseRelations ++ r.baseRelations
  | join l r _ _ => l.baseRelations ++ r.baseRelations

def nodeCount : Plan → Nat
  | scan .. => 1
  | select i _ _ => 1 + i.nodeCount
  | project i _ _ => 1 + i.nodeCount
  | product l r _ => 1 + (l.nodeCount + r.nodeCount)
  | join l r _ _ => 1 + (l.nodeCount + r.nodeCount)

def totalCost : Plan → Count
  | scan _ o => tuples o
  | select i _ o => (tuples o).sum i.totalCost
  | project i _ o => (tuples o).sum i.totalCost
  | product l r o => ((tuples o).sum l.totalCost).sum r.totalCost
  | join l r _ o => ((tuples o).sum l.totalCost).sum r.totalCost
where
  tuples (o : Option Relation) : Count := (o.map (·.tupleCount)).getD 0

/-- Equal up to the counts that predicates and projection lists carry; scanned relations and
stored estimates are compared in full. -/
def same : Plan → Plan → Bool
  | scan s o, scan s' o' => s == s' && o == o'
  | select i p o, select i' p' o' => i.same i' && p.same p' && o == o'
  | project i as o, project i' as' o' =>
    i.same i' && as.map (·.name) == as'.map (·.name) && o == o'
  | product l r o, product l' r' o' => l.same l' && r.same r' && o == o'
  | join l r p o, join l' r' p' o' => l.same l' && r.same r' && p.same p' && o == o'
  | _, _ => false

end Plan
end QueryPlan
