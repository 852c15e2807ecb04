import QueryPlan.Json.Parser
import QueryPlan.Json.Record
import QueryPlan.Plan

/-! Plans as JSON. A node is an object whose only member is named for the kind of node and holds
its fields; estimates are written too, as null where there is none. -/

namespace QueryPlan

open Json (inside? record? ofCount)

namespace Attribute

def toJson (a : Attribute) : Json :=
  .object [("name", .string a.name), ("value_count", ofCount a.valueCount)]

def ofJson? (levels : Nat) (j : Json) : Option Attribute := do
  let _ ← inside? levels
  match ← record? ["name", "value_count"] j with
  | [name, count] => return ⟨← name.text?, ← count.count?⟩
  | _ => none

end Attribute

namespace Relation

def toJson (r : Relation) : Json :=
  .object [("tuple_count", ofCount r.tupleCount),
    ("attributes", .array (r.attributes.map Attribute.toJson))]

def ofJson? (levels : Nat) (j : Json) : Option Relation := do
  let levels ← inside? levels
  match ← record? ["tuple_count", "attributes"] j with
  | [count, columns] => return ⟨← count.count?, ← columns.list? levels Attribute.ofJson?⟩
  | _ => none

end Relation

namespace NamedRelation

def toJson (r : NamedRelation) : Json :=
  .object [("name", .string r.name), ("relation", r.relation.toJson)]

def ofJson? (levels : Nat) (j : Json) : Option NamedRelation := do
  let levels ← inside? levels
  match ← record? ["name", "relation"] j with
  | [name, relation] => return ⟨← name.text?, ← Relation.ofJson? levels relation⟩
  | _ => none

end NamedRelation

namespace Predicate

def toJson : Predicate → Json
  | value l v => .object [("Value", .object [("left", l.toJson), ("value", .string v)])]
  | join l r => .object [("Join", .object [("left", l.toJson), ("right", r.toJson)])]

def ofJson? (levels : Nat) (j : Json) : Option Predicate := do
  let levels ← inside? (← inside? levels)
  let (variant, body) ← j.variant?
  if variant = "Value" then
    match ← record? ["left", "value"] body with
    | [l, v] => return value (← Attribute.ofJson? levels l) (← v.text?)
    | _ => none
  else if variant = "Join" then
    match ← record? ["left", "right"] body with
    | [l, r] => return join (← Attribute.ofJson? levels l) (← Attribute.ofJson? levels r)
    | _ => none
  else none

end Predicate

namespace Plan

def outputJson : Option Relation → Json
  | none => .null
  | some r => r.toJson

def toJson : Plan → Json
  | scan s o => node "Scan" [("relation", s.toJson)] o
  | select i p o => node "Select" [("input", i.toJson), ("predicate", p.toJson)] o
  | project i as o =>
    node "Project" [("input", i.toJson), ("attributes", .array (as.map Attribute.toJson))] o
  | product l r o => node "Product" [("left", l.toJson), ("right", r.toJson)] o
  | join l r p o =>
    node "Join" [("left", l.toJson), ("right", r.toJson), ("predicate", p.toJson)] o
where
  node (kind : String) (fields : List (String × Json)) (o : Option Relation) : Json :=
    .object [(kind, .object (fields ++ [("output", outputJson o)]))]

def outputOfJson? (levels : Nat) : Json → Option (Option Relation)
  | .null => some none
  | j => (Relation.ofJson? levels j).map some

/-- Reads a node, which opens two levels: its own object and that of its fields. -/
def ofJson? : Nat → Json → Option Plan
  | 0, _ | 1, _ => none
  | levels + 2, j => do
    let (kind, body) ← j.variant?
    if kind = "Scan" then
      match ← body.extended? ["relation"] "output" with
      | ([s], o) => return scan (← NamedRelation.ofJson? levels s) (← outputOfJson? levels o)
      | _ => none
    else if kind = "Select" then
      match ← body.extended? ["input", "predicate"] "output" with
      | ([i, p], o) =>
        return select (← ofJson? levels i) (← Predicate.ofJson? levels p) (← outputOfJson? levels o)
      | _ => none
    else if kind = "Project" then
      match ← body.extended? ["input", "attributes"] "output" with
      | ([i, as], o) =>
        return project (← ofJson? levels i) (← as.list? levels Attribute.ofJson?)
          (← outputOfJson? levels o)
      | _ => none
    else if kind = "Product" then
      match ← body.extended? ["left", "right"] "output" with
      | ([l, r], o) =>
        return product (← ofJson? levels l) (← ofJson? levels r) (← outputOfJson? levels o)
      | _ => none
    else if kind = "Join" then
      match ← body.extended? ["left", "right", "predicate"] "output" with
      | ([l, r, p], o) =>
        return join (← ofJson? levels l) (← ofJson? levels r) (← Predicate.ofJson? levels p)
          (← outputOfJson? levels o)
      | _ => none
    else none

def written (p : Plan) : String := p.toJson.compact

def ofWritten? (text : String) : Option Plan := do
  ofJson? Json.maxNesting (← Json.parse? text)

end Plan
end QueryPlan
