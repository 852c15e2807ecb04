import QueryPlan.Count

/-! Schemas with their statistics: an attribute carries its number of distinct values, a relation
its number of tuples. An attribute is known by its name; the count is what is known about it. -/

namespace QueryPlan

structure Attribute where
  name : String
  valueCount : Count
deriving DecidableEq

namespace Attribute

def named (name : String) : Attribute := ⟨name, 0⟩

/-- Two mentions of one attribute, whatever counts they carry. -/
def same (a b : Attribute) : Bool := a.name == b.name

end Attribute

structure Relation where
  tupleCount : Count
  attributes : List Attribute
deriving DecidableEq

namespace Relation

def attribute? (r : Relation) (name : String) : Option Attribute :=
  r.attributes.find? (·.name == name)

def contains (r : Relation) (name : String) : Bool := (r.attribute? name).isSome

def names (r : Relation) : List String := r.attributes.map (·.name)

def arity (r : Relation) : Nat := r.attributes.length

def insert? (r : Relation) (a : Attribute) : Option Relation :=
  if r.contains a.name then none else some { r with attributes := r.attributes ++ [a] }

def insert (r : Relation) (a : Attribute) : Relation := (r.insert? a).getD r

theorem contains_eq_true {r : Relation} {name : String} :
    r.contains name = true ↔ name ∈ r.names := by
  simp [contains, attribute?, names]

end Relation

structure NamedRelation where
  name : String
  relation : Relation
deriving DecidableEq

end QueryPlan
