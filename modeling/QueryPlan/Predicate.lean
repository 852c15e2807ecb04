import QueryPlan.Relation

/-! Equality predicates: an attribute against a literal, or two attributes against each other. -/

namespace QueryPlan

inductive Predicate
  | value (left : Attribute) (literal : String)
  | join (left right : Attribute)
deriving DecidableEq

namespace Predicate

def isValue : Predicate → Bool
  | value .. => true
  | join .. => false

def left : Predicate → Attribute
  | value l _ => l
  | join l _ => l

def right? : Predicate → Option Attribute
  | value .. => none
  | join _ r => some r

def attributes : Predicate → List Attribute
  | value l _ => [l]
  | join l r => [l, r]

def swapped : Predicate → Predicate
  | value l v => value l v
  | join l r => join r l

/-- Equal up to the counts that the attributes carry. -/
def same : Predicate → Predicate → Bool
  | value l v, value l' v' => l.same l' && v == v'
  | join l r, join l' r' => l.same l' && r.same r'
  | _, _ => false

def text : Predicate → String
  | value l v => l.name ++ "=\"" ++ v ++ "\""
  | join l r => l.name ++ "=" ++ r.name

end Predicate
end QueryPlan
