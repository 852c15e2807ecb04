import QueryPlan.Plan

/-! Plan listings: one line a node, parents before children, two spaces a level. -/

namespace QueryPlan

def Relation.summary (r : Relation) : String :=
  "tuples=" ++ toString r.tupleCount.toNat ++ " [" ++
    ", ".intercalate (r.attributes.map fun a => a.name ++ ":" ++ toString a.valueCount.toNat) ++ "]"

namespace Plan

def label : Plan → String
  | scan s _ => "SCAN " ++ s.name
  | select _ p _ => "SELECT [" ++ p.text ++ "]"
  | project _ as _ => "PROJECT [" ++ ",".intercalate (as.map (·.name)) ++ "]"
  | product .. => "PRODUCT"
  | join _ _ p _ => "JOIN [" ++ p.text ++ "]"

def line (depth : Nat) (p : Plan) : String :=
  String.ofList (List.replicate (2 * depth) ' ') ++ p.label ++ "  " ++
    match p.output? with
    | some r => r.summary
    | none => "unestimated"

def lines (depth : Nat) : Plan → List String
  | scan s o => [line depth (scan s o)]
  | select i p o => line depth (select i p o) :: i.lines (depth + 1)
  | project i as o => line depth (project i as o) :: i.lines (depth + 1)
  | product l r o => line depth (product l r o) :: (l.lines (depth + 1) ++ r.lines (depth + 1))
  | join l r p o => line depth (join l r p o) :: (l.lines (depth + 1) ++ r.lines (depth + 1))

def listing (p : Plan) : String := String.join ((p.lines 0).map (· ++ "\n"))

end Plan
end QueryPlan
