import QueryPlan.Json
import QueryPlan.Text.Decimal

/-! Reading records, lists and counts from JSON values. A record is an object, in which unknown
members are skipped and known ones may not be repeated, or an array of its fields in order. Nesting
is bounded: a reader of arrays or objects takes the number of levels that may still be opened. -/

namespace QueryPlan.Json

/-- Levels of arrays and objects that a text may open where they are read. -/
def maxNesting : Nat := 127

def inside? : Nat → Option Nat
  | 0 => none
  | levels + 1 => some levels

def unique? (members : List (String × Json)) (name : String) : Option (Option Json) :=
  match members.filter (·.1 == name) with
  | [] => some none
  | [(_, j)] => some (some j)
  | _ => none

def record? (names : List String) : Json → Option (List Json)
  | object members => names.mapM fun name => (unique? members name).join
  | array items => if items.length = names.length then some items else none
  | _ => none

def partialRecord? (names : List String) : Json → Option (List (Option Json))
  | object members => names.mapM (unique? members)
  | array items =>
    if items.length ≤ names.length then
      some (items.map some ++ List.replicate (names.length - items.length) none)
    else none
  | _ => none

/-- The fields of a record whose last field, `extra`, is null where an object leaves it out. -/
def extended? (names : List String) (extra : String) : Json → Option (List Json × Json)
  | object members => do
    let fields ← record? names (object members)
    return (fields, ((← unique? members extra).getD null))
  | array items =>
    if items.length = names.length + 1 then items.getLast?.map (items.dropLast, ·) else none
  | _ => none

def variant? : Json → Option (String × Json)
  | object [m] => some m
  | _ => none

def text? : Json → Option String
  | string s => some s
  | _ => none

def bool? : Json → Option Bool
  | bool b => some b
  | _ => none

def count? : Json → Option Count
  | natural n => Count.ofNat? n
  | _ => none

def list? {α : Type} (levels : Nat) (item? : Nat → Json → Option α) : Json → Option (List α)
  | array items => do
    let levels ← inside? levels
    items.mapM (item? levels)
  | _ => none

def ofCount (n : Count) : Json := natural n.toNat

end QueryPlan.Json
