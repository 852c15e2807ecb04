import QueryPlan.Description
import QueryPlan.Yaml.Content

/-! Descriptions and catalogues from YAML texts. A definition is a record; a step is a record with
its kind under `op`, or a list that starts with its kind. -/

namespace QueryPlan

open Yaml

namespace Definition

def attributeOfNode (n : Node) : Take (String × Count) := do
  let fields ← Take.record n
  return (← Take.text (← Take.field fields "name"), ← Take.count (← Take.field fields "values"))

def ofNode (n : Node) : Take Definition := do
  let fields ← Take.record n
  let name ← Take.text (← Take.field fields "name")
  let tuples ← Take.count (← Take.field fields "tuples")
  match ← Take.field? fields "attributes" with
  | none => return ⟨name, tuples, []⟩
  | some as => return ⟨name, tuples, ← Take.list attributeOfNode as⟩

end Definition

namespace Step

/-- What a step holds beside its kind: values under their names or numbers, or in their order. -/
inductive Parts
  | fields (entries : List (Content × Content))
  | items (values : List Content)

/-- The collections that a part of a step may nest; with those around it they are 128. -/
def partLevels : Nat := 125

def entry (key value : Node) : Take (String ⊕ (Content × Content)) := do
  match ← Take.content partLevels key with
  | .text "op" => return .inl (← Take.text value)
  | key => return .inr (key, ← Take.content partLevels value)

def kindAndParts (n : Node) : Take (String × Parts) := do
  match ← Take.follow n with
  | .sequence tag (kind :: rest) =>
    Take.untagged tag
    return (← Take.text kind, .items (← rest.mapM (Take.content partLevels)))
  | .mapping tag entries =>
    Take.untagged tag
    match (← entries.mapM fun (k, v) => entry k v).partitionMap id with
    | ([kind], rest) => return (kind, .fields rest)
    | _ => failure
  | _ => failure

def number? (names : List String) : Content → Option (Option Nat)
  | .text s => some (names.idxOf? s)
  | .natural n => some (some n)
  | _ => none

/-- The values of the named fields, in their order. None may be given twice; more fields than those
named may be given under keys, but not in a list. -/
def values? (names : List String) : Parts → Option (List (Option Content))
  | .items values =>
    if values.length ≤ names.length then some ((List.range names.length).map (values[·]?)) else none
  | .fields entries => do
    let numbered ← entries.mapM fun (k, v) => do return (← number? names k, v)
    (List.range names.length).mapM fun i =>
      match numbered.filter (·.1 == some i) with
      | [] => some none
      | [(_, v)] => some (some v)
      | _ => none

def requiredText? : Option Content → Option String
  | some (.text s) => some s
  | _ => none

def optionalText? : Option Content → Option (Option String)
  | none | some .null => some none
  | some (.text s) => some (some s)
  | _ => none

def ofParts? (kind : String) (parts : Parts) : Option Step := do
  match kind with
  | "scan" =>
    let [r] ← values? ["relation"] parts | none
    return .scan (← requiredText? r)
  | "select" =>
    let [a, v, e] ← values? ["attribute", "value", "equals"] parts | none
    return .select (← requiredText? a) (← optionalText? v) (← optionalText? e)
  | "project" =>
    let [some (.sequence items)] ← values? ["attributes"] parts | none
    return .project (← items.mapM fun c => requiredText? (some c))
  | _ => none

def ofNode (n : Node) : Take Step := do
  let (kind, parts) ← kindAndParts n
  match ofParts? kind parts with
  | some step => return step
  | none => failure

end Step

namespace Description

def ofNode (n : Node) : Take Description := do
  let fields ← Take.record n
  let catalogue ← match ← Take.field? fields "catalogue" with
    | none => pure none
    | some ds => Take.optional (Take.list Definition.ofNode) ds
  let steps ← match ← Take.field? fields "steps" with
    | none => pure []
    | some ss => Take.list Step.ofNode ss
  return ⟨catalogue, steps⟩

/-- What a reader of texts makes of a text; a reader says no more of a failure than that. -/
def readBy (read : String → Option Description) (text : String) :
    Except SourceError Description :=
  match read text with
  | some d => .ok d
  | none => .error .yaml

def ofText? : String → Option Description := Take.ofText? ofNode

def ofText : String → Except SourceError Description := readBy ofText?

end Description

namespace Described

def readBy (read : String → Option Description) (given : Option Catalogue) (text : String) :
    Except SourceError Described := do
  (← Description.readBy read text).describe given

def ofText : Option Catalogue → String → Except SourceError Described := readBy Description.ofText?

end Described

def Catalogue.ofYaml (text : String) : Except SourceError Catalogue :=
  match Take.ofText? (Take.list Definition.ofNode) text with
  | some ds => SourceError.ofPlan (ofDefinitions ds)
  | none => do
    match ← (← Description.ofText text).embedded with
    | some c => return c
    | none => .error .missingCatalogue

end QueryPlan
