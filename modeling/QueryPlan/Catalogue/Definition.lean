import QueryPlan.Catalogue
import QueryPlan.Text.Lines

/-! Definitions of relations, catalogues from lists of them, and the line format that they are
written in: a relation a line, with its name, its tuple count and its attributes between colons, and
the attributes between commas. -/

namespace QueryPlan

structure Definition where
  name : String
  tuples : Count
  attributes : List (String × Count)
deriving DecidableEq

def Catalogue.define (c : Catalogue) (d : Definition) : Except PlanError Catalogue := do
  d.attributes.foldlM (fun c (name, n) => c.createAttribute d.name name n)
    (← c.createRelation d.name d.tuples)

def Catalogue.ofDefinitions (ds : List Definition) : Except PlanError Catalogue :=
  ds.foldlM Catalogue.define Catalogue.empty

def Count.digits (n : Count) : List Char := Nat.toDigits 10 n.toNat

structure Bare (name : List Char) : Prop where
  ne_nil : name ≠ []
  head_not_blank : ∀ c ∈ name.head?, Text.isBlank c = false
  last_not_blank : ∀ c ∈ name.getLast?, Text.isBlank c = false
  no_colon : ':' ∉ name
  no_lineFeed : '\n' ∉ name

instance (name : List Char) : Decidable (Bare name) :=
  decidable_of_iff
    (name ≠ [] ∧ name.head?.any Text.isBlank = false ∧ name.getLast?.any Text.isBlank = false ∧
      ':' ∉ name ∧ '\n' ∉ name)
    ⟨fun ⟨h₁, h₂, h₃, h₄, h₅⟩ =>
        ⟨h₁, (Option.any_eq_false _ _).mp h₂, (Option.any_eq_false _ _).mp h₃, h₄, h₅⟩,
      fun ⟨h₁, h₂, h₃, h₄, h₅⟩ =>
        ⟨h₁, (Option.any_eq_false _ _).mpr h₂, (Option.any_eq_false _ _).mpr h₃, h₄, h₅⟩⟩

namespace Definition

def entry (a : String × Count) : List Char := a.1.toList ++ ':' :: a.2.digits

def entries : List (String × Count) → List Char
  | [] => []
  | as => ':' :: List.intercalate [','] (as.map entry)

def line (d : Definition) : List Char :=
  d.name.toList ++ ':' :: (d.tuples.digits ++ entries d.attributes)

def text (ds : List Definition) : String :=
  String.ofList ((ds.map line).flatMap fun l => l ++ ['\n'])

def openText (ds : List Definition) : String :=
  String.ofList (List.intercalate ['\n'] (ds.map line))

/-- The names fit the line format. Names may repeat, and counts may be zero. -/
structure Writable (d : Definition) : Prop where
  name_bare : Bare d.name.toList
  name_not_comment : d.name.toList.head? ≠ some '#'
  attribute_bare : ∀ a ∈ d.attributes, Bare a.1.toList
  attribute_no_comma : ∀ a ∈ d.attributes, ',' ∉ a.1.toList

instance (d : Definition) : Decidable d.Writable :=
  decidable_of_iff
    (Bare d.name.toList ∧ d.name.toList.head? ≠ some '#' ∧
      (∀ a ∈ d.attributes, Bare a.1.toList) ∧ ∀ a ∈ d.attributes, ',' ∉ a.1.toList)
    ⟨fun ⟨h₁, h₂, h₃, h₄⟩ => ⟨h₁, h₂, h₃, h₄⟩, fun ⟨h₁, h₂, h₃, h₄⟩ => ⟨h₁, h₂, h₃, h₄⟩⟩

end Definition

end QueryPlan
