import QueryPlan.Catalogue

/-! The store behind a catalogue while it is filled in place: relations in a row, and beside them
the slot of each name in the row. A call that cannot be carried out says why. A slot past the end of
the row would end the program; then there is neither an answer nor a store. -/

namespace QueryPlan

structure Register where
  relations : List NamedRelation
  /-- Slots by name. Of two entries for a name the first one counts. -/
  index : List (String × Nat)
deriving DecidableEq

inductive Call
  | register (name : String) (tuples : Count)
  | declare (relation name : String) (values : Count)
deriving DecidableEq

abbrev Answer := Except PlanError Unit

namespace Register

def empty : Register := ⟨[], []⟩

def slot? (r : Register) (name : String) : Option Nat := r.index.lookup name

def createRelation (r : Register) (name : String) (tuples : Count) : Answer × Register :=
  match r.slot? name with
  | some _ => (.error (.duplicateRelation name), r)
  | none =>
    (.ok (), {
      relations := r.relations ++ [⟨name, ⟨tuples, []⟩⟩]
      index := (name, r.relations.length) :: r.index })

def createAttribute (r : Register) (relation name : String) (values : Count) :
    Option (Answer × Register) :=
  match r.slot? relation with
  | none => some (.error (.unknownRelation relation), r)
  | some slot => do
    let named ← r.relations[slot]?
    match named.relation.insert? ⟨name, values.atLeastOne⟩ with
    | none => return (.error (.duplicateAttribute relation name), r)
    | some s => return (.ok (), { r with relations := r.relations.set slot ⟨named.name, s⟩ })

def lookup (r : Register) (name : String) : Option (Except PlanError NamedRelation) :=
  match r.slot? name with
  | none => some (.error (.unknownRelation name))
  | some slot => do return .ok (← r.relations[slot]?)

def contains (r : Register) (name : String) : Bool := (r.slot? name).isSome

def names (r : Register) : List String := r.relations.map (·.name)

def size (r : Register) : Nat := r.relations.length

def isEmpty (r : Register) : Bool := r.relations.isEmpty

def ownerOf? (r : Register) (column : String) : Option String :=
  (r.relations.find? (·.relation.contains column)).map (·.name)

def call (r : Register) : Call → Option (Answer × Register)
  | .register name tuples => some (r.createRelation name tuples)
  | .declare relation name values => r.createAttribute relation name values

def run (r : Register) : List Call → Option (List Answer × Register)
  | [] => some ([], r)
  | call :: calls => do
    let (answer, r) ← r.call call
    let (answers, r) ← r.run calls
    return (answer :: answers, r)

end Register
end QueryPlan
