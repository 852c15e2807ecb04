import QueryPlan.Json.Parser
import QueryPlan.Json.Record
import QueryPlan.Text.Lines
import QueryPlan.Text.Quoted

/-! Settings of a run, from the environment or from JSON. What is not given keeps its default. -/

namespace QueryPlan

structure Settings where
  earlyProjection : Bool := true
  cataloguePath : String := "data/cat.txt"
  logFilter : String := "warn"
deriving DecidableEq

namespace Settings

structure NotASwitch where
  text : String
deriving DecidableEq

def NotASwitch.message (e : NotASwitch) : String :=
  "Invalid configuration: not a boolean flag: " ++ Text.quoted e.text

def onWords : List String := ["1", "true", "yes", "on"]

def offWords : List String := ["0", "false", "no", "off"]

def switch (s : String) : Except NotASwitch Bool :=
  let word := (Text.trim s).map Char.toLower
  if word ∈ onWords then .ok true
  else if word ∈ offWords then .ok false
  else .error ⟨word⟩

def earlyProjectionVariable : String := "RELOPT_EARLY_PROJECTION"

def catalogueVariable : String := "RELOPT_CATALOGUE"

def logVariable : String := "RELOPT_LOG"

/-- The settings that the variables of an environment make; a switch that cannot be read is as
good as none. -/
def ofEnvironment (lookup : String → Option String) : Settings :=
  let d : Settings := {}
  { earlyProjection :=
      ((lookup earlyProjectionVariable).bind fun s => (switch s).toOption).getD d.earlyProjection
    cataloguePath := (lookup catalogueVariable).getD d.cataloguePath
    logFilter := (lookup logVariable).getD d.logFilter }

def toJson (s : Settings) : Json :=
  .object [("early_projection", .bool s.earlyProjection),
    ("catalogue_path", .string s.cataloguePath), ("log_filter", .string s.logFilter)]

def ofJson? (j : Json) : Option Settings := do
  match ← j.partialRecord? ["early_projection", "catalogue_path", "log_filter"] with
  | [early, path, filter] =>
    let d : Settings := {}
    return {
      earlyProjection := ← given d.earlyProjection Json.bool? early
      cataloguePath := ← given d.cataloguePath Json.text? path
      logFilter := ← given d.logFilter Json.text? filter }
  | _ => none
where
  given {α : Type} (fallback : α) (read? : Json → Option α) : Option Json → Option α
    | none => some fallback
    | some j => read? j

def ofWritten? (text : String) : Option Settings := (Json.parse? text).bind ofJson?

end Settings
end QueryPlan
