import QueryPlan.Catalogue.Text
import QueryPlan.Command.Arguments
import QueryPlan.Description.Text
import QueryPlan.Manifest
import QueryPlan.Optimiser
import QueryPlan.Plan.Listing
import QueryPlan.Query.Text
import QueryPlan.Settings

/-! The command. It reads and writes in surroundings that are left open; a query is read before a
catalogue, and a catalogue only where it is needed. -/

namespace QueryPlan.Command

inductive FileError
  | missing
  | notAFolder
  | isAFolder
  | notText
  | refused (number : Nat) (reason : String)
deriving DecidableEq

namespace FileError

def numbered (number : Nat) (reason : String) : String :=
  reason ++ " (os error " ++ toString number ++ ")"

def message : FileError → String
  | missing => numbered 2 "No such file or directory"
  | notAFolder => numbered 20 "Not a directory"
  | isAFolder => numbered 21 "Is a directory"
  | notText => "stream did not contain valid UTF-8"
  | refused number reason => numbered number reason

end FileError

/-- Files are named by paths, with slashes between folders. -/
structure Surroundings (m : Type → Type) where
  input : m (Except FileError String)
  read : String → m (Except FileError String)
  write : String → String → m (Except FileError Unit)
  print : String → m Unit
  complain : String → m Unit

def heading (title : String) : String := title ++ "\n==============\n"

def costLine (p : Plan) : String := "Total Cost: " ++ toString p.totalCost.toNat ++ " tuples\n"

def explanation (p : Plan) : String :=
  heading "Canonical Plan" ++ p.listing ++ "\n" ++ costLine p ++
    "Fingerprint: " ++ p.fingerprint.hex ++ "\n"

def comparison (earlyProjection : Bool) (canonical optimised : Plan) : String :=
  heading "Canonical Plan" ++ canonical.listing ++ costLine canonical ++ "\n" ++
    heading ("Optimised Plan (early projection " ++ mode ++ ")") ++
    optimised.listing ++ costLine optimised
where
  mode : String := if earlyProjection then "on" else "off"

def validity (p : Plan) : String :=
  "✓ Query is valid (" ++ toString p.nodeCount ++ " nodes over " ++
    ", ".intercalate p.baseRelations ++ ")\n"

def manifestOf (canonical optimised : Plan) (output : Relation) : Manifest :=
  Manifest.withCosts ({ canonicalHash := canonical.fingerprint
                        optimisedHash := optimised.fingerprint })
    canonical.totalCost optimised.totalCost output.tupleCount

inductive Failure
  | file (error : FileError)
  | catalogueFile (path : String) (error : FileError)
  | source (error : SourceError)
deriving DecidableEq

def Failure.message : Failure → String
  | file e => e.message
  | catalogueFile path e => "cannot read catalogue " ++ path ++ ": " ++ e.message
  | source e => e.message

variable {m : Type → Type} [Monad m]

abbrev Attempt (m : Type → Type) (α : Type) := ExceptT Failure m α

def source {α : Type} : Except SourceError α → Attempt m α
  | .ok a => return a
  | .error e => throw (.source e)

def planned {α : Type} (r : Except PlanError α) : Attempt m α := source (SourceError.ofPlan r)

def isYaml (path : String) : Bool :=
  let name := path.toList.reverse.takeWhile (· != '/')
  match Text.cut '.' name with
  | (ending, some (_ :: _)) => ["yaml", "yml"].contains (String.ofList ending.reverse)
  | _ => false

def readQuery (s : Surroundings m) (input : Input) : Attempt m String := do
  let text ← match input.query with
    | some path => s.read path
    | none => s.input
  match text with
  | .ok text => return text
  | .error e => throw (.file e)

def readCatalogue (s : Surroundings m) (settings : Settings) (input : Input) :
    Attempt m Catalogue := do
  let path := input.catalogue.getD settings.cataloguePath
  match ← s.read path with
  | .ok text => source (if isYaml path then Catalogue.ofYaml text else Catalogue.ofText text)
  | .error e => throw (.catalogueFile path e)

/-- The plan that a text describes, and its catalogue. Only a description that brings no catalogue
asks for one. -/
def describe (read : String → Option Description) (text : String) (outside : Attempt m Catalogue) :
    Attempt m (Catalogue × Plan) :=
  match Described.readBy read none text with
  | .ok d => return (d.catalogue.getD .empty, d.plan)
  | .error .missingCatalogue => do
    let c ← outside
    let d ← source (Described.readBy read (some c) text)
    return (c, d.plan)
  | .error e => throw (.source e)

def load (s : Surroundings m) (settings : Settings) (input : Input) :
    Attempt m (Catalogue × Plan) := do
  let text ← readQuery s input
  if input.yaml || input.query.any isYaml then
    describe Description.ofText? text (readCatalogue s settings input)
  else
    let c ← readCatalogue s settings input
    return (c, ← source (Plan.ofQueryText c text))

def optimise (s : Surroundings m) (settings : Settings) (input : Input)
    (manifest : Option String) : Attempt m Unit := do
  let (c, plan) ← load s settings input
  let optimised ← planned (Optimiser.optimise ⟨c, settings.earlyProjection⟩ plan)
  let canonical ← planned plan.estimated
  let output ← planned optimised.output
  s.print (comparison settings.earlyProjection canonical optimised)
  match manifest with
  | none => return ()
  | some path =>
    match ← s.write path (manifestOf canonical optimised output).toJson.pretty with
    | .ok _ => s.print ("\nManifest written to " ++ path ++ "\n")
    | .error e => throw (.file e)

def perform (s : Surroundings m) (settings : Settings) (i : Invocation) : Attempt m Unit :=
  match i.action with
  | .explain => do
    let (_, plan) ← load s settings i.input
    s.print (explanation (← planned plan.estimated))
  | .validate => do
    let (_, plan) ← load s settings i.input
    s.print (validity plan)
  | .optimise noEarlyProjection manifest =>
    optimise s { settings with earlyProjection := settings.earlyProjection && !noEarlyProjection }
      i.input manifest

def usage : String :=
  "Usage: [--log FILTER] explain|validate|optimise [-c FILE] [-q FILE] [--yaml]\n" ++
  "       optimise also takes [--no-early-projection] [--manifest FILE]\n"

/-- Does what the arguments ask for. The status is 0 for success, 1 for a failure and 2 where the
arguments cannot be understood. -/
def run (s : Surroundings m) (settings : Settings) (args : List String) : m UInt32 := do
  match Invocation.ofArguments? args with
  | none =>
    s.complain usage
    return 2
  | some i =>
    let settings := { settings with logFilter := i.logFilter.getD settings.logFilter }
    match ← ExceptT.run (perform s settings i) with
    | .ok _ => return 0
    | .error e =>
      s.complain ("Error: " ++ e.message ++ "\n")
      return 1

end QueryPlan.Command
