import QueryPlan.Text.Lines

/-! The arguments of a command: options of the whole program, the name of an action, and options of
that action. An option with a value is followed by it, in the same argument or as the next. -/

namespace QueryPlan.Command

structure Form where
  long : String
  short : Option Char := none
  takesValue : Bool := true

structure Input where
  catalogue : Option String
  query : Option String
  yaml : Bool
deriving DecidableEq

inductive Action
  | explain
  | validate
  | optimise (noEarlyProjection : Bool) (manifest : Option String)
deriving DecidableEq

def Input.ofOptions (given : List (String × String)) : Input where
  catalogue := given.lookup "catalogue"
  query := given.lookup "query"
  yaml := (given.lookup "yaml").isSome

structure Invocation where
  logFilter : Option String
  input : Input
  action : Action
deriving DecidableEq

def isOption (arg : String) : Bool := arg.startsWith "-" && arg != "-"

def Form.find? (forms : List Form) (arg : String) : Option (Form × Option String) :=
  match arg.toList with
  | '-' :: '-' :: cs =>
    let (name, value) := Text.cut '=' cs
    (forms.find? (·.long == String.ofList name)).map fun f => (f, value.map String.ofList)
  | '-' :: c :: cs =>
    let value := match cs with
      | [] => none
      | '=' :: v => some (String.ofList v)
      | v => some (String.ofList v)
    (forms.find? (·.short == some c)).map fun f => (f, value)
  | _ => none

/-- The options before the first argument that is none, and the arguments from there on. A double
dash ends the options. -/
def options? (forms : List Form) : List String → Option (List (String × String) × List String)
  | [] => some ([], [])
  | arg :: rest =>
    if arg = "--" || !isOption arg then some ([], arg :: rest)
    else
      match Form.find? forms arg with
      | none => none
      | some (f, some v) => if f.takesValue then add f v (options? forms rest) else none
      | some (f, none) =>
        if !f.takesValue then add f "" (options? forms rest)
        else
          match rest with
          | [] => none
          | v :: rest => if isOption v then none else add f v (options? forms rest)
where
  add (f : Form) (value : String) :
      Option (List (String × String) × List String) → Option (List (String × String) × List String)
    | none => none
    | some (given, rest) => some ((f.long, value) :: given, rest)

namespace Invocation

def logForm : Form := { long := "log" }

def inputForms : List Form :=
  [{ long := "catalogue", short := some 'c' }, { long := "query", short := some 'q' },
    { long := "yaml", takesValue := false }, logForm]

def optimiseForms : List Form :=
  [{ long := "no-early-projection", takesValue := false }, { long := "manifest" }]

def areSound (given : List (String × String)) : Bool :=
  decide (given.map (·.1)).Nodup &&
    given.all fun (name, value) =>
      !(value.isEmpty && ["catalogue", "query", "manifest"].contains name)

def action? : String → Option (List Form × (List (String × String) → Action))
  | "explain" => some (inputForms, fun _ => .explain)
  | "validate" => some (inputForms, fun _ => .validate)
  | "optimise" => some (inputForms ++ optimiseForms, fun given =>
    .optimise (given.lookup "no-early-projection").isSome (given.lookup "manifest"))
  | _ => none

def ofArguments? (args : List String) : Option Invocation := do
  match ← options? [logForm] args with
  | (_, []) => none
  | (outer, name :: rest) =>
    let (forms, action) ← action? name
    let (given, rest) ← options? forms rest
    if areSound outer && areSound given && (rest == [] || rest == ["--"]) then
      return ⟨(given.lookup "log").or (outer.lookup "log"), .ofOptions given, action given⟩
    else none

end Invocation
end QueryPlan.Command
