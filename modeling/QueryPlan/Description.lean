import QueryPlan.Catalogue.Definition

/-! Plan descriptions: step lists that may bring the catalogue they are about. The first scan starts
the plan, each later one is combined with the plan so far by a product, and the other steps are put
on top. -/

namespace QueryPlan

def Step.extend (c : Catalogue) (number : Nat) :
    Step → Option Plan → Except SourceError Plan
  | scan relation, plan =>
    if plan.any (·.baseRelations.contains relation) then
      .error (.step number (.repeatedScan relation))
    else do
      let r ← SourceError.ofPlan (c.lookup relation)
      match plan with
      | none => return .scan r
      | some plan => return .product plan (.scan r)
  | select column (some v) none, some plan => .ok (.select plan (.value (.named column) v))
  | select column none (some other), some plan =>
    .ok (.select plan (.join (.named column) (.named other)))
  | select .., some _ => .error (.step number .notOneOperand)
  | project [], some _ => .error (.plan .emptyProjection)
  | project columns, some plan => .ok (.project plan (columns.map .named))
  | step, none => .error (.step number (.noScanBefore step))

def extendAll (c : Catalogue) : Nat → List Step → Option Plan → Except SourceError (Option Plan)
  | _, [], plan => .ok plan
  | number, step :: rest, plan => do
    let plan ← step.extend c number plan
    extendAll c (number + 1) rest (some plan)

def Plan.ofSteps (c : Catalogue) (steps : List Step) : Except SourceError Plan := do
  match ← extendAll c 1 steps none with
  | some plan => return plan
  | none => .error (.step 0 .noSteps)

structure Description where
  catalogue : Option (List Definition)
  steps : List Step
deriving DecidableEq

structure Described where
  catalogue : Option Catalogue
  plan : Plan

namespace Description

def embedded (d : Description) : Except SourceError (Option Catalogue) :=
  match d.catalogue with
  | none => .ok none
  | some ds => do return some (← SourceError.ofPlan (Catalogue.ofDefinitions ds))

def describe (d : Description) (given : Option Catalogue) : Except SourceError Described := do
  let own ← d.embedded
  match own.or given with
  | none => .error .missingCatalogue
  | some c => return ⟨own, ← Plan.ofSteps c d.steps⟩

end Description

end QueryPlan
