import QueryPlan.Digest
import QueryPlan.Plan.Written

/-! The record of one optimisation: digests and costs of the plan before and after. -/

namespace QueryPlan

def Plan.fingerprint (p : Plan) : Digest := Digest.ofText p.written

namespace Digest

def toJson (d : Digest) : Json := .array (d.bytes.toList.map fun b => .natural b.toNat)

def byte? : Json → Option UInt8
  | .natural n => if n < 256 then some (UInt8.ofNat n) else none
  | _ => none

def ofJson? (j : Json) : Option Digest := do
  let bytes ← j.list? 1 fun _ => byte?
  if h : bytes.length = 32 then return ⟨⟨bytes.toArray, by simpa using h⟩⟩ else none

end Digest

/-- Costs count the tuples of all nodes, `outputTuples` those of the root alone. -/
structure Manifest where
  canonicalHash : Digest
  optimisedHash : Digest
  canonicalCost : Count := 0
  optimisedCost : Count := 0
  outputTuples : Count := 0
  version : String := "0.1.0"
deriving DecidableEq

namespace Manifest

def withCosts (m : Manifest) (canonical optimised outputTuples : Count) : Manifest :=
  { m with canonicalCost := canonical, optimisedCost := optimised, outputTuples := outputTuples }

def improvement (m : Manifest) : Float :=
  if m.canonicalCost = 0 then 0.0 else 1.0 - m.optimisedCost.toFloat / m.canonicalCost.toFloat

def toJson (m : Manifest) : Json :=
  .object [("canonical_hash", m.canonicalHash.toJson), ("optimised_hash", m.optimisedHash.toJson),
    ("canonical_cost", .ofCount m.canonicalCost), ("optimised_cost", .ofCount m.optimisedCost),
    ("output_tuples", .ofCount m.outputTuples), ("version", .string m.version)]

def ofJson? (j : Json) : Option Manifest := do
  match ← j.record? ["canonical_hash", "optimised_hash", "canonical_cost", "optimised_cost",
      "output_tuples", "version"] with
  | [ch, oh, cc, oc, tuples, version] =>
    return ⟨← Digest.ofJson? ch, ← Digest.ofJson? oh, ← cc.count?, ← oc.count?, ← tuples.count?,
      ← version.text?⟩
  | _ => none

def written (m : Manifest) : String := m.toJson.compact

def ofWritten? (text : String) : Option Manifest := (Json.parse? text).bind ofJson?

end Manifest
end QueryPlan
