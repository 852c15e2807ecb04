import QueryPlan.Proofs.Columns
import QueryPlan.Proofs.Shape
import QueryPlan.Proofs.StepLists

/-! Which step lists have an estimate and which can be optimised. An estimate looks for an attribute
in the input of the operator that names it. The optimiser looks for it in all relations that the
plan scans, or that it scans below a projection, and carries it past the projections between; it
accepts whatever has an estimate, and more. For steps in the order of a query, scans first and a
projection last, there is no difference. -/

namespace QueryPlan
open Outcome

namespace Plan
variable {c : Catalogue} {p plan : Plan} {ps : List Predicate}

theorem Canonical.estimated_iff (h : plan.Canonical c) :
    (∃ estimate, plan.estimated = .ok estimate) ↔ plan.Scoped c := by
  constructor
  · rintro ⟨estimate, he⟩
    exact (h.scoped_of_estimated he).1
  · intro hs
    obtain ⟨estimate, -, he, -⟩ := hs.exists_estimate
    exact ⟨estimate, estimated_eq_ok.mpr he⟩

theorem Scoped.resolved (h : plan.Scoped c) : plan.Resolved c :=
  resolved_iff.mpr h.not_stray

end Plan

namespace Query
variable {c : Catalogue} {q : Query} {plan : Plan}

theorem scanned_steps : Step.scanned q.steps = q.relations := by
  have hconditions : (q.conditions.map Predicate.step).filterMap Step.scanned? = [] := by
    rw [List.filterMap_eq_nil_iff]
    intro step hs
    obtain ⟨p, -, rfl⟩ := List.mem_map.mp hs
    cases p <;> rfl
  have hrelations : (q.relations.map Step.scan).filterMap Step.scanned? = q.relations := by
    rw [List.filterMap_map]
    exact List.filterMap_some
  rw [Step.scanned, steps, List.filterMap_append, List.filterMap_append, hconditions, hrelations]
  cases q.projection <;> simp [Step.scanned?]

theorem declares_of_resolved {inner : Plan} {n : String}
    (hr : (q.projected (inner.selected q.conditions)).Resolved c) (hn : n ∈ q.mentions) :
    c.Declares (q.projected (inner.selected q.conditions)).baseRelations n := by
  rcases List.mem_append.mp hn with hn | hn
  · obtain ⟨p, hp, a, ha, rfl⟩ := Predicate.mem_reads.mp hn
    refine hr.selections p ?_ a ha
    have hmem : p ∈ (inner.selected q.conditions).selections := by
      rw [Plan.selections_selected]
      exact List.mem_append_left _ (List.mem_reverse.mpr hp)
    unfold projected
    split <;> exact hmem
  · cases hp : q.projection with
    | none => simp [hp] at hn
    | some names =>
      rw [hp, Option.getD_some] at hn
      simp only [projected, hp] at hr ⊢
      exact hr.projections _ _ _ List.mem_cons_self _ (List.mem_map_of_mem hn)

/-- The plan of a query's steps has nothing between an operator and the product of all scanned
relations that could drop an attribute. -/
theorem scoped_of_resolved (hb : q.Bare) (h : Plan.ofSteps c q.steps = .ok plan)
    (hr : plan.Resolved c) : plan.Scoped c := by
  have hbase : plan.baseRelations = q.relations :=
    (Plan.baseRelations_ofSteps h).trans scanned_steps
  obtain ⟨-, first, rest, s, core, -, -, -, rfl⟩ := (ofSteps_eq_ok hb).mp h
  refine scoped_of_plan (plan_of_ofSteps hb h fun n hn => ?_)
  exact hbase ▸ declares_of_resolved hr hn

end Query

namespace Optimiser
variable {o : Optimiser} {steps : List QueryPlan.Step} {plan : Plan}

/-- The plan of a step list has an estimate exactly if each operator reads columns of its input, and
can be optimised exactly if it is resolved. So whatever has an estimate can be optimised; for the
steps of a query the converse holds too. -/
theorem optimise_estimable (h : Plan.ofSteps o.catalogue steps = .ok plan) :
    ((∃ estimate, plan.estimated = .ok estimate) → ∃ result, o.optimise plan = .ok result) ∧
      ((∃ estimate, plan.estimated = .ok estimate) ↔ plan.Scoped o.catalogue) ∧
      ((∃ result, o.optimise plan = .ok result) ↔ plan.Resolved o.catalogue) ∧
      ∀ q : Query, q.Bare → steps = q.steps →
        ((∃ result, o.optimise plan = .ok result) ↔ ∃ estimate, plan.estimated = .ok estimate) := by
  have hcanonical := Plan.ofSteps_canonical h
  have hestimated := hcanonical.estimated_iff
  have hoptimised := optimise_iff_resolved hcanonical.orderly
  have hforward : (∃ estimate, plan.estimated = .ok estimate) → ∃ result,
      o.optimise plan = .ok result :=
    fun he => hoptimised.mpr (hestimated.mp he).resolved
  refine ⟨hforward, hestimated, hoptimised, fun q hb hq => ⟨fun ho => ?_, hforward⟩⟩
  exact hestimated.mpr (Query.scoped_of_resolved hb (hq ▸ h) (hoptimised.mp ho))

theorem optimise_estimable_sample : ∃ steps plan,
    steps = [.scan "Employee", .scan "Works_On", .select "SSN" none (some "ESSN"),
      .project ["LNAME", "PNO"]] ∧
    Plan.ofSteps .sample steps = .ok plan ∧ plan.Scoped .sample ∧ plan.Resolved .sample ∧
      (∃ estimate, plan.estimated = .ok estimate) ∧
      ∃ result, (⟨.sample, true⟩ : Optimiser).optimise plan = .ok result := by
  have hb : (⟨some ["LNAME", "PNO"], ["Employee", "Works_On"],
      [.join (.named "SSN") (.named "ESSN")]⟩ : Query).Bare := by
    simp [Query.Bare, Predicate.attributes, Attribute.named]
  obtain ⟨plan, estimate, hp, he⟩ : ∃ plan estimate, Plan.ofSteps .sample
      (⟨some ["LNAME", "PNO"], ["Employee", "Works_On"],
        [.join (.named "SSN") (.named "ESSN")]⟩ : Query).steps = .ok plan ∧
        plan.estimated = .ok estimate := ⟨_, _, rfl, rfl⟩
  have hp' : Plan.ofSteps (⟨.sample, true⟩ : Optimiser).catalogue _ = .ok plan := hp
  obtain ⟨-, hscoped, hresolved, hboth⟩ := optimise_estimable hp'
  have ho := (hboth _ hb rfl).mpr ⟨estimate, he⟩
  exact ⟨_, plan, rfl, hp, hscoped.mp ⟨estimate, he⟩, hresolved.mp ho, ⟨estimate, he⟩, ho⟩

/-- A selection before the scan of the relation that has its attribute, or above a projection that
drops it, is optimised although it has no estimate. -/
theorem optimise_unestimable :
    (∃ plan, Plan.ofSteps .sample
        [.scan "Employee", .select "PNO" (some "3") none, .scan "Works_On"] = .ok plan ∧
      plan.estimated = .error (.unresolvedAttribute "PNO") ∧
        ∀ narrow, ∃ result, (⟨.sample, narrow⟩ : Optimiser).optimise plan = .ok result) ∧
    ∃ plan, Plan.ofSteps .sample
        [.scan "Works_On", .project ["SSN"], .select "PNO" (some "3") none] = .ok plan ∧
      plan.estimated = .error (.unresolvedAttribute "PNO") ∧
        ∀ narrow, ∃ result, (⟨.sample, narrow⟩ : Optimiser).optimise plan = .ok result := by
  constructor
  · refine ⟨_, rfl, rfl, fun narrow => ?_⟩
    cases narrow <;> exact ⟨_, rfl⟩
  · refine ⟨_, rfl, rfl, fun narrow => ?_⟩
    cases narrow <;> exact ⟨_, rfl⟩

end Optimiser
end QueryPlan
