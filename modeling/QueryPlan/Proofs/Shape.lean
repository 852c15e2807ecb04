import QueryPlan.Proofs.FrontEnds

/-! The shape that plans have when they come from a front end: left-deep products of registered
relations, none of them scanned twice, without joins and without estimates. The order of the scans
is that of the query's relations, or of the scan steps among the other steps. -/

namespace QueryPlan
open Outcome

namespace Plan
variable {c : Catalogue} {plan i : Plan}

/-- A plan over the given relations, in their order, that nothing has estimated or optimised. -/
structure Fresh (c : Catalogue) (relations : List String) (plan : Plan) : Prop where
  kind_ne_join : ∀ i ∈ plan.subplans, i.kind ≠ .join
  left_deep : ∀ l r out, product l r out ∈ plan.subplans → r.kind = .scan
  unestimated : ∀ i ∈ plan.subplans, i.output? = none
  listed_ne_nil : ∀ i as out, project i as out ∈ plan.subplans → as ≠ []
  registered : ∀ s out, scan s out ∈ plan.subplans → c.lookup s.name = .ok s
  nodup : plan.baseRelations.Nodup
  baseRelations_eq : plan.baseRelations = relations

namespace Canonical

theorem of_mem_children (h : plan.Canonical c) (hi : i ∈ plan.children) : i.Canonical c := by
  cases h with
  | scan hs => cases hi
  | select p hin => exact List.mem_singleton.mp hi ▸ hin
  | project hl hin => exact List.mem_singleton.mp hi ▸ hin
  | product hl hs hn =>
    rcases List.mem_pair.mp hi with rfl | rfl
    · exact hl
    · exact .scan hs

theorem of_mem_subplans (h : plan.Canonical c) (hi : i ∈ plan.subplans) : i.Canonical c :=
  rel_of_mem_subplans (R := fun i p => p.Canonical c → i.Canonical c) (fun _ hp => hp)
    (fun hj hij hp => hij (hp.of_mem_children hj)) hi h

theorem output?_eq_none (h : plan.Canonical c) : plan.output? = none := by
  cases h <;> rfl

theorem baseRelations_nodup (h : plan.Canonical c) : plan.baseRelations.Nodup := by
  induction h with
  | scan => exact List.nodup_singleton _
  | select _ _ ih => exact ih
  | project _ _ ih => exact ih
  | product _ _ hn ih =>
    rw [baseRelations, List.nodup_append]
    refine ⟨ih, List.nodup_singleton _, fun r hr t ht hrt => hn ?_⟩
    rw [← List.mem_singleton.mp ht, ← hrt]
    exact hr

theorem fresh (h : plan.Canonical c) : plan.Fresh c plan.baseRelations where
  kind_ne_join := h.kind_ne_join
  left_deep l r out hm := by
    cases h.of_mem_subplans hm with
    | product => rfl
  unestimated i hm := (h.of_mem_subplans hm).output?_eq_none
  listed_ne_nil i as out hm := by
    cases h.of_mem_subplans hm with
    | project hl => exact hl
  registered s out hm := by
    cases h.of_mem_subplans hm with
    | scan hs => exact Catalogue.lookup_eq_ok.mpr hs
  nodup := h.baseRelations_nodup
  baseRelations_eq := rfl

end Canonical
end Plan

namespace Step
variable {c : Catalogue} {number : Nat} {step : Step} {before : Option Plan} {plan : Plan}

def scanned? : Step → Option String
  | scan relation => some relation
  | _ => none

def scanned (steps : List Step) : List String := steps.filterMap scanned?

theorem baseRelations_extend (h : step.extend c number before = .ok plan) : plan.baseRelations =
    (before.map Plan.baseRelations).getD [] ++ step.scanned?.toList := by
  cases step with
  | scan relation =>
    obtain ⟨-, s, hs, rfl⟩ := extend_scan.mp h
    have hsn := Catalogue.name_of_find? hs
    cases before with
    | none => exact congrArg (fun n => [n]) hsn
    | some p => exact congrArg (fun n => p.baseRelations ++ [n]) hsn
  | select column value equals =>
    obtain ⟨p, condition, rfl, -, rfl⟩ := extend_select.mp h
    exact (List.append_nil _).symm
  | project columns =>
    obtain ⟨p, rfl, -, rfl⟩ := extend_project.mp h
    exact (List.append_nil _).symm

theorem baseRelations_extendAll {steps : List Step} {result : Option Plan}
    (h : extendAll c number steps before = .ok result) : (result.map Plan.baseRelations).getD [] =
      (before.map Plan.baseRelations).getD [] ++ scanned steps := by
  induction steps generalizing number before with
  | nil =>
    cases h
    exact (List.append_nil _).symm
  | cons step rest ih =>
    obtain ⟨next, hn, h⟩ := bind_eq_ok.mp h
    rw [ih h, Option.map_some, Option.getD_some, baseRelations_extend hn, List.append_assoc]
    cases step <;> rfl

end Step

namespace Plan
variable {c : Catalogue} {plan : Plan}

theorem baseRelations_ofSteps {steps : List QueryPlan.Step} (h : ofSteps c steps = .ok plan) :
    plan.baseRelations = Step.scanned steps := by
  obtain ⟨result, hr, h⟩ := bind_eq_ok.mp h
  cases result with
  | none => cases h
  | some p =>
    cases pure_eq_ok.mp h
    exact Step.baseRelations_extendAll hr

/-- The plan of a query is fresh over the query's relations, that of a description over the
relations that its steps scan, in the catalogue it brings or else in the given one. -/
theorem front_ends_fresh :
    (∀ (c : Catalogue) (q : Query) (plan : Plan), q.plan c = .ok plan → plan.Fresh c q.relations) ∧
      ∀ (d : Description) (given : Option Catalogue) (r : Described), d.describe given = .ok r →
        ∃ c, d.embedded = .ok r.catalogue ∧ r.catalogue.or given = some c ∧
          r.plan.Fresh c (Step.scanned d.steps) := by
  constructor
  · intro c q plan h
    have hgrown := Query.plan_grown h
    exact hgrown.baseRelations ▸ hgrown.canonical.fresh
  · intro d given r h
    obtain ⟨own, hown, h⟩ := bind_eq_ok.mp h
    split at h
    · cases h
    · next c hc =>
      obtain ⟨p, hp, h⟩ := bind_eq_ok.mp h
      cases pure_eq_ok.mp h
      exact ⟨c, hown, hc, baseRelations_ofSteps hp ▸ (ofSteps_canonical hp).fresh⟩

theorem front_ends_fresh_sample :
    Plan.sample.Fresh .sample ["Employee", "Works_On"] ∧
      ∃ r c, (⟨some [⟨"R", 5, [("a", 2)]⟩, ⟨"S", 7, [("b", 0)]⟩], [.scan "R",
          .select "a" (some "x") none, .project ["a"], .scan "S", .select "a" none (some "b")]⟩ :
          Description).describe (some .sample) = .ok r ∧
        r.catalogue = some c ∧ r.plan.nodeCount = 6 ∧ r.plan.Fresh c ["R", "S"] := by
  have hq : (⟨some ["LNAME"], ["Employee", "Works_On"],
      [.join (.named "SSN") (.named "ESSN"), .value (.named "PNO") "3"]⟩ : Query).plan .sample =
        .ok .sample := rfl
  refine ⟨front_ends_fresh.1 _ _ _ hq, ?_⟩
  obtain ⟨r, hr, hn, own, hown⟩ : ∃ r, (⟨some [⟨"R", 5, [("a", 2)]⟩, ⟨"S", 7, [("b", 0)]⟩],
      [.scan "R", .select "a" (some "x") none, .project ["a"], .scan "S",
        .select "a" none (some "b")]⟩ : Description).describe (some .sample) = .ok r ∧
        r.plan.nodeCount = 6 ∧ ∃ own, r.catalogue = some own := ⟨_, rfl, rfl, _, rfl⟩
  obtain ⟨c, -, hc, hfresh⟩ := front_ends_fresh.2 _ _ _ hr
  rw [hown] at hc
  exact ⟨r, c, hr, hown.trans hc, hn, hfresh⟩

end Plan
end QueryPlan
