import QueryPlan.Description.Text
import QueryPlan.Proofs.Acceptance
import QueryPlan.Query.Text

/-! The plans that come from a front end, a query or a list of steps. They are scans of registered
relations, each new scan multiplied to the plan so far, under selections and projections. Queries
are checked on the way, step lists are not. -/

namespace QueryPlan
open Outcome

/-- Plans in the shape that the front ends give them. -/
inductive Plan.Canonical (c : Catalogue) : Plan → Prop
  | scan {s : NamedRelation} (hs : c.find? s.name = some s) : Canonical c (.scan s)
  | select {input : Plan} (p : Predicate) (hi : Canonical c input) : Canonical c (.select input p)
  | project {input : Plan} {listed : List Attribute} (hl : listed ≠ [])
      (hi : Canonical c input) : Canonical c (.project input listed)
  | product {left : Plan} {s : NamedRelation} (hl : Canonical c left)
      (hs : c.find? s.name = some s) (hn : s.name ∉ left.baseRelations) :
      Canonical c (.product left (.scan s))

/-- Plans that a query or a list of steps stands for. -/
inductive Plan.Built (c : Catalogue) : Plan → Prop
  | query {q : Query} {p : Plan} (h : q.plan c = .ok p) : Built c p
  | steps {steps : List QueryPlan.Step} {p : Plan} (h : ofSteps c steps = .ok p) : Built c p

variable {c : Catalogue} {plan : Plan} {n : String}

theorem Plan.Canonical.orderly (h : plan.Canonical c) : plan.Orderly c := by
  induction h with
  | scan hs => exact ⟨_, hs⟩
  | select _ _ ih => exact ih
  | project hl _ ih => exact ⟨hl, ih⟩
  | product _ hs _ ih => exact ⟨ih, ⟨_, hs⟩, by simp [mentions]⟩

theorem Plan.Canonical.registered (h : plan.Canonical c) :
    ∀ s ∈ plan.scans, c.find? s.name = some s := by
  induction h with
  | scan hs => exact List.forall_mem_singleton.mpr hs
  | select _ _ ih => exact ih
  | project _ _ ih => exact ih
  | product _ hs _ ih => exact List.forall_mem_append.mpr ⟨ih, List.forall_mem_singleton.mpr hs⟩

theorem Plan.Canonical.project_nil_not_mem (h : plan.Canonical c) (i : Plan)
    (out : Option Relation) : .project i [] out ∉ plan.subplans := by
  induction h with
  | scan => simp
  | select _ _ ih => simpa using ih
  | project hl _ ih => simpa [hl.symm] using ih
  | product _ _ _ ih => simpa using ih

theorem Plan.Canonical.kind_ne_join (h : plan.Canonical c) :
    ∀ i ∈ plan.subplans, i.kind ≠ .join := by
  induction h with
  | scan => simp [kind]
  | select _ _ ih => exact List.forall_mem_cons.mpr ⟨by simp [kind], ih⟩
  | project _ _ ih => exact List.forall_mem_cons.mpr ⟨by simp [kind], ih⟩
  | product _ _ _ ih =>
    exact List.forall_mem_cons.mpr
      ⟨by simp [kind], List.forall_mem_append.mpr ⟨ih, by simp [kind]⟩⟩

theorem SourceError.ofPlan_eq_ok {α : Type} {x : Except PlanError α} {a : α} :
    ofPlan x = .ok a ↔ x = .ok a := by
  cases x <;> simp [ofPlan]

namespace Query
variable {q : Query}

theorem declares_eq_true : q.declares c n = true ↔ c.Declares q.relations n := by
  simp only [declares, List.any_eq_true, Catalogue.any_contains_iff, Catalogue.Declares]

theorem check_eq_ok : q.check c n = .ok () ↔ c.Declares q.relations n := by
  rw [check, ← declares_eq_true]
  cases q.declares c n <;> simp

theorem check_eq_error {e : SourceError} :
    q.check c n = .error e ↔ ¬ c.Declares q.relations n ∧ .plan (.unresolvedAttribute n) = e := by
  rw [check, ← declares_eq_true]
  cases q.declares c n <;> simp

/-- A plan of a query's relations so far, with nothing stray. -/
structure Grown (c : Catalogue) (relations : List String) (plan : Plan) : Prop where
  canonical : plan.Canonical c
  baseRelations : plan.baseRelations = relations
  not_stray : ∀ n, ¬ plan.Stray c n

theorem scans_grown {earlier rest : List String} {result : Plan} (hp : Grown c earlier plan)
    (h : scans c earlier rest plan = .ok result) : Grown c (earlier ++ rest) result := by
  induction rest generalizing earlier plan with
  | nil =>
    cases h
    rwa [List.append_nil]
  | cons name rest ih =>
    rw [scans] at h
    split at h
    · cases h
    · next hname =>
      obtain ⟨s, hs, h⟩ := bind_eq_ok.mp h
      have hs := Catalogue.lookup_eq_ok.mp (SourceError.ofPlan_eq_ok.mp hs)
      have hsn := Catalogue.name_of_find? hs
      rw [← List.singleton_append, ← List.append_assoc]
      -- the check for a repeated relation is what makes the product canonical
      refine ih ⟨.product hp.canonical (hsn ▸ hs) ?_, ?_, fun n hn => ?_⟩ h
      · rw [hp.baseRelations, hsn]
        simpa using hname
      · rw [Plan.baseRelations, hp.baseRelations, Plan.baseRelations, hsn]
      · exact (Plan.stray_of_product hn).elim (hp.not_stray n) Plan.not_stray_scan

theorem conditions_grown {ps : List Predicate} {result : Plan} (hp : Grown c q.relations plan)
    (h : ps.foldlM (fun plan p => do
      p.attributes.forM fun a => q.check c a.name
      return Plan.select plan p) plan = .ok result) : Grown c q.relations result := by
  induction ps generalizing plan with
  | nil =>
    cases pure_eq_ok.mp h
    exact hp
  | cons p ps ih =>
    rw [List.foldlM_cons] at h
    obtain ⟨next, hn, h⟩ := bind_eq_ok.mp h
    obtain ⟨⟨⟩, hc, hn⟩ := bind_eq_ok.mp hn
    cases pure_eq_ok.mp hn
    -- queries check what a condition reads, so nothing goes astray
    refine ih ⟨.select p hp.canonical, hp.baseRelations, fun n hn => ?_⟩ h
    rcases Plan.stray_select.mp hn with ⟨hm, hd⟩ | hn
    · obtain ⟨a, ha, rfl⟩ := List.mem_map.mp hm
      rw [hp.baseRelations] at hd
      exact hd (check_eq_ok.mp (forM_eq_ok.mp hc a ha))
    · exact hp.not_stray n hn

theorem plan_grown (h : q.plan c = .ok plan) : Grown c q.relations plan := by
  unfold Query.plan at h
  split at h
  · cases h
  · next first rest hr =>
    obtain ⟨s, hs, h⟩ := bind_eq_ok.mp h
    have hs := Catalogue.lookup_eq_ok.mp (SourceError.ofPlan_eq_ok.mp hs)
    have hsn := Catalogue.name_of_find? hs
    obtain ⟨product, hp, h⟩ := bind_eq_ok.mp h
    obtain ⟨selected, hsel, h⟩ := bind_eq_ok.mp h
    have hscan : Grown c [first] (.scan s) :=
      ⟨.scan (hsn ▸ hs), by rw [Plan.baseRelations, hsn], fun _ => Plan.not_stray_scan⟩
    have hproduct := scans_grown hscan hp
    rw [List.singleton_append, ← hr] at hproduct
    have hselected := conditions_grown hproduct hsel
    split at h
    · cases pure_eq_ok.mp h
      exact hselected
    · cases h
    · next names hnames _ =>
      obtain ⟨⟨⟩, hc, h⟩ := bind_eq_ok.mp h
      cases pure_eq_ok.mp h
      refine ⟨.project ?_ hselected.canonical, hselected.baseRelations, fun n hn => ?_⟩
      · exact fun hnil => hnames (List.map_eq_nil_iff.mp hnil)
      · rcases Plan.stray_project.mp hn with ⟨hm, hd⟩ | hn
        · obtain ⟨a, ha, rfl⟩ := List.mem_map.mp hm
          obtain ⟨m, hmem, rfl⟩ := List.mem_map.mp ha
          rw [hselected.baseRelations] at hd
          exact hd (check_eq_ok.mp (forM_eq_ok.mp hc m hmem))
        · exact hselected.not_stray n hn

end Query

namespace Step
variable {number : Nat} {before : Option Plan}

def condition? (column : String) : Option String → Option String → Option Predicate
  | some v, none => some (.value (.named column) v)
  | none, some other => some (.join (.named column) (.named other))
  | _, _ => none

theorem extend_scan {relation : String} : (scan relation).extend c number before = .ok plan ↔
    (∀ p ∈ before, relation ∉ p.baseRelations) ∧ ∃ s, c.find? relation = some s ∧
      before.elim (.scan s) (fun p => .product p (.scan s)) = plan := by
  have hrepeated : before.any (·.baseRelations.contains relation) = true ↔
      ¬ ∀ p ∈ before, relation ∉ p.baseRelations := by
    cases before <;> simp
  rw [extend]
  split
  · next h => simp only [reduceCtorEq, hrepeated.mp h, false_and]
  · next h =>
    rw [hrepeated, not_not] at h
    rw [and_iff_right h]
    simp only [bind_eq_ok, SourceError.ofPlan_eq_ok, Catalogue.lookup_eq_ok]
    cases before <;> simp only [pure_eq_ok, Option.elim]

theorem extend_select {column : String} {value equals : Option String} :
    (select column value equals).extend c number before = .ok plan ↔
      ∃ p condition, before = some p ∧ condition? column value equals = some condition ∧
        .select p condition = plan := by
  cases before with
  | none => cases value <;> cases equals <;> simp [extend]
  | some p => cases value <;> cases equals <;> simp [extend, condition?]

theorem extend_project {columns : List String} :
    (project columns).extend c number before = .ok plan ↔
      ∃ p, before = some p ∧ columns ≠ [] ∧ .project p (columns.map .named) = plan := by
  cases before <;> cases columns <;> simp [extend]

theorem extend_canonical {step : Step} (hb : ∀ p ∈ before, p.Canonical c)
    (h : step.extend c number before = .ok plan) : plan.Canonical c := by
  cases step with
  | scan relation =>
    obtain ⟨hr, s, hs, rfl⟩ := extend_scan.mp h
    have hsn := Catalogue.name_of_find? hs
    cases before with
    | none => exact .scan (hsn ▸ hs)
    | some p => exact .product (hb p rfl) (hsn ▸ hs) (hsn ▸ hr p rfl)
  | select column value equals =>
    obtain ⟨p, condition, rfl, -, rfl⟩ := extend_select.mp h
    exact .select condition (hb p rfl)
  | project columns =>
    obtain ⟨p, rfl, hne, rfl⟩ := extend_project.mp h
    exact .project (fun hnil => hne (List.map_eq_nil_iff.mp hnil)) (hb p rfl)

end Step

theorem extendAll_canonical {number : Nat} {steps : List Step} {before : Option Plan}
    (hb : ∀ p ∈ before, p.Canonical c) (h : extendAll c number steps before = .ok (some plan)) :
    plan.Canonical c := by
  induction steps generalizing number before with
  | nil =>
    cases h
    exact hb plan rfl
  | cons step rest ih =>
    obtain ⟨next, hn, h⟩ := bind_eq_ok.mp h
    refine ih (fun p hp => ?_) h
    cases hp
    exact Step.extend_canonical hb hn

theorem Plan.ofSteps_canonical {steps : List QueryPlan.Step} (h : ofSteps c steps = .ok plan) :
    plan.Canonical c := by
  obtain ⟨result, hr, h⟩ := bind_eq_ok.mp h
  cases result with
  | none => cases h
  | some p =>
    cases pure_eq_ok.mp h
    exact extendAll_canonical (fun p hp => by cases hp) hr

theorem Plan.Built.canonical (h : plan.Built c) : plan.Canonical c := by
  cases h with
  | query h => exact (Query.plan_grown h).canonical
  | steps h => exact ofSteps_canonical h

theorem Plan.built_of_queryText {text : String} (h : ofQueryText c text = .ok plan) :
    plan.Built c := by
  obtain ⟨q, -, h⟩ := bind_eq_ok.mp h
  exact .query h

theorem Plan.built_of_describedText {text : String} {given : Option Catalogue} {d : Described}
    (h : Described.ofText given text = .ok d) (hc : d.catalogue.or given = some c) :
    d.plan.Built c := by
  obtain ⟨description, -, h⟩ := bind_eq_ok.mp h
  obtain ⟨own, hown, h⟩ := bind_eq_ok.mp h
  split at h
  · cases h
  · next found hf =>
    obtain ⟨p, hp, h⟩ := bind_eq_ok.mp h
    cases pure_eq_ok.mp h
    obtain rfl := Option.some.inj (hf.symm.trans hc)
    exact .steps hp

/-- Selections read attributes that a scanned relation declares, and projections list attributes
that a relation scanned below them declares. -/
structure Plan.Resolved (c : Catalogue) (plan : Plan) : Prop where
  selections : ∀ p ∈ plan.selections, ∀ a ∈ p.attributes, c.Declares plan.baseRelations a.name
  projections : ∀ i as out, .project i as out ∈ plan.subplans →
    ∀ a ∈ as, c.Declares i.baseRelations a.name

theorem Plan.resolved_iff : plan.Resolved c ↔ ∀ n, ¬ plan.Stray c n := by
  constructor
  · rintro ⟨hs, hp⟩ n (⟨hm, hd⟩ | ⟨i, as, out, hm, hn, hd⟩)
    · obtain ⟨p, hp, a, ha, rfl⟩ := Predicate.mem_reads.mp hm
      exact hd (hs p hp a ha)
    · obtain ⟨a, ha, rfl⟩ := List.mem_map.mp hn
      exact hd (hp i as out hm a ha)
  · intro h
    refine ⟨fun p hp a ha => ?_, fun i as out hm a ha => ?_⟩
    · by_contra hd
      exact h a.name (.inl ⟨Predicate.mem_reads.mpr ⟨p, hp, a, ha, rfl⟩, hd⟩)
    · by_contra hd
      exact h a.name (.inr ⟨i, as, out, hm, List.mem_map_of_mem ha, hd⟩)

namespace Optimiser
variable {o : Optimiser}

theorem optimise_iff_resolved (h : plan.Orderly o.catalogue) :
    (∃ result, o.optimise plan = .ok result) ↔ plan.Resolved o.catalogue := by
  rw [Plan.resolved_iff]
  constructor
  · rintro ⟨result, hr⟩
    exact not_stray_of_optimise h hr
  · exact optimise_orderly h

/-- A plan from a front end is accepted exactly when it is resolved, and otherwise rejected for an
attribute that is not; the plan of a query is always accepted. -/
theorem optimise_built (h : plan.Built o.catalogue) :
    ((∃ result, o.optimise plan = .ok result) ↔ plan.Resolved o.catalogue) ∧
      (∀ e, o.optimise plan = .error e →
        ∃ n, e = .unresolvedAttribute n ∧ plan.Stray o.catalogue n) ∧
      ((∃ q : Query, q.plan o.catalogue = .ok plan) → ∃ result, o.optimise plan = .ok result) := by
  have hi := h.canonical.orderly
  refine ⟨optimise_iff_resolved hi, fun e he => optimise_eq_error hi he, ?_⟩
  rintro ⟨q, hq⟩
  exact optimise_orderly hi (Query.plan_grown hq).not_stray

theorem optimise_built_sample :
    (∃ result, (⟨.sample, true⟩ : Optimiser).optimise .sample = .ok result) ∧
      ∃ plan n, Plan.ofSteps .sample [.scan "Employee", .select "PNO" (some "3") none,
          .scan "Works_On", .project ["LNAME", "PNAME"]] = .ok plan ∧
        (⟨.sample, true⟩ : Optimiser).optimise plan = .error (.unresolvedAttribute n) ∧
        plan.Stray .sample n := by
  have hq : (⟨some ["LNAME"], ["Employee", "Works_On"],
      [.join (.named "SSN") (.named "ESSN"), .value (.named "PNO") "3"]⟩ : Query).plan .sample =
        .ok .sample := rfl
  obtain ⟨plan, hp, he⟩ : ∃ plan, Plan.ofSteps .sample [.scan "Employee",
      .select "PNO" (some "3") none, .scan "Works_On", .project ["LNAME", "PNAME"]] = .ok plan ∧
        (⟨.sample, true⟩ : Optimiser).optimise plan = .error (.unresolvedAttribute "PNAME") :=
    ⟨_, rfl, rfl⟩
  obtain ⟨n, hn, hs⟩ := (optimise_built (.steps hp)).2.1 _ he
  exact ⟨(optimise_built (.query hq)).2.2 ⟨_, hq⟩, plan, n, hp, hn ▸ he, hs⟩

end Optimiser
end QueryPlan
