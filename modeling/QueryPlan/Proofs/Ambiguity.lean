import QueryPlan.Proofs.Columns
import QueryPlan.Proofs.Consistency
import QueryPlan.Proofs.Queries

/-! Names that stand twice in a schema. Only a product or a join can bring this about, by putting
operands together that have a name in common. Neither front end looks for it: a query over two
relations that share a name is accepted, and its lookups find the first of the two columns. Where
the scanned relations share no name, nothing of the kind happens, also after optimisation. -/

namespace QueryPlan

structure Catalogue.Covers (c : Catalogue) (relations names : List String) : Prop where
  nodup : names.Nodup
  declared : ∀ n ∈ names, c.Declares relations n

theorem Catalogue.Covers.append {c : Catalogue} {rs ts ns ms : List String} (hl : c.Covers rs ns)
    (hr : c.Covers ts ms) (hd : c.Separate (rs ++ ts)) : c.Covers (rs ++ ts) (ns ++ ms) := by
  constructor
  · rw [List.nodup_append]
    refine ⟨hl.nodup, hr.nodup, fun n hn m hm hnm => ?_⟩
    exact hd.not_declares (hl.declared n hn) (hnm ▸ hr.declared m hm)
  · intro n hn
    exact Catalogue.declares_append.mpr
      ((List.mem_append.mp hn).imp (hl.declared n) (hr.declared n))

namespace Plan
variable {c : Catalogue} {p q l r i : Plan} {out : Option Relation} {ss : List NamedRelation}
  {ps : List Predicate} {n : String}

def Unambiguous (p : Plan) : Prop :=
  ∀ node ∈ p.subplans, ∃ r, node.output? = some r ∧ r.names.Nodup

/-- No operands that are put together have a column in common. -/
def Apart : Plan → Prop
  | scan .. => True
  | select i _ _ => i.Apart
  | project i _ _ => i.Apart
  | product l r _ => l.Apart ∧ r.Apart ∧ ∀ n ∈ l.columns, n ∉ r.columns
  | join l r _ _ => l.Apart ∧ r.Apart ∧ ∀ n ∈ l.columns, n ∉ r.columns

theorem unambiguous_iff : p.Unambiguous ↔
    (∃ r, p.output? = some r ∧ r.names.Nodup) ∧ ∀ i ∈ p.children, i.Unambiguous :=
  forall_mem_subplans

theorem Unambiguous.names_nodup (h : p.Unambiguous) : p.names.Nodup := by
  obtain ⟨r, hr, hnodup⟩ := (unambiguous_iff.mp h).1
  rwa [names_eq hr]

theorem names_nodup_of_find? {s : NamedRelation} (h : c.find? n = some s) :
    s.relation.names.Nodup := c.attributes_nodup s (Catalogue.mem_of_find? h)

theorem nodup_append_iff_apart (hl : ∀ n, n ∈ l.names ↔ n ∈ p.columns)
    (hr : ∀ n, n ∈ r.names ↔ n ∈ q.columns) (hln : l.names.Nodup) (hrn : r.names.Nodup) :
    (l.names ++ r.names).Nodup ↔ ∀ n ∈ p.columns, n ∉ q.columns := by
  rw [List.nodup_append]
  constructor
  · rintro ⟨-, -, h⟩ n hn hm
    exact h n ((hl n).mpr hn) n ((hr n).mpr hm) rfl
  · refine fun h => ⟨hln, hrn, fun n hn m hm hnm => ?_⟩
    exact h n ((hl n).mp hn) ((hr n).mp (hnm ▸ hm))

theorem unambiguous_iff_apart (hp : p.Scoped c) (h : p.estimateTree = (q, none)) :
    q.Unambiguous ↔ p.Apart := by
  induction p generalizing q with
  | scan s o =>
    cases estimateTree_scan.symm.trans h
    rw [unambiguous_iff]
    simpa [children, Apart, output?] using names_nodup_of_find? hp
  | select i cond o ih =>
    obtain ⟨j, hj, h⟩ := estimateTree_select.mp h
    have hnames := names_of_select h
    obtain ⟨t, s, -, -, rfl⟩ := estimateRoot_select.mp h
    rw [unambiguous_iff, Apart, ← ih hp.1 hj]
    simp only [children, List.forall_mem_singleton, output?, Option.some.injEq, exists_eq_left']
    refine and_iff_right_of_imp fun hu => ?_
    rw [← names_eq (p := select j cond (some s)) rfl, hnames]
    exact hu.names_nodup
  | project i as o ih =>
    obtain ⟨j, hj, h⟩ := estimateTree_project.mp h
    obtain ⟨t, s, -, hs, rfl⟩ := estimateRoot_project.mp h
    rw [unambiguous_iff, Apart, ← ih hp.2.1 hj]
    simp only [children, List.forall_mem_singleton, output?, Option.some.injEq, exists_eq_left']
    exact and_iff_right (Estimate.names_nodup_of_project hs)
  | product l r o ihl ihr =>
    obtain ⟨j, k, hj, hk, h⟩ := estimateTree_product.mp h
    have hnames := names_of_product h
    obtain ⟨t, u, -, -, rfl⟩ := estimateRoot_product.mp h
    rw [unambiguous_iff, Apart, ← ihl hp.1 hj, ← ihr hp.2 hk]
    simp only [children, List.forall_mem_cons, output?, Option.some.injEq, exists_eq_left',
      List.not_mem_nil, false_implies, implies_true, and_true]
    rw [← names_eq (p := product j k (some (Estimate.product t u))) rfl, hnames]
    have happart := fun (hju : j.Unambiguous) (hku : k.Unambiguous) =>
      nodup_append_iff_apart (fun n => hp.1.mem_names hj) (fun n => hp.2.mem_names hk)
        hju.names_nodup hku.names_nodup
    constructor
    · rintro ⟨hnodup, hju, hku⟩
      exact ⟨hju, hku, (happart hju hku).mp hnodup⟩
    · rintro ⟨hju, hku, h⟩
      exact ⟨(happart hju hku).mpr h, hju, hku⟩
  | join l r cond o => exact hp.elim

theorem Scoped.apart (h : p.Scoped c) (hd : c.Separate p.baseRelations) : p.Apart := by
  induction p with
  | scan s o => trivial
  | select i cond o ih => exact ih h.1 hd
  | project i as o ih => exact ih h.2.1 hd
  | product l r o ihl ihr =>
    refine ⟨ihl h.1 hd.left, ihr h.2 hd.right, fun n hl hr => ?_⟩
    exact hd.not_declares (h.1.declares_of_mem_columns hl) (h.2.declares_of_mem_columns hr)
  | join l r cond o => exact h.elim

theorem apart_iff_of_crossing (h : p.Crossing) (hs : ∀ s ∈ p.scans, c.find? s.name = some s) :
    p.Apart ↔ c.Separate p.baseRelations := by
  refine ⟨fun ha => ?_, (scoped_of_crossing h hs).apart⟩
  induction p with
  | scan s o => exact List.pairwise_singleton _ _
  | product l r o ihl ihr =>
    have hls : ∀ s ∈ l.scans, c.find? s.name = some s := fun s hm => hs s (List.mem_append_left _ hm)
    have hrs : ∀ s ∈ r.scans, c.find? s.name = some s := fun s hm => hs s (List.mem_append_right _ hm)
    obtain ⟨hl, hr, happart⟩ := ha
    refine Catalogue.Separate.append_iff.mpr ⟨ihl h.1 hls hl, ihr h.2 hrs hr, fun n hln hrn => ?_⟩
    exact happart n ((mem_columns_of_crossing h.1 hls).mpr hln)
      ((mem_columns_of_crossing h.2 hrs).mpr hrn)
  | _ => exact h.elim

theorem apart_selected : (p.selected ps).Apart ↔ p.Apart := by
  induction ps generalizing p with
  | nil => rfl
  | cons cond ps ih => exact ih

theorem apart_of_query {q : Query} (h : q.plan c = .ok p) :
    p.Apart ↔ c.Separate p.baseRelations := by
  obtain ⟨core, hcore, -, hscans, hp⟩ := Query.exists_crossing h
  have hregistered : ∀ s ∈ core.scans, c.find? s.name = some s :=
    hscans ▸ (Query.plan_grown h).canonical.registered
  have happart : p.Apart ↔ core.Apart := by
    rw [← hp, ← @apart_selected core q.conditions, Query.projected]
    split <;> rfl
  rw [happart, apart_iff_of_crossing hcore hregistered, baseRelations_eq, baseRelations_eq, hscans]

namespace Consistent

theorem covers (h : p.Consistent) (hs : ∀ s ∈ p.scans, c.find? s.name = some s)
    (hd : c.Separate p.baseRelations) : c.Covers p.baseRelations p.names := by
  have hroot := h.estimateRoot_eq
  induction h with
  | scan s =>
    have hfound := hs s (List.mem_singleton.mpr rfl)
    exact ⟨names_nodup_of_find? hfound, fun n => (Catalogue.declares_singleton hfound).mpr⟩
  | select hi _ _ ih =>
    rw [names_of_select hroot]
    exact ih hs hd hi.estimateRoot_eq
  | @project i as t s hi ht hproj ih =>
    refine ⟨Estimate.names_nodup_of_project hproj, fun n hn => ?_⟩
    obtain ⟨a, ha, rfl⟩ := List.mem_map.mp ((mem_names_of_project hroot).mp hn)
    have hmem : a.name ∈ i.names := names_eq ht ▸ (Estimate.project_eq_ok hproj).2.1 a ha
    exact (ih hs hd hi.estimateRoot_eq).declared _ hmem
  | product hl hr _ _ ihl ihr =>
    rw [names_of_product hroot]
    exact (ihl (fun s hm => hs s (List.mem_append_left _ hm)) hd.left hl.estimateRoot_eq).append
      (ihr (fun s hm => hs s (List.mem_append_right _ hm)) hd.right hr.estimateRoot_eq) hd
  | join hl hr _ _ _ ihl ihr =>
    rw [names_of_join hroot]
    exact (ihl (fun s hm => hs s (List.mem_append_left _ hm)) hd.left hl.estimateRoot_eq).append
      (ihr (fun s hm => hs s (List.mem_append_right _ hm)) hd.right hr.estimateRoot_eq) hd

theorem covers_of_mem (h : p.Consistent) (hs : ∀ s ∈ p.scans, c.find? s.name = some s)
    (hd : c.Separate p.baseRelations) (hi : i ∈ p.subplans) : c.Covers i.baseRelations i.names := by
  have hscans := (scans_sublist hi).subset
  have hseparate : c.Separate i.baseRelations := hd.sublist (baseRelations_sublist hi)
  exact (h.of_mem hi).covers (fun s hm => hs s (hscans hm)) hseparate

theorem declares_of_select {cond : Predicate} {out : Option Relation} (h : p.Consistent)
    (hs : ∀ s ∈ p.scans, c.find? s.name = some s) (hd : c.Separate p.baseRelations)
    (hm : .select i cond out ∈ p.subplans) :
    ∀ a ∈ cond.attributes, c.Declares i.baseRelations a.name := by
  intro a ha
  have hi := mem_subplans_of_mem_children hm List.mem_cons_self
  cases h.of_mem hm with
  | select _ ht hsel =>
    have hread := Estimate.mem_names_of_select hsel a ha
    rw [← names_eq ht] at hread
    exact (h.covers_of_mem hs hd hi).declared _ hread

theorem declares_of_join {l r : Plan} {cond : Predicate} {out : Option Relation} (h : p.Consistent)
    (hs : ∀ s ∈ p.scans, c.find? s.name = some s) (hd : c.Separate p.baseRelations)
    (hm : .join l r cond out ∈ p.subplans) : ∃ a b, cond = .join a b ∧
      c.Declares l.baseRelations a.name ∧ c.Declares r.baseRelations b.name := by
  obtain ⟨hl, hr⟩ := operands_mem hm
  cases h.of_mem hm with
  | join _ _ ht hu hj =>
    obtain ⟨-, a, b, rfl, ha, hb⟩ := Estimate.join_eq_ok hj
    rw [← names_eq ht] at ha
    rw [← names_eq hu] at hb
    exact ⟨a, b, rfl, (h.covers_of_mem hs hd hl).declared _ ha,
      (h.covers_of_mem hs hd hr).declared _ hb⟩

theorem unambiguous (h : p.Consistent) (hs : ∀ s ∈ p.scans, c.find? s.name = some s)
    (hd : c.Separate p.baseRelations) : p.Unambiguous := by
  intro node hn
  obtain ⟨r, hr, -⟩ := (h.of_mem hn).output_eq
  exact ⟨r, hr, names_eq hr ▸ (h.covers_of_mem hs hd hn).nodup⟩

end Consistent
end Plan

namespace Optimiser
variable {o : Optimiser} {plan : Plan}

/-- The estimate of a front end's plan is unambiguous exactly when the plan multiplies no operands
with a common column; for a query that is to say that no two of its relations share a name. Where
they share none, the estimate and the optimised plan are both unambiguous. -/
theorem built_unambiguous (h : plan.Built o.catalogue) :
    (∀ estimate, plan.estimated = .ok estimate → (estimate.Unambiguous ↔ plan.Apart)) ∧
      ((∃ q : Query, q.plan o.catalogue = .ok plan) →
        (plan.Apart ↔ o.catalogue.Separate plan.baseRelations)) ∧
      (o.catalogue.Separate plan.baseRelations →
        (∀ estimate, plan.estimated = .ok estimate → estimate.Unambiguous) ∧
          ∀ result, o.optimise plan = .ok result → result.Unambiguous) := by
  have hscoped : ∀ {estimate}, plan.estimated = .ok estimate → plan.Scoped o.catalogue :=
    fun he => (h.canonical.scoped_of_estimated he).1
  have hiff : ∀ estimate, plan.estimated = .ok estimate → (estimate.Unambiguous ↔ plan.Apart) :=
    fun estimate he => Plan.unambiguous_iff_apart (hscoped he) (Plan.estimated_eq_ok.mp he)
  refine ⟨hiff, fun ⟨q, hq⟩ => Plan.apart_of_query hq, fun hd => ⟨fun estimate he => ?_, ?_⟩⟩
  · exact (hiff estimate he).mpr ((hscoped he).apart hd)
  · intro result ho
    obtain ⟨pass, hr, -⟩ := optimise_rewrites ho
    exact (consistent_of_optimise ho).unambiguous (registered_ofPlan.mp hr.registered)
      (hd.perm hr.baseRelations_perm.symm)

theorem built_unambiguous_sample : ∃ estimate result, Plan.sample.estimated = .ok estimate ∧
    (⟨.sample, true⟩ : Optimiser).optimise .sample = .ok result ∧ estimate.Unambiguous ∧
      result.Unambiguous ∧ Plan.sample.Apart := by
  have hq : (⟨some ["LNAME"], ["Employee", "Works_On"],
      [.join (.named "SSN") (.named "ESSN"), .value (.named "PNO") "3"]⟩ : Query).plan .sample =
        .ok .sample := rfl
  obtain ⟨estimate, he⟩ : ∃ estimate, Plan.sample.estimated = .ok estimate := ⟨_, rfl⟩
  obtain ⟨result, ho⟩ : ∃ result, (⟨.sample, true⟩ : Optimiser).optimise .sample = .ok result :=
    ⟨_, rfl⟩
  have hd : Catalogue.sample.Separate Plan.sample.baseRelations :=
    Plan.separate_of_scans (by decide) (by decide)
  have hbuilt : Plan.sample.Built (⟨.sample, true⟩ : Optimiser).catalogue := .query hq
  obtain ⟨-, hquery, hboth⟩ := built_unambiguous hbuilt
  exact ⟨estimate, result, he, ho, (hboth hd).1 estimate he, (hboth hd).2 result ho,
    (hquery ⟨_, hq⟩).mpr hd⟩

end Optimiser

def Catalogue.overlapping : Catalogue where
  relations := [⟨"R", ⟨1, [⟨"a", 1⟩]⟩⟩, ⟨"S", ⟨1, [⟨"a", 1⟩]⟩⟩]
  names_nodup := by decide
  attributes_nodup := by decide
  valueCount_ne_zero := by decide

/-- The query for all attributes of two relations that share a name gets a plan, whose estimate and
whose optimised form have the name twice at the root. -/
theorem Optimiser.built_ambiguous : ∃ plan estimate result,
    (⟨none, ["R", "S"], []⟩ : Query).plan .overlapping = .ok plan ∧
      plan.estimated = .ok estimate ∧
      (⟨.overlapping, true⟩ : Optimiser).optimise plan = .ok result ∧
      estimate.names = ["a", "a"] ∧ result.names = ["a", "a"] ∧
      ¬ estimate.Unambiguous ∧ ¬ result.Unambiguous := by
  obtain ⟨plan, estimate, result, hq, he, ho, hen, hrn⟩ : ∃ plan estimate result,
      (⟨none, ["R", "S"], []⟩ : Query).plan .overlapping = .ok plan ∧
        plan.estimated = .ok estimate ∧
        (⟨.overlapping, true⟩ : Optimiser).optimise plan = .ok result ∧
        estimate.names = ["a", "a"] ∧ result.names = ["a", "a"] :=
    ⟨_, _, _, rfl, rfl, rfl, rfl, rfl⟩
  have hrepeats : ∀ p : Plan, p.names = ["a", "a"] → ¬ p.Unambiguous := fun p hp h => by
    have := hp ▸ h.names_nodup
    simp at this
  exact ⟨plan, estimate, result, hq, he, ho, hen, hrn, hrepeats _ hen, hrepeats _ hrn⟩

end QueryPlan
