import QueryPlan.Proofs.Evaluation
import QueryPlan.Proofs.FrontEnds
import QueryPlan.Proofs.Twins

/-! Names at the root. What comes out of a visited subtree are its columns, less those that
narrowing drops because nothing asks for them, and besides them only names that something above
asks for. At the root nothing is asked for and nothing is dropped, so an optimised plan has the
columns of the given one. -/

namespace QueryPlan
open Outcome

theorem Plan.Canonical.scoped_of_estimated {c : Catalogue} {plan estimate : Plan}
    (h : plan.Canonical c) (he : plan.estimated = .ok estimate) :
    plan.Scoped c ∧ ∃ r, estimate.output? = some r ∧ ∀ n, n ∈ r.names ↔ n ∈ plan.columns :=
  scoped_of_estimateTree h.registered h.project_nil_not_mem h.kind_ne_join (estimated_eq_ok.mp he)

namespace Optimiser
variable {o : Optimiser} {pass pass' : Pass} {input inner plan : Plan} {v : Visited}
  {opened listed keep : List Attribute} {schema : Relation} {fs gs : List Fragment} {n : String}

def outgoing (fs : List Fragment) : List String := fs.flatMap (·.plan.names)

theorem outgoing_ofPlan (plan : Plan) : outgoing [.ofPlan plan] = plan.names := by
  simp [outgoing, Fragment.ofPlan]

theorem Step.watches {a b : Cluster} (h : o.Step a b) (hw : b.pass.Watches n) :
    a.pass.Watches n := by
  cases h with
  | value => exact fun hn => Pass.contains_of_release (hw hn)
  | equality => exact fun hn => Pass.contains_of_release (hw hn)
  | narrow => exact hw
  | join => exact fun hn => Pass.contains_of_release (hw hn)
  | product => exact hw

theorem Step.mem_outgoing {a b : Cluster} (h : o.Step a b) :
    (n ∈ outgoing b.fragments → n ∈ outgoing a.fragments) ∧
      (b.pass.Watches n → n ∈ outgoing a.fragments → n ∈ outgoing b.fragments) := by
  cases h with
  | value _ he =>
    simp only [outgoing, List.flatMap_append, List.flatMap_cons, Plan.names_of_select he]
    exact ⟨id, fun _ => id⟩
  | equality _ he =>
    simp only [outgoing, List.flatMap_append, List.flatMap_cons, Plan.names_of_select he]
    exact ⟨id, fun _ => id⟩
  | @narrow pass before after f plan schema keep hn hs hk _ he =>
    have hmem : n ∈ plan.names ↔ n ∈ f.plan.names ∧ pass.required.contains n = true := by
      rw [Plan.mem_names_of_project he, hk, Plan.names_eq hs]
      exact Relation.mem_names_filter
    simp only [outgoing, List.flatMap_append, List.flatMap_cons, List.mem_append, hmem]
    refine ⟨fun h => h.imp_right (Or.imp_left And.left), fun hw h => ?_⟩
    exact h.imp_right (Or.imp_left fun hf => ⟨hf, hw (Bool.and_eq_true_iff.mp hn).2⟩)
  | @join _ _ _ _ _ before between after f g joined _ _ he =>
    have hnames : (⟨f.relations ++ g.relations, joined⟩ : Fragment).plan.names =
        f.plan.names ++ g.plan.names := Plan.names_of_join he
    have hperm := flatMap_joined_perm (fun i => i.plan.names) hnames before between after
    exact ⟨fun hn => hperm.mem_iff.mp hn, fun _ hn => hperm.mem_iff.mpr hn⟩
  | product he =>
    simp only [outgoing, List.flatMap_cons, Plan.names_of_product he, List.append_assoc]
    exact ⟨id, fun _ => id⟩

theorem Steps.outgoing_subset {a b : Cluster} (h : o.Steps a b) :
    outgoing b.fragments ⊆ outgoing a.fragments := by
  induction h with
  | refl => exact List.Subset.refl _
  | tail _ hs ih => exact fun n hn => ih (hs.mem_outgoing.1 hn)

theorem Steps.mem_outgoing {a b : Cluster} (h : o.Steps a b) (hw : b.pass.Watches n)
    (hn : n ∈ outgoing a.fragments) : n ∈ outgoing b.fragments := by
  -- what is watched in the end was watched before every step
  induction h with
  | refl => exact hn
  | tail _ hs ih => exact hs.mem_outgoing.2 hw (ih (hs.watches hw))

theorem Steps.watches {a b : Cluster} (h : o.Steps a b) (hw : b.pass.Watches n) :
    a.pass.Watches n := by
  induction h with
  | refl => exact hw
  | tail _ hs ih => exact ih (hs.watches hw)

/-- What still waits after a visit waited before it or reads columns of the visited subtree. -/
theorem Rewrites.reads_visible (h : o.Rewrites input pass v pass') (hi : input.Scoped o.catalogue)
    (ho : input.Orderly o.catalogue) (ha : pass.Accounted opened)
    (hn : n ∈ Predicate.reads pass'.pending) :
    n ∈ Predicate.reads pass.pending ∨ n ∈ input.columns := by
  have hmono : ∀ {a b : Cluster}, o.Steps a b → n ∈ Predicate.reads b.pass.pending →
      n ∈ Predicate.reads a.pass.pending := by
    intro a b hs hn
    obtain ⟨p, hp, hread⟩ := Predicate.mem_reads.mp hn
    exact Predicate.mem_reads.mpr ⟨p, hs.pending_subset hp, hread⟩
  induction h generalizing opened with
  | scan _ _ hs => exact .inl (hmono hs hn)
  | @select input _ p _ pass _ _ ih =>
    obtain ⟨hi, hp⟩ := hi
    rcases ih hi ho (ha.defer p) hn with hn | hn
    · rw [(Predicate.reads_perm (Pass.pending_defer pass p)).mem_iff, Predicate.reads_cons,
        List.mem_append] at hn
      refine hn.symm.imp_right fun hn => ?_
      obtain ⟨a, ha, rfl⟩ := List.mem_map.mp hn
      exact hp a ha
    · exact .inr hn
  | project hl hin _ _ _ =>
    exact .inl (hin.reads_kept hi.2.1 ho.2 (ha.acquireListed hl) hn)
  | product hl _ ihl ihr =>
    rcases ihr hi.2 ho.2.1 (hl.accounted ha) hn with hn | hn
    · exact (ihl hi.1 ho.1 ha hn).imp_right (List.mem_append_left _)
    · exact .inr (List.mem_append_right _ hn)
  | settle _ hs _ ih => exact ih hi ho ha (hmono hs hn)

theorem mem_names_cut (hs : inner.output? = some schema) (hk : kept pass schema listed = .ok keep)
    (he : keep.length < schema.arity ∧ (Plan.project inner keep).estimateRoot = .ok plan ∨
      schema.arity ≤ keep.length ∧ plan = inner) :
    n ∈ plan.names ↔ n ∈ keep.map (·.name) := by
  rcases he with ⟨-, he⟩ | ⟨hl, rfl⟩
  · exact Plan.mem_names_of_project he
  · rw [Plan.names_eq hs]
    refine ⟨kept_all hk hl, fun hn => ?_⟩
    obtain ⟨a, ha, rfl⟩ := List.mem_map.mp hn
    exact kept_subset hk a ha

/-- Only columns come out of a visited subtree, and names that something above it asks for. -/
theorem Rewrites.visible_of_outgoing (h : o.Rewrites input pass v pass')
    (hi : input.Scoped o.catalogue) (ho : input.Orderly o.catalogue) (ha : pass.Accounted opened)
    (hn : n ∈ outgoing v.fragments) :
    n ∈ input.columns ∨ n ∈ Predicate.reads pass.pending ∨ n ∈ opened.map (·.name) := by
  induction h generalizing opened with
  | @scan s r _ _ _ _ _ hr he hs =>
    cases he
    obtain rfl : s = r := Option.some.inj (hi.symm.trans hr)
    rw [Visited.fragments] at hn
    have hbase := hs.outgoing_subset hn
    rw [outgoing_ofPlan] at hbase
    exact .inl hbase
  | @select input _ p _ pass _ _ ih =>
    obtain ⟨hi, hp⟩ := hi
    rcases ih hi ho (ha.defer p) hn with hn | hn | hn
    · exact .inl hn
    · rw [(Predicate.reads_perm (Pass.pending_defer pass p)).mem_iff, Predicate.reads_cons,
        List.mem_append] at hn
      refine hn.imp (fun hn => ?_) .inl
      obtain ⟨a, ha, rfl⟩ := List.mem_map.mp hn
      exact hp a ha
    · exact .inr (.inr hn)
  | @project input inner plan listed keep out pass below schema hl hin hs hk he _ =>
    have hacquired := ha.acquireListed hl
    rw [Visited.fragments, outgoing_ofPlan, mem_names_cut hs hk he, (kept_eq_ok hk).2.2] at hn
    rcases hn with hn | ⟨-, hn⟩
    · exact .inl hn
    -- a count that is still positive is held by a waiting predicate or an open projection
    · rcases (hin.accounted hacquired).contains_iff.mp hn with hn | hn
      · exact .inr (.inl (hin.reads_kept hi.2.1 ho.2 hacquired hn))
      · rw [List.map_append, List.mem_append] at hn
        exact hn.symm.imp_right .inr
  | product hl _ ihl ihr =>
    rw [Visited.fragments, outgoing, List.flatMap_append, List.mem_append] at hn
    rcases hn with hn | hn
    · exact (ihl hi.1 ho.1 ha hn).imp_left (List.mem_append_left _)
    · rcases ihr hi.2 ho.2.1 (hl.accounted ha) hn with hn | hn | hn
      · exact .inl (List.mem_append_right _ hn)
      · rcases hl.reads_visible hi.1 ho.1 ha hn with hn | hn
        · exact .inr (.inl hn)
        · exact .inl (List.mem_append_left _ hn)
      · exact .inr (.inr hn)
  | settle _ hs _ ih => exact ih hi ho ha (hs.outgoing_subset hn)

theorem Rewrites.outgoing_of_column (h : o.Rewrites input pass v pass')
    (hi : input.Scoped o.catalogue) (ho : input.Orderly o.catalogue) (ha : pass.Accounted opened)
    (hw : pass'.Watches n) (hn : n ∈ input.columns) : n ∈ outgoing v.fragments := by
  induction h generalizing opened with
  | @scan s r _ _ _ _ _ hr he hs =>
    cases he
    obtain rfl : s = r := Option.some.inj (hi.symm.trans hr)
    refine hs.mem_outgoing hw ?_
    rw [outgoing_ofPlan]
    exact hn
  | select _ ih => exact ih hi.1 ho (ha.defer _) hw hn
  | project _ _ hs hk he _ =>
    rw [Visited.fragments, outgoing_ofPlan, mem_names_cut hs hk he, (kept_eq_ok hk).2.2]
    exact .inl hn
  | @product left right out pass mid pass' v w hl hr ihl ihr =>
    have hmid := hl.accounted ha
    rw [Visited.fragments, outgoing, List.flatMap_append, List.mem_append]
    rcases List.mem_append.mp hn with hn | hn
    · refine .inl (ihl hi.1 ho.1 ha (fun hon => ?_) hn)
      have hrequired := hw ((hr.accounted hmid).narrowing_iff.mpr (hmid.narrowing_iff.mp hon))
      have hd := hi.1.declares_of_mem_columns hn
      exact hl.required_left hr ho ha ((Catalogue.declares_perm hl.covered_perm).mpr hd) hrequired
    · exact .inr (ihr hi.2 ho.2.1 hmid hw hn)
  | settle _ hs _ ih => exact hs.mem_outgoing hw (ih hi ho ha (hs.watches hw) hn)

/-- An optimised plan has a stored estimate at its root, and it names exactly the attributes that
the estimate of the given plan names. -/
theorem optimise_columns {estimate result : Plan} (h : plan.Built o.catalogue)
    (he : plan.estimated = .ok estimate) (ho : o.optimise plan = .ok result) :
    ∃ r s, estimate.output? = some r ∧ result.output? = some s ∧ ∀ n, n ∈ s.names ↔ n ∈ r.names := by
  obtain ⟨hscoped, r, hr, hcolumns⟩ := h.canonical.scoped_of_estimated he
  obtain ⟨pass, hrewrites, -⟩ := optimise_rewrites ho
  have horderly := h.canonical.orderly
  have hsound := hrewrites.sound horderly Pass.accounted_initial
  obtain ⟨s, hs⟩ := fits_ofPlan.mp hsound.fits
  have hout : result.output? = some s := hs.output
  have hnames : s.names = outgoing [.ofPlan result] := by
    rw [outgoing_ofPlan, Plan.names_eq hout]
  refine ⟨r, s, hr, hout, fun n => ?_⟩
  rw [hcolumns, hnames]
  constructor
  · intro hn
    rcases hrewrites.visible_of_outgoing hscoped horderly Pass.accounted_initial hn with hn | hn | hn
    · exact hn
    · simp [Pass.initial, Pass.pending] at hn
    · simp at hn
  -- at the root no projection is open, so everything is watched
  · have hclosed : ¬ pass.narrowing = true := fun hon => hsound.accounted.narrowing_iff.mp hon rfl
    exact hrewrites.outgoing_of_column hscoped horderly Pass.accounted_initial
      fun hon => absurd hon hclosed

theorem optimise_columns_sample : ∃ estimate result r s,
    Plan.sample.estimated = .ok estimate ∧
      (⟨.sample, true⟩ : Optimiser).optimise .sample = .ok result ∧
      estimate.output? = some r ∧ result.output? = some s ∧
      s.names = ["LNAME"] ∧ ∀ n, n ∈ s.names ↔ n ∈ r.names := by
  have hq : (⟨some ["LNAME"], ["Employee", "Works_On"],
      [.join (.named "SSN") (.named "ESSN"), .value (.named "PNO") "3"]⟩ : Query).plan .sample =
        .ok .sample := rfl
  obtain ⟨estimate, he⟩ : ∃ estimate, Plan.sample.estimated = .ok estimate := ⟨_, rfl⟩
  obtain ⟨result, ho, hl⟩ : ∃ result, (⟨.sample, true⟩ : Optimiser).optimise .sample = .ok result ∧
      result.names = ["LNAME"] := ⟨_, rfl, rfl⟩
  obtain ⟨r, s, hr, hs, hiff⟩ := optimise_columns (.query hq) he ho
  exact ⟨estimate, result, r, s, he, ho, hr, hs, (Plan.names_eq hs).symm.trans hl, hiff⟩

end Optimiser
end QueryPlan
