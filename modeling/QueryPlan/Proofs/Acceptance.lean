import QueryPlan.Proofs.Progress

/-! Which orderly plans the optimiser accepts: those in which every selection reads attributes that
some scanned relation declares and every projection lists attributes that a relation scanned below
it declares. Any other plan is rejected for an attribute of the other kind. -/

namespace QueryPlan

/-- A selection of the plan reads an attribute that no scanned relation declares, or a projection
lists one that no relation scanned below it declares. -/
def Plan.Stray (c : Catalogue) (plan : Plan) (n : String) : Prop :=
  n ∈ Predicate.reads plan.selections ∧ ¬ c.Declares plan.baseRelations n ∨ plan.Overreaches c n

namespace Plan
variable {c : Catalogue} {n : String} {input left right : Plan} {p : Predicate}
  {listed : List Attribute} {s : NamedRelation} {out : Option Relation}

theorem not_stray_scan : ¬ (Plan.scan s out).Stray c n := by
  rintro (⟨hm, -⟩ | ⟨i, as, o, hm, -⟩)
  · exact List.not_mem_nil hm
  · simp at hm

theorem stray_select : (Plan.select input p out).Stray c n ↔
    n ∈ p.attributes.map (·.name) ∧ ¬ c.Declares input.baseRelations n ∨ input.Stray c n := by
  have ho : (Plan.select input p out).Overreaches c n ↔ input.Overreaches c n := by
    simp [Overreaches]
  rw [Stray, ho, Stray, selections, Predicate.reads_cons, List.mem_append, baseRelations,
    or_and_right, or_assoc]

theorem stray_project : (Plan.project input listed out).Stray c n ↔
    n ∈ listed.map (·.name) ∧ ¬ c.Declares input.baseRelations n ∨ input.Stray c n := by
  have ho : (Plan.project input listed out).Overreaches c n ↔
      n ∈ listed.map (·.name) ∧ ¬ c.Declares input.baseRelations n ∨ input.Overreaches c n := by
    constructor
    · rintro ⟨i, as, o, hm, hn⟩
      rw [subplans, List.mem_cons] at hm
      rcases hm with hm | hm
      · cases hm
        exact .inl hn
      · exact .inr ⟨i, as, o, hm, hn⟩
    · rintro (hn | ho)
      · exact ⟨input, listed, out, List.mem_cons_self, hn⟩
      · exact ho.mono (List.subset_cons_self _ _)
  rw [Stray, ho, Stray, selections, baseRelations]
  exact or_left_comm

theorem stray_of_product (h : (Plan.product left right out).Stray c n) :
    left.Stray c n ∨ right.Stray c n := by
  rcases h with ⟨hm, hd⟩ | ⟨i, as, o, hm, hn⟩
  · rw [selections, Predicate.reads_append, List.mem_append] at hm
    rw [baseRelations, Catalogue.declares_append, not_or] at hd
    exact hm.imp (fun h => .inl ⟨h, hd.1⟩) fun h => .inl ⟨h, hd.2⟩
  · rw [subplans, List.mem_cons, List.mem_append] at hm
    rcases hm.resolve_left (by simp) with hm | hm
    · exact .inl (.inr ⟨i, as, o, hm, hn⟩)
    · exact .inr (.inr ⟨i, as, o, hm, hn⟩)

end Plan

namespace Optimiser
open Outcome

variable {o : Optimiser} {pass pass' : Pass} {plan result : Plan} {opened : List Attribute}
  {e : PlanError}

theorem Rewrites.not_overreaches {input : Plan} {v : Visited} (h : o.Rewrites input pass v pass')
    (hi : input.Orderly o.catalogue) (ha : pass.Accounted opened) (n : String) :
    ¬ input.Overreaches o.catalogue n := by
  induction h generalizing opened with
  | scan =>
    rintro ⟨i, as, out, hm, -⟩
    simp at hm
  | select _ ih =>
    rintro ⟨i, as, out, hm, hn⟩
    rw [Plan.subplans, List.mem_cons] at hm
    exact ih hi (ha.defer _) ⟨i, as, out, hm.resolve_left (by simp), hn⟩
  | project hl hin hs hk _ ih =>
    rintro ⟨i, as, out, hm, hn, hd⟩
    rw [Plan.subplans, List.mem_cons] at hm
    rcases hm with hm | hm
    · cases hm
      obtain ⟨schema, hf⟩ := fits_ofPlan.mp (hin.sound hi.2 (ha.acquireListed hl)).fits
      obtain rfl := Option.some.inj (hs.symm.trans hf.output)
      obtain ⟨a, ha, rfl⟩ := List.mem_map.mp hn
      have hdeclared := hf.declared _ ((kept_eq_ok hk).1 a ha)
      exact hd ((Catalogue.declares_perm hin.baseRelations_perm).mp hdeclared)
    · exact ih hi.2 (ha.acquireListed hl) ⟨i, as, out, hm, hn, hd⟩
  | product hl _ ihl ihr =>
    rintro ⟨i, as, out, hm, hn⟩
    rw [Plan.subplans, List.mem_cons, List.mem_append] at hm
    rcases hm.resolve_left (by simp) with hm | hm
    · exact ihl hi.1 ha ⟨i, as, out, hm, hn⟩
    · exact ihr hi.2.1 (hl.sound hi.1 ha).accounted ⟨i, as, out, hm, hn⟩
  | settle _ _ _ ih => exact ih hi ha

theorem Rewrites.exists_undeclared {input : Plan} (h : o.Rewrites input pass (.whole plan) pass')
    (hi : input.Orderly o.catalogue) (ha : pass.Accounted opened) {p : Predicate}
    (hp : p ∈ pass'.pending) :
    ∃ a ∈ p.attributes, ¬ o.catalogue.Declares input.baseRelations a.name := by
  rcases List.mem_append.mp hp with hp | hp
  · exact ⟨p.left, p.left_mem_attributes, h.values_drained hi ha p hp⟩
  · cases p with
    | value l v => cases (h.accounted ha).isValue_of_mem_joins _ hp
    | join l r =>
      have hd := h.drained rfl l r hp
      rw [Catalogue.declares_perm h.baseRelations_perm,
        Catalogue.declares_perm h.baseRelations_perm, not_and_or] at hd
      rcases hd with hd | hd
      · exact ⟨l, List.mem_cons_self, hd⟩
      · exact ⟨r, List.mem_cons_of_mem _ List.mem_cons_self, hd⟩

theorem declares_iff_any {relations : List String} {a : Attribute} :
    (relations.any fun r => o.declares r a) = true ↔ o.catalogue.Declares relations a.name := by
  simp only [List.any_eq_true, declares_iff, Catalogue.Declares]

theorem unplaced?_eq_some {a : Attribute} (hu : o.unplaced? pass plan = some a)
    (hv : ∀ p ∈ pass.values, ¬ o.catalogue.Declares plan.baseRelations p.left.name)
    (hj : o.Drained plan.baseRelations pass) (ha : pass.Accounted opened) :
    a.name ∈ Predicate.reads pass.pending ∧ ¬ o.catalogue.Declares plan.baseRelations a.name := by
  unfold unplaced? at hu
  split at hu
  · next p _ hvs =>
    cases hu
    have hp : p ∈ pass.values := hvs ▸ List.mem_cons_self
    exact ⟨Predicate.mem_reads.mpr
      ⟨p, List.mem_append_left _ hp, _, p.left_mem_attributes, rfl⟩, hv p hp⟩
  · next p _ _ hjs =>
    have hp : p ∈ pass.joins := hjs ▸ List.mem_cons_self
    cases hfind : p.attributes.find? fun a => !plan.baseRelations.any fun r => o.declares r a with
    | none =>
      -- then every side is declared, and such an equality would have been placed
      have hall : ∀ a ∈ p.attributes, o.catalogue.Declares plan.baseRelations a.name := by
        intro a ha
        have hnone := List.find?_eq_none.mp hfind a ha
        exact declares_iff_any.mp (by simpa using hnone)
      cases p with
      | value l v => exact absurd (ha.isValue_of_mem_joins _ hp) (by simp [Predicate.isValue])
      | join l r =>
        exact absurd ⟨hall l List.mem_cons_self, hall r (List.mem_cons_of_mem _ List.mem_cons_self)⟩
          (hj l r hp)
    | some b =>
      rw [hfind] at hu
      obtain rfl : b = a := Option.some.inj hu
      refine ⟨Predicate.mem_reads.mpr
        ⟨p, List.mem_append_right _ hp, b, List.mem_of_find?_eq_some hfind, rfl⟩, fun hd => ?_⟩
      have hb := List.find?_some hfind
      rw [declares_iff_any.mpr hd] at hb
      cases hb
  · cases hu

theorem optimise_eq_error (hi : plan.Orderly o.catalogue) (h : o.optimise plan = .error e) :
    ∃ n, e = .unresolvedAttribute n ∧ plan.Stray o.catalogue n := by
  rcases bind_eq_error.mp h with h | ⟨⟨result, pass⟩, hv, h⟩
  · rcases bind_eq_error.mp h with h | ⟨⟨v, mid⟩, hw, h⟩
    · obtain ⟨n, he, hn⟩ := walk_eq_error hi Pass.accounted_initial h
      exact ⟨n, he, .inr hn⟩
    · exact absurd h (settle_ne_error (walk_rewrites hw) hi Pass.accounted_initial)
  · have hr := visit_rewrites hv
    have hd : ∀ n, o.catalogue.Declares result.baseRelations n ↔
        o.catalogue.Declares plan.baseRelations n := fun _ =>
      Catalogue.declares_perm hr.baseRelations_perm
    dsimp only at h
    split at h
    · next a hu =>
      cases h
      have hs := hr.sound hi Pass.accounted_initial
      obtain ⟨hreads, hnot⟩ := unplaced?_eq_some hu
        (fun p hp => mt (hd _).mp (hr.values_drained hi Pass.accounted_initial p hp))
        (hr.drained rfl) hs.accounted
      refine ⟨a.name, rfl, .inl ⟨?_, mt (hd _).mpr hnot⟩⟩
      rcases hr.reads_pending hreads with hm | hm
      · exact hm
      · simp [Pass.initial, Pass.pending] at hm
    · cases h

theorem not_stray_of_optimise (hi : plan.Orderly o.catalogue) (h : o.optimise plan = .ok result)
    (n : String) : ¬ plan.Stray o.catalogue n := by
  obtain ⟨pass, hr, hp⟩ := optimise_rewrites h
  rintro (⟨hm, hd⟩ | ho)
  · obtain ⟨schema, hf⟩ := fits_ofPlan.mp (hr.sound hi Pass.accounted_initial).fits
    have hmatch := hr.matches
    rw [Visited.fragments, applied_ofPlan, hp, List.append_nil] at hmatch
    have hread : n ∈ Predicate.reads result.conditions := by
      rw [← hmatch.mem_reads, Predicate.reads_append]
      exact List.mem_append_left _ hm
    exact hd ((Catalogue.declares_perm hr.baseRelations_perm).mp (hf.reads_declared n hread))
  · exact hr.not_overreaches hi Pass.accounted_initial n ho

theorem optimise_orderly (h : plan.Orderly o.catalogue) (hs : ∀ n, ¬ plan.Stray o.catalogue n) :
    ∃ result, o.optimise plan = .ok result := by
  cases ho : o.optimise plan with
  | ok result => exact ⟨result, rfl⟩
  | error e =>
    obtain ⟨n, -, hn⟩ := optimise_eq_error h ho
    exact absurd hn (hs n)

end Optimiser
end QueryPlan
