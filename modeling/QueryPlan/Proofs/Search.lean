import QueryPlan.Proofs.Moves

/-! The search as a derivation: a move takes steps of the rewriting system, a visit follows its rules,
and when a visit ends no predicate that it could have placed is still waiting. -/

namespace QueryPlan.Optimiser
open Outcome

variable {o : Optimiser} {pass pass' : Pass} {plan plan' : Plan} {fs gs : List Fragment}
  {xs ys passed rest : List Predicate} {p : Predicate} {schema : Relation}

theorem narrow_cases (h : o.narrow pass plan = .ok plan') : plan' = plan ∨ ∃ schema keep,
    (o.earlyProjection && pass.narrowing) = true ∧ plan.output? = some schema ∧
      keep = (schema.attributes.filter fun a => pass.required.contains a.name) ∧
      keep.length ≠ schema.arity ∧ (Plan.project plan keep).estimateRoot = .ok plan' := by
  unfold narrow at h
  split at h
  · next hn =>
    obtain ⟨schema, hs, h⟩ := bind_eq_ok.mp h
    dsimp only at h
    split at h
    · cases pure_eq_ok.mp h
      exact .inl rfl
    · next hl => exact .inr ⟨schema, _, hn, Plan.output_eq_ok.mp hs, rfl, hl, h⟩
  · cases h
    exact .inl rfl

theorem narrow_steps (before after : List Fragment) (relations : List String)
    (h : o.narrow pass plan = .ok plan') :
    o.Steps ⟨before ++ ⟨relations, plan⟩ :: after, pass⟩
      ⟨before ++ ⟨relations, plan'⟩ :: after, pass⟩ := by
  rcases narrow_cases h with rfl | ⟨schema, keep, hn, hs, hk, hl, he⟩
  · exact .refl
  · exact .single (.narrow hn hs hk hl he)

theorem Move.steps {a b : Cluster} (h : o.Move a b) : o.Steps a b := by
  cases h with
  | select hp he hn => exact .head (.equality hp he) (narrow_steps _ _ _ hn)
  | join hp hq he hn => exact .head (.join hp hq he) (narrow_steps _ _ _ hn)
  | product he => exact .single (.product he)

theorem Moves.steps {a b : Cluster} (h : o.Moves a b) : o.Steps a b :=
  h.invariant (P := o.Steps a) (fun _ _ hm hs => hs.trans hm.steps) .refl

theorem applySelection_steps (before after : List Fragment) (relations : List String)
    (hp : pass.joins = xs ++ p :: ys)
    (h : o.applySelection { pass with joins := xs ++ ys } plan p = .ok (plan', pass')) :
    o.Steps ⟨before ++ ⟨relations, plan⟩ :: after, pass⟩
        ⟨before ++ ⟨relations, plan'⟩ :: after, pass'⟩ ∧
      pass'.joins = xs ++ ys ∧ pass'.values = pass.values := by
  obtain ⟨hmove, hrest⟩ := applySelection_move before after relations hp h
  exact ⟨hmove.steps, hrest⟩

theorem baseRelations_of_narrow (h : o.narrow pass plan = .ok plan') :
    plan'.baseRelations = plan.baseRelations :=
  (Steps.faithful (narrow_steps [] [] plan.baseRelations h) (faithful_ofPlan plan) _
    (List.mem_singleton.mpr rfl)).symm

theorem baseRelations_of_applySelection (h : o.applySelection pass plan p = .ok (plan', pass')) :
    plan'.baseRelations = plan.baseRelations := by
  obtain ⟨selected, hs, h⟩ := bind_eq_ok.mp h
  obtain ⟨narrowed, hn, h⟩ := bind_eq_ok.mp h
  cases pure_eq_ok.mp h
  rw [baseRelations_of_narrow hn, baseRelations_of_estimateRoot hs, Plan.baseRelations]

theorem pass_of_applySelection (h : o.applySelection pass plan p = .ok (plan', pass')) :
    pass' = pass.release p.attributes := by
  obtain ⟨selected, -, h⟩ := bind_eq_ok.mp h
  obtain ⟨narrowed, -, h⟩ := bind_eq_ok.mp h
  cases pure_eq_ok.mp h
  rfl

theorem pushValues_steps (relations : List String) (hv : pass.values = passed ++ rest)
    (hp : ∀ p ∈ passed, p.left.name ∉ schema.names)
    (h : pushValues schema passed rest pass plan = .ok (plan', pass')) :
    o.Steps ⟨[⟨relations, plan⟩], pass⟩ ⟨[⟨relations, plan'⟩], pass'⟩ ∧
      ∀ p ∈ pass'.values, p.left.name ∉ schema.names := by
  induction rest generalizing passed pass plan with
  | nil =>
    rw [List.append_nil] at hv
    cases h
    rw [← hv] at hp ⊢
    exact ⟨.refl, hp⟩
  | cons q rest ih =>
    rw [pushValues] at h
    split at h
    · obtain ⟨selected, hs, h⟩ := bind_eq_ok.mp h
      obtain ⟨hsteps, hrest⟩ := ih rfl hp h
      have hstep : o.Step ⟨[] ++ [⟨relations, plan⟩], pass⟩ _ := .value hv hs
      exact ⟨.head hstep hsteps, hrest⟩
    · next hq =>
      refine ih (by rw [hv, List.append_assoc, List.singleton_append]) ?_ h
      rw [List.forall_mem_append]
      exact ⟨hp, by simpa [Relation.contains_eq_true] using hq⟩

theorem Moves.values_eq {a b : Cluster} (h : o.Moves a b) : b.pass.values = a.pass.values := by
  refine h.invariant (P := fun c => c.pass.values = a.pass.values) (fun b c hm hb => ?_) rfl
  cases hm <;> exact hb

theorem scan_steps {base valued equated : Plan} {mid : Pass} (relations : List String)
    (hv : pushValues schema [] pass.values pass base = .ok (valued, mid))
    (hm : o.Moves ⟨[⟨relations, valued⟩], mid⟩ ⟨[⟨relations, equated⟩], pass'⟩) :
    o.Steps ⟨[⟨relations, base⟩], pass⟩ ⟨[⟨relations, equated⟩], pass'⟩ ∧
      ∀ p ∈ pass'.values, p.left.name ∉ schema.names := by
  obtain ⟨hsteps, hdrained⟩ := pushValues_steps (o := o) relations (List.nil_append _).symm
    (by simp) hv
  exact ⟨hsteps.trans hm.steps, hm.values_eq ▸ hdrained⟩

theorem productAll_steps (hf : Faithful fs) (pass : Pass) (h : productAll fs = .ok plan) :
    o.Steps ⟨fs, pass⟩ ⟨[.ofPlan plan], pass⟩ := by
  obtain ⟨covers, hmoves⟩ := productAll_moves o pass h
  have hfaithful := Steps.faithful hmoves.steps hf
  exact eq_ofPlan_of_faithful hfaithful ▸ hmoves.steps

theorem Ownerless.drained {relations : List String} (h : o.Ownerless fs pass)
    (hperm : relations.Perm (covered fs)) : o.Drained relations pass := by
  intro l r hlr hd
  have hflat : (fs.map (·.relations)).flatten = covered fs := (List.flatMap_def ..).symm
  rcases h l r hlr with hnone | hnone <;> rw [owner?_eq_none_iff, hflat] at hnone
  · exact hnone ((Catalogue.declares_perm hperm).mp hd.1)
  · exact hnone ((Catalogue.declares_perm hperm).mp hd.2)

theorem Visits.rewrites {input : Plan} {v : Visited} (h : o.Visits input pass v pass') :
    o.Rewrites input pass v pass' := by
  induction h with
  | @scan s r out pass mid pass' base valued equated plan hr hb hv hm hd hn =>
    have hbase : base.baseRelations = [s.name] := by
      rw [baseRelations_of_estimateRoot hb, Plan.baseRelations, Catalogue.name_of_find? hr]
    rw [← hbase] at hm
    obtain ⟨hequated, hdrained⟩ := scan_steps base.baseRelations hv hm
    have hsteps := hequated.trans (narrow_steps [] [] base.baseRelations hn)
    have hf := Steps.faithful hsteps (faithful_ofPlan base)
    refine .scan hr hb (eq_ofPlan_of_faithful hf ▸ hsteps) hdrained ?_
    intro l t hlt hdeclared
    rw [Catalogue.declares_singleton hr, Catalogue.declares_singleton hr] at hdeclared
    exact hd _ hlt (by simpa [Predicate.attributes] using hdeclared)
  | select _ ih => exact .select ih
  | project hl _ hs hk he ih => exact .project hl ih hs hk he
  | product _ _ ihl ihr => exact .product ihl ihr
  | @settle input plan pass mid pass' fragments rest _ hm ho hp ih =>
    have hrest := Steps.faithful hm.steps ih.faithful
    have hproducts := productAll_steps (o := o) hrest pass' hp
    have hperm := Steps.covered_perm hproducts
    rw [covered_ofPlan] at hperm
    exact .settle ih (hm.steps.trans hproducts) (ho.drained hperm)

theorem walk_rewrites {input : Plan} {v : Visited} (h : o.walk input pass = .ok (v, pass')) :
    o.Rewrites input pass v pass' := (walk_visits h).rewrites

theorem visit_rewrites {input : Plan} (h : o.visit input pass = .ok (plan, pass')) :
    o.Rewrites input pass (.whole plan) pass' := (visit_visits h).rewrites

theorem optimise_rewrites {input : Plan} (h : o.optimise input = .ok plan) :
    ∃ pass, o.Rewrites input .initial (.whole plan) pass ∧ pass.pending = [] := by
  obtain ⟨pass, hv, hp⟩ := optimise_visits h
  exact ⟨pass, hv.rewrites, hp⟩

theorem Rewrites.drained {input : Plan} {v : Visited} (h : o.Rewrites input pass v pass')
    (hv : v = .whole plan) : o.Drained plan.baseRelations pass' := by
  induction h generalizing plan with
  | scan hr he hs _ hj =>
    cases hv
    have hperm := Steps.covered_perm hs
    rw [covered_ofPlan, covered_ofPlan, baseRelations_of_estimateRoot he, Plan.baseRelations,
      Catalogue.name_of_find? hr] at hperm
    rwa [List.perm_singleton.mp hperm]
  | select _ ih => exact ih hv
  | project _ _ _ _ he ih =>
    obtain rfl := Visited.whole.inj hv.symm
    have hi := ih rfl
    rcases he with ⟨-, he⟩ | ⟨-, rfl⟩
    · rw [baseRelations_of_estimateRoot he]
      exact hi
    · exact hi
  | product => cases hv
  | settle _ _ hj =>
    cases hv
    exact hj

end QueryPlan.Optimiser
