import QueryPlan.Proofs.Conservation

/-! Estimates stored throughout a plan. A plan is consistent when each of its nodes stores what its
operator makes of the estimates below it. Estimating a plan ends in a consistent one and leaves a
consistent one as it is; the optimiser stores an estimate with every node it makes, so what it
returns is consistent. -/

namespace QueryPlan

/-- Every node stores the estimate that its operator computes from those of its children. -/
inductive Plan.Consistent : Plan → Prop
  | scan (s : NamedRelation) : Consistent (.scan s (some s.relation))
  | select {i : Plan} {c : Predicate} {t s : Relation} (hi : Consistent i)
      (ht : i.output? = some t) (hs : Estimate.select t c = .ok s) :
      Consistent (.select i c (some s))
  | project {i : Plan} {as : List Attribute} {t s : Relation} (hi : Consistent i)
      (ht : i.output? = some t) (hs : Estimate.project t as = .ok s) :
      Consistent (.project i as (some s))
  | product {l r : Plan} {t u : Relation} (hl : Consistent l) (hr : Consistent r)
      (ht : l.output? = some t) (hu : r.output? = some u) :
      Consistent (.product l r (some (Estimate.product t u)))
  | join {l r : Plan} {c : Predicate} {t u s : Relation} (hl : Consistent l) (hr : Consistent r)
      (ht : l.output? = some t) (hu : r.output? = some u) (hs : Estimate.join t u c = .ok s) :
      Consistent (.join l r c (some s))

namespace Plan
variable {p q i : Plan}

theorem consistent_of_estimateRoot (hc : ∀ i ∈ p.children, i.Consistent)
    (h : p.estimateRoot = .ok q) : q.Consistent := by
  cases p with
  | scan s o =>
    cases estimateRoot_scan.symm.trans h
    exact .scan s
  | select i c o =>
    obtain ⟨t, s, ht, hs, rfl⟩ := estimateRoot_select.mp h
    exact .select (hc i (List.mem_singleton.mpr rfl)) ht hs
  | project i as o =>
    obtain ⟨t, s, ht, hs, rfl⟩ := estimateRoot_project.mp h
    exact .project (hc i (List.mem_singleton.mpr rfl)) ht hs
  | product l r o =>
    obtain ⟨t, u, ht, hu, rfl⟩ := estimateRoot_product.mp h
    exact .product (hc l (List.mem_pair.mpr (.inl rfl))) (hc r (List.mem_pair.mpr (.inr rfl))) ht hu
  | join l r c o =>
    obtain ⟨t, u, s, ht, hu, hs, rfl⟩ := estimateRoot_join.mp h
    exact .join (hc l (List.mem_pair.mpr (.inl rfl))) (hc r (List.mem_pair.mpr (.inr rfl))) ht hu hs

namespace Consistent

theorem child (h : p.Consistent) (hi : i ∈ p.children) : i.Consistent := by
  cases h with
  | scan => cases hi
  | select h => exact List.mem_singleton.mp hi ▸ h
  | project h => exact List.mem_singleton.mp hi ▸ h
  | product hl hr => rcases List.mem_pair.mp hi with rfl | rfl <;> assumption
  | join hl hr => rcases List.mem_pair.mp hi with rfl | rfl <;> assumption

theorem of_mem (h : p.Consistent) (hi : i ∈ p.subplans) : i.Consistent :=
  rel_of_mem_subplans (R := fun i p => p.Consistent → i.Consistent) (fun _ => id)
    (fun hj hij h => hij (h.child hj)) hi h

theorem estimateRoot_eq (h : p.Consistent) : p.estimateRoot = .ok p := by
  cases h with
  | scan => exact estimateRoot_scan
  | select _ ht hs => exact estimateRoot_select.mpr ⟨_, _, ht, hs, rfl⟩
  | project _ ht hs => exact estimateRoot_project.mpr ⟨_, _, ht, hs, rfl⟩
  | product _ _ ht hu => exact estimateRoot_product.mpr ⟨_, _, ht, hu, rfl⟩
  | join _ _ ht hu hs => exact estimateRoot_join.mpr ⟨_, _, _, ht, hu, hs, rfl⟩

theorem output_eq (h : p.Consistent) : ∃ r, p.output? = some r ∧ p.outputFor = .ok r := by
  obtain ⟨r, hr, hp⟩ := estimateRoot_eq_ok.mp h.estimateRoot_eq
  exact ⟨r, hp ▸ p.output?_withOutput r, hr⟩

theorem estimateTree_eq (h : p.Consistent) : p.estimateTree = (p, none) := by
  have hroot := h.estimateRoot_eq
  induction h with
  | scan => exact estimateTree_scan
  | select hi _ _ ih => exact estimateTree_select.mpr ⟨_, ih hi.estimateRoot_eq, hroot⟩
  | project hi _ _ ih => exact estimateTree_project.mpr ⟨_, ih hi.estimateRoot_eq, hroot⟩
  | product hl hr _ _ ihl ihr =>
    exact estimateTree_product.mpr
      ⟨_, _, ihl hl.estimateRoot_eq, ihr hr.estimateRoot_eq, hroot⟩
  | join hl hr _ _ _ ihl ihr =>
    exact estimateTree_join.mpr ⟨_, _, ihl hl.estimateRoot_eq, ihr hr.estimateRoot_eq, hroot⟩

end Consistent

theorem consistent_of_estimateTree (h : p.estimateTree = (q, none)) : q.Consistent := by
  induction p generalizing q with
  | scan s o => exact consistent_of_estimateRoot (by simp [children]) (tryEstimateRoot_eq.mp h)
  | select i c o ih =>
    obtain ⟨j, hj, h⟩ := estimateTree_select.mp h
    exact consistent_of_estimateRoot (by simpa [children] using ih hj) h
  | project i as o ih =>
    obtain ⟨j, hj, h⟩ := estimateTree_project.mp h
    exact consistent_of_estimateRoot (by simpa [children] using ih hj) h
  | product l r o ihl ihr =>
    obtain ⟨j, k, hj, hk, h⟩ := estimateTree_product.mp h
    exact consistent_of_estimateRoot (by simpa [children] using ⟨ihl hj, ihr hk⟩) h
  | join l r c o ihl ihr =>
    obtain ⟨j, k, hj, hk, h⟩ := estimateTree_join.mp h
    exact consistent_of_estimateRoot (by simpa [children] using ⟨ihl hj, ihr hk⟩) h

end Plan

namespace Optimiser
open Plan

variable {o : Optimiser} {pass pass' : Pass} {plan result : Plan} {v : Visited}

theorem consistent_inherited : Inherited fun f => f.plan.Consistent where
  select hf he := consistent_of_estimateRoot (by simpa [children] using hf) he
  project hf he := consistent_of_estimateRoot (by simpa [children] using hf) he
  join hf hg he := consistent_of_estimateRoot (by simpa [children] using ⟨hf, hg⟩) he
  product hf hg he := consistent_of_estimateRoot (by simpa [children] using ⟨hf, hg⟩) he

theorem Rewrites.consistent (h : o.Rewrites plan pass v pass') :
    ∀ f ∈ v.fragments, f.plan.Consistent :=
  consistent_inherited.rewrites (fun _ he => consistent_of_estimateRoot (by simp [children]) he) h

theorem consistent_of_optimise (h : o.optimise plan = .ok result) : result.Consistent := by
  obtain ⟨pass, hr, -⟩ := optimise_rewrites h
  exact hr.consistent (.ofPlan result) (List.mem_singleton.mpr rfl)

/-- Every node of an optimised plan stores the estimate that its operator computes from those of its
children, so estimating the plan once more changes nothing. -/
theorem optimise_consistent (h : o.optimise plan = .ok result) :
    (∀ node ∈ result.subplans, ∃ r, node.output? = some r ∧ node.outputFor = .ok r) ∧
      result.estimateTree = (result, none) :=
  have hconsistent := consistent_of_optimise h
  ⟨fun _ hn => (hconsistent.of_mem hn).output_eq, hconsistent.estimateTree_eq⟩

theorem optimise_consistent_sample : ∃ result,
    (⟨.sample, true⟩ : Optimiser).optimise .sample = .ok result ∧
      Plan.sample.output? = none ∧ result.subplans.length = 6 ∧
      (∀ node ∈ result.subplans, ∃ r, node.output? = some r ∧ node.outputFor = .ok r) ∧
      result.estimateTree = (result, none) := by
  obtain ⟨result, h, hl⟩ : ∃ result, (⟨.sample, true⟩ : Optimiser).optimise .sample = .ok result ∧
      result.subplans.length = 6 := ⟨_, rfl, rfl⟩
  exact ⟨result, h, rfl, hl, optimise_consistent h⟩

end Optimiser
end QueryPlan
