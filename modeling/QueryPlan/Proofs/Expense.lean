import QueryPlan.Proofs.Freshness
import QueryPlan.Proofs.Queries
import Mathlib.Algebra.Group.Action.Defs
import Mathlib.Algebra.Order.BigOperators.Group.List
import Mathlib.Algebra.Order.Ring.Nat

/-! What plans cost. No operator estimates more tuples than its operands multiply to, so the product
of all relations, which lies under every query's plan, is as large as any node can get. This bounds
an optimised plan node by node. Their sum is another matter: the optimiser stacks the comparisons of
a relation in the reverse of their order, and adds projections, which the cost counts. -/

namespace QueryPlan

namespace Estimate
variable {l r s : Relation} {p : Predicate}

theorem tupleCount_select_le (h : select r p = .ok s) :
    s.tupleCount.toNat ≤ r.tupleCount.toNat := by
  cases p with
  | value a v =>
    obtain ⟨x, -, h⟩ := Outcome.bind_eq_ok.mp h
    cases Outcome.pure_eq_ok.mp h
    exact (UInt64.toNat_div ..).trans_le (Nat.div_le_self ..)
  | join a b =>
    obtain ⟨x, -, h⟩ := Outcome.bind_eq_ok.mp h
    obtain ⟨y, -, h⟩ := Outcome.bind_eq_ok.mp h
    cases Outcome.pure_eq_ok.mp h
    exact (UInt64.toNat_div ..).trans_le (Nat.div_le_self ..)

theorem tupleCount_product_le (l r : Relation) :
    (product l r).tupleCount.toNat ≤ l.tupleCount.toNat * r.tupleCount.toNat :=
  (Count.toNat_product ..).trans_le (Nat.min_le_left ..)

theorem tupleCount_join_le (h : join l r p = .ok s) :
    s.tupleCount.toNat ≤ l.tupleCount.toNat * r.tupleCount.toNat := by
  obtain ⟨-, a, b, rfl, ha, hb⟩ := join_eq_ok h
  obtain ⟨x, hx⟩ := Relation.mem_names_iff.mp ha
  obtain ⟨y, hy⟩ := Relation.mem_names_iff.mp hb
  simp only [join, Relation.attribute?_eq, hx, hy, Option.map_some, Except.ok.injEq] at h
  subst h
  calc _ = _ := UInt64.toNat_div ..
    _ ≤ _ := Nat.div_le_self ..
    _ ≤ _ := tupleCount_product_le l r

end Estimate

namespace Count

theorem min_add_sum_min (a m : Nat) (ns : List Nat) :
    min (a + (ns.map (min · m)).sum) m = min (a + ns.sum) m := by
  induction ns generalizing a with
  | nil => rfl
  | cons n ns ih =>
    have hrest := ih (a + min n m)
    rw [List.map_cons, List.sum_cons, List.sum_cons]
    omega

/-- Nor does clipping the sum after each summand. -/
theorem toNat_foldl_sum (a : Count) (cs : List Count) :
    (cs.foldl sum a).toNat = min (a.toNat + (cs.map UInt64.toNat).sum) (UInt64.size - 1) := by
  induction cs generalizing a with
  | nil =>
    have hlt := a.toNat_lt_size
    rw [List.foldl_nil, List.map_nil, List.sum_nil]
    omega
  | cons c cs ih =>
    rw [List.foldl_cons, ih, toNat_sum, List.map_cons, List.sum_cons]
    omega

end Count

namespace Plan
variable {p q i j : Plan} {m : Nat}

def tuples (p : Plan) : Nat := (totalCost.tuples p.output?).toNat

/-- Combinations of one tuple from every relation scanned. -/
def volume (p : Plan) : Nat := (p.scans.map (·.relation.tupleCount.toNat)).prod

theorem tuples_eq {r : Relation} (h : p.output? = some r) : p.tuples = r.tupleCount.toNat := by
  rw [tuples, h]
  rfl

theorem tuples_lt (p : Plan) : p.tuples < UInt64.size := UInt64.toNat_lt _

theorem totalCost_eq (p : Plan) : p.totalCost =
    (p.children.map totalCost).foldl Count.sum (totalCost.tuples p.output?) := by
  cases p <;> rfl

theorem toNat_totalCost (p : Plan) :
    p.totalCost.toNat = min (p.subplans.map tuples).sum (UInt64.size - 1) := by
  induction p using induct_children with
  | h p ih =>
    have hchildren : (p.children.map totalCost).map UInt64.toNat =
        (p.children.map fun i => (i.subplans.map tuples).sum).map (min · (UInt64.size - 1)) := by
      rw [List.map_map, List.map_map]
      exact List.map_congr_left ih
    have hbelow : ((p.children.flatMap subplans).map tuples).sum =
        (p.children.map fun i => (i.subplans.map tuples).sum).sum := by
      rw [List.map_flatMap, List.flatMap_def, List.sum_flatten, List.map_map]
      rfl
    rw [totalCost_eq, Count.toNat_foldl_sum, hchildren, Count.min_add_sum_min, subplans_eq,
      List.map_cons, List.sum_cons, hbelow]
    rfl

theorem sum_tuples (ps : List Plan) : (ps.map tuples).sum =
    ((ps.filterMap output?).map (·.tupleCount.toNat)).sum := by
  induction ps with
  | nil => rfl
  | cons p ps ih =>
    rw [List.map_cons, List.sum_cons, ih]
    cases h : p.output? with
    | none =>
      rw [List.filterMap_cons_none h, tuples, h]
      exact Nat.zero_add _
    | some r => rw [List.filterMap_cons_some h, List.map_cons, List.sum_cons, tuples_eq h]

/-- Wherever the sum is clipped on the way, the cost is the number of tuples at all the nodes that
carry an estimate, clipped once at the largest word. -/
theorem totalCost_exact (p : Plan) : p.totalCost.toNat =
    min (2 ^ 64 - 1) ((p.subplans.filterMap output?).map (·.tupleCount.toNat)).sum := by
  rw [toNat_totalCost, sum_tuples]
  exact Nat.min_comm ..

theorem nodeCount_eq (p : Plan) : p.nodeCount = p.subplans.length := by
  induction p with
  | scan s o => rfl
  | select i c o ih => simp [nodeCount, ih, Nat.add_comm]
  | project i as o ih => simp [nodeCount, ih, Nat.add_comm]
  | product l r o ihl ihr => simp [nodeCount, ihl, ihr, Nat.add_comm]
  | join l r c o ihl ihr => simp [nodeCount, ihl, ihr, Nat.add_comm]

theorem tuples_le_totalCost (h : i ∈ p.subplans) : i.tuples ≤ p.totalCost.toNat := by
  have hsum : i.tuples ≤ (p.subplans.map tuples).sum :=
    List.single_le_sum (fun _ _ => Nat.zero_le _) _ (List.mem_map_of_mem h)
  have hlt := i.tuples_lt
  rw [toNat_totalCost]
  omega

theorem totalCost_le (h : ∀ i ∈ p.subplans, i.tuples ≤ m) :
    p.totalCost.toNat ≤ p.nodeCount * m := by
  have hsum : (p.subplans.map tuples).sum ≤ (p.subplans.map tuples).length • m :=
    List.sum_le_card_nsmul _ _ (List.forall_mem_map.mpr h)
  rw [List.length_map, smul_eq_mul, ← nodeCount_eq] at hsum
  exact (toNat_totalCost p).trans_le ((Nat.min_le_left ..).trans hsum)

theorem volume_product (l r : Plan) (o : Option Relation) :
    (product l r o).volume = l.volume * r.volume := by
  simp only [volume, scans, List.map_append, List.prod_append]

theorem volume_join (l r : Plan) (c : Predicate) (o : Option Relation) :
    (join l r c o).volume = l.volume * r.volume := by
  simp only [volume, scans, List.map_append, List.prod_append]

theorem volume_perm (h : p.scans.Perm q.scans) : p.volume = q.volume := (h.map _).prod_eq

theorem volume_mono (hs : i.scans.Sublist p.scans)
    (hne : ∀ s ∈ p.scans, s.relation.tupleCount ≠ 0) : i.volume ≤ p.volume := by
  refine (hs.map _).prod_le_prod' (List.forall_mem_map.mpr fun s hm => ?_)
  exact Nat.pos_of_ne_zero fun hzero => hne s hm (UInt64.toNat_inj.mp hzero)

theorem Consistent.tuples_le (h : p.Consistent) : p.tuples ≤ p.volume := by
  induction h with
  | scan s =>
    calc s.relation.tupleCount.toNat = s.relation.tupleCount.toNat * 1 := (Nat.mul_one _).symm
      _ ≤ _ := Nat.le_refl _
  | @select i c t s _ ht hs ih =>
    calc s.tupleCount.toNat ≤ t.tupleCount.toNat := Estimate.tupleCount_select_le hs
      _ = i.tuples := (tuples_eq ht).symm
      _ ≤ i.volume := ih
  | @project i as t s _ ht hs ih =>
    calc s.tupleCount.toNat = t.tupleCount.toNat := by rw [(Estimate.project_eq_ok hs).1]
      _ = i.tuples := (tuples_eq ht).symm
      _ ≤ i.volume := ih
  | @product l r t u _ _ ht hu ihl ihr =>
    calc (Estimate.product t u).tupleCount.toNat
        ≤ t.tupleCount.toNat * u.tupleCount.toNat := Estimate.tupleCount_product_le t u
      _ = l.tuples * r.tuples := by rw [tuples_eq ht, tuples_eq hu]
      _ ≤ l.volume * r.volume := Nat.mul_le_mul ihl ihr
      _ = _ := (volume_product ..).symm
  | @join l r c t u s _ _ ht hu hs ihl ihr =>
    calc s.tupleCount.toNat
        ≤ t.tupleCount.toNat * u.tupleCount.toNat := Estimate.tupleCount_join_le hs
      _ = l.tuples * r.tuples := by rw [tuples_eq ht, tuples_eq hu]
      _ ≤ l.volume * r.volume := Nat.mul_le_mul ihl ihr
      _ = _ := (volume_join ..).symm

theorem min_mul_left (a b m : Nat) : min (min a m * b) m = min (a * b) m := by
  rcases Nat.le_total a m with ha | ha
  · rw [Nat.min_eq_left ha]
  · rw [Nat.min_eq_right ha]
    rcases Nat.eq_zero_or_pos b with rfl | hb
    · rw [Nat.mul_zero, Nat.mul_zero]
    · rw [Nat.min_eq_right (Nat.le_mul_of_pos_right m hb),
        Nat.min_eq_right (ha.trans (Nat.le_mul_of_pos_right a hb))]

theorem tuples_of_crossing (hp : p.Crossing) (h : p.estimateTree = (q, none)) :
    q.tuples = min p.volume (UInt64.size - 1) := by
  induction p generalizing q with
  | scan s o =>
    cases estimateTree_scan.symm.trans h
    have hlt := s.relation.tupleCount.toNat_lt_size
    rw [tuples_eq (r := s.relation) rfl, volume]
    simp only [scans, List.map_cons, List.map_nil, List.prod_cons, List.prod_nil]
    omega
  | product l r o ihl ihr =>
    obtain ⟨j, k, hj, hk, h⟩ := estimateTree_product.mp h
    obtain ⟨t, u, ht, hu, rfl⟩ := estimateRoot_product.mp h
    have hl := ihl hp.1 hj
    have hr := ihr hp.2 hk
    rw [tuples_eq ht] at hl
    rw [tuples_eq hu] at hr
    rw [tuples_eq (r := Estimate.product t u) rfl, volume_product]
    -- clipping the factors first does not show in the clipped product
    calc (Estimate.product t u).tupleCount.toNat
        = min (t.tupleCount.toNat * u.tupleCount.toNat) (UInt64.size - 1) :=
          Count.toNat_product _ _
      _ = min (l.volume * min r.volume (UInt64.size - 1)) (UInt64.size - 1) := by
          rw [hl, hr, min_mul_left]
      _ = min (l.volume * r.volume) (UInt64.size - 1) := by
          rw [Nat.mul_comm, min_mul_left, Nat.mul_comm]
  | _ => exact hp.elim

theorem children_of_estimateTree (hi : i ∈ p.children) (h : p.estimateTree = (q, none)) :
    ∃ j ∈ q.children, i.estimateTree = (j, none) := by
  cases p with
  | scan s o => cases hi
  | select k c o =>
    obtain ⟨j, hj, h⟩ := estimateTree_select.mp h
    obtain ⟨r, -, rfl⟩ := estimateRoot_eq_ok.mp h
    exact ⟨j, List.mem_singleton.mpr rfl, List.mem_singleton.mp hi ▸ hj⟩
  | project k as o =>
    obtain ⟨j, hj, h⟩ := estimateTree_project.mp h
    obtain ⟨r, -, rfl⟩ := estimateRoot_eq_ok.mp h
    exact ⟨j, List.mem_singleton.mpr rfl, List.mem_singleton.mp hi ▸ hj⟩
  | product l r o =>
    obtain ⟨j, k, hj, hk, h⟩ := estimateTree_product.mp h
    obtain ⟨s, -, rfl⟩ := estimateRoot_eq_ok.mp h
    rcases List.mem_pair.mp hi with rfl | rfl
    · exact ⟨j, List.mem_pair.mpr (.inl rfl), hj⟩
    · exact ⟨k, List.mem_pair.mpr (.inr rfl), hk⟩
  | join l r c o =>
    obtain ⟨j, k, hj, hk, h⟩ := estimateTree_join.mp h
    obtain ⟨s, -, rfl⟩ := estimateRoot_eq_ok.mp h
    rcases List.mem_pair.mp hi with rfl | rfl
    · exact ⟨j, List.mem_pair.mpr (.inl rfl), hj⟩
    · exact ⟨k, List.mem_pair.mpr (.inr rfl), hk⟩

theorem mem_subplans_of_estimateTree (hi : i ∈ p.subplans) (h : p.estimateTree = (q, none)) :
    ∃ j ∈ q.subplans, i.estimateTree = (j, none) := by
  refine rel_of_mem_subplans (R := fun i p => ∀ {q}, p.estimateTree = (q, none) →
    ∃ j ∈ q.subplans, i.estimateTree = (j, none)) (fun p q h => ?_) ?_ hi h
  · exact ⟨q, mem_subplans_self, h⟩
  · intro i j p hj hij q h
    obtain ⟨k, hk, hjk⟩ := children_of_estimateTree hj h
    obtain ⟨n, hn, hin⟩ := hij hjk
    rw [subplans_eq q]
    exact ⟨n, List.mem_cons_of_mem _ (List.mem_flatMap.mpr ⟨k, hk, hn⟩), hin⟩

theorem map_some_scans {c : Catalogue} (h : ∀ s ∈ p.scans, c.find? s.name = some s) :
    p.scans.map some = p.baseRelations.map c.find? :=
  Catalogue.map_some_eq_iff.mpr ⟨p.baseRelations_eq.symm, h⟩

theorem scans_perm {c : Catalogue} (hp : ∀ s ∈ p.scans, c.find? s.name = some s)
    (hq : ∀ s ∈ q.scans, c.find? s.name = some s) (h : p.baseRelations.Perm q.baseRelations) :
    p.scans.Perm q.scans := by
  refine (List.map_perm_map_iff (Option.some_injective _)).mp ?_
  rw [map_some_scans hp, map_some_scans hq]
  exact h.map _

end Plan

namespace Optimiser
variable {o : Optimiser} {plan : Plan}

/-- A query over relations that all have tuples has an estimate and an optimised plan, and no node of
the optimised plan has more tuples than the largest of the estimate. So the optimised plan costs at
most as many times the estimate's cost as it has nodes. -/
theorem optimise_expense {q : Query} (h : q.plan o.catalogue = .ok plan)
    (hne : ∀ s ∈ plan.scans, s.relation.tupleCount ≠ 0) :
    ∃ estimate result, plan.estimated = .ok estimate ∧ o.optimise plan = .ok result ∧
      (∃ widest ∈ estimate.subplans, ∀ node ∈ result.subplans, node.tuples ≤ widest.tuples) ∧
      result.totalCost.toNat ≤ result.nodeCount * estimate.totalCost.toNat := by
  have hgrown := Query.plan_grown h
  obtain ⟨estimate, he⟩ := Query.estimated_of_plan h
  obtain ⟨result, ho⟩ := optimise_orderly hgrown.canonical.orderly hgrown.not_stray
  obtain ⟨core, hcore, hmem, hscans, -⟩ := Query.exists_crossing h
  obtain ⟨widest, hw, hcw⟩ := Plan.mem_subplans_of_estimateTree hmem (Plan.estimated_eq_ok.mp he)
  have hwidest : widest.tuples = min plan.volume (UInt64.size - 1) := by
    rw [Plan.tuples_of_crossing hcore hcw, Plan.volume_perm (.of_eq hscans)]
  obtain ⟨pass, hr, -⟩ := optimise_rewrites ho
  have hperm : result.scans.Perm plan.scans :=
    Plan.scans_perm (registered_ofPlan.mp hr.registered) hgrown.canonical.registered
      hr.baseRelations_perm
  -- whatever the optimiser builds lies below the product of all relations
  have hnode : ∀ node ∈ result.subplans, node.tuples ≤ widest.tuples := by
    intro node hn
    have hconsistent := (consistent_of_optimise ho).of_mem hn
    have hvolume : node.tuples ≤ plan.volume := calc
      node.tuples ≤ node.volume := hconsistent.tuples_le
      _ ≤ result.volume := Plan.volume_mono (Plan.scans_sublist hn)
          fun s hm => hne s (hperm.subset hm)
      _ = plan.volume := Plan.volume_perm hperm
    have hlt := node.tuples_lt
    rw [hwidest]
    omega
  refine ⟨estimate, result, he, ho, ⟨widest, hw, hnode⟩, ?_⟩
  exact Plan.totalCost_le fun node hn => (hnode node hn).trans (Plan.tuples_le_totalCost hw)

theorem optimise_expense_sample : ∃ estimate result, Plan.sample.estimated = .ok estimate ∧
    (⟨.sample, true⟩ : Optimiser).optimise .sample = .ok result ∧
      (∃ widest ∈ estimate.subplans, ∀ node ∈ result.subplans, node.tuples ≤ widest.tuples) ∧
      result.totalCost.toNat ≤ result.nodeCount * estimate.totalCost.toNat := by
  have hq : (⟨some ["LNAME"], ["Employee", "Works_On"],
      [.join (.named "SSN") (.named "ESSN"), .value (.named "PNO") "3"]⟩ : Query).plan .sample =
        .ok .sample := rfl
  have hne : ∀ s ∈ Plan.sample.scans, s.relation.tupleCount ≠ 0 := by decide
  exact optimise_expense (o := ⟨.sample, true⟩) hq hne

end Optimiser

def Catalogue.lopsided : Catalogue where
  relations := [⟨"R", ⟨100, [⟨"a", 100⟩, ⟨"b", 1⟩]⟩⟩]
  names_nodup := by decide
  attributes_nodup := by decide
  valueCount_ne_zero := by decide

/-- Compared first, the telling attribute leaves one tuple to the other comparison. The optimised
plan makes that comparison on all tuples. -/
theorem Optimiser.optimise_dearer : ∃ plan estimate result,
    (⟨none, ["R"], [.value (.named "a") "x", .value (.named "b") "y"]⟩ : Query).plan .lopsided =
        .ok plan ∧
      plan.estimated = .ok estimate ∧ (⟨.lopsided, true⟩ : Optimiser).optimise plan = .ok result ∧
      (⟨.lopsided, false⟩ : Optimiser).optimise plan = .ok result ∧
      estimate.totalCost = 102 ∧ result.totalCost = 201 ∧ estimate.totalCost < result.totalCost :=
  ⟨_, _, _, rfl, rfl, rfl, rfl, rfl, rfl, by decide⟩

end QueryPlan
