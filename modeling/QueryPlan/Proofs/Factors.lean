import QueryPlan.Proofs.Queries

/-! The factors of a plan, which the products at its top multiply. Rounds of joins make no product,
and what they leave is multiplied last. So in the optimised plan of a query there is no product
below a selection or a join: its factors have none. -/

namespace QueryPlan
open Outcome

namespace Plan
variable {p q l r f : Plan} {out : Option Relation}

def products : Plan → Nat
  | scan .. => 0
  | select i _ _ => i.products
  | project i _ _ => i.products
  | product l r _ => l.products + r.products + 1
  | join l r _ _ => l.products + r.products

def factors : Plan → List Plan
  | scan s o => [scan s o]
  | select i p o => [select i p o]
  | project i _ _ => i.factors
  | product l r _ => l.factors ++ r.factors
  | join l r p o => [join l r p o]

/-- There are no products but those at the top. -/
def Flat (p : Plan) : Prop := ∀ f ∈ p.factors, f.products = 0

@[simp] theorem products_withOutput (p : Plan) (r : Relation) :
    (p.withOutput r).products = p.products := by cases p <;> rfl

theorem products_of_estimateRoot (h : p.estimateRoot = .ok q) : q.products = p.products := by
  obtain ⟨r, -, rfl⟩ := estimateRoot_eq_ok.mp h
  exact p.products_withOutput r

theorem products_lt (p : Plan) : p.products < p.baseRelations.length := by
  induction p with
  | scan s o => exact Nat.one_pos
  | select i c o ih => exact ih
  | project i as o ih => exact ih
  | product l r o ihl ihr =>
    rw [products, baseRelations, List.length_append]
    omega
  | join l r c o ihl ihr =>
    rw [products, baseRelations, List.length_append]
    omega

theorem products_pos (h : product l r out ∈ p.subplans) : 0 < p.products := by
  induction p with
  | scan s o => simp at h
  | select i c o ih => exact ih (by simpa using h)
  | project i as o ih => exact ih (by simpa using h)
  | product l' r' o _ _ => exact Nat.succ_pos _
  | join l' r' c o ihl ihr =>
    rw [subplans, List.mem_cons, List.mem_append] at h
    rcases h with h | h | h
    · cases h
    · exact Nat.add_pos_left (ihl h) _
    · exact Nat.add_pos_right _ (ihr h)

theorem factors_subset (p : Plan) : p.factors ⊆ p.subplans := by
  induction p with
  | project i as o ih => exact fun f hf => List.mem_cons_of_mem _ (ih hf)
  | product l r o ihl ihr =>
    refine List.append_subset.mpr ⟨fun f hf => ?_, fun f hf => ?_⟩
    · exact List.mem_cons_of_mem _ (List.mem_append_left _ (ihl hf))
    · exact List.mem_cons_of_mem _ (List.mem_append_right _ (ihr hf))
  | _ => exact List.cons_subset.mpr ⟨mem_subplans_self, List.nil_subset _⟩

theorem factors_baseRelations (p : Plan) : p.factors.flatMap baseRelations = p.baseRelations := by
  induction p with
  | project i as o ih => exact ih
  | product l r o ihl ihr => rw [factors, List.flatMap_append, ihl, ihr, baseRelations]
  | _ => exact List.append_nil _

theorem factors_conditions (p : Plan) : p.factors.flatMap conditions = p.conditions := by
  induction p with
  | project i as o ih => exact ih
  | product l r o ihl ihr => rw [factors, List.flatMap_append, ihl, ihr, conditions]
  | _ => exact List.append_nil _

theorem Flat.products_eq (h : p.Flat) : p.products + 1 = p.factors.length := by
  induction p with
  | scan s o => rfl
  | select i c o _ => rw [h _ (List.mem_singleton.mpr rfl), factors, List.length_singleton]
  | project i as o ih => exact ih h
  | product l r o ihl ihr =>
    obtain ⟨hl, hr⟩ := List.forall_mem_append.mp h
    rw [products, factors, List.length_append, ← ihl hl, ← ihr hr]
    omega
  | join l r c o _ _ => rw [h _ (List.mem_singleton.mpr rfl), factors, List.length_singleton]

theorem flat_of_products (h : p.products = 0) : p.Flat := by
  induction p with
  | project i as o ih => exact ih h
  | product l r o _ _ => cases h
  | _ => exact List.forall_mem_singleton.mpr h

theorem Flat.product (hl : l.Flat) (hr : r.Flat) : (product l r out).Flat :=
  List.forall_mem_append.mpr ⟨hl, hr⟩

theorem Flat.factors_subset (h : p.Flat) (hm : Plan.product l r out ∈ p.subplans) :
    l.factors ++ r.factors ⊆ p.factors := by
  induction p with
  | scan s o => simp at hm
  | select i c o _ => exact absurd (h _ (List.mem_singleton.mpr rfl)) (products_pos hm).ne'
  | project i as o ih => exact ih h (by simpa using hm)
  | product l' r' o ihl ihr =>
    obtain ⟨hl, hr⟩ := List.forall_mem_append.mp h
    rw [subplans, List.mem_cons, List.mem_append] at hm
    rcases hm with hm | hm | hm
    · cases hm
      exact List.Subset.refl _
    · exact List.subset_append_of_subset_left _ (ihl hl hm)
    · exact List.subset_append_of_subset_right _ (ihr hr hm)
  | join l' r' c o _ _ => exact absurd (h _ (List.mem_singleton.mpr rfl)) (products_pos hm).ne'

end Plan

namespace Optimiser
variable {o : Optimiser} {pass pass' : Pass} {p plan plan' result : Plan} {fs gs : List Fragment}
  {passed rest : List Predicate} {cond : Predicate}

def Productless (fs : List Fragment) : Prop := ∀ f ∈ fs, f.plan.products = 0

theorem products_of_narrow (h : o.narrow pass plan = .ok plan') :
    plan'.products = plan.products := by
  rcases narrow_cases h with rfl | ⟨_, _, -, -, -, -, he⟩
  · rfl
  · rw [Plan.products_of_estimateRoot he, Plan.products]

theorem products_of_applySelection (h : o.applySelection pass plan cond = .ok (plan', pass')) :
    plan'.products = plan.products := by
  obtain ⟨selected, hs, h⟩ := bind_eq_ok.mp h
  obtain ⟨narrowed, hn, h⟩ := bind_eq_ok.mp h
  cases pure_eq_ok.mp h
  rw [products_of_narrow hn, Plan.products_of_estimateRoot hs, Plan.products]

theorem productless_set {i : Nat} {f : Fragment} (hf : Productless fs) (h : f.plan.products = 0) :
    Productless (fs.set i f) := by
  intro g hg
  rcases List.mem_or_eq_of_mem_set hg with hg | rfl
  · exact hf g hg
  · exact h

theorem applyLocal_productless (hf : Productless fs)
    (h : o.applyLocal passed rest fs pass = .ok (gs, pass')) : Productless gs := by
  induction rest generalizing passed fs pass with
  | nil =>
    cases h
    exact hf
  | cons q rest ih =>
    rw [applyLocal] at h
    split at h
    · exact ih hf h
    · next i _ =>
      obtain ⟨⟨selected, next⟩, hs, h⟩ := bind_eq_ok.mp h
      refine ih (productless_set hf ?_) h
      exact (products_of_applySelection hs).trans (hf _ (List.getElem_mem _))

theorem joinFragments_productless {c : Candidate fs} (hf : Productless fs)
    (h : o.joinFragments fs pass c = .ok (gs, pass')) : Productless gs := by
  obtain ⟨joined, hj, h⟩ := bind_eq_ok.mp h
  obtain ⟨narrowed, hn, h⟩ := bind_eq_ok.mp h
  cases pure_eq_ok.mp h
  have hleft : fs[c.left].plan.products = 0 := hf _ (List.getElem_mem _)
  have hright : fs[c.right].plan.products = 0 := hf _ (List.getElem_mem _)
  have hjoined : narrowed.products = 0 := by
    rw [products_of_narrow hn, Plan.products_of_estimateRoot hj, Plan.products, hleft, hright]
  intro g hg
  exact productless_set hf hjoined g (List.mem_of_mem_eraseIdx hg)

theorem rounds_productless {n : Nat} (hf : Productless fs)
    (h : o.rounds n fs pass = .ok (gs, pass')) : Productless gs := by
  induction n generalizing fs pass with
  | zero =>
    cases h
    exact hf
  | succ n ih =>
    obtain ⟨turn, hturn, h⟩ := bind_eq_ok.mp h
    obtain ⟨⟨selected, mid⟩, hl, hturn⟩ := bind_eq_ok.mp hturn
    have hselected := applyLocal_productless hf hl
    obtain ⟨best, -, hturn⟩ := bind_eq_ok.mp hturn
    cases best with
    | none =>
      cases pure_eq_ok.mp hturn
      cases pure_eq_ok.mp h
      exact hselected
    | some c =>
      obtain ⟨⟨joined, next⟩, hj, hturn⟩ := bind_eq_ok.mp hturn
      cases pure_eq_ok.mp hturn
      exact ih (joinFragments_productless hselected hj) h

theorem productAll_flat (hf : Productless fs) (h : productAll fs = .ok plan) : plan.Flat := by
  have hloop : ∀ (rest : List Fragment) (acc : Plan), Productless rest → acc.Flat →
      rest.foldlM (fun acc g => (Plan.product acc g.plan).estimateRoot) acc = .ok plan →
        plan.Flat := by
    intro rest
    induction rest with
    | nil =>
      intro acc _ hacc h
      cases pure_eq_ok.mp h
      exact hacc
    | cons g rest ih =>
      intro acc hrest hacc h
      rw [List.foldlM_cons] at h
      obtain ⟨next, hn, h⟩ := bind_eq_ok.mp h
      obtain ⟨hg, hrest⟩ := List.forall_mem_cons.mp hrest
      obtain ⟨t, u, -, -, rfl⟩ := Plan.estimateRoot_product.mp hn
      exact ih _ hrest (hacc.product (Plan.flat_of_products hg)) h
  cases fs with
  | nil => cases h
  | cons f rest =>
    obtain ⟨hf, hrest⟩ := List.forall_mem_cons.mp hf
    exact hloop rest f.plan hrest (Plan.flat_of_products hf) h

theorem walk_productless {v : Visited} (hp : p.Crossing) (h : o.walk p pass = .ok (v, pass')) :
    Productless v.fragments := by
  induction p generalizing pass v pass' with
  | scan s out =>
    have hperm := (walk_rewrites h).covered_perm.length_eq
    obtain ⟨⟨plan, next⟩, -, h⟩ := bind_eq_ok.mp h
    cases pure_eq_ok.mp h
    rw [Visited.fragments, covered_ofPlan] at hperm
    refine List.forall_mem_singleton.mpr (Nat.lt_one_iff.mp ?_)
    exact Nat.lt_of_lt_of_eq plan.products_lt hperm
  | product l r out ihl ihr =>
    obtain ⟨⟨v, mid⟩, hl, h⟩ := bind_eq_ok.mp h
    obtain ⟨⟨w, next⟩, hr, h⟩ := bind_eq_ok.mp h
    cases pure_eq_ok.mp h
    exact List.forall_mem_append.mpr ⟨ihl hp.1 hl, ihr hp.2 hr⟩
  | _ => exact hp.elim

def Flattens (o : Optimiser) (p : Plan) : Prop :=
  ∀ pass plan pass', o.visit p pass = .ok (plan, pass') → plan.Flat

theorem flattens_of_crossing (hp : p.Crossing) : o.Flattens p := by
  intro pass plan pass' h
  obtain ⟨⟨v, mid⟩, hw, h⟩ := bind_eq_ok.mp h
  have hv := walk_productless hp hw
  cases v with
  | whole whole =>
    cases h
    exact Plan.flat_of_products (hv (.ofPlan plan) (List.mem_singleton.mpr rfl))
  | cluster fragments =>
    obtain ⟨⟨rest, next⟩, hr, h⟩ := bind_eq_ok.mp h
    obtain ⟨product, hm, h⟩ := bind_eq_ok.mp h
    cases pure_eq_ok.mp h
    exact productAll_flat (rounds_productless hv hr) hm

theorem Flattens.select (hp : o.Flattens p) : o.Flattens (.select p cond) := by
  intro pass plan pass' h
  obtain ⟨_, hw, h⟩ := bind_eq_ok.mp h
  obtain ⟨⟨v, mid⟩, hi, hw⟩ := bind_eq_ok.mp hw
  obtain ⟨⟨inner, next⟩, hs, hw⟩ := bind_eq_ok.mp hw
  cases pure_eq_ok.mp hw
  cases h
  exact hp _ _ _ (bind_eq_ok.mpr ⟨_, hi, hs⟩)

theorem Flattens.selected {ps : List Predicate} (hp : o.Flattens p) :
    o.Flattens (p.selected ps) := by
  induction ps generalizing p with
  | nil => exact hp
  | cons cond ps ih => exact ih hp.select

theorem Flattens.project {listed : List Attribute} (hp : o.Flattens p) :
    o.Flattens (.project p listed) := by
  intro pass plan pass' h
  obtain ⟨_, hw, h⟩ := bind_eq_ok.mp h
  rw [walk] at hw
  split at hw
  · cases hw
  · obtain ⟨⟨v, mid⟩, hi, hw⟩ := bind_eq_ok.mp hw
    obtain ⟨⟨inner, below⟩, hs, hw⟩ := bind_eq_ok.mp hw
    have hinner : inner.Flat := hp _ _ _ (bind_eq_ok.mpr ⟨_, hi, hs⟩)
    obtain ⟨schema, -, hw⟩ := bind_eq_ok.mp hw
    obtain ⟨keep, -, hw⟩ := bind_eq_ok.mp hw
    dsimp only at hw
    split at hw
    · obtain ⟨projected, he, hw⟩ := bind_eq_ok.mp hw
      cases pure_eq_ok.mp hw
      cases h
      obtain ⟨t, u, -, -, rfl⟩ := Plan.estimateRoot_project.mp he
      exact hinner
    · cases pure_eq_ok.mp hw
      cases h
      exact hinner

theorem flat_of_optimise {c : Catalogue} {q : Query} (h : q.plan c = .ok plan)
    (ho : o.optimise plan = .ok result) : result.Flat := by
  obtain ⟨core, hcore, -, -, rfl⟩ := Query.exists_crossing h
  obtain ⟨last, hv, -⟩ := optimise_eq_ok.mp ho
  have hselected : o.Flattens (core.selected q.conditions) := (flattens_of_crossing hcore).selected
  unfold Query.projected at hv
  split at hv
  · exact hselected _ _ _ hv
  · exact hselected.project _ _ _ hv

end Optimiser
end QueryPlan
