import QueryPlan.Proofs.Pushdown

/-! The sides of products and joins. Fragments stay sorted by their leftmost relations: of two that
are put together the earlier one is the left operand and passes its leftmost relation on. So below
every product and every join the relation that is listed first is the leftmost leaf. -/

namespace QueryPlan
open Outcome

namespace Plan
variable {rank : String → Nat} {p q l r : Plan} {relations : List String}

def leftmost : Plan → String
  | scan s _ => s.name
  | select i _ _ => i.leftmost
  | project i _ _ => i.leftmost
  | product l _ _ => l.leftmost
  | join l _ _ _ => l.leftmost

def LeftFirst (relations : List String) (l r : Plan) : Prop :=
  relations.find? (fun t => decide (t ∈ l.baseRelations ++ r.baseRelations)) = some l.leftmost

theorem head?_baseRelations (p : Plan) : p.baseRelations.head? = some p.leftmost := by
  induction p with
  | scan s o => rfl
  | select i c o ih => exact ih
  | project i as o ih => exact ih
  | product l r o ihl ihr => rw [baseRelations, List.head?_append, ihl, Option.some_or, leftmost]
  | join l r c o ihl ihr => rw [baseRelations, List.head?_append, ihl, Option.some_or, leftmost]

theorem leftmost_mem (p : Plan) : p.leftmost ∈ p.baseRelations :=
  List.mem_of_mem_head? p.head?_baseRelations

theorem leftmost_of_estimateRoot (h : p.estimateRoot = .ok q) : q.leftmost = p.leftmost := by
  obtain ⟨r, -, rfl⟩ := estimateRoot_eq_ok.mp h
  cases p <;> rfl

def Led (rank : String → Nat) (p : Plan) : Prop :=
  ∀ i ∈ p.subplans, ∀ t ∈ i.baseRelations, rank i.leftmost ≤ rank t

theorem led_of_estimateRoot (h : p.estimateRoot = .ok q)
    (hroot : ∀ t ∈ p.baseRelations, rank p.leftmost ≤ rank t)
    (hc : ∀ i ∈ p.children, i.Led rank) : q.Led rank := by
  obtain ⟨r, -, rfl⟩ := estimateRoot_eq_ok.mp h
  refine forall_mem_subplans.mpr ?_
  cases p <;> exact ⟨hroot, hc⟩

theorem Led.root (h : p.Led rank) : ∀ t ∈ p.baseRelations, rank p.leftmost ≤ rank t :=
  h p mem_subplans_self

theorem Led.select {c : Predicate} (h : p.Led rank) (he : (select p c).estimateRoot = .ok q) :
    q.Led rank :=
  led_of_estimateRoot he h.root (List.forall_mem_singleton.mpr h)

theorem Led.project {as : List Attribute} (h : p.Led rank)
    (he : (project p as).estimateRoot = .ok q) : q.Led rank :=
  led_of_estimateRoot he h.root (List.forall_mem_singleton.mpr h)

theorem Led.append (hl : l.Led rank) (hr : r.Led rank) (hlt : rank l.leftmost < rank r.leftmost) :
    ∀ t ∈ l.baseRelations ++ r.baseRelations, rank l.leftmost ≤ rank t := by
  refine List.forall_mem_append.mpr ⟨hl.root, fun t ht => ?_⟩
  exact Nat.le_of_lt (Nat.lt_of_lt_of_le hlt (hr.root t ht))

theorem Led.join {c : Predicate} (hl : l.Led rank) (hr : r.Led rank)
    (hlt : rank l.leftmost < rank r.leftmost) (he : (join l r c).estimateRoot = .ok q) :
    q.Led rank :=
  led_of_estimateRoot he (hl.append hr hlt)
    (List.forall_mem_cons.mpr ⟨hl, List.forall_mem_singleton.mpr hr⟩)

theorem Led.product (hl : l.Led rank) (hr : r.Led rank) (hlt : rank l.leftmost < rank r.leftmost)
    (he : (product l r).estimateRoot = .ok q) : q.Led rank :=
  led_of_estimateRoot he (hl.append hr hlt)
    (List.forall_mem_cons.mpr ⟨hl, List.forall_mem_singleton.mpr hr⟩)

theorem pairwise_idxOf (h : relations.Nodup) :
    relations.Pairwise fun t u => relations.idxOf t < relations.idxOf u := by
  rw [List.pairwise_iff_getElem]
  intro i j hi hj hij
  rwa [h.idxOf_getElem i hi, h.idxOf_getElem j hj]

theorem find?_of_idxOf_le {f : String → Bool} {t : String} (ht : t ∈ relations) (hf : f t = true)
    (hle : ∀ u ∈ relations, f u = true → relations.idxOf t ≤ relations.idxOf u) :
    relations.find? f = some t := by
  induction relations with
  | nil => cases ht
  | cons a rest ih =>
    have hne : ∀ u, f u = true → f a ≠ true → a ≠ u := by
      rintro u hu ha rfl
      exact ha hu
    by_cases ha : f a = true
    · rw [List.find?_cons_of_pos ha]
      by_contra hta
      have hfirst := hle a List.mem_cons_self ha
      rw [List.idxOf_cons_self, List.idxOf_cons_ne _ fun e => hta (congrArg some e)] at hfirst
      cases hfirst
    · have hrest : t ∈ rest := (List.mem_cons.mp ht).resolve_left (hne t hf ha).symm
      rw [List.find?_cons_of_neg ha]
      refine ih hrest fun u hu hfu => ?_
      have hlater := hle u (List.mem_cons_of_mem _ hu) hfu
      rw [List.idxOf_cons_ne _ (hne t hf ha), List.idxOf_cons_ne _ (hne u hfu ha)] at hlater
      exact Nat.le_of_succ_le_succ hlater

end Plan

namespace Optimiser
variable {o : Optimiser} {rank : String → Nat} {pass pass' : Pass} {plan result : Plan}
  {relations : List String}

def leaders (fs : List Fragment) : List String := fs.map (·.plan.leftmost)

/-- The leftmost relations rank higher from fragment to fragment, and lowest within each. -/
structure Ranked (rank : String → Nat) (fs : List Fragment) : Prop where
  ascending : (leaders fs).Pairwise fun t u => rank t < rank u
  led : ∀ f ∈ fs, f.plan.Led rank

theorem Step.leaders_sublist {a b : Cluster} (h : o.Step a b) :
    (leaders b.fragments).Sublist (leaders a.fragments) := by
  cases h with
  | value _ he =>
    simp only [leaders, List.map_append, List.map_cons, Plan.leftmost_of_estimateRoot he]
    exact .refl _
  | equality _ he =>
    simp only [leaders, List.map_append, List.map_cons, Plan.leftmost_of_estimateRoot he]
    exact .refl _
  | narrow _ _ _ _ he =>
    simp only [leaders, List.map_append, List.map_cons, Plan.leftmost_of_estimateRoot he]
    exact .refl _
  | join _ _ he =>
    simp only [leaders, List.map_append, List.map_cons, Plan.leftmost_of_estimateRoot he]
    refine .append_left (.cons_cons _ ?_) _
    exact (List.sublist_cons_self _ _).append_left _
  | product he =>
    simp only [leaders, List.map_cons, Plan.leftmost_of_estimateRoot he]
    exact .cons_cons _ (List.sublist_cons_self _ _)

theorem Step.ranked {a b : Cluster} (h : o.Step a b) (ha : Ranked rank a.fragments) :
    Ranked rank b.fragments := by
  refine ⟨ha.ascending.sublist h.leaders_sublist, ?_⟩
  obtain ⟨hascending, hled⟩ := ha
  cases h with
  | value _ he =>
    simp only [List.forall_mem_append, List.forall_mem_cons] at hled ⊢
    exact ⟨hled.1, hled.2.1.select he, hled.2.2⟩
  | equality _ he =>
    simp only [List.forall_mem_append, List.forall_mem_cons] at hled ⊢
    exact ⟨hled.1, hled.2.1.select he, hled.2.2⟩
  | narrow _ _ _ _ he =>
    simp only [List.forall_mem_append, List.forall_mem_cons] at hled ⊢
    exact ⟨hled.1, hled.2.1.project he, hled.2.2⟩
  | @join _ _ _ _ _ before between after f g plan _ _ he =>
    simp only [List.forall_mem_append, List.forall_mem_cons] at hled ⊢
    obtain ⟨hbefore, hf, hbetween, hg, hafter⟩ := hled
    have hlt : rank f.plan.leftmost < rank g.plan.leftmost := by
      rw [leaders, List.map_append, List.pairwise_append] at hascending
      rw [List.map_cons, List.pairwise_cons] at hascending
      refine hascending.2.1.1 _ (List.mem_map_of_mem ?_)
      exact List.mem_append_right _ List.mem_cons_self
    exact ⟨hbefore, hf.join hg hlt he, hbetween, hafter⟩
  | @product _ after f g plan he =>
    simp only [List.forall_mem_cons] at hled ⊢
    obtain ⟨hf, hg, hafter⟩ := hled
    have hlt : rank f.plan.leftmost < rank g.plan.leftmost := by
      rw [leaders, List.map_cons, List.pairwise_cons] at hascending
      exact hascending.1 _ (List.mem_map_of_mem List.mem_cons_self)
    exact ⟨hf.product hg hlt he, hafter⟩

theorem Steps.ranked {a b : Cluster} (h : o.Steps a b) (ha : Ranked rank a.fragments) :
    Ranked rank b.fragments := h.invariant (fun _ _ hs => hs.ranked) ha

theorem Steps.leaders_sublist {a b : Cluster} (h : o.Steps a b) :
    (leaders b.fragments).Sublist (leaders a.fragments) := by
  induction h with
  | refl => exact .refl _
  | tail _ hs ih => exact hs.leaders_sublist.trans ih

theorem Rewrites.leaders_sublist {v : Visited} (h : o.Rewrites plan pass v pass') :
    (leaders v.fragments).Sublist plan.baseRelations := by
  induction h with
  | scan hr he hs =>
    have hsub := Steps.leaders_sublist hs
    have hname := Catalogue.name_of_find? hr
    simp only [leaders, List.map_cons, List.map_nil, Fragment.ofPlan,
      Plan.leftmost_of_estimateRoot he, Plan.leftmost, hname] at hsub
    exact hsub
  | select _ ih => exact ih
  | project _ _ _ _ he ih =>
    rcases he with ⟨-, he⟩ | ⟨-, rfl⟩
    · simp only [Visited.fragments, leaders, List.map_cons, List.map_nil, Fragment.ofPlan,
        Plan.leftmost_of_estimateRoot he] at ih ⊢
      exact ih
    · exact ih
  | product _ _ ihl ihr =>
    rw [Visited.fragments, leaders, List.map_append]
    exact ihl.append ihr
  | settle _ hs _ ih => exact (Steps.leaders_sublist hs).trans ih

/-- Where the given plan scans relations of ascending rank, the lowest is always leftmost. -/
theorem Rewrites.led {v : Visited} (h : o.Rewrites plan pass v pass')
    (hp : plan.baseRelations.Pairwise fun t u => rank t < rank u) :
    ∀ f ∈ v.fragments, f.plan.Led rank := by
  induction h with
  | @scan s r _ _ _ base _ hr he hs =>
    have hbase : base.Led rank := by
      refine Plan.led_of_estimateRoot he ?_ nofun
      exact List.forall_mem_singleton.mpr (Nat.le_refl _)
    have hranked : Ranked rank [.ofPlan base] :=
      ⟨List.pairwise_singleton _ _, List.forall_mem_singleton.mpr hbase⟩
    exact (Steps.ranked hs hranked).led
  | select _ ih => exact ih hp
  | project _ _ _ _ he ih =>
    have hinner := List.forall_mem_singleton.mp (ih hp)
    rcases he with ⟨-, he⟩ | ⟨-, rfl⟩
    · exact List.forall_mem_singleton.mpr (hinner.project he)
    · exact ih hp
  | product _ _ ihl ihr =>
    rw [Plan.baseRelations, List.pairwise_append] at hp
    exact List.forall_mem_append.mpr ⟨ihl hp.1, ihr hp.2.1⟩
  | settle hi hs _ ih =>
    have hranked : Ranked rank _ := ⟨hp.sublist hi.leaders_sublist, ih hp⟩
    exact (Steps.ranked hs hranked).led

/-- In an optimised plan of a front end the relation that is listed first is the leftmost leaf, of
the whole plan and of whatever is below a product or a join. The left attribute of a join's
predicate is in the left operand's output and the right one in the right operand's. -/
theorem optimise_sides (h : plan.BuiltFrom o.catalogue relations)
    (ho : o.optimise plan = .ok result) :
    relations.head? = some result.leftmost ∧
      (∀ l r out, .product l r out ∈ result.subplans → Plan.LeftFirst relations l r) ∧
      ∀ l r p out, .join l r p out ∈ result.subplans → Plan.LeftFirst relations l r ∧
        ∃ a b left right, p = .join a b ∧ l.output? = some left ∧ r.output? = some right ∧
          a.name ∈ left.names ∧ b.name ∈ right.names := by
  obtain ⟨pass, hr, -⟩ := optimise_rewrites ho
  have hperm := hr.baseRelations_perm
  have hnodup := h.built.canonical.baseRelations_nodup
  rw [h.baseRelations_eq] at hperm hnodup
  have hascending : plan.baseRelations.Pairwise fun t u =>
      relations.idxOf t < relations.idxOf u := by
    rw [h.baseRelations_eq]
    exact Plan.pairwise_idxOf hnodup
  have hled := hr.led hascending (.ofPlan result) (List.mem_singleton.mpr rfl)
  -- every node scans some of the relations, and its leftmost leaf ranks lowest among them
  have hfirst : ∀ i ∈ result.subplans,
      relations.find? (fun t => decide (t ∈ i.baseRelations)) = some i.leftmost := by
    intro i hi
    apply Plan.find?_of_idxOf_le
    · exact hperm.subset ((Plan.baseRelations_sublist hi).subset i.leftmost_mem)
    · exact decide_eq_true i.leftmost_mem
    · intro u _ hu
      exact hled i hi u (of_decide_eq_true hu)
  refine ⟨?_, ?_, ?_⟩
  · have hroot := hfirst result Plan.mem_subplans_self
    cases relations with
    | nil => cases hroot
    | cons t rest =>
      have ht : t ∈ result.baseRelations := hperm.symm.subset List.mem_cons_self
      rwa [List.find?_cons_of_pos (by exact decide_eq_true ht)] at hroot
  · intro l r out hm
    exact hfirst _ hm
  · intro l r p out hm
    refine ⟨hfirst _ hm, ?_⟩
    cases (consistent_of_optimise ho).of_mem hm with
    | join _ _ ht hu hs =>
      obtain ⟨-, a, b, rfl, ha, hb⟩ := Estimate.join_eq_ok hs
      exact ⟨a, b, _, _, rfl, ht, hu, ha, hb⟩

theorem optimise_sides_sample : ∃ result l r out,
    (⟨.sample, true⟩ : Optimiser).optimise .sample = .ok result ∧
      .join l r (.join (.named "ESSN") (.named "SSN")) out ∈ result.subplans ∧
      result.leftmost = "Employee" ∧ Plan.LeftFirst ["Employee", "Works_On"] l r ∧
      ∃ a b left right, Predicate.join (.named "ESSN") (.named "SSN") = .join a b ∧
        l.output? = some left ∧ r.output? = some right ∧ a.name ∈ left.names ∧
          b.name ∈ right.names := by
  have hq : (⟨some ["LNAME"], ["Employee", "Works_On"],
      [.join (.named "SSN") (.named "ESSN"), .value (.named "PNO") "3"]⟩ : Query).plan .sample =
        .ok .sample := rfl
  obtain ⟨result, ho, hm⟩ : ∃ result, (⟨.sample, true⟩ : Optimiser).optimise .sample = .ok result ∧
      .join (.named "ESSN") (.named "SSN") ∈ result.joins := ⟨_, rfl, by decide⟩
  obtain ⟨l, r, out, hm⟩ := Plan.mem_joins_iff.mp hm
  obtain ⟨hhead, -, hjoins⟩ := optimise_sides (.query hq) ho
  obtain ⟨hfirst, hsides⟩ := hjoins l r _ out hm
  exact ⟨result, l, r, out, ho, hm, (Option.some.inj hhead).symm, hfirst, hsides⟩

end Optimiser
end QueryPlan
