import QueryPlan.Proofs.Ambiguity
import QueryPlan.Proofs.Shape

/-! Where predicates come to stand. A scan takes all that it can of what waits when it is visited: the
comparisons with literals first, before anything is narrowed, and then the equalities of its own
attributes. What still waits after a visit can therefore not be applied to one visited relation
alone, so neither joins nor the selections among them get hold of such a predicate. -/

namespace QueryPlan
open Outcome

namespace Catalogue.Separate
variable {c : Catalogue} {rs ts : List String} {r t n : String}

theorem eq_of_declares (h : c.Separate rs) (hr : r ∈ rs) (ht : t ∈ rs) (hrn : c.Declares [r] n)
    (htn : c.Declares [t] n) : r = t := by
  by_contra hne
  have hsymm : Std.Symm fun r t => ∀ n, c.Declares [r] n → ¬ c.Declares [t] n :=
    ⟨fun r t hrt n ht hr => hrt n hr ht⟩
  exact List.Pairwise.forall h hr ht hne n hrn htn

theorem mem_of_declares (h : c.Separate rs) (hr : r ∈ rs) (hs : ts ⊆ rs) (hrn : c.Declares [r] n)
    (hts : c.Declares ts n) : r ∈ ts := by
  obtain ⟨t, ht, hd⟩ := hts
  have htn : c.Declares [t] n := ⟨t, List.mem_singleton.mpr rfl, hd⟩
  exact h.eq_of_declares hr (hs ht) hrn htn ▸ ht

end Catalogue.Separate

namespace Plan
variable {c : Catalogue} {p q i : Plan} {cond : Predicate} {Q : Plan → Predicate → Prop}
  {relations : List String}

/-- Plans of the front ends with the relations they scan, in the order of the query or the steps. -/
inductive BuiltFrom (c : Catalogue) : List String → Plan → Prop
  | query {q : Query} {p : Plan} (h : q.plan c = .ok p) : BuiltFrom c q.relations p
  | steps {steps : List QueryPlan.Step} {p : Plan} (h : ofSteps c steps = .ok p) :
      BuiltFrom c (Step.scanned steps) p

theorem BuiltFrom.built (h : p.BuiltFrom c relations) : p.Built c := by
  cases h with
  | query h => exact .query h
  | steps h => exact .steps h

theorem BuiltFrom.baseRelations_eq (h : p.BuiltFrom c relations) : p.baseRelations = relations := by
  cases h with
  | query h => exact (Query.plan_grown h).baseRelations
  | steps h => exact baseRelations_ofSteps h

def floor? : Plan → Option NamedRelation
  | scan s _ => some s
  | select i (.value ..) _ => i.floor?
  | _ => none

theorem baseRelations_of_floor {s : NamedRelation} (h : p.floor? = some s) :
    p.baseRelations = [s.name] := by
  induction p with
  | scan t out =>
    cases h
    rfl
  | select i cond out ih =>
    cases cond with
    | value l v => exact ih h
    | join l r => cases h
  | _ => cases h

def Selects (Q : Plan → Predicate → Prop) (p : Plan) : Prop :=
  ∀ i cond out, .select i cond out ∈ p.subplans → Q i cond

theorem selects_iff : p.Selects Q ↔
    (∀ i cond out, p = .select i cond out → Q i cond) ∧ ∀ j ∈ p.children, j.Selects Q := by
  have hnodes : ∀ p : Plan, p.Selects Q ↔
      ∀ node ∈ p.subplans, ∀ i cond out, node = .select i cond out → Q i cond := by
    intro p
    constructor
    · rintro h _ hn i cond out rfl
      exact h i cond out hn
    · exact fun h i cond out hn => h _ hn i cond out rfl
  simp only [hnodes]
  exact forall_mem_subplans

theorem selects_of_estimateRoot (h : p.estimateRoot = .ok q)
    (hroot : ∀ i cond out, p = .select i cond out → Q i cond)
    (hc : ∀ j ∈ p.children, j.Selects Q) : q.Selects Q := by
  obtain ⟨r, -, rfl⟩ := estimateRoot_eq_ok.mp h
  refine selects_iff.mpr ?_
  cases p with
  | select i cond out =>
    refine ⟨fun j c o hj => ?_, hc⟩
    cases hj
    exact hroot i cond out rfl
  | _ => exact ⟨nofun, hc⟩

theorem Selects.mono {Q' : Plan → Predicate → Prop} (h : p.Selects Q)
    (hq : ∀ i cond, cond ∈ p.selections → Q i cond → Q' i cond) : p.Selects Q' :=
  fun i cond out hm => hq i cond (mem_selections_iff.mpr ⟨i, out, hm⟩) (h i cond out hm)

namespace Consistent
variable {l r : Plan} {out : Option Relation} {t n : String}

theorem mem_baseRelations_of_select (h : p.Consistent)
    (hs : ∀ s ∈ p.scans, c.find? s.name = some s) (hd : c.Separate p.baseRelations)
    (hm : .select i cond out ∈ p.subplans) (ht : t ∈ p.baseRelations)
    (hlocal : cond.LocalTo c t) : t ∈ i.baseRelations := by
  have hi := mem_subplans_of_mem_children hm List.mem_cons_self
  have hdeclared := h.declares_of_select hs hd hm cond.left cond.left_mem_attributes
  exact hd.mem_of_declares ht (baseRelations_sublist hi).subset
    (hlocal cond.left cond.left_mem_attributes) hdeclared

theorem not_localTo_of_join (h : p.Consistent) (hs : ∀ s ∈ p.scans, c.find? s.name = some s)
    (hd : c.Separate p.baseRelations) (hm : .join l r cond out ∈ p.subplans)
    (ht : t ∈ p.baseRelations) : ¬ cond.LocalTo c t := by
  intro hlocal
  obtain ⟨hl, hr⟩ := operands_mem hm
  have hboth : c.Separate (l.baseRelations ++ r.baseRelations) :=
    hd.sublist (baseRelations_sublist hm)
  obtain ⟨a, b, rfl, hla, hrb⟩ := h.declares_of_join hs hd hm
  have hta := hlocal a List.mem_cons_self
  have htb := hlocal b (List.mem_cons_of_mem _ List.mem_cons_self)
  have htl := hd.mem_of_declares ht (baseRelations_sublist hl).subset hta hla
  have htr := hd.mem_of_declares ht (baseRelations_sublist hr).subset htb hrb
  exact hboth.not_declares (hta.mono (List.cons_subset.mpr ⟨htl, List.nil_subset _⟩))
    (hta.mono (List.cons_subset.mpr ⟨htr, List.nil_subset _⟩))

end Consistent
end Plan

namespace Optimiser
open Predicate

variable {o : Optimiser} {pass pass' : Pass} {plan plan' : Plan} {opened : List Attribute}
  {Q : Plan → Predicate → Prop}

theorem selects_of_narrow (hp : plan.Selects Q) (h : o.narrow pass plan = .ok plan') :
    plan'.Selects Q := by
  rcases narrow_cases h with rfl | ⟨_, _, -, -, -, -, he⟩
  · exact hp
  · exact Plan.selects_of_estimateRoot he nofun (List.forall_mem_singleton.mpr hp)

theorem Move.selects {a b : Cluster} (h : o.Move a b)
    (hq : ∀ p ∈ a.pass.joins, ∀ f ∈ a.fragments, Q f.plan p)
    (ha : ∀ f ∈ a.fragments, f.plan.Selects Q) : ∀ f ∈ b.fragments, f.plan.Selects Q := by
  cases h with
  | @select pass xs ys p before after f selected plan hp hs hn =>
    simp only [List.forall_mem_append, List.forall_mem_cons] at ha ⊢
    have hplan : selected.Selects Q := by
      refine Plan.selects_of_estimateRoot hs ?_ (List.forall_mem_singleton.mpr ha.2.1)
      rintro _ _ _ ⟨⟩
      refine hq p ?_ f (List.mem_append_right _ List.mem_cons_self)
      exact hp ▸ List.mem_append_right _ List.mem_cons_self
    exact ⟨ha.1, selects_of_narrow hplan hn, ha.2.2⟩
  | @join pass xs ys p q before between after f g joined plan hp hq' hj hn =>
    simp only [List.forall_mem_append, List.forall_mem_cons] at ha ⊢
    obtain ⟨hbefore, hf, hbetween, hg, hafter⟩ := ha
    have hplan : joined.Selects Q := Plan.selects_of_estimateRoot hj nofun
      (List.forall_mem_cons.mpr ⟨hf, List.forall_mem_singleton.mpr hg⟩)
    exact ⟨hbefore, selects_of_narrow hplan hn, hbetween, hafter⟩
  | product he =>
    simp only [List.forall_mem_cons] at ha ⊢
    obtain ⟨hf, hg, hafter⟩ := ha
    have hplan := Plan.selects_of_estimateRoot (Q := Q) he nofun
      (List.forall_mem_cons.mpr ⟨hf, List.forall_mem_singleton.mpr hg⟩)
    exact ⟨hplan, hafter⟩

theorem Moves.selects {a b : Cluster} (h : o.Moves a b) (hf : Faithful a.fragments)
    (hq : ∀ p ∈ a.pass.joins, ∀ i : Plan, i.baseRelations.Subperm (covered a.fragments) → Q i p)
    (ha : ∀ f ∈ a.fragments, f.plan.Selects Q) : ∀ f ∈ b.fragments, f.plan.Selects Q := by
  have hrun : Faithful b.fragments ∧ b.pass.joins ⊆ a.pass.joins ∧
      (covered b.fragments).Perm (covered a.fragments) ∧ ∀ f ∈ b.fragments, f.plan.Selects Q := by
    refine h.invariant (P := fun c => Faithful c.fragments ∧ c.pass.joins ⊆ a.pass.joins ∧
      (covered c.fragments).Perm (covered a.fragments) ∧ ∀ f ∈ c.fragments, f.plan.Selects Q)
      (fun c d hm hc => ?_) ⟨hf, List.Subset.refl _, .refl _, ha⟩
    obtain ⟨hfaithful, hjoins, hperm, hselects⟩ := hc
    refine ⟨Steps.faithful hm.steps hfaithful,
      List.Subset.trans (Steps.joins_sublist hm.steps).subset hjoins,
      (Steps.covered_perm hm.steps).trans hperm, hm.selects (fun p hp f hf => ?_) hselects⟩
    have hsub : f.relations.Sublist (covered c.fragments) := by
      rw [covered, List.flatMap_def]
      exact List.sublist_flatten_of_mem (List.mem_map_of_mem hf)
    refine hq p (hjoins hp) f.plan ?_
    rw [← hfaithful f hf]
    exact hperm.subperm_left.mp hsub.subperm
  exact hrun.2.2.2

/-- How a selection stands over its input. If it compares with a literal, only such selections are
below it and the scan of the first of the relations that declares the attribute. If one relation
below it declares all that it reads, there is no other. -/
structure Placed (o : Optimiser) (relations : List String) (i : Plan) (p : Predicate) : Prop where
  floor : ∀ l v, p = .value l v → ∃ s, i.floor? = some s ∧
    relations.find? (fun r => o.declares r l) = some s.name
  alone : ∀ r ∈ i.baseRelations, p.LocalTo o.catalogue r → i.baseRelations = [r]

theorem placed_of_isValue_false {relations : List String} {i : Plan} {p : Predicate}
    (hp : p.isValue = false)
    (h : ∀ r ∈ i.baseRelations, p.LocalTo o.catalogue r → i.baseRelations = [r]) :
    o.Placed relations i p := by
  refine ⟨fun l v hv => ?_, h⟩
  subst hv
  cases hp

theorem pushValues_placed {s : NamedRelation} {passed rest : List Predicate}
    (hs : o.catalogue.find? s.name = some s) (hv : ∀ p ∈ rest, p.isValue = true)
    (hf : plan.floor? = some s) (hp : plan.Selects (o.Placed [s.name]))
    (h : pushValues s.relation passed rest pass plan = .ok (plan', pass')) :
    plan'.Selects (o.Placed [s.name]) := by
  induction rest generalizing passed pass plan with
  | nil =>
    cases h
    exact hp
  | cons q rest ih =>
    rw [List.forall_mem_cons] at hv
    rw [pushValues] at h
    split at h
    · next hread =>
      obtain ⟨selected, hsel, h⟩ := bind_eq_ok.mp h
      have hbase := Plan.baseRelations_of_floor hf
      cases q with
      | join l r => cases hv.1
      | value l v =>
        have hdeclares : o.declares s.name l = true :=
          declares_iff.mpr ⟨s, hs, Relation.contains_eq_true.mp hread⟩
        have hplaced : o.Placed [s.name] plan (.value l v) := by
          refine ⟨fun l' v' heq => ⟨s, hf, ?_⟩, fun r hr _ => ?_⟩
          · cases heq
            exact List.find?_cons_of_pos hdeclares
          · rw [hbase] at hr ⊢
            rw [List.mem_singleton.mp hr]
        have hselects : selected.Selects (o.Placed [s.name]) := by
          refine Plan.selects_of_estimateRoot hsel ?_ (List.forall_mem_singleton.mpr hp)
          rintro _ _ _ ⟨⟩
          exact hplaced
        have hfloor : selected.floor? = some s := by
          obtain ⟨t, u, -, -, rfl⟩ := Plan.estimateRoot_select.mp hsel
          exact hf
        exact ih hv.2 hfloor hselects h
    · exact ih hv.2 hf hp h

theorem placed_scan {s r : NamedRelation} {base valued equated : Plan} {mid : Pass}
    (ha : pass.Accounted opened) (hr : o.catalogue.find? s.name = some r)
    (hb : (Plan.scan r).estimateRoot = .ok base)
    (hv : pushValues r.relation [] pass.values pass base = .ok (valued, mid))
    (hm : o.Moves ⟨[⟨[s.name], valued⟩], mid⟩ ⟨[⟨[s.name], equated⟩], pass'⟩)
    (hn : o.narrow pass' equated = .ok plan) : plan.Selects (o.Placed [s.name]) := by
  have hname := Catalogue.name_of_find? hr
  have hvalued : valued.Selects (o.Placed [s.name]) := by
    rw [← hname] at hr ⊢
    cases hb
    refine pushValues_placed hr ha.isValue_of_mem_values rfl (fun i c out hi => ?_) hv
    cases List.mem_singleton.mp hi
  have hbase : base.baseRelations = [s.name] := by
    rw [baseRelations_of_estimateRoot hb, Plan.baseRelations, hname]
  obtain ⟨hsteps, -⟩ := pushValues_steps (o := o) [s.name] (List.nil_append _).symm (by simp) hv
  have hfaithful : Faithful [⟨[s.name], valued⟩] :=
    Steps.faithful hsteps (List.forall_mem_singleton.mpr hbase.symm)
  have hmid := Steps.accounted hsteps ha
  -- the remaining selections are over plans of the one relation
  have hequated : equated.Selects (o.Placed [s.name]) := by
    refine hm.selects hfaithful (fun p hp i hi => ?_) (List.forall_mem_singleton.mpr hvalued)
      ⟨[s.name], equated⟩ (List.mem_singleton.mpr rfl)
    have honly : i.baseRelations = [s.name] :=
      (List.subperm_singleton_iff.mp hi).resolve_left i.baseRelations_ne_nil
    refine placed_of_isValue_false (hmid.isValue_of_mem_joins p hp) fun t ht _ => ?_
    rw [honly] at ht ⊢
    rw [List.mem_singleton.mp ht]
  exact selects_of_narrow hequated hn

theorem Visits.not_declares_left {left right : Plan} {out : Option Relation} {mid : Pass}
    {v w : Visited} {l : Attribute} {literal : String} (hl : o.Visits left pass v mid)
    (hr : o.Visits right mid w pass') (hi : (Plan.product left right out).Orderly o.catalogue)
    (ha : pass.Accounted opened) (hp : .value l literal ∈ applied w.fragments) :
    ¬ o.catalogue.Declares left.baseRelations l.name := by
  have hmid := hl.rewrites.accounted ha
  obtain ⟨p, hm, ht⟩ := Multiset.exists_mem_of_rel_of_mem
    (Multiset.rel_flip.mpr hr.rewrites.matches) (Multiset.mem_coe.mpr (List.mem_append_left _ hp))
  cases ht
  rcases List.mem_append.mp (Multiset.mem_coe.mp hm) with hm | hm
  · refine hi.2.2 _ (List.mem_append_left _ (Predicate.mem_reads.mpr ⟨_, hm, l, ?_, rfl⟩))
    exact List.mem_singleton.mpr rfl
  · rcases List.mem_append.mp hm with hm | hm
    · exact hl.rewrites.values_drained hi.1 ha _ hm
    · cases hmid.isValue_of_mem_joins _ hm

theorem Visits.placed {input : Plan} {v : Visited} (h : o.Visits input pass v pass')
    (hi : input.Orderly o.catalogue) (ha : pass.Accounted opened) :
    ∀ f ∈ v.fragments, f.plan.Selects (o.Placed input.baseRelations) := by
  induction h generalizing opened with
  | scan hr hb hv hm _ hn => exact List.forall_mem_singleton.mpr (placed_scan ha hr hb hv hm hn)
  | select _ ih => exact ih hi (ha.defer _)
  | @project input inner _ _ _ _ _ _ _ hl _ _ _ he ih =>
    have hinner := ih hi.2 (ha.acquireListed hl) (.ofPlan inner) (List.mem_singleton.mpr rfl)
    rcases he with ⟨-, he⟩ | ⟨-, rfl⟩
    · exact List.forall_mem_singleton.mpr
        (Plan.selects_of_estimateRoot he nofun (List.forall_mem_singleton.mpr hinner))
    · exact List.forall_mem_singleton.mpr hinner
  | @product left right out pass mid pass' v w hv hw ihl ihr =>
    refine List.forall_mem_append.mpr ⟨fun f hf => ?_, fun f hf => ?_⟩
    · refine (ihl hi.1 ha f hf).mono fun i p _ hp => ⟨fun l literal heq => ?_, hp.alone⟩
      obtain ⟨s, hs, hfind⟩ := hp.floor l literal heq
      refine ⟨s, hs, ?_⟩
      rw [Plan.baseRelations, List.find?_append, hfind, Option.some_or]
    · refine (ihr hi.2.1 (hv.rewrites.accounted ha) f hf).mono fun i p hm hp =>
        ⟨fun l literal heq => ?_, hp.alone⟩
      obtain ⟨s, hs, hfind⟩ := hp.floor l literal heq
      have hcondition : .value l literal ∈ f.plan.conditions :=
        f.plan.conditions_perm.mem_iff.mpr (List.mem_append_left _ (heq ▸ hm))
      have hleft := hv.not_declares_left hw hi ha (List.mem_flatMap.mpr ⟨f, hf, hcondition⟩)
      have hnone : left.baseRelations.find? (fun r => o.declares r l) = none := by
        refine List.find?_eq_none.mpr fun r hr hd => hleft ?_
        obtain ⟨t, ht, hn⟩ := declares_iff.mp hd
        exact ⟨r, hr, t, ht, hn⟩
      refine ⟨s, hs, ?_⟩
      rw [Plan.baseRelations, List.find?_append, hnone, Option.none_or, hfind]
  | @settle input plan pass mid pass' fragments rest hv hm _ hp ih =>
    have hmid := hv.rewrites.accounted ha
    obtain ⟨covers, hproducts⟩ := productAll_moves o pass' hp
    have hmoves : o.Moves ⟨fragments, mid⟩ ⟨[⟨covers, plan⟩], pass'⟩ := hm.trans hproducts
    refine List.forall_mem_singleton.mpr (hmoves.selects hv.rewrites.faithful
      (fun p hp i hsub => ?_) (ih hi ha) ⟨covers, plan⟩ (List.mem_singleton.mpr rfl))
    -- by now nothing that waits is local to a relation of the cluster
    refine placed_of_isValue_false (hmid.isValue_of_mem_joins p hp) fun r hr hlocal => ?_
    have hr := hv.rewrites.covered_perm.subset (hsub.subset hr)
    exact absurd hlocal (hv.rewrites.not_localTo hi ha p (List.mem_append_right _ hp) r hr)

theorem optimise_local {result : Plan} {r : String} {p : Predicate} (hi : plan.Orderly o.catalogue)
    (hs : o.catalogue.Separate plan.baseRelations) (h : o.optimise plan = .ok result)
    (hr : r ∈ plan.baseRelations) (hp : p.LocalTo o.catalogue r) :
    result.selections.count p = plan.selections.count p ∧
      ∀ i out, .select i p out ∈ result.subplans → i.baseRelations = [r] := by
  obtain ⟨pass, hv, hpending⟩ := optimise_visits h
  have hperm := hv.rewrites.baseRelations_perm
  have hconsistent := consistent_of_optimise h
  have hscans := registered_ofPlan.mp hv.rewrites.registered
  have hseparate := hs.perm hperm.symm
  have hmem := hperm.mem_iff.mpr hr
  constructor
  · obtain ⟨js, hsorted, hturned⟩ := hv.rewrites.sorted
    -- what has gone into joins is not local to a relation, so it does not enter the count
    have hnot : p ∉ js := by
      intro hjs
      obtain ⟨q, hq, ht⟩ := Multiset.exists_mem_of_rel_of_mem hturned (Multiset.mem_coe.mpr hjs)
      rw [Visited.fragments, joined_ofPlan, Multiset.mem_coe] at hq
      obtain ⟨left, right, out, hnode⟩ := Plan.mem_joins_iff.mp hq
      refine hconsistent.not_localTo_of_join hscans hseparate hnode hmem fun a ha => ?_
      exact hp a (ht.mem_attributes.mpr ha)
    have hcount := hsorted.count_eq p
    rw [Visited.fragments, selected_ofPlan, hpending] at hcount
    simpa [Pass.pending, Pass.initial, List.count_eq_zero_of_not_mem hnot] using hcount.symm
  · intro i out hnode
    have hplaced := hv.placed hi Pass.accounted_initial (.ofPlan result) (List.mem_singleton.mpr rfl)
    refine (hplaced i p out hnode).alone r ?_ hp
    exact hconsistent.mem_baseRelations_of_select hscans hseparate hnode hmem hp

/-- In the optimised plan of a front end's plan a selection by a comparison with a literal has only
such selections below it and the scan of the first relation, in the order of the front end, that
declares the attribute. If the relations share no attributes, every equality of two attributes of one
relation is selected by where that relation alone is scanned, as often as in the given plan. -/
theorem optimise_pushed {relations : List String} {result : Plan}
    (hb : plan.BuiltFrom o.catalogue relations) (h : o.optimise plan = .ok result) :
    (∀ i l v out, .select i (.value l v) out ∈ result.subplans → ∃ s, i.floor? = some s ∧
      relations.find? (fun r => o.declares r l) = some s.name) ∧
    (o.catalogue.Separate relations → ∀ r ∈ relations, ∀ a b,
      o.catalogue.Declares [r] a.name → o.catalogue.Declares [r] b.name →
        (.join a b ∈ plan.selections →
          ∃ i out, .select i (.join a b) out ∈ result.subplans ∧ i.baseRelations = [r]) ∧
        result.selections.count (.join a b) = plan.selections.count (.join a b) ∧
        ∀ i out, .select i (.join a b) out ∈ result.subplans → i.baseRelations = [r]) := by
  have hi := hb.built.canonical.orderly
  obtain ⟨pass, hv, -⟩ := optimise_visits h
  have hplaced := hv.placed hi Pass.accounted_initial (.ofPlan result) (List.mem_singleton.mpr rfl)
  obtain rfl := hb.baseRelations_eq
  refine ⟨fun i l v out hm => (hplaced i _ out hm).floor l v rfl, ?_⟩
  intro hs r hr a b ha hb
  have hlocal : (Predicate.join a b).LocalTo o.catalogue r :=
    List.forall_mem_cons.mpr ⟨ha, List.forall_mem_singleton.mpr hb⟩
  obtain ⟨hcount, halone⟩ := optimise_local hi hs h hr hlocal
  refine ⟨fun hm => ?_, hcount, halone⟩
  have hselected : .join a b ∈ result.selections := by
    rw [← List.count_pos_iff, hcount]
    exact List.count_pos_iff.mpr hm
  obtain ⟨i, out, hnode⟩ := Plan.mem_selections_iff.mp hselected
  exact ⟨i, out, hnode, halone i out hnode⟩

theorem optimise_pushed_sample : ∃ plan result,
    plan.BuiltFrom .sample ["Employee", "Works_On"] ∧
      (⟨.sample, true⟩ : Optimiser).optimise plan = .ok result ∧
      (∃ i out, .select i (.value (.named "PNO") "3") out ∈ result.subplans ∧
        ∃ s, i.floor? = some s ∧ s.name = "Works_On") ∧
      ∃ i out, .select i (.join (.named "LNAME") (.named "ESSN")) out ∈ result.subplans ∧
        i.baseRelations = ["Employee"] := by
  obtain ⟨plan, result, hq, ho, hlocal, hvalue⟩ : ∃ plan result,
      (⟨none, ["Employee", "Works_On"], [.join (.named "SSN") (.named "ESSN"),
        .join (.named "LNAME") (.named "ESSN"), .value (.named "PNO") "3"]⟩ : Query).plan .sample =
          .ok plan ∧
      (⟨.sample, true⟩ : Optimiser).optimise plan = .ok result ∧
      .join (.named "LNAME") (.named "ESSN") ∈ plan.selections ∧
      .value (.named "PNO") "3" ∈ result.selections := ⟨_, _, rfl, rfl, by decide, by decide⟩
  have hb : plan.BuiltFrom (⟨.sample, true⟩ : Optimiser).catalogue ["Employee", "Works_On"] :=
    .query hq
  have hd : Catalogue.sample.Separate ["Employee", "Works_On"] :=
    Plan.separate_of_scans (p := .sample) (by decide) (by decide)
  have hemployee : ∀ n ∈ ["ESSN", "LNAME"], Catalogue.sample.Declares ["Employee"] n :=
    fun n hn => ⟨"Employee", List.mem_singleton.mpr rfl, _, rfl, hn⟩
  obtain ⟨hvalues, hequalities⟩ := optimise_pushed hb ho
  obtain ⟨i, out, hnode⟩ := Plan.mem_selections_iff.mp hvalue
  obtain ⟨s, hs, hfirst⟩ := hvalues i _ _ out hnode
  have hname : s.name = "Works_On" := (Option.some.inj hfirst).symm
  refine ⟨plan, result, hb, ho, ⟨i, out, hnode, s, hs, hname⟩, ?_⟩
  exact (hequalities hd "Employee" (by simp) _ _ (hemployee _ (by simp [Attribute.named]))
    (hemployee _ (by simp [Attribute.named]))).1 hlocal

end Optimiser
end QueryPlan
