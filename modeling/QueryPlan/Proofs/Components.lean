import QueryPlan.Proofs.Factors
import QueryPlan.Proofs.Pushdown
import Mathlib.Combinatorics.SimpleGraph.Connectivity.Connected
import Mathlib.SetTheory.Cardinal.Finite

/-! Products only where nothing connects. The equalities of a query link its relations; a factor of
the optimised plan covers one connected component of that graph. Joins, which link the relations of
their operands, hold a factor together; and an equality between two factors would have found no
place. -/

namespace QueryPlan
open Outcome

/-- Vertices are in one component when a map that is constant along edges takes them to one value,
and then the components are as many as the values. -/
theorem card_connectedComponent {V : Type} {G : SimpleGraph V} {n : Nat} (f : V → Fin n)
    (hs : Function.Surjective f) (ha : ∀ v w, G.Adj v w → f v = f w)
    (hr : ∀ v w, f v = f w → G.Reachable v w) : Nat.card G.ConnectedComponent = n := by
  have hwalk : ∀ v w (_ : G.Walk v w), f v = f w := by
    intro v w walk
    induction walk with
    | nil => rfl
    | cons hadj _ ih => exact (ha _ _ hadj).trans ih
  have hbijective : Function.Bijective
      (SimpleGraph.ConnectedComponent.lift f fun v w walk _ => hwalk v w walk) := by
    constructor
    · refine SimpleGraph.ConnectedComponent.ind₂ ?_
      intro v w hvw
      exact SimpleGraph.ConnectedComponent.sound (hr v w hvw)
    · intro i
      obtain ⟨v, hv⟩ := hs i
      exact ⟨G.connectedComponentMk v, hv⟩
  rw [Nat.card_eq_of_bijective _ hbijective, Nat.card_fin]

namespace Query
variable {q : Query} {c : Catalogue} {t u : String}

def Linked (q : Query) (c : Catalogue) (t u : String) : Prop :=
  ∃ a b, .join a b ∈ q.conditions ∧ (c.Declares [t] a.name ∧ c.Declares [u] b.name ∨
    c.Declares [u] a.name ∧ c.Declares [t] b.name)

theorem Linked.symm (h : q.Linked c t u) : q.Linked c u t := by
  obtain ⟨a, b, hm, hd⟩ := h
  exact ⟨a, b, hm, hd.symm⟩

def joinGraph (q : Query) (c : Catalogue) : SimpleGraph {t // t ∈ q.relations} where
  Adj t u := t ≠ u ∧ q.Linked c t u
  symm := ⟨fun _ _ h => ⟨h.1.symm, h.2.symm⟩⟩
  loopless := ⟨fun _ h => h.1 rfl⟩

end Query

namespace Plan
variable {q : Query} {c : Catalogue} {p i f g l r : Plan} {cond : Predicate} {t u : String}

theorem Consistent.declares_of_conditions (h : p.Consistent)
    (hs : ∀ s ∈ p.scans, c.find? s.name = some s) (hd : c.Separate p.baseRelations)
    (hm : cond ∈ p.conditions) : ∀ a ∈ cond.attributes, c.Declares p.baseRelations a.name := by
  intro x hx
  rcases List.mem_append.mp (p.conditions_perm.mem_iff.mp hm) with hm | hm
  · obtain ⟨i, out, hm⟩ := mem_selections_iff.mp hm
    have hi := mem_subplans_of_mem_children hm List.mem_cons_self
    exact (h.declares_of_select hs hd hm x hx).mono (baseRelations_sublist hi).subset
  · obtain ⟨l, r, out, hm⟩ := mem_joins_iff.mp hm
    obtain ⟨hl, hr⟩ := operands_mem hm
    obtain ⟨a, b, rfl, ha, hb⟩ := h.declares_of_join hs hd hm
    rcases List.mem_pair.mp hx with rfl | rfl
    · exact ha.mono (baseRelations_sublist hl).subset
    · exact hb.mono (baseRelations_sublist hr).subset

/-- The plan is estimated, scans the query's relations as they are registered, and applies the
query's conditions, an equality as written or turned. -/
structure Answers (c : Catalogue) (q : Query) (p : Plan) : Prop where
  consistent : p.Consistent
  registered : ∀ s ∈ p.scans, c.find? s.name = some s
  separate : c.Separate p.baseRelations
  nodup : p.baseRelations.Nodup
  mem_iff : ∀ t, t ∈ p.baseRelations ↔ t ∈ q.relations
  applied : Predicate.Matches q.conditions p.conditions

namespace Answers
variable (h : p.Answers c q)
include h

theorem exists_factor (ht : t ∈ q.relations) :
    ∃ j : Fin p.factors.length, t ∈ p.factors[j].baseRelations := by
  have hbelow := (h.mem_iff t).mpr ht
  rw [← factors_baseRelations] at hbelow
  obtain ⟨f, hf, htf⟩ := List.mem_flatMap.mp hbelow
  obtain ⟨j, hj, rfl⟩ := List.getElem_of_mem hf
  exact ⟨⟨j, hj⟩, htf⟩

theorem factor_unique {j k : Fin p.factors.length} (hj : t ∈ p.factors[j].baseRelations)
    (hk : t ∈ p.factors[k].baseRelations) : j = k := by
  have hnodup := h.nodup
  rw [← factors_baseRelations, List.nodup_flatMap] at hnodup
  have hdisjoint := List.pairwise_iff_getElem.mp hnodup.2
  rcases Nat.lt_trichotomy j k with hlt | heq | hlt
  · exact absurd hk (hdisjoint j k j.isLt k.isLt hlt hj)
  · exact Fin.ext heq
  · exact absurd hj (hdisjoint k j k.isLt j.isLt hlt hk)

theorem exists_common_factor (hl : q.Linked c t u) (ht : t ∈ q.relations) (hu : u ∈ q.relations) :
    ∃ j : Fin p.factors.length,
      t ∈ p.factors[j].baseRelations ∧ u ∈ p.factors[j].baseRelations := by
  obtain ⟨a, b, hm, hd⟩ := hl
  obtain ⟨cond, hcond, hturned⟩ :=
    Multiset.exists_mem_of_rel_of_mem h.applied (Multiset.mem_coe.mpr hm)
  rw [Multiset.mem_coe, ← factors_conditions] at hcond
  obtain ⟨f, hf, hcond⟩ := List.mem_flatMap.mp hcond
  have hsub := factors_subset p hf
  have hbelow := baseRelations_sublist hsub
  have hscans := (scans_sublist hsub).subset
  have hdeclared := (h.consistent.of_mem hsub).declares_of_conditions
    (fun s hs => h.registered s (hscans hs)) (h.separate.sublist hbelow) hcond
  -- the factor declares what the equality reads, and only one relation of the plan does
  have hmem : ∀ x ∈ [a, b], ∀ r ∈ q.relations, c.Declares [r] x.name → r ∈ f.baseRelations := by
    intro x hx r hr hrx
    have hfx := hdeclared x (hturned.mem_attributes.mp hx)
    exact h.separate.mem_of_declares ((h.mem_iff r).mpr hr) hbelow.subset hrx hfx
  have hboth : t ∈ f.baseRelations ∧ u ∈ f.baseRelations := by
    have ha : a ∈ [a, b] := List.mem_cons_self
    have hb : b ∈ [a, b] := List.mem_pair.mpr (.inr rfl)
    rcases hd with ⟨hta, hub⟩ | ⟨hua, htb⟩
    · exact ⟨hmem a ha t ht hta, hmem b hb u hu hub⟩
    · exact ⟨hmem b hb t ht htb, hmem a ha u hu hua⟩
  obtain ⟨j, hj, rfl⟩ := List.getElem_of_mem hf
  exact ⟨⟨j, hj⟩, hboth⟩

theorem exists_linked {out : Option Relation} (hm : .join l r cond out ∈ p.subplans) :
    ∃ x ∈ l.baseRelations, ∃ y ∈ r.baseRelations, q.Linked c x y := by
  have hcond : cond ∈ p.conditions :=
    p.conditions_perm.mem_iff.mpr (List.mem_append_right _ (mem_joins_iff.mpr ⟨l, r, out, hm⟩))
  obtain ⟨original, horiginal, hturned⟩ :=
    Multiset.exists_mem_of_rel_of_mem (Multiset.rel_flip.mpr h.applied) (Multiset.mem_coe.mpr hcond)
  rw [Multiset.mem_coe] at horiginal
  obtain ⟨a, b, rfl, ⟨x, hx, hxa⟩, y, hy, hyb⟩ :=
    h.consistent.declares_of_join h.registered h.separate hm
  have hxa : c.Declares [x] a.name := ⟨x, List.mem_singleton.mpr rfl, hxa⟩
  have hyb : c.Declares [y] b.name := ⟨y, List.mem_singleton.mpr rfl, hyb⟩
  refine ⟨x, hx, y, hy, ?_⟩
  cases hturned with
  | same => exact ⟨a, b, horiginal, .inl ⟨hxa, hyb⟩⟩
  | exchanged => exact ⟨b, a, horiginal, .inr ⟨hyb, hxa⟩⟩

theorem reachable (hi : i ∈ p.subplans) (hz : i.products = 0) (ht : t ∈ i.baseRelations)
    (hu : u ∈ i.baseRelations) (htq : t ∈ q.relations) (huq : u ∈ q.relations) :
    (q.joinGraph c).Reachable ⟨t, htq⟩ ⟨u, huq⟩ := by
  induction i generalizing t u with
  | scan s o =>
    obtain rfl := List.mem_singleton.mp ht
    obtain rfl := List.mem_singleton.mp hu
    exact .refl _
  | select j d o ih =>
    exact ih (mem_subplans_of_mem_children hi List.mem_cons_self) hz ht hu htq huq
  | project j as o ih =>
    exact ih (mem_subplans_of_mem_children hi List.mem_cons_self) hz ht hu htq huq
  | product l r o _ _ => cases hz
  | join l r d o ihl ihr =>
    obtain ⟨hl, hr⟩ := operands_mem hi
    obtain ⟨hzl, hzr⟩ := Nat.add_eq_zero_iff.mp hz
    obtain ⟨x, hx, y, hy, hxy⟩ := h.exists_linked hi
    have hxq := (h.mem_iff x).mp ((baseRelations_sublist hl).subset hx)
    have hyq := (h.mem_iff y).mp ((baseRelations_sublist hr).subset hy)
    have hlink : (q.joinGraph c).Reachable ⟨x, hxq⟩ ⟨y, hyq⟩ := by
      by_cases hne : x = y
      · subst hne
        exact .refl _
      · exact SimpleGraph.Adj.reachable ⟨fun e => hne (congrArg Subtype.val e), hxy⟩
    -- from the left operand to the right one the way leads over the link
    have hcross : ∀ t ∈ l.baseRelations, ∀ u ∈ r.baseRelations, ∀ htq huq,
        (q.joinGraph c).Reachable ⟨t, htq⟩ ⟨u, huq⟩ := by
      intro t ht u hu htq huq
      exact (ihl hl hzl ht hx htq hxq).trans (hlink.trans (ihr hr hzr hy hu hyq huq))
    rcases List.mem_append.mp ht with ht | ht
    · rcases List.mem_append.mp hu with hu | hu
      · exact ihl hl hzl ht hu htq huq
      · exact hcross t ht u hu htq huq
    · rcases List.mem_append.mp hu with hu | hu
      · exact (hcross u hu t ht huq htq).symm
      · exact ihr hr hzr ht hu htq huq

theorem not_linked {out : Option Relation} (hf : p.Flat) (hm : .product l r out ∈ p.subplans)
    (ht : t ∈ l.baseRelations) (hu : u ∈ r.baseRelations) : ¬ q.Linked c t u := by
  intro hlinked
  have hsub := baseRelations_sublist hm
  have htq := (h.mem_iff t).mp (hsub.subset (List.mem_append_left _ ht))
  have huq := (h.mem_iff u).mp (hsub.subset (List.mem_append_right _ hu))
  obtain ⟨j, htj, huj⟩ := h.exists_common_factor hlinked htq huq
  -- the factor that has `t` is one of the left operand's, so `u` is on both sides
  rw [← factors_baseRelations] at ht
  obtain ⟨g, hg, htg⟩ := List.mem_flatMap.mp ht
  obtain ⟨k, hk, hgk⟩ := List.getElem_of_mem (hf.factors_subset hm (List.mem_append_left _ hg))
  have hjk : j = ⟨k, hk⟩ := h.factor_unique htj (by rwa [← hgk] at htg)
  subst hjk
  have hul : u ∈ l.baseRelations := by
    rw [← factors_baseRelations]
    exact List.mem_flatMap.mpr ⟨g, hg, hgk ▸ huj⟩
  have hnodup : (l.baseRelations ++ r.baseRelations).Nodup := h.nodup.sublist hsub
  exact (List.nodup_append.mp hnodup).2.2 u hul u hu rfl

/-- The factors of a flat plan are the components of the join graph. -/
theorem card_components (hf : p.Flat) :
    Nat.card (q.joinGraph c).ConnectedComponent = p.products + 1 := by
  have hfactor : ∀ v : {t // t ∈ q.relations}, ∃ j : Fin p.factors.length,
      v.val ∈ p.factors[j].baseRelations := fun v => h.exists_factor v.property
  choose home hhome using hfactor
  rw [hf.products_eq]
  apply card_connectedComponent home
  · intro j
    obtain ⟨t, ht⟩ := List.exists_mem_of_ne_nil _ p.factors[j].baseRelations_ne_nil
    have hsub := factors_subset p (List.getElem_mem j.isLt)
    have htq := (h.mem_iff t).mp ((baseRelations_sublist hsub).subset ht)
    exact ⟨⟨t, htq⟩, h.factor_unique (hhome _) ht⟩
  · rintro v w ⟨-, hlinked⟩
    obtain ⟨j, hv, hw⟩ := h.exists_common_factor hlinked v.property w.property
    rw [h.factor_unique (hhome v) hv, h.factor_unique (hhome w) hw]
  · intro v w hvw
    have hmem : p.factors[home v] ∈ p.factors := List.getElem_mem _
    have hw : w.val ∈ p.factors[home v].baseRelations := by simpa only [hvw] using hhome w
    exact h.reachable (factors_subset p hmem) (hf _ hmem) (hhome v) hw _ _

end Answers
end Plan

namespace Optimiser
variable {o : Optimiser} {q : Query} {plan result : Plan}

theorem answers_of_optimise (h : q.plan o.catalogue = .ok plan)
    (hd : o.catalogue.Separate q.relations) (ho : o.optimise plan = .ok result) :
    result.Answers o.catalogue q := by
  obtain ⟨pass, hr, hp⟩ := optimise_rewrites ho
  have hgrown := Query.plan_grown h
  have hperm : q.relations.Perm result.baseRelations := by
    rw [← hgrown.baseRelations]
    exact hr.baseRelations_perm.symm
  have hmatches := hr.matches
  rw [Visited.fragments, applied_ofPlan, hp, List.append_nil, Query.selections_of_plan h,
    show Pass.initial.pending = [] from rfl, List.append_nil] at hmatches
  exact {
    consistent := consistent_of_optimise ho
    registered := registered_ofPlan.mp hr.registered
    separate := hd.perm hperm
    nodup := hr.baseRelations_perm.symm.nodup hgrown.canonical.baseRelations_nodup
    mem_iff := fun t => hperm.symm.mem_iff
    applied := (Predicate.matches_of_perm (List.reverse_perm _).symm).trans hmatches }

/-- The optimised plan of a query over relations without common attribute names multiplies only what
no equality links: no product has two linked relations on its two sides, and there is one product
fewer than the join graph has components. -/
theorem optimise_products {c : Catalogue} (h : q.plan c = .ok plan) (hd : c.Separate q.relations)
    (early : Bool) : ∃ result, (⟨c, early⟩ : Optimiser).optimise plan = .ok result ∧
      (∀ l r out, .product l r out ∈ result.subplans →
        ∀ t ∈ l.baseRelations, ∀ u ∈ r.baseRelations, ¬ q.Linked c t u) ∧
      result.products + 1 = Nat.card (q.joinGraph c).ConnectedComponent := by
  have hgrown := Query.plan_grown h
  obtain ⟨result, ho⟩ :=
    optimise_orderly (o := ⟨c, early⟩) hgrown.canonical.orderly hgrown.not_stray
  have hanswers : result.Answers c q := answers_of_optimise h hd ho
  have hflat := flat_of_optimise h ho
  refine ⟨result, ho, ?_, ?_⟩
  · intro l r out hm t ht u hu
    exact hanswers.not_linked hflat hm ht hu
  · exact (hanswers.card_components hflat).symm

theorem optimise_products_sample :
    (∃ result, (⟨.sample, true⟩ : Optimiser).optimise .sample = .ok result ∧ result.products = 0 ∧
      Nat.card ((⟨some ["LNAME"], ["Employee", "Works_On"],
        [.join (.named "SSN") (.named "ESSN"), .value (.named "PNO") "3"]⟩ :
          Query).joinGraph .sample).ConnectedComponent = 1) ∧
      ∃ plan result, (⟨none, ["Employee", "Works_On"], []⟩ : Query).plan .sample = .ok plan ∧
        (⟨.sample, false⟩ : Optimiser).optimise plan = .ok result ∧ result.products = 1 ∧
        Nat.card ((⟨none, ["Employee", "Works_On"], []⟩ :
          Query).joinGraph .sample).ConnectedComponent = 2 := by
  have hq : (⟨some ["LNAME"], ["Employee", "Works_On"],
      [.join (.named "SSN") (.named "ESSN"), .value (.named "PNO") "3"]⟩ : Query).plan .sample =
        .ok .sample := rfl
  have hd : Catalogue.sample.Separate ["Employee", "Works_On"] :=
    Plan.separate_of_scans (p := .sample) (by decide) (by decide)
  constructor
  · obtain ⟨result, ho, hz⟩ : ∃ result,
        (⟨.sample, true⟩ : Optimiser).optimise .sample = .ok result ∧ result.products = 0 :=
      ⟨_, rfl, by decide⟩
    obtain ⟨_, ho', -, hcard⟩ := optimise_products hq hd true
    cases ho.symm.trans ho'
    exact ⟨result, ho, hz, by rw [← hcard, hz]⟩
  · obtain ⟨plan, result, hq', ho, hz⟩ : ∃ plan result,
        (⟨none, ["Employee", "Works_On"], []⟩ : Query).plan .sample = .ok plan ∧
          (⟨.sample, false⟩ : Optimiser).optimise plan = .ok result ∧ result.products = 1 :=
      ⟨_, _, rfl, rfl, by decide⟩
    obtain ⟨_, ho', -, hcard⟩ := optimise_products hq' hd false
    cases ho.symm.trans ho'
    exact ⟨plan, result, hq', ho, hz, by rw [← hcard, hz]⟩

end Optimiser
end QueryPlan
