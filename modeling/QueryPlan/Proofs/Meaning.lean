import QueryPlan.Proofs.Evaluation

/-! The meaning of a cluster. The rows that its fragments have together, in the context of any other
bag, seen through the predicates that still wait, stay the same from step to step. Names that
narrowing drops must not be watched, so the view is limited to names that an open projection lists,
as far as the fragments declare them. -/

namespace QueryPlan
open Outcome

variable {V : Type} {c : Catalogue}

namespace Bag
variable {rs ts : List String} {A B : Bag V}

def Within (c : Catalogue) (relations : List String) (A : Bag V) : Prop :=
  ∀ row ∈ A, ∀ n, ¬ c.Declares relations n → row n = none

def Avoids (c : Catalogue) (relations : List String) (A : Bag V) : Prop :=
  ∀ row ∈ A, ∀ n, c.Declares relations n → row n = none

theorem Within.apart (hA : A.Within c rs) (hB : B.Avoids c rs) : A.Apart B := by
  intro a ha b hb n
  by_cases hd : c.Declares rs n
  · exact .inr (hB b hb n hd)
  · exact .inl (hA a ha n hd)

theorem Within.avoids (hA : A.Within c rs) (hd : ∀ n, c.Declares rs n → ¬ c.Declares ts n) :
    A.Avoids c ts := fun a ha n ht => hA a ha n fun hr => hd n hr ht

theorem Within.mono (hA : A.Within c rs) (hs : rs ⊆ ts) : A.Within c ts :=
  fun a ha n hd => hA a ha n fun hr => hd (hr.mono hs)

theorem Avoids.mono (hA : A.Avoids c rs) (hs : ts ⊆ rs) : A.Avoids c ts :=
  fun a ha n hd => hA a ha n (hd.mono hs)

theorem Avoids.times (hA : A.Avoids c rs) (hB : B.Avoids c rs) : (A.times B).Avoids c rs := by
  intro row hr n hd
  obtain ⟨a, ha, b, hb, rfl⟩ := mem_times.mp hr
  exact Row.merge_eq_none.mpr ⟨hA a ha n hd, hB b hb n hd⟩

theorem avoids_unit (c : Catalogue) (rs : List String) : Avoids c rs ({Row.empty} : Bag V) := by
  intro row hr n _
  rw [Multiset.mem_singleton.mp hr]
  rfl

end Bag

variable [DecidableEq V]

namespace Plan
variable {literal : String → V} {db : Database V c} {p q i l r : Plan} {cond : Predicate}
  {as : List Attribute}

def Bounded (literal : String → V) (db : Database V c) (p : Plan) : Prop :=
  ∀ schema, p.output? = some schema → ∀ row ∈ p.eval literal db, ∀ n ∉ schema.names, row n = none

theorem bounded_scan {s : NamedRelation} (hs : c.find? s.name = some s)
    (h : (scan s).estimateRoot = .ok q) : q.Bounded literal db := by
  cases h
  rintro schema ⟨⟩ row hr n hn
  exact eval_scan hs row hr n hn

theorem bounded_select (hi : i.Bounded literal db) (h : (select i cond).estimateRoot = .ok q) :
    q.Bounded literal db := by
  obtain ⟨t, s, ht, hs, rfl⟩ := estimateRoot_select.mp h
  rintro schema ⟨⟩ row hr n hn
  rw [Estimate.names_of_select hs] at hn
  exact hi t ht row (Multiset.mem_of_mem_filter hr) n hn

theorem bounded_project (h : (project i as).estimateRoot = .ok q) : q.Bounded literal db := by
  obtain ⟨t, s, ht, hs, rfl⟩ := estimateRoot_project.mp h
  rintro schema ⟨⟩ row hr n hn
  obtain ⟨row, -, rfl⟩ := Multiset.mem_map.mp hr
  rw [Estimate.mem_names_of_project hs] at hn
  exact Row.restrict_of_not_mem hn row

theorem bounded_product (hl : l.Bounded literal db) (hr : r.Bounded literal db)
    (h : (product l r).estimateRoot = .ok q) : q.Bounded literal db := by
  obtain ⟨t, u, ht, hu, rfl⟩ := estimateRoot_product.mp h
  rintro schema ⟨⟩ row hrow n hn
  rw [Estimate.names_product, List.mem_append, not_or] at hn
  obtain ⟨a, ha, b, hb, rfl⟩ := Bag.mem_times.mp hrow
  exact Row.merge_eq_none.mpr ⟨hl t ht a ha n hn.1, hr u hu b hb n hn.2⟩

theorem bounded_join (hl : l.Bounded literal db) (hr : r.Bounded literal db)
    (h : (join l r cond).estimateRoot = .ok q) : q.Bounded literal db := by
  obtain ⟨t, u, s, ht, hu, hs, rfl⟩ := estimateRoot_join.mp h
  rintro schema ⟨⟩ row hrow n hn
  rw [(Estimate.join_eq_ok hs).1, List.mem_append, not_or] at hn
  obtain ⟨a, ha, b, hb, rfl⟩ := Bag.mem_times.mp (Multiset.mem_of_mem_filter hrow)
  exact Row.merge_eq_none.mpr ⟨hl t ht a ha n hn.1, hr u hu b hb n hn.2⟩

end Plan

namespace Optimiser
variable {o : Optimiser} {literal : String → V} {db : Database V o.catalogue} {K : Bag V}
  {fs before after : List Fragment} {f : Fragment} {opened : List Attribute}
  {watched : String → Prop}

def Bounded (literal : String → V) (db : Database V o.catalogue) (fs : List Fragment) : Prop :=
  ∀ f ∈ fs, f.plan.Bounded literal db

theorem bounded_inherited : Inherited fun f => f.plan.Bounded literal db where
  select := Plan.bounded_select
  project _ he := Plan.bounded_project he
  join := Plan.bounded_join
  product := Plan.bounded_product

theorem within_of_bounded {required : Required} (hf : o.Fits required fs)
    (hb : Bounded literal db fs) :
    ∀ f ∈ fs, (f.plan.eval literal db).Within o.catalogue f.relations := by
  intro f hm row hr n hn
  obtain ⟨schema, hs⟩ := hf f hm
  exact hb f hm schema hs.output row hr n fun hd => hn (hs.declared n hd)

def spread (literal : String → V) (db : Database V o.catalogue) (fs : List Fragment) (K : Bag V) :
    Bag V := fs.foldr (fun f A => (f.plan.eval literal db).times A) K

theorem spread_append (gs : List Fragment) :
    spread literal db (fs ++ gs) K = spread literal db fs (spread literal db gs K) :=
  List.foldr_append

theorem avoids_spread {relations : List String} (hK : K.Avoids o.catalogue relations)
    (h : ∀ f ∈ fs, (f.plan.eval literal db).Avoids o.catalogue relations) :
    (spread literal db fs K).Avoids o.catalogue relations := by
  induction fs with
  | nil => exact hK
  | cons f fs ih =>
    rw [List.forall_mem_cons] at h
    exact h.1.times (ih h.2)

theorem spread_times {A : Bag V} (h : ∀ f ∈ fs, Bag.Apart (f.plan.eval literal db) A) (K : Bag V) :
    spread literal db fs (A.times K) = A.times (spread literal db fs K) := by
  induction fs with
  | nil => rfl
  | cons f fs ih =>
    rw [List.forall_mem_cons] at h
    change (f.plan.eval literal db).times (spread literal db fs (A.times K)) = _
    rw [ih h.2, Bag.times_left_comm h.1]
    rfl

/-- A cluster that is sound, with rows bounded by its estimates and relations that share no
attributes. -/
structure Staged (o : Optimiser) (literal : String → V) (db : Database V o.catalogue)
    (opened : List Attribute) (a : Cluster) : Prop where
  sound : o.Sound opened a
  bounded : Bounded literal db a.fragments
  separate : o.catalogue.Separate (covered a.fragments)

theorem Step.staged {a b : Cluster} (h : o.Step a b) (ha : o.Staged literal db opened a) :
    o.Staged literal db opened b :=
  ⟨h.sound ha.sound, bounded_inherited.step h ha.bounded, ha.separate.perm h.covered_perm.symm⟩

theorem Steps.staged {a b : Cluster} (h : o.Steps a b) (ha : o.Staged literal db opened a) :
    o.Staged literal db opened b := h.invariant (fun _ _ hs => hs.staged) ha

theorem Staged.within {pass : Pass} (h : o.Staged literal db opened ⟨fs, pass⟩) :
    ∀ f ∈ fs, (f.plan.eval literal db).Within o.catalogue f.relations :=
  within_of_bounded h.sound.fits h.bounded

section Focus
variable {pass : Pass} {g : Fragment}
  (h : o.Staged literal db opened ⟨before ++ f :: after, pass⟩)
include h

theorem Staged.rest : o.Staged literal db opened ⟨before ++ after, pass⟩ := by
  have hsub : (before ++ after).Sublist (before ++ f :: after) :=
    (List.sublist_cons_self f after).append_left before
  refine ⟨⟨h.sound.accounted, fun g hg => h.sound.fits g (hsub.subset hg)⟩,
    fun g hg => h.bounded g (hsub.subset hg), h.separate.sublist ?_⟩
  rw [covered, covered, List.flatMap_append, List.flatMap_append]
  exact (List.sublist_append_right _ _).append_left _

theorem Staged.disjoint (hg : g ∈ before ++ after) {n : String}
    (hd : o.catalogue.Declares g.relations n) : ¬ o.catalogue.Declares f.relations n :=
  not_declares_of_separate h.separate hg hd

theorem Staged.spread_focus (K : Bag V) : spread literal db (before ++ f :: after) K =
    (f.plan.eval literal db).times (spread literal db (before ++ after) K) := by
  rw [spread_append, spread_append]
  refine spread_times (fun g hg => ?_) _
  have hmem : g ∈ before ++ after := List.mem_append_left _ hg
  have hf := h.within f (List.mem_append_right _ List.mem_cons_self)
  exact (h.rest.within g hmem).apart (hf.avoids fun n hn hd => h.disjoint hmem hd hn)

theorem Staged.rest_avoids (hK : K.Avoids o.catalogue (covered (before ++ f :: after))) :
    (spread literal db (before ++ after) K).Avoids o.catalogue f.relations := by
  refine avoids_spread (hK.mono fun r hr => ?_) fun g hg => ?_
  · exact List.mem_flatMap.mpr ⟨f, List.mem_append_right _ List.mem_cons_self, hr⟩
  · exact (h.rest.within g hg).avoids fun n hd => h.disjoint hg hd

end Focus

def Lists (c : Catalogue) (opened : List Attribute) (relations : List String)
    (watched : String → Prop) : Prop :=
  opened ≠ [] → ∀ n, watched n → c.Declares relations n → n ∈ opened.map (·.name)

theorem Lists.mono {rs ts : List String} (h : Lists c opened rs watched) (hs : ts ⊆ rs) :
    Lists c opened ts watched := fun ho n hw hd => h ho n hw (hd.mono hs)

theorem filter_focus {A X : Bag V} {p : Predicate} {relations : List String}
    (hX : X.Avoids o.catalogue relations)
    (hp : ∀ a ∈ p.attributes, o.catalogue.Declares relations a.name) :
    (A.times X).filter (fun row => p.Holds literal row) =
      Bag.times (A.filter fun row => p.Holds literal row) X :=
  Bag.filter_times fun _ _ x hx => Predicate.holds_congr fun b hb =>
    Row.merge_of_right (hX x hx _ (hp b hb))

theorem Fit.condition_declared {required : Required} {relations : List String} {schema : Relation}
    {p : Predicate} {plan : Plan} (h : o.Fit required ⟨relations, plan⟩ schema)
    (hp : p ∈ plan.conditions) : ∀ a ∈ p.attributes, o.catalogue.Declares relations a.name :=
  fun a ha => h.reads_declared _ (Predicate.mem_reads.mpr ⟨p, hp, a, ha, rfl⟩)

theorem view_select {pass pass' : Pass} {p : Predicate} {plan : Plan}
    (ha : o.Staged literal db opened ⟨before ++ f :: after, pass⟩)
    (hb : o.Staged literal db opened ⟨before ++ ⟨f.relations, plan⟩ :: after, pass'⟩)
    (hK : K.Avoids o.catalogue (covered (before ++ f :: after)))
    (he : (Plan.select f.plan p).estimateRoot = .ok plan)
    (hp : pass.pending.Perm (p :: pass'.pending)) :
    Bag.view literal watched pass'.pending
        (spread literal db (before ++ ⟨f.relations, plan⟩ :: after) K) =
      Bag.view literal watched pass.pending (spread literal db (before ++ f :: after) K) := by
  obtain ⟨schema, hf⟩ := hb.sound.fits ⟨f.relations, plan⟩
    (List.mem_append_right _ List.mem_cons_self)
  have hcond : p ∈ plan.conditions := by
    rw [conditions_of_estimateRoot he]
    exact List.mem_cons_self
  rw [ha.spread_focus K, hb.spread_focus K, Bag.view_perm hp, Bag.view_cons,
    filter_focus (ha.rest_avoids hK) (hf.condition_declared hcond),
    Plan.eval_of_estimateRoot he]
  rfl

/-- Narrowing drops a name only if no predicate waits for it and no open projection lists it. -/
theorem view_narrow {pass : Pass} {plan : Plan} {schema : Relation} {keep : List Attribute}
    (ha : o.Staged literal db opened ⟨before ++ f :: after, pass⟩)
    (hb : o.Staged literal db opened ⟨before ++ ⟨f.relations, plan⟩ :: after, pass⟩)
    (hM : Lists o.catalogue opened (covered (before ++ f :: after)) watched)
    (hn : pass.narrowing = true) (hs : f.plan.output? = some schema)
    (hk : keep = schema.attributes.filter fun a => pass.required.contains a.name)
    (he : (Plan.project f.plan keep).estimateRoot = .ok plan) :
    Bag.view literal watched pass.pending
        (spread literal db (before ++ ⟨f.relations, plan⟩ :: after) K) =
      Bag.view literal watched pass.pending (spread literal db (before ++ f :: after) K) := by
  have hmem : f ∈ before ++ f :: after := List.mem_append_right _ List.mem_cons_self
  obtain ⟨_, hf⟩ := ha.sound.fits f hmem
  obtain rfl := Option.some.inj (hs.symm.trans hf.output)
  rw [ha.spread_focus K, hb.spread_focus K, Plan.eval_of_estimateRoot he]
  refine Bag.view_restrict (fun row hr n hn' hkeep => ?_) _
  refine ha.bounded f hmem schema hs row hr n fun hname => hkeep ?_
  have hrequired : pass.required.contains n = true := by
    rw [ha.sound.accounted.contains_iff]
    refine hn'.symm.imp_right fun hw => hM (ha.sound.accounted.narrowing_iff.mp hn) n hw ?_
    exact (hf.declared n hname).mono fun r hr => List.mem_flatMap.mpr ⟨f, hmem, hr⟩
  obtain ⟨a, ham, rfl⟩ := List.mem_map.mp hname
  exact List.mem_map.mpr ⟨a, hk ▸ List.mem_filter.mpr ⟨ham, hrequired⟩, rfl⟩

theorem view_join {pass pass' : Pass} {p q : Predicate} {between : List Fragment} {g : Fragment}
    {plan : Plan}
    (ha : o.Staged literal db opened ⟨before ++ f :: (between ++ g :: after), pass⟩)
    (hb : o.Staged literal db opened
      ⟨before ++ ⟨f.relations ++ g.relations, plan⟩ :: (between ++ after), pass'⟩)
    (hK : K.Avoids o.catalogue
      (covered (before ++ ⟨f.relations ++ g.relations, plan⟩ :: (between ++ after))))
    (he : (Plan.join f.plan g.plan q).estimateRoot = .ok plan) (hq : q = p ∨ q = p.swapped)
    (hp : pass.pending.Perm (p :: pass'.pending)) :
    Bag.view literal watched pass'.pending (spread literal db
        (before ++ ⟨f.relations ++ g.relations, plan⟩ :: (between ++ after)) K) =
      Bag.view literal watched pass.pending
        (spread literal db (before ++ f :: (between ++ g :: after)) K) := by
  have hrest : o.Staged literal db opened ⟨(before ++ between) ++ g :: after, pass⟩ := by
    rw [List.append_assoc]
    exact ha.rest
  obtain ⟨schema, hf⟩ := hb.sound.fits ⟨f.relations ++ g.relations, plan⟩
    (List.mem_append_right _ List.mem_cons_self)
  have hcond : q ∈ plan.conditions := by
    rw [conditions_of_estimateRoot he]
    exact List.mem_cons_self
  -- both operands come to the front, and the equality then filters their product only
  have hfocus : spread literal db (before ++ f :: (between ++ g :: after)) K =
      ((f.plan.eval literal db).times (g.plan.eval literal db)).times
        (spread literal db (before ++ (between ++ after)) K) := by
    have hg := hrest.spread_focus K
    rw [List.append_assoc, List.append_assoc] at hg
    rw [ha.spread_focus K, hg, Bag.times_assoc]
  rw [hb.spread_focus K, hfocus, Bag.view_perm hp, Bag.view_cons,
    Multiset.filter_congr fun _ _ => (Predicate.turned_of_oriented hq).holds_iff,
    filter_focus (hb.rest_avoids hK) (hf.condition_declared hcond), Plan.eval_of_estimateRoot he]
  rfl

theorem Step.view {a b : Cluster} (h : o.Step a b) (ha : o.Staged literal db opened a)
    (hK : K.Avoids o.catalogue (covered a.fragments))
    (hM : Lists o.catalogue opened (covered a.fragments) watched) :
    Bag.view literal watched b.pass.pending (spread literal db b.fragments K) =
      Bag.view literal watched a.pass.pending (spread literal db a.fragments K) := by
  have hb := h.staged ha
  have hK' := hK.mono h.covered_perm.subset
  cases h with
  | value hp he => exact view_select ha hb hK he (Pass.pending_values hp)
  | equality hp he => exact view_select ha hb hK he (Pass.pending_joins hp)
  | narrow hn hs hk _ he =>
    exact view_narrow ha hb hM (Bool.and_eq_true_iff.mp hn).2 hs hk he
  | join hp hq he => exact view_join ha hb hK' he hq (Pass.pending_joins hp)
  | product he =>
    change Bag.view _ _ _ (Bag.times (Plan.eval literal db _) _) = _
    rw [Plan.eval_of_estimateRoot he]
    exact congrArg _ (Bag.times_assoc _ _ _)

theorem Steps.view {a b : Cluster} (h : o.Steps a b) (ha : o.Staged literal db opened a)
    (hK : K.Avoids o.catalogue (covered a.fragments))
    (hM : Lists o.catalogue opened (covered a.fragments) watched) :
    Bag.view literal watched b.pass.pending (spread literal db b.fragments K) =
      Bag.view literal watched a.pass.pending (spread literal db a.fragments K) := by
  induction h with
  | refl => rfl
  | @tail b d hs hstep ih =>
    have hperm := Steps.covered_perm hs
    rw [hstep.view (Steps.staged hs ha) (hK.mono hperm.subset) (hM.mono hperm.subset), ih]

end Optimiser
end QueryPlan
