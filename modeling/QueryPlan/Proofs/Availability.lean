import QueryPlan.Proofs.Conservation

/-! What is still needed is still there. Fragments are found through the relations they cover, but
estimates look attributes up in schemas that early projection has narrowed. In orderly plans a
schema keeps every declared attribute that something requires, so the two never disagree about an
attribute that a predicate waits for. -/

namespace QueryPlan
open Outcome

/-- Scans of registered relations under products whose right operand mentions nothing that the left
one declares; no projection lists nothing and there is no join. -/
def Plan.Orderly (c : Catalogue) : Plan → Prop
  | scan s _ => ∃ r, c.find? s.name = some r
  | select i _ _ => i.Orderly c
  | project i as _ => as ≠ [] ∧ i.Orderly c
  | product l r _ =>
    l.Orderly c ∧ r.Orderly c ∧ ∀ n ∈ r.mentions, ¬ c.Declares l.baseRelations n
  | join .. => False

theorem Pass.contains_of_release {pass : Pass} {as : List Attribute} {n : String}
    (h : (pass.release as).required.contains n = true) : pass.required.contains n = true := by
  rw [Required.contains_iff] at h ⊢
  have hc := Required.count_releaseAll as pass.required n
  change (pass.release as).required.count n = _ at hc
  omega

theorem Predicate.Turned.mem_attributes {p q : Predicate} (h : Turned p q) {a : Attribute} :
    a ∈ p.attributes ↔ a ∈ q.attributes := by
  cases h with
  | same => exact .rfl
  | exchanged l r => exact (List.Perm.swap ..).mem_iff

theorem Predicate.Matches.mem_reads {ps qs : List Predicate} (h : Matches ps qs) {n : String} :
    n ∈ reads ps ↔ n ∈ reads qs := by
  rw [Predicate.mem_reads, Predicate.mem_reads]
  constructor
  · rintro ⟨p, hp, a, ha, rfl⟩
    obtain ⟨q, hq, ht⟩ := Multiset.exists_mem_of_rel_of_mem h (Multiset.mem_coe.mpr hp)
    exact ⟨q, Multiset.mem_coe.mp hq, a, ht.mem_attributes.mp ha, rfl⟩
  · rintro ⟨q, hq, a, ha, rfl⟩
    obtain ⟨p, hp, ht⟩ := Multiset.exists_mem_of_rel_of_mem (Multiset.rel_flip.mpr h)
      (Multiset.mem_coe.mpr hq)
    exact ⟨p, Multiset.mem_coe.mp hp, a, Turned.mem_attributes ht |>.mpr ha, rfl⟩

namespace Optimiser

variable {o : Optimiser} {pass pass' : Pass} {plan : Plan} {fs : List Fragment} {f g : Fragment}
  {opened listed keep : List Attribute} {p : Predicate} {schema : Relation}
  {required required' : Required}

theorem mem_names_add {a : Attribute} {n : String} :
    n ∈ (kept.add keep a).map (·.name) ↔ n ∈ keep.map (·.name) ∨ n = a.name := by
  unfold kept.add
  split
  · next h =>
    obtain ⟨b, hb, hab⟩ := List.any_eq_true.mp h
    refine ⟨.inl, fun hn => hn.elim id ?_⟩
    rintro rfl
    exact List.mem_map.mpr ⟨b, hb, by simpa [Attribute.same] using hab⟩
  · simp

theorem names_add_nodup {a : Attribute} (h : (keep.map (·.name)).Nodup) :
    ((kept.add keep a).map (·.name)).Nodup := by
  unfold kept.add
  split
  · exact h
  · next hk =>
    rw [List.map_append, List.nodup_append]
    refine ⟨h, List.nodup_singleton _, fun x hx y hy hxy => hk ?_⟩
    obtain ⟨b, hb, rfl⟩ := List.mem_map.mp hx
    rw [List.map_singleton, List.mem_singleton] at hy
    exact List.any_eq_true.mpr ⟨b, hb, by simp [Attribute.same, hxy, hy]⟩

theorem kept_listed {acc : List Attribute} (hd : (acc.map (·.name)).Nodup)
    (h : listed.foldlM (fun keep a => do return kept.add keep (← schema.resolve a)) acc = .ok keep) :
    (∀ a ∈ listed, a.name ∈ schema.names) ∧ (keep.map (·.name)).Nodup ∧
      ∀ n, n ∈ keep.map (·.name) ↔ n ∈ acc.map (·.name) ∨ n ∈ listed.map (·.name) := by
  induction listed generalizing acc with
  | nil =>
    cases pure_eq_ok.mp h
    exact ⟨by simp, hd, by simp⟩
  | cons a listed ih =>
    rw [List.foldlM_cons] at h
    obtain ⟨next, hn, h⟩ := bind_eq_ok.mp h
    obtain ⟨b, hb, hn⟩ := bind_eq_ok.mp hn
    cases pure_eq_ok.mp hn
    obtain ⟨hm, hnd, hk⟩ := ih (names_add_nodup hd) h
    have hba : b.name = a.name := (Relation.resolve_eq_ok.mp hb).2
    refine ⟨List.forall_mem_cons.mpr ⟨Relation.mem_names_of_resolve hb, hm⟩, hnd, fun n => ?_⟩
    rw [hk, mem_names_add, hba, List.map_cons, List.mem_cons, or_assoc]

theorem kept_required (pass : Pass) (rest acc : List Attribute) (hd : (acc.map (·.name)).Nodup) :
    ((rest.foldl (fun keep a => if pass.required.contains a.name then kept.add keep a else keep)
        acc).map (·.name)).Nodup ∧
      ∀ n, n ∈ (rest.foldl (fun keep a =>
          if pass.required.contains a.name then kept.add keep a else keep) acc).map (·.name) ↔
        n ∈ acc.map (·.name) ∨ n ∈ rest.map (·.name) ∧ pass.required.contains n = true := by
  induction rest generalizing acc with
  | nil => simp [hd]
  | cons a rest ih =>
    rw [List.foldl_cons]
    split
    · next ha =>
      obtain ⟨hnd, hk⟩ := ih _ (names_add_nodup hd)
      refine ⟨hnd, fun n => ?_⟩
      rw [hk, mem_names_add, List.map_cons, List.mem_cons, or_assoc, or_and_right]
      refine or_congr_right (or_congr_left ?_)
      exact ⟨fun hn => ⟨hn, hn ▸ ha⟩, And.left⟩
    · next ha =>
      obtain ⟨hnd, hk⟩ := ih acc hd
      refine ⟨hnd, fun n => ?_⟩
      rw [hk, List.map_cons, List.mem_cons, or_and_right]
      refine or_congr_right (Iff.symm (or_iff_right ?_))
      rintro ⟨rfl, hn⟩
      exact ha hn

theorem kept_eq_ok (h : kept pass schema listed = .ok keep) :
    (∀ a ∈ listed, a.name ∈ schema.names) ∧ (keep.map (·.name)).Nodup ∧
      ∀ n, n ∈ keep.map (·.name) ↔ n ∈ listed.map (·.name) ∨
        n ∈ schema.names ∧ pass.required.contains n = true := by
  obtain ⟨first, hf, h⟩ := bind_eq_ok.mp h
  cases pure_eq_ok.mp h
  obtain ⟨hm, hd, hk⟩ := kept_listed (by simp) hf
  obtain ⟨hnd, hall⟩ := kept_required pass schema.attributes first hd
  refine ⟨hm, hnd, fun n => ?_⟩
  rw [hall, hk]
  simp [Relation.names]

theorem kept_subset (h : kept pass schema listed = .ok keep) :
    ∀ a ∈ keep, a.name ∈ schema.names := by
  obtain ⟨hm, -, hk⟩ := kept_eq_ok h
  intro a ha
  rcases (hk a.name).mp (List.mem_map_of_mem ha) with hn | hn
  · obtain ⟨b, hb, hba⟩ := List.mem_map.mp hn
    exact hba ▸ hm b hb
  · exact hn.1

theorem kept_all {n : String} (h : kept pass schema listed = .ok keep)
    (hl : schema.arity ≤ keep.length) (hn : n ∈ schema.names) : n ∈ keep.map (·.name) := by
  have hsub : keep.map (·.name) ⊆ schema.names := fun m hm => by
    obtain ⟨a, ha, rfl⟩ := List.mem_map.mp hm
    exact kept_subset h a ha
  have hperm := ((kept_eq_ok h).2.1.subperm hsub).perm_of_length_le
    (by simpa [Relation.names, Relation.arity] using hl)
  exact hperm.mem_iff.mpr hn

theorem Step.accounted {a b : Cluster} (h : o.Step a b) (ha : a.pass.Accounted opened) :
    b.pass.Accounted opened := by
  cases h with
  | value hp => exact ha.dropValue hp
  | equality hp => exact ha.dropJoin hp (.refl _)
  | narrow => exact ha
  | @join _ _ _ p q _ _ _ _ _ _ hp hq =>
    refine ha.dropJoin hp ?_
    rcases hq with rfl | rfl
    · exact .refl _
    · exact p.attributes_swapped
  | product => exact ha

theorem Steps.accounted {a b : Cluster} (h : o.Steps a b) (ha : a.pass.Accounted opened) :
    b.pass.Accounted opened := h.invariant (fun _ _ hs => hs.accounted) ha

theorem Rewrites.accounted {input : Plan} {v : Visited} (h : o.Rewrites input pass v pass')
    (ha : pass.Accounted opened) : pass'.Accounted opened := by
  induction h generalizing opened with
  | scan _ _ hs => exact Steps.accounted hs ha
  | select _ ih => exact ih (ha.defer _)
  | project hl _ _ _ _ ih => exact (ih (ha.acquireListed hl)).releaseListed ha.narrowing_iff
  | product _ _ ihl ihr => exact ihr (ihl ha)
  | settle _ hs _ ih => exact Steps.accounted hs (ih ha)

/-- The estimate of a fragment names attributes that its relations declare, among them those that
something still requires; its predicates read declared attributes too. -/
structure Fit (o : Optimiser) (required : Required) (f : Fragment) (schema : Relation) : Prop where
  output : f.plan.output? = some schema
  declared : ∀ n ∈ schema.names, o.catalogue.Declares f.relations n
  reads_declared : ∀ n ∈ Predicate.reads f.plan.conditions, o.catalogue.Declares f.relations n
  available : ∀ n, o.catalogue.Declares f.relations n → required.contains n = true →
    n ∈ schema.names

theorem Fit.mono (h : o.Fit required f schema)
    (hr : ∀ n, o.catalogue.Declares f.relations n → required'.contains n = true →
      required.contains n = true) : o.Fit required' f schema :=
  ⟨h.output, h.declared, h.reads_declared, fun n hd hn => h.available n hd (hr n hd hn)⟩

theorem Fit.release (h : o.Fit pass.required f schema) {as : List Attribute} :
    o.Fit (pass.release as).required f schema :=
  h.mono fun _ _ => Pass.contains_of_release

theorem Fit.select (h : o.Fit required f schema)
    (he : (Plan.select f.plan p).estimateRoot = .ok plan) :
    ∃ out, o.Fit required ⟨f.relations, plan⟩ out := by
  obtain ⟨t, s, ht, hs, rfl⟩ := Plan.estimateRoot_select.mp he
  obtain rfl : schema = t := Option.some.inj (h.output.symm.trans ht)
  have hnames := Estimate.names_of_select hs
  refine ⟨s, rfl, fun n hn => h.declared n (hnames ▸ hn), fun n hn => ?_,
    fun n hd hn => hnames ▸ h.available n hd hn⟩
  rw [Plan.conditions, Predicate.reads_cons, List.mem_append] at hn
  rcases hn with hn | hn
  · obtain ⟨a, ha, rfl⟩ := List.mem_map.mp hn
    exact h.declared _ (Estimate.mem_names_of_select hs a ha)
  · exact h.reads_declared n hn

theorem Fit.project (h : o.Fit required f schema)
    (hk : ∀ n ∈ schema.names, required'.contains n = true → n ∈ keep.map (·.name))
    (hr : ∀ n, required'.contains n = true → required.contains n = true)
    (he : (Plan.project f.plan keep).estimateRoot = .ok plan) :
    ∃ out, o.Fit required' ⟨f.relations, plan⟩ out := by
  obtain ⟨t, s, ht, hs, rfl⟩ := Plan.estimateRoot_project.mp he
  obtain rfl : schema = t := Option.some.inj (h.output.symm.trans ht)
  have hnames := @Estimate.mem_names_of_project _ _ _ hs
  refine ⟨s, rfl, fun n hn => ?_, h.reads_declared, fun n hd hn => ?_⟩
  · obtain ⟨a, ha, rfl⟩ := List.mem_map.mp (hnames.mp hn)
    exact h.declared _ ((Estimate.project_eq_ok hs).2.1 a ha)
  · exact hnames.mpr (hk n (h.available n hd (hr n hn)) hn)

theorem Fit.product {out : Relation} (hf : o.Fit required f schema) (hg : o.Fit required g out)
    (he : (Plan.product f.plan g.plan).estimateRoot = .ok plan) :
    ∃ out, o.Fit required ⟨f.relations ++ g.relations, plan⟩ out := by
  obtain ⟨t, u, ht, hu, rfl⟩ := Plan.estimateRoot_product.mp he
  obtain rfl : schema = t := Option.some.inj (hf.output.symm.trans ht)
  obtain rfl : out = u := Option.some.inj (hg.output.symm.trans hu)
  refine ⟨_, rfl, fun n hn => ?_, fun n hn => ?_, fun n hd hn => ?_⟩
  · rw [Estimate.names_product, List.mem_append] at hn
    exact Catalogue.declares_append.mpr (hn.imp (hf.declared n) (hg.declared n))
  · rw [Plan.conditions, Predicate.reads_append, List.mem_append] at hn
    exact Catalogue.declares_append.mpr (hn.imp (hf.reads_declared n) (hg.reads_declared n))
  · rw [Estimate.names_product, List.mem_append]
    exact (Catalogue.declares_append.mp hd).imp (hf.available n · hn) (hg.available n · hn)

theorem Fit.join {out : Relation} (hf : o.Fit required f schema) (hg : o.Fit required g out)
    (he : (Plan.join f.plan g.plan p).estimateRoot = .ok plan) :
    ∃ out, o.Fit required ⟨f.relations ++ g.relations, plan⟩ out := by
  obtain ⟨t, u, s, ht, hu, hs, rfl⟩ := Plan.estimateRoot_join.mp he
  obtain rfl : schema = t := Option.some.inj (hf.output.symm.trans ht)
  obtain rfl : out = u := Option.some.inj (hg.output.symm.trans hu)
  obtain ⟨hnames, a, b, rfl, ha, hb⟩ := Estimate.join_eq_ok hs
  refine ⟨s, rfl, fun n hn => ?_, fun n hn => ?_, fun n hd hn => ?_⟩
  · rw [hnames, List.mem_append] at hn
    exact Catalogue.declares_append.mpr (hn.imp (hf.declared n) (hg.declared n))
  · rw [Plan.conditions, Predicate.reads_cons, Predicate.reads_append, List.mem_append,
      List.mem_append] at hn
    refine Catalogue.declares_append.mpr ?_
    rcases hn with hn | hn
    · rw [Predicate.attributes, List.map_cons, List.map_singleton, List.mem_pair] at hn
      rcases hn with rfl | rfl
      · exact .inl (hf.declared _ ha)
      · exact .inr (hg.declared _ hb)
    · exact hn.imp (hf.reads_declared n) (hg.reads_declared n)
  · rw [hnames, List.mem_append]
    exact (Catalogue.declares_append.mp hd).imp (hf.available n · hn) (hg.available n · hn)

def Fits (o : Optimiser) (required : Required) (fs : List Fragment) : Prop :=
  ∀ f ∈ fs, ∃ schema, o.Fit required f schema

theorem Fits.mono (h : o.Fits required fs) (hr : ∀ n, o.catalogue.Declares (covered fs) n →
    required'.contains n = true → required.contains n = true) : o.Fits required' fs := by
  intro f hf
  obtain ⟨schema, hs⟩ := h f hf
  exact ⟨schema, hs.mono fun n hd hn => hr n
    (hd.mono fun r hr => List.mem_flatMap.mpr ⟨f, hf, hr⟩) hn⟩

theorem Fits.replace {before after : List Fragment} (h : o.Fits required (before ++ f :: after))
    (hr : ∀ n, required'.contains n = true → required.contains n = true)
    (hf : ∀ schema, o.Fit required f schema → ∃ out, o.Fit required' g out) :
    o.Fits required' (before ++ g :: after) := by
  unfold Fits at h ⊢
  simp only [List.forall_mem_append, List.forall_mem_cons] at h ⊢
  obtain ⟨hbefore, ⟨schema, hs⟩, hafter⟩ := h
  exact ⟨Fits.mono hbefore fun n _ => hr n, hf schema hs, Fits.mono hafter fun n _ => hr n⟩

/-- A cluster below open projections: its counts are accounted for and its fragments fit them. -/
structure Sound (o : Optimiser) (opened : List Attribute) (cluster : Cluster) : Prop where
  accounted : cluster.pass.Accounted opened
  fits : o.Fits cluster.pass.required cluster.fragments

theorem Step.sound {a b : Cluster} (h : o.Step a b) (ha : o.Sound opened a) :
    o.Sound opened b := by
  refine ⟨h.accounted ha.accounted, ?_⟩
  cases h with
  | value hp he =>
    exact ha.fits.replace (fun _ => Pass.contains_of_release) fun _ hf => hf.release.select he
  | equality hp he =>
    exact ha.fits.replace (fun _ => Pass.contains_of_release) fun _ hf => hf.release.select he
  | narrow _ hs hk _ he =>
    refine ha.fits.replace (fun _ => id) fun out hf => ?_
    refine hf.project (fun n hn hr => ?_) (fun _ => id) he
    obtain rfl := Option.some.inj (hs.symm.trans hf.output)
    obtain ⟨a, hm, rfl⟩ := List.mem_map.mp hn
    exact List.mem_map.mpr ⟨a, hk ▸ List.mem_filter.mpr ⟨hm, hr⟩, rfl⟩
  | @join pass _ _ _ q _ _ _ _ _ _ hp hq he =>
    have hfits : o.Fits (pass.release q.attributes).required _ :=
      ha.fits.mono fun _ _ => Pass.contains_of_release
    unfold Fits at hfits ⊢
    simp only [List.forall_mem_append, List.forall_mem_cons] at hfits ⊢
    obtain ⟨hbefore, ⟨_, hf⟩, hbetween, ⟨_, hg⟩, hafter⟩ := hfits
    exact ⟨hbefore, hf.join hg he, hbetween, hafter⟩
  | product he =>
    have hfits := ha.fits
    unfold Fits at hfits ⊢
    simp only [List.forall_mem_cons] at hfits ⊢
    obtain ⟨⟨_, hf⟩, ⟨_, hg⟩, hafter⟩ := hfits
    exact ⟨hf.product hg he, hafter⟩

theorem Steps.sound {a b : Cluster} (h : o.Steps a b) (ha : o.Sound opened a) :
    o.Sound opened b := h.invariant (fun _ _ hs => hs.sound) ha

theorem Rewrites.reads_pending {input : Plan} {v : Visited} (h : o.Rewrites input pass v pass')
    {n : String} (hn : n ∈ Predicate.reads pass'.pending) :
    n ∈ Predicate.reads input.selections ∨ n ∈ Predicate.reads pass.pending := by
  have hall : n ∈ Predicate.reads (applied v.fragments ++ pass'.pending) := by
    rw [Predicate.reads_append]
    exact List.mem_append_right _ hn
  rwa [← h.matches.mem_reads, Predicate.reads_append, List.mem_append] at hall

theorem fit_scan {s r : NamedRelation} {base : Plan} (hr : o.catalogue.find? s.name = some r)
    (he : (Plan.scan r).estimateRoot = .ok base) (required : Required) :
    o.Fit required (.ofPlan base) r.relation := by
  cases he
  have hd : ∀ n, o.catalogue.Declares [r.name] n ↔ n ∈ r.relation.names := fun n =>
    Catalogue.declares_singleton (by rw [Catalogue.name_of_find? hr]; exact hr)
  exact ⟨rfl, fun n => (hd n).mpr, fun n hn => (List.not_mem_nil hn).elim,
    fun n h _ => (hd n).mp h⟩

theorem fits_ofPlan : o.Fits required [.ofPlan plan] ↔
    ∃ schema, o.Fit required (.ofPlan plan) schema := by
  unfold Fits
  rw [List.forall_mem_singleton]

/-- The right operand does not read what the left one declares, so its visit adds no requirement
there. -/
theorem Rewrites.required_left {left right : Plan} {out : Option Relation} {mid : Pass}
    {v w : Visited} (hl : o.Rewrites left pass v mid) (hr : o.Rewrites right mid w pass')
    (hi : (Plan.product left right out).Orderly o.catalogue) (ha : pass.Accounted opened)
    {n : String} (hd : o.catalogue.Declares (covered v.fragments) n)
    (hn : pass'.required.contains n = true) : mid.required.contains n = true := by
  have hmid := hl.accounted ha
  rw [(hr.accounted hmid).contains_iff] at hn
  rw [hmid.contains_iff]
  refine hn.imp_left fun hn => (hr.reads_pending hn).resolve_left fun hs => ?_
  exact hi.2.2 n (List.mem_append_left _ hs) ((Catalogue.declares_perm hl.covered_perm).mp hd)

theorem Rewrites.sound {input : Plan} {v : Visited} (h : o.Rewrites input pass v pass')
    (hi : input.Orderly o.catalogue) (ha : pass.Accounted opened) :
    o.Sound opened ⟨v.fragments, pass'⟩ := by
  induction h generalizing opened with
  | scan hr he hs =>
    exact Steps.sound hs ⟨ha, fits_ofPlan.mpr ⟨_, fit_scan hr he _⟩⟩
  | select _ ih => exact ih hi (ha.defer _)
  | @project input inner plan listed keep out pass below schema hl _ hs hk he ih =>
    have hin := ih hi.2 (ha.acquireListed hl)
    refine ⟨hin.accounted.releaseListed ha.narrowing_iff, fits_ofPlan.mpr ?_⟩
    obtain ⟨t, ht⟩ := fits_ofPlan.mp hin.fits
    obtain rfl := Option.some.inj (hs.symm.trans ht.output)
    have hrel : ∀ n, (({ below with narrowing := pass.narrowing } : Pass).release
        listed).required.contains n = true → below.required.contains n = true :=
      fun _ => Pass.contains_of_release
    -- the plan fits the counts below, and going up only releases what is listed
    rcases he with ⟨-, he⟩ | ⟨-, rfl⟩
    · have hbase := baseRelations_of_estimateRoot he
      rw [Fragment.ofPlan, hbase]
      exact ht.project (fun n hn hr => ((kept_eq_ok hk).2.2 n).mpr (.inr ⟨hn, hrel n hr⟩)) hrel he
    · exact ⟨schema, ht.mono fun n _ => hrel n⟩
  | @product left right out pass mid pass' v w hl hr ihl ihr =>
    have hvs := ihl hi.1 ha
    have hws := ihr hi.2.1 hvs.accounted
    refine ⟨hws.accounted, List.forall_mem_append.mpr ⟨?_, hws.fits⟩⟩
    exact hvs.fits.mono fun n hd hn => hl.required_left hr hi ha hd hn
  | settle _ hs _ ih => exact Steps.sound hs (ih hi ha)

theorem Step.pending_subset {a b : Cluster} (h : o.Step a b) : b.pass.pending ⊆ a.pass.pending := by
  cases h with
  | value hp => exact fun p hm => (Pass.pending_values hp).mem_iff.mpr (List.mem_cons_of_mem _ hm)
  | equality hp => exact fun p hm => (Pass.pending_joins hp).mem_iff.mpr (List.mem_cons_of_mem _ hm)
  | narrow => exact List.Subset.refl _
  | join hp => exact fun p hm => (Pass.pending_joins hp).mem_iff.mpr (List.mem_cons_of_mem _ hm)
  | product => exact List.Subset.refl _

theorem Steps.pending_subset {a b : Cluster} (h : o.Steps a b) :
    b.pass.pending ⊆ a.pass.pending := by
  induction h with
  | refl => exact List.Subset.refl _
  | tail _ hs ih => exact List.Subset.trans hs.pending_subset ih

theorem Rewrites.mem_pending {input : Plan} {v : Visited} (h : o.Rewrites input pass v pass') :
    ∀ p ∈ pass'.pending, p ∈ pass.pending ∨ p ∈ input.selections := by
  induction h with
  | scan _ _ hs => exact fun p hp => .inl (Steps.pending_subset hs hp)
  | @select input _ q _ pass _ _ ih =>
    intro p hp
    rcases ih p hp with hp | hp
    · rcases List.mem_cons.mp ((Pass.pending_defer pass q).mem_iff.mp hp) with rfl | hp
      · exact .inr List.mem_cons_self
      · exact .inl hp
    · exact .inr (List.mem_cons_of_mem _ hp)
  | project _ _ _ _ _ ih => exact ih
  | product _ _ ihl ihr =>
    intro p hp
    rcases ihr p hp with hp | hp
    · exact (ihl p hp).imp_right (List.mem_append_left _)
    · exact .inr (List.mem_append_right _ hp)
  | settle _ hs _ ih => exact fun p hp => ih p (Steps.pending_subset hs hp)

/-- No predicate that waits after a visit could have been applied to one visited relation alone. -/
theorem Rewrites.not_localTo {input : Plan} {v : Visited} (h : o.Rewrites input pass v pass')
    (hi : input.Orderly o.catalogue) (ha : pass.Accounted opened) :
    ∀ p ∈ pass'.pending, ∀ r ∈ input.baseRelations, ¬ p.LocalTo o.catalogue r := by
  induction h generalizing opened with
  | @scan s r _ _ _ _ _ hr _ hs hv hj =>
    intro p hp t ht hlocal
    obtain rfl := List.mem_singleton.mp ht
    rcases List.mem_append.mp hp with hp | hp
    · have hd := hlocal p.left p.left_mem_attributes
      exact hv p hp ((Catalogue.declares_singleton hr).mp hd)
    · cases p with
      | value l v =>
        have hvalue := (Steps.accounted hs ha).isValue_of_mem_joins _ hp
        cases hvalue
      | join l u =>
        have hl := hlocal l List.mem_cons_self
        have hu := hlocal u (List.mem_cons_of_mem _ List.mem_cons_self)
        exact hj l u hp ⟨hl, hu⟩
  | select _ ih => exact ih hi (ha.defer _)
  | project hl _ _ _ _ ih => exact ih hi.2 (ha.acquireListed hl)
  | product hl hr ihl ihr =>
    obtain ⟨hleft, hright, happart⟩ := hi
    intro p hp t ht hlocal
    rcases List.mem_append.mp ht with ht | ht
    · rcases hr.mem_pending p hp with hp | hp
      · exact ihl hleft ha p hp t ht hlocal
      -- a predicate from the right operand reads nothing that the left one declares
      · have hd := hlocal p.left p.left_mem_attributes
        refine happart _ (List.mem_append_left _ ?_) (hd.mono ?_)
        · exact Predicate.mem_reads.mpr ⟨p, hp, _, p.left_mem_attributes, rfl⟩
        · exact List.cons_subset.mpr ⟨ht, List.nil_subset _⟩
    · exact ihr hright (hl.accounted ha) p hp t ht hlocal
  | settle _ hs _ ih => exact fun p hp => ih hi ha p (Steps.pending_subset hs hp)

/-- A comparison with a literal that still waits reads nothing that the visited scans declare. -/
theorem Rewrites.values_drained {input : Plan} {v : Visited} (h : o.Rewrites input pass v pass')
    (hi : input.Orderly o.catalogue) (ha : pass.Accounted opened) :
    ∀ p ∈ pass'.values, ¬ o.catalogue.Declares input.baseRelations p.left.name := by
  rintro p hp ⟨r, hr, hd⟩
  have hvalue := (h.accounted ha).isValue_of_mem_values p hp
  refine h.not_localTo hi ha p (List.mem_append_left _ hp) r hr fun a hread => ?_
  rw [Predicate.attributes_of_isValue hvalue, List.mem_singleton] at hread
  rw [hread]
  exact ⟨r, List.mem_singleton.mpr rfl, hd⟩

end Optimiser
end QueryPlan
