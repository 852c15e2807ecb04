import QueryPlan.Proofs.Columns
import QueryPlan.Proofs.Queries

/-! What goes into joins and products. While a cluster is worked down, what a fragment names is what
its relations declare, less the attributes that nothing asks for any longer: neither an open
projection nor a waiting predicate. A predicate leaves the waiting ones when it is put on top of a
fragment, and in a finished plan it is found there, above all operands inside. So reference counts at
the time and predicates above in the end are two descriptions of one set of attributes. -/

namespace QueryPlan
open Outcome

namespace Plan

/-- An operand of a join or a product, with the predicates of the selections and joins above it. -/
structure Operand where
  plan : Plan
  above : List Predicate

def operands (above : List Predicate) : Plan → List Operand
  | scan .. => []
  | select i p _ => i.operands (p :: above)
  | project i _ _ => i.operands above
  | product l r _ => ⟨l, above⟩ :: ⟨r, above⟩ :: (l.operands above ++ r.operands above)
  | join l r p _ =>
    ⟨l, p :: above⟩ :: ⟨r, p :: above⟩ :: (l.operands (p :: above) ++ r.operands (p :: above))

theorem exists_mem_operands_iff {p j : Plan} {above : List Predicate} :
    (∃ ps, ⟨j, ps⟩ ∈ p.operands above) ↔
      ∃ i ∈ p.subplans, (i.kind = .product ∨ i.kind = .join) ∧ j ∈ i.children := by
  induction p generalizing above with
  | scan s out => simp [operands, kind]
  | select i cond out ih => simp [operands, ih, kind]
  | project i as out ih => simp [operands, ih, kind]
  | product l r out ihl ihr =>
    simp [operands, exists_or, ihl, ihr, kind, children, or_and_right, or_assoc]
  | join l r cond out ihl ihr =>
    simp [operands, exists_or, ihl, ihr, kind, children, or_and_right, or_assoc]

/-- Every attribute of the operand's relations comes out or, below a projection of `opened`, every
one that is listed there or read above. -/
def Operand.Exact (c : Catalogue) (opened : List Attribute) (x : Operand) : Prop :=
  ∃ r, x.plan.output? = some r ∧ ∀ n, n ∈ r.names ↔ c.Declares x.plan.baseRelations n ∧
    (opened ≠ [] → n ∈ opened.map (·.name) ∨ n ∈ Predicate.reads x.above)

/-- The plan is exact, and so are all operands in it. -/
structure Slim (c : Catalogue) (opened : List Attribute) (above : List Predicate) (p : Plan) :
    Prop where
  root : Operand.Exact c opened ⟨p, above⟩
  operands : ∀ x ∈ p.operands above, x.Exact c opened

def Alike (c : Catalogue) (opened : List Attribute) (p : Plan) (above above' : List Predicate) :
    Prop := opened ≠ [] → ∀ n, c.Declares p.baseRelations n →
      (n ∈ Predicate.reads above ↔ n ∈ Predicate.reads above')

variable {c : Catalogue} {opened : List Attribute} {p i q : Plan} {above above' : List Predicate}

theorem alike_of_perm (h : above.Perm above') : p.Alike c opened above above' :=
  fun _ _ _ => (Predicate.reads_perm h).mem_iff

theorem Alike.cons (h : p.Alike c opened above above') (cond : Predicate) :
    p.Alike c opened (cond :: above) (cond :: above') := by
  intro ho n hd
  rw [Predicate.reads_cons, Predicate.reads_cons, List.mem_append, List.mem_append]
  exact or_congr_right (h ho n hd)

theorem Alike.mono (h : p.Alike c opened above above') (hi : i.baseRelations ⊆ p.baseRelations) :
    i.Alike c opened above above' := fun ho n hd => h ho n (hd.mono hi)

theorem Operand.Exact.congr (hx : Operand.Exact c opened ⟨p, above⟩)
    (h : p.Alike c opened above above') : Operand.Exact c opened ⟨p, above'⟩ := by
  obtain ⟨r, hr, hnames⟩ := hx
  refine ⟨r, hr, fun n => ?_⟩
  rw [hnames]
  refine and_congr_right fun hd => ?_
  constructor
  · exact fun hn ho => (hn ho).imp_right (h ho n hd).mp
  · exact fun hn ho => (hn ho).imp_right (h ho n hd).mpr

theorem operands_congr (hx : ∀ x ∈ p.operands above, x.Exact c opened)
    (h : p.Alike c opened above above') : ∀ x ∈ p.operands above', x.Exact c opened := by
  induction p generalizing above above' with
  | scan s out => exact hx
  | select i cond out ih => exact ih hx (h.cons cond)
  | project i as out ih => exact ih hx h
  | product l r out ihl ihr =>
    have hl : l.Alike c opened above above' := h.mono (List.subset_append_left _ _)
    have hr : r.Alike c opened above above' := h.mono (List.subset_append_right _ _)
    simp only [operands, List.forall_mem_cons, List.forall_mem_append] at hx ⊢
    exact ⟨hx.1.congr hl, hx.2.1.congr hr, ihl hx.2.2.1 hl, ihr hx.2.2.2 hr⟩
  | join l r cond out ihl ihr =>
    have hl : l.Alike c opened (cond :: above) (cond :: above') :=
      (h.cons cond).mono (List.subset_append_left _ _)
    have hr : r.Alike c opened (cond :: above) (cond :: above') :=
      (h.cons cond).mono (List.subset_append_right _ _)
    simp only [operands, List.forall_mem_cons, List.forall_mem_append] at hx ⊢
    exact ⟨hx.1.congr hl, hx.2.1.congr hr, ihl hx.2.2.1 hl, ihr hx.2.2.2 hr⟩

theorem Slim.mem_names {t : Relation} (h : p.Slim c opened above) (ht : p.output? = some t)
    (n : String) : n ∈ t.names ↔ c.Declares p.baseRelations n ∧
      (opened ≠ [] → n ∈ opened.map (·.name) ∨ n ∈ Predicate.reads above) := by
  obtain ⟨r, hr, hnames⟩ := h.root
  obtain rfl := Option.some.inj (hr.symm.trans ht)
  exact hnames n

theorem Slim.congr (hp : p.Slim c opened above) (h : p.Alike c opened above above') :
    p.Slim c opened above' := ⟨hp.root.congr h, operands_congr hp.operands h⟩

theorem Slim.declares_of_select {cond : Predicate} (hp : p.Slim c opened above)
    (h : (select p cond).estimateRoot = .ok q) :
    ∀ a ∈ cond.attributes, c.Declares p.baseRelations a.name := by
  obtain ⟨t, s, ht, hs, -⟩ := estimateRoot_select.mp h
  intro a ha
  exact ((hp.mem_names ht _).mp (Estimate.mem_names_of_select hs a ha)).1

theorem Slim.declares_of_join {cond : Predicate} (hp : p.Slim c opened above)
    (hi : i.Slim c opened above) (h : (join p i cond).estimateRoot = .ok q) :
    ∀ a ∈ cond.attributes, c.Declares (p.baseRelations ++ i.baseRelations) a.name := by
  obtain ⟨t, u, s, ht, hu, hs, -⟩ := estimateRoot_join.mp h
  obtain ⟨-, l, r, rfl, hl, hr⟩ := Estimate.join_eq_ok hs
  intro a ha
  rw [Catalogue.declares_append]
  rcases List.mem_pair.mp ha with rfl | rfl
  · exact .inl ((hp.mem_names ht _).mp hl).1
  · exact .inr ((hi.mem_names hu _).mp hr).1

theorem operands_of_estimateRoot (h : p.estimateRoot = .ok q) (above : List Predicate) :
    q.operands above = p.operands above := by
  obtain ⟨r, -, rfl⟩ := estimateRoot_eq_ok.mp h
  cases p <;> rfl

theorem operands_eq_nil {name : String} (h : p.baseRelations = [name]) : p.operands above = [] := by
  induction p generalizing above with
  | scan s out => rfl
  | select i cond out ih => exact ih h
  | project i as out ih => exact ih h
  | product l r out =>
    rcases List.append_eq_singleton_iff.mp h with ⟨hnil, -⟩ | ⟨-, hnil⟩
    · exact absurd hnil l.baseRelations_ne_nil
    · exact absurd hnil r.baseRelations_ne_nil
  | join l r cond out =>
    rcases List.append_eq_singleton_iff.mp h with ⟨hnil, -⟩ | ⟨-, hnil⟩
    · exact absurd hnil l.baseRelations_ne_nil
    · exact absurd hnil r.baseRelations_ne_nil

end Plan

namespace Optimiser
variable {o : Optimiser} {pass pass' : Pass} {plan plan' : Plan} {schema : Relation}
  {opened : List Attribute} {p q : Predicate} {f g : Fragment}

theorem narrow_eq_ok (h : o.narrow pass plan = .ok plan') (hs : plan.output? = some schema) :
    (∀ above, plan'.operands above = plan.operands above) ∧
      ∃ r, plan'.output? = some r ∧ ∀ n, n ∈ r.names ↔ n ∈ schema.names ∧
        ((o.earlyProjection && pass.narrowing) = true → pass.required.contains n = true) := by
  unfold narrow at h
  split at h
  · next hon =>
    obtain ⟨s, hout, h⟩ := bind_eq_ok.mp h
    obtain rfl := Option.some.inj (hs.symm.trans (Plan.output_eq_ok.mp hout))
    simp only [hon, forall_const, ← Relation.mem_names_filter]
    dsimp only at h
    split at h
    · next hall =>
      cases pure_eq_ok.mp h
      refine ⟨fun _ => rfl, schema, hs, fun n => ?_⟩
      have hself := List.filter_eq_self.mpr (List.length_filter_eq_length_iff.mp hall)
      rw [hself]
      rfl
    · obtain ⟨t, r, -, hr, rfl⟩ := Plan.estimateRoot_project.mp h
      exact ⟨fun _ => rfl, r, rfl, fun n => Estimate.mem_names_of_project hr⟩
  · next hoff =>
    cases h
    exact ⟨fun _ => rfl, schema, hs, fun n => by simp [hoff]⟩

theorem slim_of_narrow (he : opened ≠ [] → o.earlyProjection = true)
    (ha : pass.Accounted opened) (hs : plan.output? = some schema)
    (hroom : ∀ n, (opened ≠ [] → n ∈ opened.map (·.name) ∨ n ∈ Predicate.reads pass.pending) →
      (n ∈ schema.names ↔ o.catalogue.Declares plan.baseRelations n))
    (hx : ∀ x ∈ plan.operands pass.pending, x.Exact o.catalogue opened)
    (h : o.narrow pass plan = .ok plan') : plan'.Slim o.catalogue opened pass.pending := by
  obtain ⟨hoperands, r, hr, hnames⟩ := narrow_eq_ok h hs
  have hasked : ∀ n, ((o.earlyProjection && pass.narrowing) = true →
      pass.required.contains n = true) ↔
        (opened ≠ [] → n ∈ opened.map (·.name) ∨ n ∈ Predicate.reads pass.pending) := by
    intro n
    rw [ha.contains_iff, or_comm]
    refine imp_congr_left ?_
    rw [Bool.and_eq_true, ha.narrowing_iff]
    exact and_iff_right_of_imp he
  refine ⟨⟨r, hr, fun n => ?_⟩, hoperands pass.pending ▸ hx⟩
  rw [hnames, hasked, baseRelations_of_narrow h]
  exact and_congr_left (hroom n)

theorem slim_select (he : opened ≠ [] → o.earlyProjection = true)
    (hf : f.plan.Slim o.catalogue opened pass.pending)
    (hperm : pass.pending.Perm (p :: pass'.pending)) (ha : pass'.Accounted opened)
    {selected : Plan} (hs : (Plan.select f.plan p).estimateRoot = .ok selected)
    (hn : o.narrow pass' selected = .ok plan) : plan.Slim o.catalogue opened pass'.pending := by
  have hbase := baseRelations_of_estimateRoot hs
  have hoperands := Plan.operands_of_estimateRoot hs pass'.pending
  obtain ⟨t, s, ht, hsel, rfl⟩ := Plan.estimateRoot_select.mp hs
  refine slim_of_narrow he ha rfl (fun n hasked => ?_) ?_ hn
  · rw [Estimate.names_of_select hsel, hf.mem_names ht, hbase]
    refine and_iff_left fun ho => (hasked ho).imp_right fun hread => ?_
    rw [(Predicate.reads_perm hperm).mem_iff, Predicate.reads_cons]
    exact List.mem_append_right _ hread
  · rw [hoperands, Plan.operands]
    exact Plan.operands_congr hf.operands (Plan.alike_of_perm hperm)

theorem slim_join (he : opened ≠ [] → o.earlyProjection = true)
    (hf : f.plan.Slim o.catalogue opened pass.pending)
    (hg : g.plan.Slim o.catalogue opened pass.pending)
    (halike : ∀ i : Plan, i.Alike o.catalogue opened pass.pending (q :: pass'.pending))
    (ha : pass'.Accounted opened) {joined : Plan}
    (hj : (Plan.join f.plan g.plan q).estimateRoot = .ok joined)
    (hn : o.narrow pass' joined = .ok plan) : plan.Slim o.catalogue opened pass'.pending := by
  have hbase := baseRelations_of_estimateRoot hj
  have hoperands := Plan.operands_of_estimateRoot hj pass'.pending
  obtain ⟨t, u, s, ht, hu, hs, rfl⟩ := Plan.estimateRoot_join.mp hj
  have hleft := hf.congr (halike f.plan)
  have hright := hg.congr (halike g.plan)
  refine slim_of_narrow he ha rfl (fun n hasked => ?_) ?_ hn
  · have hread : opened ≠ [] → n ∈ opened.map (·.name) ∨
        n ∈ Predicate.reads (q :: pass'.pending) := by
      intro ho
      rw [Predicate.reads_cons, List.mem_append]
      exact (hasked ho).imp_right .inr
    rw [(Estimate.join_eq_ok hs).1, List.mem_append, hleft.mem_names ht, hright.mem_names hu,
      hbase, and_iff_left hread, and_iff_left hread]
    exact Catalogue.declares_append.symm
  · rw [hoperands]
    simp only [Plan.operands, List.forall_mem_cons, List.forall_mem_append]
    exact ⟨hleft.root, hright.root, hleft.operands, hright.operands⟩

theorem slim_product {above : List Predicate} (hf : f.plan.Slim o.catalogue opened above)
    (hg : g.plan.Slim o.catalogue opened above)
    (h : (Plan.product f.plan g.plan).estimateRoot = .ok plan) :
    plan.Slim o.catalogue opened above := by
  obtain ⟨t, u, ht, hu, rfl⟩ := Plan.estimateRoot_product.mp h
  refine ⟨⟨_, rfl, fun n => ?_⟩, ?_⟩
  · rw [Estimate.names_product, List.mem_append, hf.mem_names ht, hg.mem_names hu, ← or_and_right]
    exact and_congr_left fun _ => Catalogue.declares_append.symm
  · simp only [Plan.operands, List.forall_mem_cons, List.forall_mem_append]
    exact ⟨hf.root, hg.root, hf.operands, hg.operands⟩

structure Snug (o : Optimiser) (opened : List Attribute) (a : Cluster) : Prop where
  accounted : a.pass.Accounted opened
  faithful : Faithful a.fragments
  separate : opened ≠ [] → o.catalogue.Separate (covered a.fragments)
  slim : ∀ f ∈ a.fragments, f.plan.Slim o.catalogue opened a.pass.pending

theorem slim_around {before after : List Fragment} {new : Fragment} {ps ps' : List Predicate}
    (hsep : opened ≠ [] → o.catalogue.Separate (covered (before ++ new :: after)))
    (hfaithful : Faithful (before ++ new :: after)) (hperm : ps.Perm (p :: ps'))
    (hread : ∀ a ∈ p.attributes, o.catalogue.Declares new.relations a.name)
    (hrest : ∀ g ∈ before ++ after, g.plan.Slim o.catalogue opened ps)
    (hnew : new.plan.Slim o.catalogue opened ps') :
    ∀ g ∈ before ++ new :: after, g.plan.Slim o.catalogue opened ps' := by
  have hothers : ∀ g ∈ before ++ after, g.plan.Slim o.catalogue opened ps' := by
    intro g hg
    have hsub : (before ++ after).Sublist (before ++ new :: after) :=
      (List.sublist_cons_self new after).append_left before
    refine (hrest g hg).congr fun ho n hd => ?_
    rw [(Predicate.reads_perm hperm).mem_iff, Predicate.reads_cons, List.mem_append]
    refine or_iff_right fun hm => ?_
    obtain ⟨a, ha, rfl⟩ := List.mem_map.mp hm
    rw [← hfaithful g (hsub.subset hg)] at hd
    exact not_declares_of_separate (hsep ho) hg hd (hread a ha)
  rw [List.forall_mem_append] at hothers
  rw [List.forall_mem_append, List.forall_mem_cons]
  exact ⟨hothers.1, hnew, hothers.2⟩

theorem Move.snug (he : opened ≠ [] → o.earlyProjection = true) {a b : Cluster} (h : o.Move a b)
    (ha : o.Snug opened a) : o.Snug opened b := by
  have haccounted := Steps.accounted h.steps ha.accounted
  have hfaithful := Steps.faithful h.steps ha.faithful
  have hseparate : opened ≠ [] → o.catalogue.Separate (covered b.fragments) := fun ho =>
    (ha.separate ho).perm (Steps.covered_perm h.steps).symm
  refine ⟨haccounted, hfaithful, hseparate, ?_⟩
  have hslim := ha.slim
  have hbefore := ha.faithful
  cases h with
  | @select pass xs ys p before after f selected plan hp hs hn =>
    simp only [List.forall_mem_append, List.forall_mem_cons] at hslim
    obtain ⟨hbs, hf, has⟩ := hslim
    have hperm := Pass.pending_joins hp
    have hread : ∀ a ∈ p.attributes, o.catalogue.Declares f.relations a.name := by
      rw [hbefore f (by simp)]
      exact hf.declares_of_select hs
    exact slim_around hseparate hfaithful hperm hread (List.forall_mem_append.mpr ⟨hbs, has⟩)
      (slim_select he hf hperm haccounted hs hn)
  | @join pass xs ys p q before between after f g joined plan hp hq hj hn =>
    simp only [List.forall_mem_append, List.forall_mem_cons] at hslim
    obtain ⟨hbs, hf, hms, hg, has⟩ := hslim
    have hturned := Predicate.turned_of_oriented hq
    have hperm := Pass.pending_joins hp
    have hmatch : Predicate.Matches pass.pending (q :: (pass.values ++ (xs ++ ys))) :=
      (Predicate.matches_of_perm hperm).trans
        (Predicate.matches_cons hturned (Predicate.matches_of_perm (.refl _)))
    have hread : ∀ a ∈ p.attributes, o.catalogue.Declares (f.relations ++ g.relations) a.name := by
      intro a ha
      rw [hbefore f (by simp), hbefore g (by simp)]
      exact hf.declares_of_join hg hj a (hturned.mem_attributes.mp ha)
    exact slim_around hseparate hfaithful hperm hread
      (List.forall_mem_append.mpr ⟨hbs, List.forall_mem_append.mpr ⟨hms, has⟩⟩)
      (slim_join he hf hg (fun _ _ _ _ => hmatch.mem_reads) haccounted hj hn)
  | product he =>
    simp only [List.forall_mem_cons] at hslim ⊢
    obtain ⟨hf, hg, has⟩ := hslim
    exact ⟨slim_product hf hg he, has⟩

/-- What no longer waits after the right operand's visit stands in its fragments, and those read
nothing that the left operand declares. -/
theorem Visits.alike_left {left right : Plan} {out : Option Relation} {mid : Pass}
    {v w : Visited} (hl : o.Visits left pass v mid) (hr : o.Visits right mid w pass')
    (hi : (Plan.product left right out).Orderly o.catalogue) (ha : pass.Accounted opened)
    (hs : opened ≠ [] → o.catalogue.Separate (left.baseRelations ++ right.baseRelations))
    (hp : plan.baseRelations ⊆ covered v.fragments) :
    plan.Alike o.catalogue opened mid.pending pass'.pending := by
  intro ho n hd
  have hleft : o.catalogue.Declares left.baseRelations n :=
    (Catalogue.declares_perm hl.rewrites.covered_perm).mp (hd.mono hp)
  have hright := hr.rewrites
  have hsound := hright.sound hi.2.1 (hl.rewrites.accounted ha)
  constructor
  · intro hn
    have hall : n ∈ Predicate.reads (right.selections ++ mid.pending) := by
      rw [Predicate.reads_append]
      exact List.mem_append_right _ hn
    rw [hright.matches.mem_reads, Predicate.reads_append, List.mem_append] at hall
    refine hall.resolve_left fun happlied => ?_
    obtain ⟨q, hq, a, haq, rfl⟩ := Predicate.mem_reads.mp happlied
    obtain ⟨f, hf, hq⟩ := List.mem_flatMap.mp hq
    obtain ⟨schema, hfit⟩ := hsound.fits f hf
    have hdeclared : o.catalogue.Declares f.relations a.name :=
      hfit.reads_declared _ (Predicate.mem_reads.mpr ⟨q, hq, a, haq, rfl⟩)
    have hcovered := hdeclared.mono fun r hm => List.mem_flatMap.mpr ⟨f, hf, hm⟩
    exact (hs ho).not_declares hleft ((Catalogue.declares_perm hright.covered_perm).mp hcovered)
  · intro hn
    refine (hright.reads_pending hn).resolve_left fun hselected => ?_
    exact hi.2.2 n (List.mem_append_left _ hselected) hleft

theorem slim_scan {s r : NamedRelation} {base valued equated : Plan} {mid : Pass}
    (he : opened ≠ [] → o.earlyProjection = true) (ha : pass.Accounted opened)
    (hr : o.catalogue.find? s.name = some r) (hb : (Plan.scan r).estimateRoot = .ok base)
    (hv : pushValues r.relation [] pass.values pass base = .ok (valued, mid))
    (hm : o.Moves ⟨[⟨[s.name], valued⟩], mid⟩ ⟨[⟨[s.name], equated⟩], pass'⟩)
    (hn : o.narrow pass' equated = .ok plan) : plan.Slim o.catalogue opened pass'.pending := by
  have hname := Catalogue.name_of_find? hr
  have hbase : base.baseRelations = [s.name] := by
    rw [baseRelations_of_estimateRoot hb, Plan.baseRelations, hname]
  obtain ⟨hsteps, -⟩ := scan_steps [s.name] hv hm
  have hstart : o.Sound opened ⟨[⟨[s.name], base⟩], pass⟩ := by
    refine ⟨ha, List.forall_mem_singleton.mpr ⟨r.relation, ?_⟩⟩
    rw [← hbase]
    exact fit_scan hr hb _
  have hend := Steps.sound hsteps hstart
  obtain ⟨schema, hfit⟩ := hend.fits _ (List.mem_singleton.mpr rfl)
  have hfaithful : [s.name] = equated.baseRelations :=
    Steps.faithful hsteps (List.forall_mem_singleton.mpr hbase.symm) _ (List.mem_singleton.mpr rfl)
  refine slim_of_narrow he hend.accounted hfit.output (fun n hasked => ?_) ?_ hn
  · rw [← hfaithful]
    refine ⟨hfit.declared n, fun hd => ?_⟩
    -- a scan names all that its relation declares, and what is asked for in the end is never dropped
    have hwatched : pass'.Watches n := fun hon =>
      hend.accounted.contains_iff.mpr (hasked (hend.accounted.narrowing_iff.mp hon)).symm
    have hscanned : n ∈ base.names := by
      cases hb
      exact (Catalogue.declares_singleton hr).mp hd
    have hout := hsteps.mem_outgoing hwatched (by simpa [outgoing] using hscanned)
    rw [outgoing, List.flatMap_singleton, Plan.names_eq hfit.output] at hout
    exact hout
  · rw [Plan.operands_eq_nil hfaithful.symm]
    exact fun x hx => absurd hx List.not_mem_nil

theorem Visits.slim {input : Plan} {v : Visited} (he : opened ≠ [] → o.earlyProjection = true)
    (h : o.Visits input pass v pass') (hi : input.Orderly o.catalogue) (hl : input.listed = [])
    (ha : pass.Accounted opened) (hs : opened ≠ [] → o.catalogue.Separate input.baseRelations) :
    ∀ f ∈ v.fragments, f.plan.Slim o.catalogue opened pass'.pending := by
  induction h with
  | scan hr hb hv hm _ hn => exact List.forall_mem_singleton.mpr (slim_scan he ha hr hb hv hm hn)
  | select _ ih => exact ih hi hl (ha.defer _) hs
  | project hne => exact absurd (List.append_eq_nil_iff.mp hl).1 hne
  | @product left right out pass mid pass' v w hv hw ihl ihr =>
    have hlisted := List.append_eq_nil_iff.mp hl
    have hmid := hv.rewrites.accounted ha
    have hleft := ihl hi.1 hlisted.1 ha fun ho => (hs ho).left
    have hright := ihr hi.2.1 hlisted.2 hmid fun ho => (hs ho).right
    refine List.forall_mem_append.mpr ⟨fun f hf => (hleft f hf).congr ?_, hright⟩
    refine hv.alike_left hw hi ha hs fun r hr => List.mem_flatMap.mpr ⟨f, hf, ?_⟩
    rwa [hv.rewrites.faithful f hf]
  | @settle input plan pass mid pass' fragments rest hv hm _ hp ih =>
    have hstart : o.Snug opened ⟨fragments, mid⟩ :=
      ⟨hv.rewrites.accounted ha, hv.rewrites.faithful,
        fun ho => (hs ho).perm hv.rewrites.covered_perm.symm, ih hi hl ha hs⟩
    obtain ⟨covers, hproducts⟩ := productAll_moves o pass' hp
    have hmoves : o.Moves _ _ := hm.trans hproducts
    have hend := hmoves.invariant (fun _ _ hmove => hmove.snug he) hstart
    exact List.forall_mem_singleton.mpr (hend.slim ⟨covers, plan⟩ (List.mem_singleton.mpr rfl))

theorem operands_of_optimise {input result : Plan} (h : o.optimise input = .ok result)
    (hi : input.Orderly o.catalogue) (hl : input.listed = []) :
    ∀ x ∈ result.operands [], x.Exact o.catalogue [] := by
  obtain ⟨pass, hv, hp⟩ := optimise_visits h
  have hslim : ∀ f ∈ (Visited.whole result).fragments, f.plan.Slim o.catalogue [] pass.pending :=
    hv.slim (fun hne => absurd rfl hne) hi hl Pass.accounted_initial fun hne => absurd rfl hne
  rw [hp] at hslim
  exact (hslim (.ofPlan result) (List.mem_singleton.mpr rfl)).operands

theorem operands_of_optimise_project {input result : Plan} {listed : List Attribute}
    (he : o.earlyProjection = true) (h : o.optimise (.project input listed) = .ok result)
    (hi : (Plan.project input listed).Orderly o.catalogue) (hl : input.listed = [])
    (hs : o.catalogue.Separate input.baseRelations) :
    ∀ x ∈ result.operands [], x.Exact o.catalogue listed := by
  obtain ⟨pass, hv, hp⟩ := optimise_visits h
  cases hv with
  | settle hv => cases hv
  | @project _ inner _ _ keep _ _ below schema hne hv _ _ hcut =>
    have hslim := hv.slim (fun _ => he) hi.2 hl (Pass.accounted_initial.acquireListed hne)
      fun _ => hs
    rw [List.nil_append] at hslim
    -- the projection places no predicate, so nothing waits below it either
    have hbelow : below.pending = [] := hp
    have hinner := (hslim (.ofPlan inner) (List.mem_singleton.mpr rfl)).operands
    rw [hbelow] at hinner
    rcases hcut with ⟨-, hcut⟩ | ⟨-, rfl⟩
    · rw [Plan.operands_of_estimateRoot hcut]
      exact hinner
    · exact hinner

end Optimiser

namespace Plan

theorem listed_selected (p : Plan) (ps : List Predicate) : (p.selected ps).listed = p.listed := by
  induction ps generalizing p with
  | nil => rfl
  | cons cond ps ih => exact ih _

theorem listed_of_crossing {p : Plan} (h : p.Crossing) : p.listed = [] := by
  induction p with
  | scan s out => rfl
  | product l r out ihl ihr => rw [listed, ihl h.1, ihr h.2, List.append_nil]
  | _ => exact h.elim

end Plan

/-- In the optimised plan of a query with a projection list, what goes into a join or a product is
what its relations declare and the query asks for or a predicate above it reads, if the query's
relations share no attributes. Without a projection list all that its relations declare goes in. -/
theorem Query.operands_exact {c : Catalogue} {q : Query} {plan : Plan} (h : q.plan c = .ok plan) :
    (∀ names, q.projection = some names → c.Separate q.relations →
      ∃ result, (⟨c, true⟩ : Optimiser).optimise plan = .ok result ∧
        ∀ x ∈ result.operands [], ∃ r, x.plan.output? = some r ∧ ∀ n, n ∈ r.names ↔
          c.Declares x.plan.baseRelations n ∧ (n ∈ names ∨ n ∈ Predicate.reads x.above)) ∧
    (q.projection = none → ∀ early, ∃ result, (⟨c, early⟩ : Optimiser).optimise plan = .ok result ∧
      ∀ x ∈ result.operands [], ∃ r, x.plan.output? = some r ∧ ∀ n, n ∈ r.names ↔
        c.Declares x.plan.baseRelations n) := by
  obtain ⟨core, hcore, -, -, rfl⟩ := exists_crossing h
  have hgrown := plan_grown h
  have horderly := hgrown.canonical.orderly
  have haccepted : ∀ early, ∃ result,
      (⟨c, early⟩ : Optimiser).optimise (q.projected (core.selected q.conditions)) = .ok result :=
    fun early => Optimiser.optimise_orderly (o := ⟨c, early⟩) horderly hgrown.not_stray
  have hlisted : (core.selected q.conditions).listed = [] :=
    (Plan.listed_selected core q.conditions).trans (Plan.listed_of_crossing hcore)
  have hbase := hgrown.baseRelations
  constructor
  · intro names hp hs
    obtain ⟨result, hr⟩ := haccepted true
    refine ⟨result, hr, fun x hx => ?_⟩
    simp only [projected, hp] at hr horderly hbase
    rw [← hbase] at hs
    obtain ⟨r, hout, hnames⟩ :=
      Optimiser.operands_of_optimise_project (o := ⟨c, true⟩) rfl hr horderly hlisted hs x hx
    refine ⟨r, hout, fun n => (hnames n).trans (and_congr_right fun _ => ?_)⟩
    rw [List.map_map, forall_prop_of_true horderly.1]
    simp [Function.comp_def, Attribute.named]
  · intro hp early
    obtain ⟨result, hr⟩ := haccepted early
    refine ⟨result, hr, fun x hx => ?_⟩
    simp only [projected, hp] at hr horderly
    obtain ⟨r, hout, hnames⟩ :=
      Optimiser.operands_of_optimise (o := ⟨c, early⟩) hr horderly hlisted x hx
    exact ⟨r, hout, fun n => (hnames n).trans (and_iff_left fun hne => absurd rfl hne)⟩

theorem Query.operands_exact_sample : ∃ result wide,
    (⟨.sample, true⟩ : Optimiser).optimise .sample = .ok result ∧
      ((result.operands []).map fun x => x.plan.names) = [["ESSN", "LNAME"], ["SSN"]] ∧
      (∀ x ∈ result.operands [], ∃ r, x.plan.output? = some r ∧ ∀ n, n ∈ r.names ↔
        Catalogue.sample.Declares x.plan.baseRelations n ∧
          (n ∈ ["LNAME"] ∨ n ∈ Predicate.reads x.above)) ∧
      (⟨.sample, true⟩ : Optimiser).optimise (.product (.scan ⟨"Employee", ⟨1000, [⟨"ESSN", 1000⟩,
        ⟨"LNAME", 900⟩]⟩⟩) (.scan ⟨"Works_On", ⟨2000, [⟨"PNO", 100⟩, ⟨"SSN", 1000⟩]⟩⟩)) = .ok wide ∧
      ∀ x ∈ wide.operands [], ∃ r, x.plan.output? = some r ∧ ∀ n, n ∈ r.names ↔
        Catalogue.sample.Declares x.plan.baseRelations n := by
  have hq : (⟨some ["LNAME"], ["Employee", "Works_On"],
      [.join (.named "SSN") (.named "ESSN"), .value (.named "PNO") "3"]⟩ : Query).plan .sample =
        .ok .sample := rfl
  have hd : Catalogue.sample.Separate ["Employee", "Works_On"] :=
    Plan.separate_of_scans (p := .sample) (by decide) (by decide)
  obtain ⟨result, hr, hx⟩ := (operands_exact hq).1 ["LNAME"] rfl hd
  have hnames : ∀ t, (⟨.sample, true⟩ : Optimiser).optimise .sample = .ok t →
      ((t.operands []).map fun x => x.plan.names) = [["ESSN", "LNAME"], ["SSN"]] := by
    intro t ht
    cases ht
    rfl
  have hall : (⟨none, ["Employee", "Works_On"], []⟩ : Query).plan .sample = .ok _ := rfl
  obtain ⟨wide, hw, hwide⟩ := (operands_exact hall).2 rfl true
  exact ⟨result, wide, hr, hnames result hr, hx, hw, hwide⟩

end QueryPlan
