import QueryPlan.Proofs.Meaning

/-! An optimised plan means what the given plan means. The rows of a subtree, seen through the
predicates that wait when its visit begins, are the rows of its fragments, seen through those that
wait when the visit ends, and this holds in the context of any bag of other rows. -/

namespace QueryPlan
open Outcome

variable {V : Type} [DecidableEq V]

theorem Plan.Scoped.within {c : Catalogue} {literal : String → V} {db : Database V c} {p : Plan}
    (h : p.Scoped c) : (p.eval literal db).Within c p.baseRelations := by
  induction p with
  | scan s o =>
    intro row hr n hn
    exact eval_scan h row hr n (mt (Catalogue.declares_singleton h).mpr hn)
  | select i cond o ih => exact fun row hr => ih h.1 row (Multiset.mem_of_mem_filter hr)
  | project i as o ih =>
    intro row hr n hn
    obtain ⟨row, hrow, rfl⟩ := Multiset.mem_map.mp hr
    unfold Row.restrict
    split
    · exact ih h.2.1 row hrow n hn
    · rfl
  | product l r o ihl ihr =>
    intro row hrow n hn
    obtain ⟨a, ha, b, hb, rfl⟩ := Bag.mem_times.mp hrow
    rw [baseRelations, Catalogue.declares_append, not_or] at hn
    exact Row.merge_eq_none.mpr ⟨ihl h.1 a ha n hn.1, ihr h.2 b hb n hn.2⟩
  | join l r cond o => exact h.elim

namespace Optimiser
variable {o : Optimiser} {literal : String → V} {db : Database V o.catalogue} {K : Bag V}
  {pass pass' below : Pass} {input inner plan : Plan} {v : Visited} {opened listed : List Attribute}
  {watched : String → Prop} {fs gs : List Fragment}

theorem Rewrites.bounded (h : o.Rewrites input pass v pass') : Bounded literal db v.fragments :=
  bounded_inherited.rewrites Plan.bounded_scan h

theorem Rewrites.staged (h : o.Rewrites input pass v pass') (hi : input.Scoped o.catalogue)
    (hs : o.catalogue.Separate input.baseRelations) (ha : pass.Accounted opened) :
    o.Staged literal db opened ⟨v.fragments, pass'⟩ :=
  ⟨h.sound (hi.orderly hs) ha, h.bounded, hs.perm h.covered_perm.symm⟩

theorem Rewrites.within (h : o.Rewrites input pass v pass') (hi : input.Scoped o.catalogue)
    (hs : o.catalogue.Separate input.baseRelations) (ha : pass.Accounted opened) :
    ∀ f ∈ v.fragments, (f.plan.eval literal db).Within o.catalogue input.baseRelations := by
  intro f hf
  have hstaged : o.Staged literal db opened ⟨v.fragments, pass'⟩ := h.staged hi hs ha
  refine (hstaged.within f hf).mono fun r hr => h.covered_perm.subset ?_
  exact List.mem_flatMap.mpr ⟨f, hf, hr⟩

theorem spread_comm (h : ∀ f ∈ fs, ∀ g ∈ gs, Bag.Apart (g.plan.eval literal db)
      (f.plan.eval literal db)) (K : Bag V) :
    spread literal db fs (spread literal db gs K) =
      spread literal db gs (spread literal db fs K) := by
  induction fs with
  | nil => rfl
  | cons f fs ih =>
    rw [List.forall_mem_cons] at h
    change (f.plan.eval literal db).times (spread literal db fs (spread literal db gs K)) = _
    rw [ih h.2, ← spread_times h.1]
    rfl

theorem eval_cut {schema : Relation} {keep : List Attribute} (hb : inner.Bounded literal db)
    (hs : inner.output? = some schema) (hk : kept pass schema listed = .ok keep)
    (he : keep.length < schema.arity ∧ (Plan.project inner keep).estimateRoot = .ok plan ∨
      schema.arity ≤ keep.length ∧ plan = inner) :
    plan.eval literal db = (inner.eval literal db).map (Row.restrict (keep.map (·.name))) := by
  rcases he with ⟨-, he⟩ | ⟨hl, rfl⟩
  · exact Plan.eval_of_estimateRoot he
  · refine ((Multiset.map_congr rfl fun row hr => ?_).trans (Multiset.map_id _)).symm
    funext n
    unfold Row.restrict
    split
    · rfl
    · next hn => exact (hb schema hs row hr n (mt (kept_all hk hl) hn)).symm

/-- Names that are still read and that the plan's relations declare come out of the plan. -/
def Visible (c : Catalogue) (opened : List Attribute) (pass : Pass) (input : Plan) : Prop :=
  ∀ n, n ∈ Predicate.reads pass.pending ∨ n ∈ opened.map (·.name) →
    c.Declares input.baseRelations n → n ∈ input.columns

theorem Visible.left {left right : Plan} {out : Option Relation}
    (h : Visible o.catalogue opened pass (.product left right out))
    (hi : right.Scoped o.catalogue)
    (hs : o.catalogue.Separate (left.baseRelations ++ right.baseRelations)) :
    Visible o.catalogue opened pass left := by
  intro n hn hd
  have hmem := h n hn (Catalogue.declares_append.mpr (.inl hd))
  refine (List.mem_append.mp hmem).resolve_right fun hm => ?_
  exact hs.not_declares hd (hi.declares_of_mem_columns hm)

theorem Visible.right {left right : Plan} {out : Option Relation}
    (h : Visible o.catalogue opened pass (.product left right out))
    (hl : o.Rewrites left pass v below) (hi : left.Scoped o.catalogue)
    (hs : o.catalogue.Separate (left.baseRelations ++ right.baseRelations)) :
    Visible o.catalogue opened below right := by
  intro n hn hd
  have hnot : ¬ o.catalogue.Declares left.baseRelations n := fun hl => hs.not_declares hl hd
  have hmem : n ∈ left.columns ++ right.columns := by
    refine h n (hn.imp_left fun hn => ?_) (Catalogue.declares_append.mpr (.inr hd))
    refine (hl.reads_pending hn).resolve_left fun hm => hnot ?_
    exact hi.declares_of_mem_mentions (List.mem_append_left _ hm)
  exact (List.mem_append.mp hmem).resolve_left fun hm => hnot (hi.declares_of_mem_columns hm)

/-- Watched names, those that the relations declare only if they are listed. -/
def Through (c : Catalogue) (relations : List String) (listed : List Attribute)
    (watched : String → Prop) (n : String) : Prop :=
  watched n ∧ (c.Declares relations n → n ∈ listed.map (·.name))

theorem lists_through {c : Catalogue} (opened listed : List Attribute) (relations : List String)
    (watched : String → Prop) :
    Lists c (opened ++ listed) relations (Through c relations listed watched) := by
  intro _ n hn hd
  rw [List.map_append]
  exact List.mem_append_right _ (hn.2 hd)

theorem declared_of_not_through {c : Catalogue} {relations : List String} {n : String}
    (hw : watched n) (hn : ¬ Through c relations listed watched n) :
    c.Declares relations n ∧ n ∉ listed.map (·.name) := by
  rw [Through, not_and, not_forall] at hn
  obtain ⟨hd, hn⟩ := hn hw
  exact ⟨hd, hn⟩

section Project
variable {schema : Relation} {keep : List Attribute} {out : Option Relation}
  (hin : o.Rewrites input { pass.acquire listed with narrowing := true } (.whole inner) below)
  (hk : kept { below with narrowing := pass.narrowing } schema listed = .ok keep)
  (hi : (Plan.project input listed out).Scoped o.catalogue)
  (hs : o.catalogue.Separate input.baseRelations) (ha : pass.Accounted opened)

section Kept
include hin hk hi hs ha

theorem mem_listed_of_kept (hv : Visible o.catalogue opened pass (.project input listed out))
    {n : String} (hd : o.catalogue.Declares input.baseRelations n)
    (hn : n ∈ keep.map (·.name)) : n ∈ listed.map (·.name) := by
  have hacquired := ha.acquireListed hi.1
  have hbelow := hin.accounted hacquired
  rcases ((kept_eq_ok hk).2.2 n).mp hn with hn | ⟨-, hn⟩
  · exact hn
  · rcases hbelow.contains_iff.mp hn with hn | hn
    · exact hv n (.inl (hin.reads_kept hi.2.1 (hi.2.1.orderly hs) hacquired hn)) hd
    · rw [List.map_append, List.mem_append] at hn
      exact hn.elim (fun hn => hv n (.inr hn) hd) id

theorem view_kept (hout : inner.output? = some schema) :
    Bag.view literal (Through o.catalogue input.baseRelations listed watched) below.pending
        (Bag.times ((inner.eval literal db).map (Row.restrict (keep.map (·.name)))) K) =
      Bag.view literal (Through o.catalogue input.baseRelations listed watched) below.pending
        ((inner.eval literal db).times K) := by
  have hsound := hin.sound (hi.2.1.orderly hs) (ha.acquireListed hi.1)
  obtain ⟨t, hfit⟩ := fits_ofPlan.mp hsound.fits
  obtain rfl := Option.some.inj (hout.symm.trans hfit.output)
  have hbounded : inner.Bounded literal db := hin.bounded _ (List.mem_singleton.mpr rfl)
  refine Bag.view_restrict (fun row hr n hn hnot => ?_) K
  refine hbounded schema hout row hr n fun hname => hnot (((kept_eq_ok hk).2.2 n).mpr ?_)
  rcases hn with hn | hn
  · have hdeclared := hfit.declared n hname
    exact .inl (hn.2 ((Catalogue.declares_perm hin.baseRelations_perm).mp hdeclared))
  · exact .inr ⟨hname, hsound.accounted.contains_iff.mpr (.inl hn)⟩

end Kept

include hi in
theorem view_listed (hv : Visible o.catalogue opened pass (.project input listed out)) :
    Bag.view literal (Through o.catalogue input.baseRelations listed watched) pass.pending
        (((Plan.project input listed out).eval literal db).times K) =
      Bag.view literal (Through o.catalogue input.baseRelations listed watched) pass.pending
        ((input.eval literal db).times K) := by
  refine Bag.view_restrict (fun row hr n hn hnot => ?_) K
  refine hi.2.1.within row hr n fun hd => hnot ?_
  rcases hn with hn | hn
  · exact hn.2 hd
  · exact hv n (.inl hn) hd

include hin hk hi hs ha in
theorem view_project (hout : inner.output? = some schema)
    (he : keep.length < schema.arity ∧ (Plan.project inner keep).estimateRoot = .ok plan ∨
      schema.arity ≤ keep.length ∧ plan = inner)
    (hv : Visible o.catalogue opened pass (.project input listed out))
    (hK : K.Avoids o.catalogue input.baseRelations)
    (ih : Bag.view literal (Through o.catalogue input.baseRelations listed watched) below.pending
        (spread literal db [.ofPlan inner] K) =
      Bag.view literal (Through o.catalogue input.baseRelations listed watched) pass.pending
        ((input.eval literal db).times K)) :
    Bag.view literal watched below.pending (spread literal db [.ofPlan plan] K) =
      Bag.view literal watched pass.pending
        (((Plan.project input listed out).eval literal db).times K) := by
  have hbounded : inner.Bounded literal db := hin.bounded _ (List.mem_singleton.mpr rfl)
  have hspread : spread literal db [.ofPlan plan] K =
      Bag.times ((inner.eval literal db).map (Row.restrict (keep.map (·.name)))) K :=
    congrArg (Bag.times · K) (eval_cut hbounded hout hk he)
  have hthrough := (view_kept hin hk hi hs ha hout).trans (ih.trans (view_listed hi hv).symm)
  -- a watched name that does not get through has no value on either side
  rw [hspread]
  refine Bag.view_extend hthrough ?_ ?_
  · intro x hx n hw hn
    obtain ⟨hd, hnot⟩ := declared_of_not_through hw hn
    have hcut := mt (mem_listed_of_kept hin hk hi hs ha hv hd) hnot
    exact Bag.eq_none_of_mem_restrict hx hcut fun k hk => hK k hk n hd
  · intro x hx n hw hn
    obtain ⟨hd, hnot⟩ := declared_of_not_through hw hn
    exact Bag.eq_none_of_mem_restrict hx hnot fun k hk => hK k hk n hd

end Project

theorem view_scan {s : NamedRelation} {base : Plan} (hr : o.catalogue.find? s.name = some s)
    (he : (Plan.scan s).estimateRoot = .ok base)
    (hsteps : o.Steps ⟨[.ofPlan base], pass⟩ ⟨[.ofPlan plan], pass'⟩)
    (hs : o.catalogue.Separate [s.name]) (ha : pass.Accounted opened)
    (hK : K.Avoids o.catalogue [s.name]) (hM : Lists o.catalogue opened [s.name] watched) :
    Bag.view literal watched pass'.pending (spread literal db [.ofPlan plan] K) =
      Bag.view literal watched pass.pending ((db.rows s.name).times K) := by
  have hbase : covered [.ofPlan base] = [s.name] := by
    rw [covered_ofPlan, baseRelations_of_estimateRoot he, Plan.baseRelations]
  have hstart : o.Staged literal db opened ⟨[.ofPlan base], pass⟩ :=
    ⟨⟨ha, fits_ofPlan.mpr ⟨_, fit_scan hr he _⟩⟩,
      List.forall_mem_singleton.mpr (Plan.bounded_scan hr he), hbase ▸ hs⟩
  have heval : base.eval literal db = db.rows s.name := Plan.eval_of_estimateRoot he
  rw [Steps.view hsteps hstart (hbase ▸ hK) (hbase ▸ hM), ← heval]
  rfl

theorem view_defer {p : Predicate} {A : Bag V} {relations : List String} (pass : Pass)
    (hp : ∀ a ∈ p.attributes, o.catalogue.Declares relations a.name)
    (hK : K.Avoids o.catalogue relations) :
    Bag.view literal watched (pass.defer p).pending (A.times K) =
      Bag.view literal watched pass.pending
        (Bag.times (A.filter fun row => p.Holds literal row) K) := by
  rw [Bag.view_perm (Pass.pending_defer pass p), Bag.view_cons, filter_focus hK hp]

section Product
variable {left right : Plan} {mid : Pass} {w : Visited}
  (hs : o.catalogue.Separate (left.baseRelations ++ right.baseRelations))
include hs

theorem Rewrites.avoids_right (hl : o.Rewrites left pass v mid) (hi : left.Scoped o.catalogue)
    (ha : pass.Accounted opened) :
    ∀ f ∈ v.fragments, (f.plan.eval literal db).Avoids o.catalogue right.baseRelations := by
  intro f hf
  exact (hl.within hi hs.left ha f hf).avoids fun _ => hs.not_declares

theorem avoids_left_of_scoped (hi : right.Scoped o.catalogue) :
    (right.eval literal db).Avoids o.catalogue left.baseRelations :=
  hi.within.avoids fun _ hn hd => hs.not_declares hd hn

theorem view_product (hl : o.Rewrites left pass v mid) (hr : o.Rewrites right mid w pass')
    (hleft : left.Scoped o.catalogue) (hright : right.Scoped o.catalogue)
    (ha : pass.Accounted opened)
    (ihr : Bag.view literal watched pass'.pending
        (spread literal db w.fragments (spread literal db v.fragments K)) =
      Bag.view literal watched mid.pending
        ((right.eval literal db).times (spread literal db v.fragments K)))
    (ihl : Bag.view literal watched mid.pending
        (spread literal db v.fragments ((right.eval literal db).times K)) =
      Bag.view literal watched pass.pending
        ((left.eval literal db).times ((right.eval literal db).times K))) :
    Bag.view literal watched pass'.pending (spread literal db (v.fragments ++ w.fragments) K) =
      Bag.view literal watched pass.pending
        (((left.eval literal db).times (right.eval literal db)).times K) := by
  have hvs : ∀ f ∈ v.fragments, (f.plan.eval literal db).Within o.catalogue left.baseRelations :=
    hl.within hleft hs.left ha
  have hws : ∀ g ∈ w.fragments, (g.plan.eval literal db).Within o.catalogue right.baseRelations :=
    hr.within hright hs.right (hl.accounted ha)
  have hrows : (right.eval literal db).Avoids o.catalogue left.baseRelations :=
    avoids_left_of_scoped hs hright
  have hcomm := spread_comm (fun f hf g hg =>
    (hws g hg).apart (hl.avoids_right hs hleft ha f hf)) K
  have htimes := spread_times (fun f hf => (hvs f hf).apart hrows) K
  rw [spread_append, hcomm, ihr, ← htimes, ihl, Bag.times_assoc]

end Product

/-- Whatever a visit does, the rows of the subtree can be read off what it leaves. -/
theorem Rewrites.view (h : o.Rewrites input pass v pass') (hi : input.Scoped o.catalogue)
    (hs : o.catalogue.Separate input.baseRelations) (ha : pass.Accounted opened)
    (hv : Visible o.catalogue opened pass input) (hK : K.Avoids o.catalogue input.baseRelations)
    (hM : Lists o.catalogue opened input.baseRelations watched) :
    Bag.view literal watched pass'.pending (spread literal db v.fragments K) =
      Bag.view literal watched pass.pending ((input.eval literal db).times K) := by
  -- a projection changes the watched names and a product the context, so both are general
  induction h generalizing opened watched K with
  | @scan s r _ _ _ _ _ hr he hsteps =>
    obtain rfl : s = r := Option.some.inj (hi.symm.trans hr)
    exact view_scan hr he hsteps hs ha hK hM
  | @select input plan p _ pass pass' _ ih =>
    obtain ⟨hscoped, hcolumns⟩ := hi
    have hdeclared : ∀ a ∈ p.attributes, o.catalogue.Declares input.baseRelations a.name :=
      fun a ha => hscoped.declares_of_mem_columns (hcolumns a ha)
    have hvisible : Visible o.catalogue opened (pass.defer p) input := by
      intro n hn hd
      rw [(Predicate.reads_perm (Pass.pending_defer pass p)).mem_iff, Predicate.reads_cons,
        List.mem_append, or_assoc] at hn
      rcases hn with hn | hn
      · obtain ⟨a, ha, rfl⟩ := List.mem_map.mp hn
        exact hcolumns a ha
      · exact hv n hn hd
    exact (ih hscoped hs (ha.defer p) hvisible hK hM).trans (view_defer pass hdeclared hK)
  | @project input inner plan listed keep out pass below schema hl hin hout hk he ih =>
    have hvisible : Visible o.catalogue (opened ++ listed)
        { pass.acquire listed with narrowing := true } input := by
      intro n hn hd
      rw [List.map_append, List.mem_append, ← or_assoc] at hn
      have hmem : n ∈ listed.map (·.name) := hn.elim (fun hn => hv n hn hd) id
      obtain ⟨a, ha, rfl⟩ := List.mem_map.mp hmem
      exact hi.2.2 a ha
    have hview := view_project hin hk hi hs ha hout he hv hK
      (ih hi.2.1 hs (ha.acquireListed hl) hvisible hK (lists_through opened listed _ watched))
    exact hview
  | @product left right out pass mid pass' v w hl hr ihl ihr =>
    obtain ⟨hleft, hright⟩ := hi
    have hKl : K.Avoids o.catalogue left.baseRelations := hK.mono (List.subset_append_left _ _)
    have hKr : K.Avoids o.catalogue right.baseRelations := hK.mono (List.subset_append_right _ _)
    refine view_product hs hl hr hleft hright ha ?_ ?_
    · refine ihr hright hs.right (hl.accounted ha) (hv.right hl hleft hs) ?_ ?_
      · exact avoids_spread hKr (hl.avoids_right hs hleft ha)
      · exact hM.mono (List.subset_append_right _ _)
    · refine ihl hleft hs.left ha (hv.left hright hs) ?_ ?_
      · exact (avoids_left_of_scoped hs hright).times hKl
      · exact hM.mono (List.subset_append_left _ _)
  | @settle input plan pass mid pass' fragments hin hsteps _ ih =>
    have hperm : (Optimiser.covered fragments).Perm input.baseRelations := hin.covered_perm
    have hstaged : o.Staged literal db opened ⟨fragments, mid⟩ := hin.staged hi hs ha
    rw [← ih hi hs ha hv hK hM]
    exact Steps.view hsteps hstaged (hK.mono hperm.subset) (hM.mono hperm.subset)

theorem eval_of_optimise (hi : input.Scoped o.catalogue)
    (hs : o.catalogue.Separate input.baseRelations) (h : o.optimise input = .ok plan) :
    plan.eval literal db = input.eval literal db := by
  obtain ⟨pass, hr, hp⟩ := optimise_rewrites h
  have hvisible : Visible o.catalogue [] .initial input := by
    rintro n (hn | hn) -
    · exact absurd hn List.not_mem_nil
    · exact absurd hn List.not_mem_nil
  have hview : Bag.view literal (fun _ => True) pass.pending
        (spread literal db [.ofPlan plan] {Row.empty}) =
      Bag.view literal (fun _ => True) [] ((input.eval literal db).times {Row.empty}) :=
    hr.view hi hs Pass.accounted_initial hvisible (Bag.avoids_unit _ _) fun ho => absurd rfl ho
  have hunit : spread literal db [.ofPlan plan] {Row.empty} = plan.eval literal db :=
    Bag.times_unit _
  rw [hp, hunit, Bag.times_unit] at hview
  exact Bag.eq_of_view hview

/-- A join-free plan over registered relations without common attribute names, each projection
listing something, is optimised if it can be estimated, and over every database the result has the
same rows, each as often. -/
theorem optimise_equivalent {estimate : Plan}
    (hs : ∀ s ∈ plan.scans, o.catalogue.find? s.name = some s)
    (hd : plan.scans.Pairwise fun s t => ∀ n ∈ s.relation.names, n ∉ t.relation.names)
    (hl : ∀ i out, .project i [] out ∉ plan.subplans) (hj : ∀ i ∈ plan.subplans, i.kind ≠ .join)
    (he : plan.estimated = .ok estimate) :
    ∃ result, o.optimise plan = .ok result ∧
      ∀ (V : Type) [DecidableEq V] (literal : String → V) (db : Database V o.catalogue),
        result.eval literal db = plan.eval literal db := by
  obtain ⟨hscoped, -⟩ := Plan.scoped_of_estimateTree hs hl hj (Plan.estimated_eq_ok.mp he)
  have hseparate := Plan.separate_of_scans hs hd
  obtain ⟨result, hresult⟩ := optimise_orderly (hscoped.orderly hseparate) hscoped.not_stray
  refine ⟨result, hresult, ?_⟩
  intro V _ literal db
  exact eval_of_optimise hscoped hseparate hresult

end Optimiser

def Database.sample : Database String .sample where
  rows
    | "Employee" => {.of [("ESSN", "1"), ("LNAME", "Smith")], .of [("ESSN", "2"), ("LNAME", "Wong")]}
    | "Works_On" => {.of [("PNO", "3"), ("SSN", "1")], .of [("PNO", "4"), ("SSN", "2")]}
    | _ => 0
  columns := by
    intro name s hs row hr n
    have hm : s ∈ Catalogue.sample.relations := List.mem_of_find?_eq_some hs
    have hname := Catalogue.name_of_find? hs
    simp only [Catalogue.sample, List.mem_cons, List.not_mem_nil, or_false] at hm
    rcases hm with rfl | rfl
    · subst hname
      rcases Multiset.mem_cons.mp hr with rfl | hr
      · exact Row.isSome_of
      · exact Multiset.mem_singleton.mp hr ▸ Row.isSome_of
    · subst hname
      rcases Multiset.mem_cons.mp hr with rfl | hr
      · exact Row.isSome_of
      · exact Multiset.mem_singleton.mp hr ▸ Row.isSome_of

namespace Optimiser

theorem optimise_equivalent_sample : ∃ result,
    (⟨.sample, true⟩ : Optimiser).optimise .sample = .ok result ∧ result ≠ .sample ∧
      (result.eval id Database.sample).map (fun row => row "LNAME") = {some "Smith"} ∧
      ∀ (V : Type) [DecidableEq V] (literal : String → V) (db : Database V .sample),
        result.eval literal db = Plan.sample.eval literal db := by
  obtain ⟨estimate, he⟩ : ∃ estimate, Plan.sample.estimated = .ok estimate := ⟨_, rfl⟩
  obtain ⟨result, h, hrows⟩ := optimise_equivalent (o := ⟨.sample, true⟩) (by decide) (by decide)
    (by simp [Plan.sample]) (by decide) he
  have hne : result ≠ .sample := by
    cases h
    decide
  refine ⟨result, h, hne, ?_, hrows⟩
  rw [hrows]
  rfl

end Optimiser
end QueryPlan
