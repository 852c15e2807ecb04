import QueryPlan.Proofs.FrontEnds
import QueryPlan.Proofs.Lockstep

/-! Early projection changes projections and nothing else. For an orderly plan the two settings
reject for the same attribute, or give plans that are equal once projections are deleted, with the
same tuple counts throughout and the same names at the root. -/

namespace QueryPlan.Optimiser
open Outcome

variable {c : Catalogue} {e e' : Bool} {pass below : Pass} {opened listed keep : List Attribute}
  {schema r s : Relation} {inner plan p q : Plan} {watched : String → Prop}

theorem kept_listed_congr (h : ∀ a ∈ listed, r.resolve a = s.resolve a) (acc : List Attribute) :
    listed.foldlM (fun keep a => do return kept.add keep (← r.resolve a)) acc =
      listed.foldlM (fun keep a => do return kept.add keep (← s.resolve a)) acc := by
  induction listed generalizing acc with
  | nil => rfl
  | cons a listed ih =>
    rw [List.forall_mem_cons] at h
    rw [List.foldlM_cons, List.foldlM_cons, h.1]
    congr 1
    funext next
    exact ih h.2 next

theorem kept_agree (hl : ∀ a ∈ listed, r.count? a.name = s.count? a.name)
    (hr : ∀ n, pass.required.contains n = true → r.count? n = s.count? n) :
    Agree (fun k k' : List Attribute => ∀ n, n ∈ k.map (·.name) ↔ n ∈ k'.map (·.name))
      (kept pass r listed) (kept pass s listed) := by
  have hcongr := kept_listed_congr (fun a ha => Relation.resolve_congr (hl a ha)) []
  unfold kept
  rw [hcongr]
  refine Agree.bind_same fun first hf => .ok fun n => ?_
  have hleft : kept pass r listed = .ok _ := bind_eq_ok.mpr ⟨first, hcongr.trans hf, rfl⟩
  have hright : kept pass s listed = .ok _ := bind_eq_ok.mpr ⟨first, hf, rfl⟩
  rw [(kept_eq_ok hleft).2.2, (kept_eq_ok hright).2.2, Relation.mem_names_iff,
    Relation.mem_names_iff]
  refine or_congr_right (and_congr_left fun hn => ?_)
  rw [hr n hn]

theorem cut_eq_ok {β : Type} (hs : inner.output? = some schema)
    (hk : kept pass schema listed = .ok keep) (f : Plan → β) : ∃ plan out,
      (if keep.length < schema.arity then
        (do let plan ← (Plan.project inner keep).estimateRoot; pure (f plan))
        else (do let plan ← Except.ok inner; pure (f plan)) : Except PlanError β) = .ok (f plan) ∧
      plan.output? = some out ∧ plan.unprojected = inner.unprojected ∧
      out.tupleCount = schema.tupleCount ∧
      ∀ n, out.count? n = if n ∈ keep.map (·.name) then schema.count? n else none := by
  split
  · obtain ⟨out, ho⟩ := Estimate.project_of_mem (kept_subset hk)
    obtain ⟨ht, -, hc⟩ := Estimate.project_eq_ok ho
    have he : (Plan.project inner keep).estimateRoot = .ok (.project inner keep (some out)) :=
      Plan.estimateRoot_project.mpr ⟨schema, out, hs, ho, rfl⟩
    exact ⟨_, out, bind_eq_ok.mpr ⟨_, he, rfl⟩, rfl, rfl, ht, hc⟩
  · next hge =>
    refine ⟨inner, schema, rfl, hs, rfl, rfl, fun n => ?_⟩
    split
    · rfl
    · next hn =>
      exact Relation.count?_eq_none_iff.mpr fun hm => hn (kept_all hk (Nat.not_lt.mp hge) hm)

/-- Subtrees after their visits in the two runs. -/
inductive VisitedAlike (c : Catalogue) (watched : String → Prop) : Visited → Visited → Prop
  | whole {p q : Plan} (h : p.Twin c watched q) : VisitedAlike c watched (.whole p) (.whole q)
  | cluster {fs gs : List Fragment} (h : List.Forall₂ (Alike c watched) fs gs) :
      VisitedAlike c watched (.cluster fs) (.cluster gs)

theorem VisitedAlike.fragments {v w : Visited} (h : VisitedAlike c watched v w) :
    List.Forall₂ (Alike c watched) v.fragments w.fragments := by
  cases h with
  | whole h => exact .cons ⟨rfl, rfl, h⟩ .nil
  | cluster h => exact h

def VisitRun (c : Catalogue) (a b : Visited × Pass) : Prop :=
  a.2 = b.2 ∧ VisitedAlike c a.2.Watches a.1 b.1

theorem settle_twin {v w : Visited} (ha : pass.Accounted opened)
    (h : VisitedAlike c pass.Watches v w) :
    Agree (TwinRun c) (settle ⟨c, e⟩ v pass) (settle ⟨c, e'⟩ w pass) := by
  cases h with
  | whole h => exact .ok ⟨rfl, h⟩
  | cluster h => exact combine_twin ha h

/-- Schemas cut to the same names agree on all names if the larger ones agree on those. -/
theorem mirrors_cut {relations : List String} {watched' : String → Prop} {t u : Relation}
    {keep keep' : List Attribute} (h : r.Mirrors c relations watched s)
    (hk : ∀ n, n ∈ keep.map (·.name) ↔ n ∈ keep'.map (·.name))
    (hw : ∀ n ∈ keep.map (·.name), watched n)
    (ht : t.tupleCount = r.tupleCount ∧
      ∀ n, t.count? n = if n ∈ keep.map (·.name) then r.count? n else none)
    (hu : u.tupleCount = s.tupleCount ∧
      ∀ n, u.count? n = if n ∈ keep'.map (·.name) then s.count? n else none) :
    t.Mirrors c relations watched' u where
  tupleCount := by rw [ht.1, hu.1, h.tupleCount]
  count? n _ := by
    rw [ht.2, hu.2]
    by_cases hn : n ∈ keep.map (·.name)
    · rw [if_pos hn, if_pos ((hk n).mp hn), h.count? n (hw n hn)]
    · rw [if_neg hn, if_neg (mt (hk n).mpr hn)]
  left_declared n hn := by
    obtain ⟨v, hv⟩ := Relation.mem_names_iff.mp hn
    rw [ht.2] at hv
    split at hv
    · exact h.left_declared n (Relation.mem_names_iff.mpr ⟨v, hv⟩)
    · cases hv
  right_declared n hn := by
    obtain ⟨v, hv⟩ := Relation.mem_names_iff.mp hn
    rw [hu.2] at hv
    split at hv
    · exact h.right_declared n (Relation.mem_names_iff.mpr ⟨v, hv⟩)
    · cases hv

theorem walk_alike {input : Plan} (hi : input.Orderly c) (ha : pass.Accounted opened) :
    Agree (VisitRun c) (walk ⟨c, e⟩ input pass) (walk ⟨c, e'⟩ input pass) := by
  induction input generalizing pass opened with
  | scan s out =>
    refine (visitScan_twin ha).bind ?_
    rintro ⟨p, next⟩ ⟨q, _⟩ - - ⟨rfl, hpq⟩
    exact .ok ⟨rfl, .whole hpq⟩
  | select input cond out ih =>
    have hd := ha.defer cond
    refine (ih hi hd).bind ?_
    rintro ⟨v, mid⟩ ⟨w, _⟩ hv - ⟨rfl, hvw⟩
    refine (settle_twin ((walk_rewrites hv).accounted hd) hvw).bind ?_
    rintro ⟨p, next⟩ ⟨q, _⟩ - - ⟨rfl, hpq⟩
    exact .ok ⟨rfl, .whole hpq⟩
  | project input listed out ih =>
    obtain ⟨hl, hi⟩ := hi
    have hl' : ¬ listed.isEmpty = true := by simpa using hl
    rw [walk, walk, if_neg hl', if_neg hl']
    have hd := ha.acquireListed hl
    refine (ih hi hd).bind ?_
    rintro ⟨v, mid⟩ ⟨w, _⟩ hv - ⟨rfl, hvw⟩
    have hmid := (walk_rewrites hv).accounted hd
    refine (settle_twin hmid hvw).bind ?_
    rintro ⟨p, below⟩ ⟨q, _⟩ hp - ⟨rfl, hpq⟩
    have hbelow := (settle_visits (walk_visits hv) hp).rewrites.accounted hd
    obtain ⟨r, s, hr, hs, hm⟩ := hpq.outputs
    dsimp only
    rw [Plan.output_eq_ok.mpr hr, Plan.output_eq_ok.mpr hs, ok_bind, ok_bind]
    have hlisted : ∀ n ∈ listed.map (·.name), below.Watches n := fun n hn _ => by
      rw [hbelow.contains_iff, List.map_append]
      exact .inr (List.mem_append_right _ hn)
    -- the schemas may differ in what is neither listed nor required, and that is cut
    refine (kept_agree (fun a ha => hm.count? _ (hlisted _ (List.mem_map_of_mem ha)))
      fun n hn => hm.count? n fun _ => hn).bind fun k k' hk hk' hkk => ?_
    obtain ⟨p', t, hp', ht, hup, htr⟩ := cut_eq_ok hr hk fun plan => (Visited.whole plan,
      ({ below with narrowing := pass.narrowing } : Pass).release listed)
    obtain ⟨q', u, hq', hu, huq, hus⟩ := cut_eq_ok hs hk' fun plan => (Visited.whole plan,
      ({ below with narrowing := pass.narrowing } : Pass).release listed)
    have hkeep : ∀ n ∈ k.map (·.name), below.Watches n := fun n hn => by
      rcases ((kept_eq_ok hk).2.2 n).mp hn with hn | hn
      · exact hlisted n hn
      · exact fun _ => hn.2
    have hbase : p'.baseRelations = p.baseRelations := by
      rw [← p'.baseRelations_unprojected, hup, p.baseRelations_unprojected]
    refine .of_eq_ok hp' hq' ⟨rfl, .whole ⟨?_, t, u, ht, hu, ?_⟩⟩
    · rw [hup, huq, hpq.unprojected]
    · rw [hbase]
      exact mirrors_cut hm hkk hkeep htr hus
  | product left right out ihl ihr =>
    refine (ihl hi.1 ha).bind ?_
    rintro ⟨v, mid⟩ ⟨v', _⟩ hl - ⟨rfl, hv⟩
    have hmid := (walk_rewrites hl).accounted ha
    refine (ihr hi.2.1 hmid).bind ?_
    rintro ⟨w, next⟩ ⟨w', _⟩ hr - ⟨rfl, hw⟩
    have hnext := (walk_rewrites hr).accounted hmid
    -- the left operand's fragments were compared before the right one was visited
    refine .ok ⟨rfl, .cluster (List.rel_append (alike_mono hv.fragments ?_) hw.fragments)⟩
    intro n hd hn hon
    have hrequired := hn (hnext.narrowing_iff.mpr (hmid.narrowing_iff.mp hon))
    exact (walk_rewrites hl).required_left (walk_rewrites hr) hi ha hd hrequired
  | join => exact hi.elim

theorem visit_twin {input : Plan} (hi : input.Orderly c) (ha : pass.Accounted opened) :
    Agree (TwinRun c) (visit ⟨c, e⟩ input pass) (visit ⟨c, e'⟩ input pass) := by
  refine (walk_alike hi ha).bind ?_
  rintro ⟨v, mid⟩ ⟨w, _⟩ hv - ⟨rfl, hvw⟩
  exact settle_twin ((walk_rewrites hv).accounted ha) hvw

theorem unplaced?_twin (e e' : Bool) (h : p.Twin c watched q) :
    unplaced? ⟨c, e⟩ pass p = unplaced? ⟨c, e'⟩ pass q := by
  unfold unplaced?
  rw [h.baseRelations]
  rfl

theorem optimise_twin {input : Plan} (hi : input.Orderly c) :
    Agree (Plan.Twin c fun _ => True) (optimise ⟨c, e⟩ input) (optimise ⟨c, e'⟩ input) := by
  refine (visit_twin hi Pass.accounted_initial).bind ?_
  rintro ⟨p, pass⟩ ⟨q, _⟩ hp - ⟨rfl, hpq⟩
  have ha := (visit_rewrites hp).accounted Pass.accounted_initial
  dsimp only
  rw [unplaced?_twin e e' hpq]
  cases unplaced? ⟨c, e'⟩ pass q with
  | some a => exact .error _
  | none =>
    refine .ok (hpq.mono fun n _ _ hon => ?_)
    exact absurd rfl (ha.narrowing_iff.mp hon)

/-- With and without early projection a plan from a front end is rejected for the same attribute, or
the results are the same tree once projections are deleted, with the same tuple count at every
node, and the same attributes come out at the root. -/
theorem optimise_narrowing (h : plan.Built c) :
    (∃ err, optimise ⟨c, true⟩ plan = .error err ∧ optimise ⟨c, false⟩ plan = .error err) ∨
      ∃ p q, optimise ⟨c, true⟩ plan = .ok p ∧ optimise ⟨c, false⟩ plan = .ok q ∧
        p.unprojected = q.unprojected ∧
        ∃ r s, p.output? = some r ∧ q.output? = some s ∧ ∀ n, n ∈ r.names ↔ n ∈ s.names := by
  rcases (optimise_twin h.canonical.orderly).cases with herror | ⟨p, q, hp, hq, ht⟩
  · exact .inl herror
  · obtain ⟨r, s, hr, hs, hm⟩ := ht.outputs
    refine .inr ⟨p, q, hp, hq, ht.unprojected, r, s, hr, hs, fun n => ?_⟩
    rw [Relation.mem_names_iff, Relation.mem_names_iff, hm.count? n trivial]

theorem optimise_narrowing_sample : ∃ p q,
    optimise ⟨.sample, true⟩ .sample = .ok p ∧ optimise ⟨.sample, false⟩ .sample = .ok q ∧
      p ≠ q ∧ p.unprojected = q.unprojected := by
  have hq : (⟨some ["LNAME"], ["Employee", "Works_On"],
      [.join (.named "SSN") (.named "ESSN"), .value (.named "PNO") "3"]⟩ : Query).plan .sample =
        .ok .sample := rfl
  rcases optimise_narrowing (.query hq) with ⟨err, herr, -⟩ | ⟨p, q, hp, hq, hpq, -⟩
  · cases herr
  · refine ⟨p, q, hp, hq, ?_, hpq⟩
    cases hp
    cases hq
    decide

end QueryPlan.Optimiser
