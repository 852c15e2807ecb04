import QueryPlan.Proofs.Search

/-! Nothing is lost on the way: the predicates of an optimised plan are those of the given one, each
once, and so are the relations it scans. An equality may come out with its sides exchanged. -/

namespace QueryPlan

namespace Predicate

/-- `q` is `p` as written or, for an equality, with its sides exchanged. -/
inductive Turned : Predicate → Predicate → Prop
  | same (p : Predicate) : Turned p p
  | exchanged (l r : Attribute) : Turned (.join l r) (.join r l)

theorem turned_swapped (p : Predicate) : Turned p p.swapped := by
  cases p with
  | value l v => exact .same _
  | join l r => exact .exchanged l r

theorem turned_of_oriented {p q : Predicate} (h : q = p ∨ q = p.swapped) : Turned p q := by
  rcases h with rfl | rfl
  · exact .same _
  · exact turned_swapped p

theorem Turned.trans {p q r : Predicate} (h : Turned p q) (h' : Turned q r) : Turned p r := by
  cases h with
  | same => exact h'
  | exchanged l r =>
    cases h' with
    | same => exact .exchanged l r
    | exchanged => exact .same _

instance : IsTrans Predicate Turned := ⟨fun _ _ _ => Turned.trans⟩

def Matches (ps qs : List Predicate) : Prop := Multiset.Rel Turned ps qs

variable {ps qs rs ps' qs' : List Predicate}

theorem matches_of_perm (h : ps.Perm qs) : Matches ps qs := by
  unfold Matches
  rw [Multiset.coe_eq_coe.mpr h]
  exact Multiset.rel_refl_of_refl_on fun p _ => .same p

theorem Matches.trans (h : Matches ps qs) (h' : Matches qs rs) : Matches ps rs :=
  Multiset.Rel.trans Turned h h'

theorem Matches.append (h : Matches ps qs) (h' : Matches ps' qs') :
    Matches (ps ++ ps') (qs ++ qs') := by
  unfold Matches at h h' ⊢
  rw [← Multiset.coe_add, ← Multiset.coe_add]
  exact h.add h'

theorem matches_cons {p q : Predicate} (h : Turned p q) (h' : Matches ps qs) :
    Matches (p :: ps) (q :: qs) := Multiset.Rel.cons h h'

end Predicate

namespace Optimiser
open Predicate

variable {o : Optimiser} {pass pass' : Pass} {plan : Plan}

def selected (fs : List Fragment) : List Predicate := fs.flatMap (·.plan.selections)

def joined (fs : List Fragment) : List Predicate := fs.flatMap (·.plan.joins)

/-- Every predicate met so far is selected by as it was written, or it still waits, or it has gone
into a join; only there it may be turned. -/
def Sorted (met : List Predicate) (a : Cluster) : Prop :=
  ∃ js, met.Perm (selected a.fragments ++ (js ++ a.pass.pending)) ∧ Matches js (joined a.fragments)

theorem selections_of_estimateRoot {p q : Plan} (h : p.estimateRoot = .ok q) :
    q.selections = p.selections ∧ q.joins = p.joins := by
  obtain ⟨r, -, rfl⟩ := Plan.estimateRoot_eq_ok.mp h
  cases p <;> exact ⟨rfl, rfl⟩

theorem selected_ofPlan (plan : Plan) : selected [.ofPlan plan] = plan.selections := by
  simp [selected, Fragment.ofPlan]

theorem joined_ofPlan (plan : Plan) : joined [.ofPlan plan] = plan.joins := by
  simp [joined, Fragment.ofPlan]

theorem Sorted.select {met : List Predicate} {before after : List Fragment} {f : Fragment}
    {p : Predicate} (h : Sorted met ⟨before ++ f :: after, pass⟩)
    (hperm : pass.pending.Perm (p :: pass'.pending))
    (he : (Plan.select f.plan p).estimateRoot = .ok plan) :
    Sorted met ⟨before ++ ⟨f.relations, plan⟩ :: after, pass'⟩ := by
  obtain ⟨js, hmet, hturned⟩ := h
  obtain ⟨hselections, hjoins⟩ := selections_of_estimateRoot he
  refine ⟨js, hmet.trans (List.perm_iff_count.mpr fun q => ?_), ?_⟩
  · simp only [selected, List.flatMap_append, List.flatMap_cons, hselections, Plan.selections,
      List.count_append, hperm.count_eq, List.count_cons]
    omega
  · simpa only [joined, List.flatMap_append, List.flatMap_cons, hjoins, Plan.joins] using hturned

theorem Step.sorted {met : List Predicate} {a b : Cluster} (h : o.Step a b) (ha : Sorted met a) :
    Sorted met b := by
  cases h with
  | value hp he => exact ha.select (Pass.pending_values hp) he
  | equality hp he => exact ha.select (Pass.pending_joins hp) he
  | narrow _ _ _ _ he =>
    obtain ⟨js, hmet, hturned⟩ := ha
    obtain ⟨hselections, hjoins⟩ := selections_of_estimateRoot he
    refine ⟨js, ?_, ?_⟩
    · simpa only [selected, List.flatMap_append, List.flatMap_cons, hselections,
        Plan.selections] using hmet
    · simpa only [joined, List.flatMap_append, List.flatMap_cons, hjoins, Plan.joins] using hturned
  | @join pass xs ys p q before between after f g plan hp hq he =>
    obtain ⟨js, hmet, hturned⟩ := ha
    obtain ⟨hselections, hjoins⟩ := selections_of_estimateRoot he
    refine ⟨p :: js, hmet.trans (List.perm_iff_count.mpr fun p => ?_), ?_⟩
    · simp only [selected, Pass.pending, hp, List.flatMap_append, List.flatMap_cons, hselections,
        Plan.selections, List.count_append, List.count_cons, Pass.release, List.cons_append]
      omega
    · refine (Predicate.matches_cons (Predicate.turned_of_oriented hq) hturned).trans
        (Predicate.matches_of_perm (List.perm_iff_count.mpr fun p => ?_))
      simp only [joined, List.flatMap_append, List.flatMap_cons, hjoins, Plan.joins,
        List.count_append, List.count_cons]
      omega
  | product he =>
    obtain ⟨js, hmet, hturned⟩ := ha
    obtain ⟨hselections, hjoins⟩ := selections_of_estimateRoot he
    refine ⟨js, ?_, ?_⟩
    · simpa only [selected, List.flatMap_cons, hselections, Plan.selections,
        List.append_assoc] using hmet
    · simpa only [joined, List.flatMap_cons, hjoins, Plan.joins, List.append_assoc] using hturned

theorem Steps.sorted {met : List Predicate} {a b : Cluster} (h : o.Steps a b) (ha : Sorted met a) :
    Sorted met b := h.invariant (fun _ _ hs => hs.sorted) ha

theorem Rewrites.sorted {input : Plan} {v : Visited} (h : o.Rewrites input pass v pass') :
    Sorted (input.selections ++ pass.pending) ⟨v.fragments, pass'⟩ := by
  induction h with
  | scan _ he hs =>
    refine hs.sorted ⟨[], ?_, ?_⟩
    · rw [selected_ofPlan, (selections_of_estimateRoot he).1]
      exact .refl _
    · rw [joined_ofPlan, (selections_of_estimateRoot he).2]
      exact Predicate.matches_of_perm (.refl _)
  | @select input _ p _ pass _ _ ih =>
    obtain ⟨js, hperm, hturned⟩ := ih
    refine ⟨js, ?_, hturned⟩
    refine List.Perm.trans ?_ hperm
    rw [Plan.selections, List.cons_append]
    exact List.perm_middle.symm.trans ((Pass.pending_defer pass p).symm.append_left _)
  | @project input inner plan listed _ _ _ below _ _ _ _ _ he ih =>
    obtain ⟨js, hperm, hturned⟩ := ih
    have hplan : plan.selections = inner.selections ∧ plan.joins = inner.joins := by
      rcases he with ⟨-, he⟩ | ⟨-, rfl⟩
      · obtain ⟨hselections, hjoins⟩ := selections_of_estimateRoot he
        exact ⟨hselections, hjoins⟩
      · exact ⟨rfl, rfl⟩
    rw [Visited.fragments, selected_ofPlan] at hperm
    rw [Visited.fragments, joined_ofPlan] at hturned
    refine ⟨js, ?_, ?_⟩
    · rw [Visited.fragments, selected_ofPlan, hplan.1]
      exact hperm
    · rw [Visited.fragments, joined_ofPlan, hplan.2]
      exact hturned
  | @product left right _ pass mid pass' v w _ _ ihl ihr =>
    obtain ⟨js, hleft, hls⟩ := ihl
    obtain ⟨ks, hright, hrs⟩ := ihr
    refine ⟨js ++ ks, List.perm_iff_count.mpr fun p => ?_, ?_⟩
    · have hl := hleft.count_eq p
      have hr := hright.count_eq p
      simp only [selected, Plan.selections, Visited.fragments, List.flatMap_append,
        List.count_append] at hl hr ⊢
      omega
    · rw [Visited.fragments, joined, List.flatMap_append]
      exact hls.append hrs
  | settle _ hs _ ih => exact hs.sorted ih

def applied (fs : List Fragment) : List Predicate := fs.flatMap (·.plan.conditions)

theorem applied_ofPlan (plan : Plan) : applied [.ofPlan plan] = plan.conditions := by
  simp [applied, Fragment.ofPlan]

theorem applied_perm (fs : List Fragment) : (applied fs).Perm (selected fs ++ joined fs) := by
  induction fs with
  | nil => exact .refl _
  | cons f fs ih =>
    have hf := f.plan.conditions_perm
    refine List.perm_iff_count.mpr fun p => ?_
    have hp := ih.count_eq p
    simp only [applied, selected, joined, List.flatMap_cons, List.count_append,
      hf.count_eq] at hp ⊢
    omega

theorem conditions_of_estimateRoot {p q : Plan} (h : p.estimateRoot = .ok q) :
    q.conditions = p.conditions := by
  obtain ⟨r, -, rfl⟩ := Plan.estimateRoot_eq_ok.mp h
  cases p <;> rfl

theorem Sorted.matches {met : List Predicate} {a : Cluster} (h : Sorted met a) :
    Matches met (applied a.fragments ++ a.pass.pending) := by
  obtain ⟨js, hperm, hturned⟩ := h
  have hjoined : Matches (selected a.fragments ++ (js ++ a.pass.pending))
      (selected a.fragments ++ (joined a.fragments ++ a.pass.pending)) :=
    (matches_of_perm (.refl _)).append (hturned.append (matches_of_perm (.refl _)))
  refine (matches_of_perm hperm).trans (hjoined.trans (matches_of_perm ?_))
  rw [← List.append_assoc]
  exact (applied_perm a.fragments).symm.append_right _

theorem Steps.matches {a b : Cluster} (h : o.Steps a b) :
    Matches (applied a.fragments ++ a.pass.pending) (applied b.fragments ++ b.pass.pending) := by
  have hsorted : Sorted (selected a.fragments ++ (joined a.fragments ++ a.pass.pending)) a :=
    ⟨joined a.fragments, .refl _, matches_of_perm (.refl _)⟩
  refine (matches_of_perm ?_).trans (h.sorted hsorted).matches
  rw [← List.append_assoc]
  exact (applied_perm a.fragments).append_right _

theorem Rewrites.matches {input : Plan} {v : Visited} (h : o.Rewrites input pass v pass') :
    Matches (input.selections ++ pass.pending) (applied v.fragments ++ pass'.pending) :=
  h.sorted.matches

theorem Rewrites.covered_perm {input : Plan} {v : Visited} (h : o.Rewrites input pass v pass') :
    (covered v.fragments).Perm input.baseRelations := by
  induction h with
  | scan hr he hs =>
    refine (Steps.covered_perm hs).trans (.of_eq ?_)
    rw [covered_ofPlan, baseRelations_of_estimateRoot he, Plan.baseRelations, Plan.baseRelations,
      Catalogue.name_of_find? hr]
  | select _ ih => exact ih
  | project _ _ _ _ he ih =>
    refine (List.Perm.of_eq ?_).trans ih
    rw [Visited.fragments, Visited.fragments, covered_ofPlan, covered_ofPlan]
    rcases he with ⟨-, he⟩ | ⟨-, rfl⟩
    · rw [baseRelations_of_estimateRoot he]
      rfl
    · rfl
  | product _ _ ihl ihr =>
    rw [Visited.fragments, covered, List.flatMap_append]
    exact ihl.append ihr
  | settle _ hs _ ih => exact (Steps.covered_perm hs).trans ih

theorem Rewrites.baseRelations_perm {input : Plan} (h : o.Rewrites input pass (.whole plan) pass') :
    plan.baseRelations.Perm input.baseRelations := by
  have hperm := h.covered_perm
  rwa [Visited.fragments, covered_ofPlan] at hperm

def Registered (o : Optimiser) (fs : List Fragment) : Prop :=
  ∀ f ∈ fs, ∀ s ∈ f.plan.scans, o.catalogue.find? s.name = some s

theorem scans_of_estimateRoot {p q : Plan} (h : p.estimateRoot = .ok q) : q.scans = p.scans := by
  obtain ⟨r, -, rfl⟩ := Plan.estimateRoot_eq_ok.mp h
  cases p <;> rfl

theorem registered_inherited :
    Inherited fun f => ∀ s ∈ f.plan.scans, o.catalogue.find? s.name = some s where
  select hf he := by
    rw [scans_of_estimateRoot he]
    exact hf
  project hf he := by
    rw [scans_of_estimateRoot he]
    exact hf
  join hf hg he := by
    rw [scans_of_estimateRoot he]
    exact List.forall_mem_append.mpr ⟨hf, hg⟩
  product hf hg he := by
    rw [scans_of_estimateRoot he]
    exact List.forall_mem_append.mpr ⟨hf, hg⟩

theorem registered_ofPlan : o.Registered [.ofPlan plan] ↔
    ∀ s ∈ plan.scans, o.catalogue.find? s.name = some s := by
  simp [Registered, Fragment.ofPlan]

theorem Rewrites.registered {input : Plan} {v : Visited} (h : o.Rewrites input pass v pass') :
    o.Registered v.fragments := by
  refine registered_inherited.rewrites (fun hr he => ?_) h
  have hscans := scans_of_estimateRoot he
  rw [Fragment.ofPlan, hscans]
  exact List.forall_mem_singleton.mpr hr

/-- The catalogue has every relation that the fragments cover. -/
def Known (o : Optimiser) (fs : List Fragment) : Prop :=
  ∀ r ∈ covered fs, ∃ s, o.catalogue.lookup r = .ok s

theorem Known.of_perm (h : o.Known fs) (hp : (covered gs).Perm (covered fs)) : o.Known gs :=
  fun r hr => h r (hp.mem_iff.mp hr)

theorem Steps.known {a b : Cluster} (h : o.Steps a b) (ha : o.Known a.fragments) :
    o.Known b.fragments := ha.of_perm h.covered_perm

theorem Rewrites.known {input : Plan} {v : Visited} (h : o.Rewrites input pass v pass') :
    o.Known v.fragments := by
  intro r hr
  obtain ⟨f, hf, hr⟩ := List.mem_flatMap.mp hr
  rw [h.faithful f hf, Plan.baseRelations_eq] at hr
  obtain ⟨s, hs, rfl⟩ := List.mem_map.mp hr
  exact ⟨s, Catalogue.lookup_eq_ok.mpr (h.registered f hf s hs)⟩

/-- An optimised plan applies the predicates of the given plan's selections and scans its relations,
each as often as there, and every scan carries the registered relation of its name. -/
theorem optimise_conserves {result : Plan} (h : o.optimise plan = .ok result) :
    Matches plan.selections result.conditions ∧ plan.baseRelations.Perm result.baseRelations ∧
      ∀ s ∈ result.scans, o.catalogue.find? s.name = some s := by
  obtain ⟨pass, hr, hp⟩ := optimise_rewrites h
  have hm := hr.matches
  rw [Visited.fragments, applied_ofPlan, hp, List.append_nil] at hm
  exact ⟨by simpa [Pass.pending, Pass.initial] using hm, hr.baseRelations_perm.symm,
    registered_ofPlan.mp hr.registered⟩

end Optimiser

def Catalogue.sample : Catalogue where
  relations := [⟨"Employee", ⟨1000, [⟨"ESSN", 1000⟩, ⟨"LNAME", 900⟩]⟩⟩,
    ⟨"Works_On", ⟨2000, [⟨"PNO", 100⟩, ⟨"SSN", 1000⟩]⟩⟩]
  names_nodup := by decide
  attributes_nodup := by decide
  valueCount_ne_zero := by decide

def Plan.sample : Plan :=
  .project
    (.select
      (.select
        (.product (.scan ⟨"Employee", ⟨1000, [⟨"ESSN", 1000⟩, ⟨"LNAME", 900⟩]⟩⟩)
          (.scan ⟨"Works_On", ⟨2000, [⟨"PNO", 100⟩, ⟨"SSN", 1000⟩]⟩⟩))
        (.join (.named "SSN") (.named "ESSN")))
      (.value (.named "PNO") "3"))
    [.named "LNAME"]

namespace Optimiser

theorem optimise_conserves_sample : ∃ result,
    (⟨.sample, true⟩ : Optimiser).optimise .sample = .ok result ∧
      result.conditions = [.join (.named "ESSN") (.named "SSN"), .value (.named "PNO") "3"] ∧
      Predicate.Matches Plan.sample.selections result.conditions ∧
      Plan.sample.baseRelations.Perm result.baseRelations ∧
      ∀ s ∈ result.scans, Catalogue.sample.find? s.name = some s := by
  obtain ⟨result, h, hc⟩ : ∃ result, (⟨.sample, true⟩ : Optimiser).optimise .sample = .ok result ∧
      result.conditions = [.join (.named "ESSN") (.named "SSN"), .value (.named "PNO") "3"] :=
    ⟨_, rfl, by decide⟩
  exact ⟨result, h, hc, optimise_conserves h⟩

end Optimiser
end QueryPlan
