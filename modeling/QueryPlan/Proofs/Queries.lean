import QueryPlan.Proofs.Evaluation
import QueryPlan.Proofs.FrontEnds

/-! The plan of a query, layer by layer: the product of the scanned relations in the order of the
query, the conditions selected on top of it with the first one innermost, and last the projection.
Conditions and projection read what some relation declares, so such a plan has an estimate. -/

namespace QueryPlan
open Outcome

namespace Plan
variable {c : Catalogue} {p q i : Plan} {ss : List NamedRelation} {ps : List Predicate} {n : String}

def Crossing : Plan → Prop
  | scan .. => True
  | product l r _ => l.Crossing ∧ r.Crossing
  | _ => False

def crossed (p : Plan) (ss : List NamedRelation) : Plan :=
  ss.foldl (fun p s => .product p (.scan s)) p

def selected (p : Plan) (ps : List Predicate) : Plan := ps.foldl (fun p c => .select p c) p

theorem crossing_crossed (h : p.Crossing) : (p.crossed ss).Crossing := by
  induction ss generalizing p with
  | nil => exact h
  | cons s ss ih => exact ih ⟨h, trivial⟩

theorem scans_selected : (p.selected ps).scans = p.scans := by
  induction ps generalizing p with
  | nil => rfl
  | cons c ps ih => exact ih

theorem columns_selected : (p.selected ps).columns = p.columns := by
  induction ps generalizing p with
  | nil => rfl
  | cons c ps ih => exact ih

theorem selections_selected : (p.selected ps).selections = ps.reverse ++ p.selections := by
  induction ps generalizing p with
  | nil => rfl
  | cons cond ps ih =>
    rw [selected, List.foldl_cons, ← selected, ih, List.reverse_cons, List.append_assoc]
    rfl

theorem mem_subplans_selected (h : i ∈ p.subplans) : i ∈ (p.selected ps).subplans := by
  induction ps generalizing p with
  | nil => exact h
  | cons c ps ih => exact ih (List.mem_cons_of_mem _ h)

theorem scoped_selected (h : p.Scoped c) (hp : ∀ p' ∈ ps, ∀ a ∈ p'.attributes, a.name ∈ p.columns) :
    (p.selected ps).Scoped c := by
  induction ps generalizing p with
  | nil => exact h
  | cons cond ps ih =>
    rw [List.forall_mem_cons] at hp
    exact ih (p := .select p cond) ⟨h, hp.1⟩ hp.2

theorem selections_of_crossing (h : p.Crossing) : p.selections = [] := by
  induction p with
  | scan s o => rfl
  | product l r o ihl ihr => rw [selections, ihl h.1, ihr h.2, List.append_nil]
  | _ => exact h.elim

theorem scoped_of_crossing (h : p.Crossing) (hs : ∀ s ∈ p.scans, c.find? s.name = some s) :
    p.Scoped c := by
  induction p with
  | scan s o => exact hs s (List.mem_singleton.mpr rfl)
  | product l r o ihl ihr =>
    exact ⟨ihl h.1 fun s hm => hs s (List.mem_append_left _ hm),
      ihr h.2 fun s hm => hs s (List.mem_append_right _ hm)⟩
  | _ => exact h.elim

theorem mem_columns_of_crossing (h : p.Crossing) (hs : ∀ s ∈ p.scans, c.find? s.name = some s) :
    n ∈ p.columns ↔ c.Declares p.baseRelations n := by
  refine ⟨(scoped_of_crossing h hs).declares_of_mem_columns, fun hd => ?_⟩
  induction p with
  | scan s o =>
    exact (Catalogue.declares_singleton (hs s (List.mem_singleton.mpr rfl))).mp hd
  | product l r o ihl ihr =>
    refine List.mem_append.mpr ((Catalogue.declares_append.mp hd).imp ?_ ?_)
    · exact ihl h.1 fun s hm => hs s (List.mem_append_left _ hm)
    · exact ihr h.2 fun s hm => hs s (List.mem_append_right _ hm)
  | _ => exact h.elim

end Plan

namespace Catalogue
variable {c : Catalogue} {ss : List NamedRelation} {rs : List String}

theorem map_some_eq_iff : ss.map some = rs.map c.find? ↔
    ss.map (·.name) = rs ∧ ∀ s ∈ ss, c.find? s.name = some s := by
  constructor
  · intro h
    induction ss generalizing rs with
    | nil => exact ⟨(List.map_eq_nil_iff.mp h.symm).symm, by simp⟩
    | cons s ss ih =>
      cases rs with
      | nil => cases h
      | cons r rs =>
        rw [List.map_cons, List.map_cons, List.cons.injEq] at h
        obtain ⟨hnames, hfound⟩ := ih h.2
        have hname : s.name = r := name_of_find? h.1.symm
        have hs : c.find? s.name = some s := hname ▸ h.1.symm
        exact ⟨by rw [List.map_cons, hname, hnames], List.forall_mem_cons.mpr ⟨hs, hfound⟩⟩
  · rintro ⟨rfl, h⟩
    rw [List.map_map]
    exact List.map_congr_left fun s hs => (h s hs).symm

theorem exists_map_some (h : ∀ r ∈ rs, ∃ s, c.find? r = some s) :
    ∃ ss : List NamedRelation, ss.map some = rs.map c.find? := by
  induction rs with
  | nil => exact ⟨[], rfl⟩
  | cons r rs ih =>
    rw [List.forall_mem_cons] at h
    obtain ⟨s, hs⟩ := h.1
    obtain ⟨ss, hss⟩ := ih h.2
    exact ⟨s :: ss, by rw [List.map_cons, List.map_cons, hss, hs]⟩

end Catalogue

namespace Query
variable {c : Catalogue} {q : Query} {plan start result : Plan} {earlier rest : List String}
  {ps : List Predicate}

def projected (q : Query) (p : Plan) : Plan :=
  match q.projection with
  | none => p
  | some names => .project p (names.map .named)

/-- No relation comes twice, and some relation declares whatever is compared or asked for. -/
structure Resolvable (q : Query) (c : Catalogue) : Prop where
  nodup : q.relations.Nodup
  conditions : ∀ p ∈ q.conditions, ∀ a ∈ p.attributes, c.Declares q.relations a.name
  projection : ∀ names ∈ q.projection, names ≠ [] ∧ ∀ n ∈ names, c.Declares q.relations n

theorem scans_eq_ok : scans c earlier rest start = .ok result ↔
    ((∀ n ∈ rest, n ∉ earlier) ∧ rest.Nodup) ∧
      ∃ ss : List NamedRelation, ss.map some = rest.map c.find? ∧ start.crossed ss = result := by
  induction rest generalizing earlier start with
  | nil => simp [scans, Plan.crossed]
  | cons name rest ih =>
    rw [scans]
    split
    · next hname =>
      have hname : name ∈ earlier := by simpa using hname
      simp [hname]
    · next hname =>
      have hname : name ∉ earlier := by simpa using hname
      simp only [bind_eq_ok, SourceError.ofPlan_eq_ok, Catalogue.lookup_eq_ok, ih]
      constructor
      · rintro ⟨s, hs, ⟨hearlier, hnodup⟩, ss, hss, rfl⟩
        simp only [List.mem_append, List.mem_singleton, not_or] at hearlier
        refine ⟨⟨List.forall_mem_cons.mpr ⟨hname, fun n hn => (hearlier n hn).1⟩,
          List.nodup_cons.mpr ⟨fun hn => (hearlier name hn).2 rfl, hnodup⟩⟩, s :: ss, ?_, rfl⟩
        rw [List.map_cons, List.map_cons, hs, hss]
      · rintro ⟨⟨hearlier, hnodup⟩, ss, hss, rfl⟩
        rw [List.nodup_cons] at hnodup
        cases ss with
        | nil => simp at hss
        | cons s ss =>
          rw [List.map_cons, List.map_cons, List.cons.injEq] at hss
          refine ⟨s, hss.1.symm, ⟨fun n hn => ?_, hnodup.2⟩, ss, hss.2, rfl⟩
          rw [List.mem_append, List.mem_singleton, not_or]
          exact ⟨(List.forall_mem_cons.mp hearlier).2 n hn, fun h => hnodup.1 (h ▸ hn)⟩

theorem checks_eq_ok {α : Type} {as : List α} {f : α → String} :
    (as.forM fun a => q.check c (f a)) = .ok () ↔ ∀ a ∈ as, c.Declares q.relations (f a) := by
  simp only [forM_eq_ok, check_eq_ok]

theorem conditions_eq_ok : ps.foldlM (fun plan p => do
      p.attributes.forM fun a => q.check c a.name
      return Plan.select plan p) start = .ok result ↔
    (∀ p ∈ ps, ∀ a ∈ p.attributes, c.Declares q.relations a.name) ∧ start.selected ps = result := by
  induction ps generalizing start with
  | nil => simp [Plan.selected, pure_eq_ok]
  | cons p ps ih =>
    simp only [List.foldlM_cons, bind_eq_ok, pure_eq_ok, ih, List.forall_mem_cons]
    constructor
    · rintro ⟨_, ⟨⟨⟩, hp, rfl⟩, hps, rfl⟩
      exact ⟨⟨checks_eq_ok.mp hp, hps⟩, rfl⟩
    · rintro ⟨⟨hp, hps⟩, rfl⟩
      exact ⟨_, ⟨⟨⟩, checks_eq_ok.mpr hp, rfl⟩, hps, rfl⟩

theorem projection_eq_ok : (match q.projection with
      | none => return start
      | some [] => .error (.plan .emptyProjection)
      | some names => do
        names.forM (q.check c)
        return .project start (names.map .named) : Except SourceError Plan) = .ok plan ↔
    (∀ names ∈ q.projection, names ≠ [] ∧ ∀ n ∈ names, c.Declares q.relations n) ∧
      q.projected start = plan := by
  rcases hp : q.projection with _ | _ | ⟨name, names⟩
  · simp [projected, hp, pure_eq_ok]
  · simp
  · simp only [projected, hp, bind_eq_ok, pure_eq_ok, Option.mem_some_iff, forall_eq', ne_eq,
      reduceCtorEq, not_false_eq_true, true_and]
    constructor
    · rintro ⟨⟨⟩, hc, rfl⟩
      exact ⟨checks_eq_ok.mp hc, rfl⟩
    · rintro ⟨hc, rfl⟩
      exact ⟨⟨⟩, checks_eq_ok.mpr hc, rfl⟩

theorem plan_eq_ok : q.plan c = .ok plan ↔ q.Resolvable c ∧ ∃ (s : NamedRelation)
    (ss : List NamedRelation), (s :: ss).map some = q.relations.map c.find? ∧
      q.projected (((Plan.scan s).crossed ss).selected q.conditions) = plan := by
  unfold Query.plan
  split
  · next hr => simp [hr]
  · next first rest hr =>
    simp only [bind_eq_ok, SourceError.ofPlan_eq_ok, Catalogue.lookup_eq_ok, scans_eq_ok,
      conditions_eq_ok]
    constructor
    · rintro ⟨s, hs, _, ⟨⟨hfirst, hrest⟩, ss, hss, rfl⟩, _, ⟨hconditions, rfl⟩, h⟩
      obtain ⟨hprojection, rfl⟩ := projection_eq_ok.mp h
      refine ⟨⟨?_, hconditions, hprojection⟩, s, ss, ?_, rfl⟩
      · rw [hr, List.nodup_cons]
        exact ⟨fun hm => hfirst first hm (List.mem_singleton.mpr rfl), hrest⟩
      · rw [hr, List.map_cons, List.map_cons, hs, hss]
    · rintro ⟨⟨hnodup, hconditions, hprojection⟩, s, ss, hss, rfl⟩
      rw [hr, List.nodup_cons] at hnodup
      rw [hr, List.map_cons, List.map_cons, List.cons.injEq] at hss
      refine ⟨s, hss.1.symm, _, ⟨⟨fun n hn hfirst => ?_, hnodup.2⟩, ss, hss.2, rfl⟩, _,
        ⟨hconditions, rfl⟩, projection_eq_ok.mpr ⟨hprojection, rfl⟩⟩
      exact hnodup.1 (List.mem_singleton.mp hfirst ▸ hn)

theorem mem_subplans_projected {i p : Plan} (h : i ∈ p.subplans) :
    i ∈ (q.projected p).subplans := by
  unfold projected
  split
  · exact h
  · exact List.mem_cons_of_mem _ h

theorem scans_projected (p : Plan) : (q.projected p).scans = p.scans := by
  unfold projected
  split <;> rfl

theorem exists_crossing (h : q.plan c = .ok plan) : ∃ core : Plan, core.Crossing ∧
    core ∈ plan.subplans ∧ core.scans = plan.scans ∧
      q.projected (core.selected q.conditions) = plan := by
  obtain ⟨-, s, ss, -, rfl⟩ := plan_eq_ok.mp h
  refine ⟨(Plan.scan s).crossed ss, Plan.crossing_crossed trivial, ?_, ?_, rfl⟩
  · exact mem_subplans_projected (Plan.mem_subplans_selected Plan.mem_subplans_self)
  · rw [scans_projected, Plan.scans_selected]

theorem selections_of_plan (h : q.plan c = .ok plan) : plan.selections = q.conditions.reverse := by
  obtain ⟨core, hcore, -, -, rfl⟩ := exists_crossing h
  have hselected : (core.selected q.conditions).selections = q.conditions.reverse := by
    rw [Plan.selections_selected, Plan.selections_of_crossing hcore, List.append_nil]
  unfold projected
  split <;> exact hselected

theorem scoped_of_plan (h : q.plan c = .ok plan) : plan.Scoped c := by
  obtain ⟨core, hcore, -, hscans, rfl⟩ := exists_crossing h
  have hgrown := plan_grown h
  have hresolvable := (plan_eq_ok.mp h).1
  have hregistered : ∀ s ∈ core.scans, c.find? s.name = some s :=
    hscans ▸ hgrown.canonical.registered
  have hbase : core.baseRelations = q.relations := by
    rw [Plan.baseRelations_eq, hscans, ← Plan.baseRelations_eq, hgrown.baseRelations]
  have hcolumns : ∀ n, c.Declares q.relations n → n ∈ core.columns := fun n hd =>
    (Plan.mem_columns_of_crossing hcore hregistered).mpr (hbase ▸ hd)
  have hselected : (core.selected q.conditions).Scoped c :=
    Plan.scoped_selected (Plan.scoped_of_crossing hcore hregistered)
      fun p hp a ha => hcolumns _ (hresolvable.conditions p hp a ha)
  cases hp : q.projection with
  | none =>
    rw [projected, hp]
    exact hselected
  | some names =>
    obtain ⟨hne, hnames⟩ := hresolvable.projection names hp
    simp only [projected, hp]
    refine ⟨fun hnil => hne (List.map_eq_nil_iff.mp hnil), hselected, fun a ha => ?_⟩
    obtain ⟨n, hn, rfl⟩ := List.mem_map.mp ha
    rw [Plan.columns_selected]
    exact hcolumns n (hnames n hn)

theorem estimated_of_plan (h : q.plan c = .ok plan) :
    ∃ estimate, plan.estimated = .ok estimate := by
  obtain ⟨estimate, -, he, -⟩ := (scoped_of_plan h).exists_estimate
  exact ⟨estimate, Plan.estimated_eq_ok.mpr he⟩

/-- A resolvable query over at least one relation, all of them registered. -/
structure Answerable (q : Query) (c : Catalogue) : Prop extends Resolvable q c where
  relations_ne_nil : q.relations ≠ []
  registered : ∀ r ∈ q.relations, ∃ s, c.lookup r = .ok s

theorem exists_plan_iff : (∃ plan, q.plan c = .ok plan) ↔ q.Answerable c := by
  constructor
  · rintro ⟨plan, h⟩
    obtain ⟨hresolvable, s, ss, hss, -⟩ := plan_eq_ok.mp h
    obtain ⟨hnames, hregistered⟩ := Catalogue.map_some_eq_iff.mp hss
    refine ⟨hresolvable, ?_, fun r hr => ?_⟩
    · rw [← hnames]
      exact List.cons_ne_nil _ _
    · rw [← hnames] at hr
      obtain ⟨t, ht, rfl⟩ := List.mem_map.mp hr
      exact ⟨t, Catalogue.lookup_eq_ok.mpr (hregistered t ht)⟩
  · rintro ⟨hresolvable, hne, hregistered⟩
    obtain ⟨ss, hss⟩ := Catalogue.exists_map_some fun r hr =>
      (hregistered r hr).imp fun s => Catalogue.lookup_eq_ok.mp
    cases ss with
    | nil => exact absurd (List.map_eq_nil_iff.mp hss.symm) hne
    | cons s ss => exact ⟨_, plan_eq_ok.mpr ⟨hresolvable, s, ss, hss, rfl⟩⟩

/-- Exactly the answerable queries have a plan: the left-deep product of the scanned relations in
the order of the query, under the conditions with the first one innermost, and, if there is a list
of attributes, under a projection to them in their order. Such a plan has an estimate. -/
theorem plan_exact (q : Query) (c : Catalogue) :
    ((∃ plan, q.plan c = .ok plan) ↔ q.Answerable c) ∧
      ∀ plan, q.plan c = .ok plan →
        (∃ s ss, (s :: ss).map (·.name) = q.relations ∧ (∀ t ∈ s :: ss, c.lookup t.name = .ok t) ∧
          plan = q.projected (((Plan.scan s).crossed ss).selected q.conditions)) ∧
        ∃ estimate, plan.estimated = .ok estimate := by
  refine ⟨exists_plan_iff, fun plan h => ⟨?_, estimated_of_plan h⟩⟩
  obtain ⟨-, s, ss, hss, hplan⟩ := plan_eq_ok.mp h
  obtain ⟨hnames, hregistered⟩ := Catalogue.map_some_eq_iff.mp hss
  exact ⟨s, ss, hnames, fun t ht => Catalogue.lookup_eq_ok.mpr (hregistered t ht), hplan.symm⟩

theorem plan_exact_sample : ∃ q : Query, ∃ estimate,
    q = ⟨some ["LNAME"], ["Employee", "Works_On"],
      [.join (.named "SSN") (.named "ESSN"), .value (.named "PNO") "3"]⟩ ∧
    q.plan .sample = .ok .sample ∧ q.Answerable .sample ∧ Plan.sample.estimated = .ok estimate ∧
      ¬ ({ q with relations := ["Employee", "Employee"] } : Query).Answerable .sample := by
  have h : (⟨some ["LNAME"], ["Employee", "Works_On"],
      [.join (.named "SSN") (.named "ESSN"), .value (.named "PNO") "3"]⟩ : Query).plan .sample =
        .ok .sample := rfl
  obtain ⟨hiff, hlayers⟩ := plan_exact _ .sample
  obtain ⟨-, estimate, he⟩ := hlayers _ h
  refine ⟨_, estimate, rfl, h, hiff.mp ⟨_, h⟩, he, fun ha => ?_⟩
  exact absurd ha.nodup (by decide)

end Query
end QueryPlan
