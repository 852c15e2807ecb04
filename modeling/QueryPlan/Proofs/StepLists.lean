import QueryPlan.Proofs.Queries

/-! Queries as lists of steps: a scan for each relation, a selection for each condition and the
projection last. The steps take the same course as the query, only that they do not ask whether a
relation declares what is compared or listed. So the two plans are equal where the query has one,
and a query that fails although its steps do not has an attribute that none of its relations
declares. -/

namespace QueryPlan
open Outcome

def Predicate.step : Predicate → Step
  | value l v => .select l.name (some v) none
  | join l r => .select l.name none (some r.name)

namespace Query

/-- Scans first, then selections, and a projection at the end unless everything is asked for. -/
def steps (q : Query) : List Step :=
  q.relations.map .scan ++ (q.conditions.map Predicate.step ++ (q.projection.map .project).toList)

def Bare (q : Query) : Prop := ∀ p ∈ q.conditions, ∀ a ∈ p.attributes, a.valueCount = 0

def mentions (q : Query) : List String := Predicate.reads q.conditions ++ q.projection.getD []

end Query

section Steps
variable {c : Catalogue} {number : Nat} {before result : Option Plan} {p : Plan}

theorem extendAll_nil : extendAll c number [] before = .ok result ↔ before = result := by
  simp [extendAll]

theorem extendAll_cons {step : Step} {rest : List Step} :
    extendAll c number (step :: rest) before = .ok result ↔ ∃ next,
      step.extend c number before = .ok next ∧
        extendAll c (number + 1) rest (some next) = .ok result :=
  bind_eq_ok

theorem extendAll_append {front back : List Step} :
    extendAll c number (front ++ back) before = .ok result ↔ ∃ mid,
      extendAll c number front before = .ok mid ∧
        extendAll c (number + front.length) back mid = .ok result := by
  induction front generalizing number before with
  | nil => simp [extendAll_nil]
  | cons step rest ih =>
    have hnumber : number + (step :: rest).length = number + 1 + rest.length := by
      rw [List.length_cons]
      omega
    simp only [List.cons_append, extendAll_cons, ih, hnumber]
    constructor
    · rintro ⟨next, hn, mid, hm, h⟩
      exact ⟨mid, ⟨next, hn, hm⟩, h⟩
    · rintro ⟨mid, ⟨next, hn, hm⟩, h⟩
      exact ⟨next, hn, mid, hm, h⟩

theorem extendAll_scans {rest : List String} :
    extendAll c number (rest.map .scan) (some p) = .ok result ↔
      ∃ q, Query.scans c p.baseRelations rest p = .ok q ∧ some q = result := by
  induction rest generalizing number p with
  | nil => simp [extendAll_nil, Query.scans]
  | cons name rest ih =>
    rw [List.map_cons, extendAll_cons, Query.scans]
    simp only [Step.extend_scan, Option.mem_some_iff, forall_eq', Option.elim]
    by_cases hname : name ∈ p.baseRelations
    · simp [hname]
    · simp only [hname, not_false_eq_true, true_and, List.contains_eq_mem, decide_false,
        Bool.false_eq_true, ↓reduceIte, bind_eq_ok, SourceError.ofPlan_eq_ok,
        Catalogue.lookup_eq_ok]
      constructor
      · rintro ⟨_, ⟨s, hs, rfl⟩, h⟩
        obtain ⟨q, hq, rfl⟩ := ih.mp h
        rw [Plan.baseRelations, Plan.baseRelations, Catalogue.name_of_find? hs] at hq
        exact ⟨q, ⟨s, hs, hq⟩, rfl⟩
      · rintro ⟨q, ⟨s, hs, hq⟩, rfl⟩
        refine ⟨_, ⟨s, hs, rfl⟩, ih.mpr ⟨q, ?_, rfl⟩⟩
        rw [Plan.baseRelations, Plan.baseRelations, Catalogue.name_of_find? hs]
        exact hq

theorem Predicate.extend_step {p : Plan} {condition : Predicate} {plan : Plan}
    (hb : ∀ a ∈ condition.attributes, a.valueCount = 0) :
    condition.step.extend c number (some p) = .ok plan ↔ .select p condition = plan := by
  have hnamed : ∀ a ∈ condition.attributes, Attribute.named a.name = a := fun a ha => by
    rw [Attribute.named, ← hb a ha]
  cases condition with
  | value l v =>
    rw [step, Step.extend_select]
    simp [Step.condition?, hnamed l List.mem_cons_self]
  | join l r =>
    rw [step, Step.extend_select]
    simp [Step.condition?, hnamed l List.mem_cons_self,
      hnamed r (List.mem_cons_of_mem _ List.mem_cons_self)]

theorem extendAll_conditions {ps : List Predicate}
    (hb : ∀ p ∈ ps, ∀ a ∈ p.attributes, a.valueCount = 0) :
    extendAll c number (ps.map Predicate.step) (some p) = .ok result ↔
      some (p.selected ps) = result := by
  induction ps generalizing number p with
  | nil => exact extendAll_nil
  | cons condition ps ih =>
    rw [List.forall_mem_cons] at hb
    simp only [List.map_cons, extendAll_cons, Predicate.extend_step hb.1, exists_eq_left', ih hb.2]
    rfl

theorem extendAll_projection {q : Query} :
    extendAll c number (q.projection.map .project).toList (some p) = .ok result ↔
      q.projection ≠ some [] ∧ some (q.projected p) = result := by
  rcases hp : q.projection with _ | names
  · simp [extendAll_nil, Query.projected, hp]
  · simp [extendAll_cons, extendAll_nil, Step.extend_project, Query.projected, hp]

theorem extendAll_layers {q : Query} (hb : q.Bare) {rest : List String} :
    extendAll c number (rest.map .scan ++ (q.conditions.map Predicate.step ++
        (q.projection.map .project).toList)) (some p) = .ok result ↔
      ∃ core, Query.scans c p.baseRelations rest p = .ok core ∧ q.projection ≠ some [] ∧
        some (q.projected (core.selected q.conditions)) = result := by
  rw [extendAll_append]
  simp only [extendAll_scans, extendAll_append]
  constructor
  · rintro ⟨_, ⟨core, hcore, rfl⟩, mid, hmid, h⟩
    obtain rfl := (extendAll_conditions hb).mp hmid
    exact ⟨core, hcore, extendAll_projection.mp h⟩
  · rintro ⟨core, hcore, h⟩
    exact ⟨_, ⟨core, hcore, rfl⟩, _, (extendAll_conditions hb).mpr rfl, extendAll_projection.mpr h⟩

end Steps

namespace Query
variable {c : Catalogue} {q : Query} {plan start : Plan} {e : SourceError} {n : String}

theorem extendAll_unscanned {ps : List Predicate} {projection : Option (List String)} :
    extendAll c 1 (ps.map Predicate.step ++ (projection.map .project).toList) none ≠
      .ok (some plan) := by
  intro h
  cases ps with
  | nil => cases projection <;> simp [extendAll_nil, extendAll_cons, Step.extend_project] at h
  | cons p ps => cases p <;> simp [extendAll_cons, Predicate.step, Step.extend_select] at h

theorem ofSteps_eq_ok (hb : q.Bare) : Plan.ofSteps c q.steps = .ok plan ↔ q.projection ≠ some [] ∧
    ∃ first rest s core, q.relations = first :: rest ∧ c.find? first = some s ∧
      scans c [first] rest (.scan s) = .ok core ∧
        q.projected (core.selected q.conditions) = plan := by
  have hofSteps : Plan.ofSteps c q.steps = .ok plan ↔
      extendAll c 1 q.steps none = .ok (some plan) := by
    rw [Plan.ofSteps, bind_eq_ok]
    constructor
    · rintro ⟨_ | p, hp, h⟩
      · cases h
      · rwa [← pure_eq_ok.mp h]
    · exact fun h => ⟨some plan, h, rfl⟩
  rw [hofSteps, steps]
  rcases hr : q.relations with _ | ⟨first, rest⟩
  · simpa using extendAll_unscanned
  · have hbase : ∀ s, c.find? first = some s → (Plan.scan s).baseRelations = [first] :=
      fun s hs => congrArg (fun n => [n]) (Catalogue.name_of_find? hs)
    simp only [List.map_cons, List.cons_append, extendAll_cons, Step.extend_scan, Option.elim,
      extendAll_layers hb]
    constructor
    · rintro ⟨_, ⟨-, s, hs, rfl⟩, core, hcore, hp, h⟩
      exact ⟨hp, first, rest, s, core, rfl, hs, hbase s hs ▸ hcore, Option.some.inj h⟩
    · rintro ⟨hp, _, _, s, core, heq, hs, hcore, rfl⟩
      cases heq
      exact ⟨_, ⟨by simp, s, hs, rfl⟩, core, (hbase s hs).symm ▸ hcore, hp, rfl⟩

theorem checks_eq_error {α : Type} {as : List α} {f : α → String}
    (h : (as.forM fun a => q.check c (f a)) = .error e) :
    ∃ n ∈ as.map f, .plan (.unresolvedAttribute n) = e ∧ ¬ c.Declares q.relations n := by
  obtain ⟨a, ha, h⟩ := forM_eq_error h
  obtain ⟨hd, he⟩ := check_eq_error.mp h
  exact ⟨f a, List.mem_map_of_mem ha, he, hd⟩

theorem conditions_eq_error {ps : List Predicate} (h : ps.foldlM (fun plan p => do
      p.attributes.forM fun a => q.check c a.name
      return Plan.select plan p) start = .error e) : ∃ n ∈ Predicate.reads ps,
    .plan (.unresolvedAttribute n) = e ∧ ¬ c.Declares q.relations n := by
  induction ps generalizing start with
  | nil => cases h
  | cons p ps ih =>
    rw [Predicate.reads_cons]
    rw [List.foldlM_cons] at h
    rcases bind_eq_error.mp h with h | ⟨next, -, h⟩
    · rcases bind_eq_error.mp h with h | ⟨⟨⟩, -, h⟩
      · obtain ⟨n, hn, he⟩ := checks_eq_error h
        exact ⟨n, List.mem_append_left _ hn, he⟩
      · cases h
    · obtain ⟨n, hn, he⟩ := ih h
      exact ⟨n, List.mem_append_right _ hn, he⟩

/-- Where the steps have a plan, only an undeclared attribute keeps the query from having one. -/
theorem plan_eq_error (hb : q.Bare) (hs : Plan.ofSteps c q.steps = .ok plan)
    (h : q.plan c = .error e) : ∃ n ∈ q.mentions,
      .plan (.unresolvedAttribute n) = e ∧ ¬ c.Declares q.relations n := by
  obtain ⟨hp, first, rest, s, core, hr, hfirst, hcore, -⟩ := (ofSteps_eq_ok hb).mp hs
  have hlookup := SourceError.ofPlan_eq_ok.mpr (Catalogue.lookup_eq_ok.mpr hfirst)
  simp only [Query.plan, hr, hlookup, ok_bind, hcore] at h
  rcases bind_eq_error.mp h with h | ⟨selected, -, h⟩
  · obtain ⟨n, hn, he⟩ := conditions_eq_error h
    exact ⟨n, List.mem_append_left _ hn, he⟩
  · split at h
    · cases h
    · next hnil => exact absurd hnil hp
    · next names _ hnames =>
      rcases bind_eq_error.mp h with h | ⟨-, -, h⟩
      · obtain ⟨n, hn, he⟩ := checks_eq_error (f := id) h
        refine ⟨n, List.mem_append_right _ ?_, he⟩
        rwa [hnames, Option.getD_some, ← List.map_id names]
      · cases h

theorem ofSteps_of_plan (hb : q.Bare) (h : q.plan c = .ok plan) :
    Plan.ofSteps c q.steps = .ok plan := by
  obtain ⟨hresolvable, s, ss, hss, rfl⟩ := plan_eq_ok.mp h
  rcases hr : q.relations with _ | ⟨first, rest⟩
  · simp [hr] at hss
  · rw [hr, List.map_cons, List.map_cons, List.cons.injEq] at hss
    have hnodup := List.nodup_cons.mp (hr ▸ hresolvable.nodup)
    have hlisted : q.projection ≠ some [] := fun hnil => (hresolvable.projection [] hnil).1 rfl
    have hnew : ∀ n ∈ rest, n ∉ [first] := fun n hn hfirst =>
      hnodup.1 (List.mem_singleton.mp hfirst ▸ hn)
    refine (ofSteps_eq_ok hb).mpr ⟨hlisted, first, rest, s, _, hr, hss.1.symm, ?_, rfl⟩
    exact scans_eq_ok.mpr ⟨⟨hnew, hnodup.2⟩, ss, hss.2, rfl⟩

theorem declares_of_plan (h : q.plan c = .ok plan) (hn : n ∈ q.mentions) :
    c.Declares q.relations n := by
  have hresolvable := (plan_eq_ok.mp h).1
  rcases List.mem_append.mp hn with hn | hn
  · obtain ⟨p, hp, a, ha, rfl⟩ := Predicate.mem_reads.mp hn
    exact hresolvable.conditions p hp a ha
  · cases hp : q.projection with
    | none => simp [hp] at hn
    | some names =>
      rw [hp, Option.getD_some] at hn
      exact (hresolvable.projection names hp).2 n hn

theorem plan_of_ofSteps (hb : q.Bare) (hs : Plan.ofSteps c q.steps = .ok plan)
    (hd : ∀ n ∈ q.mentions, c.Declares q.relations n) : q.plan c = .ok plan := by
  cases h : q.plan c with
  | ok p =>
    -- both plans come from the same steps
    exact (ofSteps_of_plan hb h).symm.trans hs
  | error e =>
    obtain ⟨n, hn, -, hnot⟩ := plan_eq_error hb hs h
    exact absurd (hd n hn) hnot

/-- A query has a plan exactly if its steps have that plan and some relation of the query declares
whatever it mentions. If only the steps have one, the query fails for an attribute that it mentions
and that none of its relations declares. -/
theorem plan_iff_ofSteps (hb : q.Bare) :
    (q.plan c = .ok plan ↔
      Plan.ofSteps c q.steps = .ok plan ∧ ∀ n ∈ q.mentions, c.Declares q.relations n) ∧
    (Plan.ofSteps c q.steps = .ok plan → ∀ e, q.plan c = .error e → ∃ n ∈ q.mentions,
      .plan (.unresolvedAttribute n) = e ∧ ¬ c.Declares q.relations n) := by
  refine ⟨⟨fun h => ⟨ofSteps_of_plan hb h, fun n => declares_of_plan h⟩, fun ⟨hs, hd⟩ => ?_⟩,
    fun hs e => plan_eq_error hb hs⟩
  exact plan_of_ofSteps hb hs hd

theorem plan_iff_ofSteps_sample :
    (⟨some ["LNAME"], ["Employee", "Works_On"],
      [.join (.named "SSN") (.named "ESSN"), .value (.named "PNO") "3"]⟩ : Query).Bare ∧
    Plan.ofSteps .sample [.scan "Employee", .scan "Works_On", .select "SSN" none (some "ESSN"),
      .select "PNO" (some "3") none, .project ["LNAME"]] = .ok .sample ∧
    ∃ plan n, Plan.ofSteps .sample [.scan "Employee", .project ["PNO"]] = .ok plan ∧
      (⟨some ["PNO"], ["Employee"], []⟩ : Query).plan .sample =
        .error (.plan (.unresolvedAttribute n)) ∧ ¬ Catalogue.sample.Declares ["Employee"] n := by
  have hb : (⟨some ["LNAME"], ["Employee", "Works_On"],
      [.join (.named "SSN") (.named "ESSN"), .value (.named "PNO") "3"]⟩ : Query).Bare := by
    simp [Bare, Predicate.attributes, Attribute.named]
  refine ⟨hb, ((plan_iff_ofSteps hb).1.mp rfl).1, ?_⟩
  obtain ⟨plan, e, hs, he⟩ : ∃ plan e,
      Plan.ofSteps .sample (⟨some ["PNO"], ["Employee"], []⟩ : Query).steps = .ok plan ∧
        (⟨some ["PNO"], ["Employee"], []⟩ : Query).plan .sample = .error e := ⟨_, _, rfl, rfl⟩
  obtain ⟨n, -, rfl, hd⟩ := (plan_iff_ofSteps (by simp [Bare])).2 hs e he
  exact ⟨plan, n, hs, he, hd⟩

end Query
end QueryPlan
