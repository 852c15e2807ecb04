import QueryPlan.Proofs.Conservation
import QueryPlan.Proofs.Availability

/-! The moments of a run. From the visit of the root the run comes to the visits of the subtrees, to
every turn of the loops that push equalities into scans, select within fragments and join fragments,
and from there to each narrowing. Beside a moment stands what surrounds it in the given plan. -/

namespace QueryPlan
open Outcome

namespace Optimiser

/-- A place in a run: what is about to happen, and the state in which it happens. A visited subtree
is walked first; a cluster that the walk leaves is then joined in rounds. -/
inductive Moment
  | visit (plan : Plan) (pass : Pass)
  | walk (plan : Plan) (pass : Pass)
  | push (schema : Relation) (passed rest : List Predicate) (pass : Pass) (plan : Plan)
  | rounds (n : Nat) (fragments : List Fragment) (pass : Pass)
  | select (passed rest : List Predicate) (fragments : List Fragment) (pass : Pass)
  | narrow (pass : Pass) (plan : Plan)

/-- What surrounds a moment: the lists of the projections that are entered and not yet left, the
predicates of the selections met so far, and the fragments that wait beside the visited subtree. -/
structure Surroundings where
  opened : List (List Attribute)
  met : List Predicate
  aside : List Fragment

/-- The moments of the run on `root`, each in its surroundings. -/
inductive Reaches (o : Optimiser) (root : Plan) : Surroundings → Moment → Prop
  | root : Reaches o root ⟨[], [], []⟩ (.visit root .initial)
  | walk {s : Surroundings} {plan : Plan} {pass : Pass} (h : Reaches o root s (.visit plan pass)) :
      Reaches o root s (.walk plan pass)
  | select {s : Surroundings} {input : Plan} {p : Predicate} {out : Option Relation} {pass : Pass}
      (h : Reaches o root s (.walk (.select input p out) pass)) :
      Reaches o root { s with met := s.met ++ [p] } (.visit input (pass.defer p))
  | project {s : Surroundings} {input : Plan} {listed : List Attribute} {out : Option Relation}
      {pass : Pass} (h : Reaches o root s (.walk (.project input listed out) pass))
      (hl : listed ≠ []) :
      Reaches o root { s with opened := s.opened ++ [listed] }
        (.visit input { pass.acquire listed with narrowing := true })
  | left {s : Surroundings} {left right : Plan} {out : Option Relation} {pass : Pass}
      (h : Reaches o root s (.walk (.product left right out) pass)) :
      Reaches o root s (.walk left pass)
  | right {s : Surroundings} {left right : Plan} {out : Option Relation} {pass mid : Pass}
      {v : Visited} (h : Reaches o root s (.walk (.product left right out) pass))
      (hl : o.walk left pass = .ok (v, mid)) :
      Reaches o root
        { s with met := s.met ++ left.selections, aside := s.aside ++ v.fragments }
        (.walk right mid)
  | push {s : Surroundings} {t r : NamedRelation} {out : Option Relation} {pass mid : Pass}
      {base valued : Plan} (h : Reaches o root s (.walk (.scan t out) pass))
      (hr : o.catalogue.lookup t.name = .ok r) (hb : (Plan.scan r).estimateRoot = .ok base)
      (hv : pushValues r.relation [] pass.values pass base = .ok (valued, mid)) :
      Reaches o root s (.push r.relation [] mid.joins mid valued)
  | pushPassed {s : Surroundings} {schema : Relation} {passed rest : List Predicate}
      {p : Predicate} {pass : Pass} {plan : Plan}
      (h : Reaches o root s (.push schema passed (p :: rest) pass plan))
      (hp : ¬ (p.attributes.all fun a => schema.contains a.name) = true) :
      Reaches o root s (.push schema (passed ++ [p]) rest pass plan)
  | pushNarrow {s : Surroundings} {schema : Relation} {passed rest : List Predicate}
      {p : Predicate} {pass : Pass} {plan selected : Plan}
      (h : Reaches o root s (.push schema passed (p :: rest) pass plan))
      (hp : (p.attributes.all fun a => schema.contains a.name) = true)
      (he : (Plan.select plan p).estimateRoot = .ok selected) :
      Reaches o root s
        (.narrow (({ pass with joins := passed ++ rest } : Pass).release p.attributes) selected)
  | pushTaken {s : Surroundings} {schema : Relation} {passed rest : List Predicate}
      {p : Predicate} {pass next : Pass} {plan grown : Plan}
      (h : Reaches o root s (.push schema passed (p :: rest) pass plan))
      (hp : (p.attributes.all fun a => schema.contains a.name) = true)
      (ha : o.applySelection { pass with joins := passed ++ rest } plan p = .ok (grown, next)) :
      Reaches o root s (.push schema passed rest next grown)
  | scanNarrow {s : Surroundings} {t r : NamedRelation} {out : Option Relation}
      {pass mid last : Pass} {base valued equated : Plan}
      (h : Reaches o root s (.walk (.scan t out) pass))
      (hr : o.catalogue.lookup t.name = .ok r) (hb : (Plan.scan r).estimateRoot = .ok base)
      (hv : pushValues r.relation [] pass.values pass base = .ok (valued, mid))
      (he : o.pushEqualities r.relation [] mid.joins mid valued = .ok (equated, last)) :
      Reaches o root s (.narrow last equated)
  | rounds {s : Surroundings} {plan : Plan} {pass mid : Pass} {fs : List Fragment}
      (h : Reaches o root s (.visit plan pass))
      (hw : o.walk plan pass = .ok (.cluster fs, mid)) :
      Reaches o root { s with met := s.met ++ plan.selections }
        (.rounds (mid.joins.length + 1) fs mid)
  | round {s : Surroundings} {n : Nat} {fs : List Fragment} {pass : Pass}
      (h : Reaches o root s (.rounds (n + 1) fs pass)) :
      Reaches o root s (.select [] pass.joins fs pass)
  | selectPassed {s : Surroundings} {passed rest : List Predicate} {p : Predicate}
      {fs : List Fragment} {pass : Pass} (h : Reaches o root s (.select passed (p :: rest) fs pass))
      (hp : o.resolveBoth? fs p = none) :
      Reaches o root s (.select (passed ++ [p]) rest fs pass)
  | selectNarrow {s : Surroundings} {passed rest : List Predicate} {p : Predicate}
      {fs : List Fragment} {pass : Pass} {i : Fin fs.length} {selected : Plan}
      (h : Reaches o root s (.select passed (p :: rest) fs pass))
      (hp : o.resolveBoth? fs p = some i)
      (he : (Plan.select (fs.get i).plan p).estimateRoot = .ok selected) :
      Reaches o root s
        (.narrow (({ pass with joins := passed ++ rest } : Pass).release p.attributes) selected)
  | selectTaken {s : Surroundings} {passed rest : List Predicate} {p : Predicate}
      {fs : List Fragment} {pass next : Pass} {i : Fin fs.length} {plan : Plan}
      (h : Reaches o root s (.select passed (p :: rest) fs pass))
      (hp : o.resolveBoth? fs p = some i)
      (ha : o.applySelection { pass with joins := passed ++ rest } (fs.get i).plan p =
        .ok (plan, next)) :
      Reaches o root s (.select passed rest (fs.set i { fs.get i with plan }) next)
  | joinNarrow {s : Surroundings} {n : Nat} {fs gs : List Fragment} {pass mid : Pass}
      {c : Candidate gs} {joined : Plan} (h : Reaches o root s (.rounds (n + 1) fs pass))
      (hl : o.applyLocal [] pass.joins fs pass = .ok (gs, mid))
      (hb : o.bestFrom gs 0 mid.joins none = .ok (some c))
      (he : (Plan.join (gs.get c.left).plan (gs.get c.right).plan c.predicate).estimateRoot =
        .ok joined) :
      Reaches o root s
        (.narrow { mid.release c.predicate.attributes with joins := mid.joins.eraseIdx c.position }
          joined)
  | nextRound {s : Surroundings} {n : Nat} {fs gs : List Fragment} {pass next : Pass}
      (h : Reaches o root s (.rounds (n + 1) fs pass))
      (hr : o.round fs pass = .ok (.joined gs next)) :
      Reaches o root s (.rounds n gs next)

namespace Moment

def pass : Moment → Pass
  | visit _ pass => pass
  | walk _ pass => pass
  | push _ _ _ pass _ => pass
  | rounds _ _ pass => pass
  | select _ _ _ pass => pass
  | narrow pass _ => pass

def Ends (o : Optimiser) : Moment → Prop
  | visit plan pass => ∃ r, o.visit plan pass = .ok r
  | walk plan pass => ∃ r, o.walk plan pass = .ok r
  | push schema passed rest pass plan => ∃ r, o.pushEqualities schema passed rest pass plan = .ok r
  | rounds n fs pass => ∃ r, o.rounds n fs pass = .ok r
  | select passed rest fs pass => ∃ r, o.applyLocal passed rest fs pass = .ok r
  | narrow pass plan => ∃ r, o.narrow pass plan = .ok r

def Aligned : Moment → Prop
  | push _ passed rest pass _ => pass.joins = passed ++ rest
  | rounds n _ pass => pass.joins.length < n
  | select passed rest _ pass => pass.joins = passed ++ rest
  | _ => True

end Moment

variable {o : Optimiser} {root result : Plan} {s : Surroundings} {m : Moment}

theorem narrow_of_applySelection {pass next : Pass} {plan grown selected : Plan} {p : Predicate}
    (h : o.applySelection pass plan p = .ok (grown, next))
    (he : (Plan.select plan p).estimateRoot = .ok selected) :
    o.narrow (pass.release p.attributes) selected = .ok grown := by
  obtain ⟨_, hs, h⟩ := bind_eq_ok.mp h
  cases he.symm.trans hs
  obtain ⟨narrowed, hn, h⟩ := bind_eq_ok.mp h
  cases pure_eq_ok.mp h
  exact hn

theorem pushEqualities_of_visitScan {name : String} {r : NamedRelation} {pass mid last : Pass}
    {base valued plan : Plan} (h : o.visitScan name pass = .ok (plan, last))
    (hr : o.catalogue.lookup name = .ok r) (hb : (Plan.scan r).estimateRoot = .ok base)
    (hv : pushValues r.relation [] pass.values pass base = .ok (valued, mid)) :
    ∃ equated, o.pushEqualities r.relation [] mid.joins mid valued = .ok (equated, last) ∧
      o.narrow last equated = .ok plan := by
  obtain ⟨_, hr', h⟩ := bind_eq_ok.mp h
  cases hr.symm.trans hr'
  obtain ⟨_, hb', h⟩ := bind_eq_ok.mp h
  cases hb.symm.trans hb'
  obtain ⟨_, hv', h⟩ := bind_eq_ok.mp h
  cases hv.symm.trans hv'
  obtain ⟨⟨equated, next⟩, he, h⟩ := bind_eq_ok.mp h
  obtain ⟨narrowed, hn, h⟩ := bind_eq_ok.mp h
  cases pure_eq_ok.mp h
  exact ⟨equated, he, hn⟩

theorem rounds_succ {n : Nat} {fs : List Fragment} {pass : Pass}
    {r : List Fragment × Pass} (h : o.rounds (n + 1) fs pass = .ok r) :
    ∃ result, o.round fs pass = .ok result ∧
      ∀ gs next, result = .joined gs next → o.rounds n gs next = .ok r := by
  obtain ⟨result, hr, h⟩ := bind_eq_ok.mp h
  refine ⟨result, hr, ?_⟩
  rintro gs next rfl
  exact h

theorem Reaches.ends (h : o.Reaches root s m) (hroot : ∃ r, o.visit root .initial = .ok r) :
    m.Ends o := by
  induction h with
  | root => exact hroot
  | walk _ ih =>
    obtain ⟨r, hr⟩ := ih
    obtain ⟨visited, hw, -⟩ := bind_eq_ok.mp hr
    exact ⟨visited, hw⟩
  | select _ ih =>
    obtain ⟨r, hr⟩ := ih
    obtain ⟨⟨v, mid⟩, hw, hr⟩ := bind_eq_ok.mp hr
    obtain ⟨settled, hs, -⟩ := bind_eq_ok.mp hr
    exact ⟨settled, bind_eq_ok.mpr ⟨_, hw, hs⟩⟩
  | project _ hl ih =>
    obtain ⟨r, hr⟩ := ih
    rw [Optimiser.walk, if_neg (by simpa using hl)] at hr
    obtain ⟨⟨v, mid⟩, hw, hr⟩ := bind_eq_ok.mp hr
    obtain ⟨settled, hs, -⟩ := bind_eq_ok.mp hr
    exact ⟨settled, bind_eq_ok.mpr ⟨_, hw, hs⟩⟩
  | left _ ih =>
    obtain ⟨r, hr⟩ := ih
    obtain ⟨visited, hw, -⟩ := bind_eq_ok.mp hr
    exact ⟨visited, hw⟩
  | right _ hl ih =>
    obtain ⟨r, hr⟩ := ih
    obtain ⟨_, hw, hr⟩ := bind_eq_ok.mp hr
    cases hl.symm.trans hw
    obtain ⟨visited, hw, -⟩ := bind_eq_ok.mp hr
    exact ⟨visited, hw⟩
  | push _ hr hb hv ih =>
    obtain ⟨_, hw⟩ := ih
    obtain ⟨⟨plan, last⟩, hscan, -⟩ := bind_eq_ok.mp hw
    obtain ⟨equated, he, -⟩ := pushEqualities_of_visitScan hscan hr hb hv
    exact ⟨_, he⟩
  | pushPassed _ hp ih =>
    obtain ⟨r, hr⟩ := ih
    rw [pushEqualities, if_neg hp] at hr
    exact ⟨r, hr⟩
  | pushNarrow _ hp he ih =>
    obtain ⟨r, hr⟩ := ih
    rw [pushEqualities, if_pos hp] at hr
    obtain ⟨⟨grown, next⟩, ha, -⟩ := bind_eq_ok.mp hr
    exact ⟨grown, narrow_of_applySelection ha he⟩
  | pushTaken _ hp ha ih =>
    obtain ⟨r, hr⟩ := ih
    rw [pushEqualities, if_pos hp, ha] at hr
    exact ⟨r, hr⟩
  | scanNarrow _ hr hb hv he ih =>
    obtain ⟨_, hw⟩ := ih
    obtain ⟨⟨plan, last⟩, hscan, -⟩ := bind_eq_ok.mp hw
    obtain ⟨_, he', hn⟩ := pushEqualities_of_visitScan hscan hr hb hv
    cases he.symm.trans he'
    exact ⟨plan, hn⟩
  | rounds _ hw ih =>
    obtain ⟨r, hr⟩ := ih
    obtain ⟨_, hw', hr⟩ := bind_eq_ok.mp hr
    cases hw.symm.trans hw'
    obtain ⟨joined, hrounds, -⟩ := bind_eq_ok.mp hr
    exact ⟨joined, hrounds⟩
  | round _ ih =>
    obtain ⟨r, hr⟩ := ih
    obtain ⟨result, hround, -⟩ := rounds_succ hr
    obtain ⟨selected, hl, -⟩ := bind_eq_ok.mp hround
    exact ⟨selected, hl⟩
  | selectPassed _ hp ih =>
    obtain ⟨r, hr⟩ := ih
    rw [applyLocal, hp] at hr
    exact ⟨r, hr⟩
  | selectNarrow _ hp he ih =>
    obtain ⟨r, hr⟩ := ih
    rw [applyLocal, hp] at hr
    obtain ⟨⟨plan, next⟩, ha, -⟩ := bind_eq_ok.mp hr
    exact ⟨plan, narrow_of_applySelection ha he⟩
  | selectTaken _ hp ha ih =>
    obtain ⟨r, hr⟩ := ih
    rw [applyLocal, hp] at hr
    obtain ⟨_, ha', hr⟩ := bind_eq_ok.mp hr
    cases ha.symm.trans ha'
    exact ⟨r, hr⟩
  | joinNarrow _ hl hb he ih =>
    obtain ⟨r, hr⟩ := ih
    obtain ⟨result, hround, -⟩ := rounds_succ hr
    obtain ⟨_, hl', hround⟩ := bind_eq_ok.mp hround
    cases hl.symm.trans hl'
    obtain ⟨_, hb', hround⟩ := bind_eq_ok.mp hround
    cases hb.symm.trans hb'
    obtain ⟨_, hjoin, -⟩ := bind_eq_ok.mp hround
    obtain ⟨_, he', hjoin⟩ := bind_eq_ok.mp hjoin
    cases he.symm.trans he'
    obtain ⟨plan, hn, -⟩ := bind_eq_ok.mp hjoin
    exact ⟨plan, hn⟩
  | nextRound _ hround ih =>
    obtain ⟨r, hr⟩ := ih
    obtain ⟨_, hround', hnext⟩ := rounds_succ hr
    cases hround.symm.trans hround'
    exact ⟨r, hnext _ _ rfl⟩

theorem Reaches.exists_walk {plan i : Plan} {pass : Pass} (h : o.Reaches root s (.walk plan pass))
    (hroot : ∃ r, o.visit root .initial = .ok r) (hi : i ∈ plan.subplans) :
    ∃ s' pass', o.Reaches root s' (.walk i pass') := by
  have hends := h.ends hroot
  induction plan generalizing s pass with
  | scan t out =>
    rw [List.mem_singleton.mp hi]
    exact ⟨s, pass, h⟩
  | select input p out ih =>
    rcases List.mem_cons.mp hi with rfl | hi
    · exact ⟨s, pass, h⟩
    · have hinput := Reaches.walk (.select h)
      exact ih hinput hi (hinput.ends hroot)
  | project input listed out ih =>
    rcases List.mem_cons.mp hi with rfl | hi
    · exact ⟨s, pass, h⟩
    · have hl : listed ≠ [] := by
        rintro rfl
        obtain ⟨_, hw⟩ := hends
        cases hw
      have hinput := Reaches.walk (.project h hl)
      exact ih hinput hi (hinput.ends hroot)
  | product left right out ihl ihr =>
    rcases List.mem_cons.mp hi with rfl | hi
    · exact ⟨s, pass, h⟩
    · obtain ⟨_, hw⟩ := hends
      obtain ⟨⟨v, mid⟩, hl, -⟩ := bind_eq_ok.mp hw
      rcases List.mem_append.mp hi with hi | hi
      · exact ihl (.left h) hi ⟨_, hl⟩
      · have hright := Reaches.right h hl
        exact ihr hright hi (hright.ends hroot)
  | join left right p out =>
    obtain ⟨_, hw⟩ := hends
    cases hw

theorem Reaches.aligned (h : o.Reaches root s m) : m.Aligned := by
  induction h with
  | push => exact (List.nil_append _).symm
  | pushPassed _ _ ih => exact ih.trans (List.append_cons ..)
  | pushTaken _ _ ha =>
    obtain rfl := pass_of_applySelection ha
    rfl
  | rounds => exact Nat.lt_succ_self _
  | round => exact (List.nil_append _).symm
  | selectPassed _ _ ih => exact ih.trans (List.append_cons ..)
  | selectTaken _ _ ha =>
    obtain rfl := pass_of_applySelection ha
    rfl
  | nextRound _ hr ih =>
    have hless := (round_joined hr).2
    exact Nat.lt_of_lt_of_le hless (Nat.le_of_lt_succ ih)
  | _ => trivial

/-- What holds in the beginning, and stays when a predicate is put off, a projection entered, a
subtree visited, fragments rewritten or an equality taken from those that wait, holds throughout. -/
theorem Reaches.invariant {P : List (List Attribute) → List Predicate → Pass → Prop}
    (hinitial : P [] [] .initial)
    (hdefer : ∀ {opened met pass} (p : Predicate), P opened met pass →
      P opened (met ++ [p]) (pass.defer p))
    (henter : ∀ {opened met pass listed}, listed ≠ [] → P opened met pass →
      P (opened ++ [listed]) met { pass.acquire listed with narrowing := true })
    (hvisit : ∀ {opened met pass pass' input v}, o.Rewrites input pass v pass' →
      P opened met pass → P opened (met ++ input.selections) pass')
    (hsteps : ∀ {opened met pass pass' fs gs}, o.Steps ⟨fs, pass⟩ ⟨gs, pass'⟩ →
      P opened met pass → P opened met pass')
    (hdrop : ∀ {opened met pass xs ys} {p q : Predicate}, pass.joins = xs ++ p :: ys →
      q.attributes.Perm p.attributes → P opened met pass →
        P opened met { pass.release q.attributes with joins := xs ++ ys })
    (h : o.Reaches root s m) : P s.opened s.met m.pass := by
  induction h with
  | root => exact hinitial
  | select _ ih => exact hdefer _ ih
  | project _ hl ih => exact henter hl ih
  | right _ hl ih => exact hvisit (walk_rewrites hl) ih
  | @push s t r out pass mid base valued _ _ _ hv ih =>
    exact hsteps (pushValues_steps [r.name] (List.nil_append _).symm (by simp) hv).1 ih
  | pushNarrow h _ _ ih =>
    have hdropped := hdrop h.aligned (.refl _) ih
    exact hdropped
  | pushTaken h _ ha ih =>
    obtain rfl := pass_of_applySelection ha
    have hdropped := hdrop h.aligned (.refl _) ih
    exact hdropped
  | @scanNarrow s t r out pass mid last base valued equated _ _ _ hv he ih =>
    have hvalued := (pushValues_steps (o := o) [r.name] (List.nil_append _).symm (by simp) hv).1
    have hequated := (pushEqualities_moves [r.name] (List.nil_append _).symm (by simp) he).1
    exact hsteps (hvalued.trans hequated.steps) ih
  | rounds _ hw ih => exact hvisit (walk_rewrites hw) ih
  | selectNarrow h _ _ ih =>
    have hdropped := hdrop h.aligned (.refl _) ih
    exact hdropped
  | selectTaken h _ ha ih =>
    obtain rfl := pass_of_applySelection ha
    have hdropped := hdrop h.aligned (.refl _) ih
    exact hdropped
  | joinNarrow _ hl hb _ ih =>
    have hselected := (applyLocal_moves (List.nil_append _).symm (by simp) hl).1
    obtain ⟨-, p, hp, hq⟩ := bestFrom_waits hb
    obtain ⟨hsplit, herase⟩ := eraseIdx_split hp
    rw [Moment.pass, herase]
    refine hdrop hsplit ?_ (hsteps hselected.steps ih)
    rcases hq with hq | hq
    · rw [hq]
    · rw [hq]
      exact p.attributes_swapped
  | nextRound _ hr ih => exact hsteps (round_joined hr).1.steps ih
  | _ => assumption

theorem Reaches.accounted (h : o.Reaches root s m) : m.pass.Accounted s.opened.flatten := by
  apply h.invariant (P := fun opened _ pass => pass.Accounted opened.flatten)
  · exact Pass.accounted_initial
  · intro _ _ _ p ha
    exact ha.defer p
  · intro _ _ _ listed hl ha
    rw [List.flatten_append, List.flatten_singleton]
    exact ha.acquireListed hl
  · intro _ _ _ _ _ _ hr ha
    exact hr.accounted ha
  · intro _ _ _ _ _ _ hs ha
    exact Steps.accounted hs ha
  · intro _ _ _ _ _ _ _ hj hq ha
    exact ha.dropJoin hj hq

theorem Reaches.listed_ne_nil (h : o.Reaches root s m) : ∀ listed ∈ s.opened, listed ≠ [] := by
  induction h with
  | root => exact fun _ hm => absurd hm List.not_mem_nil
  | project _ hl ih => exact List.forall_mem_append.mpr ⟨ih, List.forall_mem_singleton.mpr hl⟩
  | _ => assumption

end Optimiser

namespace Pass
variable {pass : Pass} {opened : List (List Attribute)}

/-- The state below projections with the given lists: the count of a name is the number of times
that it is mentioned by the waiting comparisons with literals, by the waiting equalities and by the
lists, and narrowing is on when there is a list. -/
structure Balanced (opened : List (List Attribute)) (pass : Pass) : Prop where
  count_eq : ∀ n, pass.required.count n = (Predicate.reads pass.values).count n +
    (Predicate.reads pass.joins).count n + (opened.flatten.map (·.name)).count n
  narrowing_iff : pass.narrowing = true ↔ opened ≠ []

theorem Accounted.balanced (h : pass.Accounted opened.flatten)
    (hl : ∀ listed ∈ opened, listed ≠ []) : pass.Balanced opened := by
  refine ⟨fun n => ?_, h.narrowing_iff.trans ?_⟩
  · rw [h.count_eq, pending, Predicate.reads_append, List.count_append]
  · cases opened with
    | nil => simp
    | cons listed rest =>
      have hne := hl listed List.mem_cons_self
      simp [hne]

theorem Accounted.eq_initial (h : pass.Accounted []) (hp : pass.pending = []) :
    pass = .initial := by
  have hcount : ∀ n, pass.required.count n = 0 := by
    intro n
    rw [h.count_eq, hp]
    rfl
  have hnarrowing : pass.narrowing = false := by
    rw [← Bool.not_eq_true, h.narrowing_iff]
    exact fun hne => hne rfl
  obtain ⟨hvalues, hjoins⟩ := List.append_eq_nil_iff.mp hp
  have hrequired := Required.eq_empty hcount
  cases pass
  subst hvalues hjoins hrequired hnarrowing
  rfl

end Pass

namespace Optimiser
variable {o : Optimiser} {root result : Plan}

/-- The counts balance throughout a run that ends: at each of its moments, among them the beginning
of every visit and every narrowing, and at the end of every visit. The run visits every subtree, and
when it is over, the state is the one in which it began. -/
theorem optimise_balanced (h : o.optimise root = .ok result) :
    (∀ i ∈ root.subplans, ∃ s pass, o.Reaches root s (.walk i pass)) ∧
      (∀ s m, o.Reaches root s m → m.pass.Balanced s.opened) ∧
      (∀ s plan pass, o.Reaches root s (.visit plan pass) →
        ∃ r last, o.visit plan pass = .ok (r, last) ∧ last.Balanced s.opened) ∧
      (∀ s plan pass, o.Reaches root s (.walk plan pass) →
        ∃ v last, o.walk plan pass = .ok (v, last) ∧ last.Balanced s.opened) ∧
      o.visit root .initial = .ok (result, .initial) := by
  obtain ⟨pass, hv, hp⟩ := optimise_eq_ok.mp h
  have hend := (visit_rewrites hv).accounted Pass.accounted_initial
  refine ⟨?_, ?_, ?_, ?_, ?_⟩
  · intro i hi
    exact (Reaches.walk .root).exists_walk ⟨_, hv⟩ hi
  · intro s m hm
    exact hm.accounted.balanced hm.listed_ne_nil
  · intro s plan pass hm
    obtain ⟨⟨r, last⟩, hr⟩ := hm.ends ⟨_, hv⟩
    have hlast := (visit_rewrites hr).accounted hm.accounted
    exact ⟨r, last, hr, hlast.balanced hm.listed_ne_nil⟩
  · intro s plan pass hm
    obtain ⟨⟨v, last⟩, hw⟩ := hm.ends ⟨_, hv⟩
    have hlast := (walk_rewrites hw).accounted hm.accounted
    exact ⟨v, last, hw, hlast.balanced hm.listed_ne_nil⟩
  · have hlast := hend.eq_initial hp
    rw [hlast] at hv
    exact hv

theorem optimise_balanced_sample : ∃ result s plan pass,
    (⟨.sample, true⟩ : Optimiser).optimise .sample = .ok result ∧
      (⟨.sample, true⟩ : Optimiser).Reaches .sample s (.visit plan pass) ∧
      s.opened = [[.named "LNAME"]] ∧ pass.required.count "SSN" = 1 ∧ pass.Balanced s.opened ∧
      (⟨.sample, true⟩ : Optimiser).visit .sample .initial = .ok (result, .initial) := by
  obtain ⟨result, h⟩ : ∃ result, (⟨.sample, true⟩ : Optimiser).optimise .sample = .ok result :=
    ⟨_, rfl⟩
  have hselect : (⟨.sample, true⟩ : Optimiser).Reaches .sample _ _ :=
    .select (.walk (.select (.walk (.project (.walk .root) (by decide)))))
  obtain ⟨-, hcounts, -, -, hlast⟩ := optimise_balanced h
  exact ⟨result, _, _, _, h, hselect, rfl, rfl, hcounts _ _ hselect, hlast⟩

end Optimiser
end QueryPlan
