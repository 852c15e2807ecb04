import QueryPlan.Proofs.Consistency
import QueryPlan.Proofs.Positions
import QueryPlan.Proofs.Progress

/-! What can go wrong, whatever the plan. Estimates are read only where they have been stored and
lists only at positions that they have, for trees of any shape and with any stored estimates; so a
run that fails has found a fault in the plan, or a join where there should be none. -/

namespace QueryPlan
open Outcome

/-- The faults of a plan: the names and predicates in it do not go with the catalogue or with each
other. The other errors are those of filling a catalogue, of plans that are not for the optimiser,
and of a program that has lost track of itself. -/
def PlanError.Ordinary : PlanError → Prop
  | unknownRelation _ => True
  | unresolvedAttribute _ => True
  | emptyProjection => True
  | literalJoin _ => True
  | unspannedJoin _ => True
  | duplicateRelation _ => False
  | duplicateAttribute _ _ => False
  | unexpectedJoin => False
  | noOperands => False
  | unestimated _ => False

/-- If it fails, then with a fault of the plan. -/
def Safe {α : Type} (x : Except PlanError α) : Prop := ∀ e, x = .error e → e.Ordinary

namespace Safe
variable {α β : Type}

theorem ok (a : α) : Safe (.ok a) := fun _ h => by cases h

theorem error {e : PlanError} (h : e.Ordinary) : Safe (.error e : Except PlanError α) := by
  intro d hd
  cases hd
  exact h

theorem of_ne_error {x : Except PlanError α} (h : ∀ e, x ≠ .error e) : Safe x :=
  fun e he => absurd he (h e)

theorem bind {x : Except PlanError α} {f : α → Except PlanError β} (hx : Safe x)
    (hf : ∀ a, x = .ok a → Safe (f a)) : Safe (x >>= f) := fun e h => by
  rcases bind_eq_error.mp h with h | ⟨a, ha, h⟩
  · exact hx e h
  · exact hf a ha e h

theorem foldlM {f : β → α → Except PlanError β} {as : List α} {b : β} (hf : ∀ b a, Safe (f b a)) :
    Safe (as.foldlM f b) := by
  induction as generalizing b with
  | nil => exact ok b
  | cons a as ih =>
    rw [List.foldlM_cons]
    exact (hf b a).bind fun _ _ => ih

end Safe

theorem Catalogue.safe_lookup (c : Catalogue) (name : String) : Safe (c.lookup name) := by
  unfold lookup
  split
  · exact .ok _
  · exact .error trivial

theorem Relation.safe_resolve (r : Relation) (a : Attribute) : Safe (r.resolve a) := by
  unfold resolve
  split
  · exact .ok _
  · exact .error trivial

namespace Estimate

theorem safe_select (r : Relation) (p : Predicate) : Safe (select r p) := by
  cases p with
  | value a literal => exact (r.safe_resolve a).bind fun _ _ => .ok _
  | join a b => exact (r.safe_resolve a).bind fun _ _ => (r.safe_resolve b).bind fun _ _ => .ok _

theorem safe_project (r : Relation) (as : List Attribute) : Safe (project r as) :=
  .foldlM fun _ a => (r.safe_resolve a).bind fun _ _ => .ok _

theorem safe_join (l r : Relation) (p : Predicate) : Safe (join l r p) := by
  cases p with
  | value a literal => exact .error trivial
  | join a b =>
    rw [join]
    split
    · exact .ok _
    · exact .error trivial

end Estimate

namespace Plan
variable {p q : Plan} {e : PlanError}

def HasOutput (p : Plan) : Prop := ∃ s, p.output? = some s

theorem safe_outputFor (hc : ∀ i ∈ p.children, i.HasOutput) : Safe p.outputFor := by
  cases p with
  | scan s o => exact .ok _
  | select i c o =>
    obtain ⟨t, ht⟩ := hc i (List.mem_singleton.mpr rfl)
    rw [outputFor_select ht]
    exact Estimate.safe_select t c
  | project i as o =>
    obtain ⟨t, ht⟩ := hc i (List.mem_singleton.mpr rfl)
    rw [outputFor, output_eq_ok.mpr ht]
    exact Estimate.safe_project t as
  | product l r o =>
    obtain ⟨t, ht⟩ := hc l (List.mem_pair.mpr (.inl rfl))
    obtain ⟨u, hu⟩ := hc r (List.mem_pair.mpr (.inr rfl))
    rw [outputFor_product ht hu]
    exact .ok _
  | join l r c o =>
    obtain ⟨t, ht⟩ := hc l (List.mem_pair.mpr (.inl rfl))
    obtain ⟨u, hu⟩ := hc r (List.mem_pair.mpr (.inr rfl))
    rw [outputFor_join ht hu]
    exact Estimate.safe_join t u c

theorem safe_estimateRoot (hc : ∀ i ∈ p.children, i.HasOutput) : Safe p.estimateRoot :=
  (safe_outputFor hc).bind fun _ _ => .ok _

theorem estimated_eq_error : p.estimated = .error e ↔ p.estimateTree.2 = some e := by
  unfold estimated
  rcases p.estimateTree with ⟨q, _ | d⟩ <;> simp

theorem match_tryEstimateRoot (p : Plan) :
    (match p.tryEstimateRoot with
      | (q, none) => Except.ok q
      | (_, some e) => Except.error e) = p.estimateRoot := by
  rw [tryEstimateRoot]
  cases p.estimateRoot with
  | ok q => rfl
  | error e => rfl

variable {i l r : Plan} {out : Option Relation}

theorem estimated_select {c : Predicate} :
    (select i c out).estimated = i.estimated >>= fun j => (select j c out).estimateRoot := by
  rw [estimated, estimated, estimateTree]
  rcases i.estimateTree with ⟨j, _ | e⟩
  · exact match_tryEstimateRoot _
  · rfl

theorem estimated_project {as : List Attribute} :
    (project i as out).estimated = i.estimated >>= fun j => (project j as out).estimateRoot := by
  rw [estimated, estimated, estimateTree]
  rcases i.estimateTree with ⟨j, _ | e⟩
  · exact match_tryEstimateRoot _
  · rfl

theorem estimated_product : (product l r out).estimated = l.estimated >>= fun j =>
    r.estimated >>= fun k => (product j k out).estimateRoot := by
  rw [estimated, estimated, estimated, estimateTree]
  rcases l.estimateTree with ⟨j, _ | e⟩
  · rcases r.estimateTree with ⟨k, _ | e⟩
    · exact match_tryEstimateRoot _
    · rfl
  · rfl

theorem estimated_join {c : Predicate} : (join l r c out).estimated = l.estimated >>= fun j =>
    r.estimated >>= fun k => (join j k c out).estimateRoot := by
  rw [estimated, estimated, estimated, estimateTree]
  rcases l.estimateTree with ⟨j, _ | e⟩
  · rcases r.estimateTree with ⟨k, _ | e⟩
    · exact match_tryEstimateRoot _
    · rfl
  · rfl

theorem hasOutput_of_estimated (h : p.estimated = .ok q) : q.HasOutput := by
  obtain ⟨s, hs, -⟩ := (consistent_of_estimateTree (estimated_eq_ok.mp h)).output_eq
  exact ⟨s, hs⟩

theorem safe_estimated (p : Plan) : Safe p.estimated := by
  induction p with
  | scan s out => exact .ok _
  | select i c out ih =>
    rw [estimated_select]
    exact ih.bind fun j hj =>
      safe_estimateRoot (List.forall_mem_singleton.mpr (hasOutput_of_estimated hj))
  | project i as out ih =>
    rw [estimated_project]
    exact ih.bind fun j hj =>
      safe_estimateRoot (List.forall_mem_singleton.mpr (hasOutput_of_estimated hj))
  | product l r out ihl ihr =>
    rw [estimated_product]
    refine ihl.bind fun j hj => ihr.bind fun k hk => safe_estimateRoot ?_
    simpa [children] using ⟨hasOutput_of_estimated hj, hasOutput_of_estimated hk⟩
  | join l r c out ihl ihr =>
    rw [estimated_join]
    refine ihl.bind fun j hj => ihr.bind fun k hk => safe_estimateRoot ?_
    simpa [children] using ⟨hasOutput_of_estimated hj, hasOutput_of_estimated hk⟩

end Plan

namespace Optimiser

def Readable (fs : List Fragment) : Prop := ∀ f ∈ fs, f.plan.HasOutput

variable {o : Optimiser} {pass pass' : Pass} {plan plan' : Plan} {fs gs : List Fragment}
  {passed rest : List Predicate} {p : Predicate} {schema : Relation} {e : PlanError}

theorem readable_inherited : Inherited fun f => f.plan.HasOutput where
  select _ he := output?_of_estimateRoot he
  project _ he := output?_of_estimateRoot he
  join _ _ he := output?_of_estimateRoot he
  product _ _ he := output?_of_estimateRoot he

theorem Steps.readable {a b : Cluster} (h : o.Steps a b) (ha : Readable a.fragments) :
    Readable b.fragments := readable_inherited.steps h ha

theorem Rewrites.readable {v : Visited} (h : o.Rewrites plan pass v pass') :
    Readable v.fragments := readable_inherited.rewrites (fun _ he => output?_of_estimateRoot he) h

theorem readable_singleton {f : Fragment} : Readable [f] ↔ f.plan.HasOutput :=
  List.forall_mem_singleton

theorem safe_narrow (ho : plan.HasOutput) : Safe (o.narrow pass plan) :=
  .of_ne_error fun _ => narrow_ne_error ho

theorem safe_select (ho : plan.HasOutput) : Safe (Plan.select plan p).estimateRoot :=
  Plan.safe_estimateRoot (List.forall_mem_singleton.mpr ho)

theorem safe_applySelection (ho : plan.HasOutput) : Safe (o.applySelection pass plan p) :=
  (safe_select ho).bind fun _ hs => (safe_narrow (output?_of_estimateRoot hs)).bind fun _ _ => .ok _

theorem hasOutput_of_narrow (ho : plan.HasOutput) (h : o.narrow pass plan = .ok plan') :
    plan'.HasOutput := by
  have hsteps := narrow_steps [] [] plan.baseRelations h
  exact readable_singleton.mp (Steps.readable hsteps (readable_singleton.mpr ho))

theorem hasOutput_of_applySelection (h : o.applySelection pass plan p = .ok (plan', pass')) :
    plan'.HasOutput := by
  obtain ⟨selected, hs, h⟩ := bind_eq_ok.mp h
  obtain ⟨narrowed, hn, h⟩ := bind_eq_ok.mp h
  cases pure_eq_ok.mp h
  exact hasOutput_of_narrow (output?_of_estimateRoot hs) hn

theorem safe_pushValues (ho : plan.HasOutput) :
    Safe (pushValues schema passed rest pass plan) := by
  induction rest generalizing passed pass plan with
  | nil => exact .ok _
  | cons p rest ih =>
    rw [pushValues]
    split
    · exact (safe_select ho).bind fun _ hs => ih (output?_of_estimateRoot hs)
    · exact ih ho

theorem safe_pushEqualities (ho : plan.HasOutput) :
    Safe (o.pushEqualities schema passed rest pass plan) := by
  induction rest generalizing passed pass plan with
  | nil => exact .ok _
  | cons p rest ih =>
    rw [pushEqualities]
    split
    · exact (safe_applySelection ho).bind fun _ hs => ih (hasOutput_of_applySelection hs)
    · exact ih ho

theorem safe_visitScan (o : Optimiser) (name : String) (pass : Pass) :
    Safe (o.visitScan name pass) := by
  refine (o.catalogue.safe_lookup name).bind fun registered _ => ?_
  rw [Plan.estimateRoot_scan, ok_bind]
  have hbase : Readable [.ofPlan (.scan registered (some registered.relation))] :=
    readable_singleton.mpr ⟨_, rfl⟩
  refine (safe_pushValues ⟨_, rfl⟩).bind ?_
  rintro ⟨valued, mid⟩ hv
  obtain ⟨hvalues, -⟩ := pushValues_steps (o := o) [registered.name] (List.nil_append _).symm
    (by simp) hv
  have hvalued := Steps.readable hvalues hbase
  refine (safe_pushEqualities (readable_singleton.mp hvalued)).bind ?_
  rintro ⟨equated, last⟩ he
  obtain ⟨hequalities, -⟩ := pushEqualities_moves [registered.name] (List.nil_append _).symm
    (by simp) he
  have hequated := Steps.readable hequalities.steps hvalued
  exact (safe_narrow (readable_singleton.mp hequated)).bind fun _ _ => .ok _

theorem readable_set (hs : Readable fs) (i : Fin fs.length) (ho : plan.HasOutput) :
    Readable (fs.set i { fs.get i with plan }) := by
  intro f hf
  rcases List.mem_or_eq_of_mem_set hf with hf | rfl
  · exact hs f hf
  · exact ho

theorem safe_applyLocal (hs : Readable fs) : Safe (o.applyLocal passed rest fs pass) := by
  induction rest generalizing passed fs pass with
  | nil => exact .ok _
  | cons p rest ih =>
    rw [applyLocal]
    split
    · exact ih hs
    · next i hi =>
      refine (safe_applySelection (hs _ (List.getElem_mem _))).bind ?_
      rintro ⟨selected, next⟩ happ
      exact ih (readable_set hs i (hasOutput_of_applySelection happ))

theorem safe_trial {position : Nat} (hs : Readable fs) (i j : Fin fs.length) :
    Safe (candidate?.trial fs position i j p) := by
  obtain ⟨left, hl⟩ := hs _ (fs.get_mem i)
  obtain ⟨right, hr⟩ := hs _ (fs.get_mem j)
  have hleft : fs[i].plan.output = .ok left := Plan.output_eq_ok.mpr hl
  have hright : fs[j].plan.output = .ok right := Plan.output_eq_ok.mpr hr
  rw [candidate?.trial, hleft, ok_bind, hright, ok_bind]
  exact (Estimate.safe_join left right p).bind fun _ _ => .ok _

theorem safe_candidate? {position : Nat} (hs : Readable fs) :
    Safe (o.candidate? fs position p) := by
  cases p with
  | value l v => exact .ok _
  | join l r =>
    rw [candidate?]
    split
    · split
      · exact .ok _
      · split
        · exact safe_trial hs _ _
        · exact safe_trial hs _ _
    · exact .ok _

theorem safe_bestFrom {position : Nat} {best : Option (Candidate fs)} (hs : Readable fs) :
    Safe (o.bestFrom fs position rest best) := by
  induction rest generalizing position best with
  | nil => exact .ok _
  | cons p rest ih => exact (safe_candidate? hs).bind fun _ _ => ih

theorem safe_joinFragments {c : Candidate fs} (hs : Readable fs) :
    Safe (o.joinFragments fs pass c) := by
  have hleft : (fs.get c.left).plan.HasOutput := hs _ (fs.get_mem c.left)
  have hright : (fs.get c.right).plan.HasOutput := hs _ (fs.get_mem c.right)
  refine Safe.bind (Plan.safe_estimateRoot ?_) fun _ hj =>
    (safe_narrow (output?_of_estimateRoot hj)).bind fun _ _ => .ok _
  simpa [Plan.children] using ⟨hleft, hright⟩

theorem safe_round (hs : Readable fs) : Safe (o.round fs pass) := by
  refine (safe_applyLocal hs).bind ?_
  rintro ⟨selected, mid⟩ hl
  obtain ⟨hmoves, -⟩ := applyLocal_moves (List.nil_append _).symm (by simp) hl
  have hselected := Steps.readable hmoves.steps hs
  refine (safe_bestFrom hselected).bind fun best _ => ?_
  cases best with
  | none => exact .ok _
  | some c => exact (safe_joinFragments hselected).bind fun _ _ => .ok _

theorem safe_rounds {n : Nat} (hs : Readable fs) : Safe (o.rounds n fs pass) := by
  induction n generalizing fs pass with
  | zero => exact .ok _
  | succ n ih =>
    refine (safe_round hs).bind fun result hr => ?_
    cases result with
    | settled gs next => exact .ok _
    | joined gs next => exact ih (Steps.readable (round_joined hr).1.steps hs)

theorem safe_combine (hs : Readable fs) (hc : covered fs ≠ []) : Safe (o.combine fs pass) := by
  refine (safe_rounds hs).bind ?_
  rintro ⟨rest, next⟩ hr
  obtain ⟨hmoves, -⟩ := rounds_moves (Nat.lt_succ_self _) hr
  have hrest := Steps.readable hmoves.steps hs
  have hcovered := Steps.covered_perm hmoves.steps
  refine Safe.bind ?_ fun _ _ => .ok _
  cases rest with
  -- rounds keep what the fragments cover, so there is one left
  | nil => exact absurd hcovered.symm.eq_nil hc
  | cons f rest =>
    rw [Readable, List.forall_mem_cons] at hrest
    exact .of_ne_error fun _ => productAll_loop_ne_error hrest.1 hrest.2

theorem safe_settle {v : Visited} (hv : o.Rewrites plan pass v pass') :
    Safe (o.settle v pass') := by
  cases v with
  | whole result => exact .ok _
  | cluster fragments =>
    refine safe_combine hv.readable fun hnil => ?_
    have hcovered := hv.covered_perm
    exact plan.baseRelations_ne_nil (hnil ▸ hcovered).nil_eq.symm

theorem safe_kept {listed : List Attribute} : Safe (kept pass schema listed) := by
  intro e h
  obtain ⟨a, -, -, rfl⟩ := kept_eq_error h
  trivial

theorem Rewrites.joins_eq_nil {v : Visited} (h : o.Rewrites plan pass v pass') :
    plan.joins = [] := by
  induction h with
  | scan => rfl
  | select _ ih => exact ih
  | project _ _ _ _ _ ih => exact ih
  | product _ _ ihl ihr => exact List.append_eq_nil_iff.mpr ⟨ihl, ihr⟩
  | settle _ _ _ ih => exact ih

theorem walk_error (h : o.walk plan pass = .error e) :
    e.Ordinary ∨ e = .unexpectedJoin ∧ plan.joins ≠ [] := by
  induction plan generalizing pass with
  | scan s out =>
    rcases bind_eq_error.mp h with h | ⟨_, _, h⟩
    · exact .inl (safe_visitScan o s.name pass e h)
    · cases h
  | select input p out ih =>
    rcases bind_eq_error.mp h with h | ⟨⟨visited, mid⟩, hw, h⟩
    · exact ih h
    · refine .inl (Safe.bind (safe_settle (walk_rewrites hw)) (fun _ _ => .ok _) e h)
  | project input listed out ih =>
    rw [walk] at h
    split at h
    · cases h
      exact .inl trivial
    · rcases bind_eq_error.mp h with h | ⟨⟨visited, mid⟩, hw, h⟩
      · exact ih h
      · refine .inl (Safe.bind (safe_settle (walk_rewrites hw)) ?_ e h)
        rintro ⟨inner, below⟩ hset
        have hinner := (settle_visits (walk_visits hw) hset).rewrites.readable
        obtain ⟨schema, ho⟩ : inner.HasOutput := readable_singleton.mp hinner
        dsimp only
        rw [Plan.output_eq_ok.mpr ho, ok_bind]
        refine safe_kept.bind fun keep _ => ?_
        split
        · exact (Plan.safe_estimateRoot (List.forall_mem_singleton.mpr ⟨schema, ho⟩)).bind
            fun _ _ => .ok _
        · exact .ok _
  | product left right out ihl ihr =>
    have hleft : left.joins ≠ [] → (Plan.product left right out).joins ≠ [] :=
      fun hj => List.append_ne_nil_of_left_ne_nil hj _
    have hright : right.joins ≠ [] → (Plan.product left right out).joins ≠ [] :=
      fun hj => List.append_ne_nil_of_right_ne_nil _ hj
    rcases bind_eq_error.mp h with h | ⟨⟨l, mid⟩, hl, h⟩
    · exact (ihl h).imp_right (And.imp_right hleft)
    · rcases bind_eq_error.mp h with h | ⟨_, _, h⟩
      · exact (ihr h).imp_right (And.imp_right hright)
      · cases h
  | join left right p out =>
    cases h
    exact .inr ⟨rfl, List.cons_ne_nil _ _⟩

theorem optimise_error (h : o.optimise plan = .error e) :
    e.Ordinary ∨ e = .unexpectedJoin ∧ plan.joins ≠ [] := by
  rcases bind_eq_error.mp h with h | ⟨⟨result, last⟩, -, h⟩
  · rcases bind_eq_error.mp h with h | ⟨⟨visited, mid⟩, hw, h⟩
    · exact walk_error h
    · exact .inl (safe_settle (walk_rewrites hw) e h)
  · dsimp only at h
    split at h
    · cases h
      exact .inl trivial
    · cases h

end Optimiser

theorem Plan.joins_ne_nil_iff {p : Plan} :
    p.joins ≠ [] ↔ ∃ node ∈ p.subplans, node.kind = .join := by
  constructor
  · intro h
    obtain ⟨c, hc⟩ := List.exists_mem_of_ne_nil _ h
    obtain ⟨l, r, out, hm⟩ := mem_joins_iff.mp hc
    exact ⟨_, hm, rfl⟩
  · rintro ⟨node, hm, hk⟩
    cases node with
    | join l r c out => exact List.ne_nil_of_mem (mem_joins_iff.mpr ⟨l, r, out, hm⟩)
    | _ => cases hk

namespace Optimiser

/-- Whatever the plan and its stored estimates, no position is missing from a list, no covered
relation from the catalogue, no estimate from a node that it is read from, and no cluster is empty.
A join anywhere in the plan makes the run fail; without one it can fail only by a fault of the plan,
as can the estimation of the plan. -/
theorem optimise_safe (o : Optimiser) (root : Plan) :
    (o.optimiseAt root).run = some (o.optimise root) ∧
      (∀ kind, o.optimise root ≠ .error (.unestimated kind)) ∧
      o.optimise root ≠ .error .noOperands ∧
      (∀ result, o.optimise root = .ok result → ∃ s, result.output? = some s) ∧
      ((∃ node ∈ root.subplans, node.kind = .join) → ∃ e, o.optimise root = .error e) ∧
      ((∀ node ∈ root.subplans, node.kind ≠ .join) →
        ∀ e, o.optimise root = .error e → e.Ordinary) ∧
      (∀ e, root.estimateTree.2 = some e → e.Ordinary) ∧
      ∀ kind, root.estimateTree.2 ≠ some (.unestimated kind) := by
  have hestimate : ∀ e, root.estimateTree.2 = some e → e.Ordinary := fun e he =>
    root.safe_estimated e (Plan.estimated_eq_error.mpr he)
  refine ⟨?_, ?_, ?_, ?_, ?_, ?_, hestimate, fun kind h => hestimate _ h⟩
  · rw [optimiseAt_eq]
    rfl
  · intro kind h
    rcases optimise_error h with he | ⟨he, -⟩
    · exact he
    · cases he
  · intro h
    rcases optimise_error h with he | ⟨he, -⟩
    · exact he
    · cases he
  · intro result h
    obtain ⟨pass, hr, -⟩ := optimise_rewrites h
    exact readable_singleton.mp hr.readable
  · intro hjoin
    cases h : o.optimise root with
    | error e => exact ⟨e, rfl⟩
    | ok result =>
      obtain ⟨pass, hr, -⟩ := optimise_rewrites h
      exact absurd hr.joins_eq_nil (Plan.joins_ne_nil_iff.mpr hjoin)
  · intro hfree e h
    rcases optimise_error h with he | ⟨-, hjoins⟩
    · exact he
    · obtain ⟨node, hm, hk⟩ := Plan.joins_ne_nil_iff.mp hjoins
      exact absurd hk (hfree node hm)

theorem optimise_safe_sample : ∃ result s e,
    ((⟨.sample, true⟩ : Optimiser).optimiseAt .sample).run = some (.ok result) ∧
      result.output? = some s ∧
      (⟨.sample, true⟩ : Optimiser).optimise
        (.join .sample result (.join (.named "LNAME") (.named "LNAME"))) = .error e := by
  obtain ⟨result, h⟩ : ∃ result, (⟨.sample, true⟩ : Optimiser).optimise .sample = .ok result :=
    ⟨_, rfl⟩
  obtain ⟨hpositions, -, -, houtput, -⟩ := optimise_safe ⟨.sample, true⟩ .sample
  obtain ⟨s, hs⟩ := houtput result h
  obtain ⟨-, -, -, -, hjoin, -⟩ := optimise_safe ⟨.sample, true⟩
    (.join .sample result (.join (.named "LNAME") (.named "LNAME")))
  obtain ⟨e, he⟩ := hjoin ⟨_, List.mem_cons_self, rfl⟩
  exact ⟨result, s, e, hpositions.trans (congrArg some h), hs, he⟩

end Optimiser

end QueryPlan
