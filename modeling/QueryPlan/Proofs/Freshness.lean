import QueryPlan.Proofs.Consistency

/-! Estimation as a walk over the nodes of a plan in post-order. Up to the first node whose formula
is undefined it stores what the formulas make of the scans alone; from that node on everything is
left as it was. So no stored estimate finds its way into a new one, and walking again from where a
walk has ended, or has stopped, changes nothing. -/

namespace QueryPlan
open Outcome

namespace Plan

def bare : Plan → Plan
  | scan s _ => scan s
  | select i c _ => select i.bare c
  | project i as _ => project i.bare as
  | product l r _ => product l.bare r.bare
  | join l r c _ => join l.bare r.bare c

def postorder : Plan → List Plan
  | scan s o => [scan s o]
  | select i c o => i.postorder ++ [select i c o]
  | project i as o => i.postorder ++ [project i as o]
  | product l r o => (l.postorder ++ r.postorder) ++ [product l r o]
  | join l r c o => (l.postorder ++ r.postorder) ++ [join l r c o]

def freshOutput : Plan → Except PlanError Relation
  | scan s _ => .ok s.relation
  | select i c _ => do Estimate.select (← i.freshOutput) c
  | project i as _ => do Estimate.project (← i.freshOutput) as
  | product l r _ => do return Estimate.product (← l.freshOutput) (← r.freshOutput)
  | join l r c _ => do Estimate.join (← l.freshOutput) (← r.freshOutput) c

def outputs (p : Plan) : List (Option Relation) := p.postorder.map output?

def withChildren : Plan → List Plan → Plan
  | select _ c o, [i] => select i c o
  | project _ as o, [i] => project i as o
  | product _ _ o, [l, r] => product l r o
  | join _ _ c o, [l, r] => join l r c o
  | p, _ => p

def estimateAll : List Plan → List Plan × Option PlanError
  | [] => ([], none)
  | p :: ps =>
    match p.estimateTree with
    | (q, some e) => (q :: ps, some e)
    | (q, none) => (q :: (estimateAll ps).1, (estimateAll ps).2)

variable {p q i : Plan} {ps qs done left : List Plan} {e : Option PlanError} {r : Relation}

theorem induct_children {P : Plan → Prop} (h : ∀ p, (∀ i ∈ p.children, P i) → P p) (p : Plan) :
    P p := by
  induction p with
  | scan s o => exact h _ fun i hi => absurd hi List.not_mem_nil
  | select i c o ih => exact h _ (List.forall_mem_singleton.mpr ih)
  | project i as o ih => exact h _ (List.forall_mem_singleton.mpr ih)
  | product l r o ihl ihr =>
    exact h _ (List.forall_mem_cons.mpr ⟨ihl, List.forall_mem_singleton.mpr ihr⟩)
  | join l r c o ihl ihr =>
    exact h _ (List.forall_mem_cons.mpr ⟨ihl, List.forall_mem_singleton.mpr ihr⟩)

theorem postorder_eq (p : Plan) : p.postorder = p.children.flatMap postorder ++ [p] := by
  cases p <;> simp [postorder, children]

theorem outputs_eq (p : Plan) : p.outputs = p.children.flatMap outputs ++ [p.output?] := by
  unfold outputs
  rw [postorder_eq, List.map_append, List.map_flatMap]
  rfl

theorem mem_postorder_self (p : Plan) : p ∈ p.postorder := by
  rw [postorder_eq]
  exact List.mem_append_right _ (List.mem_singleton.mpr rfl)

theorem output?_withChildren (p : Plan) (qs : List Plan) :
    (p.withChildren qs).output? = p.output? := by
  unfold withChildren
  split <;> rfl

theorem children_withChildren (h : qs.length = p.children.length) :
    (p.withChildren qs).children = qs := by
  cases p with
  | scan s o => exact (List.length_eq_zero_iff.mp h).symm
  | select i c o =>
    obtain ⟨j, rfl⟩ := List.length_eq_one_iff.mp h
    rfl
  | project i as o =>
    obtain ⟨j, rfl⟩ := List.length_eq_one_iff.mp h
    rfl
  | product l r o =>
    obtain ⟨j, k, rfl⟩ := List.length_eq_two.mp h
    rfl
  | join l r c o =>
    obtain ⟨j, k, rfl⟩ := List.length_eq_two.mp h
    rfl

theorem bare_withChildren (h : qs.map bare = p.children.map bare) :
    (p.withChildren qs).bare = p.bare := by
  have hl : qs.length = p.children.length := by simpa using congrArg List.length h
  cases p with
  | scan s o => rfl
  | select i c o =>
    obtain ⟨j, rfl⟩ := List.length_eq_one_iff.mp hl
    simpa [withChildren, bare, children] using h
  | project i as o =>
    obtain ⟨j, rfl⟩ := List.length_eq_one_iff.mp hl
    simpa [withChildren, bare, children] using h
  | product l r o =>
    obtain ⟨j, k, rfl⟩ := List.length_eq_two.mp hl
    simpa [withChildren, bare, children] using h
  | join l r c o =>
    obtain ⟨j, k, rfl⟩ := List.length_eq_two.mp hl
    simpa [withChildren, bare, children] using h

@[simp] theorem bare_withOutput (p : Plan) (r : Relation) : (p.withOutput r).bare = p.bare := by
  cases p <;> rfl

@[simp] theorem children_withOutput (p : Plan) (r : Relation) :
    (p.withOutput r).children = p.children := by cases p <;> rfl

/-- A plan is estimated by estimating its children in their order, and then its root. -/
theorem estimateTree_eq_estimateAll (p : Plan) : p.estimateTree =
    match estimateAll p.children with
    | (qs, some e) => (p.withChildren qs, some e)
    | (qs, none) => (p.withChildren qs).tryEstimateRoot := by
  cases p with
  | scan s o => rfl
  | select i c o =>
    simp only [estimateTree, children, estimateAll]
    rcases i.estimateTree with ⟨j, _ | e⟩ <;> rfl
  | project i as o =>
    simp only [estimateTree, children, estimateAll]
    rcases i.estimateTree with ⟨j, _ | e⟩ <;> rfl
  | product l r o =>
    simp only [estimateTree, children, estimateAll]
    rcases l.estimateTree with ⟨j, _ | e⟩
    · rcases r.estimateTree with ⟨k, _ | e⟩ <;> rfl
    · rfl
  | join l r c o =>
    simp only [estimateTree, children, estimateAll]
    rcases l.estimateTree with ⟨j, _ | e⟩
    · rcases r.estimateTree with ⟨k, _ | e⟩ <;> rfl
    · rfl

def Holds (p q : Plan) : Prop := ∃ r, p.freshOutput = .ok r ∧ q.output? = some r

/-- Of the nodes of `ps` in post-order, a walk that has left `qs` has given those of `done` their
fresh estimates; those of `left` hold what they held. -/
structure Progress (ps qs done left : List Plan) : Prop where
  bare : qs.map bare = ps.map bare
  postorder : ps.flatMap postorder = done ++ left
  defined : ∀ i ∈ done, ∃ r, i.freshOutput = .ok r
  outputs : qs.flatMap outputs = done.map (fun i => i.freshOutput.toOption) ++ left.map output?

/-- What is left when a walk ends: nothing, or first of all a node whose formula is undefined on the
fresh estimates of its children. -/
inductive Ends : List Plan → Option PlanError → Prop
  | finished : Ends [] none
  | stopped {node : Plan} {rest : List Plan} {e : PlanError}
      (hc : ∀ i ∈ node.children, ∃ r, i.freshOutput = .ok r) (h : node.freshOutput = .error e) :
      Ends (node :: rest) (some e)

theorem outputFor_withChildren (h : List.Forall₂ Holds p.children qs) :
    (p.withChildren qs).outputFor = p.freshOutput := by
  cases p with
  | scan s o => rfl
  | select i c o =>
    obtain _ | ⟨⟨r, hr, hj⟩, ⟨⟩⟩ := h
    rw [freshOutput, hr, ok_bind]
    exact outputFor_select hj
  | project i as o =>
    obtain _ | ⟨⟨r, hr, hj⟩, ⟨⟩⟩ := h
    rw [freshOutput, hr, ok_bind]
    show Except.bind _ _ = _
    rw [output_eq_ok.mpr hj]
    rfl
  | product l r o =>
    obtain _ | ⟨⟨t, ht, hj⟩, _ | ⟨⟨u, hu, hk⟩, ⟨⟩⟩⟩ := h
    rw [freshOutput, ht, ok_bind, hu, ok_bind]
    exact outputFor_product hj hk
  | join l r c o =>
    obtain _ | ⟨⟨t, ht, hj⟩, _ | ⟨⟨u, hu, hk⟩, ⟨⟩⟩⟩ := h
    rw [freshOutput, ht, ok_bind, hu, ok_bind]
    exact outputFor_join hj hk

namespace Progress

theorem holds (h : Progress [p] [q] done []) : Holds p q := by
  have hdone : p.postorder = done := by simpa using h.postorder
  obtain ⟨r, hr⟩ := h.defined p (hdone ▸ mem_postorder_self p)
  have houtputs : q.outputs = p.postorder.map fun i => i.freshOutput.toOption := by
    simpa [hdone] using h.outputs
  have hlast := congrArg List.getLast? houtputs
  rw [outputs_eq, postorder_eq, List.map_append, List.getLast?_append, List.getLast?_append] at hlast
  refine ⟨r, hr, ?_⟩
  simpa [hr, Except.toOption] using hlast

theorem append {ps' qs' done' : List Plan} (h : Progress ps qs done [])
    (h' : Progress ps' qs' done' left) :
    Progress (ps ++ ps') (qs ++ qs') (done ++ done') left where
  bare := by rw [List.map_append, List.map_append, h.bare, h'.bare]
  postorder := by
    rw [List.flatMap_append, h.postorder, h'.postorder, List.append_nil, List.append_assoc]
  defined := List.forall_mem_append.mpr ⟨h.defined, h'.defined⟩
  outputs := by
    rw [List.flatMap_append, h.outputs, h'.outputs, List.map_nil, List.append_nil, List.map_append,
      List.append_assoc]

theorem skip (h : Progress ps qs done left) (rest : List Plan) :
    Progress (ps ++ rest) (qs ++ rest) done (left ++ rest.flatMap Plan.postorder) where
  bare := by rw [List.map_append, List.map_append, h.bare]
  postorder := by rw [List.flatMap_append, h.postorder, List.append_assoc]
  defined := h.defined
  outputs := by
    rw [List.flatMap_append, h.outputs, List.append_assoc, List.map_append, List.map_flatMap]
    rfl

theorem length_eq (h : Progress ps qs done left) : qs.length = ps.length := by
  simpa using congrArg List.length h.bare

theorem outputs_withChildren (h : Progress p.children qs done left) :
    (p.withChildren qs).outputs =
      done.map (fun i => i.freshOutput.toOption) ++ (left.map output? ++ [p.output?]) := by
  rw [outputs_eq, children_withChildren h.length_eq, output?_withChildren, h.outputs,
    List.append_assoc]

theorem stop (h : Progress p.children qs done left) :
    Progress [p] [p.withChildren qs] done (left ++ [p]) where
  bare := congrArg (fun b => [b]) (bare_withChildren h.bare)
  postorder := by
    rw [List.flatMap_singleton, postorder_eq, h.postorder, List.append_assoc]
  defined := h.defined
  outputs := by
    rw [List.flatMap_singleton, h.outputs_withChildren, List.map_append]
    rfl

theorem root (h : Progress p.children qs done []) (hr : p.freshOutput = .ok r) :
    Progress [p] [(p.withChildren qs).withOutput r] (done ++ [p]) [] where
  bare := congrArg (fun b => [b]) ((bare_withOutput _ r).trans (bare_withChildren h.bare))
  postorder := by
    rw [List.flatMap_singleton, postorder_eq, h.postorder, List.append_nil, List.append_nil]
  defined := List.forall_mem_append.mpr ⟨h.defined, List.forall_mem_singleton.mpr ⟨r, hr⟩⟩
  outputs := by
    rw [List.flatMap_singleton, outputs_eq, children_withOutput,
      children_withChildren h.length_eq, output?_withOutput, h.outputs, List.map_append,
      List.map_singleton, hr, List.map_nil, List.append_nil, List.append_nil]
    rfl

end Progress

/-- Estimating the plan is a walk that comes as far as the formulas are defined. -/
def Walked (p : Plan) : Prop :=
  ∃ done left, Progress [p] [p.estimateTree.1] done left ∧ Ends left p.estimateTree.2

theorem estimateAll_walked (h : ∀ p ∈ ps, p.Walked) : ∃ done left,
    Progress ps (estimateAll ps).1 done left ∧ Ends left (estimateAll ps).2 ∧
      ((estimateAll ps).2 = none → List.Forall₂ Holds ps (estimateAll ps).1) := by
  induction ps with
  | nil => exact ⟨[], [], ⟨rfl, rfl, by simp, rfl⟩, .finished, fun _ => .nil⟩
  | cons p ps ih =>
    rw [List.forall_mem_cons] at h
    obtain ⟨done, left, hp, he⟩ := h.1
    rw [estimateAll]
    rcases hw : p.estimateTree with ⟨q, _ | e⟩ <;> rw [hw] at hp he
    · obtain ⟨done', left', hps, he', hheld⟩ := ih h.2
      cases he
      exact ⟨done ++ done', left', hp.append hps, he', fun hn => .cons hp.holds (hheld hn)⟩
    · cases he with
      | stopped hc hnode =>
        exact ⟨done, _, hp.skip ps, .stopped hc hnode, fun hn => nomatch hn⟩

theorem walked_of_children (h : ∀ i ∈ p.children, i.Walked) : p.Walked := by
  obtain ⟨done, left, hp, he, hheld⟩ := estimateAll_walked h
  unfold Walked
  rw [estimateTree_eq_estimateAll]
  rcases hall : estimateAll p.children with ⟨qs, _ | e⟩
  · rw [hall] at hp he hheld
    cases he
    have hroot := outputFor_withChildren (hheld rfl)
    dsimp only
    rw [tryEstimateRoot, estimateRoot, hroot]
    cases hr : p.freshOutput with
    | ok r => exact ⟨_, _, hp.root hr, .finished⟩
    | error e =>
      refine ⟨_, _, hp.stop, .stopped (fun i hi => hp.defined i ?_) hr⟩
      rw [← List.append_nil done, ← hp.postorder]
      exact List.mem_flatMap.mpr ⟨i, hi, mem_postorder_self i⟩
  · rw [hall] at hp he
    cases he with
    | stopped hc hnode => exact ⟨_, _, hp.stop, .stopped hc hnode⟩

theorem walked (p : Plan) : p.Walked := induct_children (fun _ => walked_of_children) p

theorem bare_estimateTree (p : Plan) : p.estimateTree.1.bare = p.bare := by
  obtain ⟨done, left, hp, -⟩ := p.walked
  exact List.singleton_inj.mp hp.bare

theorem freshOutput_bare (p : Plan) : p.bare.freshOutput = p.freshOutput := by
  induction p with
  | scan s o => rfl
  | select i c o ih => rw [bare, freshOutput, freshOutput, ih]
  | project i as o ih => rw [bare, freshOutput, freshOutput, ih]
  | product l r o ihl ihr => rw [bare, freshOutput, freshOutput, ihl, ihr]
  | join l r c o ihl ihr => rw [bare, freshOutput, freshOutput, ihl, ihr]

theorem postorder_bare (p : Plan) : p.bare.postorder = p.postorder.map bare := by
  induction p with
  | scan s o => rfl
  | select i c o ih => simp [bare, postorder, ih]
  | project i as o ih => simp [bare, postorder, ih]
  | product l r o ihl ihr => simp [bare, postorder, ihl, ihr]
  | join l r c o ihl ihr => simp [bare, postorder, ihl, ihr]

theorem freshOutputs_congr (h : q.bare = p.bare) :
    q.postorder.map freshOutput = p.postorder.map freshOutput := by
  have hbare : ∀ i : Plan, i.postorder.map freshOutput = i.bare.postorder.map freshOutput := by
    intro i
    rw [postorder_bare, List.map_map]
    exact List.map_congr_left fun j _ => (freshOutput_bare j).symm
  rw [hbare q, hbare p, h]

theorem length_outputs_congr (h : q.bare = p.bare) : q.outputs.length = p.outputs.length := by
  have hlength := congrArg List.length (freshOutputs_congr h)
  rw [List.length_map, List.length_map] at hlength
  rw [outputs, outputs, List.length_map, List.length_map, hlength]

theorem children_bare (p : Plan) : p.bare.children = p.children.map bare := by cases p <;> rfl

theorem eq_of_children (hb : q.bare = p.bare) (hc : q.children = p.children)
    (ho : q.output? = p.output?) : q = p := by
  cases p <;> cases q <;> simp_all [bare, children, output?]

theorem eq_of_outputs_all (h : ∀ p ∈ ps, ∀ q, q.bare = p.bare → q.outputs = p.outputs → q = p)
    (hb : qs.map bare = ps.map bare) (ho : qs.flatMap outputs = ps.flatMap outputs) : qs = ps := by
  induction ps generalizing qs with
  | nil => exact List.map_eq_nil_iff.mp hb
  | cons p ps ih =>
    cases qs with
    | nil => cases hb
    | cons q qs =>
      rw [List.map_cons, List.map_cons, List.cons.injEq] at hb
      obtain ⟨hroot, hrest⟩ := List.append_inj ho (length_outputs_congr hb.1)
      rw [List.forall_mem_cons] at h
      rw [h.1 q hb.1 hroot, ih h.2 hb.2 hrest]

/-- A plan is known by its operators and by what it stores. -/
theorem eq_of_outputs (p : Plan) : ∀ q, q.bare = p.bare → q.outputs = p.outputs → q = p := by
  induction p using induct_children with
  | h p ih =>
    intro q hb ho
    have hchildren : q.children.map bare = p.children.map bare := by
      rw [← children_bare, ← children_bare, hb]
    rw [outputs_eq, outputs_eq] at ho
    obtain ⟨hbelow, hroot⟩ := List.append_inj' ho rfl
    exact eq_of_children hb (eq_of_outputs_all ih hchildren hbelow) (List.singleton_inj.mp hroot)

theorem Ends.ne_cons {rest : List Plan} (he : Ends left e) (hi : ∃ r, i.freshOutput = .ok r) :
    left.map freshOutput ≠ (i :: rest).map freshOutput := by
  intro h
  obtain ⟨r, hr⟩ := hi
  cases he with
  | finished => cases h
  | stopped hc hnode =>
    rw [List.map_cons, List.map_cons, hnode, hr] at h
    cases (List.cons.inj h).1

theorem Ends.congr {left' : List Plan} {e' : Option PlanError} (he : Ends left e)
    (he' : Ends left' e') (h : left.map freshOutput = left'.map freshOutput) : e = e' := by
  cases he with
  | finished =>
    cases he' with
    | finished => rfl
    | stopped => cases h
  | stopped hc hnode =>
    cases he' with
    | finished => cases h
    | stopped hc' hnode' =>
      have hhead := (List.cons.inj h).1
      rw [hnode, hnode'] at hhead
      rw [Except.error.inj hhead]

theorem Ends.unique {done' left' : List Plan} {e' : Option PlanError}
    (hd : ∀ i ∈ done, ∃ r, i.freshOutput = .ok r) (hd' : ∀ i ∈ done', ∃ r, i.freshOutput = .ok r)
    (he : Ends left e) (he' : Ends left' e')
    (h : (done ++ left).map freshOutput = (done' ++ left').map freshOutput) :
    done.map freshOutput = done'.map freshOutput ∧ e = e' := by
  induction done generalizing done' with
  | nil =>
    cases done' with
    | nil => exact ⟨rfl, he.congr he' h⟩
    | cons i done' => exact absurd h (he.ne_cons (hd' i List.mem_cons_self))
  | cons i done ih =>
    cases done' with
    | nil => exact absurd h.symm (he'.ne_cons (hd i List.mem_cons_self))
    | cons j done' =>
      rw [List.forall_mem_cons] at hd hd'
      obtain ⟨hij, hrest⟩ := List.cons.inj h
      obtain ⟨hdone, hee⟩ := ih hd.2 hd'.2 hrest
      exact ⟨by rw [List.map_cons, List.map_cons, hij, hdone], hee⟩

theorem estimateTree_of_bare_eq (hb : q.bare = p.bare)
    (hp : Progress [p] [p.estimateTree.1] done left) (he : Ends left p.estimateTree.2) :
    q.estimateTree.2 = p.estimateTree.2 ∧ q.estimateTree.1.bare = p.bare ∧
      q.estimateTree.1.outputs =
        done.map (fun i => i.freshOutput.toOption) ++ q.outputs.drop done.length := by
  obtain ⟨done', left', hq, he'⟩ := q.walked
  have hpost : p.postorder = done ++ left := by simpa using hp.postorder
  have hpost' : q.postorder = done' ++ left' := by simpa using hq.postorder
  have hfresh : (done' ++ left').map freshOutput = (done ++ left).map freshOutput := by
    rw [← hpost', ← hpost, freshOutputs_congr hb]
  obtain ⟨hdone, herror⟩ := he'.unique hq.defined hp.defined he hfresh
  have hlength : done'.length = done.length := by simpa using congrArg List.length hdone
  have hstored : done'.map (fun i => i.freshOutput.toOption) =
      done.map fun i => i.freshOutput.toOption := by
    have hmapped := congrArg (List.map Except.toOption) hdone
    rw [List.map_map, List.map_map] at hmapped
    exact hmapped
  have hrest : q.outputs.drop done.length = left'.map output? := by
    rw [outputs, hpost', List.map_append, ← hlength]
    exact List.drop_left' (List.length_map _)
  refine ⟨herror, q.bare_estimateTree.trans hb, ?_⟩
  rw [hrest, ← hstored]
  simpa using hq.outputs

/-- Whatever is stored in a plan, estimating it gives the nodes their fresh estimates in post-order,
up to the first whose formula is undefined on the fresh estimates of its children. That node gives
the error, and from it on all nodes keep what they held. So the outcome and all that is newly stored
are those of any plan that differs in stored estimates only, and a second run changes nothing. -/
theorem estimateTree_fresh (p : Plan) :
    p.estimateTree.1.estimateTree = p.estimateTree ∧ ∃ done left,
      p.postorder = done ++ left ∧ (∀ i ∈ done, ∃ r, i.freshOutput = .ok r) ∧
        Ends left p.estimateTree.2 ∧ p.estimateTree.1.bare = p.bare ∧
        p.estimateTree.1.outputs =
          done.map (fun i => i.freshOutput.toOption) ++ left.map output? ∧
        ∀ q : Plan, q.bare = p.bare → q.estimateTree.2 = p.estimateTree.2 ∧
          q.estimateTree.1.outputs =
            done.map (fun i => i.freshOutput.toOption) ++ q.outputs.drop done.length ∧
          (p.estimateTree.2 = none → q.estimateTree = p.estimateTree) := by
  obtain ⟨done, left, hp, he⟩ := p.walked
  have hbare := p.bare_estimateTree
  have hpost : p.postorder = done ++ left := by simpa using hp.postorder
  have houtputs : p.estimateTree.1.outputs =
      done.map (fun i => i.freshOutput.toOption) ++ left.map output? := by simpa using hp.outputs
  refine ⟨?_, done, left, hpost, hp.defined, he, hbare, houtputs, fun q hb => ?_⟩
  · obtain ⟨herror, hbare', hagain⟩ := estimateTree_of_bare_eq hbare hp he
    have hkept : p.estimateTree.1.outputs.drop done.length = left.map output? := by
      rw [houtputs]
      exact List.drop_left' (List.length_map _)
    rw [hkept, ← houtputs] at hagain
    exact Prod.ext (eq_of_outputs _ _ (hbare'.trans hbare.symm) hagain) herror
  · obtain ⟨herror, hbare', hq⟩ := estimateTree_of_bare_eq hb hp he
    refine ⟨herror, hq, fun hnone => ?_⟩
    rw [hnone] at he
    cases he
    -- nothing is left, so every estimate is a fresh one
    have hlength : q.outputs.length = done.length := by
      rw [length_outputs_congr hb, outputs, List.length_map, hpost, List.append_nil]
    rw [← hlength, List.drop_length, ← List.map_nil, ← houtputs] at hq
    exact Prod.ext (eq_of_outputs _ _ (hbare'.trans hbare.symm) hq) herror

def stale : Plan :=
  .product
    (.select (.scan ⟨"R", ⟨100, [⟨"a", 10⟩]⟩⟩) (.value (.named "a") "x") (some ⟨7, []⟩))
    (.select (.scan ⟨"S", ⟨5, []⟩⟩ (some ⟨8, [⟨"b", 2⟩]⟩)) (.value (.named "b") "y")
      (some ⟨9, []⟩)) (some ⟨1, []⟩)

theorem estimateTree_fresh_sample :
    stale.estimateTree.2 = some (.unresolvedAttribute "b") ∧
      stale.estimateTree.1.outputs = [some ⟨100, [⟨"a", 10⟩]⟩, some ⟨10, [⟨"a", 1⟩]⟩,
        some ⟨5, []⟩, some ⟨9, []⟩, some ⟨1, []⟩] ∧
      stale.estimateTree.1.estimateTree = stale.estimateTree ∧ stale.bare.bare = stale.bare ∧
      stale.bare.estimateTree.2 = stale.estimateTree.2 := by
  obtain ⟨htwice, done, left, -, -, -, -, -, hall⟩ := estimateTree_fresh stale
  have hbare : stale.bare.bare = stale.bare := rfl
  obtain ⟨herror, -⟩ := hall stale.bare hbare
  exact ⟨rfl, rfl, htwice, hbare, herror⟩

end Plan
end QueryPlan
