import QueryPlan.Proofs.Availability

/-! Plans that differ in their projections only. Twins have the same tree once projections are
deleted, the same tuple counts, and the same value count under every watched name: the names that
narrowing leaves alone. Building the same node on twins gives twins. -/

namespace QueryPlan
open Outcome

def Plan.unprojected : Plan → Plan
  | scan s o => scan s (tuplesOnly o)
  | select i p o => select i.unprojected p (tuplesOnly o)
  | project i _ _ => i.unprojected
  | product l r o => product l.unprojected r.unprojected (tuplesOnly o)
  | join l r p o => join l.unprojected r.unprojected p (tuplesOnly o)
where
  tuplesOnly (o : Option Relation) : Option Relation := o.map fun r => ⟨r.tupleCount, []⟩

theorem Plan.baseRelations_unprojected (p : Plan) :
    p.unprojected.baseRelations = p.baseRelations := by
  induction p with
  | scan s o => rfl
  | select i p o ih => exact ih
  | project i as o ih => exact ih
  | product l r o ihl ihr => rw [unprojected, baseRelations, baseRelations, ihl, ihr]
  | join l r p o ihl ihr => rw [unprojected, baseRelations, baseRelations, ihl, ihr]

/-- Narrowing, if it is on, leaves the attribute alone. -/
def Pass.Watches (pass : Pass) (n : String) : Prop :=
  pass.narrowing = true → pass.required.contains n = true

theorem Pass.Accounted.watches {pass : Pass} {opened : List Attribute} {p : Predicate}
    (h : pass.Accounted opened) (hp : p ∈ pass.pending) :
    ∀ a ∈ p.attributes, pass.Watches a.name := fun a ha _ =>
  h.contains_iff.mpr (.inl (Predicate.mem_reads.mpr ⟨p, hp, a, ha, rfl⟩))

theorem Pass.watches_of_release {pass : Pass} {as : List Attribute} {n : String}
    (h : (pass.release as).Watches n) : pass.Watches n := fun hn => contains_of_release (h hn)

/-- Schemas over the same relations that agree on the number of tuples and on watched names. -/
structure Relation.Mirrors (c : Catalogue) (relations : List String) (watched : String → Prop)
    (r s : Relation) : Prop where
  tupleCount : r.tupleCount = s.tupleCount
  count? : ∀ n, watched n → r.count? n = s.count? n
  left_declared : ∀ n ∈ r.names, c.Declares relations n
  right_declared : ∀ n ∈ s.names, c.Declares relations n

namespace Relation.Mirrors
variable {c : Catalogue} {relations relations' : List String} {watched watched' : String → Prop}
  {r s r' s' t : Relation} {p : Predicate} {keep : List Attribute}

theorem symm (h : r.Mirrors c relations watched s) : s.Mirrors c relations watched r :=
  ⟨h.tupleCount.symm, fun n hn => (h.count? n hn).symm, h.right_declared, h.left_declared⟩

theorem mono (h : r.Mirrors c relations watched s)
    (hw : ∀ n, c.Declares relations n → watched' n → watched n) :
    r.Mirrors c relations watched' s := by
  refine ⟨h.tupleCount, fun n hn => ?_, h.left_declared, h.right_declared⟩
  by_cases hd : c.Declares relations n
  · exact h.count? n (hw n hd hn)
  · rw [count?_eq_none_iff.mpr (mt (h.left_declared n) hd),
      count?_eq_none_iff.mpr (mt (h.right_declared n) hd)]

theorem recount (h : r.Mirrors c relations watched s) (q : Attribute → Bool) (k t : Count) :
    Mirrors c relations watched ⟨t, r.recount q k⟩ ⟨t, s.recount q k⟩ where
  tupleCount := rfl
  count? n hn := by rw [count?_recount, count?_recount, h.count? n hn]
  left_declared n hn := h.left_declared n (names_recount r q k ▸ hn)
  right_declared n hn := h.right_declared n (names_recount s q k ▸ hn)

theorem append (h : r.Mirrors c relations watched s) (h' : r'.Mirrors c relations' watched s')
    (t : Count) : Mirrors c (relations ++ relations') watched
      ⟨t, r.attributes ++ r'.attributes⟩ ⟨t, s.attributes ++ s'.attributes⟩ where
  tupleCount := rfl
  count? n hn := by rw [count?_append, count?_append, h.count? n hn, h'.count? n hn]
  left_declared n hn := by
    rw [names, List.map_append, List.mem_append] at hn
    exact Catalogue.declares_append.mpr (hn.imp (h.left_declared n) (h'.left_declared n))
  right_declared n hn := by
    rw [names, List.map_append, List.mem_append] at hn
    exact Catalogue.declares_append.mpr (hn.imp (h.right_declared n) (h'.right_declared n))

theorem select (h : r.Mirrors c relations watched s) (hp : ∀ a ∈ p.attributes, watched a.name) :
    Agree (Mirrors c relations watched) (Estimate.select r p) (Estimate.select s p) := by
  have hresolve : ∀ a ∈ p.attributes, r.resolve a = s.resolve a := fun a ha =>
    resolve_congr (h.count? _ (hp a ha))
  cases p with
  | value a v =>
    rw [Estimate.select, Estimate.select, hresolve a List.mem_cons_self, h.tupleCount]
    exact Agree.bind_same fun x _ => .ok (h.recount _ _ _)
  | join a b =>
    rw [Estimate.select, Estimate.select, hresolve a List.mem_cons_self,
      hresolve b (List.mem_cons_of_mem _ List.mem_cons_self), h.tupleCount]
    exact Agree.bind_same fun x _ => Agree.bind_same fun y _ => .ok (h.recount _ _ _)

theorem product (h : r.Mirrors c relations watched s) (h' : r'.Mirrors c relations' watched s') :
    Mirrors c (relations ++ relations') watched (Estimate.product r r') (Estimate.product s s') := by
  unfold Estimate.product
  rw [h.tupleCount, h'.tupleCount]
  exact h.append h' _

theorem join (h : r.Mirrors c relations watched s) (h' : r'.Mirrors c relations' watched s')
    (hp : ∀ a ∈ p.attributes, watched a.name) :
    Agree (Mirrors c (relations ++ relations') watched)
      (Estimate.join r r' p) (Estimate.join s s' p) := by
  cases p with
  | value a v => exact .error _
  | join a b =>
    have ha := h.count? a.name (hp a List.mem_cons_self)
    have hb := h'.count? b.name (hp b (List.mem_cons_of_mem _ List.mem_cons_self))
    unfold Estimate.join
    simp only [attribute?_eq, ha, hb, h.tupleCount, h'.tupleCount]
    cases s.count? a.name with
    | none => exact .error _
    | some x =>
      cases s'.count? b.name with
      | none => exact .error _
      | some y => exact .ok ((h.recount _ _ 0).append (h'.recount _ _ 0) _)

theorem project_left (h : r.Mirrors c relations watched s)
    (hk : ∀ n ∈ r.names, watched n → n ∈ keep.map (·.name)) (hp : Estimate.project r keep = .ok t) :
    t.Mirrors c relations watched s := by
  obtain ⟨ht, hm, hc⟩ := Estimate.project_eq_ok hp
  refine ⟨ht.trans h.tupleCount, fun n hn => ?_, fun n hn => ?_, h.right_declared⟩
  · rw [hc, ← h.count? n hn]
    split
    · rfl
    · next hnot => exact (count?_eq_none_iff.mpr fun hmem => hnot (hk n hmem hn)).symm
  · obtain ⟨a, ha, rfl⟩ := List.mem_map.mp ((Estimate.mem_names_of_project hp).mp hn)
    exact h.left_declared _ (hm a ha)

end Relation.Mirrors

/-- Estimated plans that differ in their projections only, and in names that are not watched. -/
structure Plan.Twin (c : Catalogue) (watched : String → Prop) (p q : Plan) : Prop where
  unprojected : p.unprojected = q.unprojected
  outputs : ∃ r s, p.output? = some r ∧ q.output? = some s ∧
    r.Mirrors c p.baseRelations watched s

namespace Plan.Twin
variable {c : Catalogue} {watched watched' : String → Prop} {p q p' q' l : Plan} {cond : Predicate}
  {keep : List Attribute}

theorem baseRelations (h : p.Twin c watched q) : p.baseRelations = q.baseRelations := by
  rw [← p.baseRelations_unprojected, h.unprojected, q.baseRelations_unprojected]

theorem symm (h : p.Twin c watched q) : q.Twin c watched p := by
  obtain ⟨r, s, hr, hs, hm⟩ := h.outputs
  exact ⟨h.unprojected.symm, s, r, hs, hr, h.baseRelations ▸ hm.symm⟩

theorem mono (h : p.Twin c watched q)
    (hw : ∀ n, c.Declares p.baseRelations n → watched' n → watched n) : p.Twin c watched' q := by
  obtain ⟨r, s, hr, hs, hm⟩ := h.outputs
  exact ⟨h.unprojected, r, s, hr, hs, hm.mono hw⟩

theorem select (h : p.Twin c watched q) (hw : ∀ a ∈ cond.attributes, watched a.name) :
    Agree (Twin c watched) (Plan.select p cond).estimateRoot (Plan.select q cond).estimateRoot := by
  obtain ⟨r, s, hr, hs, hm⟩ := h.outputs
  rw [estimateRoot, estimateRoot, outputFor_select hr, outputFor_select hs]
  refine (hm.select hw).bind fun t u _ _ htu => .ok ⟨?_, t, u, rfl, rfl, htu⟩
  simp only [withOutput, Plan.unprojected, unprojected.tuplesOnly, h.unprojected, Option.map_some,
    htu.tupleCount]

theorem product (h : p.Twin c watched q) (h' : p'.Twin c watched q') : Agree (Twin c watched)
    (Plan.product p p').estimateRoot (Plan.product q q').estimateRoot := by
  obtain ⟨r, s, hr, hs, hm⟩ := h.outputs
  obtain ⟨r', s', hr', hs', hm'⟩ := h'.outputs
  rw [estimateRoot, estimateRoot, outputFor_product hr hr', outputFor_product hs hs']
  have hout := hm.product hm'
  refine .ok ⟨?_, _, _, rfl, rfl, hout⟩
  simp only [withOutput, Plan.unprojected, unprojected.tuplesOnly, h.unprojected, h'.unprojected,
    Option.map_some, hout.tupleCount]

theorem join (h : p.Twin c watched q) (h' : p'.Twin c watched q')
    (hw : ∀ a ∈ cond.attributes, watched a.name) : Agree (Twin c watched)
      (Plan.join p p' cond).estimateRoot (Plan.join q q' cond).estimateRoot := by
  obtain ⟨r, s, hr, hs, hm⟩ := h.outputs
  obtain ⟨r', s', hr', hs', hm'⟩ := h'.outputs
  rw [estimateRoot, estimateRoot, outputFor_join hr hr', outputFor_join hs hs']
  refine (hm.join hm' hw).bind fun t u _ _ htu => .ok ⟨?_, t, u, rfl, rfl, htu⟩
  simp only [withOutput, Plan.unprojected, unprojected.tuplesOnly, h.unprojected, h'.unprojected,
    Option.map_some, htu.tupleCount]

theorem project_left (h : p.Twin c watched q) {schema : Relation} (hs : p.output? = some schema)
    (hk : ∀ n ∈ schema.names, watched n → n ∈ keep.map (·.name))
    (he : (Plan.project p keep).estimateRoot = .ok l) : l.Twin c watched q := by
  obtain ⟨t, u, ht, hu, rfl⟩ := estimateRoot_project.mp he
  obtain rfl := Option.some.inj (hs.symm.trans ht)
  obtain ⟨r, s, hr, hs', hm⟩ := h.outputs
  obtain rfl := Option.some.inj (hs.symm.trans hr)
  exact ⟨h.unprojected, u, s, rfl, hs', hm.project_left hk hu⟩

end Plan.Twin
end QueryPlan
