import QueryPlan.Proofs.Availability

/-! The search does not get stuck. Over a sound cluster every estimate that the search asks for
exists, so a visit can fail only where a projection lists an attribute that its input lacks. -/

namespace QueryPlan

/-- A projection of the plan lists an attribute that no relation scanned below it declares. -/
def Plan.Overreaches (c : Catalogue) (plan : Plan) (n : String) : Prop :=
  ∃ i as out, .project i as out ∈ plan.subplans ∧ n ∈ as.map (·.name) ∧
    ¬ c.Declares i.baseRelations n

theorem Plan.Overreaches.mono {c : Catalogue} {p q : Plan} {n : String} (h : p.Overreaches c n)
    (hs : p.subplans ⊆ q.subplans) : q.Overreaches c n := by
  obtain ⟨i, as, out, hm, hn⟩ := h
  exact ⟨i, as, out, hs hm, hn⟩

namespace Optimiser
open Outcome

variable {o : Optimiser} {pass pass' : Pass} {plan plan' : Plan} {fs gs : List Fragment}
  {f : Fragment} {passed rest : List Predicate} {p : Predicate} {schema : Relation}
  {opened listed : List Attribute} {e : PlanError}

theorem output?_of_estimateRoot (h : plan.estimateRoot = .ok plan') :
    ∃ s, plan'.output? = some s := by
  obtain ⟨s, -, rfl⟩ := Plan.estimateRoot_eq_ok.mp h
  exact ⟨s, plan.output?_withOutput s⟩

theorem Sound.mem_names {cluster : Cluster} (h : o.Sound opened cluster)
    (hp : p ∈ cluster.pass.pending) (hf : o.Fit cluster.pass.required f schema) {a : Attribute}
    (ha : a ∈ p.attributes) (hd : o.catalogue.Declares f.relations a.name) :
    a.name ∈ schema.names := by
  refine hf.available _ hd (h.accounted.contains_iff.mpr (.inl ?_))
  exact Predicate.mem_reads.mpr ⟨p, hp, a, ha, rfl⟩

theorem select_ne_error (ho : plan.output? = some schema)
    (hp : ∀ a ∈ p.attributes, a.name ∈ schema.names) :
    (Plan.select plan p).estimateRoot ≠ .error e := by
  obtain ⟨s, hs⟩ := Estimate.select_of_mem hp
  exact ne_error_of_eq_ok ⟨_, Plan.estimateRoot_select.mpr ⟨schema, s, ho, hs, rfl⟩⟩

theorem narrow_ne_error (ho : ∃ s, plan.output? = some s) : o.narrow pass plan ≠ .error e := by
  obtain ⟨schema, ho⟩ := ho
  unfold narrow
  split
  · rw [Plan.output_eq_ok.mpr ho, ok_bind]
    dsimp only
    split
    · exact ok_ne_error
    · have hk : ∀ a ∈ schema.attributes.filter fun a => pass.required.contains a.name,
          a.name ∈ schema.names := fun a ha => List.mem_map_of_mem (List.mem_of_mem_filter ha)
      obtain ⟨s, hs⟩ := Estimate.project_of_mem hk
      exact ne_error_of_eq_ok ⟨_, Plan.estimateRoot_project.mpr ⟨schema, s, ho, hs, rfl⟩⟩
  · exact ok_ne_error

theorem applySelection_ne_error (ho : plan.output? = some schema)
    (hp : ∀ a ∈ p.attributes, a.name ∈ schema.names) :
    o.applySelection pass plan p ≠ .error e := by
  refine bind_ne_error (select_ne_error ho hp) fun selected hs => ?_
  refine bind_ne_error (narrow_ne_error (output?_of_estimateRoot hs)) fun _ _ => ok_ne_error

theorem pushValues_ne_error (hv : ∀ p ∈ rest, p.isValue = true)
    (ho : ∃ s, plan.output? = some s ∧ s.names = schema.names) :
    pushValues schema passed rest pass plan ≠ .error e := by
  induction rest generalizing passed pass plan with
  | nil => exact ok_ne_error
  | cons p rest ih =>
    rw [List.forall_mem_cons] at hv
    obtain ⟨s, ho, hs⟩ := ho
    rw [pushValues]
    split
    · next hp =>
      refine bind_ne_error (select_ne_error ho ?_) fun selected hsel => ih hv.2 ?_
      · rw [Predicate.attributes_of_isValue hv.1, List.forall_mem_singleton, hs]
        exact Relation.contains_eq_true.mp hp
      · obtain ⟨t, u, ht, hu, rfl⟩ := Plan.estimateRoot_select.mp hsel
        obtain rfl := Option.some.inj (ho.symm.trans ht)
        exact ⟨u, rfl, (Estimate.names_of_select hu).trans hs⟩
    · exact ih hv.2 ⟨s, ho, hs⟩

theorem pushEqualities_ne_error {relations : List String} (hj : pass.joins = passed ++ rest)
    (hs : o.Sound opened ⟨[⟨relations, plan⟩], pass⟩)
    (hd : ∀ n ∈ schema.names, o.catalogue.Declares relations n) :
    o.pushEqualities schema passed rest pass plan ≠ .error e := by
  induction rest generalizing passed pass plan with
  | nil => exact ok_ne_error
  | cons p rest ih =>
    rw [pushEqualities]
    split
    · next hp =>
      obtain ⟨out, hf⟩ := hs.fits _ (List.mem_singleton.mpr rfl)
      have hm : p ∈ pass.pending :=
        List.mem_append_right _ (hj ▸ List.mem_append_cons_self)
      refine bind_ne_error (applySelection_ne_error hf.output fun a ha => ?_) ?_
      · refine hs.mem_names hm hf ha (hd _ ?_)
        exact Relation.contains_eq_true.mp (List.all_eq_true.mp hp a ha)
      · rintro ⟨selected, next⟩ happ
        obtain ⟨hsteps, hjs, -⟩ := applySelection_steps [] [] relations hj happ
        exact ih hjs (Steps.sound hsteps hs)
    · exact ih (by rw [hj, List.append_assoc, List.singleton_append]) hs

theorem visitScan_ne_error {s r : NamedRelation} (hr : o.catalogue.find? s.name = some r)
    (ha : pass.Accounted opened) : o.visitScan s.name pass ≠ .error e := by
  unfold visitScan
  rw [Catalogue.lookup_eq_ok.mpr hr, ok_bind, Plan.estimateRoot_scan, ok_bind]
  refine bind_ne_error (pushValues_ne_error ha.isValue_of_mem_values ⟨_, rfl, rfl⟩) ?_
  rintro ⟨valued, mid⟩ hv
  obtain ⟨hvs, -⟩ := pushValues_steps (o := o) [r.name] (List.nil_append _).symm (by simp) hv
  have hbase : o.Sound opened ⟨[.ofPlan (.scan r (some r.relation))], pass⟩ :=
    ⟨ha, fits_ofPlan.mpr ⟨_, fit_scan hr rfl _⟩⟩
  have hmid := Steps.sound hvs hbase
  have hname : o.catalogue.find? r.name = some r := by rwa [Catalogue.name_of_find? hr]
  refine bind_ne_error (pushEqualities_ne_error rfl hmid
    fun n => (Catalogue.declares_singleton hname).mpr) ?_
  rintro ⟨equated, next⟩ he
  obtain ⟨hes, -⟩ := pushEqualities_moves [r.name] (List.nil_append _).symm (by simp) he
  obtain ⟨out, hf⟩ := (Steps.sound hes.steps hmid).fits _ (List.mem_singleton.mpr rfl)
  exact bind_ne_error (narrow_ne_error ⟨_, hf.output⟩) fun _ _ => ok_ne_error

theorem declares_of_resolve? {a : Attribute} {i : Fin fs.length} (h : o.resolve? fs a = some i) :
    o.catalogue.Declares (fs.get i).relations a.name := by
  obtain ⟨r, hr, hd⟩ := List.any_eq_true.mp (List.findFinIdx?_eq_some_iff.mp h).1
  exact ⟨r, hr, declares_iff.mp hd⟩

theorem declares_of_resolveBoth? {i : Fin fs.length} (h : o.resolveBoth? fs p = some i) :
    ∀ a ∈ p.attributes, o.catalogue.Declares (fs.get i).relations a.name := by
  cases p with
  | value l v => cases h
  | join l r =>
    obtain ⟨j, hj, h⟩ := Option.bind_eq_some_iff.mp h
    obtain ⟨k, hk, h⟩ := Option.bind_eq_some_iff.mp h
    split at h
    · next hjk =>
      cases h
      rw [Predicate.attributes, List.forall_mem_cons, List.forall_mem_singleton]
      exact ⟨declares_of_resolve? hj, hjk ▸ declares_of_resolve? hk⟩
    · cases h

theorem applyLocal_ne_error (hj : pass.joins = passed ++ rest) (hs : o.Sound opened ⟨fs, pass⟩) :
    o.applyLocal passed rest fs pass ≠ .error e := by
  induction rest generalizing passed fs pass with
  | nil => exact ok_ne_error
  | cons p rest ih =>
    rw [applyLocal]
    split
    · exact ih (by rw [hj, List.append_assoc, List.singleton_append]) hs
    · next i hi =>
      obtain ⟨out, hf⟩ := hs.fits fs[i] (List.getElem_mem _)
      have hm : p ∈ pass.pending := List.mem_append_right _ (hj ▸ List.mem_append_cons_self)
      refine bind_ne_error (applySelection_ne_error hf.output fun a ha =>
        hs.mem_names hm hf ha (declares_of_resolveBoth? hi a ha)) ?_
      rintro ⟨selected, next⟩ happ
      obtain ⟨hmove, hjs⟩ := applySelection_set i hj happ
      exact ih hjs (Steps.sound hmove.steps hs)

theorem candidate?_ne_error {position : Nat} (hp : p ∈ pass.pending)
    (hs : o.Sound opened ⟨fs, pass⟩) : o.candidate? fs position p ≠ .error e := by
  have htrial : ∀ (i j : Fin fs.length) (l r : Attribute),
      o.catalogue.Declares fs[i].relations l.name → o.catalogue.Declares fs[j].relations r.name →
      l ∈ p.attributes → r ∈ p.attributes →
      candidate?.trial fs position i j (.join l r) ≠ .error e := by
    intro i j l r hi hj hl hr
    obtain ⟨left, hleft⟩ := hs.fits fs[i] (List.getElem_mem _)
    obtain ⟨right, hright⟩ := hs.fits fs[j] (List.getElem_mem _)
    obtain ⟨s, hjoin⟩ := Estimate.join_of_mem (hs.mem_names hp hleft hl hi)
      (hs.mem_names hp hright hr hj)
    unfold candidate?.trial
    rw [Plan.output_eq_ok.mpr hleft.output, ok_bind, Plan.output_eq_ok.mpr hright.output, ok_bind,
      hjoin, ok_bind]
    exact ok_ne_error
  cases p with
  | value l v => exact ok_ne_error
  | join l r =>
    have hl : l ∈ (Predicate.join l r).attributes := List.mem_cons_self
    have hr : r ∈ (Predicate.join l r).attributes := List.mem_cons_of_mem _ List.mem_cons_self
    rw [candidate?]
    split
    · next i j hi hj =>
      have hi := declares_of_resolve? hi
      have hj := declares_of_resolve? hj
      split
      · exact ok_ne_error
      · split
        · exact htrial i j l r hi hj hl hr
        · exact htrial j i r l hj hi hr hl
    · exact ok_ne_error

theorem bestFrom_ne_error {position : Nat} {best : Option (Candidate fs)}
    (hr : ∀ p ∈ rest, p ∈ pass.pending) (hs : o.Sound opened ⟨fs, pass⟩) :
    o.bestFrom fs position rest best ≠ .error e := by
  induction rest generalizing position best with
  | nil => exact ok_ne_error
  | cons p rest ih =>
    rw [List.forall_mem_cons] at hr
    exact bind_ne_error (candidate?_ne_error hr.1 hs) fun _ _ => ih hr.2

theorem round_ne_error (hs : o.Sound opened ⟨fs, pass⟩) : o.round fs pass ≠ .error e := by
  refine bind_ne_error (applyLocal_ne_error rfl hs) ?_
  rintro ⟨selected, mid⟩ hl
  obtain ⟨hmoves, -⟩ := applyLocal_moves (List.nil_append _).symm (by simp) hl
  refine bind_ne_error (bestFrom_ne_error (fun p => List.mem_append_right _)
    (Steps.sound hmoves.steps hs)) fun best hb => ?_
  cases best with
  | none => exact ok_ne_error
  | some c =>
    rcases bestFrom_eq_some hb with hnone | ⟨k, p, -, hc⟩
    · cases hnone
    · obtain ⟨plan, he⟩ := estimateRoot_of_candidate? hc
      refine bind_ne_error (bind_ne_error (ne_error_of_eq_ok ⟨plan, he⟩) fun joined hj => ?_)
        fun _ _ => ok_ne_error
      exact bind_ne_error (narrow_ne_error (output?_of_estimateRoot hj)) fun _ _ => ok_ne_error

theorem rounds_ne_error {n : Nat} (hs : o.Sound opened ⟨fs, pass⟩) :
    o.rounds n fs pass ≠ .error e := by
  induction n generalizing fs pass with
  | zero => exact ok_ne_error
  | succ n ih =>
    refine bind_ne_error (round_ne_error hs) fun result hr => ?_
    cases result with
    | settled gs next => exact ok_ne_error
    | joined gs next => exact ih (Steps.sound (round_joined hr).1.steps hs)

theorem productAll_loop_ne_error (ho : ∃ s, plan.output? = some s)
    (hs : ∀ g ∈ fs, ∃ s, g.plan.output? = some s) :
    fs.foldlM (fun acc g => (Plan.product acc g.plan).estimateRoot) plan ≠ .error e := by
  induction fs generalizing plan with
  | nil => exact ok_ne_error
  | cons g fs ih =>
    obtain ⟨left, hl⟩ := ho
    obtain ⟨right, hr⟩ := hs g List.mem_cons_self
    rw [List.foldlM_cons]
    refine bind_ne_error (ne_error_of_eq_ok ⟨_, Plan.estimateRoot_product.mpr
      ⟨left, right, hl, hr, rfl⟩⟩) fun next hn => ?_
    exact ih (output?_of_estimateRoot hn) fun g hg => hs g (List.mem_cons_of_mem _ hg)

theorem combine_ne_error (hs : o.Sound opened ⟨fs, pass⟩) (hc : covered fs ≠ []) :
    o.combine fs pass ≠ .error e := by
  refine bind_ne_error (rounds_ne_error hs) ?_
  rintro ⟨rest, next⟩ hr
  obtain ⟨hmoves, -⟩ := rounds_moves (Nat.lt_succ_self _) hr
  have hsteps := hmoves.steps
  refine bind_ne_error ?_ fun _ _ => ok_ne_error
  cases rest with
  | nil => exact absurd (Steps.covered_perm hsteps).symm.eq_nil hc
  | cons f rest =>
    have houtput : ∀ g ∈ f :: rest, ∃ s, g.plan.output? = some s := by
      intro g hg
      obtain ⟨s, hg⟩ := (Steps.sound hsteps hs).fits g hg
      exact ⟨s, hg.output⟩
    rw [List.forall_mem_cons] at houtput
    exact productAll_loop_ne_error houtput.1 houtput.2

theorem settle_ne_error {input : Plan} {v : Visited} (hv : o.Rewrites input pass v pass')
    (hi : input.Orderly o.catalogue) (ha : pass.Accounted opened) :
    o.settle v pass' ≠ .error e := by
  cases v with
  | whole plan => exact ok_ne_error
  | cluster fragments =>
    refine combine_ne_error (hv.sound hi ha) fun hnil => ?_
    exact input.baseRelations_ne_nil (hnil ▸ hv.covered_perm).nil_eq.symm

theorem kept_listed_eq_error {acc : List Attribute}
    (h : listed.foldlM (fun keep a => do return kept.add keep (← schema.resolve a)) acc =
      .error e) : ∃ a ∈ listed, a.name ∉ schema.names ∧ e = .unresolvedAttribute a.name := by
  induction listed generalizing acc with
  | nil => cases h
  | cons a listed ih =>
    rw [List.foldlM_cons] at h
    by_cases ha : a.name ∈ schema.names
    · obtain ⟨v, -, hv⟩ := Relation.resolve_of_mem ha
      rw [hv] at h
      obtain ⟨b, hb, he⟩ := ih h
      exact ⟨b, List.mem_cons_of_mem _ hb, he⟩
    · rw [Relation.resolve_of_not_mem ha] at h
      cases h
      exact ⟨a, List.mem_cons_self, ha, rfl⟩

theorem kept_eq_error (h : kept pass schema listed = .error e) :
    ∃ a ∈ listed, a.name ∉ schema.names ∧ e = .unresolvedAttribute a.name := by
  rcases bind_eq_error.mp h with h | ⟨_, _, h⟩
  · exact kept_listed_eq_error h
  · cases h

theorem not_declares_of_kept_error {input inner : Plan} {below : Pass} {narrowing : Bool}
    (hin : o.Rewrites input pass (.whole inner) below) (hi : input.Orderly o.catalogue)
    (ha : pass.Accounted (opened ++ listed)) (hs : inner.output? = some schema)
    (h : kept { below with narrowing } schema listed = .error e) :
    ∃ a ∈ listed, e = .unresolvedAttribute a.name ∧
      ¬ o.catalogue.Declares input.baseRelations a.name := by
  have hsound := hin.sound hi ha
  obtain ⟨t, hf⟩ := fits_ofPlan.mp hsound.fits
  obtain rfl := Option.some.inj (hs.symm.trans hf.output)
  obtain ⟨a, hal, hn, rfl⟩ := kept_eq_error h
  refine ⟨a, hal, rfl, fun hdecl => hn (hf.available _ ?_ ?_)⟩
  · exact (Catalogue.declares_perm hin.baseRelations_perm).mpr hdecl
  · rw [hsound.accounted.contains_iff, List.map_append]
    exact .inr (List.mem_append_right _ (List.mem_map_of_mem hal))

theorem walk_eq_error {input : Plan} (hi : input.Orderly o.catalogue) (ha : pass.Accounted opened)
    (h : o.walk input pass = .error e) :
    ∃ n, e = .unresolvedAttribute n ∧ input.Overreaches o.catalogue n := by
  induction input generalizing pass opened with
  | scan s out =>
    obtain ⟨r, hr⟩ := hi
    rcases bind_eq_error.mp h with h | ⟨_, _, h⟩
    · exact absurd h (visitScan_ne_error hr ha)
    · cases h
  | select input p out ih =>
    have hd := ha.defer p
    rcases bind_eq_error.mp h with h | ⟨⟨visited, mid⟩, hw, h⟩
    · obtain ⟨n, rfl, hn⟩ := ih hi hd h
      exact ⟨n, rfl, hn.mono (List.subset_cons_self _ _)⟩
    · rcases bind_eq_error.mp h with h | ⟨_, _, h⟩
      · exact absurd h (settle_ne_error (walk_rewrites hw) hi hd)
      · cases h
  | project input listed out ih =>
    obtain ⟨hl, hi⟩ := hi
    rw [walk, if_neg (by simpa using hl)] at h
    have hd := ha.acquireListed hl
    rcases bind_eq_error.mp h with h | ⟨⟨visited, mid⟩, hw, h⟩
    · obtain ⟨n, rfl, hn⟩ := ih hi hd h
      exact ⟨n, rfl, hn.mono (List.subset_cons_self _ _)⟩
    · rcases bind_eq_error.mp h with h | ⟨⟨inner, below⟩, hset, h⟩
      · exact absurd h (settle_ne_error (walk_rewrites hw) hi hd)
      -- now the input has a plan, and the list is all that can be at fault
      · have hin := (settle_visits (walk_visits hw) hset).rewrites
        have hs := hin.sound hi hd
        obtain ⟨schema, hf⟩ := fits_ofPlan.mp hs.fits
        have ho : inner.output = .ok schema := Plan.output_eq_ok.mpr hf.output
        dsimp only at h
        rw [ho, ok_bind] at h
        rcases bind_eq_error.mp h with h | ⟨keep, hk, h⟩
        · obtain ⟨a, hal, rfl, hd⟩ := not_declares_of_kept_error hin hi hd hf.output h
          exact ⟨a.name, rfl, input, listed, out, List.mem_cons_self, List.mem_map_of_mem hal, hd⟩
        · split at h
          · refine absurd h (bind_ne_error ?_ fun _ _ => ok_ne_error)
            obtain ⟨s, hs⟩ := Estimate.project_of_mem (kept_subset hk)
            exact ne_error_of_eq_ok
              ⟨_, Plan.estimateRoot_project.mpr ⟨schema, s, hf.output, hs, rfl⟩⟩
          · cases h
  | product left right out ihl ihr =>
    obtain ⟨hleft, hright, -⟩ := hi
    rcases bind_eq_error.mp h with h | ⟨⟨l, mid⟩, hl, h⟩
    · obtain ⟨n, rfl, hn⟩ := ihl hleft ha h
      exact ⟨n, rfl, hn.mono fun p hp => List.mem_cons_of_mem _ (List.mem_append_left _ hp)⟩
    · have hs := (walk_rewrites hl).sound hleft ha
      rcases bind_eq_error.mp h with h | ⟨_, _, h⟩
      · obtain ⟨n, rfl, hn⟩ := ihr hright hs.accounted h
        exact ⟨n, rfl, hn.mono fun p hp => List.mem_cons_of_mem _ (List.mem_append_right _ hp)⟩
      · cases h
  | join => exact hi.elim

end Optimiser
end QueryPlan
