import QueryPlan.Proofs.Progress
import QueryPlan.Proofs.Twins

/-! Two runs over one catalogue that differ in early projection only go through the same states with
twin plans: what narrowing drops is not watched, and the search looks up watched names only. -/

namespace QueryPlan
open Outcome

def Candidate.cast {fs gs : List Fragment} (h : fs.length = gs.length) (x : Candidate fs) :
    Candidate gs :=
  ⟨x.position, x.left.cast h, x.right.cast h, x.predicate, x.tuples⟩

namespace Optimiser

variable {c : Catalogue} {e e' : Bool} {pass : Pass} {opened : List Attribute} {p q : Plan}
  {schema : Relation} {passed rest : List Predicate} {cond : Predicate}

theorem narrow_twin_left (e : Bool) (h : p.Twin c pass.Watches q) :
    ∃ l, narrow ⟨c, e⟩ pass p = .ok l ∧ l.Twin c pass.Watches q := by
  obtain ⟨schema, _, hs, -⟩ := h.outputs
  cases hn : narrow ⟨c, e⟩ pass p with
  | error err => exact absurd hn (narrow_ne_error ⟨schema, hs⟩)
  | ok l =>
    refine ⟨l, rfl, ?_⟩
    rcases narrow_cases hn with rfl | ⟨out, keep, hon, ho, rfl, -, he⟩
    · exact h
    · obtain rfl := Option.some.inj (hs.symm.trans ho)
      refine h.project_left hs (fun n hm hw => ?_) he
      obtain ⟨a, ha, rfl⟩ := List.mem_map.mp hm
      have hreq := hw (Bool.and_eq_true_iff.mp hon).2
      exact List.mem_map.mpr ⟨a, List.mem_filter.mpr ⟨ha, hreq⟩, rfl⟩

theorem narrow_twin (h : p.Twin c pass.Watches q) :
    Agree (Plan.Twin c pass.Watches) (narrow ⟨c, e⟩ pass p) (narrow ⟨c, e'⟩ pass q) := by
  obtain ⟨l, hl, ht⟩ := narrow_twin_left e h
  obtain ⟨r, hr, ht⟩ := narrow_twin_left e' ht.symm
  exact .of_eq_ok hl hr ht.symm

def TwinRun (c : Catalogue) (a b : Plan × Pass) : Prop :=
  a.2 = b.2 ∧ a.1.Twin c a.2.Watches b.1

theorem applySelection_twin (h : p.Twin c pass.Watches q)
    (hw : ∀ a ∈ cond.attributes, pass.Watches a.name) :
    Agree (TwinRun c) (applySelection ⟨c, e⟩ pass p cond) (applySelection ⟨c, e'⟩ pass q cond) := by
  refine (h.select hw).bind fun l r _ _ hlr => ?_
  refine (narrow_twin (hlr.mono fun n _ => Pass.watches_of_release)).bind fun l r _ _ hlr => ?_
  exact .ok ⟨rfl, hlr⟩

theorem pushEqualities_twin (hj : pass.joins = passed ++ rest) (ha : pass.Accounted opened)
    (h : p.Twin c pass.Watches q) :
    Agree (TwinRun c) (pushEqualities ⟨c, e⟩ schema passed rest pass p)
      (pushEqualities ⟨c, e'⟩ schema passed rest pass q) := by
  induction rest generalizing passed pass p q with
  | nil => exact .ok ⟨rfl, h⟩
  | cons cond rest ih =>
    rw [pushEqualities, pushEqualities]
    split
    · have hm : cond ∈ pass.pending := List.mem_append_right _ (hj ▸ List.mem_append_cons_self)
      have hnext : p.Twin c ({ pass with joins := passed ++ rest } : Pass).Watches q := h
      refine (applySelection_twin hnext (ha.watches hm)).bind ?_
      rintro ⟨l, next⟩ ⟨r, _⟩ hl - ⟨rfl, hlr⟩
      obtain ⟨hsteps, hjs, -⟩ := applySelection_steps [] [] [] hj hl
      exact ih hjs (Steps.accounted hsteps ha) hlr
    · exact ih (by rw [hj, List.append_assoc, List.singleton_append]) ha h

theorem Fit.twin {required : Required} {f : Fragment}
    (h : Fit ⟨c, e⟩ required f schema) (hf : f.relations = f.plan.baseRelations)
    (watched : String → Prop) : f.plan.Twin c watched f.plan :=
  ⟨rfl, schema, schema, h.output, h.output, rfl, fun _ _ => rfl, hf ▸ h.declared, hf ▸ h.declared⟩

theorem visitScan_twin {name : String} (ha : pass.Accounted opened) :
    Agree (TwinRun c) (visitScan ⟨c, e⟩ name pass) (visitScan ⟨c, e'⟩ name pass) := by
  refine Agree.bind_same fun r hr => Agree.bind_same fun base hb => ?_
  refine Agree.bind_same ?_
  rintro ⟨valued, mid⟩ hv
  rw [Catalogue.lookup_eq_ok] at hr
  have hname : c.find? r.name = some r := by rwa [Catalogue.name_of_find? hr]
  obtain ⟨hsteps, -⟩ := pushValues_steps (o := ⟨c, e⟩) base.baseRelations (List.nil_append _).symm
    (by simp) hv
  -- up to here nothing depends on early projection, so a plan is compared with itself
  have hsound := Steps.sound hsteps ⟨ha, fits_ofPlan.mpr ⟨_, fit_scan (o := ⟨c, e⟩) hname hb _⟩⟩
  obtain ⟨schema, hf⟩ := hsound.fits _ (List.mem_singleton.mpr rfl)
  have hrel := Steps.faithful hsteps (faithful_ofPlan base) _ (List.mem_singleton.mpr rfl)
  refine (pushEqualities_twin rfl hsound.accounted (hf.twin hrel _)).bind ?_
  rintro ⟨l, next⟩ ⟨r, _⟩ - - ⟨rfl, hlr⟩
  exact (narrow_twin hlr).bind fun l r _ _ hlr => .ok ⟨rfl, hlr⟩

/-- Fragments of the two runs: each covers what its plan scans, and the plans are twins. -/
structure Alike (c : Catalogue) (watched : String → Prop) (f g : Fragment) : Prop where
  left_relations : f.relations = f.plan.baseRelations
  right_relations : g.relations = g.plan.baseRelations
  twin : f.plan.Twin c watched g.plan

variable {watched watched' : String → Prop} {f g : Fragment} {fs gs : List Fragment}

theorem Alike.relations (h : Alike c watched f g) : f.relations = g.relations := by
  rw [h.left_relations, h.twin.baseRelations, h.right_relations]

theorem Alike.mono (h : Alike c watched f g)
    (hw : ∀ n, c.Declares f.relations n → watched' n → watched n) : Alike c watched' f g :=
  ⟨h.left_relations, h.right_relations, h.twin.mono (h.left_relations ▸ hw)⟩

theorem alike_mono (h : List.Forall₂ (Alike c watched) fs gs)
    (hw : ∀ n, c.Declares (covered fs) n → watched' n → watched n) :
    List.Forall₂ (Alike c watched') fs gs := by
  induction h with
  | nil => exact .nil
  | cons h _ ih =>
    refine .cons (h.mono fun n hd => hw n (hd.mono (List.subset_append_left _ _))) (ih fun n hd => ?_)
    exact hw n (hd.mono (List.subset_append_right _ _))

theorem alike_release {as : List Attribute} (h : List.Forall₂ (Alike c pass.Watches) fs gs) :
    List.Forall₂ (Alike c (pass.release as).Watches) fs gs :=
  alike_mono h fun _ _ => Pass.watches_of_release

theorem relations_of_alike (h : List.Forall₂ (Alike c watched) fs gs) :
    fs.map (·.relations) = gs.map (·.relations) := by
  induction h with
  | nil => rfl
  | cons h _ ih => rw [List.map_cons, List.map_cons, h.relations, ih]

theorem resolve?_cast (h : List.Forall₂ (Alike c watched) fs gs) (a : Attribute) :
    resolve? ⟨c, e'⟩ gs a = (resolve? ⟨c, e⟩ fs a).map (Fin.cast h.length_eq) := by
  apply Option.map_injective fun _ _ => Fin.ext
  rw [resolve?_map_val, ← relations_of_alike h, Option.map_map]
  exact (resolve?_map_val (o := ⟨c, e⟩) fs a).symm

theorem resolveBoth?_cast (h : List.Forall₂ (Alike c watched) fs gs) (p : Predicate) :
    resolveBoth? ⟨c, e'⟩ gs p = (resolveBoth? ⟨c, e⟩ fs p).map (Fin.cast h.length_eq) := by
  cases p with
  | value l v => rfl
  | join l r =>
    unfold resolveBoth?
    dsimp only
    rw [resolve?_cast (e := e) h l, resolve?_cast (e := e) h r]
    cases resolve? ⟨c, e⟩ fs l with
    | none => rfl
    | some i =>
      cases resolve? ⟨c, e⟩ fs r with
      | none => rfl
      | some j =>
        change (if Fin.cast h.length_eq i = Fin.cast h.length_eq j then _ else _) =
          Option.map _ (if i = j then _ else _)
        by_cases hij : i = j
        · rw [if_pos hij, if_pos (congrArg _ hij)]
          rfl
        · have hcast : i.cast h.length_eq ≠ j.cast h.length_eq := fun hc =>
            hij (Fin.ext (Fin.mk.inj hc))
          rw [if_neg hij, if_neg hcast]
          rfl

theorem alike_get (h : List.Forall₂ (Alike c watched) fs gs) (i : Fin fs.length) :
    Alike c watched (fs.get i) (gs.get (Fin.cast h.length_eq i)) :=
  h.get i.isLt (i.cast h.length_eq).isLt

theorem alike_set (h : List.Forall₂ (Alike c watched) fs gs) (hf : Alike c watched f g) (i : Nat) :
    List.Forall₂ (Alike c watched) (fs.set i f) (gs.set i g) := by
  induction h generalizing i with
  | nil => exact .nil
  | cons h hs ih =>
    cases i with
    | zero => exact .cons hf hs
    | succ i => exact .cons h (ih i)

theorem alike_eraseIdx (h : List.Forall₂ (Alike c watched) fs gs) (i : Nat) :
    List.Forall₂ (Alike c watched) (fs.eraseIdx i) (gs.eraseIdx i) := by
  induction h generalizing i with
  | nil => exact .nil
  | cons h hs ih =>
    cases i with
    | zero => exact hs
    | succ i => exact .cons h (ih i)

def AlikeRun (c : Catalogue) (a b : List Fragment × Pass) : Prop :=
  a.2 = b.2 ∧ List.Forall₂ (Alike c a.2.Watches) a.1 b.1

theorem applyLocal_alike (hj : pass.joins = passed ++ rest) (ha : pass.Accounted opened)
    (h : List.Forall₂ (Alike c pass.Watches) fs gs) :
    Agree (AlikeRun c) (applyLocal ⟨c, e⟩ passed rest fs pass)
      (applyLocal ⟨c, e'⟩ passed rest gs pass) := by
  induction rest generalizing passed fs gs pass with
  | nil => exact .ok ⟨rfl, h⟩
  | cons cond rest ih =>
    rw [applyLocal, applyLocal, resolveBoth?_cast (e := e) h]
    cases hi : resolveBoth? ⟨c, e⟩ fs cond with
    | none => exact ih (by rw [hj, List.append_assoc, List.singleton_append]) ha h
    | some i =>
      have hm : cond ∈ pass.pending := List.mem_append_right _ (hj ▸ List.mem_append_cons_self)
      have hget := alike_get h i
      have hnext : fs[i].plan.Twin c ({ pass with joins := passed ++ rest } : Pass).Watches
          gs[Fin.cast h.length_eq i].plan := hget.twin
      refine (applySelection_twin hnext (ha.watches hm)).bind ?_
      rintro ⟨l, next⟩ ⟨r, _⟩ hl hr ⟨rfl, hlr⟩
      obtain ⟨hsteps, hjs, -⟩ := applySelection_steps [] [] [] hj hl
      have hlr' : Alike c next.Watches ⟨fs[i].relations, l⟩
          ⟨gs[Fin.cast h.length_eq i].relations, r⟩ :=
        ⟨hget.left_relations.trans (baseRelations_of_applySelection hl).symm,
          hget.right_relations.trans (baseRelations_of_applySelection hr).symm, hlr⟩
      have hnext : next = ({ pass with joins := passed ++ rest } : Pass).release cond.attributes :=
        pass_of_applySelection hl
      exact ih hjs (Steps.accounted hsteps ha)
        (alike_set (hnext ▸ alike_release h) hlr' i)

theorem trial_alike (h : List.Forall₂ (Alike c watched) fs gs) {position : Nat}
    {i j : Fin fs.length} (hw : ∀ a ∈ cond.attributes, watched a.name) :
    Agree (fun x y => y = x.map (Candidate.cast h.length_eq))
      (candidate?.trial fs position i j cond)
      (candidate?.trial gs position (i.cast h.length_eq) (j.cast h.length_eq) cond) := by
  obtain ⟨r, s, hr, hs, hm⟩ := (alike_get h i).twin.outputs
  obtain ⟨r', s', hr', hs', hm'⟩ := (alike_get h j).twin.outputs
  have hleft : fs[i].plan.output = .ok r := Plan.output_eq_ok.mpr hr
  have hleft' : gs[Fin.cast h.length_eq i].plan.output = .ok s := Plan.output_eq_ok.mpr hs
  have hright : fs[j].plan.output = .ok r' := Plan.output_eq_ok.mpr hr'
  have hright' : gs[Fin.cast h.length_eq j].plan.output = .ok s' := Plan.output_eq_ok.mpr hs'
  unfold candidate?.trial
  rw [hleft, hleft', ok_bind, ok_bind, hright, hright', ok_bind, ok_bind]
  refine (hm.join hm' hw).bind fun t u _ _ htu => .ok ?_
  rw [htu.tupleCount]
  rfl

theorem candidate?_alike (h : List.Forall₂ (Alike c watched) fs gs) (position : Nat)
    (hw : ∀ a ∈ cond.attributes, watched a.name) :
    Agree (fun x y => y = x.map (Candidate.cast h.length_eq))
      (candidate? ⟨c, e⟩ fs position cond) (candidate? ⟨c, e'⟩ gs position cond) := by
  cases cond with
  | value l v => exact .ok rfl
  | join l r =>
    rw [candidate?, candidate?, resolve?_cast (e := e) h l, resolve?_cast (e := e) h r]
    cases resolve? ⟨c, e⟩ fs l with
    | none => exact .ok rfl
    | some i =>
      cases resolve? ⟨c, e⟩ fs r with
      | none => exact .ok rfl
      | some j =>
        simp only [Option.map_some]
        by_cases hij : i = j
        · rw [if_pos hij, if_pos (congrArg _ hij)]
          exact .ok rfl
        · have hcast : i.cast h.length_eq ≠ j.cast h.length_eq := fun hc =>
            hij (Fin.ext (Fin.mk.inj hc))
          rw [if_neg hij, if_neg hcast]
          by_cases hlt : i < j
          · rw [if_pos hlt, if_pos (show i.cast h.length_eq < j.cast h.length_eq from hlt)]
            exact trial_alike h hw
          · rw [if_neg hlt, if_neg (show ¬ i.cast h.length_eq < j.cast h.length_eq from hlt)]
            refine trial_alike h fun a ha => hw a ?_
            exact (List.Perm.swap ..).mem_iff.mp ha

theorem prefer_cast (h : fs.length = gs.length) (best next : Option (Candidate fs)) :
    prefer (best.map (Candidate.cast h)) (next.map (Candidate.cast h)) =
      (prefer best next).map (Candidate.cast h) := by
  cases best with
  | none => rfl
  | some b =>
    cases next with
    | none => rfl
    | some x =>
      unfold prefer
      simp only [Option.map_some]
      show (if x.tuples < b.tuples then _ else _) = _
      split <;> rfl

theorem bestFrom_alike (h : List.Forall₂ (Alike c watched) fs gs) (position : Nat)
    (hw : ∀ p ∈ rest, ∀ a ∈ p.attributes, watched a.name) (best : Option (Candidate fs)) :
    Agree (fun x y => y = x.map (Candidate.cast h.length_eq))
      (bestFrom ⟨c, e⟩ fs position rest best)
      (bestFrom ⟨c, e'⟩ gs position rest (best.map (Candidate.cast h.length_eq))) := by
  induction rest generalizing position best with
  | nil => exact .ok rfl
  | cons p rest ih =>
    rw [List.forall_mem_cons] at hw
    refine (candidate?_alike h position hw.1).bind ?_
    rintro next _ - - rfl
    rw [prefer_cast]
    exact ih (position + 1) hw.2 _

theorem joinFragments_alike (h : List.Forall₂ (Alike c pass.Watches) fs gs) (x : Candidate fs)
    (hw : ∀ a ∈ x.predicate.attributes, pass.Watches a.name) :
    Agree (AlikeRun c) (joinFragments ⟨c, e⟩ fs pass x)
      (joinFragments ⟨c, e'⟩ gs pass (x.cast h.length_eq)) := by
  have hl := alike_get h x.left
  have hr := alike_get h x.right
  refine (hl.twin.join hr.twin hw).bind fun p q hp hq hpq => ?_
  have hrel : p.Twin c (pass.release x.predicate.attributes).Watches q :=
    hpq.mono fun _ _ => Pass.watches_of_release
  have hnext : p.Twin c ({ pass.release x.predicate.attributes with
      joins := pass.joins.eraseIdx x.position } : Pass).Watches q := hrel
  refine (narrow_twin hnext).bind fun p' q' hp' hq' hpq' => .ok ⟨rfl, ?_⟩
  refine alike_eraseIdx (alike_set (alike_release h) ⟨?_, ?_, hpq'⟩ _) _
  · rw [baseRelations_of_narrow hp', baseRelations_of_estimateRoot hp, Plan.baseRelations,
      ← hl.left_relations, ← hr.left_relations]
    rfl
  · rw [baseRelations_of_narrow hq', baseRelations_of_estimateRoot hq, Plan.baseRelations,
      ← hl.right_relations, ← hr.right_relations]
    rfl

/-- Rounds of the two runs with the same outcome. -/
inductive RoundAlike (c : Catalogue) : Round → Round → Prop
  | joined {fs gs : List Fragment} {pass : Pass}
      (h : List.Forall₂ (Alike c pass.Watches) fs gs) :
      RoundAlike c (.joined fs pass) (.joined gs pass)
  | settled {fs gs : List Fragment} {pass : Pass}
      (h : List.Forall₂ (Alike c pass.Watches) fs gs) :
      RoundAlike c (.settled fs pass) (.settled gs pass)

theorem round_alike (ha : pass.Accounted opened) (h : List.Forall₂ (Alike c pass.Watches) fs gs) :
    Agree (RoundAlike c) (round ⟨c, e⟩ fs pass) (round ⟨c, e'⟩ gs pass) := by
  refine (applyLocal_alike (List.nil_append _).symm ha h).bind ?_
  rintro ⟨fs', mid⟩ ⟨gs', _⟩ hl - ⟨rfl, hlr⟩
  obtain ⟨hmoves, -⟩ := applyLocal_moves (List.nil_append _).symm (by simp) hl
  have hmid := Steps.accounted hmoves.steps ha
  have hw : ∀ p ∈ mid.joins, ∀ a ∈ p.attributes, mid.Watches a.name := fun p hp =>
    hmid.watches (List.mem_append_right _ hp)
  refine (bestFrom_alike hlr 0 hw none).bind ?_
  rintro best _ hb - rfl
  cases best with
  | none => exact .ok (.settled hlr)
  | some x =>
    rcases bestFrom_eq_some hb with hnone | ⟨k, p, hk, hx⟩
    · cases hnone
    · have hwp := hw p (List.mem_of_getElem? hk)
      have hwx : ∀ a ∈ x.predicate.attributes, mid.Watches a.name := by
        rcases predicate_of_candidate? hx with hp | hp
        · rwa [hp]
        · rw [hp]
          exact fun a ha => hwp a (p.attributes_swapped.mem_iff.mp ha)
      refine (joinFragments_alike hlr x hwx).bind ?_
      rintro ⟨fs', next⟩ ⟨gs', _⟩ - - ⟨rfl, hnext⟩
      exact .ok (.joined hnext)

theorem rounds_alike {n : Nat} (ha : pass.Accounted opened)
    (h : List.Forall₂ (Alike c pass.Watches) fs gs) :
    Agree (AlikeRun c) (rounds ⟨c, e⟩ n fs pass) (rounds ⟨c, e'⟩ n gs pass) := by
  induction n generalizing fs gs pass with
  | zero => exact .ok ⟨rfl, h⟩
  | succ n ih =>
    refine (round_alike ha h).bind fun a b hl _ hab => ?_
    cases hab with
    | joined h => exact ih (Steps.accounted (round_joined hl).1.steps ha) h
    | settled h => exact .ok ⟨rfl, h⟩

theorem productAll_loop_twin (hp : p.Twin c watched q)
    (h : List.Forall₂ (Alike c watched) fs gs) :
    Agree (Plan.Twin c watched)
      (fs.foldlM (fun acc g => (Plan.product acc g.plan).estimateRoot) p)
      (gs.foldlM (fun acc g => (Plan.product acc g.plan).estimateRoot) q) := by
  induction h generalizing p q with
  | nil => exact .ok hp
  | cons hfg _ ih =>
    rw [List.foldlM_cons, List.foldlM_cons]
    exact (hp.product hfg.twin).bind fun p q _ _ hpq => ih hpq

theorem combine_twin (ha : pass.Accounted opened)
    (h : List.Forall₂ (Alike c pass.Watches) fs gs) :
    Agree (TwinRun c) (combine ⟨c, e⟩ fs pass) (combine ⟨c, e'⟩ gs pass) := by
  refine (rounds_alike ha h).bind ?_
  rintro ⟨fs', mid⟩ ⟨gs', _⟩ - - ⟨rfl, hlr⟩
  have hproduct : Agree (Plan.Twin c mid.Watches) (productAll fs') (productAll gs') := by
    cases hlr with
    | nil => exact .error _
    | cons hfg hrest => exact productAll_loop_twin hfg.twin hrest
  exact hproduct.bind fun p q _ _ hpq => .ok ⟨rfl, hpq⟩

end Optimiser
end QueryPlan
