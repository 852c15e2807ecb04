import QueryPlan.Proofs.Run
import QueryPlan.Proofs.Shape

/-! The live fragments of a cluster. Whatever the loops over a cluster do, each relation that the
cluster scans is in one fragment, and a fragment that owns an attribute of a waiting equality still
has it in its output. -/

namespace QueryPlan
open Outcome

namespace Optimiser

/-- Where the loops over a cluster stand: a round begins, an equality may lie within one fragment,
an equality may join two of them, or the first two are to be multiplied. -/
inductive Turn
  | round
  | select (passed rest : List Predicate)
  | search (rest : List Predicate)
  | multiply

/-- The turns that a run on `root` takes over the cluster of the visited subtree `plan`, each with
the live fragments and the state in which it begins. A product that is under way counts as a
fragment over the relations that have gone into it. -/
inductive Works (o : Optimiser) (root plan : Plan) : Turn → Cluster → Prop
  | enter {s : Surroundings} {pass mid : Pass} {fs : List Fragment}
      (h : o.Reaches root s (.visit plan pass)) (hw : o.walk plan pass = .ok (.cluster fs, mid)) :
      Works o root plan .round ⟨fs, mid⟩
  | select {a : Cluster} (h : Works o root plan .round a) :
      Works o root plan (.select [] a.pass.joins) a
  | passed {passed rest : List Predicate} {p : Predicate} {a : Cluster}
      (h : Works o root plan (.select passed (p :: rest)) a)
      (hp : o.resolveBoth? a.fragments p = none) :
      Works o root plan (.select (passed ++ [p]) rest) a
  | taken {passed rest : List Predicate} {p : Predicate} {fs : List Fragment} {pass next : Pass}
      {i : Fin fs.length} {grown : Plan}
      (h : Works o root plan (.select passed (p :: rest)) ⟨fs, pass⟩)
      (hp : o.resolveBoth? fs p = some i)
      (ha : o.applySelection { pass with joins := passed ++ rest } (fs.get i).plan p =
        .ok (grown, next)) :
      Works o root plan (.select passed rest) ⟨fs.set i { fs.get i with plan := grown }, next⟩
  | search {passed : List Predicate} {fs : List Fragment} {pass : Pass}
      (h : Works o root plan (.select passed []) ⟨fs, pass⟩) :
      Works o root plan (.search passed) ⟨fs, { pass with joins := passed }⟩
  | asked {rest : List Predicate} {p : Predicate} {a : Cluster} {position : Nat}
      {next : Option (Candidate a.fragments)} (h : Works o root plan (.search (p :: rest)) a)
      (hc : o.candidate? a.fragments position p = .ok next) :
      Works o root plan (.search rest) a
  | joined {fs gs : List Fragment} {pass next : Pass} {c : Candidate fs}
      (h : Works o root plan (.search []) ⟨fs, pass⟩)
      (hb : o.bestFrom fs 0 pass.joins none = .ok (some c))
      (hj : o.joinFragments fs pass c = .ok (gs, next)) :
      Works o root plan .round ⟨gs, next⟩
  | settled {fs : List Fragment} {pass : Pass} (h : Works o root plan (.search []) ⟨fs, pass⟩)
      (hb : o.bestFrom fs 0 pass.joins none = .ok none) :
      Works o root plan .multiply ⟨fs, pass⟩
  | multiplied {f g : Fragment} {after : List Fragment} {pass : Pass} {product : Plan}
      (h : Works o root plan .multiply ⟨f :: g :: after, pass⟩)
      (he : (Plan.product f.plan g.plan).estimateRoot = .ok product) :
      Works o root plan .multiply ⟨⟨f.relations ++ g.relations, product⟩ :: after, pass⟩

/-- The live fragments divide the scanned relations among them, and each has in its output what it
owns of the waiting equalities. -/
structure Partitioned (o : Optimiser) (scanned : List String) (a : Cluster) : Prop where
  faithful : Faithful a.fragments
  covers : (covered a.fragments).Perm scanned
  apart : a.fragments.Pairwise fun f g => f.relations.Disjoint g.relations
  present : ∀ p ∈ a.pass.joins, ∀ b ∈ p.attributes, ∀ i, o.resolve? a.fragments b = some i →
    ∃ out, (a.fragments.get i).plan.output? = some out ∧ b.name ∈ out.names

variable {o : Optimiser} {root plan result : Plan} {s : Surroundings} {m : Moment} {turn : Turn}
  {a : Cluster} {fs gs : List Fragment} {pass mid next : Pass} {passed rest : List Predicate}
  {opened : List Attribute} {scanned : List String}

def Turn.Aligned (pass : Pass) : Turn → Prop
  | .select passed rest => pass.joins = passed ++ rest
  | _ => True

theorem Works.aligned (h : o.Works root plan turn a) : turn.Aligned a.pass := by
  induction h with
  | select => exact (List.nil_append _).symm
  | passed _ _ ih => exact ih.trans (List.append_cons ..)
  | taken _ _ ha =>
    obtain rfl := pass_of_applySelection ha
    rfl
  | _ => trivial

theorem Works.moves (h : o.Works root plan turn a) : ∃ s pass fs mid,
    o.Reaches root s (.visit plan pass) ∧ o.walk plan pass = .ok (.cluster fs, mid) ∧
      o.Moves ⟨fs, mid⟩ a := by
  induction h with
  | enter h hw => exact ⟨_, _, _, _, h, hw, .refl⟩
  | select _ ih => exact ih
  | passed _ _ ih => exact ih
  | @taken passed rest p fs pass next i grown h _ ha ih =>
    obtain ⟨s, before, start, mid, hr, hw, hm⟩ := ih
    have hmove := (applySelection_set i h.aligned ha).1
    exact ⟨s, before, start, mid, hr, hw, hm.tail hmove⟩
  | @search passed fs pass h ih =>
    -- every equality has been passed or taken, so putting back those passed changes nothing
    have hjoins : pass.joins = passed := h.aligned.trans (List.append_nil _)
    rwa [← hjoins]
  | asked _ _ ih => exact ih
  | joined _ hb hj ih =>
    obtain ⟨s, before, start, mid, hr, hw, hm⟩ := ih
    obtain ⟨hlt, p, hk, hp⟩ := bestFrom_waits hb
    exact ⟨s, before, start, mid, hr, hw, hm.tail (joinFragments_move hk hlt hp hj).1⟩
  | settled _ _ ih => exact ih
  | multiplied _ he ih =>
    obtain ⟨s, before, start, mid, hr, hw, hm⟩ := ih
    exact ⟨s, before, start, mid, hr, hw, hm.tail (.product he)⟩

def Moment.Within (root : Plan) : Moment → Prop
  | .visit plan _ => plan ∈ root.subplans
  | .walk plan _ => plan ∈ root.subplans
  | _ => True

theorem Reaches.within (h : o.Reaches root s m) : m.Within root := by
  induction h with
  | root => exact Plan.mem_subplans_self
  | walk _ ih => exact ih
  | select _ ih => exact Plan.mem_subplans_of_mem_children ih List.mem_cons_self
  | project _ _ ih => exact Plan.mem_subplans_of_mem_children ih List.mem_cons_self
  | left _ ih => exact Plan.mem_subplans_of_mem_children ih List.mem_cons_self
  | right _ _ ih => exact Plan.mem_subplans_of_mem_children ih (List.mem_pair.mpr (.inr rfl))
  | _ => trivial

theorem kind_of_walk_cluster (h : o.walk plan pass = .ok (.cluster fs, mid)) :
    plan.kind = .product := by
  cases walk_rewrites h
  rfl

theorem Sound.partitioned (h : o.Sound opened a) (hf : Faithful a.fragments)
    (hp : (covered a.fragments).Perm scanned) (hn : scanned.Nodup) : o.Partitioned scanned a where
  faithful := hf
  covers := hp
  apart := (List.nodup_flatMap.mp (hp.nodup_iff.mpr hn)).2
  present p hm b hb i hi := by
    obtain ⟨out, hfit⟩ := h.fits (a.fragments.get i) (List.getElem_mem _)
    have hpending : p ∈ a.pass.pending := List.mem_append_right _ hm
    exact ⟨out, hfit.output, h.mem_names hpending hfit hb (declares_of_resolve? hi)⟩

theorem Works.partitioned (hroot : root.Canonical o.catalogue) (h : o.Works root plan turn a) :
    plan ∈ root.subplans ∧ plan.kind = .product ∧ o.Partitioned plan.baseRelations a := by
  obtain ⟨s, pass, fs, mid, hr, hw, hm⟩ := h.moves
  have hplan := hroot.of_mem_subplans hr.within
  have hwalk := walk_rewrites hw
  have hsound := Steps.sound hm.steps (hwalk.sound hplan.orderly hr.accounted)
  have hcovers := (Steps.covered_perm hm.steps).trans hwalk.covered_perm
  exact ⟨hr.within, kind_of_walk_cluster hw,
    hsound.partitioned (Steps.faithful hm.steps hwalk.faithful) hcovers hplan.baseRelations_nodup⟩

theorem Works.select_all (h : o.Works root plan (.select passed rest) ⟨fs, pass⟩)
    (hl : o.applyLocal passed rest fs pass = .ok (gs, mid)) :
    o.Works root plan (.search mid.joins) ⟨gs, mid⟩ := by
  induction rest generalizing passed fs pass with
  | nil =>
    cases hl
    exact .search h
  | cons p rest ih =>
    rw [applyLocal] at hl
    split at hl
    · next hp => exact ih (.passed h hp) hl
    · next i hp =>
      obtain ⟨⟨grown, next⟩, ha, hl⟩ := bind_eq_ok.mp hl
      exact ih (.taken h hp ha) hl

theorem Works.search_all {position : Nat} {best found : Option (Candidate a.fragments)}
    (h : o.Works root plan (.search rest) a)
    (hb : o.bestFrom a.fragments position rest best = .ok found) :
    o.Works root plan (.search []) a := by
  induction rest generalizing position best with
  | nil => exact h
  | cons p rest ih =>
    obtain ⟨next, hc, hb⟩ := bind_eq_ok.mp hb
    exact ih (.asked h hc) hb

theorem Works.round_joined (h : o.Works root plan .round ⟨fs, pass⟩)
    (hr : o.round fs pass = .ok (.joined gs next)) : o.Works root plan .round ⟨gs, next⟩ := by
  obtain ⟨⟨local', mid⟩, hl, hr⟩ := bind_eq_ok.mp hr
  obtain ⟨best, hb, hr⟩ := bind_eq_ok.mp hr
  have hsearch := Works.search_all (h.select.select_all hl) hb
  cases best with
  | none => cases pure_eq_ok.mp hr
  | some c =>
    obtain ⟨⟨joined, last⟩, hj, hr⟩ := bind_eq_ok.mp hr
    cases pure_eq_ok.mp hr
    exact .joined hsearch hb hj

theorem Works.round_settled (h : o.Works root plan .round ⟨fs, pass⟩)
    (hr : o.round fs pass = .ok (.settled gs next)) : o.Works root plan .multiply ⟨gs, next⟩ := by
  obtain ⟨⟨local', mid⟩, hl, hr⟩ := bind_eq_ok.mp hr
  obtain ⟨best, hb, hr⟩ := bind_eq_ok.mp hr
  have hsearch := Works.search_all (h.select.select_all hl) hb
  cases best with
  | none =>
    cases pure_eq_ok.mp hr
    exact .settled hsearch hb
  | some c =>
    obtain ⟨_, -, hr⟩ := bind_eq_ok.mp hr
    cases pure_eq_ok.mp hr

theorem Works.rounds {n : Nat} (h : o.Works root plan .round ⟨fs, pass⟩)
    (hn : pass.joins.length < n) (hr : o.rounds n fs pass = .ok (gs, next)) :
    o.Works root plan .multiply ⟨gs, next⟩ := by
  induction n generalizing fs pass with
  | zero => omega
  | succ n ih =>
    obtain ⟨result, hround, hr⟩ := bind_eq_ok.mp hr
    cases result with
    | settled rest last =>
      cases pure_eq_ok.mp hr
      exact h.round_settled hround
    | joined rest last =>
      have hless := (Optimiser.round_joined hround).2
      exact ih (h.round_joined hround) (by omega) hr

theorem Works.product_all {f : Fragment} {after : List Fragment}
    (h : o.Works root plan .multiply ⟨f :: after, pass⟩)
    (hp : after.foldlM (fun acc g => (Plan.product acc g.plan).estimateRoot) f.plan = .ok result) :
    ∃ covers, o.Works root plan .multiply ⟨[⟨covers, result⟩], pass⟩ := by
  induction after generalizing f with
  | nil =>
    cases pure_eq_ok.mp hp
    exact ⟨f.relations, h⟩
  | cons g after ih =>
    rw [List.foldlM_cons] at hp
    obtain ⟨product, he, hp⟩ := bind_eq_ok.mp hp
    exact ih (.multiplied h he) hp

theorem Works.combine (h : o.Works root plan .round ⟨fs, pass⟩)
    (hc : o.combine fs pass = .ok (result, next)) :
    ∃ covers, o.Works root plan .multiply ⟨[⟨covers, result⟩], next⟩ := by
  obtain ⟨⟨rest, last⟩, hr, hc⟩ := bind_eq_ok.mp hc
  obtain ⟨product, hp, hc⟩ := bind_eq_ok.mp hc
  cases pure_eq_ok.mp hc
  have hmultiply := h.rounds (Nat.lt_succ_self _) hr
  cases rest with
  | nil => cases hp
  | cons f after => exact hmultiply.product_all hp

def Moment.Worked (o : Optimiser) (root : Plan) : Moment → Prop
  | .rounds _ fs pass => ∃ plan, o.Works root plan .round ⟨fs, pass⟩
  | .select passed rest fs pass => ∃ plan, o.Works root plan (.select passed rest) ⟨fs, pass⟩
  | _ => True

theorem Reaches.worked (h : o.Reaches root s m) : m.Worked o root := by
  induction h with
  | rounds h hw => exact ⟨_, .enter h hw⟩
  | round _ ih =>
    obtain ⟨plan, hplan⟩ := ih
    exact ⟨plan, .select hplan⟩
  | selectPassed _ hp ih =>
    obtain ⟨plan, hplan⟩ := ih
    exact ⟨plan, .passed hplan hp⟩
  | selectTaken _ hp ha ih =>
    obtain ⟨plan, hplan⟩ := ih
    exact ⟨plan, .taken hplan hp ha⟩
  | nextRound _ hr ih =>
    obtain ⟨plan, hplan⟩ := ih
    exact ⟨plan, hplan.round_joined hr⟩
  | _ => trivial

/-- For a plan from a front end, the live fragments partition the cluster at every turn of the loops
over a product that the run visits. The turns are those of the run: they take in its moments between
rounds and between selections, and end with the plan that the cluster is combined to. -/
theorem optimise_partitioned (h : root.Built o.catalogue) :
    (∀ plan turn a, o.Works root plan turn a →
      plan ∈ root.subplans ∧ plan.kind = .product ∧ o.Partitioned plan.baseRelations a) ∧
      (∀ s n fs pass, o.Reaches root s (.rounds n fs pass) →
        ∃ plan, o.Works root plan .round ⟨fs, pass⟩) ∧
      (∀ s passed rest fs pass, o.Reaches root s (.select passed rest fs pass) →
        ∃ plan, o.Works root plan (.select passed rest) ⟨fs, pass⟩) ∧
      ∀ s plan pass fs mid result last, o.Reaches root s (.visit plan pass) →
        o.walk plan pass = .ok (.cluster fs, mid) → o.combine fs mid = .ok (result, last) →
          ∃ covers, o.Works root plan .multiply ⟨[⟨covers, result⟩], last⟩ := by
  refine ⟨?_, ?_, ?_, ?_⟩
  · intro plan turn a hw
    exact hw.partitioned h.canonical
  · intro s n fs pass hm
    exact hm.worked
  · intro s passed rest fs pass hm
    exact hm.worked
  · intro s plan pass fs mid result last hm hw hc
    exact Works.combine (.enter hm hw) hc

theorem optimise_partitioned_sample : ∃ plan fs pass,
    Plan.sample.Built (⟨.sample, true⟩ : Optimiser).catalogue ∧
      (⟨.sample, true⟩ : Optimiser).Works .sample plan .round ⟨fs, pass⟩ ∧
      fs.map (·.relations) = [["Employee"], ["Works_On"]] ∧
      pass.joins = [.join (.named "SSN") (.named "ESSN")] ∧
      (((⟨.sample, true⟩ : Optimiser).resolve? fs (.named "SSN")).map Fin.val) = some 1 ∧
      (⟨.sample, true⟩ : Optimiser).Partitioned plan.baseRelations ⟨fs, pass⟩ := by
  have hq : (⟨some ["LNAME"], ["Employee", "Works_On"],
      [.join (.named "SSN") (.named "ESSN"), .value (.named "PNO") "3"]⟩ : Query).plan .sample =
        .ok .sample := rfl
  have hbuilt : Plan.sample.Built (⟨.sample, true⟩ : Optimiser).catalogue := .query hq
  have hvisit : (⟨.sample, true⟩ : Optimiser).Reaches .sample _ _ :=
    .select (.walk (.select (.walk (.project (.walk .root) (by decide)))))
  have hworks := Works.enter hvisit rfl
  obtain ⟨-, -, hpartitioned⟩ := (optimise_partitioned hbuilt).1 _ _ _ hworks
  exact ⟨_, _, _, hbuilt, hworks, rfl, rfl, rfl, hpartitioned⟩

end Optimiser
end QueryPlan
