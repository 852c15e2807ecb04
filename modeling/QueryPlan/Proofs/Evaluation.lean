import QueryPlan.Proofs.Acceptance
import QueryPlan.Proofs.Bags

/-! What plans mean: over a database every plan evaluates to a bag of rows. An estimate of a whole
plan exists only if each operator reads columns that its input has; such plans are orderly when
the relations they scan share no attribute names. -/

namespace QueryPlan
open Outcome

/-- A bag of rows for each registered relation, each row with a value for every attribute. -/
structure Database (V : Type) (c : Catalogue) where
  rows : String → Bag V
  columns : ∀ name s, c.find? name = some s → ∀ row ∈ rows name, ∀ n,
    (row n).isSome ↔ n ∈ s.relation.names

/-- The rows that a plan produces; a projection keeps duplicates. -/
def Plan.eval {V : Type} [DecidableEq V] {c : Catalogue} (literal : String → V)
    (db : Database V c) : Plan → Bag V
  | scan s _ => db.rows s.name
  | select i p _ => (i.eval literal db).filter fun row => p.Holds literal row
  | project i as _ => (i.eval literal db).map (Row.restrict (as.map (·.name)))
  | product l r _ => (l.eval literal db).times (r.eval literal db)
  | join l r p _ =>
    ((l.eval literal db).times (r.eval literal db)).filter fun row => p.Holds literal row

namespace Plan

def columns : Plan → List String
  | scan s _ => s.relation.names
  | select i _ _ => i.columns
  | project _ as _ => as.map (·.name)
  | product l r _ => l.columns ++ r.columns
  | join l r _ _ => l.columns ++ r.columns

/-- Join-free plans over registered relations whose operators read columns of their inputs. -/
def Scoped (c : Catalogue) : Plan → Prop
  | scan s _ => c.find? s.name = some s
  | select i p _ => i.Scoped c ∧ ∀ a ∈ p.attributes, a.name ∈ i.columns
  | project i as _ => as ≠ [] ∧ i.Scoped c ∧ ∀ a ∈ as, a.name ∈ i.columns
  | product l r _ => l.Scoped c ∧ r.Scoped c
  | join .. => False

end Plan

theorem Predicate.Turned.holds_iff {V : Type} {literal : String → V} {row : Row V} {p q : Predicate}
    (h : Turned p q) : p.Holds literal row ↔ q.Holds literal row := by
  cases h with
  | same => exact .rfl
  | exchanged l r =>
    constructor
    · rintro ⟨hs, he⟩
      exact ⟨he ▸ hs, he.symm⟩
    · rintro ⟨hs, he⟩
      exact ⟨he ▸ hs, he.symm⟩

def Catalogue.Separate (c : Catalogue) (relations : List String) : Prop :=
  relations.Pairwise fun r t => ∀ n, c.Declares [r] n → ¬ c.Declares [t] n

namespace Catalogue.Separate
variable {c : Catalogue} {rs ts : List String} {n : String}

theorem append_iff : c.Separate (rs ++ ts) ↔
    c.Separate rs ∧ c.Separate ts ∧ ∀ n, c.Declares rs n → ¬ c.Declares ts n := by
  rw [Separate, List.pairwise_append]
  refine and_congr_right fun _ => and_congr_right fun _ => ⟨?_, ?_⟩
  · rintro h n ⟨r, hr, s, hs⟩ ⟨t, ht, u, hu⟩
    exact h r hr t ht n ⟨r, List.mem_singleton.mpr rfl, s, hs⟩ ⟨t, List.mem_singleton.mpr rfl, u, hu⟩
  · intro h r hr t ht n hrn htn
    exact h n (hrn.mono (List.cons_subset.mpr ⟨hr, List.nil_subset _⟩))
      (htn.mono (List.cons_subset.mpr ⟨ht, List.nil_subset _⟩))

theorem not_declares (h : c.Separate (rs ++ ts)) (hr : c.Declares rs n) : ¬ c.Declares ts n :=
  (append_iff.mp h).2.2 n hr

theorem left (h : c.Separate (rs ++ ts)) : c.Separate rs := (append_iff.mp h).1

theorem right (h : c.Separate (rs ++ ts)) : c.Separate ts := (append_iff.mp h).2.1

theorem perm (h : c.Separate rs) (hp : rs.Perm ts) : c.Separate ts :=
  hp.pairwise h fun hrt n ht hr => hrt n hr ht

end Catalogue.Separate

namespace Plan
variable {c : Catalogue} {p q : Plan} {n : String}

theorem Scoped.exists_estimate (h : p.Scoped c) : ∃ q s, p.estimateTree = (q, none) ∧
    q.output? = some s ∧ ∀ n, n ∈ s.names ↔ n ∈ p.columns := by
  induction p with
  | scan s o => exact ⟨_, s.relation, estimateTree_scan, rfl, fun _ => .rfl⟩
  | select i cond o ih =>
    obtain ⟨j, t, hj, ht, hn⟩ := ih h.1
    obtain ⟨s, hs⟩ := Estimate.select_of_mem fun a ha => (hn _).mpr (h.2 a ha)
    refine ⟨_, s, estimateTree_select.mpr ⟨j, hj, estimateRoot_select.mpr ⟨t, s, ht, hs, rfl⟩⟩,
      rfl, fun n => ?_⟩
    rw [Estimate.names_of_select hs, hn, columns]
  | project i as o ih =>
    obtain ⟨j, t, hj, ht, hn⟩ := ih h.2.1
    obtain ⟨s, hs⟩ := Estimate.project_of_mem fun a ha => (hn _).mpr (h.2.2 a ha)
    exact ⟨_, s, estimateTree_project.mpr ⟨j, hj, estimateRoot_project.mpr ⟨t, s, ht, hs, rfl⟩⟩,
      rfl, fun _ => Estimate.mem_names_of_project hs⟩
  | product l r o ihl ihr =>
    obtain ⟨j, t, hj, ht, hl⟩ := ihl h.1
    obtain ⟨k, u, hk, hu, hr⟩ := ihr h.2
    refine ⟨_, _, estimateTree_product.mpr
      ⟨j, k, hj, hk, estimateRoot_product.mpr ⟨t, u, ht, hu, rfl⟩⟩, rfl, fun n => ?_⟩
    rw [Estimate.names_product, columns, List.mem_append, List.mem_append, hl, hr]
  | join l r cond o => exact h.elim

theorem Scoped.columns_eq (hp : p.Scoped c) (h : p.estimateTree = (q, none)) :
    ∃ s, q.output? = some s ∧ ∀ n, n ∈ s.names ↔ n ∈ p.columns := by
  obtain ⟨q', s, h', hs, hn⟩ := hp.exists_estimate
  obtain rfl : q' = q := congrArg Prod.fst (h'.symm.trans h)
  exact ⟨s, hs, hn⟩

theorem Scoped.mem_names (hp : p.Scoped c) (h : p.estimateTree = (q, none)) :
    n ∈ q.names ↔ n ∈ p.columns := by
  obtain ⟨s, hs, hn⟩ := hp.columns_eq h
  rw [names_eq hs, hn]

theorem Scoped.of_estimateTree (hs : ∀ s ∈ p.scans, c.find? s.name = some s)
    (hl : ∀ i o, .project i [] o ∉ p.subplans) (hj : ∀ i ∈ p.subplans, i.kind ≠ .join)
    (h : p.estimateTree = (q, none)) : p.Scoped c := by
  -- a node is estimated only if its inputs are, so an estimate of the root speaks for all
  induction p generalizing q with
  | scan s o => exact hs s (List.mem_singleton.mpr rfl)
  | select i cond o ih =>
    obtain ⟨j, hi, h⟩ := estimateTree_select.mp h
    have hscoped := ih hs (fun j o hm => hl j o (List.mem_cons_of_mem _ hm))
      (fun j hm => hj j (List.mem_cons_of_mem _ hm)) hi
    obtain ⟨t, s, ht, hsel, -⟩ := estimateRoot_select.mp h
    refine ⟨hscoped, fun a ha => (hscoped.mem_names hi).mp ?_⟩
    rw [names_eq ht]
    exact Estimate.mem_names_of_select hsel a ha
  | project i as o ih =>
    obtain ⟨j, hi, h⟩ := estimateTree_project.mp h
    have hscoped := ih hs (fun j o hm => hl j o (List.mem_cons_of_mem _ hm))
      (fun j hm => hj j (List.mem_cons_of_mem _ hm)) hi
    obtain ⟨t, s, ht, hproj, -⟩ := estimateRoot_project.mp h
    refine ⟨?_, hscoped, fun a ha => (hscoped.mem_names hi).mp ?_⟩
    · rintro rfl
      exact hl i o List.mem_cons_self
    · rw [names_eq ht]
      exact (Estimate.project_eq_ok hproj).2.1 a ha
  | product l r o ihl ihr =>
    have hsub : ∀ {j}, j ∈ l.subplans ∨ j ∈ r.subplans → j ∈ (product l r o).subplans := fun hm =>
      List.mem_cons_of_mem _ (List.mem_append.mpr hm)
    obtain ⟨j, k, hleft, hright, -⟩ := estimateTree_product.mp h
    exact ⟨ihl (fun s hm => hs s (List.mem_append_left _ hm)) (fun j o hm => hl j o (hsub (.inl hm)))
        (fun j hm => hj j (hsub (.inl hm))) hleft,
      ihr (fun s hm => hs s (List.mem_append_right _ hm)) (fun j o hm => hl j o (hsub (.inr hm)))
        (fun j hm => hj j (hsub (.inr hm))) hright⟩
  | join l r cond o => exact absurd rfl (hj _ List.mem_cons_self)

theorem scoped_of_estimateTree (hs : ∀ s ∈ p.scans, c.find? s.name = some s)
    (hl : ∀ i o, .project i [] o ∉ p.subplans) (hj : ∀ i ∈ p.subplans, i.kind ≠ .join)
    (h : p.estimateTree = (q, none)) :
    p.Scoped c ∧ ∃ s, q.output? = some s ∧ ∀ n, n ∈ s.names ↔ n ∈ p.columns := by
  have hscoped := Scoped.of_estimateTree hs hl hj h
  exact ⟨hscoped, hscoped.columns_eq h⟩

theorem separate_of_scans (hs : ∀ s ∈ p.scans, c.find? s.name = some s)
    (hd : p.scans.Pairwise fun s t => ∀ n ∈ s.relation.names, n ∉ t.relation.names) :
    c.Separate p.baseRelations := by
  rw [baseRelations_eq, Catalogue.Separate, List.pairwise_map]
  refine hd.imp_of_mem fun {s t} hsm htm hst n hn hn' => ?_
  rw [Catalogue.declares_singleton (hs s hsm)] at hn
  rw [Catalogue.declares_singleton (hs t htm)] at hn'
  exact hst n hn hn'

namespace Scoped

theorem declares_of_mem_columns (h : p.Scoped c) (hn : n ∈ p.columns) :
    c.Declares p.baseRelations n := by
  induction p with
  | scan s o => exact (Catalogue.declares_singleton h).mpr hn
  | select i cond o ih => exact ih h.1 hn
  | project i as o ih =>
    obtain ⟨a, ha, rfl⟩ := List.mem_map.mp hn
    exact ih h.2.1 (h.2.2 a ha)
  | product l r o ihl ihr =>
    exact Catalogue.declares_append.mpr ((List.mem_append.mp hn).imp (ihl h.1) (ihr h.2))
  | join l r cond o => exact h.elim

theorem declares_of_mem_mentions (h : p.Scoped c) (hn : n ∈ p.mentions) :
    c.Declares p.baseRelations n := by
  induction p with
  | scan s o => simp [mentions] at hn
  | select i cond o ih =>
    rw [mentions, selections, listed, Predicate.reads_cons, List.append_assoc,
      List.mem_append] at hn
    rcases hn with hn | hn
    · obtain ⟨a, ha, rfl⟩ := List.mem_map.mp hn
      exact h.1.declares_of_mem_columns (h.2 a ha)
    · exact ih h.1 hn
  | project i as o ih =>
    rw [mentions, selections, listed, List.map_append, List.mem_append, List.mem_append,
      or_left_comm] at hn
    rcases hn with hn | hn
    · obtain ⟨a, ha, rfl⟩ := List.mem_map.mp hn
      exact h.2.1.declares_of_mem_columns (h.2.2 a ha)
    · exact ih h.2.1 (List.mem_append.mpr hn)
  | product l r o ihl ihr =>
    rw [mentions, selections, listed, Predicate.reads_append, List.map_append] at hn
    refine Catalogue.declares_append.mpr ?_
    simp only [List.mem_append] at hn
    rcases hn with (hn | hn) | (hn | hn)
    · exact .inl (ihl h.1 (List.mem_append_left _ hn))
    · exact .inr (ihr h.2 (List.mem_append_left _ hn))
    · exact .inl (ihl h.1 (List.mem_append_right _ hn))
    · exact .inr (ihr h.2 (List.mem_append_right _ hn))
  | join l r cond o => exact h.elim

theorem not_stray (h : p.Scoped c) (n : String) : ¬ p.Stray c n := by
  induction p with
  | scan s o => exact not_stray_scan
  | select i cond o ih =>
    intro hn
    rcases stray_select.mp hn with ⟨hm, hd⟩ | hn
    · obtain ⟨a, ha, rfl⟩ := List.mem_map.mp hm
      exact hd (h.1.declares_of_mem_columns (h.2 a ha))
    · exact ih h.1 hn
  | project i as o ih =>
    intro hn
    rcases stray_project.mp hn with ⟨hm, hd⟩ | hn
    · obtain ⟨a, ha, rfl⟩ := List.mem_map.mp hm
      exact hd (h.2.1.declares_of_mem_columns (h.2.2 a ha))
    · exact ih h.2.1 hn
  | product l r o ihl ihr => exact fun hn => (stray_of_product hn).elim (ihl h.1) (ihr h.2)
  | join l r cond o => exact h.elim

theorem orderly (h : p.Scoped c) (hs : c.Separate p.baseRelations) : p.Orderly c := by
  induction p with
  | scan s o => exact ⟨s, h⟩
  | select i cond o ih => exact ih h.1 hs
  | project i as o ih => exact ⟨h.1, ih h.2.1 hs⟩
  | product l r o ihl ihr =>
    refine ⟨ihl h.1 hs.left, ihr h.2 hs.right, fun n hn hd => ?_⟩
    exact hs.not_declares hd (h.2.declares_of_mem_mentions hn)
  | join l r cond o => exact h.elim

end Scoped

end Plan

namespace Optimiser
variable {o : Optimiser} {pass pass' : Pass} {input plan : Plan} {opened : List Attribute}

theorem not_declares_of_separate {before after : List Fragment} {f g : Fragment}
    (h : o.catalogue.Separate (covered (before ++ f :: after))) (hg : g ∈ before ++ after)
    {n : String} (hd : o.catalogue.Declares g.relations n) :
    ¬ o.catalogue.Declares f.relations n := by
  -- a fragment before it or behind it covers relations on the other side of an append
  rw [covered, List.flatMap_append, List.flatMap_cons] at h
  intro hf
  rcases List.mem_append.mp hg with hg | hg
  · have hcover : g.relations ⊆ covered before := fun r hr => List.mem_flatMap.mpr ⟨g, hg, hr⟩
    exact h.not_declares (hd.mono hcover) (Catalogue.declares_append.mpr (.inl hf))
  · have hcover : g.relations ⊆ covered after := fun r hr => List.mem_flatMap.mpr ⟨g, hg, hr⟩
    exact h.right.not_declares hf (hd.mono hcover)

/-- Once a scoped subtree is one plan, all its own predicates have a place. -/
theorem Rewrites.reads_kept (h : o.Rewrites input pass (.whole plan) pass')
    (hi : input.Scoped o.catalogue) (ho : input.Orderly o.catalogue) (ha : pass.Accounted opened)
    {n : String} (hn : n ∈ Predicate.reads pass'.pending) :
    n ∈ Predicate.reads pass.pending := by
  obtain ⟨q, hq, a, haq, rfl⟩ := Predicate.mem_reads.mp hn
  obtain ⟨p, hp, ht⟩ := Multiset.exists_mem_of_rel_of_mem (Multiset.rel_flip.mpr h.matches)
    (Multiset.mem_coe.mpr (List.mem_append_right _ hq))
  rcases List.mem_append.mp (Multiset.mem_coe.mp hp) with hp | hp
  -- a selection of the subtree reads columns only, so it cannot be left over
  · obtain ⟨b, hb, hd⟩ := h.exists_undeclared ho ha hq
    refine absurd (hi.declares_of_mem_mentions (List.mem_append_left _ ?_)) hd
    exact Predicate.mem_reads.mpr ⟨p, hp, b, Predicate.Turned.mem_attributes ht |>.mpr hb, rfl⟩
  · exact Predicate.mem_reads.mpr ⟨p, hp, a, Predicate.Turned.mem_attributes ht |>.mpr haq, rfl⟩

end Optimiser

namespace Plan
variable {c : Catalogue} {p q : Plan} {n : String}

section Rows
variable {V : Type} [DecidableEq V] {literal : String → V} {db : Database V c}

theorem eval_withOutput (p : Plan) (r : Relation) :
    (p.withOutput r).eval literal db = p.eval literal db := by
  cases p <;> rfl

theorem eval_of_estimateRoot (h : p.estimateRoot = .ok q) :
    q.eval literal db = p.eval literal db := by
  obtain ⟨r, -, rfl⟩ := estimateRoot_eq_ok.mp h
  exact p.eval_withOutput r

theorem eval_scan {s : NamedRelation} {o : Option Relation} (hs : c.find? s.name = some s) :
    ∀ row ∈ (scan s o).eval literal db, ∀ n ∉ s.relation.names, row n = none := by
  intro row hr n hn
  rw [← db.columns s.name s hs row hr n] at hn
  simpa using hn

end Rows
end Plan
end QueryPlan
