import QueryPlan.Proofs.Accounts
import QueryPlan.Proofs.Schema

/-! The optimiser as a rewriting system. A cluster in hand changes by five kinds of steps, and a
visited subtree goes through the rules of `Rewrites`. Whatever the search does is a derivation, so
a fact that each rule keeps holds of every result. -/

namespace QueryPlan
open Outcome

structure Cluster where
  fragments : List Fragment
  pass : Pass

namespace Optimiser

/-- One change to a cluster. A waiting predicate is applied to a fragment or joins two, the earlier
one becoming the left operand; a fragment is narrowed to what is required; or the first two
fragments are multiplied. -/
inductive Step (o : Optimiser) : Cluster → Cluster → Prop
  | value {pass : Pass} {xs ys : List Predicate} {p : Predicate} {before after : List Fragment}
      {f : Fragment} {plan : Plan} (hp : pass.values = xs ++ p :: ys)
      (he : (Plan.select f.plan p).estimateRoot = .ok plan) :
      Step o ⟨before ++ f :: after, pass⟩
        ⟨before ++ ⟨f.relations, plan⟩ :: after,
          { pass.release [p.left] with values := xs ++ ys }⟩
  | equality {pass : Pass} {xs ys : List Predicate} {p : Predicate} {before after : List Fragment}
      {f : Fragment} {plan : Plan} (hp : pass.joins = xs ++ p :: ys)
      (he : (Plan.select f.plan p).estimateRoot = .ok plan) :
      Step o ⟨before ++ f :: after, pass⟩
        ⟨before ++ ⟨f.relations, plan⟩ :: after,
          { pass.release p.attributes with joins := xs ++ ys }⟩
  | narrow {pass : Pass} {before after : List Fragment} {f : Fragment} {plan : Plan}
      {schema : Relation} {keep : List Attribute}
      (hn : (o.earlyProjection && pass.narrowing) = true) (hs : f.plan.output? = some schema)
      (hk : keep = schema.attributes.filter fun a => pass.required.contains a.name)
      (hl : keep.length ≠ schema.arity) (he : (Plan.project f.plan keep).estimateRoot = .ok plan) :
      Step o ⟨before ++ f :: after, pass⟩ ⟨before ++ ⟨f.relations, plan⟩ :: after, pass⟩
  | join {pass : Pass} {xs ys : List Predicate} {p q : Predicate}
      {before between after : List Fragment} {f g : Fragment} {plan : Plan}
      (hp : pass.joins = xs ++ p :: ys) (hq : q = p ∨ q = p.swapped)
      (he : (Plan.join f.plan g.plan q).estimateRoot = .ok plan) :
      Step o ⟨before ++ f :: (between ++ g :: after), pass⟩
        ⟨before ++ ⟨f.relations ++ g.relations, plan⟩ :: (between ++ after),
          { pass.release q.attributes with joins := xs ++ ys }⟩
  | product {pass : Pass} {after : List Fragment} {f g : Fragment} {plan : Plan}
      (he : (Plan.product f.plan g.plan).estimateRoot = .ok plan) :
      Step o ⟨f :: g :: after, pass⟩ ⟨⟨f.relations ++ g.relations, plan⟩ :: after, pass⟩

abbrev Steps (o : Optimiser) : Cluster → Cluster → Prop := Relation.ReflTransGen o.Step

def Drained (o : Optimiser) (relations : List String) (pass : Pass) : Prop :=
  ∀ l r, .join l r ∈ pass.joins →
    ¬ (o.catalogue.Declares relations l.name ∧ o.catalogue.Declares relations r.name)

/-- How a visited subtree comes about. A scan takes the predicates that it can; a cluster is worked
down to one plan when something above asks for it; a projection keeps what is listed and what is
still required. -/
inductive Rewrites (o : Optimiser) : Plan → Pass → Visited → Pass → Prop
  | scan {s r : NamedRelation} {out : Option Relation} {pass pass' : Pass} {base plan : Plan}
      (hr : o.catalogue.find? s.name = some r) (he : (Plan.scan r).estimateRoot = .ok base)
      (hs : o.Steps ⟨[.ofPlan base], pass⟩ ⟨[.ofPlan plan], pass'⟩)
      (hv : ∀ p ∈ pass'.values, p.left.name ∉ r.relation.names)
      (hj : o.Drained [s.name] pass') :
      Rewrites o (.scan s out) pass (.whole plan) pass'
  | select {input plan : Plan} {p : Predicate} {out : Option Relation} {pass pass' : Pass}
      (hi : Rewrites o input (pass.defer p) (.whole plan) pass') :
      Rewrites o (.select input p out) pass (.whole plan) pass'
  | project {input inner plan : Plan} {listed keep : List Attribute} {out : Option Relation}
      {pass below : Pass} {schema : Relation} (hl : listed ≠ [])
      (hi : Rewrites o input { pass.acquire listed with narrowing := true } (.whole inner) below)
      (hs : inner.output? = some schema)
      (hk : kept { below with narrowing := pass.narrowing } schema listed = .ok keep)
      (he : keep.length < schema.arity ∧ (Plan.project inner keep).estimateRoot = .ok plan ∨
        schema.arity ≤ keep.length ∧ plan = inner) :
      Rewrites o (.project input listed out) pass (.whole plan)
        (({ below with narrowing := pass.narrowing } : Pass).release listed)
  | product {left right : Plan} {out : Option Relation} {pass mid pass' : Pass} {v w : Visited}
      (hl : Rewrites o left pass v mid) (hr : Rewrites o right mid w pass') :
      Rewrites o (.product left right out) pass (.cluster (v.fragments ++ w.fragments)) pass'
  | settle {input plan : Plan} {pass mid pass' : Pass} {fragments : List Fragment}
      (hi : Rewrites o input pass (.cluster fragments) mid)
      (hs : o.Steps ⟨fragments, mid⟩ ⟨[.ofPlan plan], pass'⟩)
      (hj : o.Drained plan.baseRelations pass') :
      Rewrites o input pass (.whole plan) pass'

variable {o : Optimiser} {pass pass' : Pass} {plan plan' : Plan} {fs gs : List Fragment}

theorem Steps.invariant {P : Cluster → Prop} (hP : ∀ a b, o.Step a b → P a → P b) {a b : Cluster}
    (h : o.Steps a b) (ha : P a) : P b := by
  induction h with
  | refl => exact ha
  | tail _ hs ih => exact hP _ _ hs ih

theorem baseRelations_of_estimateRoot {p q : Plan} (h : p.estimateRoot = .ok q) :
    q.baseRelations = p.baseRelations := by
  obtain ⟨r, -, rfl⟩ := Plan.estimateRoot_eq_ok.mp h
  exact p.baseRelations_withOutput r

/-- A property of fragments that stays when a node is put on top of them. -/
structure Inherited (P : Fragment → Prop) : Prop where
  select : ∀ {f : Fragment} {p : Predicate} {plan : Plan}, P f →
    (Plan.select f.plan p).estimateRoot = .ok plan → P ⟨f.relations, plan⟩
  project : ∀ {f : Fragment} {keep : List Attribute} {plan : Plan}, P f →
    (Plan.project f.plan keep).estimateRoot = .ok plan → P ⟨f.relations, plan⟩
  join : ∀ {f g : Fragment} {p : Predicate} {plan : Plan}, P f → P g →
    (Plan.join f.plan g.plan p).estimateRoot = .ok plan → P ⟨f.relations ++ g.relations, plan⟩
  product : ∀ {f g : Fragment} {plan : Plan}, P f → P g →
    (Plan.product f.plan g.plan).estimateRoot = .ok plan → P ⟨f.relations ++ g.relations, plan⟩

namespace Inherited
variable {P : Fragment → Prop} (hP : Inherited P)
include hP

theorem step {a b : Cluster} (h : o.Step a b) (ha : ∀ f ∈ a.fragments, P f) :
    ∀ f ∈ b.fragments, P f := by
  cases h with
  | value _ he =>
    simp only [List.forall_mem_append, List.forall_mem_cons] at ha ⊢
    exact ⟨ha.1, hP.select ha.2.1 he, ha.2.2⟩
  | equality _ he =>
    simp only [List.forall_mem_append, List.forall_mem_cons] at ha ⊢
    exact ⟨ha.1, hP.select ha.2.1 he, ha.2.2⟩
  | narrow _ _ _ _ he =>
    simp only [List.forall_mem_append, List.forall_mem_cons] at ha ⊢
    exact ⟨ha.1, hP.project ha.2.1 he, ha.2.2⟩
  | join _ _ he =>
    simp only [List.forall_mem_append, List.forall_mem_cons] at ha ⊢
    obtain ⟨hbefore, hf, hbetween, hg, hafter⟩ := ha
    exact ⟨hbefore, hP.join hf hg he, hbetween, hafter⟩
  | product he =>
    simp only [List.forall_mem_cons] at ha ⊢
    obtain ⟨hf, hg, hafter⟩ := ha
    exact ⟨hP.product hf hg he, hafter⟩

theorem steps {a b : Cluster} (h : o.Steps a b) (ha : ∀ f ∈ a.fragments, P f) :
    ∀ f ∈ b.fragments, P f :=
  Steps.invariant (fun _ _ hs hf => hP.step hs hf) h ha

theorem rewrites {input : Plan} {v : Visited}
    (hscan : ∀ {r : NamedRelation} {base : Plan}, o.catalogue.find? r.name = some r →
      (Plan.scan r).estimateRoot = .ok base → P (.ofPlan base))
    (h : o.Rewrites input pass v pass') : ∀ f ∈ v.fragments, P f := by
  induction h with
  | @scan s r _ _ _ _ _ hr he hs =>
    have hname := Catalogue.name_of_find? hr
    exact hP.steps hs (List.forall_mem_singleton.mpr (hscan (hname ▸ hr) he))
  | select _ ih => exact ih
  | @project input inner plan _ _ _ _ _ _ _ _ _ _ he ih =>
    rcases he with ⟨-, he⟩ | ⟨-, rfl⟩
    · have hplan := hP.project (ih (.ofPlan inner) (List.mem_singleton.mpr rfl)) he
      refine List.forall_mem_singleton.mpr ?_
      rw [Fragment.ofPlan, baseRelations_of_estimateRoot he]
      exact hplan
    · exact ih
  | product _ _ ihl ihr => exact List.forall_mem_append.mpr ⟨ihl, ihr⟩
  | settle _ hs _ ih => exact hP.steps hs ih

end Inherited

theorem sublist_of_split {l xs ys : List Predicate} {p : Predicate} (h : l = xs ++ p :: ys) :
    (xs ++ ys).Sublist l := by
  rw [h]
  exact (List.sublist_cons_self p ys).append_left xs

theorem Step.joins_sublist {a b : Cluster} (h : o.Step a b) :
    b.pass.joins.Sublist a.pass.joins := by
  cases h with
  | equality hp => exact sublist_of_split hp
  | join hp => exact sublist_of_split hp
  | _ => exact .refl _

theorem Steps.joins_sublist {a b : Cluster} (h : o.Steps a b) :
    b.pass.joins.Sublist a.pass.joins := by
  induction h with
  | refl => exact .refl _
  | tail _ hs ih => exact hs.joins_sublist.trans ih

def Faithful (fs : List Fragment) : Prop := ∀ f ∈ fs, f.relations = f.plan.baseRelations

theorem faithful_inherited : Inherited fun f => f.relations = f.plan.baseRelations where
  select hf he := hf.trans (baseRelations_of_estimateRoot he).symm
  project hf he := hf.trans (baseRelations_of_estimateRoot he).symm
  join hf hg he := by
    rw [baseRelations_of_estimateRoot he, hf, hg]
    rfl
  product hf hg he := by
    rw [baseRelations_of_estimateRoot he, hf, hg]
    rfl

theorem Steps.faithful {a b : Cluster} (h : o.Steps a b) (ha : Faithful a.fragments) :
    Faithful b.fragments := faithful_inherited.steps h ha

theorem faithful_ofPlan (plan : Plan) : Faithful [.ofPlan plan] := fun f hf => by
  rw [List.mem_singleton.mp hf]
  rfl

theorem Rewrites.faithful {v : Visited} (h : o.Rewrites plan pass v pass') :
    Faithful v.fragments := faithful_inherited.rewrites (fun _ _ => rfl) h

theorem eq_ofPlan_of_faithful {relations : List String} (h : Faithful [⟨relations, plan⟩]) :
    (⟨relations, plan⟩ : Fragment) = .ofPlan plan := by
  rw [Fragment.ofPlan, ← h _ (List.mem_singleton.mpr rfl)]

def covered (fs : List Fragment) : List String := fs.flatMap (·.relations)

theorem flatMap_joined_perm {α : Type} (φ : Fragment → List α) {f g joined : Fragment}
    (h : φ joined = φ f ++ φ g) (before between after : List Fragment) :
    ((before ++ joined :: (between ++ after)).flatMap φ).Perm
      ((before ++ f :: (between ++ g :: after)).flatMap φ) := by
  simp only [List.flatMap_append, List.flatMap_cons, h, List.append_assoc]
  refine List.Perm.append_left _ (List.Perm.append_left _ ?_)
  rw [← List.append_assoc, ← List.append_assoc]
  exact List.perm_append_comm.append_right _

theorem Step.covered_perm {a b : Cluster} (h : o.Step a b) :
    (covered b.fragments).Perm (covered a.fragments) := by
  cases h with
  | join => exact flatMap_joined_perm _ rfl _ _ _
  | product => simp only [covered, List.flatMap_cons, List.append_assoc, List.Perm.refl]
  | _ => simp only [covered, List.flatMap_append, List.flatMap_cons, List.Perm.refl]

theorem Steps.covered_perm {a b : Cluster} (h : o.Steps a b) :
    (covered b.fragments).Perm (covered a.fragments) := by
  induction h with
  | refl => exact .refl _
  | tail _ hs ih => exact hs.covered_perm.trans ih

theorem covered_ofPlan (plan : Plan) : covered [.ofPlan plan] = plan.baseRelations := by
  simp [covered, Fragment.ofPlan]

end Optimiser
end QueryPlan
