import QueryPlan.Estimate
import QueryPlan.Proofs.Nodes
import QueryPlan.Proofs.Outcome

/-! Schemas of estimates, seen through names: an estimate reads its inputs only by looking names
up, so it is known by its tuple count, its names and the value count found under each name. -/

namespace QueryPlan
open Outcome

namespace Relation
variable {r s : Relation} {a b : Attribute} {n : String}

def count? (r : Relation) (name : String) : Option Count := (r.attribute? name).map (·.valueCount)

theorem attribute?_eq_some :
    r.attribute? n = some a ↔ r.count? n = some a.valueCount ∧ a.name = n := by
  have hn : ∀ {b}, r.attribute? n = some b → b.name = n := fun h => by
    simpa using List.find?_some h
  constructor
  · intro h
    exact ⟨by rw [count?, h, Option.map_some], hn h⟩
  · rintro ⟨hc, ha⟩
    obtain ⟨b, hb, hv⟩ := Option.map_eq_some_iff.mp hc
    have : b = a := by
      obtain ⟨bn, bv⟩ := b
      cases a
      simp_all
    exact this ▸ hb

theorem attribute?_eq (r : Relation) (n : String) : r.attribute? n = (r.count? n).map (⟨n, ·⟩) := by
  cases h : r.count? n with
  | none => simpa [count?] using h
  | some v => exact attribute?_eq_some.mpr ⟨h, rfl⟩

theorem mem_names_iff : n ∈ r.names ↔ ∃ v, r.count? n = some v := by
  rw [← contains_eq_true, contains, Option.isSome_iff_exists, attribute?_eq]
  cases r.count? n <;> simp

theorem count?_eq_none_iff : r.count? n = none ↔ n ∉ r.names := by
  rw [mem_names_iff, Option.eq_none_iff_forall_ne_some, not_exists]

theorem resolve_eq (r : Relation) (a : Attribute) : r.resolve a =
    match r.count? a.name with
    | some v => .ok ⟨a.name, v⟩
    | none => .error (.unresolvedAttribute a.name) := by
  rw [resolve, attribute?_eq]
  cases r.count? a.name <;> rfl

theorem resolve_congr (h : r.count? a.name = s.count? a.name) : r.resolve a = s.resolve a := by
  rw [resolve_eq, resolve_eq, h]

theorem resolve_eq_ok : r.resolve a = .ok b ↔ r.count? a.name = some b.valueCount ∧ b.name = a.name := by
  rw [resolve_eq]
  obtain ⟨bn, bv⟩ := b
  cases r.count? a.name <;> simp [eq_comm, and_comm]

theorem resolve_of_mem (h : a.name ∈ r.names) : ∃ v, r.count? a.name = some v ∧
    r.resolve a = .ok ⟨a.name, v⟩ := by
  obtain ⟨v, hv⟩ := mem_names_iff.mp h
  exact ⟨v, hv, resolve_eq_ok.mpr ⟨hv, rfl⟩⟩

theorem resolve_of_not_mem (h : a.name ∉ r.names) :
    r.resolve a = .error (.unresolvedAttribute a.name) := by
  rw [resolve_eq, count?_eq_none_iff.mpr h]

theorem mem_names_of_resolve (h : r.resolve a = .ok b) : a.name ∈ r.names :=
  mem_names_iff.mpr ⟨_, (resolve_eq_ok.mp h).1⟩

theorem mem_names_filter {keep : String → Bool} :
    n ∈ (r.attributes.filter fun a => keep a.name).map (·.name) ↔ n ∈ r.names ∧ keep n = true := by
  simp only [names, List.mem_map, List.mem_filter]
  constructor
  · rintro ⟨a, ⟨ha, hk⟩, rfl⟩
    exact ⟨⟨a, ha, rfl⟩, hk⟩
  · rintro ⟨⟨a, ha, rfl⟩, hk⟩
    exact ⟨a, ⟨ha, hk⟩, rfl⟩

theorem names_recount (r : Relation) (p : Attribute → Bool) (k : Count) :
    (r.recount p k).map (·.name) = r.names := by
  rw [recount, List.map_map]
  refine List.map_congr_left fun a _ => ?_
  dsimp only [Function.comp_apply]
  split <;> rfl

theorem count?_recount (r : Relation) (p : Attribute → Bool) (k t : Count) (n : String) :
    (⟨t, r.recount p k⟩ : Relation).count? n =
      (r.count? n).map fun v => if p ⟨n, v⟩ then k else v := by
  have hf : ((·.name == n) ∘ fun a : Attribute => if p a then { a with valueCount := k } else a) =
      (·.name == n) := by
    funext a
    dsimp only [Function.comp_apply]
    split <;> rfl
  have ha : (⟨t, r.recount p k⟩ : Relation).attribute? n =
      (r.attribute? n).map fun a => if p a then { a with valueCount := k } else a := by
    rw [attribute?, recount, List.find?_map, hf]
    rfl
  rw [count?, ha, attribute?_eq]
  cases r.count? n with
  | none => rfl
  | some v =>
    simp only [Option.map_some]
    split <;> rfl

theorem count?_append (l r : Relation) (t : Count) (n : String) :
    (⟨t, l.attributes ++ r.attributes⟩ : Relation).count? n = (l.count? n).or (r.count? n) := by
  simp only [count?, attribute?, List.find?_append, Option.map_or]

theorem count?_insert (r : Relation) (b : Attribute) (n : String) :
    (r.insert b).count? n = (r.count? n).or (if n = b.name then some b.valueCount else none) := by
  by_cases hb : r.contains b.name
  · have hi : r.insert b = r := by simp [insert, insert?, hb]
    obtain ⟨v, hv⟩ := mem_names_iff.mp (contains_eq_true.mp hb)
    rw [hi]
    split
    · next hn => rw [hn, hv, Option.some_or]
    · rw [Option.or_none]
  · have hi : r.insert b = ⟨r.tupleCount, r.attributes ++ [b]⟩ := by simp [insert, insert?, hb]
    rw [hi, count?_append r ⟨0, [b]⟩]
    by_cases hn : n = b.name
    · simp [hn, count?, attribute?]
    · simp [hn, Ne.symm hn, count?, attribute?]

theorem names_insert_nodup {r : Relation} (h : r.names.Nodup) (b : Attribute) :
    (r.insert b).names.Nodup := by
  by_cases hb : r.contains b.name
  · have hi : r.insert b = r := by simp [insert, insert?, hb]
    rwa [hi]
  · have hi : r.insert b = ⟨r.tupleCount, r.attributes ++ [b]⟩ := by simp [insert, insert?, hb]
    have hn : b.name ∉ r.names := fun hm => hb (contains_eq_true.mpr hm)
    rw [hi, names, List.map_append, List.nodup_append]
    refine ⟨h, List.nodup_singleton _, fun m hm k hk hmk => hn ?_⟩
    obtain rfl : k = b.name := List.mem_singleton.mp hk
    exact hmk ▸ hm

theorem tupleCount_insert (r : Relation) (b : Attribute) : (r.insert b).tupleCount = r.tupleCount := by
  unfold insert insert?
  split <;> rfl

end Relation

namespace Estimate
variable {r s l : Relation} {p : Predicate} {as : List Attribute}

theorem names_of_select (h : select r p = .ok s) : s.names = r.names := by
  cases p with
  | value a v =>
    obtain ⟨x, -, h⟩ := bind_eq_ok.mp h
    cases pure_eq_ok.mp h
    exact r.names_recount _ _
  | join a b =>
    obtain ⟨x, -, h⟩ := bind_eq_ok.mp h
    obtain ⟨y, -, h⟩ := bind_eq_ok.mp h
    cases pure_eq_ok.mp h
    exact r.names_recount _ _

theorem mem_names_of_select (h : select r p = .ok s) : ∀ a ∈ p.attributes, a.name ∈ r.names := by
  cases p with
  | value a v =>
    obtain ⟨x, hx, -⟩ := bind_eq_ok.mp h
    simpa [Predicate.attributes] using Relation.mem_names_of_resolve hx
  | join a b =>
    obtain ⟨x, hx, h⟩ := bind_eq_ok.mp h
    obtain ⟨y, hy, -⟩ := bind_eq_ok.mp h
    simpa [Predicate.attributes] using
      ⟨Relation.mem_names_of_resolve hx, Relation.mem_names_of_resolve hy⟩

theorem select_of_mem (h : ∀ a ∈ p.attributes, a.name ∈ r.names) : ∃ s, select r p = .ok s := by
  cases p with
  | value a v =>
    obtain ⟨x, -, hx⟩ := Relation.resolve_of_mem (h a (by simp [Predicate.attributes]))
    exact ⟨_, bind_eq_ok.mpr ⟨_, hx, rfl⟩⟩
  | join a b =>
    obtain ⟨x, -, hx⟩ := Relation.resolve_of_mem (h a (by simp [Predicate.attributes]))
    obtain ⟨y, -, hy⟩ := Relation.resolve_of_mem (h b (by simp [Predicate.attributes]))
    exact ⟨_, bind_eq_ok.mpr ⟨_, hx, bind_eq_ok.mpr ⟨_, hy, rfl⟩⟩⟩

theorem names_product (l r : Relation) : (product l r).names = l.names ++ r.names :=
  List.map_append

theorem join_eq_ok (h : join l r p = .ok s) : s.names = l.names ++ r.names ∧
    ∃ a b, p = .join a b ∧ a.name ∈ l.names ∧ b.name ∈ r.names := by
  cases p with
  | value a v => cases h
  | join a b =>
    rw [join] at h
    cases ha : l.attribute? a.name with
    | none => simp [ha] at h
    | some x =>
      cases hb : r.attribute? b.name with
      | none => simp [ha, hb] at h
      | some y =>
        simp only [ha, hb, Except.ok.injEq] at h
        refine ⟨?_, a, b, rfl, ?_, ?_⟩
        · rw [← h, Relation.names, List.map_append, Relation.names_recount,
            Relation.names_recount]
        · exact Relation.contains_eq_true.mp (by rw [Relation.contains, ha]; rfl)
        · exact Relation.contains_eq_true.mp (by rw [Relation.contains, hb]; rfl)

theorem join_of_mem {a b : Attribute} (ha : a.name ∈ l.names) (hb : b.name ∈ r.names) :
    ∃ s, join l r (.join a b) = .ok s := by
  obtain ⟨x, hx⟩ := Relation.mem_names_iff.mp ha
  obtain ⟨y, hy⟩ := Relation.mem_names_iff.mp hb
  simp only [join, Relation.attribute?_eq, hx, hy, Option.map_some]
  exact ⟨_, rfl⟩

/-- What a projection's estimate has found after some of the listed attributes. -/
theorem project_loop {out : Relation} (h : as.foldlM
      (fun out a => do return out.insert (← r.resolve a)) out = .ok s) :
    s.tupleCount = out.tupleCount ∧ (∀ a ∈ as, a.name ∈ r.names) ∧
      (∀ n, s.count? n = (out.count? n).or (if n ∈ as.map (·.name) then r.count? n else none)) ∧
      (out.names.Nodup → s.names.Nodup) := by
  induction as generalizing out with
  | nil =>
    cases pure_eq_ok.mp h
    simp
  | cons a as ih =>
    rw [List.foldlM_cons] at h
    obtain ⟨next, hn, h⟩ := bind_eq_ok.mp h
    obtain ⟨b, hb, hn⟩ := bind_eq_ok.mp hn
    cases pure_eq_ok.mp hn
    obtain ⟨ht, hm, hc, hd⟩ := ih h
    obtain ⟨hv, hbn⟩ := Relation.resolve_eq_ok.mp hb
    refine ⟨ht.trans (out.tupleCount_insert b),
      List.forall_mem_cons.mpr ⟨Relation.mem_names_of_resolve hb, hm⟩, fun n => ?_,
      fun hout => hd (Relation.names_insert_nodup hout b)⟩
    rw [hc n, Relation.count?_insert, Option.or_assoc, hbn, List.map_cons]
    by_cases hna : n = a.name
    · simp [hna, hv]
    · simp [hna]

theorem project_eq_ok (h : project r as = .ok s) : s.tupleCount = r.tupleCount ∧
    (∀ a ∈ as, a.name ∈ r.names) ∧
      ∀ n, s.count? n = if n ∈ as.map (·.name) then r.count? n else none := by
  obtain ⟨ht, hm, hc, -⟩ := project_loop h
  exact ⟨ht, hm, hc⟩

theorem mem_names_of_project (h : project r as = .ok s) {n : String} :
    n ∈ s.names ↔ n ∈ as.map (·.name) := by
  obtain ⟨-, hm, hc⟩ := project_eq_ok h
  rw [Relation.mem_names_iff, hc]
  constructor
  · rintro ⟨v, hv⟩
    by_contra hn
    simp [hn] at hv
  · intro hn
    obtain ⟨a, ha, rfl⟩ := List.mem_map.mp hn
    simpa [hn] using Relation.mem_names_iff.mp (hm a ha)

theorem names_nodup_of_project (h : project r as = .ok s) : s.names.Nodup :=
  (project_loop h).2.2.2 List.nodup_nil

theorem project_loop_of_mem (h : ∀ a ∈ as, a.name ∈ r.names) (out : Relation) : ∃ s,
    as.foldlM (fun out a => do return out.insert (← r.resolve a)) out = Except.ok s := by
  induction as generalizing out with
  | nil => exact ⟨out, rfl⟩
  | cons a as ih =>
    rw [List.forall_mem_cons] at h
    obtain ⟨v, -, hv⟩ := Relation.resolve_of_mem h.1
    obtain ⟨s, hs⟩ := ih h.2 (out.insert ⟨a.name, v⟩)
    exact ⟨s, by rw [List.foldlM_cons, hv]; exact hs⟩

theorem project_of_mem (h : ∀ a ∈ as, a.name ∈ r.names) : ∃ s, project r as = .ok s :=
  project_loop_of_mem h _

end Estimate

namespace Plan
variable {p q i l r : Plan} {out rel : Option Relation} {s : Relation}

theorem output_eq_ok : p.output = .ok s ↔ p.output? = some s := by
  unfold output
  cases p.output? <;> simp

theorem outputFor_select {c : Predicate} (h : i.output? = some s) :
    (select i c out).outputFor = Estimate.select s c := by
  rw [outputFor, output_eq_ok.mpr h, ok_bind]

theorem outputFor_product {t : Relation} (hl : l.output? = some s) (hr : r.output? = some t) :
    (product l r out).outputFor = .ok (Estimate.product s t) := by
  rw [outputFor, output_eq_ok.mpr hl, ok_bind, output_eq_ok.mpr hr, ok_bind]
  rfl

theorem outputFor_join {c : Predicate} {t : Relation} (hl : l.output? = some s)
    (hr : r.output? = some t) : (join l r c out).outputFor = Estimate.join s t c := by
  rw [outputFor, output_eq_ok.mpr hl, ok_bind, output_eq_ok.mpr hr, ok_bind]

theorem estimateRoot_eq_ok :
    p.estimateRoot = .ok q ↔ ∃ s, p.outputFor = .ok s ∧ p.withOutput s = q := by
  unfold estimateRoot
  rw [bind_eq_ok]
  simp only [pure_eq_ok]

theorem estimateRoot_scan {t : NamedRelation} :
    (scan t out).estimateRoot = .ok (scan t (some t.relation)) := rfl

theorem estimateRoot_select {c : Predicate} : (select i c out).estimateRoot = .ok q ↔
    ∃ t s, i.output? = some t ∧ Estimate.select t c = .ok s ∧ select i c (some s) = q := by
  simp only [estimateRoot_eq_ok, outputFor, bind_eq_ok, output_eq_ok, withOutput]
  constructor
  · rintro ⟨s, ⟨t, ht, hs⟩, h⟩
    exact ⟨t, s, ht, hs, h⟩
  · rintro ⟨t, s, ht, hs, h⟩
    exact ⟨s, ⟨t, ht, hs⟩, h⟩

theorem estimateRoot_project {as : List Attribute} : (project i as out).estimateRoot = .ok q ↔
    ∃ t s, i.output? = some t ∧ Estimate.project t as = .ok s ∧ project i as (some s) = q := by
  simp only [estimateRoot_eq_ok, outputFor, bind_eq_ok, output_eq_ok, withOutput]
  constructor
  · rintro ⟨s, ⟨t, ht, hs⟩, h⟩
    exact ⟨t, s, ht, hs, h⟩
  · rintro ⟨t, s, ht, hs, h⟩
    exact ⟨s, ⟨t, ht, hs⟩, h⟩

theorem estimateRoot_product : (product l r out).estimateRoot = .ok q ↔
    ∃ t u, l.output? = some t ∧ r.output? = some u ∧
      product l r (some (Estimate.product t u)) = q := by
  simp only [estimateRoot_eq_ok, outputFor, bind_eq_ok, output_eq_ok, withOutput, pure_eq_ok]
  constructor
  · rintro ⟨s, ⟨t, ht, u, hu, rfl⟩, h⟩
    exact ⟨t, u, ht, hu, h⟩
  · rintro ⟨t, u, ht, hu, h⟩
    exact ⟨_, ⟨t, ht, u, hu, rfl⟩, h⟩

theorem estimateRoot_join {c : Predicate} : (join l r c out).estimateRoot = .ok q ↔
    ∃ t u s, l.output? = some t ∧ r.output? = some u ∧ Estimate.join t u c = .ok s ∧
      join l r c (some s) = q := by
  simp only [estimateRoot_eq_ok, outputFor, bind_eq_ok, output_eq_ok, withOutput]
  constructor
  · rintro ⟨s, ⟨t, ht, u, hu, hs⟩, h⟩
    exact ⟨t, u, s, ht, hu, hs, h⟩
  · rintro ⟨t, u, s, ht, hu, hs, h⟩
    exact ⟨s, ⟨t, ht, u, hu, hs⟩, h⟩

def names (p : Plan) : List String := (p.output?.map Relation.names).getD []

theorem names_eq (h : p.output? = some s) : p.names = s.names := by rw [names, h]; rfl

theorem names_of_select {c : Predicate} (h : (select p c out).estimateRoot = .ok q) :
    q.names = p.names := by
  obtain ⟨t, s, ht, hs, rfl⟩ := estimateRoot_select.mp h
  rw [names_eq ht]
  exact Estimate.names_of_select hs

theorem mem_names_of_project {as : List Attribute} {n : String}
    (h : (project p as out).estimateRoot = .ok q) : n ∈ q.names ↔ n ∈ as.map (·.name) := by
  obtain ⟨t, s, -, hs, rfl⟩ := estimateRoot_project.mp h
  exact Estimate.mem_names_of_project hs

theorem names_of_product (h : (product l r out).estimateRoot = .ok q) :
    q.names = l.names ++ r.names := by
  obtain ⟨t, u, ht, hu, rfl⟩ := estimateRoot_product.mp h
  rw [names_eq ht, names_eq hu]
  exact Estimate.names_product t u

theorem names_of_join {c : Predicate} (h : (join l r c out).estimateRoot = .ok q) :
    q.names = l.names ++ r.names := by
  obtain ⟨t, u, s, ht, hu, hs, rfl⟩ := estimateRoot_join.mp h
  rw [names_eq ht, names_eq hu]
  exact (Estimate.join_eq_ok hs).1

theorem tryEstimateRoot_eq : p.tryEstimateRoot = (q, none) ↔ p.estimateRoot = .ok q := by
  unfold tryEstimateRoot
  cases p.estimateRoot <;> simp

theorem estimated_eq_ok : p.estimated = .ok q ↔ p.estimateTree = (q, none) := by
  unfold estimated
  rcases p.estimateTree with ⟨r, _ | e⟩ <;> simp

theorem estimateTree_scan {t : NamedRelation} :
    (scan t out).estimateTree = (scan t (some t.relation), none) := rfl

theorem estimateTree_select {c : Predicate} : (select i c out).estimateTree = (q, none) ↔
    ∃ j, i.estimateTree = (j, none) ∧ (select j c out).estimateRoot = .ok q := by
  rw [estimateTree]
  rcases i.estimateTree with ⟨j, _ | e⟩ <;> simp [tryEstimateRoot_eq]

theorem estimateTree_project {as : List Attribute} :
    (project i as out).estimateTree = (q, none) ↔
      ∃ j, i.estimateTree = (j, none) ∧ (project j as out).estimateRoot = .ok q := by
  rw [estimateTree]
  rcases i.estimateTree with ⟨j, _ | e⟩ <;> simp [tryEstimateRoot_eq]

theorem estimateTree_product : (product l r out).estimateTree = (q, none) ↔
    ∃ j k, l.estimateTree = (j, none) ∧ r.estimateTree = (k, none) ∧
      (product j k out).estimateRoot = .ok q := by
  rw [estimateTree]
  rcases l.estimateTree with ⟨j, _ | e⟩
  · rcases r.estimateTree with ⟨k, _ | e⟩ <;> simp [tryEstimateRoot_eq]
  · simp

theorem estimateTree_join {c : Predicate} : (join l r c out).estimateTree = (q, none) ↔
    ∃ j k, l.estimateTree = (j, none) ∧ r.estimateTree = (k, none) ∧
      (join j k c out).estimateRoot = .ok q := by
  rw [estimateTree]
  rcases l.estimateTree with ⟨j, _ | e⟩
  · rcases r.estimateTree with ⟨k, _ | e⟩ <;> simp [tryEstimateRoot_eq]
  · simp

end Plan
end QueryPlan
