import QueryPlan.Proofs.Estimates
import QueryPlan.Proofs.Expense
import QueryPlan.Proofs.Freshness
import QueryPlan.Proofs.Safety
import Mathlib.Data.List.Forall2

/-! Estimates and the statistics they start from. With fewer tuples in the scanned relations and more
distinct values, no node is expected to have more tuples or fewer distinct values. And no estimate
leaves the range of the registered statistics: a node has no more tuples than the relations below it
multiply to, and its attributes have between one and as many values as were registered. -/

namespace QueryPlan
open Outcome

namespace Count
variable {t u v w m n : Count}

theorem product_le_product (h : t ≤ u) (h' : v ≤ w) : t.product v ≤ u.product w := by
  have hmul : t.toNat * v.toNat ≤ u.toNat * w.toNat :=
    Nat.mul_le_mul (UInt64.le_iff_toNat_le.mp h) (UInt64.le_iff_toNat_le.mp h')
  rw [UInt64.le_iff_toNat_le, toNat_product, toNat_product]
  omega

theorem div_le_div (h : t ≤ u) (hn : n ≤ m) (hz : n ≠ 0) : t / m ≤ u / n := by
  have hpos : n.toNat ≠ 0 := fun hzero => hz (UInt64.toNat_inj.mp hzero)
  rw [UInt64.le_iff_toNat_le, UInt64.toNat_div, UInt64.toNat_div]
  exact Nat.div_le_div (UInt64.le_iff_toNat_le.mp h) (UInt64.le_iff_toNat_le.mp hn) hpos

theorem atLeastOne_le_atLeastOne (h : m ≤ v) : m.atLeastOne ≤ v.atLeastOne := by
  have hmv := UInt64.le_iff_toNat_le.mp h
  rw [UInt64.le_iff_toNat_le, toNat_atLeastOne, toNat_atLeastOne]
  omega

theorem larger_le_larger (h : m ≤ v) (h' : n ≤ w) : m.larger n ≤ v.larger w := by
  have hmv := UInt64.le_iff_toNat_le.mp h
  have hnw := UInt64.le_iff_toNat_le.mp h'
  rw [UInt64.le_iff_toNat_le, toNat_larger, toNat_larger]
  omega

theorem smaller_le_smaller (h : m ≤ v) (h' : n ≤ w) : m.smaller n ≤ v.smaller w := by
  have hmv := UInt64.le_iff_toNat_le.mp h
  have hnw := UInt64.le_iff_toNat_le.mp h'
  rw [UInt64.le_iff_toNat_le, toNat_smaller, toNat_smaller]
  omega

theorem larger_ne_zero (h : m ≠ 0) : m.larger n ≠ 0 := by
  unfold larger
  split
  · next hlt =>
    rintro rfl
    exact UInt64.not_lt_zero hlt
  · exact h

theorem div_larger_le (h : t ≤ u) (hv : m ≤ v) (hw : n ≤ w) :
    t / v.atLeastOne.larger w.atLeastOne ≤ u / m.atLeastOne.larger n.atLeastOne :=
  div_le_div h (larger_le_larger (atLeastOne_le_atLeastOne hv) (atLeastOne_le_atLeastOne hw))
    (larger_ne_zero atLeastOne_ne_zero)

end Count

def Attribute.Finer (a b : Attribute) : Prop := a.name = b.name ∧ b.valueCount ≤ a.valueCount

/-- No more tuples over the same attributes in the same order, each with at least as many values. -/
structure Relation.Sparser (r s : Relation) : Prop where
  tuples : r.tupleCount ≤ s.tupleCount
  attributes : List.Forall₂ Attribute.Finer r.attributes s.attributes

namespace Relation.Sparser
variable {r s r' s' : Relation} {a b : Attribute} {k l : Count} {t u : Count} {n : String}
  {p : Predicate}

theorem count? (h : r.Sparser s) (n : String) : (r.count? n = none ∧ s.count? n = none) ∨
    ∃ v w, r.count? n = some v ∧ s.count? n = some w ∧ w ≤ v := by
  have hfind : ∀ {as bs : List Attribute}, List.Forall₂ Attribute.Finer as bs →
      (as.find? (·.name == n) = none ∧ bs.find? (·.name == n) = none) ∨
        ∃ a b, as.find? (·.name == n) = some a ∧ bs.find? (·.name == n) = some b ∧ a.Finer b := by
    intro as bs hab
    induction hab with
    | nil => exact .inl ⟨rfl, rfl⟩
    | @cons a b as bs hab _ ih =>
      rw [List.find?_cons, List.find?_cons, hab.1]
      cases b.name == n with
      | true => exact .inr ⟨a, b, rfl, rfl, hab⟩
      | false => exact ih
  unfold Relation.count? attribute?
  rcases hfind h.attributes with ⟨ha, hb⟩ | ⟨a, b, ha, hb, hab⟩
  · rw [ha, hb]
    exact .inl ⟨rfl, rfl⟩
  · rw [ha, hb]
    exact .inr ⟨_, _, rfl, rfl, hab.2⟩

theorem resolve (h : r.Sparser s) (a : Attribute) :
    Agree Attribute.Finer (r.resolve a) (s.resolve a) := by
  rw [resolve_eq, resolve_eq]
  rcases h.count? a.name with ⟨hr, hs⟩ | ⟨v, w, hr, hs, hwv⟩
  · rw [hr, hs]
    exact .error _
  · rw [hr, hs]
    exact .ok ⟨rfl, hwv⟩

theorem recount {f g : Attribute → Bool} (h : r.Sparser s)
    (hfg : ∀ a b : Attribute, a.name = b.name → f a = g b) (hk : l ≤ k) :
    List.Forall₂ Attribute.Finer (r.recount f k) (s.recount g l) := by
  unfold Relation.recount
  rw [List.forall₂_map_left_iff, List.forall₂_map_right_iff]
  apply h.attributes.imp
  intro a b hab
  rw [hfg a b hab.1]
  cases g b with
  | true => exact ⟨hab.1, hk⟩
  | false => exact hab

theorem same_congr {a a' b b' : Attribute} (ha : a.name = a'.name) (hb : b.name = b'.name) :
    a.same b = a'.same b' := by
  unfold Attribute.same
  rw [ha, hb]

theorem select (h : r.Sparser s) (p : Predicate) :
    Agree Sparser (Estimate.select r p) (Estimate.select s p) := by
  cases p with
  | value a literal =>
    refine (h.resolve a).bind fun x y _ _ hxy => .ok ⟨?_, ?_⟩
    · exact Count.div_le_div h.tuples (Count.atLeastOne_le_atLeastOne hxy.2)
        Count.atLeastOne_ne_zero
    · exact h.recount (fun c d hcd => same_congr hcd hxy.1) (UInt64.le_refl _)
  | join a b =>
    refine (h.resolve a).bind fun x y _ _ hxy => (h.resolve b).bind fun z w _ _ hzw => .ok ⟨?_, ?_⟩
    · exact Count.div_larger_le h.tuples hxy.2 hzw.2
    · refine h.recount (fun c d hcd => ?_) (Count.smaller_le_smaller
        (Count.atLeastOne_le_atLeastOne hxy.2) (Count.atLeastOne_le_atLeastOne hzw.2))
      rw [same_congr hcd hxy.1, same_congr hcd hzw.1]

theorem contains (h : r.Sparser s) (n : String) : r.contains n = s.contains n := by
  rw [Relation.contains, Relation.contains, attribute?_eq, attribute?_eq]
  rcases h.count? n with ⟨hr, hs⟩ | ⟨v, w, hr, hs, -⟩
  · rw [hr, hs]
  · rw [hr, hs]
    rfl

theorem insert (h : r.Sparser s) (hab : a.Finer b) : (r.insert a).Sparser (s.insert b) := by
  have hcontains : r.contains a.name = s.contains b.name := by rw [h.contains, hab.1]
  unfold Relation.insert insert?
  rw [hcontains]
  split
  · exact h
  · exact ⟨h.tuples, List.rel_append h.attributes (.cons hab .nil)⟩

theorem project (h : r.Sparser s) (as : List Attribute) :
    Agree Sparser (Estimate.project r as) (Estimate.project s as) := by
  have hloop : ∀ {out out' : Relation}, out.Sparser out' → Agree Sparser
      (as.foldlM (fun out a => do return out.insert (← r.resolve a)) out)
      (as.foldlM (fun out a => do return out.insert (← s.resolve a)) out') := by
    induction as with
    | nil => exact fun ho => .ok ho
    | cons a as ih =>
      intro out out' ho
      rw [List.foldlM_cons, List.foldlM_cons]
      refine Agree.bind (R := Sparser) ?_ fun t u _ _ htu => ih htu
      exact (h.resolve a).bind fun x y _ _ hxy => .ok (ho.insert hxy)
  exact hloop ⟨h.tuples, .nil⟩

theorem product (h : r.Sparser s) (h' : r'.Sparser s') :
    (Estimate.product r r').Sparser (Estimate.product s s') :=
  ⟨Count.product_le_product h.tuples h'.tuples, List.rel_append h.attributes h'.attributes⟩

theorem join (h : r.Sparser s) (h' : r'.Sparser s') (p : Predicate) :
    Agree Sparser (Estimate.join r r' p) (Estimate.join s s' p) := by
  cases p with
  | value a literal => exact .error _
  | join a b =>
    rcases h.count? a.name with ⟨hr, hs⟩ | ⟨v, w, hr, hs, hwv⟩
    · unfold Estimate.join
      simp only [attribute?_eq, hr, hs]
      exact .error _
    · rcases h'.count? b.name with ⟨hr', hs'⟩ | ⟨v', w', hr', hs', hwv'⟩
      · unfold Estimate.join
        simp only [attribute?_eq, hr, hs, hr', hs']
        exact .error _
      · have hshared := Count.smaller_le_smaller (Count.atLeastOne_le_atLeastOne hwv)
          (Count.atLeastOne_le_atLeastOne hwv')
        rw [Estimate.join_of_counts hr hr', Estimate.join_of_counts hs hs']
        refine .ok ⟨?_, List.rel_append (h.recount ?_ hshared) (h'.recount ?_ hshared)⟩
        · exact Count.div_larger_le (Count.product_le_product h.tuples h'.tuples) hwv hwv'
        · exact fun c d hcd => same_congr hcd rfl
        · exact fun c d hcd => same_congr hcd rfl

end Relation.Sparser

/-- The same operators, each scan of a name over a sparser relation; what is stored does not count. -/
inductive Plan.Sparser : Plan → Plan → Prop
  | scan {s t : NamedRelation} {o o' : Option Relation} (hn : s.name = t.name)
      (h : s.relation.Sparser t.relation) : Sparser (.scan s o) (.scan t o')
  | select {i j : Plan} {c : Predicate} {o o' : Option Relation} (h : Sparser i j) :
      Sparser (.select i c o) (.select j c o')
  | project {i j : Plan} {as : List Attribute} {o o' : Option Relation} (h : Sparser i j) :
      Sparser (.project i as o) (.project j as o')
  | product {l r l' r' : Plan} {o o' : Option Relation} (hl : Sparser l l') (hr : Sparser r r') :
      Sparser (.product l r o) (.product l' r' o')
  | join {l r l' r' : Plan} {c : Predicate} {o o' : Option Relation} (hl : Sparser l l')
      (hr : Sparser r r') : Sparser (.join l r c o) (.join l' r' c o')

structure Plan.Below (p q : Plan) : Prop where
  plans : p.Sparser q
  outputs : ∃ r s, p.output? = some r ∧ q.output? = some s ∧ r.Sparser s

namespace Plan
variable {p q i j l r l' r' : Plan} {c : Predicate} {as : List Attribute} {o o' : Option Relation}

def Dominated (p q : Plan) : Prop := List.Forall₂ Below p.subplans q.subplans

theorem Dominated.root (h : p.Dominated q) : p.Below q := by
  unfold Dominated at h
  rw [subplans_eq, subplans_eq] at h
  exact (List.forall₂_cons.mp h).1

theorem Sparser.withOutput {r s : Relation} (h : p.Sparser q) :
    (p.withOutput r).Sparser (q.withOutput s) := by
  cases h with
  | scan hn h => exact .scan hn h
  | select h => exact .select h
  | project h => exact .project h
  | product hl hr => exact .product hl hr
  | join hl hr => exact .join hl hr

/-- One step up: over dominated children it is enough to compare what the formulas give. -/
theorem dominated_estimateRoot (h : p.Sparser q)
    (hc : List.Forall₂ Dominated p.children q.children)
    (ho : Agree Relation.Sparser p.outputFor q.outputFor) :
    Agree Dominated p.estimateRoot q.estimateRoot := by
  refine ho.bind fun r s _ _ hrs => .ok ?_
  unfold Dominated
  rw [subplans_eq, subplans_eq, children_withOutput, children_withOutput]
  have hroot : (p.withOutput r).Below (q.withOutput s) :=
    ⟨h.withOutput, r, s, p.output?_withOutput r, q.output?_withOutput s, hrs⟩
  exact .cons hroot (List.rel_flatMap hc fun _ _ hij => hij)

theorem dominated_select (h : i.Dominated j) : Agree Dominated (Plan.select i c o).estimateRoot
    (Plan.select j c o').estimateRoot := by
  obtain ⟨hplans, r, s, hr, hs, hrs⟩ := h.root
  apply dominated_estimateRoot (.select hplans) (.cons h .nil)
  rw [outputFor_select hr, outputFor_select hs]
  exact hrs.select c

theorem dominated_project (h : i.Dominated j) : Agree Dominated
    (Plan.project i as o).estimateRoot (Plan.project j as o').estimateRoot := by
  obtain ⟨hplans, r, s, hr, hs, hrs⟩ := h.root
  apply dominated_estimateRoot (.project hplans) (.cons h .nil)
  rw [outputFor, outputFor, output_eq_ok.mpr hr, output_eq_ok.mpr hs]
  exact hrs.project as

theorem dominated_product (hl : l.Dominated l') (hr : r.Dominated r') : Agree Dominated
    (Plan.product l r o).estimateRoot (Plan.product l' r' o').estimateRoot := by
  obtain ⟨hleft, t, u, ht, hu, htu⟩ := hl.root
  obtain ⟨hright, t', u', ht', hu', htu'⟩ := hr.root
  apply dominated_estimateRoot (.product hleft hright) (.cons hl (.cons hr .nil))
  rw [outputFor_product ht ht', outputFor_product hu hu']
  exact .ok (htu.product htu')

theorem dominated_join (hl : l.Dominated l') (hr : r.Dominated r') : Agree Dominated
    (Plan.join l r c o).estimateRoot (Plan.join l' r' c o').estimateRoot := by
  obtain ⟨hleft, t, u, ht, hu, htu⟩ := hl.root
  obtain ⟨hright, t', u', ht', hu', htu'⟩ := hr.root
  apply dominated_estimateRoot (.join hleft hright) (.cons hl (.cons hr .nil))
  rw [outputFor_join ht ht', outputFor_join hu hu']
  exact htu.join htu' c

theorem Sparser.estimated (h : p.Sparser q) : Agree Dominated p.estimated q.estimated := by
  induction h with
  | @scan s t _ _ hn h =>
    exact .ok (.cons ⟨.scan hn h, s.relation, t.relation, rfl, rfl, h⟩ .nil)
  | select _ ih =>
    rw [estimated_select, estimated_select]
    exact ih.bind fun i j _ _ hij => dominated_select hij
  | project _ ih =>
    rw [estimated_project, estimated_project]
    exact ih.bind fun i j _ _ hij => dominated_project hij
  | product _ _ ihl ihr =>
    rw [estimated_product, estimated_product]
    exact ihl.bind fun l l' _ _ hl => ihr.bind fun r r' _ _ hr => dominated_product hl hr
  | join _ _ ihl ihr =>
    rw [estimated_join, estimated_join]
    exact ihl.bind fun l l' _ _ hl => ihr.bind fun r r' _ _ hr => dominated_join hl hr

/-- Over sparser relations a plan is estimated exactly if it is over the others, or fails with the
same error. Each node then has at most as many tuples as its counterpart, and the same attributes
with at least as many values. -/
theorem estimateTree_mono (h : p.Sparser q) : p.estimateTree.2 = q.estimateTree.2 ∧
    (p.estimateTree.2 = none →
      List.Forall₂ Below p.estimateTree.1.subplans q.estimateTree.1.subplans) := by
  rcases h.estimated.cases with ⟨e, hp, hq⟩ | ⟨p', q', hp, hq, hdominated⟩
  · rw [estimated_eq_error] at hp hq
    rw [hp, hq]
    exact ⟨rfl, fun hnone => nomatch hnone⟩
  · rw [estimated_eq_ok] at hp hq
    rw [hp, hq]
    exact ⟨rfl, fun _ => hdominated⟩

def matching (r s : Relation) : Plan :=
  .project
    (.join (.scan ⟨"R", r⟩)
      (.select (.scan ⟨"S", s⟩ (some ⟨9, []⟩)) (.value (.named "c") "x"))
      (.join (.named "a") (.named "b")))
    [.named "a", .named "c"]

theorem estimateTree_mono_sample : ∃ p q : Plan,
    p = matching ⟨100, [⟨"a", 50⟩]⟩ ⟨40, [⟨"b", 20⟩, ⟨"c", 5⟩]⟩ ∧
      q = matching ⟨200, [⟨"a", 25⟩]⟩ ⟨40, [⟨"b", 10⟩, ⟨"c", 0⟩]⟩ ∧
      p.Sparser q ∧ p.estimateTree.2 = none ∧ q.estimateTree.2 = none ∧
      List.Forall₂ Below p.estimateTree.1.subplans q.estimateTree.1.subplans := by
  have hr : (⟨100, [⟨"a", 50⟩]⟩ : Relation).Sparser ⟨200, [⟨"a", 25⟩]⟩ :=
    ⟨by decide, .cons ⟨rfl, by decide⟩ .nil⟩
  have hs : (⟨40, [⟨"b", 20⟩, ⟨"c", 5⟩]⟩ : Relation).Sparser ⟨40, [⟨"b", 10⟩, ⟨"c", 0⟩]⟩ :=
    ⟨by decide, .cons ⟨rfl, by decide⟩ (.cons ⟨rfl, by decide⟩ .nil)⟩
  have h : (matching ⟨100, [⟨"a", 50⟩]⟩ ⟨40, [⟨"b", 20⟩, ⟨"c", 5⟩]⟩).Sparser
      (matching ⟨200, [⟨"a", 25⟩]⟩ ⟨40, [⟨"b", 10⟩, ⟨"c", 0⟩]⟩) :=
    .project (.join (.scan rfl hr) (.select (.scan rfl hs)))
  obtain ⟨herror, hbelow⟩ := estimateTree_mono h
  exact ⟨_, _, rfl, rfl, h, rfl, herror.symm, hbelow rfl⟩

end Plan

def Attribute.Drawn (ss : List NamedRelation) (a : Attribute) : Prop :=
  ∃ s ∈ ss, ∃ b ∈ s.relation.attributes,
    b.name = a.name ∧ 1 ≤ a.valueCount ∧ a.valueCount ≤ b.valueCount

namespace Attribute.Drawn
variable {ss ts : List NamedRelation} {a b : Attribute}

theorem mono (h : a.Drawn ss) (hs : ss ⊆ ts) : a.Drawn ts := by
  obtain ⟨s, hm, hb⟩ := h
  exact ⟨s, hs hm, hb⟩

theorem one_le (h : a.Drawn ss) : 1 ≤ a.valueCount := by
  obtain ⟨s, -, b, -, -, hone, -⟩ := h
  exact hone

theorem reduce (h : a.Drawn ss) (hn : b.name = a.name) (hone : 1 ≤ b.valueCount)
    (hle : b.valueCount ≤ a.valueCount) : b.Drawn ss := by
  obtain ⟨s, hs, d, hd, hname, -, hcount⟩ := h
  exact ⟨s, hs, d, hd, hname.trans hn.symm, hone, UInt64.le_trans hle hcount⟩

end Attribute.Drawn

namespace Count
variable {v w : Count}

theorem one_le_smaller : 1 ≤ v.atLeastOne.smaller w.atLeastOne := by
  rw [UInt64.le_iff_toNat_le, toNat_smaller, toNat_atLeastOne, toNat_atLeastOne]
  show 1 ≤ _
  omega

theorem smaller_le_left (hv : 1 ≤ v) : v.atLeastOne.smaller w.atLeastOne ≤ v := by
  have hone : 1 ≤ v.toNat := UInt64.le_iff_toNat_le.mp hv
  rw [UInt64.le_iff_toNat_le, toNat_smaller, toNat_atLeastOne, toNat_atLeastOne]
  omega

theorem smaller_le_right (hw : 1 ≤ w) : v.atLeastOne.smaller w.atLeastOne ≤ w := by
  rw [smaller_comm]
  exact smaller_le_left hw

end Count

namespace Relation
variable {ss ts : List NamedRelation} {r s : Relation} {a : Attribute} {n : String} {v k : Count}

/-- All attributes are drawn from the relations. -/
def Drawn (ss : List NamedRelation) (r : Relation) : Prop := ∀ a ∈ r.attributes, a.Drawn ss

theorem mem_of_count? (h : r.count? n = some v) : ⟨n, v⟩ ∈ r.attributes := by
  have hfind : r.attribute? n = some ⟨n, v⟩ := attribute?_eq_some.mpr ⟨h, rfl⟩
  exact List.mem_of_find?_eq_some hfind

theorem count?_of_mem (h : r.names.Nodup) (ha : a ∈ r.attributes) :
    r.count? a.name = some a.valueCount := by
  obtain ⟨v, hv⟩ := mem_names_iff.mp (List.mem_map_of_mem ha)
  have hfound : (⟨a.name, v⟩ : Attribute) = a :=
    List.inj_on_of_nodup_map h (mem_of_count? hv) ha rfl
  rw [hv, ← hfound]

theorem Drawn.recount {f : Attribute → Bool} (h : r.Drawn ss)
    (hf : ∀ b : Attribute, f b = true → (⟨b.name, k⟩ : Attribute).Drawn ss) :
    ∀ a ∈ r.recount f k, a.Drawn ss := by
  intro a ha
  obtain ⟨b, hb, rfl⟩ := List.mem_map.mp ha
  split
  · next hfb => exact hf b hfb
  · exact h b hb

end Relation

namespace Estimate
variable {ss ts : List NamedRelation} {r l s : Relation} {p : Predicate} {as : List Attribute}
  {a b : Attribute} {v w : Count} {n : String}

theorem drawn_shared (hv : (⟨a.name, v⟩ : Attribute).Drawn ss)
    (hw : (⟨b.name, w⟩ : Attribute).Drawn ts) :
    (⟨a.name, v.atLeastOne.smaller w.atLeastOne⟩ : Attribute).Drawn ss ∧
      (⟨b.name, v.atLeastOne.smaller w.atLeastOne⟩ : Attribute).Drawn ts :=
  ⟨hv.reduce rfl Count.one_le_smaller (Count.smaller_le_left hv.one_le),
    hw.reduce rfl Count.one_le_smaller (Count.smaller_le_right hw.one_le)⟩

theorem drawn_select (hr : r.Drawn ss) (h : select r p = .ok s) : s.Drawn ss := by
  have hnames := mem_names_of_select h
  cases p with
  | value a literal =>
    obtain ⟨v, hv, hx⟩ := Relation.resolve_of_mem (hnames a List.mem_cons_self)
    have hdrawn : (⟨a.name, v⟩ : Attribute).Drawn ss := hr _ (Relation.mem_of_count? hv)
    rw [select, hx, ok_bind] at h
    cases pure_eq_ok.mp h
    apply hr.recount
    intro c hc
    have hname : c.name = a.name := by simpa [Attribute.same] using hc
    exact hdrawn.reduce hname (UInt64.le_refl _) hdrawn.one_le
  | join a b =>
    obtain ⟨v, hv⟩ := Relation.mem_names_iff.mp (hnames a List.mem_cons_self)
    obtain ⟨w, hw⟩ := Relation.mem_names_iff.mp
      (hnames b (List.mem_cons_of_mem _ List.mem_cons_self))
    obtain ⟨hleft, hright⟩ := drawn_shared (hr _ (Relation.mem_of_count? hv))
      (hr _ (Relation.mem_of_count? hw))
    cases (select_of_counts hv hw).symm.trans h
    apply hr.recount
    intro c hc
    have hname : c.name = a.name ∨ c.name = b.name := by simpa [Attribute.same] using hc
    rcases hname with hname | hname
    · rwa [hname]
    · rwa [hname]

theorem drawn_product (hl : l.Drawn ss) (hr : r.Drawn ts) : (product l r).Drawn (ss ++ ts) := by
  intro a ha
  rcases List.mem_append.mp ha with ha | ha
  · exact (hl a ha).mono (List.subset_append_left ss ts)
  · exact (hr a ha).mono (List.subset_append_right ss ts)

theorem drawn_join (hl : l.Drawn ss) (hr : r.Drawn ts) (h : join l r p = .ok s) :
    s.Drawn (ss ++ ts) := by
  obtain ⟨-, a, b, rfl, ha, hb⟩ := join_eq_ok h
  obtain ⟨v, hv⟩ := Relation.mem_names_iff.mp ha
  obtain ⟨w, hw⟩ := Relation.mem_names_iff.mp hb
  obtain ⟨hleft, hright⟩ := drawn_shared (hl _ (Relation.mem_of_count? hv))
    (hr _ (Relation.mem_of_count? hw))
  cases (join_of_counts hv hw).symm.trans h
  -- on each side only the one attribute of that side is counted anew
  apply drawn_product (l := ⟨0, _⟩) (r := ⟨0, _⟩)
  · apply hl.recount
    intro c hc
    have hname : c.name = a.name := by simpa [Attribute.same] using hc
    rwa [hname]
  · apply hr.recount
    intro c hc
    have hname : c.name = b.name := by simpa [Attribute.same] using hc
    rwa [hname]

theorem drawn_project (hr : r.Drawn ss) (h : project r as = .ok s) : s.Drawn ss := by
  intro a ha
  obtain ⟨-, -, hcounts⟩ := project_eq_ok h
  have hcount := Relation.count?_of_mem (names_nodup_of_project h) ha
  rw [hcounts] at hcount
  split at hcount
  · exact hr a (Relation.mem_of_count? hcount)
  · cases hcount

end Estimate

namespace Plan
variable {c : Catalogue} {p q : Plan} {ss : List NamedRelation}

theorem scans_bare (p : Plan) : p.bare.scans = p.scans := by
  induction p with
  | scan s o => rfl
  | select i c o ih => exact ih
  | project i as o ih => exact ih
  | product l r o ihl ihr => rw [bare, scans, scans, ihl, ihr]
  | join l r c o ihl ihr => rw [bare, scans, scans, ihl, ihr]

theorem scans_estimateTree (p : Plan) : p.estimateTree.1.scans = p.scans := by
  rw [← scans_bare, bare_estimateTree, scans_bare]

theorem Consistent.drawn {r : Relation} (h : p.Consistent)
    (hs : ∀ s ∈ p.scans, s.relation.Drawn [s]) (hr : p.output? = some r) : r.Drawn p.scans := by
  induction h generalizing r with
  | scan s =>
    cases hr
    exact hs s (List.mem_singleton.mpr rfl)
  | select _ ht hselect ih =>
    cases hr
    exact Estimate.drawn_select (ih hs ht) hselect
  | project _ ht hproject ih =>
    cases hr
    exact Estimate.drawn_project (ih hs ht) hproject
  | product _ _ ht hu ihl ihr =>
    cases hr
    rw [scans, List.forall_mem_append] at hs
    exact Estimate.drawn_product (ihl hs.1 ht) (ihr hs.2 hu)
  | join _ _ ht hu hjoin ihl ihr =>
    cases hr
    rw [scans, List.forall_mem_append] at hs
    exact Estimate.drawn_join (ihl hs.1 ht) (ihr hs.2 hu) hjoin

theorem drawn_of_find? {s : NamedRelation} (h : c.find? s.name = some s) : s.relation.Drawn [s] := by
  intro a ha
  have hne : a.valueCount ≠ 0 := c.valueCount_ne_zero s (Catalogue.mem_of_find? h) a ha
  have hone : 1 ≤ a.valueCount := by
    rw [UInt64.le_iff_toNat_le]
    exact Nat.one_le_iff_ne_zero.mpr fun hzero => hne (UInt64.toNat_inj.mp hzero)
  exact ⟨s, List.mem_singleton.mpr rfl, a, ha, rfl, hone, UInt64.le_refl _⟩

/-- Over relations of the catalogue that share no attribute names, no node of an estimated plan has
more tuples than the registered numbers of the relations below it multiply to. Each of its attributes
is one of exactly one of them, with between one and as many values as are registered there. -/
theorem estimateTree_registered (hs : ∀ s ∈ p.scans, c.lookup s.name = .ok s)
    (hd : p.scans.Pairwise fun s t => ∀ n ∈ s.relation.names, n ∉ t.relation.names)
    (h : p.estimateTree = (q, none)) : ∀ node ∈ q.subplans, ∃ r, node.output? = some r ∧
      r.tupleCount.toNat ≤ min node.volume (UInt64.size - 1) ∧
      ∀ a ∈ r.attributes, ∃ s ∈ node.scans, c.lookup s.name = .ok s ∧
        (∀ t ∈ node.scans, a.name ∈ t.relation.names → t = s) ∧
        ∃ b ∈ s.relation.attributes,
          b.name = a.name ∧ 1 ≤ a.valueCount ∧ a.valueCount ≤ b.valueCount := by
  intro node hn
  have hscans : q.scans = p.scans := by rw [← p.scans_estimateTree, h]
  have hbelow : node.scans ⊆ p.scans := hscans ▸ (scans_sublist hn).subset
  have hnode : node.Consistent := (consistent_of_estimateTree h).of_mem hn
  obtain ⟨r, hr, -⟩ := hnode.output_eq
  have hdrawn : r.Drawn node.scans := hnode.drawn (fun s hm =>
    drawn_of_find? (Catalogue.lookup_eq_ok.mp (hs s (hbelow hm)))) hr
  refine ⟨r, hr, ?_, fun a ha => ?_⟩
  · have htuples : node.tuples ≤ node.volume := hnode.tuples_le
    have hlt := node.tuples_lt
    rw [tuples_eq hr] at htuples hlt
    omega
  · obtain ⟨s, hm, b, hb, hname, hone, hle⟩ := hdrawn a ha
    refine ⟨s, hm, hs s (hbelow hm), fun t ht hat => ?_, b, hb, hname, hone, hle⟩
    by_contra hne
    -- two relations below the node would share the name of the attribute
    have hsymm : Std.Symm fun s t : NamedRelation =>
        ∀ n ∈ s.relation.names, n ∉ t.relation.names := ⟨fun s t hst n hn hn' => hst n hn' hn⟩
    have hapart := List.Pairwise.forall hd (hbelow ht) (hbelow hm) hne
    exact hapart a.name hat (hname ▸ List.mem_map_of_mem hb)

def sampleJoin : Plan :=
  .project
    (.join
      (.select (.scan ⟨"Works_On", ⟨2000, [⟨"PNO", 100⟩, ⟨"SSN", 1000⟩]⟩⟩)
        (.value (.named "PNO") "3") (some ⟨0, []⟩))
      (.scan ⟨"Employee", ⟨1000, [⟨"ESSN", 1000⟩, ⟨"LNAME", 900⟩]⟩⟩)
      (.join (.named "SSN") (.named "ESSN")) (some ⟨5, [⟨"LNAME", 0⟩]⟩))
    [.named "LNAME", .named "SSN"]

theorem estimateTree_registered_sample : ∃ q r,
    (∀ s ∈ sampleJoin.scans, Catalogue.sample.lookup s.name = .ok s) ∧
      sampleJoin.estimateTree = (q, none) ∧ q.output? = some r ∧
      r.tupleCount.toNat ≤ min q.volume (UInt64.size - 1) ∧ q.volume = 2000000 ∧
      r.attributes = [⟨"LNAME", 900⟩, ⟨"SSN", 1000⟩] ∧
      ∀ a ∈ r.attributes, ∃ s ∈ q.scans, Catalogue.sample.lookup s.name = .ok s ∧
        (∀ t ∈ q.scans, a.name ∈ t.relation.names → t = s) ∧
        ∃ b ∈ s.relation.attributes,
          b.name = a.name ∧ 1 ≤ a.valueCount ∧ a.valueCount ≤ b.valueCount := by
  have hs : ∀ s ∈ sampleJoin.scans, Catalogue.sample.lookup s.name = .ok s := by
    simp only [sampleJoin, scans, List.cons_append, List.nil_append, List.forall_mem_cons]
    exact ⟨rfl, rfl, fun _ h => absurd h List.not_mem_nil⟩
  have hd : sampleJoin.scans.Pairwise fun s t =>
      ∀ n ∈ s.relation.names, n ∉ t.relation.names := by decide
  obtain ⟨q, r', h, hr', hvolume, hattributes⟩ : ∃ q r, sampleJoin.estimateTree = (q, none) ∧
      q.output? = some r ∧ q.volume = 2000000 ∧
        r.attributes = [⟨"LNAME", 900⟩, ⟨"SSN", 1000⟩] := ⟨_, _, rfl, rfl, rfl, rfl⟩
  obtain ⟨r, hr, htuples, hdrawn⟩ := estimateTree_registered hs hd h q mem_subplans_self
  obtain rfl := Option.some.inj (hr'.symm.trans hr)
  exact ⟨q, _, hs, h, hr, htuples, hvolume, hattributes, hdrawn⟩

end Plan
end QueryPlan
