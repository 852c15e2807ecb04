import QueryPlan.Catalogue
import Mathlib.Data.Multiset.Bind
import Mathlib.Logic.Relation

/-! What stands in a plan: its subtrees, the relations it scans, the predicates it applies and the
attributes it reads. Claims about every node of a plan quantify over `Plan.subplans`. -/

namespace QueryPlan
namespace Plan

@[simp] def subplans : Plan → List Plan
  | scan s o => [scan s o]
  | select i p o => select i p o :: i.subplans
  | project i as o => project i as o :: i.subplans
  | product l r o => product l r o :: (l.subplans ++ r.subplans)
  | join l r p o => join l r p o :: (l.subplans ++ r.subplans)

@[simp] def scans : Plan → List NamedRelation
  | scan s _ => [s]
  | select i _ _ => i.scans
  | project i _ _ => i.scans
  | product l r _ => l.scans ++ r.scans
  | join l r _ _ => l.scans ++ r.scans

@[simp] def selections : Plan → List Predicate
  | scan .. => []
  | select i p _ => p :: i.selections
  | project i _ _ => i.selections
  | product l r _ => l.selections ++ r.selections
  | join l r _ _ => l.selections ++ r.selections

@[simp] def conditions : Plan → List Predicate
  | scan .. => []
  | select i p _ => p :: i.conditions
  | project i _ _ => i.conditions
  | product l r _ => l.conditions ++ r.conditions
  | join l r p _ => p :: (l.conditions ++ r.conditions)

@[simp] def joins : Plan → List Predicate
  | scan .. => []
  | select i _ _ => i.joins
  | project i _ _ => i.joins
  | product l r _ => l.joins ++ r.joins
  | join l r p _ => p :: (l.joins ++ r.joins)

@[simp] def listed : Plan → List Attribute
  | scan .. => []
  | select i _ _ => i.listed
  | project i as _ => as ++ i.listed
  | product l r _ => l.listed ++ r.listed
  | join l r _ _ => l.listed ++ r.listed

theorem conditions_perm (p : Plan) : p.conditions.Perm (p.selections ++ p.joins) := by
  induction p with
  | scan s o => exact .refl _
  | select i c o ih => exact ih.cons c
  | project i as o ih => exact ih
  | product l r o ihl ihr =>
    refine List.perm_iff_count.mpr fun c => ?_
    simp only [conditions, selections, joins, List.count_append, ihl.count_eq, ihr.count_eq]
    omega
  | join l r c o ihl ihr =>
    refine List.perm_iff_count.mpr fun d => ?_
    simp only [conditions, selections, joins, List.count_append, List.count_cons, ihl.count_eq,
      ihr.count_eq]
    omega

theorem mem_selections_iff {p : Plan} {c : Predicate} :
    c ∈ p.selections ↔ ∃ i out, .select i c out ∈ p.subplans := by
  induction p with
  | scan s o => simp
  | select i d o ih => simp [ih, exists_or, eq_comm]
  | project i as o ih => simp [ih]
  | product l r o ihl ihr => simp [ihl, ihr, exists_or]
  | join l r d o ihl ihr => simp [ihl, ihr, exists_or]

theorem mem_joins_iff {p : Plan} {c : Predicate} :
    c ∈ p.joins ↔ ∃ l r out, .join l r c out ∈ p.subplans := by
  induction p with
  | scan s o => simp
  | select i d o ih => simp [ih]
  | project i as o ih => simp [ih]
  | product l r o ihl ihr => simp [ihl, ihr, exists_or]
  | join l r d o ihl ihr => simp [ihl, ihr, exists_or, eq_comm]

theorem baseRelations_eq (p : Plan) : p.baseRelations = p.scans.map (·.name) := by
  induction p with
  | scan s o => rfl
  | select i p o ih => exact ih
  | project i as o ih => exact ih
  | product l r o ihl ihr => simp [baseRelations, ihl, ihr]
  | join l r p o ihl ihr => simp [baseRelations, ihl, ihr]

theorem baseRelations_ne_nil (p : Plan) : p.baseRelations ≠ [] := by
  induction p with
  | scan s o => simp [baseRelations]
  | select i p o ih => exact ih
  | project i as o ih => exact ih
  | product l r o ihl ihr => simp [baseRelations, ihl]
  | join l r p o ihl ihr => simp [baseRelations, ihl]

theorem mem_subplans_self {p : Plan} : p ∈ p.subplans := by cases p <;> simp

theorem rel_of_mem_subplans {R : Plan → Plan → Prop} (hself : ∀ p, R p p)
    (hchild : ∀ {i j p}, j ∈ p.children → R i j → R i p) {i p : Plan} (h : i ∈ p.subplans) :
    R i p := by
  induction p with
  | scan s o => exact List.mem_singleton.mp h ▸ hself _
  | select j c o ih =>
    rcases List.mem_cons.mp h with rfl | h
    · exact hself _
    · exact hchild (List.mem_singleton.mpr rfl) (ih h)
  | project j as o ih =>
    rcases List.mem_cons.mp h with rfl | h
    · exact hself _
    · exact hchild (List.mem_singleton.mpr rfl) (ih h)
  | product l r o ihl ihr =>
    rcases List.mem_cons.mp h with rfl | h
    · exact hself _
    · rcases List.mem_append.mp h with h | h
      · exact hchild List.mem_cons_self (ihl h)
      · exact hchild (List.mem_cons_of_mem _ List.mem_cons_self) (ihr h)
  | join l r c o ihl ihr =>
    rcases List.mem_cons.mp h with rfl | h
    · exact hself _
    · rcases List.mem_append.mp h with h | h
      · exact hchild List.mem_cons_self (ihl h)
      · exact hchild (List.mem_cons_of_mem _ List.mem_cons_self) (ihr h)

theorem subplans_eq (p : Plan) : p.subplans = p :: p.children.flatMap subplans := by
  cases p <;> simp [children]

theorem subplans_subset {p i : Plan} (h : i ∈ p.subplans) : i.subplans ⊆ p.subplans := by
  refine rel_of_mem_subplans (R := fun i p => i.subplans ⊆ p.subplans) (fun _ => .refl _) ?_ h
  intro i j p hj hij node hn
  rw [subplans_eq p]
  exact List.mem_cons_of_mem _ (List.mem_flatMap.mpr ⟨j, hj, hij hn⟩)

theorem mem_subplans_of_mem_children {p i j : Plan} (h : i ∈ p.subplans) (hj : j ∈ i.children) :
    j ∈ p.subplans := by
  apply subplans_subset h
  rw [subplans_eq]
  exact List.mem_cons_of_mem _ (List.mem_flatMap.mpr ⟨j, hj, mem_subplans_self⟩)

theorem operands_mem {p l r : Plan} {c : Predicate} {out : Option Relation}
    (h : .join l r c out ∈ p.subplans) : l ∈ p.subplans ∧ r ∈ p.subplans :=
  ⟨mem_subplans_of_mem_children h List.mem_cons_self,
    mem_subplans_of_mem_children h (List.mem_pair.mpr (.inr rfl))⟩

theorem scans_sublist_of_mem_children {p i : Plan} (h : i ∈ p.children) :
    i.scans.Sublist p.scans := by
  cases p with
  | scan s o => cases h
  | select j c o => rw [List.mem_singleton.mp h, scans]
  | project j as o => rw [List.mem_singleton.mp h, scans]
  | product l r o =>
    rcases List.mem_pair.mp h with rfl | rfl
    · exact List.sublist_append_left _ _
    · exact List.sublist_append_right _ _
  | join l r c o =>
    rcases List.mem_pair.mp h with rfl | rfl
    · exact List.sublist_append_left _ _
    · exact List.sublist_append_right _ _

theorem scans_sublist {p i : Plan} (h : i ∈ p.subplans) : i.scans.Sublist p.scans :=
  rel_of_mem_subplans (R := fun i p => i.scans.Sublist p.scans) (fun _ => .refl _)
    (fun hj hij => hij.trans (scans_sublist_of_mem_children hj)) h

theorem baseRelations_sublist {p i : Plan} (h : i ∈ p.subplans) :
    i.baseRelations.Sublist p.baseRelations := by
  rw [baseRelations_eq, baseRelations_eq]
  exact (scans_sublist h).map _

theorem forall_mem_subplans {p : Plan} {P : Plan → Prop} : (∀ node ∈ p.subplans, P node) ↔
    P p ∧ ∀ i ∈ p.children, ∀ node ∈ i.subplans, P node := by
  rw [subplans_eq, List.forall_mem_cons]
  refine and_congr_right fun _ => ?_
  simp only [List.mem_flatMap]
  exact ⟨fun h i hi node hn => h node ⟨i, hi, hn⟩, fun h node ⟨i, hi, hn⟩ => h i hi node hn⟩

@[simp] theorem baseRelations_withOutput (p : Plan) (r : Relation) :
    (p.withOutput r).baseRelations = p.baseRelations := by cases p <;> rfl

@[simp] theorem output?_withOutput (p : Plan) (r : Relation) :
    (p.withOutput r).output? = some r := by cases p <;> rfl

end Plan

def Predicate.reads (ps : List Predicate) : List String :=
  (ps.flatMap Predicate.attributes).map (·.name)

namespace Predicate

@[simp] theorem reads_nil : reads [] = [] := rfl

@[simp] theorem reads_cons (p : Predicate) (ps : List Predicate) :
    reads (p :: ps) = p.attributes.map (·.name) ++ reads ps := by simp [reads]

@[simp] theorem reads_append (ps qs : List Predicate) :
    reads (ps ++ qs) = reads ps ++ reads qs := by simp [reads]

theorem mem_reads {ps : List Predicate} {n : String} :
    n ∈ reads ps ↔ ∃ p ∈ ps, ∃ a ∈ p.attributes, a.name = n := by
  simp only [reads, List.mem_map, List.mem_flatMap]
  constructor
  · rintro ⟨a, ⟨p, hp, ha⟩, rfl⟩
    exact ⟨p, hp, a, ha, rfl⟩
  · rintro ⟨p, hp, a, ha, rfl⟩
    exact ⟨a, ⟨p, hp, ha⟩, rfl⟩

theorem reads_perm {ps qs : List Predicate} (h : ps.Perm qs) : (reads ps).Perm (reads qs) :=
  (h.flatMap_right _).map _

theorem left_mem_attributes (p : Predicate) : p.left ∈ p.attributes := by
  cases p <;> simp [left, attributes]

theorem attributes_swapped (p : Predicate) : p.swapped.attributes.Perm p.attributes := by
  cases p with
  | value l v => exact .refl _
  | join l r => exact .swap ..

theorem attributes_of_isValue {p : Predicate} (h : p.isValue = true) : p.attributes = [p.left] := by
  cases p with
  | value l v => rfl
  | join l r => cases h

end Predicate

def Plan.mentions (p : Plan) : List String :=
  Predicate.reads p.selections ++ p.listed.map (·.name)

def Catalogue.Declares (c : Catalogue) (relations : List String) (column : String) : Prop :=
  ∃ r ∈ relations, ∃ s, c.find? r = some s ∧ column ∈ s.relation.names

/-- The relation is registered and declares all that the predicate reads. -/
def Predicate.LocalTo (c : Catalogue) (relation : String) (p : Predicate) : Prop :=
  ∀ a ∈ p.attributes, c.Declares [relation] a.name

namespace Catalogue
variable {c : Catalogue} {column : String}

theorem declares_append {rs ts : List String} :
    c.Declares (rs ++ ts) column ↔ c.Declares rs column ∨ c.Declares ts column := by
  simp only [Declares, List.mem_append, or_and_right, exists_or]

theorem Declares.mono {rs ts : List String} (h : c.Declares rs column) (hs : rs ⊆ ts) :
    c.Declares ts column := by
  obtain ⟨r, hr, hd⟩ := h
  exact ⟨r, hs hr, hd⟩

theorem declares_perm {rs ts : List String} (h : rs.Perm ts) :
    c.Declares rs column ↔ c.Declares ts column :=
  ⟨fun hd => hd.mono h.subset, fun hd => hd.mono h.symm.subset⟩

theorem declares_singleton {name : String} {s : NamedRelation} (h : c.find? name = some s) :
    c.Declares [name] column ↔ column ∈ s.relation.names := by
  simp [Declares, h]

theorem any_contains_iff {r : String} :
    ((c.find? r).any (·.relation.contains column)) = true ↔
      ∃ s, c.find? r = some s ∧ column ∈ s.relation.names := by
  cases c.find? r with
  | none => simp
  | some s => simpa using Relation.contains_eq_true

theorem name_of_find? {name : String} {s : NamedRelation} (h : c.find? name = some s) :
    s.name = name := by simpa using List.find?_some h

theorem lookup_eq_ok {name : String} {s : NamedRelation} :
    c.lookup name = .ok s ↔ c.find? name = some s := by
  unfold lookup
  cases c.find? name <;> simp

end Catalogue
end QueryPlan
