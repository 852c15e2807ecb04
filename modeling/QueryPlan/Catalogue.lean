import QueryPlan.Error

/-! Registered relations in the order of their registration. Names are distinct, the attributes of
a relation are distinct, and no stored value count is zero: the type keeps this. -/

namespace QueryPlan

structure Catalogue where
  relations : List NamedRelation
  names_nodup : (relations.map (·.name)).Nodup
  attributes_nodup : ∀ r ∈ relations, r.relation.names.Nodup
  valueCount_ne_zero : ∀ r ∈ relations, ∀ a ∈ r.relation.attributes, a.valueCount ≠ 0

namespace Catalogue

def empty : Catalogue := ⟨[], by simp, by simp, by simp⟩

def find? (c : Catalogue) (name : String) : Option NamedRelation :=
  c.relations.find? (·.name == name)

def slot? (c : Catalogue) (name : String) : Option Nat :=
  c.relations.findIdx? (·.name == name)

def lookup (c : Catalogue) (name : String) : Except PlanError NamedRelation :=
  match c.find? name with
  | some r => .ok r
  | none => .error (.unknownRelation name)

def contains (c : Catalogue) (name : String) : Bool := (c.find? name).isSome

def names (c : Catalogue) : List String := c.relations.map (·.name)

def size (c : Catalogue) : Nat := c.relations.length

def isEmpty (c : Catalogue) : Bool := c.relations.isEmpty

def ownerOf? (c : Catalogue) (column : String) : Option String :=
  (c.relations.find? (·.relation.contains column)).map (·.name)

theorem find?_eq_none_iff {c : Catalogue} {name : String} :
    c.find? name = none ↔ name ∉ c.relations.map (·.name) := by
  simp [find?, List.find?_eq_none]

private theorem names_nodup_append {rs : List NamedRelation} {r : NamedRelation}
    (h : (rs.map (·.name)).Nodup) (hr : r.name ∉ rs.map (·.name)) :
    ((rs ++ [r]).map (·.name)).Nodup := by
  rw [List.map_append, List.nodup_append]
  refine ⟨h, by simp, fun a ha b hb e => ?_⟩
  simp only [List.map_cons, List.map_nil, List.mem_singleton] at hb
  exact hr (hb ▸ e ▸ ha)

def createRelation (c : Catalogue) (name : String) (tuples : Count) :
    Except PlanError Catalogue :=
  if h : c.find? name = none then
    .ok {
      relations := c.relations ++ [⟨name, ⟨tuples, []⟩⟩]
      names_nodup := names_nodup_append c.names_nodup (find?_eq_none_iff.mp h)
      attributes_nodup := fun r hr => by
        rcases List.mem_append.mp hr with hr | hr
        · exact c.attributes_nodup r hr
        · rw [List.mem_singleton.mp hr]; exact List.nodup_nil
      valueCount_ne_zero := fun r hr => by
        rcases List.mem_append.mp hr with hr | hr
        · exact c.valueCount_ne_zero r hr
        · rw [List.mem_singleton.mp hr]; simp }
  else .error (.duplicateRelation name)

private theorem names_nodup_insert {r s : Relation} {a : Attribute} (h : r.names.Nodup)
    (hs : r.insert? a = some s) : s.names.Nodup := by
  unfold Relation.insert? at hs
  split at hs
  · cases hs
  · next ha =>
    cases hs
    have ha' : a.name ∉ r.names := fun hm => ha (Relation.contains_eq_true.mpr hm)
    unfold Relation.names at ha' h ⊢
    rw [List.map_append, List.nodup_append]
    refine ⟨h, by simp, fun x hx y hy e => ?_⟩
    simp only [List.map_cons, List.map_nil, List.mem_singleton] at hy
    exact ha' (hy ▸ e ▸ hx)

private theorem valueCount_ne_zero_insert {r s : Relation} {a : Attribute}
    (h : ∀ b ∈ r.attributes, b.valueCount ≠ 0) (ha : a.valueCount ≠ 0)
    (hs : r.insert? a = some s) : ∀ b ∈ s.attributes, b.valueCount ≠ 0 := by
  unfold Relation.insert? at hs
  split at hs
  · cases hs
  · cases hs
    intro b hb
    rcases List.mem_append.mp hb with hb | hb
    · exact h b hb
    · rw [List.mem_singleton.mp hb]; exact ha

theorem mem_of_find? {c : Catalogue} {name : String} {r : NamedRelation}
    (h : c.find? name = some r) : r ∈ c.relations := List.mem_of_find?_eq_some h

def createAttribute (c : Catalogue) (relation name : String) (values : Count) :
    Except PlanError Catalogue :=
  match hr : c.find? relation with
  | none => .error (.unknownRelation relation)
  | some r =>
    match hs : r.relation.insert? ⟨name, values.atLeastOne⟩ with
    | none => .error (.duplicateAttribute relation name)
    | some s =>
      .ok {
        relations := c.relations.map fun t => if t.name = relation then ⟨relation, s⟩ else t
        names_nodup := by
          have hn : (c.relations.map fun t => if t.name = relation then ⟨relation, s⟩ else t).map
              (·.name) = c.relations.map (·.name) := by
            rw [List.map_map]
            refine List.map_congr_left fun t _ => ?_
            simp only [Function.comp_apply]
            split
            · next e => exact e.symm
            · rfl
          rw [hn]; exact c.names_nodup
        attributes_nodup := fun t ht => by
          obtain ⟨u, hu, rfl⟩ := List.mem_map.mp ht
          split
          · exact names_nodup_insert (c.attributes_nodup r (mem_of_find? hr)) hs
          · exact c.attributes_nodup u hu
        valueCount_ne_zero := fun t ht => by
          obtain ⟨u, hu, rfl⟩ := List.mem_map.mp ht
          split
          · exact valueCount_ne_zero_insert (c.valueCount_ne_zero r (mem_of_find? hr))
              Count.atLeastOne_ne_zero hs
          · exact c.valueCount_ne_zero u hu }

end Catalogue
end QueryPlan
