import QueryPlan.Proofs.Schema
import Mathlib.Algebra.BigOperators.Group.Finset.Basic

/-! Laws of the estimates. A join is estimated as the selection over the product that it replaces,
whichever operand comes first. Its tuples are counted exactly as long as those of the product fit
into a word. Comparisons with literals can be made in any order, and any number of times. -/

namespace QueryPlan
open Outcome

namespace Count

theorem product_comm (a b : Count) : a.product b = b.product a := by
  rw [product, product, Nat.mul_comm]

theorem larger_comm (a b : Count) : a.larger b = b.larger a := by
  apply UInt64.toNat_inj.mp
  rw [toNat_larger, toNat_larger, Nat.max_comm]

theorem smaller_comm (a b : Count) : a.smaller b = b.smaller a := by
  apply UInt64.toNat_inj.mp
  rw [toNat_smaller, toNat_smaller, Nat.min_comm]

theorem clip_toNat (a : Count) : clip a.toNat = a := by
  have hlt : a.toNat < UInt64.size := UInt64.toNat_lt_size a
  apply UInt64.toNat_inj.mp
  rw [toNat_clip]
  omega

theorem toNat_divisor (v w : Count) :
    (v.atLeastOne.larger w.atLeastOne).toNat = max (max v.toNat w.toNat) 1 := by
  rw [toNat_larger, toNat_atLeastOne, toNat_atLeastOne]
  omega

end Count

namespace Relation
variable {l r : Relation} {p q : Attribute → Bool} {a b : Attribute} {n : String}

theorem recount_append (l r : Relation) (t : Count) (p : Attribute → Bool) (k : Count) :
    (⟨t, l.attributes ++ r.attributes⟩ : Relation).recount p k = l.recount p k ++ r.recount p k :=
  List.map_append

theorem recount_congr {k : Count} (h : ∀ c ∈ r.attributes, p c = q c) :
    r.recount p k = r.recount q k := by
  apply List.map_congr_left
  intro c hc
  rw [h c hc]

theorem same_eq_false {c : Attribute} (hc : c ∈ r.attributes) (ha : a.name ∉ r.names) :
    c.same a = false := by
  have hne : c.name ≠ a.name := fun h => ha (h ▸ List.mem_map_of_mem hc)
  simpa [Attribute.same] using hne

theorem recount_spanning (hd : ∀ n ∈ l.names, n ∉ r.names) (ha : a.name ∈ l.names)
    (hb : b.name ∈ r.names) (t k : Count) :
    (⟨t, l.attributes ++ r.attributes⟩ : Relation).recount (fun c => c.same a || c.same b) k =
      l.recount (·.same a) k ++ r.recount (·.same b) k := by
  have hl : l.recount (fun c => c.same a || c.same b) k = l.recount (·.same a) k := by
    apply recount_congr
    intro c hc
    rw [same_eq_false hc (fun h => hd _ h hb), Bool.or_false]
  have hr : r.recount (fun c => c.same a || c.same b) k = r.recount (·.same b) k := by
    apply recount_congr
    intro c hc
    rw [same_eq_false hc (hd _ ha), Bool.false_or]
  rw [recount_append, hl, hr]

theorem count?_append_comm (hd : ∀ n ∈ l.names, n ∉ r.names) (t : Count) (n : String) :
    (⟨t, r.attributes ++ l.attributes⟩ : Relation).count? n =
      (⟨t, l.attributes ++ r.attributes⟩ : Relation).count? n := by
  rw [count?_append, count?_append]
  by_cases hn : n ∈ l.names
  · rw [count?_eq_none_iff.mpr (hd n hn), Option.none_or, Option.or_none]
  · rw [count?_eq_none_iff.mpr hn, Option.none_or, Option.or_none]

end Relation

namespace Estimate
variable {l r : Relation} {a b : Attribute} {v w : Count}

theorem select_of_counts (hv : r.count? a.name = some v) (hw : r.count? b.name = some w) :
    select r (.join a b) = .ok ⟨r.tupleCount / v.atLeastOne.larger w.atLeastOne,
      r.recount (fun c => c.same a || c.same b) (v.atLeastOne.smaller w.atLeastOne)⟩ := by
  have ha : r.resolve a = .ok ⟨a.name, v⟩ := Relation.resolve_eq_ok.mpr ⟨hv, rfl⟩
  have hb : r.resolve b = .ok ⟨b.name, w⟩ := Relation.resolve_eq_ok.mpr ⟨hw, rfl⟩
  rw [select, ha, ok_bind, hb, ok_bind]
  rfl

theorem join_of_counts (hv : l.count? a.name = some v) (hw : r.count? b.name = some w) :
    join l r (.join a b) =
      .ok ⟨l.tupleCount.product r.tupleCount / v.atLeastOne.larger w.atLeastOne,
        l.recount (·.same a) (v.atLeastOne.smaller w.atLeastOne) ++
          r.recount (·.same b) (v.atLeastOne.smaller w.atLeastOne)⟩ := by
  have ha : l.attribute? a.name = some ⟨a.name, v⟩ := Relation.attribute?_eq_some.mpr ⟨hv, rfl⟩
  have hb : r.attribute? b.name = some ⟨b.name, w⟩ := Relation.attribute?_eq_some.mpr ⟨hw, rfl⟩
  rw [join, ha, hb]
  rfl

theorem select_swapped (hv : r.count? a.name = some v) (hw : r.count? b.name = some w) :
    select r (Predicate.join a b).swapped = select r (.join a b) := by
  have hor : ∀ c : Attribute, (c.same b || c.same a) = (c.same a || c.same b) :=
    fun c => Bool.or_comm ..
  rw [Predicate.swapped, select_of_counts hw hv, select_of_counts hv hw]
  simp only [hor, Count.larger_comm, Count.smaller_comm]

theorem join_swapped (hv : l.count? a.name = some v) (hw : r.count? b.name = some w) :
    join r l (Predicate.join a b).swapped =
      .ok ⟨l.tupleCount.product r.tupleCount / v.atLeastOne.larger w.atLeastOne,
        r.recount (·.same b) (v.atLeastOne.smaller w.atLeastOne) ++
          l.recount (·.same a) (v.atLeastOne.smaller w.atLeastOne)⟩ := by
  rw [Predicate.swapped, join_of_counts hw hv, Count.product_comm, Count.larger_comm,
    Count.smaller_comm]

theorem join_eq_select (hd : ∀ n ∈ l.names, n ∉ r.names) (hv : l.count? a.name = some v)
    (hw : r.count? b.name = some w) :
    join l r (.join a b) = select (product l r) (.join a b) ∧
      select (product l r) (Predicate.join a b).swapped = select (product l r) (.join a b) := by
  have ha : a.name ∈ l.names := Relation.mem_names_iff.mpr ⟨v, hv⟩
  have hb : b.name ∈ r.names := Relation.mem_names_iff.mpr ⟨w, hw⟩
  have hnone : l.count? b.name = none := Relation.count?_eq_none_iff.mpr fun h => hd _ h hb
  have hleft : (product l r).count? a.name = some v := by
    rw [product, Relation.count?_append, hv, Option.some_or]
  have hright : (product l r).count? b.name = some w := by
    rw [product, Relation.count?_append, hnone, Option.none_or, hw]
  refine ⟨?_, select_swapped hleft hright⟩
  rw [select_of_counts hleft hright, join_of_counts hv hw]
  simp only [product, Relation.recount_spanning hd ha hb]

/-- A join is estimated as the selection by its equality over the product of its operands, and as
the join of the operands in the other order, up to the order of the columns. -/
theorem join_replaces_select (hd : ∀ n ∈ l.names, n ∉ r.names) (ha : a.name ∈ l.names)
    (hb : b.name ∈ r.names) : ∃ out mirrored,
      join l r (.join a b) = .ok out ∧ select (product l r) (.join a b) = .ok out ∧
      select (product l r) (Predicate.join a b).swapped = .ok out ∧
      join r l (Predicate.join a b).swapped = .ok mirrored ∧
      mirrored.tupleCount = out.tupleCount ∧ mirrored.attributes.Perm out.attributes ∧
      ∀ n, mirrored.count? n = out.count? n := by
  obtain ⟨v, hv⟩ := Relation.mem_names_iff.mp ha
  obtain ⟨w, hw⟩ := Relation.mem_names_iff.mp hb
  have hjoin := join_of_counts hv hw
  obtain ⟨hselect, hturned⟩ := join_eq_select hd hv hw
  refine ⟨_, _, hjoin, hselect ▸ hjoin, hturned.trans (hselect ▸ hjoin), join_swapped hv hw, rfl,
    List.perm_append_comm, fun n => ?_⟩
  -- the counts changed, the names did not
  apply Relation.count?_append_comm (l := ⟨0, l.recount _ _⟩) (r := ⟨0, r.recount _ _⟩)
  intro m hm
  have hml : m ∈ l.names := by rwa [Relation.names, Relation.names_recount] at hm
  show m ∉ (r.recount _ _).map (·.name)
  rw [Relation.names_recount]
  exact hd m hml

def fullest : Relation := ⟨18446744073709551615, [⟨"a", 3⟩, ⟨"c", 0⟩]⟩

def couple : Relation := ⟨2, [⟨"b", 5⟩]⟩

theorem join_replaces_select_sample : (∀ n ∈ fullest.names, n ∉ couple.names) ∧
    "a" ∈ fullest.names ∧ "b" ∈ couple.names ∧ ∃ out mirrored,
      join fullest couple (.join (.named "a") (.named "b")) = .ok out ∧
      select (product fullest couple) (.join (.named "a") (.named "b")) = .ok out ∧
      select (product fullest couple) (.join (.named "b") (.named "a")) = .ok out ∧
      join couple fullest (.join (.named "b") (.named "a")) = .ok mirrored ∧
      out.tupleCount = 3689348814741910323 ∧ mirrored.tupleCount = out.tupleCount ∧
      mirrored.attributes.Perm out.attributes ∧ ∀ n, mirrored.count? n = out.count? n := by
  have hd : ∀ n ∈ fullest.names, n ∉ couple.names := by decide
  have ha : "a" ∈ fullest.names := by decide
  have hb : "b" ∈ couple.names := by decide
  obtain ⟨out, mirrored, hjoin, hselect, hturned, hmirrored, htuples, hrest⟩ :=
    join_replaces_select (a := .named "a") (b := .named "b") hd ha hb
  have hout : out.tupleCount = 3689348814741910323 := by
    cases hjoin
    rfl
  exact ⟨hd, ha, hb, out, mirrored, hjoin, hselect, hturned, hmirrored, hout, htuples, hrest⟩

def pairs (l r : Relation) : Nat := l.tupleCount.toNat * r.tupleCount.toNat

def divisor (v w : Count) : Nat := max (max v.toNat w.toNat) 1

theorem clipped_div_eq_iff {n d bound : Nat} (hd : 0 < d) (hb : 0 < bound) :
    min n bound / d = min (n / d) bound ↔ n ≤ bound ∨ d = 1 ∨ n / d = bound / d := by
  have hn : n / d ≤ n := Nat.div_le_self n d
  have hle : bound / d ≤ bound := Nat.div_le_self bound d
  rcases Nat.lt_or_ge bound n with hover | hfits
  · rw [Nat.min_eq_right hover.le]
    have hmono : bound / d ≤ n / d := Nat.div_le_div_right hover.le
    rcases Nat.lt_or_ge 1 d with hone | hone
    -- the clipped quotient stays below the bound, so it cannot stand for a clipped result
    · have hless : bound / d < bound := Nat.div_lt_self hb hone
      omega
    · obtain rfl : d = 1 := by omega
      simp only [Nat.div_one, Nat.min_eq_right hover.le, true_or, or_true]
  · rw [Nat.min_eq_left hfits, Nat.min_eq_left (hn.trans hfits)]
    simp only [hfits, true_or]

/-- A join is expected to have the exact number of tuples while the pairs of its operands fit into a
word, and otherwise what is left of the largest word. That is the exact number, clipped, only where
the clipped pairs leave no smaller quotient. -/
theorem join_exact_iff (hv : l.count? a.name = some v) (hw : r.count? b.name = some w) :
    ∃ out, join l r (.join a b) = .ok out ∧
      (pairs l r < UInt64.size → out.tupleCount.toNat = pairs l r / divisor v w) ∧
      (UInt64.size ≤ pairs l r → out.tupleCount.toNat = (UInt64.size - 1) / divisor v w) ∧
      (out.tupleCount.toNat = min (pairs l r / divisor v w) (UInt64.size - 1) ↔
        pairs l r < UInt64.size ∨ divisor v w = 1 ∨
          pairs l r / divisor v w = (UInt64.size - 1) / divisor v w) := by
  refine ⟨_, join_of_counts hv hw, ?_⟩
  have htuples : (l.tupleCount.product r.tupleCount / v.atLeastOne.larger w.atLeastOne).toNat =
      min (pairs l r) (UInt64.size - 1) / divisor v w := by
    rw [UInt64.toNat_div, Count.toNat_product, Count.toNat_divisor, pairs, divisor]
  have hd : 0 < divisor v w := Nat.le_max_right ..
  have hb : 0 < UInt64.size - 1 := by decide
  dsimp only
  rw [htuples]
  refine ⟨fun h => ?_, fun h => ?_, ?_⟩
  · rw [Nat.min_eq_left (Nat.le_sub_one_of_lt h)]
  · rw [Nat.min_eq_right ((Nat.sub_le _ _).trans h)]
  · rw [clipped_div_eq_iff hd hb]
    apply or_congr_left
    exact Nat.le_sub_one_iff_lt (by decide)

def keyed (column : String) : Relation := ⟨8589934592, [⟨column, 8589934592⟩]⟩

theorem join_exact_iff_sample : ∃ out,
    (keyed "a").count? "a" = some 8589934592 ∧ (keyed "b").count? "b" = some 8589934592 ∧
      UInt64.size ≤ pairs (keyed "a") (keyed "b") ∧
      join (keyed "a") (keyed "b") (.join (.named "a") (.named "b")) = .ok out ∧
      out.tupleCount.toNat = (UInt64.size - 1) / divisor 8589934592 8589934592 := by
  have hv : (keyed "a").count? "a" = some 8589934592 := rfl
  have hw : (keyed "b").count? "b" = some 8589934592 := rfl
  have hover : UInt64.size ≤ pairs (keyed "a") (keyed "b") := by decide
  obtain ⟨out, hjoin, -, hclipped, -⟩ :=
    join_exact_iff (a := .named "a") (b := .named "b") hv hw
  exact ⟨out, hv, hw, hover, hjoin, hclipped hover⟩

/-- Each tuple has one partner, and a quarter of the tuples is expected. -/
theorem join_inexact : ∃ out,
    join (keyed "a") (keyed "b") (.join (.named "a") (.named "b")) = .ok out ∧
      pairs (keyed "a") (keyed "b") / divisor 8589934592 8589934592 = 8589934592 ∧
      8589934592 ≤ UInt64.size - 1 ∧ out.tupleCount.toNat = 2147483647 :=
  ⟨_, rfl, by decide, by decide, by decide⟩

end Estimate

namespace Relation
variable {r : Relation} {s t : Finset String}

def spread (r : Relation) (n : String) : Nat := max (((r.count? n).map (·.toNat)).getD 1) 1

/-- The tuples that agree with one literal for each of the named attributes. -/
def pinned (r : Relation) (names : Finset String) : Relation :=
  ⟨.clip (r.tupleCount.toNat / ∏ n ∈ names, r.spread n), r.recount (fun a => a.name ∈ names) 1⟩

theorem toNat_pinned (r : Relation) (s : Finset String) :
    (r.pinned s).tupleCount.toNat = r.tupleCount.toNat / ∏ n ∈ s, r.spread n := by
  have hle : r.tupleCount.toNat / ∏ n ∈ s, r.spread n ≤ r.tupleCount.toNat := Nat.div_le_self ..
  have hlt : r.tupleCount.toNat < UInt64.size := UInt64.toNat_lt_size _
  rw [pinned, Count.toNat_clip]
  omega

theorem names_pinned (r : Relation) (s : Finset String) : (r.pinned s).names = r.names :=
  r.names_recount _ _

theorem spread_pinned (r : Relation) (s : Finset String) (n : String) :
    (r.pinned s).spread n = if n ∈ s then 1 else r.spread n := by
  rw [spread, pinned, count?_recount, spread]
  cases r.count? n with
  | none => simp
  | some v => by_cases hn : n ∈ s <;> simp [hn]

theorem pinned_empty (r : Relation) : r.pinned ∅ = r := by
  have hnone : r.recount (fun a => a.name ∈ (∅ : Finset String)) 1 = r.attributes := by
    simp [recount]
  rw [pinned, Finset.prod_empty, Nat.div_one, Count.clip_toNat, hnone]

theorem pinned_pinned (r : Relation) (s t : Finset String) :
    (r.pinned s).pinned t = r.pinned (s ∪ t) := by
  have hprod : ∏ n ∈ s ∪ t, r.spread n =
      (∏ n ∈ s, r.spread n) * ∏ n ∈ t, (r.pinned s).spread n := by
    rw [← Finset.union_sdiff_self_eq_union, Finset.prod_union Finset.disjoint_sdiff,
      Finset.sdiff_eq_filter, Finset.prod_filter]
    simp only [spread_pinned, ite_not]
  have hattributes : (r.pinned s).recount (fun a => a.name ∈ t) 1 =
      r.recount (fun a => a.name ∈ s ∪ t) 1 := by
    rw [recount, pinned, recount, List.map_map, recount]
    apply List.map_congr_left
    intro a _
    by_cases hs : a.name ∈ s <;> by_cases ht : a.name ∈ t <;> simp [hs, ht]
  rw [pinned, hattributes, toNat_pinned, Nat.div_div_eq_div_mul, ← hprod]
  rfl

end Relation

namespace Estimate
variable {r : Relation} {ps qs : List Predicate}

theorem select_value {p : Predicate} (hv : p.isValue = true) (hm : p.left.name ∈ r.names) :
    select r p = .ok (r.pinned {p.left.name}) := by
  cases p with
  | join a b => cases hv
  | value a literal =>
    obtain ⟨v, hc, hr⟩ : ∃ v, r.count? a.name = some v ∧ r.resolve a = .ok ⟨a.name, v⟩ :=
      Relation.resolve_of_mem hm
    have htuples : r.tupleCount / v.atLeastOne = (r.pinned {a.name}).tupleCount := by
      apply UInt64.toNat_inj.mp
      rw [Relation.toNat_pinned, Finset.prod_singleton, UInt64.toNat_div, Count.toNat_atLeastOne,
        Relation.spread, hc]
      rfl
    have hattributes : r.recount (·.same ⟨a.name, v⟩) 1 = (r.pinned {a.name}).attributes := by
      apply Relation.recount_congr
      intro c _
      show (c.name == a.name) = decide (c.name ∈ ({a.name} : Finset String))
      rw [beq_eq_decide]
      simp only [Finset.mem_singleton]
    rw [select, hr, ok_bind]
    show Except.ok _ = Except.ok (r.pinned {a.name})
    rw [htuples, hattributes]

/-- Comparisons one after another pin the attributes that they name, each once. -/
theorem foldlM_select (hv : ∀ p ∈ ps, p.isValue = true) (hm : ∀ p ∈ ps, p.left.name ∈ r.names) :
    ps.foldlM select r = .ok (r.pinned (ps.map (·.left.name)).toFinset) := by
  induction ps generalizing r with
  | nil => exact congrArg Except.ok r.pinned_empty.symm
  | cons p ps ih =>
    rw [List.forall_mem_cons] at hv hm
    have hrest : ∀ q ∈ ps, q.left.name ∈ (r.pinned {p.left.name}).names := by
      rw [Relation.names_pinned]
      exact hm.2
    rw [List.foldlM_cons, select_value hv.1 hm.1, ok_bind, ih hv.2 hrest, Relation.pinned_pinned,
      List.map_cons, List.toFinset_cons, Finset.insert_eq]

/-- Comparisons of attributes with literals have one estimate, in whatever order they are made. -/
theorem foldlM_select_perm (h : ps.Perm qs) (hv : ∀ p ∈ ps, p.isValue = true)
    (hm : ∀ p ∈ ps, p.left.name ∈ r.names) : ∃ out,
      ps.foldlM select r = .ok out ∧ qs.foldlM select r = .ok out ∧
        out = r.pinned (ps.map (·.left.name)).toFinset := by
  have hnames : (qs.map (·.left.name)).toFinset = (ps.map (·.left.name)).toFinset :=
    List.toFinset_eq_of_perm _ _ (h.symm.map _)
  have hvalues : ∀ p ∈ qs, p.isValue = true := fun p hp => hv p (h.mem_iff.mpr hp)
  have hcarried : ∀ p ∈ qs, p.left.name ∈ r.names := fun p hp => hm p (h.mem_iff.mpr hp)
  refine ⟨_, foldlM_select hv hm, ?_, rfl⟩
  rw [foldlM_select hvalues hcarried, hnames]

def wide : Relation := ⟨1000, [⟨"a", 7⟩, ⟨"b", 11⟩]⟩

def comparisons : List Predicate :=
  [.value (.named "a") "1", .value (.named "b") "2", .value (.named "a") "3"]

theorem foldlM_select_perm_sample : ∃ out, (∀ p ∈ comparisons, p.left.name ∈ wide.names) ∧
    comparisons.foldlM select wide = .ok out ∧ comparisons.reverse.foldlM select wide = .ok out ∧
      out = ⟨12, [⟨"a", 1⟩, ⟨"b", 1⟩]⟩ := by
  have hvalues : ∀ p ∈ comparisons, p.isValue = true := by decide
  have hcarried : ∀ p ∈ comparisons, p.left.name ∈ wide.names := by decide
  obtain ⟨out, hforth, hback, -⟩ :=
    foldlM_select_perm comparisons.reverse_perm.symm hvalues hcarried
  have hout : out = ⟨12, [⟨"a", 1⟩, ⟨"b", 1⟩]⟩ := by
    cases hforth
    rfl
  exact ⟨out, hcarried, hforth, hback, hout⟩

end Estimate
end QueryPlan
