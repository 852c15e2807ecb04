import QueryPlan.Optimiser
import QueryPlan.Proofs.Nodes

/-! What the reference counts stand for. A run is accounted for when each name is counted once for
every mention by a predicate that waits and once for every mention by an open projection; a name
is then required exactly when something mentions it. -/

namespace QueryPlan
namespace Required
variable {r : Required} {n m : String}

theorem lookup_cons_ne {k v : _} (h : m ≠ k) (cs : List (String × Nat)) :
    ((k, v) :: cs).lookup m = cs.lookup m := by
  rw [List.lookup_cons, beq_false_of_ne h]

theorem lookup_eq_none {cs : List (String × Nat)} (h : m ∉ cs.map (·.1)) : cs.lookup m = none := by
  rw [List.lookup_eq_none_iff]
  intro e he
  exact bne_iff_ne.mpr fun hm => h (List.mem_map.mpr ⟨e, he, hm.symm⟩)

theorem lookup_increment (n m : String) (cs : List (String × Nat)) :
    ((increment n cs).lookup m).getD 0 = (cs.lookup m).getD 0 + if m = n then 1 else 0 := by
  induction cs with
  | nil =>
    by_cases h : m = n
    · subst h
      simp [increment]
    · rw [increment, lookup_cons_ne h, if_neg h]
      rfl
  | cons e rest ih =>
    obtain ⟨k, v⟩ := e
    rw [increment]
    by_cases hm : m = k
    · subst hm
      split <;> simp_all [eq_comm]
    · rw [lookup_cons_ne hm]
      split
      · next hk => rw [lookup_cons_ne hm, if_neg (hk ▸ hm), Nat.add_zero]
      · rw [lookup_cons_ne hm, ih]

theorem lookup_decrement (n m : String) {cs : List (String × Nat)} (hd : (cs.map (·.1)).Nodup) :
    ((decrement n cs).lookup m).getD 0 = (cs.lookup m).getD 0 - if m = n then 1 else 0 := by
  induction cs with
  | nil => simp [decrement]
  | cons e rest ih =>
    obtain ⟨k, v⟩ := e
    rw [List.map_cons, List.nodup_cons] at hd
    rw [decrement]
    by_cases hm : m = k
    · subst hm
      by_cases hk : m = n
      · rw [if_pos hk, if_pos hk, List.lookup_cons_self, Option.getD_some]
        split
        · rw [lookup_eq_none hd.1, Option.getD_none]
          omega
        · rw [List.lookup_cons_self, Option.getD_some]
      · rw [if_neg hk, if_neg hk, List.lookup_cons_self, List.lookup_cons_self, Nat.sub_zero]
    · rw [lookup_cons_ne hm]
      by_cases hk : k = n
      · have hn : m ≠ n := hk ▸ hm
        rw [if_pos hk, if_neg hn, Nat.sub_zero]
        split
        · rfl
        · rw [lookup_cons_ne hm]
      · rw [if_neg hk, lookup_cons_ne hm, ih hd.2]

@[simp] theorem count_empty (m : String) : empty.count m = 0 := rfl

theorem count_acquire (r : Required) (n m : String) :
    (r.acquire n).count m = r.count m + if m = n then 1 else 0 := lookup_increment n m r.counts

theorem count_release (r : Required) (n m : String) :
    (r.release n).count m = r.count m - if m = n then 1 else 0 :=
  lookup_decrement n m r.names_nodup

theorem count_acquireAll (as : List Attribute) (r : Required) (m : String) :
    (as.foldl (fun r a => r.acquire a.name) r).count m = r.count m + (as.map (·.name)).count m := by
  induction as generalizing r with
  | nil => simp
  | cons a as ih =>
    rw [List.foldl_cons, ih, count_acquire, List.map_cons, List.count_cons]
    simp only [beq_iff_eq, eq_comm (a := a.name)]
    omega

theorem count_releaseAll (as : List Attribute) (r : Required) (m : String) :
    (as.foldl (fun r a => r.release a.name) r).count m = r.count m - (as.map (·.name)).count m := by
  induction as generalizing r with
  | nil => simp
  | cons a as ih =>
    rw [List.foldl_cons, ih, count_release, List.map_cons, List.count_cons]
    simp only [beq_iff_eq, eq_comm (a := a.name)]
    omega

theorem contains_iff : r.contains n = true ↔ 0 < r.count n := by simp [contains]

theorem eq_empty (h : ∀ n, r.count n = 0) : r = .empty := by
  obtain ⟨counts, hnodup, hpos⟩ := r
  cases counts with
  | nil => rfl
  | cons e rest =>
    have hzero : (List.lookup e.1 (e :: rest)).getD 0 = 0 := h e.1
    rw [List.lookup_cons_self, Option.getD_some] at hzero
    have hcount := hpos e List.mem_cons_self
    omega

end Required

namespace Pass

def pending (pass : Pass) : List Predicate := pass.values ++ pass.joins

/-- The state of a run below the projections that list the attributes `opened`. -/
structure Accounted (opened : List Attribute) (pass : Pass) : Prop where
  isValue_of_mem_values : ∀ p ∈ pass.values, p.isValue = true
  isValue_of_mem_joins : ∀ p ∈ pass.joins, p.isValue = false
  narrowing_iff : pass.narrowing = true ↔ opened ≠ []
  count_eq : ∀ n, pass.required.count n =
    (Predicate.reads pass.pending).count n + (opened.map (·.name)).count n

variable {pass : Pass} {opened listed : List Attribute} {p q : Predicate} {xs ys : List Predicate}

theorem accounted_initial : Accounted [] .initial :=
  ⟨by simp [initial], by simp [initial], by simp [initial], fun n => by simp [initial, pending]⟩

theorem Accounted.contains_iff (h : pass.Accounted opened) {n : String} :
    pass.required.contains n = true ↔
      n ∈ Predicate.reads pass.pending ∨ n ∈ opened.map (·.name) := by
  rw [Required.contains_iff, h.count_eq, Nat.add_pos_iff_pos_or_pos, List.count_pos_iff,
    List.count_pos_iff]

theorem pending_values (h : pass.values = xs ++ p :: ys) :
    pass.pending.Perm (p :: ((xs ++ ys) ++ pass.joins)) := by
  rw [pending, h]
  exact List.perm_middle.append_right _

theorem pending_joins (h : pass.joins = xs ++ p :: ys) :
    pass.pending.Perm (p :: (pass.values ++ (xs ++ ys))) := by
  rw [pending, h]
  exact (List.perm_middle.append_left _).trans List.perm_middle

theorem pending_defer (pass : Pass) (p : Predicate) :
    (pass.defer p).pending.Perm (p :: pass.pending) := by
  unfold defer pending
  split
  · rw [List.append_assoc]
    exact List.perm_middle
  · rw [← List.append_assoc]
    exact List.perm_append_singleton p (pass.values ++ pass.joins)

theorem narrowing_defer (pass : Pass) (p : Predicate) :
    (pass.defer p).narrowing = pass.narrowing := by
  unfold defer
  split <;> rfl

theorem required_defer (pass : Pass) (p : Predicate) :
    (pass.defer p).required = (pass.acquire p.attributes).required := by
  unfold defer
  split <;> rfl

theorem Accounted.defer (h : pass.Accounted opened) (p : Predicate) :
    (pass.defer p).Accounted opened where
  isValue_of_mem_values q hq := by
    unfold Pass.defer at hq
    split at hq
    · next hp =>
      rcases List.mem_append.mp hq with hq | hq
      · exact h.isValue_of_mem_values q hq
      · exact List.mem_singleton.mp hq ▸ hp
    · exact h.isValue_of_mem_values q hq
  isValue_of_mem_joins q hq := by
    unfold Pass.defer at hq
    split at hq
    · exact h.isValue_of_mem_joins q hq
    · next hp =>
      rcases List.mem_append.mp hq with hq | hq
      · exact h.isValue_of_mem_joins q hq
      · exact List.mem_singleton.mp hq ▸ Bool.eq_false_iff.mpr hp
  narrowing_iff := by rw [narrowing_defer]; exact h.narrowing_iff
  count_eq n := by
    rw [required_defer, (Predicate.reads_perm (pending_defer pass p)).count_eq,
      Predicate.reads_cons, List.count_append, acquire, Required.count_acquireAll, h.count_eq]
    omega

theorem Accounted.acquireListed (h : pass.Accounted opened) (hl : listed ≠ []) :
    ({ pass.acquire listed with narrowing := true } : Pass).Accounted (opened ++ listed) where
  isValue_of_mem_values := h.isValue_of_mem_values
  isValue_of_mem_joins := h.isValue_of_mem_joins
  narrowing_iff := by simp [hl]
  count_eq n := by
    rw [List.map_append, List.count_append, ← Nat.add_assoc]
    exact (Required.count_acquireAll listed pass.required n).trans
      (congrArg (· + _) (h.count_eq n))

theorem Accounted.releaseListed (h : pass.Accounted (opened ++ listed)) {narrowing : Bool}
    (hn : narrowing = true ↔ opened ≠ []) :
    (({ pass with narrowing } : Pass).release listed).Accounted opened where
  isValue_of_mem_values := h.isValue_of_mem_values
  isValue_of_mem_joins := h.isValue_of_mem_joins
  narrowing_iff := hn
  count_eq n := by
    have hc := h.count_eq n
    rw [List.map_append, List.count_append] at hc
    refine (Required.count_releaseAll listed pass.required n).trans ?_
    rw [hc]
    simp only [pending, release]
    omega

theorem Accounted.dropValue (h : pass.Accounted opened) (hp : pass.values = xs ++ p :: ys) :
    ({ pass.release [p.left] with values := xs ++ ys } : Pass).Accounted opened where
  isValue_of_mem_values q hq := h.isValue_of_mem_values q
    (hp ▸ List.mem_append.mpr ((List.mem_append.mp hq).imp_right (List.mem_cons_of_mem _)))
  isValue_of_mem_joins := h.isValue_of_mem_joins
  narrowing_iff := h.narrowing_iff
  count_eq n := by
    have hv : p.attributes = [p.left] :=
      Predicate.attributes_of_isValue (h.isValue_of_mem_values p (hp ▸ List.mem_append_cons_self))
    have hc := h.count_eq n
    simp only [pending, hp, Predicate.reads_append, Predicate.reads_cons, List.count_append,
      hv] at hc
    refine (Required.count_releaseAll [p.left] pass.required n).trans ?_
    rw [hc]
    simp only [pending, release, Predicate.reads_append, List.count_append]
    omega

theorem Accounted.dropJoin (h : pass.Accounted opened) (hp : pass.joins = xs ++ p :: ys)
    (hq : q.attributes.Perm p.attributes) :
    ({ pass.release q.attributes with joins := xs ++ ys } : Pass).Accounted opened where
  isValue_of_mem_values := h.isValue_of_mem_values
  isValue_of_mem_joins q hq := h.isValue_of_mem_joins q
    (hp ▸ List.mem_append.mpr ((List.mem_append.mp hq).imp_right (List.mem_cons_of_mem _)))
  narrowing_iff := h.narrowing_iff
  count_eq n := by
    have hc := h.count_eq n
    simp only [pending, hp, Predicate.reads_append, Predicate.reads_cons, List.count_append] at hc
    refine (Required.count_releaseAll q.attributes pass.required n).trans ?_
    rw [hc, (hq.map (·.name)).count_eq]
    simp only [pending, release, Predicate.reads_append, List.count_append]
    omega

end Pass
end QueryPlan
