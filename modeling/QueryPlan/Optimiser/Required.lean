/-! Reference counts of the attributes that an unapplied predicate or an open projection still
needs. Each name has one entry, and a name whose count falls to zero is forgotten: the type keeps
this. -/

namespace QueryPlan

structure Required where
  counts : List (String × Nat)
  names_nodup : (counts.map (·.1)).Nodup
  count_pos : ∀ e ∈ counts, 0 < e.2

namespace Required

def empty : Required := ⟨[], by simp, by simp⟩

def increment (name : String) : List (String × Nat) → List (String × Nat)
  | [] => [(name, 1)]
  | (m, k) :: rest => if m = name then (m, k + 1) :: rest else (m, k) :: increment name rest

def decrement (name : String) : List (String × Nat) → List (String × Nat)
  | [] => []
  | (m, k) :: rest =>
    if m = name then if k ≤ 1 then rest else (m, k - 1) :: rest
    else (m, k) :: decrement name rest

theorem mem_increment_names {name m : String} {cs : List (String × Nat)} :
    m ∈ (increment name cs).map (·.1) ↔ m = name ∨ m ∈ cs.map (·.1) := by
  induction cs with
  | nil => simp [increment]
  | cons e rest ih =>
    obtain ⟨n, k⟩ := e
    rw [increment]
    split
    · next h =>
      subst h
      simp
    · rw [List.map_cons, List.mem_cons, ih, List.map_cons, List.mem_cons]
      exact or_left_comm

theorem increment_names_nodup {name : String} {cs : List (String × Nat)}
    (h : (cs.map (·.1)).Nodup) : ((increment name cs).map (·.1)).Nodup := by
  induction cs with
  | nil => simp [increment]
  | cons e rest ih =>
    obtain ⟨n, k⟩ := e
    rw [List.map_cons, List.nodup_cons] at h
    rw [increment]
    split
    · exact List.nodup_cons.mpr h
    · next hn =>
      refine List.nodup_cons.mpr ⟨fun hm => ?_, ih h.2⟩
      exact (mem_increment_names.mp hm).elim hn h.1

theorem increment_pos {name : String} {cs : List (String × Nat)} (h : ∀ e ∈ cs, 0 < e.2) :
    ∀ e ∈ increment name cs, 0 < e.2 := by
  induction cs with
  | nil => simp [increment]
  | cons e rest ih =>
    rw [List.forall_mem_cons] at h
    rw [increment]
    split
    · exact List.forall_mem_cons.mpr ⟨Nat.succ_pos _, h.2⟩
    · exact List.forall_mem_cons.mpr ⟨h.1, ih h.2⟩

theorem decrement_names_sublist (name : String) (cs : List (String × Nat)) :
    ((decrement name cs).map (·.1)).Sublist (cs.map (·.1)) := by
  induction cs with
  | nil => exact List.Sublist.refl _
  | cons e rest ih =>
    rw [decrement]
    split
    · split
      · exact List.sublist_cons_self _ _
      · exact List.Sublist.refl _
    · exact ih.cons_cons _

theorem decrement_pos {name : String} {cs : List (String × Nat)} (h : ∀ e ∈ cs, 0 < e.2) :
    ∀ e ∈ decrement name cs, 0 < e.2 := by
  induction cs with
  | nil => simp [decrement]
  | cons e rest ih =>
    rw [List.forall_mem_cons] at h
    rw [decrement]
    split
    · split
      · exact h.2
      · exact List.forall_mem_cons.mpr ⟨by omega, h.2⟩
    · exact List.forall_mem_cons.mpr ⟨h.1, ih h.2⟩

def acquire (r : Required) (name : String) : Required :=
  ⟨increment name r.counts, increment_names_nodup r.names_nodup, increment_pos r.count_pos⟩

/-- Gives one reference back; without a reference nothing changes. -/
def release (r : Required) (name : String) : Required :=
  ⟨decrement name r.counts, r.names_nodup.sublist (decrement_names_sublist name r.counts),
    decrement_pos r.count_pos⟩

def count (r : Required) (name : String) : Nat := (r.counts.lookup name).getD 0

def contains (r : Required) (name : String) : Bool := 0 < r.count name

def isEmpty (r : Required) : Bool := r.counts.isEmpty

end Required
end QueryPlan
