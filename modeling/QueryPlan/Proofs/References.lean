import Mathlib.Data.Nat.PSub
import QueryPlan.Proofs.Accounts

/-! Reference counts over a history of acquisitions and releases, in any order and not always in
pairs. Each name is counted as if it were alone. A count of zero has no entry, so a release finds
either nothing or a count that can be lowered. -/

namespace QueryPlan
namespace Required

inductive Change
  | acquire (name : String)
  | release (name : String)

namespace Change

def name : Change → String
  | acquire name => name
  | release name => name

def apply (r : Required) : Change → Required
  | acquire name => r.acquire name
  | release name => r.release name

/-- A counter for one name alone: a release subtracts one, but not from zero. -/
def tally (k : Nat) : Change → Nat
  | acquire _ => k + 1
  | release _ => k - 1

end Change

def after (changes : List Change) : Required := changes.foldl Change.apply .empty

/-- Lowers the entry of the name and removes it when that leaves zero. An entry of zero cannot be
lowered, and then there is no result. -/
def lowered? (name : String) : List (String × Nat) → Option (List (String × Nat))
  | [] => some []
  | (m, k) :: rest =>
    if m = name then k.ppred.map fun left => if left = 0 then rest else (m, left) :: rest
    else (lowered? name rest).map fun rest => (m, k) :: rest

def Change.entries? (cs : List (String × Nat)) : Change → Option (List (String × Nat))
  | acquire name => some (increment name cs)
  | release name => lowered? name cs

variable {r : Required} {name : String} {k : Nat} {cs : List (String × Nat)}

theorem lookup_eq_some (h : (name, k) ∈ r.counts) : r.counts.lookup name = some k := by
  obtain ⟨before, rest, hsplit⟩ := List.append_of_mem h
  refine List.lookup_eq_some_iff.mpr ⟨before, rest, hsplit, fun e he => bne_iff_ne.mpr ?_⟩
  have hnodup := r.names_nodup
  rw [hsplit, List.map_append, List.map_cons, List.nodup_append] at hnodup
  exact (hnodup.2.2 e.1 (List.mem_map_of_mem he) name List.mem_cons_self).symm

theorem mem_counts_iff : (name, k) ∈ r.counts ↔ 0 < k ∧ r.count name = k := by
  constructor
  · intro h
    refine ⟨r.count_pos _ h, ?_⟩
    rw [count, lookup_eq_some h, Option.getD_some]
  · rintro ⟨hpos, hcount⟩
    rw [count] at hcount
    cases hl : r.counts.lookup name with
    | none =>
      rw [hl, Option.getD_none] at hcount
      omega
    | some l =>
      rw [hl, Option.getD_some] at hcount
      obtain ⟨before, rest, hsplit, -⟩ := List.lookup_eq_some_iff.mp hl
      rw [hsplit, hcount]
      exact List.mem_append_cons_self

theorem isEmpty_iff : r.isEmpty = true ↔ ∀ name, r.count name = 0 := by
  constructor
  · intro h name
    rw [count, List.isEmpty_iff.mp h]
    rfl
  · intro h
    rw [eq_empty h]
    rfl

theorem lowered?_eq (h : ∀ e ∈ cs, 0 < e.2) : lowered? name cs = some (decrement name cs) := by
  induction cs with
  | nil => rfl
  | cons e rest ih =>
    obtain ⟨m, k⟩ := e
    rw [List.forall_mem_cons] at h
    obtain ⟨hk, hrest⟩ := h
    obtain ⟨left, rfl⟩ := Nat.exists_eq_add_one.mpr hk
    rw [lowered?, decrement]
    split
    · simp [Nat.ppred_succ]
    · rw [ih hrest, Option.map_some]

theorem entries?_counts (c : Change) : c.entries? r.counts = some (c.apply r).counts := by
  cases c with
  | acquire => rfl
  | release => exact lowered?_eq r.count_pos

theorem count_apply (c : Change) : (c.apply r).count name =
    if c.name = name then c.tally (r.count name) else r.count name := by
  cases c with
  | acquire n =>
    rw [Change.apply, count_acquire]
    simp only [Change.name, Change.tally, eq_comm (a := n)]
    split <;> rfl
  | release n =>
    rw [Change.apply, count_release]
    simp only [Change.name, Change.tally, eq_comm (a := n)]
    split <;> rfl

theorem foldlM_entries? (changes : List Change) (r : Required) :
    changes.foldlM Change.entries? r.counts = some (changes.foldl Change.apply r).counts := by
  induction changes generalizing r with
  | nil => rfl
  | cons c changes ih =>
    rw [List.foldlM_cons, entries?_counts]
    exact ih _

theorem count_foldl (changes : List Change) (r : Required) :
    (changes.foldl Change.apply r).count name =
      (changes.filter (·.name = name)).foldl Change.tally (r.count name) := by
  induction changes generalizing r with
  | nil => rfl
  | cons c changes ih =>
    rw [List.foldl_cons, ih, count_apply]
    by_cases hc : c.name = name
    · rw [if_pos hc, List.filter_cons_of_pos (by simpa using hc), List.foldl_cons]
    · rw [if_neg hc, List.filter_cons_of_neg (by simpa using hc)]

theorem foldl_tally_le (changes : List Change) (k : Nat) :
    changes.foldl Change.tally k ≤ k + changes.length := by
  induction changes generalizing k with
  | nil => exact Nat.le_refl _
  | cons c changes ih =>
    have hstep : c.tally k ≤ k + 1 := by cases c <;> simp only [Change.tally] <;> omega
    have hrest := ih (c.tally k)
    rw [List.foldl_cons, List.length_cons]
    omega

theorem count_after_le (changes : List Change) (name : String) :
    (after changes).count name ≤ changes.length := by
  have hle := foldl_tally_le (changes.filter (·.name = name)) 0
  have hlength := List.length_filter_le (fun c : Change => decide (c.name = name)) changes
  rw [after, count_foldl, count_empty]
  omega

/-- After any history of calls, a name's count is what a counter of its own would hold. No call on
the bare entries meets a zero that it would have to lower, for the entries are those of the names
with a positive count; so a name is contained when its count is positive, and the counts are empty
when there is no such name. -/
theorem after_exact (changes : List Change) :
    changes.foldlM Change.entries? [] = some (after changes).counts ∧
      (∀ name, (after changes).count name = (changes.filter (·.name = name)).foldl Change.tally 0) ∧
      (∀ name k, (name, k) ∈ (after changes).counts ↔ 0 < k ∧ (after changes).count name = k) ∧
      (∀ name, (after changes).contains name = true ↔ 0 < (after changes).count name) ∧
      ((after changes).isEmpty = true ↔ ∀ name, (after changes).count name = 0) :=
  ⟨foldlM_entries? changes .empty, fun _ => count_foldl changes .empty, fun _ _ => mem_counts_iff,
    fun _ => contains_iff, isEmpty_iff⟩

example : (after [.acquire "a", .acquire "b", .release "a", .release "a", .acquire "a"]).counts =
    [("b", 1), ("a", 1)] := by decide

end Required
end QueryPlan
