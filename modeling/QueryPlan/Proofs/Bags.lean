import QueryPlan.Proofs.Nodes

/-! Rows and bags of rows. A bag is looked at through a list of predicates and a set of names: the
rows that satisfy the predicates, as far as the names go. A plan that has yet to apply a predicate,
or has dropped a name that nobody reads, is compared with another through such a view. -/

namespace QueryPlan

abbrev Row (V : Type) := String → Option V

variable {V : Type}

namespace Row

def empty : Row V := fun _ => none

def of (values : List (String × V)) : Row V := fun n => values.lookup n

def merge (a b : Row V) : Row V := fun n => (a n).or (b n)

def restrict (names : List String) (a : Row V) : Row V := fun n => if n ∈ names then a n else none

theorem isSome_of {values : List (String × V)} {n : String} :
    (of values n).isSome ↔ n ∈ values.map (·.1) := by
  rw [of, List.lookup_isSome_iff, List.mem_map]
  exact exists_congr fun e => and_congr_right fun _ => beq_iff_eq.trans eq_comm

theorem merge_assoc (a b c : Row V) : (a.merge b).merge c = a.merge (b.merge c) := by
  funext n
  exact Option.or_assoc

theorem merge_empty (a : Row V) : a.merge empty = a := by
  funext n
  exact Option.or_none

theorem merge_comm {a b : Row V} (h : ∀ n, a n = none ∨ b n = none) : a.merge b = b.merge a := by
  funext n
  unfold merge
  rcases h n with h | h
  · rw [h, Option.none_or, Option.or_none]
  · rw [h, Option.none_or, Option.or_none]

theorem merge_of_right {a b : Row V} {n : String} (h : b n = none) : a.merge b n = a n := by
  rw [merge, h, Option.or_none]

theorem merge_eq_none {a b : Row V} {n : String} : a.merge b n = none ↔ a n = none ∧ b n = none :=
  Option.or_eq_none_iff

theorem restrict_of_mem {names : List String} {n : String} (h : n ∈ names) (a : Row V) :
    a.restrict names n = a n := if_pos h

theorem restrict_of_not_mem {names : List String} {n : String} (h : n ∉ names) (a : Row V) :
    a.restrict names n = none := if_neg h

end Row

namespace Predicate

def Holds (literal : String → V) (row : Row V) : Predicate → Prop
  | value l v => row l.name = some (literal v)
  | join l r => (row l.name).isSome ∧ row l.name = row r.name

instance [DecidableEq V] (literal : String → V) (row : Row V) :
    DecidablePred (Holds literal row)
  | value l v => inferInstanceAs (Decidable (row l.name = some (literal v)))
  | join l r => inferInstanceAs (Decidable ((row l.name).isSome ∧ row l.name = row r.name))

variable {literal : String → V} {row row' : Row V} {p : Predicate}

theorem holds_congr (h : ∀ a ∈ p.attributes, row a.name = row' a.name) :
    p.Holds literal row ↔ p.Holds literal row' := by
  cases p with
  | value l v => rw [Holds, Holds, h l List.mem_cons_self]
  | join l r =>
    rw [Holds, Holds, h l List.mem_cons_self, h r (List.mem_cons_of_mem _ List.mem_cons_self)]

end Predicate

abbrev Bag (V : Type) := Multiset (Row V)

namespace Bag

def times (A B : Bag V) : Bag V := A.bind fun a => B.map a.merge

variable {A B C : Bag V}

theorem mem_times {x : Row V} : x ∈ A.times B ↔ ∃ a ∈ A, ∃ b ∈ B, a.merge b = x := by
  simp only [times, Multiset.mem_bind, Multiset.mem_map]

theorem times_assoc (A B C : Bag V) : (A.times B).times C = A.times (B.times C) := by
  unfold times
  rw [Multiset.bind_assoc]
  refine Multiset.bind_congr fun a _ => ?_
  rw [Multiset.bind_map, Multiset.map_bind]
  refine Multiset.bind_congr fun b _ => ?_
  rw [Multiset.map_map]
  exact Multiset.map_congr rfl fun c _ => Row.merge_assoc a b c

theorem times_unit (A : Bag V) : A.times {Row.empty} = A := by
  unfold times
  simp only [Multiset.map_singleton, Row.merge_empty]
  exact (Multiset.bind_singleton A id).trans (Multiset.map_id A)

/-- No row of either bag has a value under a name of the other. -/
def Apart (A B : Bag V) : Prop := ∀ a ∈ A, ∀ b ∈ B, ∀ n, a n = none ∨ b n = none

theorem times_comm (h : A.Apart B) : A.times B = B.times A := by
  unfold times
  rw [Multiset.bind_map_comm]
  refine Multiset.bind_congr fun b hb => ?_
  exact Multiset.map_congr rfl fun a ha => Row.merge_comm (h a ha b hb)

theorem times_left_comm (h : A.Apart B) (C : Bag V) :
    A.times (B.times C) = B.times (A.times C) := by
  rw [← times_assoc, times_comm h, times_assoc]

theorem filter_times {q : Row V → Prop} [DecidablePred q]
    (h : ∀ a ∈ A, ∀ b ∈ B, q (a.merge b) ↔ q a) :
    (A.times B).filter q = Bag.times (A.filter q) B := by
  unfold times
  rw [Multiset.filter_bind, Multiset.bind_filter]
  refine Multiset.bind_congr fun a ha => ?_
  rw [Multiset.filter_map]
  split
  · next hq =>
    congr 1
    exact Multiset.filter_eq_self.mpr fun b hb => (h a ha b hb).mpr hq
  · next hq =>
    have hnil : B.filter (q ∘ a.merge) = 0 :=
      Multiset.filter_eq_nil.mpr fun b hb hm => hq ((h a ha b hb).mp hm)
    rw [hnil, Multiset.map_zero]

theorem eq_none_of_mem_restrict {names : List String} {n : String} {x : Row V}
    (hx : x ∈ Bag.times (A.map (Row.restrict names)) B) (hn : n ∉ names)
    (hB : ∀ b ∈ B, b n = none) : x n = none := by
  obtain ⟨a, ha, b, hb, rfl⟩ := mem_times.mp hx
  obtain ⟨a, -, rfl⟩ := Multiset.mem_map.mp ha
  exact Row.merge_eq_none.mpr ⟨Row.restrict_of_not_mem hn a, hB b hb⟩

theorem map_times (f : Row V → Row V) :
    Bag.times (A.map f) B = A.bind fun a => B.map (f a).merge :=
  Multiset.bind_map A _ f

section View
variable [DecidableEq V] {literal : String → V} {watched watched' : String → Prop}
  {ps qs : List Predicate} {p : Predicate}

/-- The rows that satisfy the predicates, with the values under watched names only. -/
def view (literal : String → V) (watched : String → Prop) (ps : List Predicate) (A : Bag V) :
    Multiset ({n // watched n} → Option V) :=
  (A.filter fun row => ∀ p ∈ ps, p.Holds literal row).map fun row n => row n

theorem view_perm (h : ps.Perm qs) (A : Bag V) :
    view literal watched ps A = view literal watched qs A := by
  unfold view
  congr 1
  exact Multiset.filter_congr fun row _ => forall_congr' fun p => by rw [h.mem_iff]

theorem view_cons (p : Predicate) (ps : List Predicate) (A : Bag V) :
    view literal watched (p :: ps) A =
      view literal watched ps (A.filter fun row => p.Holds literal row) := by
  unfold view
  rw [Multiset.filter_filter]
  congr 1
  refine Multiset.filter_congr fun row _ => ?_
  rw [List.forall_mem_cons]
  exact and_comm

theorem view_bind {β : Type} (C : Multiset β) (f : β → Bag V) :
    view literal watched ps (C.bind f) = C.bind fun x => view literal watched ps (f x) := by
  unfold view
  rw [Multiset.filter_bind, Multiset.map_bind]

theorem view_map_congr {β : Type} {C : Multiset β} {f g : β → Row V}
    (h : ∀ x ∈ C, ∀ n, watched n ∨ n ∈ Predicate.reads ps → f x n = g x n) :
    view literal watched ps (C.map f) = view literal watched ps (C.map g) := by
  unfold view
  rw [Multiset.filter_map, Multiset.filter_map, Multiset.map_map, Multiset.map_map]
  have hfilter : C.filter ((fun row => ∀ p ∈ ps, p.Holds literal row) ∘ f) =
      C.filter ((fun row => ∀ p ∈ ps, p.Holds literal row) ∘ g) := by
    refine Multiset.filter_congr fun x hx => forall₂_congr fun p hp => ?_
    refine Predicate.holds_congr fun a ha => h x hx _ (.inr ?_)
    exact Predicate.mem_reads.mpr ⟨p, hp, a, ha, rfl⟩
  rw [hfilter]
  refine Multiset.map_congr rfl fun x hx => ?_
  funext n
  exact h x (Multiset.mem_of_mem_filter hx) n (.inl n.2)

theorem view_restrict {names : List String} (h : ∀ a ∈ A, ∀ n,
      watched n ∨ n ∈ Predicate.reads ps → n ∉ names → a n = none) (B : Bag V) :
    view literal watched ps (Bag.times (A.map (Row.restrict names)) B) =
      view literal watched ps (A.times B) := by
  rw [map_times, view_bind, times, view_bind]
  refine Multiset.bind_congr fun a ha => view_map_congr fun b _ n hn => ?_
  by_cases hm : n ∈ names
  · rw [Row.merge, Row.merge, Row.restrict_of_mem hm]
  · rw [Row.merge, Row.merge, Row.restrict_of_not_mem hm, h a ha n hn hm]

/-- Views with fewer names tell all when the other watched names have no values. -/
theorem view_extend (h : view literal watched' ps A = view literal watched' qs B)
    (hA : ∀ a ∈ A, ∀ n, watched n → ¬ watched' n → a n = none)
    (hB : ∀ b ∈ B, ∀ n, watched n → ¬ watched' n → b n = none) :
    view literal watched ps A = view literal watched qs B := by
  classical
  have hextend : ∀ {rs : List Predicate} {C : Bag V},
      (∀ x ∈ C, ∀ n, watched n → ¬ watched' n → x n = none) → view literal watched rs C =
        (view literal watched' rs C).map fun g (n : {n // watched n}) =>
          if hn : watched' n then g ⟨n, hn⟩ else none := by
    intro rs C hC
    unfold view
    rw [Multiset.map_map]
    -- what the smaller view leaves out was none
    refine Multiset.map_congr rfl fun x hx => ?_
    funext n
    dsimp only [Function.comp_apply]
    split
    · rfl
    · next hn => exact hC x (Multiset.mem_of_mem_filter hx) n n.2 hn
  rw [hextend hA, hextend hB, h]

theorem eq_of_view (h : view literal (fun _ => True) [] A = view literal (fun _ => True) [] B) :
    A = B := by
  have hview : ∀ C : Bag V,
      (view literal (fun _ => True) [] C).map (fun g n => g ⟨n, trivial⟩) = C := by
    intro C
    unfold view
    rw [Multiset.map_map, Multiset.filter_eq_self.mpr fun _ _ => List.forall_mem_nil _]
    exact Multiset.map_id C
  rw [← hview A, h, hview B]

end View
end Bag
end QueryPlan
