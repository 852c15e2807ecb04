import QueryPlan.Proofs.Outcome
import QueryPlan.Query.Text

/-! Conditions of queries. A tree of conjunctions is read leaf by leaf, from left to right: each
equality of two operands gives a predicate, and the first leaf that is none is refused. So neither
the grouping of the conjunctions nor the parentheses around their parts change the query. -/

namespace QueryPlan
open Outcome

namespace Sql.Expression

def leaves : Expression → List Expression
  | nested e => e.leaves
  | binary l .and r => l.leaves ++ r.leaves
  | e => [e]

def unnested : Expression → Expression
  | nested e => e.unnested
  | e => e

/-- The same condition with its conjunctions grouped in another way, and with other parentheses
around conjunctions, equalities and the sides of equalities. -/
inductive Regrouped : Expression → Expression → Prop
  | refl (e : Expression) : Regrouped e e
  | symm {e f : Expression} (h : Regrouped e f) : Regrouped f e
  | trans {e f g : Expression} (h : Regrouped e f) (h' : Regrouped f g) : Regrouped e g
  | nested (e : Expression) : Regrouped (.nested e) e
  | assoc (e f g : Expression) :
      Regrouped (.binary (.binary e .and f) .and g) (.binary e .and (.binary f .and g))
  | and {l l' r r' : Expression} (hl : Regrouped l l') (hr : Regrouped r r') :
      Regrouped (.binary l .and r) (.binary l' .and r')
  | equal {l l' r r' : Expression} (hl : Regrouped l l') (hr : Regrouped r r') :
      Regrouped (.binary l .equal r) (.binary l' .equal r')

end Sql.Expression

theorem SourceError.ofQuery_eq_ok {α : Type} {x : Except QueryFault α} {a : α} :
    ofQuery x = .ok a ↔ x = .ok a := by
  cases x <;> simp [ofQuery]

namespace Query
open Sql
/-- What a plain or qualified identifier or a literal stands for, be it in parentheses or not. Of a
qualified identifier only the last part counts. -/
inductive Denotes : Expression → Operand → Prop
  | name (n : Name) : Denotes (.name n) (.attribute n.text)
  | qualified (qualifiers : List Name) (n : Name) :
      Denotes (.qualified (qualifiers ++ [n])) (.attribute n.text)
  | string (quote : Char) (s : String) : Denotes (.string quote s) (.literal s)
  | number (digits : String) (long : Bool) : Denotes (.number digits long) (.literal digits)
  | nested {e : Expression} {o : Operand} (h : Denotes e o) : Denotes (.nested e) o

inductive Compares : Expression → Predicate → Prop
  | attributes {l r : Expression} {a b : String} (hl : Denotes l (.attribute a))
      (hr : Denotes r (.attribute b)) : Compares (.binary l .equal r) (.join (.named a) (.named b))
  | literalRight {l r : Expression} {a v : String} (hl : Denotes l (.attribute a))
      (hr : Denotes r (.literal v)) : Compares (.binary l .equal r) (.value (.named a) v)
  | literalLeft {l r : Expression} {a v : String} (hl : Denotes l (.literal v))
      (hr : Denotes r (.attribute a)) : Compares (.binary l .equal r) (.value (.named a) v)

def IsComparison (e : Expression) : Prop :=
  ∃ l r o o', e = .binary l .equal r ∧ Denotes l o ∧ Denotes r o' ∧
    ¬ ∃ v w, o = .literal v ∧ o' = .literal w

/-- What is wrong with a leaf that is no comparison. Of two faulty sides the left one is blamed. -/
inductive Faulty : Expression → QueryFault → Prop
  | notAnEquality {e : Expression} (h : ∀ l r, e ≠ .binary l .equal r) :
      Faulty e (.notAnEquality e.text)
  | left {l r : Expression} (hl : ∀ o, ¬ Denotes l o) :
      Faulty (.binary l .equal r) (.notAnOperand l.unnested.text)
  | right {l r : Expression} {o : Operand} (hl : Denotes l o) (hr : ∀ o, ¬ Denotes r o) :
      Faulty (.binary l .equal r) (.notAnOperand r.unnested.text)
  | literals {l r : Expression} {v w : String} (hl : Denotes l (.literal v))
      (hr : Denotes r (.literal w)) :
      Faulty (.binary l .equal r) (.twoLiterals (Expression.binary l .equal r).text)

variable {e f l r : Expression} {o o' : Operand} {p : Predicate} {ps : List Predicate}
  {fault : QueryFault}

theorem denotes_nested : Denotes (.nested e) o ↔ Denotes e o := by
  constructor
  · intro h
    cases h with
    | nested h => exact h
  · exact .nested

theorem denotes_qualified {parts : List Name} :
    Denotes (.qualified parts) o ↔ ∃ n, parts.getLast? = some n ∧ .attribute n.text = o := by
  constructor
  · intro h
    cases h with
    | qualified qualifiers n => exact ⟨n, List.getLast?_concat, rfl⟩
  · rintro ⟨n, hn, rfl⟩
    obtain ⟨qualifiers, rfl⟩ := List.getLast?_eq_some_iff.mp hn
    exact .qualified qualifiers n

theorem operand_eq_ok : operand e = .ok o ↔ Denotes e o := by
  induction e with
  | nested e ih =>
    rw [operand, ih, denotes_nested]
  | name n =>
    have hread : operand (.name n) = .ok (.attribute n.text) := rfl
    rw [hread, Except.ok.injEq]
    exact ⟨fun h => h ▸ .name n, fun h => by cases h; rfl⟩
  | qualified parts =>
    rw [denotes_qualified]
    cases hlast : parts.getLast? <;> simp [operand, attribute?, hlast]
  | string quote s =>
    rw [operand, Except.ok.injEq]
    exact ⟨fun h => h ▸ .string quote s, fun h => by cases h; rfl⟩
  | number digits long =>
    rw [operand, Except.ok.injEq]
    exact ⟨fun h => h ▸ .number digits long, fun h => by cases h; rfl⟩
  | binary | subquery | other => exact ⟨fun h => (by cases h), fun h => (by cases h)⟩

theorem operand_error (h : operand e = .error fault) : fault = .notAnOperand e.unnested.text := by
  induction e with
  | nested e ih => exact ih h
  | qualified parts =>
    cases hlast : parts.getLast? with
    | none =>
      simp only [operand, attribute?, hlast, Option.map_none, Except.error.injEq] at h
      exact h.symm
    | some n => simp [operand, attribute?, hlast] at h
  | name | string | number => cases h
  | binary | subquery | other =>
    cases h
    rfl

theorem operand_eq_error :
    operand e = .error fault ↔ (∀ o, ¬ Denotes e o) ∧ fault = .notAnOperand e.unnested.text := by
  constructor
  · intro h
    refine ⟨fun o ho => ?_, operand_error h⟩
    rw [operand_eq_ok.mpr ho] at h
    cases h
  · rintro ⟨hnone, rfl⟩
    cases h : operand e with
    | ok o => exact absurd (operand_eq_ok.mp h) (hnone o)
    | error fault => rw [operand_error h]

def comparison : Expression → Except QueryFault Predicate
  | .binary l .equal r => do
    let left ← operand l
    let right ← operand r
    equality (Expression.binary l .equal r).text left right
  | e => .error (.notAnEquality e.text)

theorem comparison_of_ne (h : ∀ l r, e ≠ .binary l .equal r) :
    comparison e = .error (.notAnEquality e.text) := by
  unfold comparison
  split
  · next l r => exact absurd rfl (h l r)
  · rfl

theorem equality_eq_ok {shown : String} : equality shown o o' = .ok p ↔
    (∃ a b, o = .attribute a ∧ o' = .attribute b ∧ .join (.named a) (.named b) = p) ∨
      (∃ a v, o = .attribute a ∧ o' = .literal v ∧ .value (.named a) v = p) ∨
      ∃ a v, o = .literal v ∧ o' = .attribute a ∧ .value (.named a) v = p := by
  cases o <;> cases o' <;> simp [equality]

theorem equality_eq_error {shown : String} : equality shown o o' = .error fault ↔
    ∃ v w, o = .literal v ∧ o' = .literal w ∧ .twoLiterals shown = fault := by
  cases o <;> cases o' <;> simp [equality]

theorem comparison_eq_ok : comparison e = .ok p ↔ Compares e p := by
  constructor
  · intro h
    unfold comparison at h
    split at h
    · next l r =>
      obtain ⟨o, hl, h⟩ := bind_eq_ok.mp h
      obtain ⟨o', hr, h⟩ := bind_eq_ok.mp h
      have hl := operand_eq_ok.mp hl
      have hr := operand_eq_ok.mp hr
      rcases equality_eq_ok.mp h with ⟨a, b, rfl, rfl, rfl⟩ | ⟨a, v, rfl, rfl, rfl⟩ |
        ⟨a, v, rfl, rfl, rfl⟩
      · exact .attributes hl hr
      · exact .literalRight hl hr
      · exact .literalLeft hl hr
    · cases h
  · intro h
    cases h with
    | attributes hl hr | literalRight hl hr | literalLeft hl hr =>
      have hl := operand_eq_ok.mpr hl
      have hr := operand_eq_ok.mpr hr
      simp only [comparison, hl, hr, ok_bind, equality]

theorem comparison_eq_error : comparison e = .error fault ↔ Faulty e fault := by
  constructor
  · intro h
    unfold comparison at h
    split at h
    · next l r =>
      rcases bind_eq_error.mp h with h | ⟨o, hl, h⟩
      · obtain ⟨hnone, rfl⟩ := operand_eq_error.mp h
        exact .left hnone
      have hl := operand_eq_ok.mp hl
      rcases bind_eq_error.mp h with h | ⟨o', hr, h⟩
      · obtain ⟨hnone, rfl⟩ := operand_eq_error.mp h
        exact .right hl hnone
      have hr := operand_eq_ok.mp hr
      obtain ⟨v, w, rfl, rfl, rfl⟩ := equality_eq_error.mp h
      exact .literals hl hr
    · next hne =>
      cases h
      exact .notAnEquality hne
  · intro h
    cases h with
    | notAnEquality h => exact comparison_of_ne h
    | left hl =>
      have hl := operand_eq_error.mpr ⟨hl, rfl⟩
      exact bind_eq_error.mpr (.inl hl)
    | right hl hr =>
      have hl := operand_eq_ok.mpr hl
      have hr := operand_eq_error.mpr ⟨hr, rfl⟩
      exact bind_eq_error.mpr (.inr ⟨_, hl, bind_eq_error.mpr (.inl hr)⟩)
    | literals hl hr =>
      have hl := operand_eq_ok.mpr hl
      have hr := operand_eq_ok.mpr hr
      simp only [comparison, hl, hr, ok_bind, equality]

theorem isComparison_iff : IsComparison e ↔ ∃ p, comparison e = .ok p := by
  simp only [comparison_eq_ok]
  constructor
  · rintro ⟨l, r, o, o', rfl, hl, hr, hne⟩
    rcases o with a | v
    · rcases o' with b | v
      · exact ⟨_, .attributes hl hr⟩
      · exact ⟨_, .literalRight hl hr⟩
    · rcases o' with a | w
      · exact ⟨_, .literalLeft hl hr⟩
      · exact absurd ⟨v, w, rfl, rfl⟩ hne
  · rintro ⟨p, h⟩
    cases h with
    | attributes hl hr | literalRight hl hr | literalLeft hl hr =>
      exact ⟨_, _, _, _, rfl, hl, hr, by simp⟩

theorem leaves_of_ne (hnested : ∀ e', e ≠ .nested e') (hand : ∀ l r, e ≠ .binary l .and r) :
    e.leaves = [e] := by
  unfold Expression.leaves
  split
  · next e' => exact absurd rfl (hnested e')
  · next l r => exact absurd rfl (hand l r)
  · rfl

theorem conjuncts_eq_mapM (e : Expression) : conjuncts e = e.leaves.mapM comparison := by
  have hleaf (e : Expression) : [e].mapM comparison = do return [← comparison e] := by
    rw [List.mapM_cons]
    simp only [List.mapM_nil, pure_bind]
  induction e using conjuncts.induct with
  | case1 e ih => rw [conjuncts, Expression.leaves, ih]
  | case2 l r ihl ihr => rw [conjuncts, Expression.leaves, List.mapM_append, ihl, ihr]
  | case3 l r =>
    rw [leaves_of_ne (by simp) (by simp), hleaf]
    simp only [conjuncts, comparison, bind_assoc]
  | case4 e hnested hand hequal =>
    rw [leaves_of_ne hnested hand, hleaf, comparison_of_ne hequal]
    unfold conjuncts
    split
    · next e => exact absurd rfl (hnested e)
    · next l r => exact absurd rfl (hand l r)
    · next l r => exact absurd rfl (hequal l r)
    · rfl

theorem conjuncts_eq_ok : conjuncts e = .ok ps ↔ List.Forall₂ Compares e.leaves ps := by
  rw [conjuncts_eq_mapM, mapM_eq_ok]
  simp only [comparison_eq_ok]

theorem conjuncts_equal : conjuncts (.binary l .equal r) = .ok ps ↔
    ∃ p, Compares (.binary l .equal r) p ∧ [p] = ps := by
  rw [conjuncts_eq_ok, leaves_of_ne (by simp) (by simp), List.forall₂_cons_left_iff]
  constructor
  · rintro ⟨p, _, hp, ⟨⟩, rfl⟩
    exact ⟨p, hp, rfl⟩
  · rintro ⟨p, hp, rfl⟩
    exact ⟨p, [], hp, .nil, rfl⟩

theorem exists_conjuncts_iff :
    (∃ ps, conjuncts e = .ok ps) ↔ ∀ leaf ∈ e.leaves, IsComparison leaf := by
  simp only [conjuncts_eq_mapM, exists_mapM_iff, isComparison_iff]

theorem conjuncts_eq_error : conjuncts e = .error fault ↔ ∃ before leaf after,
    e.leaves = before ++ leaf :: after ∧ (∀ b ∈ before, IsComparison b) ∧ Faulty leaf fault := by
  simp only [conjuncts_eq_mapM, mapM_eq_error, isComparison_iff, comparison_eq_error]

theorem Faulty.not_isComparison (h : Faulty e fault) : ¬ IsComparison e := by
  intro hc
  obtain ⟨p, hp⟩ := isComparison_iff.mp hc
  rw [comparison_eq_error.mpr h] at hp
  cases hp

theorem denotes_regrouped (h : e.Regrouped f) : Denotes e o ↔ Denotes f o := by
  induction h with
  | refl => rfl
  | symm _ ih => exact ih.symm
  | trans _ _ ih ih' => exact ih.trans ih'
  | nested => exact denotes_nested
  | assoc | and | equal => exact ⟨fun h => (by cases h), fun h => (by cases h)⟩

theorem compares_equal {l' r' : Expression} (hl : l.Regrouped l') (hr : r.Regrouped r')
    (h : Compares (.binary l .equal r) p) : Compares (.binary l' .equal r') p := by
  cases h with
  | attributes h h' =>
    exact .attributes ((denotes_regrouped hl).mp h) ((denotes_regrouped hr).mp h')
  | literalRight h h' =>
    exact .literalRight ((denotes_regrouped hl).mp h) ((denotes_regrouped hr).mp h')
  | literalLeft h h' =>
    exact .literalLeft ((denotes_regrouped hl).mp h) ((denotes_regrouped hr).mp h')

theorem conjuncts_regrouped (h : e.Regrouped f) : conjuncts e = .ok ps ↔ conjuncts f = .ok ps := by
  induction h generalizing ps with
  | refl => rfl
  | symm _ ih => exact ih.symm
  | trans _ _ ih ih' => exact ih.trans ih'
  | nested => rfl
  | assoc e f g => simp only [conjuncts_eq_mapM, Expression.leaves, List.append_assoc]
  | and _ _ ihl ihr => simp only [conjuncts, bind_eq_ok, ihl, ihr]
  | equal hl hr =>
    rw [conjuncts_equal, conjuncts_equal]
    constructor
    · rintro ⟨p, hp, rfl⟩
      exact ⟨p, compares_equal hl hr hp, rfl⟩
    · rintro ⟨p, hp, rfl⟩
      exact ⟨p, compares_equal hl.symm hr.symm hp, rfl⟩

theorem ofSelect_condition {q : Query} (s : Select) (e : Expression) :
    ofSelect { s with condition := some e } = .ok q ↔
      ofSelect { s with condition := none } = .ok { q with conditions := [] } ∧
        conjuncts e = .ok q.conditions := by
  by_cases hd : s.distinct.isSome ∨ s.having.isSome
  · have hfails (c : Option Expression) : ofSelect { s with condition := c } =
        .error (.query .distinctOrHaving) := by
      simp only [ofSelect, if_pos hd]
      rfl
    simp only [hfails, reduceCtorEq, false_and]
  · simp only [ofSelect, if_neg hd, bind_eq_ok, pure_eq_ok, SourceError.ofQuery_eq_ok]
    constructor
    · rintro ⟨projection, hp, relations, hr, conditions, hc, rfl⟩
      exact ⟨⟨projection, hp, relations, hr, [], rfl, rfl⟩, hc⟩
    · rintro ⟨⟨projection, hp, relations, hr, conditions, -, hq⟩, hc⟩
      obtain ⟨rfl, rfl, -⟩ := Query.mk.inj hq
      exact ⟨_, hp, _, hr, _, hc, rfl⟩

/-- A condition is read exactly if all its leaves are comparisons, as one predicate a leaf and in
their order; else it is refused for its leftmost leaf that is none. Grouped in another way, it makes
the same query. -/
theorem conjuncts_exact (e : Expression) :
    ((∃ ps, conjuncts e = .ok ps) ↔ ∀ leaf ∈ e.leaves, IsComparison leaf) ∧
      (∀ ps, conjuncts e = .ok ps ↔ List.Forall₂ Compares e.leaves ps) ∧
      (∀ fault, conjuncts e = .error fault ↔ ∃ before leaf after,
        e.leaves = before ++ leaf :: after ∧ (∀ b ∈ before, IsComparison b) ∧
          ¬ IsComparison leaf ∧ Faulty leaf fault) ∧
      ∀ f, e.Regrouped f → ∀ (s : Select) (q : Query),
        ofSelect { s with condition := some e } = .ok q ↔
          ofSelect { s with condition := some f } = .ok q := by
  refine ⟨exists_conjuncts_iff, fun ps => conjuncts_eq_ok, fun fault => ?_, fun f h s q => ?_⟩
  · rw [conjuncts_eq_error]
    constructor
    · rintro ⟨before, leaf, after, hleaves, hbefore, hfaulty⟩
      exact ⟨before, leaf, after, hleaves, hbefore, hfaulty.not_isComparison, hfaulty⟩
    · rintro ⟨before, leaf, after, hleaves, hbefore, -, hfaulty⟩
      exact ⟨before, leaf, after, hleaves, hbefore, hfaulty⟩
  · rw [ofSelect_condition, ofSelect_condition, conjuncts_regrouped h]

def sampleCondition : Expression :=
  .binary (.nested (.binary (.binary (.string '\x27' "x") .equal (.name ⟨"LNAME", none⟩)) .and
      (.binary (.qualified [⟨"Employee", none⟩, ⟨"ESSN", none⟩]) .equal (.string '"' "7")))) .and
    (.nested (.binary (.nested (.name ⟨"SSN", none⟩)) .equal (.name ⟨"ESSN", none⟩)))

def sampleRegrouped : Expression :=
  .binary (.binary (.string '\x27' "x") .equal (.name ⟨"LNAME", none⟩)) .and
    (.nested (.binary
      (.binary (.qualified [⟨"Employee", none⟩, ⟨"ESSN", none⟩]) .equal (.string '"' "7")) .and
      (.binary (.name ⟨"SSN", none⟩) .equal (.name ⟨"ESSN", none⟩))))

theorem sampleCondition_regrouped : sampleCondition.Regrouped sampleRegrouped := by
  have hlast := (Expression.Regrouped.nested (.binary (.nested (.name ⟨"SSN", none⟩)) .equal
    (.name ⟨"ESSN", none⟩))).trans (.equal (.nested _) (.refl _))
  exact ((Expression.Regrouped.and (.nested _) hlast).trans (.assoc _ _ _)).trans
    (.and (.refl _) (Expression.Regrouped.nested _).symm)

theorem conjuncts_exact_sample :
    List.Forall₂ Compares sampleCondition.leaves [.value (.named "LNAME") "x",
      .value (.named "ESSN") "7", .join (.named "SSN") (.named "ESSN")] ∧
    sampleCondition.Regrouped sampleRegrouped ∧
    (∀ (s : Select) (q : Query), ofSelect { s with condition := some sampleCondition } = .ok q ↔
      ofSelect { s with condition := some sampleRegrouped } = .ok q) ∧
    ∃ leaf ∈ (Expression.binary sampleCondition .and
      (.binary (.number "1" false) .equal (.number "2" false))).leaves, ¬ IsComparison leaf := by
  obtain ⟨-, hread, -, hregrouped⟩ := conjuncts_exact sampleCondition
  refine ⟨(hread _).mp rfl, sampleCondition_regrouped, hregrouped _ sampleCondition_regrouped, ?_⟩
  obtain ⟨fault, h⟩ : ∃ fault, conjuncts (.binary sampleCondition .and
      (.binary (.number "1" false) .equal (.number "2" false))) = .error fault := ⟨_, rfl⟩
  obtain ⟨-, -, hrefused, -⟩ := conjuncts_exact (.binary sampleCondition .and
    (.binary (.number "1" false) .equal (.number "2" false)))
  obtain ⟨before, leaf, after, hleaves, -, hnot, -⟩ := (hrefused fault).mp h
  exact ⟨leaf, hleaves ▸ List.mem_append_right _ List.mem_cons_self, hnot⟩

end Query
end QueryPlan
