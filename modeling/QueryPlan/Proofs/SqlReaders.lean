import QueryPlan.Proofs.Recursion
import QueryPlan.Sql.Reader

/-! What the readers of tokens take where they find what they look for. -/

namespace QueryPlan.Sql

open Reading (Takes)

namespace Reader

variable {α : Type} {p : Reader α}

theorem advance_takes : Takes advance fun _ => True := by
  intro ts _ rest h _
  cases ts with
  | nil => cases h
  | cons t ts =>
    cases h
    exact Nat.lt_succ_self _

theorem reject_takes {P : α → Prop} : Takes reject P :=
  .bind_right fun _ => .bind_right fun _ => .fail _

theorem fail_takes {P : α → Prop} : Takes fail P := .bind_right fun _ => .fail _

theorem next_takes : Takes next (·.isSome) := by
  refine .bind_right fun s => ?_
  cases s with
  | some s => exact .bind_left advance_takes
  | none => exact .pure Bool.false_ne_true

theorem keyword_takes (k : String) : Takes (keyword k) (· = true) :=
  .bind_right fun _ => .ite (fun _ => .bind_left advance_takes) fun _ => .pure Bool.false_ne_true

theorem keywords_takes (k : String) (ks : List String) :
    Takes (keywords (k :: ks)) (· = true) := by
  intro ts b rest hrun hb
  unfold keywords at hrun
  change (ite _ _ _ : Reader Bool).run ts = _ at hrun
  split at hrun
  · next hahead =>
    have hlen := congrArg List.length hahead
    cases hrun
    simp only [List.length_map, List.length_take, List.length_cons] at hlen
    simp only [Remains.remaining, List.length_drop, List.length_cons]
    omega
  · cases hrun
    exact absurd hb Bool.false_ne_true

theorem mark_takes (m : String) : Takes (mark m) (· = true) :=
  .bind_right fun _ => .ite (fun _ => .bind_left advance_takes) fun _ => .pure Bool.false_ne_true

theorem phrase_takes {phrases : List (List String)} (h : [] ∉ phrases) :
    Takes (phrase phrases) (·.isSome) := by
  induction phrases with
  | nil => exact .pure Bool.false_ne_true
  | cons ks phrases ih =>
    cases ks with
    | nil => exact absurd List.mem_cons_self h
    | cons k ks =>
      exact (keywords_takes k ks).or_else (ih fun hm => h (List.mem_cons_of_mem _ hm))

theorem anyPhrase_takes {phrases : List (List String)} (h : [] ∉ phrases) :
    Takes (anyPhrase phrases) (· = true) :=
  (phrase_takes h).bind fun _ hn => .pure hn

theorem oneOf_takes (ks : List String) : Takes (oneOf ks) (·.isSome) :=
  .bind_right fun _ => .ite (fun _ => .bind_left advance_takes) fun _ => .pure Bool.false_ne_true

theorem expectKeyword_takes (k : String) : Takes (expectKeyword k) fun _ => True :=
  (keyword_takes k).bind fun _ hb =>
    .ite (fun _ => fail_takes) fun h => absurd (by simpa using h) hb

theorem expectOneOf_takes (ks : List String) : Takes (expectOneOf ks) fun _ => True :=
  (oneOf_takes ks).or_none fail_takes

theorem attempt_takes (h : Takes p fun _ => True) : Takes (attempt p) (·.isSome) := by
  intro ts found rest hrun hfound
  unfold attempt at hrun
  simp only at hrun
  split at hrun
  · next hp => cases hrun; exact h hp trivial
  · cases hrun; exact absurd hfound Bool.false_ne_true
  · cases hrun

theorem attempts_takes (h : Takes p fun _ => True) : Takes (attempts p) (· = true) :=
  (attempt_takes h).bind fun _ hn => .pure hn

theorem behind_takes (k : String) (ks : List String) (p : Reader α) :
    Takes (behind (k :: ks) p) (·.isSome) :=
  (keywords_takes k ks).or_else (.pure Bool.false_ne_true)

theorem name_takes : Takes name fun _ => True := by
  refine .bind_right fun s => ?_
  split
  · exact .bind_left advance_takes
  · exact .bind_left advance_takes
  · exact reject_takes

theorem commas_eq (p : Reader α) : commas p = Reading.sepByRule (mark ",") p (commas p) :=
  Reading.sepBy_eq (mark_takes ",") p

theorem commas_takes (h : Takes p fun _ => True) : Takes (commas p) fun _ => True := by
  rw [commas_eq]
  exact .bind_left h

theorem dottedNames_eq : dottedNames = Reading.sepByRule (mark ".") name dottedNames :=
  Reading.sepBy_eq (mark_takes ".") name

end Reader
end QueryPlan.Sql
