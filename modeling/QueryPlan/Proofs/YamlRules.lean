import QueryPlan.Proofs.Recursion
import QueryPlan.Yaml.Node

/-! Each rule for tokens and nodes of a YAML text is a solution of its own equation, as it goes on
only where it has passed a character or a token. -/

namespace QueryPlan.Yaml

open Reading (Takes Same many repeated manyRule repeatedRule)
open Remains (remaining)

namespace Scan

theorem skip_takes {n : Nat} (h : 0 < n) : Takes (skip n) fun _ => True := by
  intro c a rest hrun _
  unfold skip at hrun
  change (ite _ _ _ : Scan Unit).run c = _ at hrun
  split at hrun
  · cases hrun
  · next hpeek =>
    cases hrun
    have hlt : n - 1 < c.rest.length := by
      simpa [Cursor.peek] using hpeek
    simp only [remaining, Cursor.skip, List.length_drop]
    omega

theorem takeIf_takes (p : Char → Bool) : Takes (takeIf p) (·.isSome) := by
  refine .bind_right fun c => ?_
  dsimp only
  exact .ite (fun _ => .bind_left (skip_takes Nat.one_pos)) fun hn => .pure hn

theorem take_takes (c : Char) : Takes (take c) (· = true) :=
  (takeIf_takes _).bind fun _ hn => .pure hn

theorem lineBreak_takes : Takes lineBreak (·.isSome) := by
  intro c found rest hrun hfound
  unfold lineBreak at hrun
  simp only at hrun
  split at hrun
  · next h =>
    cases hrun
    exact Cursor.lineEnd?_length h
  · cases hrun
    exact absurd hfound Bool.false_ne_true

theorem gapStep_takes (least : Nat) (found : Gap) : Takes (gapStep least found) (·.isSome) := by
  refine lineBreak_takes.or_none ?_
  exact .bind_right fun c => (takeIf_takes _).or_none (.pure Bool.false_ne_true)

theorem gapFrom_eq (least : Nat) : gapFrom least = gapRule least (gapFrom least) :=
  Reading.fix_eq fun _ _ _ h found =>
    (gapStep_takes least found).same_match (fun _ => h _) (.refl _ _)

theorem gap_takes (least : Nat) : Takes (gap least) (·.isSome) :=
  (gapStep_takes least .none).or_none (.pure Bool.false_ne_true)

theorem plainChar_takes (inFlow : Bool) : Takes (plainChar inFlow) (·.isSome) := by
  refine .bind_right fun later => .bind_right fun c => ?_
  dsimp only
  exact .ite (fun _ => .bind_left (.fail _)) fun _ => takeIf_takes _

theorem plainRun_eq (inFlow : Bool) :
    plainRun inFlow = manyRule (plainChar inFlow) (plainRun inFlow) :=
  Reading.many_eq (plainChar_takes inFlow)

theorem plainFrom_eq (inFlow : Bool) (least : Nat) :
    plainFrom inFlow least = plainRule inFlow least (plainFrom inFlow least) := by
  refine Reading.fix_eq fun _ _ _ h text => ?_
  refine (gap_takes least).same_match (fun found => ?_) (.refl _ _)
  exact .bind_right fun c => .ite (.refl _ _) (.bind_right fun run => .ite (.refl _ _) (h _))

theorem quoted_eq (single : Bool) : quoted single = quotedRule single (quoted single) := by
  refine Reading.again_eq fun n p q h => .bind_right fun c => ?_
  dsimp only
  refine .ite (.bind_right fun _ => ?_) ?_
  all_goals
    refine (gap_takes 0).same_match (fun found => h.bind_left) ?_
    refine (takeIf_takes _).same_match (fun d => ?_) (.refl _ _)
    refine .ite (.bind_right fun b => .ite h.bind_left (.refl _ _)) (.ite (.refl _ _) ?_)
    refine .ite (.bind_right fun b => .ite ?_ ?_) h.bind_left
    · exact .bind_right fun found => h.bind_left
    · exact .bind_right fun c => h.bind_left

theorem blockBreaksFrom_eq (indent : Option Nat) :
    blockBreaksFrom indent = blockBreaksRule indent (blockBreaksFrom indent) := by
  refine Reading.fix_eq fun _ _ _ h (widest, found) => ?_
  refine .bind_right fun c => .bind_right fun _ => .bind_right fun c' => ?_
  dsimp only
  refine .ite (.bind_right fun _ => ?_) ?_
  all_goals exact lineBreak_takes.same_match (fun b => h _) (.refl _ _)

theorem blockLine_takes (indent : Nat) : Takes (blockLine indent) (·.isSome) := by
  refine .bind_right fun c => .ite (fun _ => .pure Bool.false_ne_true) fun _ => ?_
  exact (takeIf_takes _).or_none (.pure Bool.false_ne_true)

theorem blockLines_eq (folded : Bool) (indent : Nat) :
    blockLines folded indent = blockLinesRule folded indent (blockLines folded indent) := by
  refine Reading.fix_eq fun _ _ _ h b => ?_
  refine (blockLine_takes indent).same_match (fun line => ?_) (.refl _ _)
  exact .bind_right fun lineEnd => .bind_right fun (_, empty) => h _

theorem percentByte_takes : Takes percentByte fun _ => True := by
  refine (take_takes '%').bind fun b hb => ?_
  dsimp only
  exact .ite (fun _ => .bind_left (.fail _)) fun h => absurd (by simpa using h) hb

theorem tagChar_takes (verbatim : Bool) : Takes (tagChar verbatim) (·.isSome) :=
  .bind_right fun _ => .ite (fun _ => .bind_left (.bind_left percentByte_takes)) fun _ =>
    takeIf_takes _

theorem tagText_eq (verbatim : Bool) :
    tagText verbatim = manyRule (tagChar verbatim) (tagText verbatim) :=
  Reading.many_eq (tagChar_takes verbatim)

theorem tagHandle_takes : Takes tagHandle fun _ => True := by
  refine (take_takes '!').bind fun b hb => ?_
  dsimp only
  exact .ite (fun _ => .bind_left (.fail _)) fun h => absurd (by simpa using h) hb

theorem tag_takes (inFlow : Bool) : Takes (tag inFlow) fun _ => True := by
  refine .bind_right fun c => ?_
  dsimp only
  refine .ite (fun _ => .bind_left (.bind_left (skip_takes Nat.two_pos))) fun _ => ?_
  exact .bind_left (.bind_left tagHandle_takes)

theorem plain_takes (inFlow : Bool) (least : Nat) : Takes (plain inFlow least) fun _ => True :=
  (plainChar_takes inFlow).or_none (.fail _)

end Scan

namespace Lex

theorem scan_takes {α : Type} {p : Scan α} {P : α → Prop} (h : Takes p P) : Takes (scan p) P := by
  intro s a rest hrun ha
  obtain ⟨hok, rfl⟩ := Prod.mk.inj hrun
  exact h (Prod.ext hok rfl) ha

theorem skip_takes {n : Nat} (h : 0 < n) : Takes (skip n) fun _ => True :=
  scan_takes (Scan.skip_takes h)

theorem within_takes {p : Scan Token} (h : Takes p fun _ => True) :
    Takes (within p) fun _ => True :=
  .bind_right fun _ => .bind_right fun _ => .bind_left (scan_takes h)

theorem toNextToken_eq : toNextToken = toNextTokenRule toNextToken := by
  refine Reading.again_eq fun n p q h => .bind_right fun s => .bind_right fun _ => ?_
  refine (scan_takes Scan.lineBreak_takes).same_match (fun b => ?_) (.refl _ _)
  dsimp only
  exact .ite (.bind_right fun _ => h) h

theorem openFlow_takes (t : Token) : Takes (openFlow t) fun _ => True :=
  .bind_right fun _ => .bind_right fun _ => .bind_right fun _ => .bind_left (skip_takes Nat.one_pos)

theorem closeFlow_takes (t : Token) : Takes (closeFlow t) fun _ => True :=
  .bind_right fun _ => .bind_right fun _ => .bind_right fun _ => .bind_left (skip_takes Nat.one_pos)

theorem flowEntry_takes : Takes flowEntry fun _ => True :=
  .bind_right fun _ => .bind_right fun _ => .bind_left (skip_takes Nat.one_pos)

theorem entry_takes : Takes entry fun _ => True :=
  .bind_right fun _ => .bind_right fun _ => .bind_right fun _ => .bind_left (skip_takes Nat.one_pos)

theorem key_takes : Takes key fun _ => True :=
  .bind_right fun _ => .bind_right fun _ => .bind_right fun _ => .bind_right fun _ =>
    .bind_left (skip_takes Nat.one_pos)

theorem value_takes : Takes value fun _ => True := by
  refine .bind_right fun s => ?_
  dsimp only
  split
  · exact .bind_right fun _ => .bind_right fun _ => .bind_right fun _ =>
      .bind_left (skip_takes Nat.one_pos)
  · exact .bind_right fun _ => .bind_right fun _ => .bind_left (skip_takes Nat.one_pos)

theorem plain_takes : Takes plain fun _ => True :=
  .bind_right fun _ => .bind_right fun _ => .bind_right fun _ =>
    .bind_left (scan_takes (Scan.plain_takes _ _))

theorem blockScalar_takes (folded : Bool) : Takes (blockScalar folded) fun _ => True :=
  .bind_right fun _ => .bind_right fun _ => .bind_left (skip_takes Nat.one_pos)

theorem quoted_takes (single : Bool) : Takes (quoted single) fun _ => True :=
  within_takes (.bind_left (Scan.skip_takes Nat.one_pos))

theorem tokenAt_takes (c : Char) : Takes (tokenAt c) fun _ => True := by
  refine .bind_right fun s => ?_
  dsimp only
  refine .ite (fun _ => .bind_right fun _ => .bind_left (skip_takes Nat.one_pos)) fun _ => ?_
  refine .ite (fun _ => .bind_right fun _ => .bind_left (skip_takes (by decide))) fun _ => ?_
  refine .ite (fun _ => openFlow_takes _) fun _ => .ite (fun _ => openFlow_takes _) fun _ => ?_
  refine .ite (fun _ => closeFlow_takes _) fun _ => .ite (fun _ => closeFlow_takes _) fun _ => ?_
  refine .ite (fun _ => flowEntry_takes) fun _ => .ite (fun _ => entry_takes) fun _ => ?_
  refine .ite (fun _ => key_takes) fun _ => .ite (fun _ => value_takes) fun _ => ?_
  refine .ite (fun _ => within_takes (.bind_left (Scan.skip_takes Nat.one_pos))) fun _ => ?_
  refine .ite (fun _ => within_takes (.bind_left (Scan.skip_takes Nat.one_pos))) fun _ => ?_
  refine .ite (fun _ => within_takes (Scan.tag_takes _)) fun _ => ?_
  refine .ite (fun _ => blockScalar_takes _) fun _ => ?_
  refine .ite (fun _ => blockScalar_takes _) fun _ => ?_
  refine .ite (fun _ => quoted_takes _) fun _ => .ite (fun _ => quoted_takes _) fun _ => ?_
  exact .ite (fun _ => plain_takes) fun _ => .fail _

theorem toEnd_eq : toEnd = toEndRule toEnd := by
  refine Reading.again_eq fun n p q h => .bind_right fun _ => .bind_right fun _ => ?_
  refine .bind_right fun s => .bind_right fun _ => .bind_right fun s' => ?_
  split
  · exact .refl _ _
  · exact (tokenAt_takes _).same_left fun _ => h

end Lex

namespace Read

variable {node node' : Read Node} {n : Nat}

theorem skip_takes : Takes skip fun _ => True := by
  intro s a rest hrun _
  unfold skip at hrun
  change (ite _ _ _ : Read Unit).run s = _ at hrun
  split at hrun
  · cases hrun
  · next hs =>
    cases hrun
    cases ht : s.tokens with
    | nil => simp [ht] at hs
    | cons t ts => simp [remaining, ht]

theorem takes_takes (t : Token) : Takes (takes t) (· = true) :=
  .bind_right fun _ => .ite (fun _ => .bind_left skip_takes) fun _ => .pure Bool.false_ne_true

theorem flowItems_eq {α : Type} (close : Token) (item : Read α) :
    flowItems close item = flowItemsRule close item (flowItems close item) := by
  refine Reading.again_eq fun n p q h => .bind_right fun b => .ite (.refl _ _) ?_
  exact .bind_right fun a => (takes_takes .flowEntry).same_if h.bind_left (.refl _ _)

theorem blockItems_eq (node : Read Node) (ends : List Token) :
    many (blockItem node ends) = manyRule (blockItem node ends) (many (blockItem node ends)) :=
  Reading.many_eq ((takes_takes .entry).or_else (.pure Bool.false_ne_true))

theorem blockEntries_eq (node : Read Node) :
    many (blockEntry node) = manyRule (blockEntry node) (many (blockEntry node)) :=
  Reading.many_eq ((takes_takes .key).or_else (.pure Bool.false_ne_true))

theorem documentEnds_eq :
    repeated (takes .documentEnd) =
      repeatedRule (takes .documentEnd) (repeated (takes .documentEnd)) :=
  Reading.repeated_eq (takes_takes .documentEnd)

theorem directivesFrom_eq : directivesFrom = directivesRule directivesFrom := by
  refine Reading.fix_eq fun _ _ _ h (versioned, stems) => .bind_right fun t => ?_
  split
  · dsimp only
    exact .ite (.bind_right fun _ => skip_takes.same_left fun _ => h _)
      (skip_takes.same_left fun _ => h _)
  · dsimp only
    exact .ite (.bind_right fun _ => skip_takes.same_left fun _ => h _)
      (skip_takes.same_left fun _ => h _)
  · exact .refl _ _

theorem valueBefore_same (h : Same n node node') (ends : List Token) :
    Same n (valueBefore node ends) (valueBefore node' ends) :=
  .bind_right fun _ => .ite (.bind_right fun _ => .ite (.refl _ _) h) (.refl _ _)

theorem entryBefore_same (h : Same n node node') (ends : List Token) :
    Same n (entryBefore node ends) (entryBefore node' ends) := by
  refine .bind_right fun b => ?_
  dsimp only
  refine .ite (.bind_right fun k => (valueBefore_same h ends).bind_left) ?_
  exact h.bind fun k => (valueBefore_same h ends).bind_left

theorem anchoring_same (name : Option String) (h : Same n node node') :
    Same n (anchoring name node) (anchoring name node') := by
  refine .bind_right fun start => ?_
  split
  · exact h
  · exact .bind_right fun k => h.bind_left

theorem pair_same (h : Same n node node') : Same n (pair node) (pair node') := by
  refine anchoring_same none (.bind_left (.bind_right fun b => ?_))
  dsimp only
  refine .ite (.bind_right fun _ => .bind_right fun k => (valueBefore_same h _).bind_left) ?_
  exact h.bind fun k => (valueBefore_same h _).bind_left

theorem flowItems_same {α : Type} {close : Token} {item item' : Read α} (h : Same n item item') :
    Same n (flowItems close item) (flowItems close item') := by
  refine .again fun m hm u v hself => .bind_right fun b => .ite (.refl _ _) ?_
  exact (h.mono hm).bind fun a => .bind_right fun b => .ite hself.bind_left (.refl _ _)

theorem blockItem_same (h : Same n node node') (ends : List Token) :
    Same (n + 1) (blockItem node ends) (blockItem node' ends) := by
  refine (takes_takes .entry).same_if (.bind_right fun b => ?_) (.refl _ _)
  dsimp only
  exact .ite (.refl _ _) h.bind_left

theorem blockEntry_same (h : Same n node node') :
    Same (n + 1) (blockEntry node) (blockEntry node') :=
  (takes_takes .key).same_if (entryBefore_same h _).bind_left (.refl _ _)

theorem ended_same {α : Type} {p q : Read α} (h : Same n p q) : Same n (ended p) (ended q) :=
  h.bind_left

theorem sameColumnSequence_same (h : Same n node node') :
    Same (n + 1) (sameColumnSequence node) (sameColumnSequence node') :=
  ended_same (.many (blockItem_same h _))

theorem blockSequence_same (h : Same n node node') :
    Same n (blockSequence node) (blockSequence node') :=
  ended_same (Same.many ((blockItem_same h _).mono (Nat.le_succ n))).bind_left

theorem blockMapping_same (h : Same n node node') :
    Same n (blockMapping node) (blockMapping node') :=
  ended_same (Same.many ((blockEntry_same h).mono (Nat.le_succ n))).bind_left

theorem flowSequence_same (h : Same n node node') :
    Same n (flowSequence node) (flowSequence node') :=
  ended_same (flowItems_same (.bind_right fun _ => .ite (pair_same h) h))

theorem flowMapping_same (h : Same n node node') : Same n (flowMapping node) (flowMapping node') :=
  ended_same (flowItems_same (.bind_right fun _ => .ite (entryBefore_same h _) h.bind_left))

theorem node_eq : Read.node = nodeRule Read.node := by
  refine Reading.fix_eq fun _ _ _ h position => .bind_right fun t => ?_
  dsimp only
  split
  · exact .refl _ _
  refine .bind_right fun (anchor, tag) => .bind_right fun next => ?_
  split
  · exact .refl _ _
  · exact skip_takes.same_left fun _ => anchoring_same _ (flowSequence_same (h _)).bind_left
  · exact skip_takes.same_left fun _ => anchoring_same _ (flowMapping_same (h _)).bind_left
  · refine .ite (anchoring_same _ (sameColumnSequence_same (h _)).bind_left) ?_
    refine .ite (skip_takes.same_left fun _ => ?_) (.ite (skip_takes.same_left fun _ => ?_) ?_)
    · exact anchoring_same _ (blockSequence_same (h _)).bind_left
    · exact anchoring_same _ (blockMapping_same (h _)).bind_left
    · exact .refl _ _

end Read
end QueryPlan.Yaml
