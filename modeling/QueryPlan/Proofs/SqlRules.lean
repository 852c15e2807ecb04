import QueryPlan.Proofs.SqlReaders
import QueryPlan.Sql.Statement

/-! No rule of the grammar goes on without having taken a token. Each is a solution of its own
equation, and what can stand any number of times takes something each time. -/

namespace QueryPlan.Sql

open Reading (Takes Same many repeated sepBy manyRule repeatedRule sepByRule)
open Reader

namespace DataType

theorem modifiers_eq : modifiers = modifiersRule modifiers := by
  refine Reading.again_eq fun n p q h => .bind_right fun start => ?_
  refine next_takes.same_match (fun s => ?_) (.refl _ _)
  split
  · exact h.bind_left
  · exact h.bind_left
  · exact h.bind_left
  · exact h
  · exact .refl _ _
  · exact .refl _ _

theorem arrays_eq : arrays = arraysRule arrays :=
  Reading.fix_eq fun _ _ _ h _ => (mark_takes "[").same_if (.bind_right fun _ => h _) (.refl _ _)

theorem inner_eq : inner = innerRule inner := by
  refine Reading.again_eq fun n p q h => .bind_right fun k => .ite ?_ (.refl _ _)
  exact advance_takes.same_left fun _ => .bind_right fun _ => h.bind_left

end DataType

namespace Grammar

variable (g : Grammar)

section Expressions

theorem namesToStar_eq : namesToStar = namesToStarRule namesToStar := by
  refine Reading.again_eq fun n p q h => (mark_takes ".").same_if ?_ (.refl _ _)
  refine .bind_right fun s => ?_
  split
  · exact .bind_right fun _ => h.bind_left
  · exact .bind_right fun _ => h.bind_left
  · exact .refl _ _
  · exact .refl _ _

theorem laterName_takes : Takes laterName (·.isSome) :=
  (mark_takes ".").or_else (.pure Bool.false_ne_true)

theorem laterNames_eq : many laterName = manyRule laterName (many laterName) :=
  Reading.many_eq laterName_takes

theorem branches_eq :
    sepBy (keyword "WHEN") g.branch =
      sepByRule (keyword "WHEN") g.branch (sepBy (keyword "WHEN") g.branch) :=
  Reading.sepBy_eq (keyword_takes "WHEN") g.branch

theorem subscripts_eq :
    sepBy (mark "[") g.subscript =
      sepByRule (mark "[") g.subscript (sepBy (mark "[") g.subscript) :=
  Reading.sepBy_eq (mark_takes "[") g.subscript

theorem binary_takes (precedence : Nat) (left : Expression) (op : Operator) :
    Takes (g.binary precedence left op) fun _ => True :=
  .bind_right fun _ => .bind_left advance_takes

theorem likeness_takes (head : String) : Takes (g.likeness head) fun _ => True := by
  refine (keyword_takes "REGEXP").bind fun regexp hr => ?_
  refine (keyword_takes "RLIKE").bind fun rlike hl => ?_
  refine .ite (fun h => absurd h (not_or.mpr ⟨hr, hl⟩)) fun _ => ?_
  refine (keyword_takes "IN").or_else ((keyword_takes "BETWEEN").or_else ?_)
  exact (oneOf_takes _).or_none ((keywords_takes "SIMILAR" _).or_else fail_takes)

theorem negatable_takes (left : Expression) : Takes (g.negatable left) fun _ => True :=
  .bind_right fun _ => .ite (fun _ => g.likeness_takes _) fun _ => g.likeness_takes _

theorem afterMark_takes (precedence : Nat) (left : Expression) (m : String) :
    Takes (g.afterMark precedence left m) fun _ => True := by
  unfold afterMark
  split
  · exact g.binary_takes _ _ _
  · refine .ite (fun _ => .bind_left advance_takes) fun _ => ?_
    refine .ite (fun _ => .bind_left advance_takes) fun _ => ?_
    exact .ite (fun _ => .bind_left advance_takes) fun _ => reject_takes

theorem operation_takes (precedence : Nat) (left : Expression) :
    Takes (g.operation precedence left) fun _ => True := by
  refine .bind_right fun s => ?_
  split
  · exact g.afterMark_takes _ _ _
  · split
    · exact .bind_left advance_takes
    · exact g.binary_takes _ _ _
    · exact g.binary_takes _ _ _
    · exact g.binary_takes _ _ _
    · exact .bind_left advance_takes
    · exact .bind_left advance_takes
    · exact reject_takes
    · exact g.negatable_takes _
  · exact reject_takes

theorem operations_eq (least : Nat) :
    g.operations least = g.operationsRule least (g.operations least) :=
  Reading.fix_eq fun _ _ _ h left => .bind_right fun precedence => .ite (.refl _ _)
    ((g.operation_takes precedence left).same_left fun _ => h _)

end Expressions

section Tables

theorem turned_eq : g.turned = g.turnedRule g.turned := by
  refine Reading.fix_eq fun _ _ _ h t => (oneOf_takes _).same_match (fun k => ?_) (.refl _ _)
  split
  · exact .bind_right fun _ => h _
  · exact .bind_right fun _ => h _
  · exact .refl _ _

theorem standIn_takes : Takes standIn (·.isSome) :=
  (oneOf_takes _).or_none (.pure Bool.false_ne_true)

theorem standInsFrom_eq : standInsFrom = standInsRule standInsFrom := by
  refine Reading.fix_eq fun _ _ _ h (empty, error) => ?_
  refine standIn_takes.same_match (fun s => ?_) (.refl _ _)
  exact .bind_right fun _ => .ite (h _) (.bind_right fun _ => h _)

theorem jsonColumn_eq : jsonColumn = jsonColumnRule jsonColumn := by
  refine Reading.again_eq fun n p q h => (keyword_takes "NESTED").same_if ?_ (.refl _ _)
  refine .bind_right fun _ => .bind_right fun path => .bind_right fun _ => .bind_left ?_
  exact .bind_right fun _ => (Same.sepBy h).bind_left

theorem joinKind_takes (natural : Bool) : Takes (joinKind natural) (·.isSome) := by
  refine .bind_right fun k => ?_
  split
  · exact .bind_right fun _ => .bind_left (expectKeyword_takes _)
  · exact .bind_right fun _ => .bind_left (expectKeyword_takes _)
  · exact .bind_left advance_takes
  · exact .bind_left advance_takes
  · exact .bind_left advance_takes
  · exact .ite (fun _ => fail_takes) fun _ => .pure Bool.false_ne_true

theorem join_takes (table : Reader Table) : Takes (g.join table) (·.isSome) := by
  refine .bind_right fun everywhere => (keyword_takes "CROSS").or_else ?_
  refine (keyword_takes "OUTER").or_else ((keyword_takes "ASOF").or_else ?_)
  refine .bind_right fun natural => ?_
  exact (joinKind_takes natural).or_none (.pure Bool.false_ne_true)

theorem joins_eq (table : Reader Table) :
    many (g.join table) = manyRule (g.join table) (many (g.join table)) :=
  Reading.many_eq (g.join_takes table)

theorem join_same {n : Nat} {table table' : Reader Table} (h : Same n table table') :
    Same n (g.join table) (g.join table') := by
  refine .bind_right fun everywhere => .bind_right fun b => .ite (.bind_right fun k => ?_) ?_
  · split <;> exact h.bind_left
  refine .bind_right fun b => .ite (.bind_right fun _ => h.bind_left) ?_
  refine .bind_right fun b => .ite (.bind_right fun _ => h.bind_left) ?_
  refine .bind_right fun natural => .bind_right fun found => ?_
  cases found with
  | none => exact .refl _ _
  | some kind => exact h.bind_left

theorem table_eq : g.table = g.tableRule g.table := by
  refine Reading.again_eq fun n p q h => (mark_takes "(").same_if ?_ (.refl _ _)
  refine .bind_right fun found => ?_
  split
  · exact .refl _ _
  · exact h.bind fun (t, isJoin) => (Same.many (g.join_same h.bind_left)).bind_left

end Tables

section Queries

theorem lateralViews_eq : many g.lateralView = manyRule g.lateralView (many g.lateralView) :=
  Reading.many_eq (behind_takes "LATERAL" _ _)

theorem combiner_takes (least : Nat) : Takes (combiner least) (·.isSome) :=
  (oneOf_takes _).bind fun k hk => .pure (by rwa [Option.isSome_map])

theorem combinedFrom_eq : g.combinedFrom = g.combinedRule g.combinedFrom := by
  refine Reading.fix_eq fun _ _ _ h (least, left) => ?_
  refine (combiner_takes least).same_match (fun (op, precedence) => ?_) (.refl _ _)
  refine .bind_right fun quantifier => .bind_right fun body => ?_
  exact (h _).bind fun right => h _

theorem choices_eq (known : List String) (choice : Reader (Option (String × String))) :
    choices known choice = choicesRule known choice (choices known choice) := by
  refine Reading.fix_eq fun _ _ _ h chosen => (mark_takes ",").same_if ?_ (.refl _ _)
  refine .bind_right fun found => ?_
  split <;> exact h _

theorem purposes_eq : purposes = purposesRule purposes := by
  refine Reading.again_eq fun n p q h => (keyword_takes "FOR").same_if ?_ (.refl _ _)
  refine .bind_right fun b => .ite (.refl _ _) ?_
  refine .bind_right fun b => .ite (.refl _ _) ?_
  refine .bind_right fun b => .ite (.refl _ _) ?_
  exact .bind_right fun kind => .bind_right fun table => .bind_right fun wait => h.bind_left

theorem simpleBody_takes : Takes g.simpleBody fun _ => True := by
  refine .bind_right fun k => .ite (fun _ => ?_) fun _ => ?_
  · exact .bind_left (.bind_left (expectKeyword_takes _))
  · refine (mark_takes "(").or_else ((keyword_takes _).or_else ?_)
    exact (keyword_takes _).or_else fail_takes

theorem queryHere_takes : Takes g.queryHere fun _ => True := by
  refine .bind_right fun definitions => (keyword_takes _).or_else ((keyword_takes _).or_else ?_)
  exact .bind_left g.simpleBody_takes

end Queries

section Definitions

theorem rareColumnOption_takes : Takes g.rareColumnOption (· = true) := by
  refine .bind_right fun _ => .bind_right fun _ => .bind_right fun _ => ?_
  refine (keywords_takes _ _).or_else ((keyword_takes _).or_else ((keyword_takes _).or_else ?_))
  exact .bind_right fun _ => .pure Bool.false_ne_true

theorem columnOption_takes : Takes g.columnOption (· = true) := by
  unfold columnOption
  dsimp only
  refine (anyPhrase_takes (by decide)).or_else ((keywords_takes _ _).or_else ?_)
  refine (keyword_takes _).or_else ((keyword_takes _).or_else ?_)
  refine (anyPhrase_takes (by decide)).or_else ?_
  exact (keyword_takes _).or_else ((keyword_takes _).or_else g.rareColumnOption_takes)

theorem columnOptions_eq : g.columnOptions = repeatedRule g.columnOption g.columnOptions :=
  Reading.repeated_eq g.columnOption_takes

theorem columnPart_takes : Takes g.columnPart (· = true) := by
  refine (keyword_takes _).or_else (g.columnOption_takes.or_else ?_)
  exact (keyword_takes _).or_else (.pure Bool.false_ne_true)

theorem columnParts_eq :
    repeated g.columnPart = repeatedRule g.columnPart (repeated g.columnPart) :=
  Reading.repeated_eq g.columnPart_takes

theorem indexKind_takes : Takes indexKind (· = true) :=
  (keyword_takes _).or_else (.pure Bool.false_ne_true)

theorem keyOptions_eq : repeated keyOption = repeatedRule keyOption (repeated keyOption) :=
  Reading.repeated_eq
    (indexKind_takes.or_else ((keyword_takes _).or_else (.pure Bool.false_ne_true)))

theorem delimiters_eq : repeated delimiter = repeatedRule delimiter (repeated delimiter) :=
  Reading.repeated_eq ((oneOf_takes _).or_none (.pure Bool.false_ne_true))

theorem storage_takes : Takes g.storage (· = true) := by
  unfold storage
  dsimp only
  refine (keyword_takes _).or_else ((keyword_takes _).or_else ((keyword_takes _).or_else ?_))
  exact (keywords_takes _ _).or_else (.pure Bool.false_ne_true)

theorem storages_eq : repeated g.storage = repeatedRule g.storage (repeated g.storage) :=
  Reading.repeated_eq g.storage_takes

theorem databasePlaces_eq :
    repeated databasePlace = repeatedRule databasePlace (repeated databasePlace) :=
  Reading.repeated_eq ((oneOf_takes _).or_none (.pure Bool.false_ne_true))

theorem newPartitions_eq :
    repeated g.newPartition = repeatedRule g.newPartition (repeated g.newPartition) :=
  Reading.repeated_eq ((behind_takes "PARTITION" _ _).bind fun _ hn => .pure hn)

theorem parts_eq {part : Reader Unit} : parts part = partsRule part (parts part) := by
  refine Reading.again_eq fun n p q h => .bind_right fun _ => ?_
  refine (mark_takes ",").same (fun more hmore => ?_) fun more hmore => ?_
  · exact .bind_right fun b => .ite (.ite h (.refl _ _)) (.refl _ _)
  · rw [Bool.eq_false_iff.mpr hmore]
    exact .refl _ _

end Definitions

section Statements

theorem transactionModesIf_eq :
    transactionModesIf = transactionModesRule transactionModesIf := by
  refine Reading.fix_eq fun _ _ _ h required => (keywords_takes "ISOLATION" _).same_if ?_ ?_
  · exact .bind_right fun _ => .bind_right fun b => h b
  · exact (anyPhrase_takes (by decide)).same_if (.bind_right fun b => h b) (.refl _ _)

theorem objectNames_takes : Takes objectNames fun _ => True := by
  refine .bind_left (commas_takes ?_)
  unfold objectName
  rw [dottedNames_eq]
  exact .bind_left (.bind_left name_takes)

theorem flushTables_eq : flushTables = flushTablesRule flushTables := by
  refine Reading.again_eq fun n p q h => .bind_right fun s => ?_
  split
  · refine .ite (advance_takes.same_left fun _ => .bind_right fun _ => h) ?_
    refine .ite (advance_takes.same_left fun _ => .bind_right fun _ => h) ?_
    refine .ite (advance_takes.same_left fun _ => h) ?_
    exact objectNames_takes.same_left fun _ => h
  · exact .refl _ _

theorem inquiries_eq : repeated g.inquiry = repeatedRule g.inquiry (repeated g.inquiry) :=
  Reading.repeated_eq ((oneOf_takes _).or_none (.pure Bool.false_ne_true))

theorem mergeClauses_eq : g.mergeClauses = g.mergeClausesRule g.mergeClauses := by
  refine Reading.again_eq fun n p q h => .bind_right fun s => .bind_right fun b => ?_
  exact .ite ((expectKeyword_takes _).same_left fun _ => .bind_right fun _ => h) (.refl _ _)

theorem columnFormats_eq :
    repeated (attempts columnFormat) =
      repeatedRule (attempts columnFormat) (repeated (attempts columnFormat)) :=
  Reading.repeated_eq (attempts_takes (.bind_left (expectOneOf_takes _)))

theorem bareCopyOptions_eq :
    repeated (attempts bareCopyOption) =
      repeatedRule (attempts bareCopyOption) (repeated (attempts bareCopyOption)) :=
  Reading.repeated_eq (attempts_takes (.bind_left (expectOneOf_takes _)))

end Statements
end Grammar

namespace Statement

open Grammar

theorem read_takes (level : Nat) : Takes (read level) fun _ => True := by
  cases level with
  | zero => exact .fail _
  | succ level =>
    refine .bind_right fun k => .bind_right fun b => .ite (fun _ => ?_) fun _ => ?_
    · cases level with
      | zero => exact .fail _
      | succ inner => exact .bind_left (queryHere_takes _)
    refine .ite (fun _ => .bind_left advance_takes) fun _ => .bind_right fun k' => ?_
    refine .ite (fun _ => .bind_right fun _ => .bind_left ?_) fun _ => ?_
    · exact .bind_left (commas_takes (.bind_left (.bind_left name_takes)))
    refine (keywords_takes _ _).or_else ?_
    split
    · exact .bind_left advance_takes
    · exact reject_takes

theorem list_eq (level : Nat) : list (read level) = listRule (read level) (list (read level)) := by
  refine Reading.fix_eq fun _ _ _ h separated => (mark_takes ";").same_if (h true) ?_
  refine .bind_right fun s => .ite (.refl _ _) (.ite (.refl _ _) ?_)
  exact (read_takes level).same_left fun _ => (h false).bind_left

end Statement
end QueryPlan.Sql
