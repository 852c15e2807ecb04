import QueryPlan.Sql.Grammar.Alteration
import QueryPlan.Sql.Grammar.Copy
import QueryPlan.Sql.Grammar.Session
import QueryPlan.Sql.Grammar.Upkeep
import QueryPlan.Sql.Lexer

/-! Statements and lists of statements. All kinds are read to their ends, but only of queries is
anything kept. -/

namespace QueryPlan.Sql

namespace Statement

open Reading (fix)
open Reader Grammar

/-- Levels of nesting that a statement may open, itself included. -/
def levels : Nat := 50

/-- Statements with semicolons between them. The keyword that ends a block after a statement ends
the list, whatever follows it. -/
def listRule (statement : Reader Statement) (self : Bool → Reader (List Statement))
    (separated : Bool) : Reader (List Statement) := do
  if ← mark ";" then self true
  else if (← peek).isNone then return []
  else if !separated then
    if (← peekKeyword) = "END" then return [] else fail
  else
    let s ← statement
    return s :: (← self false)

def list (statement : Reader Statement) : Bool → Reader (List Statement) :=
  fix (listRule statement)

def rest? (g : Grammar) (inner : Reader Statement) (k : String) : Option (Reader Unit) :=
  match k with
  | "INSERT" | "REPLACE" => some (discard (g.insert k))
  | "UPDATE" => some (discard g.update)
  | "DELETE" => some g.delete
  | "MERGE" => some g.merge
  | "CREATE" => some (g.create (discard (list inner true)))
  | "DROP" => some g.drop
  | "ALTER" => some g.alter
  | "GRANT" => some grant
  | "REVOKE" => some revoke
  | "SET" => some g.setting
  | "SHOW" => some g.showing
  | "USE" => some (discard objectName)
  | "BEGIN" => some do
    discard (oneOf ["TRANSACTION", "WORK"])
    transactionModes
  | "START" => some do
    expectKeyword "TRANSACTION"
    transactionModes
  | "COMMIT" | "END" => some chained
  | "ROLLBACK" => some rollback
  | "SAVEPOINT" => some (discard name)
  | "RELEASE" => some do
    discard (keyword "SAVEPOINT")
    discard name
  | "DECLARE" => some g.declare
  | "FETCH" => some fetchRows
  | "CLOSE" => some (discard name)
  | "PREPARE" => some (prepare (discard inner))
  | "EXECUTE" | "EXEC" => some g.execute
  | "DEALLOCATE" => some do
    discard (keyword "PREPARE")
    discard name
  | "CALL" => some g.callProcedure
  | "COPY" => some g.copy
  | "UNLOAD" => some g.unload
  | "KILL" => some kill
  | "FLUSH" => some flush
  | "ANALYZE" => some g.analyze
  | "TRUNCATE" => some g.truncate
  | "ATTACH" => some g.attachment
  | "MSCK" => some repair
  | "CACHE" => some g.cache
  | "UNCACHE" => some uncache
  | "DISCARD" => some (discard (expectOneOf ["ALL", "PLANS", "SEQUENCES", "TEMP", "TEMPORARY"]))
  | "PRAGMA" => some pragma
  | "ASSERT" => some g.assertion
  | _ => none

/-- What asks about a statement, after its first keyword; what is no statement names a table. -/
def explain (inner : Reader Statement) : Reader Statement := do
  if !(← keywords ["QUERY", "PLAN"]) then
    discard (keyword "ANALYZE")
    discard (keyword "VERBOSE")
    if ← keyword "FORMAT" then discard (takeOneOf ["TEXT", "GRAPHVIZ", "JSON"])
  match ← attempt inner with
  | some .explanation => failNowhere
  | some _ => return .explanation
  | none =>
    discard (oneOf ["EXTENDED", "FORMATTED"])
    discard objectName
    return .explanation

def read : Nat → Reader Statement
  | 0 => failDeep
  | level + 1 => do
    let g := ofLevels level
    let k ← peekKeyword
    if k ∈ ["SELECT", "WITH", "VALUES"] ∨ (← peekMark "(") then
      match level with
      | 0 => failDeep
      | inner + 1 => return .query (← (ofLevels inner).queryHere)
    else if k ∈ ["EXPLAIN", "DESCRIBE", "DESC"] then
      advance
      explain (read level)
    else if k = "LOCK" ∧ (← peekKeyword 1) = "TABLES" then
      discard (keywords ["LOCK", "TABLES"])
      discard (commas tableLock)
      return .other
    else if ← keywords ["UNLOCK", "TABLES"] then return .other
    else
      match rest? g (read level) k with
      | some rest =>
        advance
        rest
        return .other
      | none => reject

def ofText (text : String) : Except Nat (List Statement) := do
  let ts ← tokens text
  match ((list (read levels) true).run ts).1 with
  | .ok ss => .ok ss
  | .error (.unexpected line) => .error line
  | .error .tooDeep => .error 1

end Statement
end QueryPlan.Sql
