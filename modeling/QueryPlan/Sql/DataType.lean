import QueryPlan.Sql.Literal

/-! Names of data types, read into the text that shows them. -/

namespace QueryPlan.Sql

inductive DataType
  | interval
  | standard (shown : String)
  | custom (shown : String)

namespace DataType

def shown : DataType → String
  | interval => "INTERVAL"
  | standard s => s
  | custom s => s

def plain : List (String × String) := [
  ("BOOLEAN", "BOOLEAN"), ("BOOL", "BOOL"), ("REAL", "REAL"), ("FLOAT4", "FLOAT4"),
  ("FLOAT8", "FLOAT8"), ("FLOAT32", "Float32"), ("FLOAT64", "FLOAT64"), ("INT16", "Int16"),
  ("INT32", "Int32"), ("INT64", "INT64"), ("INT128", "Int128"), ("INT256", "Int256"),
  ("UINT8", "UInt8"), ("UINT16", "UInt16"), ("UINT32", "UInt32"), ("UINT64", "UInt64"),
  ("UINT128", "UInt128"), ("UINT256", "UInt256"), ("UUID", "UUID"), ("DATE", "DATE"),
  ("DATE32", "Date32"), ("JSON", "JSON"), ("JSONB", "JSONB"), ("REGCLASS", "REGCLASS"),
  ("TEXT", "TEXT"), ("BYTEA", "BYTEA"), ("TRIGGER", "TRIGGER")]

def whole : List String :=
  ["TINYINT", "INT2", "SMALLINT", "MEDIUMINT", "INT", "INT4", "INT8", "INTEGER", "BIGINT"]

def sized : List String :=
  ["FLOAT", "DATETIME", "CLOB", "BINARY", "VARBINARY", "BLOB", "BYTES", "STRING"]

def exact : List String := ["NUMERIC", "DECIMAL", "DEC", "BIGNUMERIC", "BIGDECIMAL"]

open Reading (here again fix)
open Reader

def precision : Reader String := do
  if ← peekMark "(" then return "(" ++ (← inParens literalNumber) ++ ")" else return ""

def precisionAndScale : Reader String := do
  if ← mark "(" then
    let p ← literalNumber
    let s ← if ← mark "," then pure ("," ++ (← literalNumber)) else pure ""
    expectMark ")"
    return "(" ++ p ++ s ++ ")"
  else return ""

def characterLength : Reader String := do
  if ← mark "(" then
    if ← keyword "MAX" then
      expectMark ")"
      return "(MAX)"
    let n ← literalNumber
    let unit ← oneOf ["CHARACTERS", "OCTETS"]
    expectMark ")"
    return "(" ++ n ++ (unit.map (" " ++ ·)).getD "" ++ ")"
  else return ""

def zone : Reader String := do
  if ← keyword "WITH" then
    expectKeywords ["TIME", "ZONE"]
    return " WITH TIME ZONE"
  else if ← keyword "WITHOUT" then
    expectKeywords ["TIME", "ZONE"]
    return " WITHOUT TIME ZONE"
  else return ""

def quotedValues : Reader (List String) := do
  let texts ← commas quotedText
  if ← mark ")" then return texts.map (inQuotes '\x27') else reject

def preciseTime : Reader String := inParens do
  let p ← literalNumber
  let zone ← if ← mark "," then pure (", '" ++ (← literalText) ++ "'") else pure ""
  return "DateTime64(" ++ p ++ zone ++ ")"

def modifierName (n : Name) : String :=
  match n.quote with
  | some q => q.toString ++ n.text ++ q.toString
  | none => n.text

def modifiersRule (self : Reader (List String)) : Reader (List String) := do
  let start ← here
  match ← next with
  | some (.word n _) => return modifierName n :: (← self)
  | some (.number d _) => return d :: (← self)
  | some (.string '\x27' s) => return s :: (← self)
  | some (.mark ",") => self
  | some (.mark ")") => return []
  | _ => failAt start

def modifiers : Reader (List String) := again modifiersRule

def named : Reader DataType := do
  let n := dotted (← dottedNames)
  if ← mark "(" then
    let ms ← modifiers
    return .custom (if ms.isEmpty then n else n ++ "(" ++ listed ms ++ ")")
  else return .custom n

def arraysRule (self : DataType → Reader DataType) (t : DataType) : Reader DataType := do
  if ← mark "[" then
    expectMark "]"
    self (.standard (t.shown ++ "[]"))
  else return t

def arrays : DataType → Reader DataType := fix arraysRule

def standardAt (k : String) : Reader DataType := do
  advance
  if let some (_, s) := plain.find? (·.1 = k) then return .standard s
  if k ∈ whole then
    let p ← precision
    return .standard (k ++ p ++ if ← keyword "UNSIGNED" then " UNSIGNED" else "")
  if k ∈ sized then return .standard (k ++ (← precision))
  if k ∈ exact then return .standard (k ++ (← precisionAndScale))
  if k = "DOUBLE" then
    return .standard (if ← keyword "PRECISION" then "DOUBLE PRECISION" else "DOUBLE")
  if k = "VARCHAR" ∨ k = "NVARCHAR" then return .standard (k ++ (← characterLength))
  if k = "CHAR" ∨ k = "CHARACTER" then
    if ← keyword "VARYING" then return .standard (k ++ " VARYING" ++ (← characterLength))
    if ← keywords ["LARGE", "OBJECT"] then return .standard (k ++ " LARGE OBJECT" ++ (← precision))
    return .standard (k ++ (← characterLength))
  if k = "FIXEDSTRING" then return .standard ("FixedString(" ++ (← inParens literalNumber) ++ ")")
  if k = "DATETIME64" then return .standard (← preciseTime)
  if k = "TIMESTAMP" ∨ k = "TIME" then
    let p ← precision
    return .standard (k ++ p ++ (← zone))
  if k = "TIMESTAMPTZ" ∨ k = "TIMETZ" then return .standard (k ++ (← precision))
  if k = "ENUM" ∨ k = "SET" then
    expectMark "("
    return .standard (k ++ "(" ++ listed (← quotedValues) ++ ")")
  if k = "INTERVAL" then return .interval
  fail

def special : List String :=
  ["DOUBLE", "VARCHAR", "NVARCHAR", "CHAR", "CHARACTER", "FIXEDSTRING", "DATETIME64", "TIMESTAMP",
    "TIME", "TIMESTAMPTZ", "TIMETZ", "ENUM", "SET", "INTERVAL"]

/-- A data type, and whether the bracket that closes an outer array was taken with it. -/
def innerRule (self : Reader (DataType × Bool)) : Reader (DataType × Bool) := do
  let k ← peekKeyword
  if k = "ARRAY" then
    advance
    expectMark "<"
    let (element, closed) ← self
    let twice ← if closed then pure false else
      if ← mark ">>" then pure true else
        expectMark ">"
        pure false
    return (← arrays (.standard ("ARRAY<" ++ element.shown ++ ">")), twice)
  else if k ∈ plain.map (·.1) ∨ k ∈ whole ∨ k ∈ sized ∨ k ∈ exact ∨ k ∈ special then
    return (← arrays (← standardAt k), false)
  else
    match ← peek with
    | some (.word ..) => return (← arrays (← named), false)
    | _ => reject

def inner : Reader (DataType × Bool) := again innerRule

def read : Reader DataType := do
  let (t, closed) ← inner
  if closed then failNowhere
  return t

end DataType
end QueryPlan.Sql
