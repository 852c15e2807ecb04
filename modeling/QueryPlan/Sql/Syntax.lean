import QueryPlan.Sql.Token

/-! Expressions and queries, as far as a plan can come from them, and their text in normal form: one
space around an operator, keywords in upper case, strings in the quotes they came in. A part that no
plan can come from is kept as the text that shows it. -/

namespace QueryPlan.Sql

/-- The text of a quoted name or string between its quotes: a quote is doubled, unless a
backslash precedes it or the text doubles it already. -/
def requoted (quote previous : Char) : List Char → List Char
  | [] => []
  | [c] => if c = quote ∧ previous ≠ '\\' then [c, c] else [c]
  | c :: d :: rest =>
    if c = quote then
      if previous = '\\' then c :: requoted quote previous (d :: rest)
      else if d = quote then c :: c :: requoted quote c rest
      else c :: c :: requoted quote c (d :: rest)
    else c :: requoted quote c (d :: rest)

def inQuotes (quote : Char) (s : String) : String :=
  String.ofList (quote :: requoted quote '\x00' s.toList ++ [quote])

def Name.shown (n : Name) : String :=
  match n.quote with
  | some q => inQuotes q n.text
  | none => n.text

def dotted (names : List Name) : String := ".".intercalate (names.map Name.shown)

def listed (items : List String) : String := ", ".intercalate items

inductive Operator
  | and
  | equal
  | other (shown : String)
deriving DecidableEq

def Operator.text : Operator → String
  | and => "AND"
  | equal => "="
  | other s => s

inductive Expression
  | name (n : Name)
  | qualified (parts : List Name)
  | string (quote : Char) (text : String)
  | number (digits : String) (long : Bool)
  | nested (inner : Expression)
  | binary (left : Expression) (op : Operator) (right : Expression)
  | subquery (shown : String)
  | other (shown : String)

namespace Expression

def text : Expression → String
  | name n => n.shown
  | qualified parts => dotted parts
  | string q s => inQuotes q s
  | number digits long => if long then digits ++ "L" else digits
  | nested e => "(" ++ e.text ++ ")"
  | binary l op r => l.text ++ " " ++ op.text ++ " " ++ r.text
  | subquery s => "(" ++ s ++ ")"
  | other s => s

end Expression

inductive Item
  | all
  | expression (e : Expression)
  | other (shown : String)

def Item.text : Item → String
  | all => "*"
  | expression e => e.text
  | other s => s

inductive Table
  | named (name : List Name) (details : String)
  | other (shown : String)

def Table.text : Table → String
  | named n details => dotted n ++ details
  | other s => s

structure Source where
  table : Table
  joins : List String

def Source.text (s : Source) : String := s.table.text ++ String.join s.joins

structure Select where
  distinct : Option String
  top : Option String
  items : List Item
  into : Option String
  sources : List Source
  views : List String
  condition : Option Expression
  grouping : List String
  having : Option String
  windows : List String

def Select.text (s : Select) : String :=
  " ".intercalate (["SELECT"] ++ s.distinct.toList ++ s.top.toList ++
    [listed (s.items.map Item.text)] ++ s.into.toList ++
    (if s.sources.isEmpty then [] else ["FROM " ++ listed (s.sources.map Source.text)]) ++
    s.views ++ (s.condition.map fun e => "WHERE " ++ e.text).toList ++ s.grouping ++
    (s.having.map ("HAVING " ++ ·)).toList ++ s.windows)

inductive Body
  | select (s : Select)
  | other (shown : String)

def Body.text : Body → String
  | select s => s.text
  | other s => s

structure Retrieval where
  definitions : Option String
  body : Body
  clauses : List String

def Retrieval.text (r : Retrieval) : String :=
  " ".intercalate (r.definitions.toList ++ [r.body.text] ++ r.clauses)

inductive Statement
  | query (r : Retrieval)
  | explanation
  | other

end QueryPlan.Sql
