import QueryPlan.Yaml.Node
import QueryPlan.Text.Decimal

/-! What a scalar means where no type is expected, and values read from nodes: texts, counts, lists
and records. Aliases are followed, though not without end. -/

namespace QueryPlan.Yaml

inductive Content
  | null
  | text (s : String)
  | natural (n : Nat)
  | other
  | sequence (items : List Content)
  | mapping (entries : List (Content × Content))

namespace Plain

def isNull (s : String) : Bool := s ∈ ["null", "Null", "NULL", "~"]

def isTruthValue (s : String) : Bool := s ∈ ["true", "True", "TRUE", "false", "False", "FALSE"]

def digit? (c : Char) : Option Nat :=
  if c.isDigit then some (c.toNat - '0'.toNat)
  else if 'a' ≤ c ∧ c ≤ 'f' then some (c.toNat - 'a'.toNat + 10)
  else if 'A' ≤ c ∧ c ≤ 'F' then some (c.toNat - 'A'.toNat + 10)
  else none

def inBase? (base : Nat) (cs : List Char) : Option Nat :=
  if cs.isEmpty then none
  else cs.foldlM (fun n c => do
    let d ← digit? c
    if d < base then some (base * n + d) else none) 0

def isZeroPadded : List Char → Bool
  | '0' :: c :: rest => (c :: rest).all Text.isDigit
  | _ => false

def magnitude? : List Char → Option Nat
  | '0' :: 'x' :: cs => inBase? 16 cs
  | '0' :: 'o' :: cs => inBase? 8 cs
  | '0' :: 'b' :: cs => inBase? 2 cs
  | cs => if isZeroPadded cs then none else inBase? 10 cs

def natural? : List Char → Option Nat
  | '+' :: cs => magnitude? cs
  | cs => magnitude? cs

def negative? : List Char → Option Nat
  | '-' :: cs => magnitude? cs
  | _ => none

/-- Ten to the `e` times `m` is nearer to a number of 64-bit floating point than to infinity. -/
def isFinite (m : Nat) (e : Int) : Bool :=
  let length : Int := (Nat.toDigits 10 m).length
  if m = 0 ∨ length + e ≤ 308 then true
  else if length + e > 310 then false
  else
    let bound := Nat.pow 2 1024 - Nat.pow 2 970
    if e ≥ 0 then m * Nat.pow 10 e.toNat < bound else m < bound * Nat.pow 10 (-e).toNat

def isFraction (cs : List Char) : Bool :=
  let cs := match cs with
    | '+' :: r => r
    | '-' :: r => r
    | r => r
  let whole := cs.takeWhile Text.isDigit
  let rest := cs.drop whole.length
  let (fraction, rest) := match rest with
    | '.' :: r => (r.takeWhile Text.isDigit, r.dropWhile Text.isDigit)
    | r => ([], r)
  match inBase? 10 (whole ++ fraction), rest with
  | none, _ => false
  | some m, [] => isFinite m (-fraction.length)
  | some m, e :: r =>
    let (down, r) := match r with
      | '-' :: r => (true, r)
      | '+' :: r => (false, r)
      | r => (false, r)
    match inBase? 10 r with
    | some x =>
      (e = 'e' || e = 'E') && isFinite m ((if down then -(x : Int) else x) - fraction.length)
    | none => false

def isFloat (cs : List Char) : Bool :=
  let s := String.ofList cs
  s ∈ [".inf", ".Inf", ".INF", "+.inf", "+.Inf", "+.INF", "-.inf", "-.Inf", "-.INF", ".nan", ".NaN",
    ".NAN"] || isFraction cs

/-- A whole number of up to 64 bits; the inner answer is missing for one of more bits, which is not
read at all. -/
def whole? (cs : List Char) : Option (Option Content) :=
  match natural? cs, negative? cs with
  | some n, _ =>
    if n < UInt64.size then some (some (.natural n))
    else if n < Nat.pow 2 128 then some none
    else none
  | none, some n =>
    if 2 * n ≤ UInt64.size then some (some .other)
    else if n ≤ Nat.pow 2 127 then some none
    else none
  | none, none => none

def content (s : String) : Option Content :=
  let cs := s.toList
  if s.isEmpty ∨ isNull s then some .null
  else if isTruthValue s then some .other
  else
    match whole? cs with
    | some c => c
    | none =>
      let unsigned := match cs with
        | '+' :: r => r
        | '-' :: r => r
        | r => r
      if !isZeroPadded unsigned ∧ isFloat cs then some .other else some (.text s)

end Plain

def typeTag (name : String) : String := "tag:yaml.org,2002:" ++ name

def scalarContent (tag : Option String) (style : Style) (s : String) : Option Content :=
  match tag with
  | none => if style = .plain then Plain.content s else some (.text s)
  | some t =>
    if t.startsWith "!" then none
    else if t = typeTag "bool" then if Plain.isTruthValue s then some .other else none
    else if t = typeTag "int" then (Plain.whole? s.toList).join
    else if t = typeTag "float" then if Plain.isFloat s.toList then some .other else none
    else if t = typeTag "null" then if Plain.isNull s then some .null else none
    else some (.text s)

abbrev Take (α : Type) := ReaderT Document (StateT Nat Option) α

namespace Take

/-- The node itself, or what an alias refers to. Aliases are followed at most a hundred times as
often as the document has places. -/
def follow : Node → Take Node
  | .reference n => do
    let followed ← modifyGet fun k => (k + 1, k + 1)
    let d ← read
    if followed > 100 * d.places then failure
    match d.target? n with
    | some node => return node
    | none => failure
  | node => return node

def text (n : Node) : Take String := do
  match ← follow n with
  | .scalar _ _ s => return s
  | _ => failure

def count (n : Node) : Take Count := do
  match ← follow n with
  | .scalar tag style s =>
    if style = .plain ∨ style = .literal ∧ tag = some (typeTag "int") then
      match (Plain.natural? s.toList).bind Count.ofNat? with
      | some c => return c
      | none => failure
    else failure
  | _ => failure

def list {α : Type} (item : Node → Take α) (n : Node) : Take (List α) := do
  match ← follow n with
  | .sequence _ items => items.mapM item
  | .scalar _ .plain "" => return []
  | _ => failure

def record (n : Node) : Take (List (String × Node)) := do
  match ← follow n with
  | .mapping _ entries => entries.mapM fun (k, v) => do return (← text k, v)
  | .scalar _ .plain "" => return []
  | _ => failure

def field? (entries : List (String × Node)) (name : String) : Take (Option Node) :=
  match entries.filter (·.1 == name) with
  | [] => return none
  | [(_, n)] => return some n
  | _ => failure

def field (entries : List (String × Node)) (name : String) : Take Node := do
  match ← field? entries name with
  | some n => return n
  | none => failure

def optional {α : Type} (value : Node → Take α) (n : Node) : Take (Option α) := do
  let n ← follow n
  match n with
  | .scalar tag .plain s =>
    match tag with
    | none => if s.isEmpty ∨ Plain.isNull s then return none else return some (← value n)
    | some t =>
      if t ≠ typeTag "null" then return some (← value n)
      else if Plain.isNull s then return none
      else failure
  | n => return some (← value n)

def untagged (tag : Option String) : Take Unit :=
  if tag.any (·.startsWith "!") then failure else return ()

def content : Nat → Node → Take Content
  | levels, n => do
    match ← follow n with
    | .scalar tag style s =>
      match scalarContent tag style s with
      | some c => return c
      | none => failure
    | .sequence tag items =>
      untagged tag
      match levels with
      | 0 => failure
      | levels + 1 => return .sequence (← items.mapM (content levels))
    | .mapping tag entries =>
      untagged tag
      match levels with
      | 0 => failure
      | levels + 1 =>
        return .mapping (← entries.mapM fun (k, v) => do
          return (← content levels k, ← content levels v))
    | .reference _ => failure

def ofText? {α : Type} (value : Node → Take α) (text : String) : Option α := do
  let d ← Document.ofText? text
  let root := d.root.getD (.scalar none .plain "")
  let (a, _) ← StateT.run (ReaderT.run (value root) d) 0
  return a

end Take
end QueryPlan.Yaml
