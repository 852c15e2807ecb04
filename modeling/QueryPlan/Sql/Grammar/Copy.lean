import QueryPlan.Sql.Grammar

/-! Statements that copy rows from files and into files. -/

namespace QueryPlan.Sql.Grammar

open Reading (repeated update)
open Reader

def copyOption : Reader Unit := do
  match ← expectOneOf ["FORMAT", "FREEZE", "DELIMITER", "NULL", "HEADER", "QUOTE", "ESCAPE",
      "FORCE_QUOTE", "FORCE_NOT_NULL", "FORCE_NULL", "ENCODING"] with
  | "FORMAT" => discard name
  | "FREEZE" | "HEADER" => discard (oneOf ["TRUE", "FALSE"])
  | "DELIMITER" | "QUOTE" | "ESCAPE" => literalCharacter
  | "NULL" | "ENCODING" => discard literalText
  | _ => discard columns

def columnFormat : Reader Unit := do
  match ← expectOneOf ["HEADER", "QUOTE", "ESCAPE", "FORCE"] with
  | "HEADER" => return ()
  | "FORCE" =>
    expectPhrase [["NOT", "NULL"], ["QUOTE"]]
    names
  | _ =>
    discard (keyword "AS")
    literalCharacter

def bareCopyOption : Reader Unit := do
  match ← expectOneOf ["BINARY", "DELIMITER", "NULL", "CSV"] with
  | "BINARY" => return ()
  | "DELIMITER" =>
    discard (keyword "AS")
    literalCharacter
  | "NULL" =>
    discard (keyword "AS")
    discard literalText
  | _ => repeated (attempts columnFormat)

/-- Skips rows given in the text itself, up to a backslash and a full stop. -/
def rowsInText : List Token → List Token
  | [] => []
  | ⟨.mark "\\", _⟩ :: ⟨.mark ".", _⟩ :: rest => rest
  | ⟨.mark "\\", _⟩ :: _ :: rest => rowsInText rest
  | _ :: rest => rowsInText rest

theorem rowsInText_length (ts : List Token) : (rowsInText ts).length ≤ ts.length := by
  induction ts using rowsInText.induct with
  | case1 => exact Nat.le_refl _
  | case2 => simp [rowsInText]; omega
  | case3 => simp [rowsInText]; omega
  | case4 => simp [rowsInText]; omega

def copy (g : Grammar) : Reader Unit := do
  let isQuery ← peekMark "("
  if isQuery then discard (inParens g.query)
  else
    discard objectName
    discard optionalColumns
  let direction ← expectOneOf ["FROM", "TO"]
  if isQuery ∧ direction = "FROM" then failNowhere
  let place ← oneOf ["STDIN", "STDOUT", "PROGRAM"]
  if place = none ∨ place = some "PROGRAM" then discard literalText
  discard (keyword "WITH")
  if ← peekMark "(" then discard (inParens (commas copyOption))
  repeated (attempts bareCopyOption)
  if place = some "STDIN" then
    expectMark ";"
    update rowsInText rowsInText_length

def unload (g : Grammar) : Reader Unit := do
  discard (inParens g.query)
  expectKeyword "TO"
  discard name
  g.properties "WITH"

end QueryPlan.Sql.Grammar
