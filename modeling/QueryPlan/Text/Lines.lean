import QueryPlan.Text.Character

/-! Pieces of a text: what is left without the white space at its ends, what stands between
separators, and its lines. A line feed ends a line, and a carriage return before it belongs to the
ending; what follows the last line feed is a line too, unless nothing follows. -/

namespace QueryPlan.Text

def trimStart (cs : List Char) : List Char := cs.dropWhile isBlank

def trimEnd (cs : List Char) : List Char := (cs.reverse.dropWhile isBlank).reverse

def trim (s : String) : String := String.ofList (trimEnd (trimStart s.toList))

def cut (sep : Char) (cs : List Char) : List Char × Option (List Char) :=
  (cs.takeWhile (· != sep),
    match cs.dropWhile (· != sep) with
    | [] => none
    | _ :: rest => some rest)

def split (sep : Char) : List Char → List (List Char)
  | [] => [[]]
  | c :: cs =>
    if c = sep then [] :: split sep cs
    else
      match split sep cs with
      | [] => [[c]]
      | piece :: rest => (c :: piece) :: rest

def withoutReturn (line : List Char) : List Char :=
  if line.getLast? = some '\r' then line.dropLast else line

def linesOf : List (List Char) → List (List Char)
  | [] => []
  | [last] => if last = [] then [] else [last]
  | piece :: rest => withoutReturn piece :: linesOf rest

def lines (cs : List Char) : List (List Char) := linesOf (split '\n' cs)

def firstLines : Nat → List Char → List Char
  | 0, _ => []
  | k + 1, cs =>
    match cut '\n' cs with
    | (line, none) => line
    | (line, some rest) => line ++ '\n' :: firstLines k rest

end QueryPlan.Text
