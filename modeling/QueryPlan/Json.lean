/-! JSON values and their text. Members keep their order. -/

namespace QueryPlan

inductive Json
  | null
  | bool (b : Bool)
  | natural (n : Nat)
  | string (s : String)
  | array (items : List Json)
  | object (members : List (String × Json))
  /-- A literal kept as it is written, because nothing reads its value: a number that is no natural
  number, or a text that names half of a surrogate pair, alone or as a member name. -/
  | raw (literal : String)

namespace Json

def hexDigit (n : Nat) : Char := (Nat.digitChar n)

def escape (c : Char) : List Char :=
  if c = '\x22' then ['\\', '\x22']
  else if c = '\\' then ['\\', '\\']
  else if c = '\x08' then ['\\', 'b']
  else if c = '\x0c' then ['\\', 'f']
  else if c = '\n' then ['\\', 'n']
  else if c = '\r' then ['\\', 'r']
  else if c = '\t' then ['\\', 't']
  else if c.toNat < 0x20 then
    ['\\', 'u', '0', '0', hexDigit (c.toNat / 16), hexDigit (c.toNat % 16)]
  else [c]

def renderString (s : String) : List Char := '\x22' :: (s.toList.flatMap escape ++ ['\x22'])

mutual

def render : Json → List Char
  | null => ['n', 'u', 'l', 'l']
  | bool true => ['t', 'r', 'u', 'e']
  | bool false => ['f', 'a', 'l', 's', 'e']
  | natural n => Nat.toDigits 10 n
  | string s => renderString s
  | array items => '[' :: (renderItems items ++ [']'])
  | object members => '\x7b' :: (renderMembers members ++ ['\x7d'])
  | raw literal => literal.toList

def renderItems : List Json → List Char
  | [] => []
  | [j] => render j
  | j :: rest => render j ++ ',' :: renderItems rest

def renderMembers : List (String × Json) → List Char
  | [] => []
  | [(k, j)] => renderString k ++ ':' :: render j
  | (k, j) :: rest => renderString k ++ ':' :: (render j ++ ',' :: renderMembers rest)

end

def compact (j : Json) : String := String.ofList j.render

def indent (depth : Nat) : List Char := '\n' :: List.replicate (2 * depth) ' '

mutual

def renderPretty (depth : Nat) : Json → List Char
  | array (j :: rest) => '[' :: (prettyItems (depth + 1) (j :: rest) ++ indent depth ++ [']'])
  | object (m :: rest) =>
    '\x7b' :: (prettyMembers (depth + 1) (m :: rest) ++ indent depth ++ ['\x7d'])
  | array [] => ['[', ']']
  | object [] => ['\x7b', '\x7d']
  | null => ['n', 'u', 'l', 'l']
  | bool true => ['t', 'r', 'u', 'e']
  | bool false => ['f', 'a', 'l', 's', 'e']
  | natural n => Nat.toDigits 10 n
  | string s => renderString s
  | raw literal => literal.toList

def prettyItems (depth : Nat) : List Json → List Char
  | [] => []
  | [j] => indent depth ++ renderPretty depth j
  | j :: rest => indent depth ++ renderPretty depth j ++ ',' :: prettyItems depth rest

def prettyMembers (depth : Nat) : List (String × Json) → List Char
  | [] => []
  | [(k, j)] => indent depth ++ renderString k ++ ':' :: ' ' :: renderPretty depth j
  | (k, j) :: rest =>
    indent depth ++ renderString k ++ ':' :: ' ' :: renderPretty depth j ++
      ',' :: prettyMembers depth rest

end

def pretty (j : Json) : String := String.ofList (j.renderPretty 0)

end Json
end QueryPlan
