import QueryPlan.Yaml.Scalar

/-! Tokens of YAML text, and those that are read without a look at their surroundings. -/

namespace QueryPlan.Yaml

inductive Token
  | version (major minor : Nat)
  | tagStem (handle stem : String)
  | documentStart
  | documentEnd
  | blockSequence
  | blockMapping
  | blockEnd
  | flowSequence
  | flowSequenceEnd
  | flowMapping
  | flowMappingEnd
  | entry
  | flowEntry
  | key
  | value
  | reference (name : String)
  | anchor (name : String)
  | tag (handle suffix : String)
  | scalar (style : Style) (text : String)
deriving DecidableEq

namespace Scan

open Reading (here fail many)

def anchorName : Scan String := do
  let name ← takeWhile isWordChar
  let ended := match ← peek with
    | some c => endsWord (some c) || ['?', ':', ',', ']', '\x7d', '%', '@', '\x60'].contains c
    | none => true
  if name.isEmpty ∨ !ended then fail ()
  return String.ofList name

def percentByte : Scan UInt8 := do
  if !(← take '%') then fail ()
  let digits := (← here).rest.take 2
  skip 2
  match named digits with
  | some c => return UInt8.ofNat c.toNat
  | none => fail ()

def percentChar : Scan Char := do
  let first ← percentByte
  let more ←
    if first < 0x80 then pure 0
    else if first &&& 0xe0 = 0xc0 then pure 1
    else if first &&& 0xf0 = 0xe0 then pure 2
    else if first &&& 0xf8 = 0xf0 then pure 3
    else fail ()
  let later ← (List.replicate more ()).mapM fun _ => do
    let b ← percentByte
    if b &&& 0xc0 ≠ 0x80 then fail ()
    return b
  match String.fromUTF8? ⟨(first :: later).toArray⟩ with
  | some s =>
    match s.toList with
    | [c] => return c
    | _ => fail ()
  | none => fail ()

def tagSigns : List Char :=
  [';', '/', '?', ':', '@', '&', '=', '+', '$', '.', '!', '~', '*', '\x27', '(', ')', '%']

def isTagChar (verbatim : Bool) (c : Char) : Bool :=
  isWordChar c || tagSigns.contains c || verbatim && [',', '[', ']'].contains c

def tagChar (verbatim : Bool) : Scan (Option Char) := do
  if (← peek) = some '%' then return some (← percentChar) else takeIf (isTagChar verbatim)

def tagText (verbatim : Bool) : Scan (List Char) := many (tagChar verbatim)

def tagHandle : Scan (List Char) := do
  if !(← take '!') then fail ()
  let word ← takeWhile isWordChar
  if ← take '!' then return '!' :: word ++ ['!'] else return '!' :: word

def verbatimTag : Scan (List Char × List Char) := do
  skip 2
  let text ← tagText true
  if text.isEmpty ∨ !(← take '>') then fail ()
  return ([], text)

/-- A tag with a handle, or a local one. A mark by itself is a tag of its own. -/
def shortTag : Scan (List Char × List Char) := do
  let handle ← tagHandle
  if handle.length > 1 ∧ handle.getLast? = some '!' then
    let text ← tagText false
    if text.isEmpty then fail ()
    return (handle, text)
  else
    let text := handle.drop 1 ++ (← tagText false)
    return if text.isEmpty then ([], ['!']) else (['!'], text)

def tag (inFlow : Bool) : Scan Token := do
  let (handle, suffix) ← if (← peek 1) = some '<' then verbatimTag else shortTag
  let c ← peek
  if !(endsWord c ∨ inFlow ∧ c = some ',') then fail ()
  return .tag (String.ofList handle) (String.ofList suffix)

def versionPart : Scan Nat := do
  let digits ← takeWhile Char.isDigit
  if digits.isEmpty ∨ digits.length > 9 then fail ()
  return digits.foldl (fun n d => 10 * n + (d.toNat - '0'.toNat)) 0

def directive : Scan Token := do
  let name ← takeWhile isWordChar
  if !endsWord (← peek) then fail ()
  if name = ['Y', 'A', 'M', 'L'] then
    skipBlanks
    let major ← versionPart
    if !(← take '.') then fail ()
    let minor ← versionPart
    finishLine
    return .version major minor
  else if name = ['T', 'A', 'G'] then
    skipBlanks
    let handle ← tagHandle
    if handle ≠ ['!'] ∧ handle.getLast? ≠ some '!' then fail ()
    if !((← peek).any isBlank) then fail ()
    skipBlanks
    let stem ← tagText true
    if stem.isEmpty ∨ !endsWord (← peek) then fail ()
    finishLine
    return .tagStem (String.ofList handle) (String.ofList stem)
  else fail ()

end Scan
end QueryPlan.Yaml
