import QueryPlan.Command
import QueryPlan.Text.Lines

/-! A folder of texts, held in memory. It contains a folder wherever a file lies deeper. -/

namespace QueryPlan.Command

structure Folder where
  /-- Each file by the names on the way to it. -/
  files : List (List String × String) := []

namespace Folder

def parts (path : String) : List String := (Text.split '/' path.toList).map String.ofList

def file? (f : Folder) (names : List String) : Option String := f.files.lookup names

def contains (f : Folder) (names : List String) : Bool :=
  names.isEmpty || f.files.any fun (p, _) => names.length < p.length && names.isPrefixOf p

def put (f : Folder) (names : List String) (text : String) : Folder :=
  ⟨(names, text) :: f.files.filter (·.1 != names)⟩

inductive Place
  | folder (names : List String)
  | file (text : String)

def follow (f : Folder) : List String → List String → Except FileError Place
  | here, [] => .ok (.folder here)
  | here, part :: rest =>
    if part = "" ∨ part = "." then follow f here rest
    else if part = ".." then
      if here.isEmpty then .error .missing else follow f here.dropLast rest
    else if f.contains (here ++ [part]) then follow f (here ++ [part]) rest
    else
      match f.file? (here ++ [part]), rest with
      | some text, [] => .ok (.file text)
      | some _, _ => .error .notAFolder
      | none, _ => .error .missing

def place (f : Folder) (path : String) : Except FileError Place :=
  if path.isEmpty ∨ path.startsWith "/" then .error .missing else f.follow [] (parts path)

def read (f : Folder) (path : String) : Except FileError String := do
  match ← f.place path with
  | .folder _ => .error .isAFolder
  | .file text => return text

def write (f : Folder) (path text : String) : Except FileError Folder := do
  if path.isEmpty ∨ path.startsWith "/" then throw .missing
  let named := ((parts path).reverse.dropWhile (·.isEmpty)).reverse
  match named.getLast?, ← f.follow [] named.dropLast with
  | _, .file _ => throw .notAFolder
  | none, .folder _ => throw .isAFolder
  | some name, .folder here =>
    let file := here ++ [name]
    if name = "." ∨ name = ".." ∨ named.length < (parts path).length ∨ f.contains file then
      throw .isAFolder
    return f.put file text

def ofFiles (files : List (String × String)) : Folder :=
  files.foldl (fun f (path, text) =>
    f.put ((parts path).filter fun p => p != "" && p != ".") text) {}

end Folder

structure Session where
  folder : Folder
  printed : String := ""
  complaints : String := ""

namespace Session

def surroundings (input : String) : Surroundings (StateM Session) where
  input := return .ok input
  read path := do return (← get).folder.read path
  write path text := do
    let s ← get
    match s.folder.write path text with
    | .ok f => set { s with folder := f }; return .ok ()
    | .error e => return .error e
  print text := modify fun s => { s with printed := s.printed ++ text }
  complain text := modify fun s => { s with complaints := s.complaints ++ text }

end Session
end QueryPlan.Command
