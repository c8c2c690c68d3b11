import Readback.Extent
import Readback.Files.Path

namespace Readback

/-- A file, or a directory with its names in order. -/
inductive FileTree
  | file (content : Extent)
  | directory (names : List (String × FileTree))

namespace FileTree

def empty : FileTree := directory []

def find : FileTree → List String → Option FileTree
  | t, [] => some t
  | file _, _ :: _ => none
  | directory names, name :: rest => names.lookup name >>= fun t => t.find rest

/-- Sets what a name stands for, in the order of names. -/
def setName (name : String) (t : FileTree) : List (String × FileTree) → List (String × FileTree)
  | [] => [(name, t)]
  | (n, old) :: rest =>
    if n = name then (name, t) :: rest
    else if name < n then (name, t) :: (n, old) :: rest
    else (n, old) :: setName name t rest

/-- Puts something where the names lead.  Nothing changes if there is no directory to hold it. -/
def put : FileTree → List String → FileTree → FileTree
  | _, [], new => new
  | file content, _ :: _, _ => file content
  | directory names, [name], new => directory (setName name new names)
  | directory names, name :: rest, new =>
    match names.lookup name with
    | none => directory names
    | some t => directory (setName name (t.put rest new) names)

/-- Takes away what the names lead to, if anything. -/
def remove : FileTree → List String → FileTree
  | t, [] => t
  | file content, _ :: _ => file content
  | directory names, [name] => directory (names.filter (·.1 ≠ name))
  | directory names, name :: rest =>
    match names.lookup name with
    | none => directory names
    | some t => directory (setName name (t.remove rest) names)

def list : FileTree → List String
  | directory names => names.map Prod.fst
  | file _ => []

def contents (t : FileTree) (place : List String) : Except Errno (List (String × FileTree)) :=
  match t.find place with
  | some (directory names) => .ok names
  | some (file _) => .error .notDirectory
  | none => .error .notFound

def step (t : FileTree) (place : List String) (part : String) : Except Errno (List String) := do
  let names ← t.contents place
  if part = "." then return place
  else if part = ".." then return place.dropLast
  else if Path.maxName < part.utf8ByteSize then throw .nameTooLong
  else if (names.lookup part).isNone then throw .notFound
  else return place ++ [part]

def walk (t : FileTree) (place : List String) (parts : List String) : Except Errno (List String) :=
  parts.foldlM t.step place

end FileTree

end Readback
