import Readback.Files.Tree

namespace Readback

/-- All files there are, and the directory in which the program is. -/
structure Files where
  root : FileTree
  here : List String

namespace Files

def origin (f : Files) (p : Path) : List String :=
  if p.absolute then [] else f.here

/-- The place that a path leads to, through directories only. -/
def locate (f : Files) (p : Path) : Except Errno (List String) := do
  let place ← f.root.walk (f.origin p) p.parts
  if p.closed then discard (f.root.contents place)
  return place

def place (f : Files) (path : String) : Except Obstacle (List String) := do
  (f.locate (← Path.read path)).mapError .system

def lookup (f : Files) (path : String) : Except Obstacle FileTree := do
  match f.root.find (← f.place path) with
  | some t => return t
  | none => throw (.system .notFound)

def content? (f : Files) (path : String) : Option Extent :=
  match f.lookup path with
  | .ok (.file content) => some content
  | _ => none

def bytes? (f : Files) (path : String) : Option ByteArray :=
  (f.content? path).map Extent.toBytes

def put (f : Files) (place : List String) (new : FileTree) : Files :=
  { f with root := f.root.put place new }

def remove (f : Files) (place : List String) : Files :=
  { f with root := f.root.remove place }

/-- Moves what is in a place to another one, where it takes the place of what is there. -/
def rename (f : Files) (place target : List String) : Files :=
  match f.root.find place with
  | some t => (f.remove place).put target t
  | none => f

/-- The place where a file may get a new name: in a directory that exists, and in place of another
file only if `clobber` is set. -/
def newPlace (f : Files) (clobber : Bool) (p : Path) : Except Errno (List String) := do
  let place ← f.root.walk (f.origin p) p.parts.dropLast
  let names ← f.root.contents place
  let some name := p.name? | throw (if clobber then .busy else .exists)
  if Path.maxName < name.utf8ByteSize then throw .nameTooLong
  let old := names.lookup name
  if old.isSome && !clobber then throw .exists
  if p.closed then throw .notDirectory
  match old with
  | some (.directory _) => throw .isDirectory
  | _ => return place ++ [name]

def target (f : Files) (path : String) (clobber : Bool) : Except Obstacle (List String) := do
  (f.newPlace clobber (← Path.read path)).mapError .system

def makeDirectory (f : Files) (path : String) : Except Obstacle Files := do
  let p ← Path.read path
  match f.lookup path with
  | .ok (.directory _) => return f
  | _ =>
    let place ← (f.newPlace false { p with closed := false }).mapError .system
    return f.put place .empty

end Files

end Readback
