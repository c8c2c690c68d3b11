import Readback.Files
import Readback.Json.Printer
import Readback.Json.Reader
import Readback.Text.Quoted

namespace Readback

/-- Why a document could not be read from a file, or written to one. -/
inductive FileError
  | missing (path : String)
  | opening (path : String) (o : Obstacle)
  | reading (path : String)
  | parsing (path : String)
  /-- There is no new file to write to. -/
  | temporary (o : Obstacle)
  | persisting (o : Obstacle)
  /-- What was read is too much for the program. -/
  | faulted (f : Fault)
  deriving DecidableEq, Repr

namespace FileError

/-- The words for an error; those about a new file tell its name, which is not fixed. -/
def message? : FileError → Option String
  | missing path => some s!"open {Text.quoted path}: file not found"
  | opening path o => some s!"open {Text.quoted path}: {o.details}"
  | reading path => some s!"read {Text.quoted path}"
  | parsing path => some s!"parse {Text.quoted path}"
  | temporary _ => none
  | persisting o => some s!"failed to persist temporary file: {o.text}"
  | faulted _ => none

def ofUnreadable (path : String) : Unreadable → FileError
  | .malformed => parsing path
  | .fault f => faulted f

end FileError

namespace Files

def text? (f : Files) (path : String) : Option String :=
  f.bytes? path >>= String.fromUTF8?

/-- Reads a document; there is none if there is no such file, or if it holds `null`. -/
def readJson? {α : Type} (f : Files) (path : String) (meaning : Json → Except Unreadable α) :
    Except FileError (Option α) :=
  match f.lookup path with
  | .error (.system .notFound) => .ok none
  | .error o => .error (.opening path o)
  | .ok (.directory _) => .error (.reading path)
  | .ok (.file content) =>
    (Json.decode (Text.glyphs content.toBytes) fun
      | .null => .ok none
      | v => (meaning v).map some).mapError (.ofUnreadable path)

def readJson {α : Type} (f : Files) (path : String) (meaning : Json → Except Unreadable α) :
    Except FileError α := do
  match ← f.readJson? path meaning with
  | some x => return x
  | none => throw (.missing path)

/-- The greatest number of bytes in a name that is drawn. -/
def maxDrawn : Nat := 10

/-- The place for a new file in the directory where `path` will be, under the first of the drawn
names that is free there. -/
def aside (f : Files) (path : String) (draws : List String) : Except Obstacle (List String) :=
  let parent := Path.parent path
  if Path.limit ≤ parent.utf8ByteSize + 1 + maxDrawn then .error (.system .nameTooLong)
  else do
    let dir ← f.place parent
    let names ← (f.root.contents dir).mapError .system
    let some name := draws.find? fun name => (names.lookup name).isNone | throw (.system .exists)
    return dir ++ [name]

/-- A change that everybody can see as soon as it is made. -/
inductive Change
  | write (place : List String) (bytes : ByteArray)
  | rename (place target : List String)
  | remove (place : List String)

def change (f : Files) : Change → Files
  | .write place bytes => f.put place (.file (.ofBytes bytes))
  | .rename place target => f.rename place target
  | .remove place => f.remove place

def changed (f : Files) (changes : List Change) : Files :=
  changes.foldl change f

/-- A new file gets its bytes.  The system may take the first few of them before it takes them all:
`sizes` tells how many. -/
def filling (place : List String) (bytes : ByteArray) (sizes : List Nat) : List Change :=
  (0 :: sizes).map (fun n => .write place (bytes.extract 0 n)) ++ [.write place bytes]

/-- What keeps a file from its name.  A name that may belong to another file goes to the system as
it is, which does not accept one that ends early. -/
def unnamed (clobber : Bool) : Obstacle → FileError
  | .terminator => .persisting (if clobber then .system .invalid else .terminator)
  | o => .persisting o

/-- The changes by which bytes get to a file: a new file is filled, and then renamed.  If it does
not get the name, it is removed. -/
def renewing (f : Files) (path : String) (draws : List String) (bytes : ByteArray)
    (sizes : List Nat) (clobber : Bool) : List Change × Except FileError Unit :=
  match f.aside path draws with
  | .error o => ([], .error (.temporary o))
  | .ok place =>
    let first := filling place bytes sizes
    match (f.changed first).target path clobber with
    | .error o => (first ++ [.remove place], .error (unnamed clobber o))
    | .ok target => (first ++ [.rename place target], .ok ())

/-- The text of a document in a file, which ends with a line break. -/
def documentText (v : Json) : String :=
  String.ofList (v.pretty 0 ++ ['\n'])

/-- Writes a document by way of another file, so that nobody reads a part of it. -/
def writeJson (f : Files) (path : String) (draws : List String) (v : Json) (clobber : Bool) :
    Files × Except FileError Unit :=
  let (changes, result) := f.renewing path draws (documentText v).toUTF8 [] clobber
  (f.changed changes, result)

end Files

end Readback
