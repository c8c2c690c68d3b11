import Readback.Program

namespace Readback.Main

/-- Puts something into directories that are made where they are missing.  A directory keeps what is
known of it. -/
def plant (new : FileTree) : FileTree → List String → FileTree
  | .directory names, [] =>
    match new with
    | .directory _ => .directory names
    | .file _ => new
  | .file _, [] => new
  | .file _, name :: rest => .directory [(name, plant new .empty rest)]
  | .directory names, name :: rest =>
    let inner := (names.lookup name).getD .empty
    .directory (FileTree.setName name (plant new inner rest) names)

def isDirectory (path : String) : IO Bool := do
  try (← IO.FS.realPath path).isDir catch _ => return false

def load (f : Files) (place : List String) : IO Files := do
  let path := "/" ++ String.intercalate "/" place
  if ← isDirectory path then return { f with root := plant .empty f.root place }
  try
    return { f with root := plant (.file (.ofBytes (← IO.FS.readBinFile path))) f.root place }
  catch _ => return f

/-- The files with all that a path goes through, as far as it leads. -/
def loadPath (f : Files) (path : String) : IO Files := do
  let .ok p := Path.read path | return f
  let mut f := f
  for n in [0 : p.parts.length] do
    let part := p.parts.getD n "."
    if let .ok place := f.root.walk (f.origin p) (p.parts.take n) then
      if part ≠ "." ∧ part ≠ ".." then f ← load f (place ++ [part])
  return f

/-- The directory the program is in, and what leads there. -/
def surroundings : IO Files := do
  let here := ((← IO.FS.realPath ".").toString.splitOn "/").filter (· ≠ "")
  return ⟨plant .empty .empty here, here⟩

/-- All the files that a run with these arguments reads or writes. -/
def files (arguments : List String) : IO Files := do
  let mut f ← surroundings
  let .ok o := Options.read arguments | return f
  if let some path := o.config then f ← loadPath f path
  let .ok c := o.config? f | return f
  if let some path := c.device then f ← loadPath f path
  if let some path := o.summaryOut then f ← loadPath f path
  return f

def refresh (f : OpenFile) : Phase → IO OpenFile
  | .reading _ => return f.setContent (.ofBytes (← IO.FS.readBinFile f.path))
  | _ => return f

def persist (f : OpenFile) : Phase → IO Unit
  | .writing _ | .discarding .. => IO.FS.writeBinFile f.path f.content.toBytes
  | _ => return

def speak (verbose : Bool) (r : Run OpenFile) : IO (Run OpenFile) := do
  for l in r.log.reverse do
    if verbose || l.event.level != .debug then IO.eprintln l.text
  for line in r.printed.reverse do IO.println line
  return { r with log := [], printed := [] }

def now : IO Instant := do
  return ⟨← IO.monoNanosNow⟩

/-- Lets the workers take turns until all have ended. -/
partial def drive (verbose : Bool) (r : Run OpenFile) : IO (Run OpenFile) := do
  let r ← speak verbose r
  if r.ended then return r
  let mut r := r
  for i in [0 : r.workers.size] do
    if let some w := r.workers[i]? then
      let device ← refresh r.device w.phase
      r := { r with device }.step OpenFile.device (← now) i
      persist r.device w.phase
  drive verbose r

/-- A name for a file that nothing else is likely to have. -/
def drawName : IO String := do
  let letters := "ABCDEFGHIJKLMNOPQRSTUVWXYZabcdefghijklmnopqrstuvwxyz0123456789".toList
  let draw ← IO.getRandomBytes 6
  let letter := fun (b : UInt8) => letters.getD (b.toNat % letters.length) 'A'
  return ".tmp" ++ String.ofList (draw.toList.map letter)

/-- Makes a file in a directory under the first of the names that is free. -/
def create (dir : String) : List String → IO (String × IO.FS.Handle)
  | [] => throw (IO.userError "too many temporary files exist")
  | name :: rest => do
    let path := s!"{dir}/{name}"
    try
      return (path, ← IO.FS.Handle.mk path .writeNew)
    catch
      | .alreadyExists .. => create dir rest
      | e => throw e

def store (o : Options) (draws : List String) (e : Ending) : IO Unit := do
  if let some path := o.summaryOut then
    if let some bytes := e.files.bytes? path then
      let (aside, file) ← create (Path.parent path) draws
      try
        file.write bytes
        file.flush
        IO.FS.rename aside path
      catch e =>
        IO.FS.removeFile aside
        throw e

def conclude (o : Options) (draws : List String) (e : Ending) : IO UInt32 := do
  for line in e.printed do IO.println line
  match e.complaint with
  | none | some (.mismatches _) => store o draws e
  | _ => pure ()
  match e.complaint with
  | some (.usage (.help full)) =>
    let program := (← IO.appPath).fileName.getD "readback"
    for line in Options.help program full do IO.println line
  | some (.usage r) => IO.eprintln s!"error: {r.text}"
  | some c => IO.eprintln ("Error: " ++ c.text?.getD "the program broke down")
  | none => pure ()
  return e.status.toUInt32

end Readback.Main

open Readback in
/-- Tests the device that the arguments name. -/
def main (arguments : List String) : IO UInt32 := do
  let random ← IO.getRandomBytes 8
  let seed := Bytes.wordAt random 0
  let setting : Run.Setting := ⟨false, seed, ← Main.now, fun id => .ofSeed (Worker.seedFor seed id)⟩
  let draws ← (List.range 16).mapM fun _ => Main.drawName
  match Program.start arguments (← Main.files arguments) setting with
  | (files, .error c) => Main.conclude .none draws (Program.refused files c)
  | (_, .ok p) =>
    let run ← Main.drive p.options.verbose p.run
    Main.conclude p.options draws ({ p with run }.finish (← Main.now) draws)
