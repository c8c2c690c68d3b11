import Readback.Device
import Readback.Files
import Readback.Text.Quoted

namespace Readback

/-- A file opened as a device, among the other files.  Its size is what it was when it was
opened. -/
structure OpenFile where
  files : Files
  /-- The path by which it was opened, and the place that this led to. -/
  path : String
  place : List String
  size : Nat

namespace OpenFile

def refuseOpen (path : String) (o : Obstacle) : Error :=
  ⟨.setup, s!"open {Text.quoted path}: {o.text}"⟩

def «open» (files : Files) (path : String) : Except Error OpenFile :=
  match files.place path with
  | .error o => .error (refuseOpen path o)
  | .ok place =>
    match files.root.find place with
    | some (.file content) => .ok ⟨files, path, place, content.size⟩
    | some (.directory _) => .error (refuseOpen path (.system .isDirectory))
    | none => .error (refuseOpen path (.system .notFound))

def content (f : OpenFile) : Extent :=
  match f.files.root.find f.place with
  | some (.file content) => content
  | _ => .zeroes 0

def setContent (f : OpenFile) (content : Extent) : OpenFile :=
  { f with files := f.files.put f.place (.file content) }

def readError (offset n : Nat) (text : String) : Error :=
  ⟨.read, s!"{n} bytes at {offset}: {text}"⟩

/-- Reads exactly `n` bytes; no bytes can be read anywhere. -/
def read (f : OpenFile) (offset n : Nat) : Except Error { bytes : ByteArray // bytes.size = n } :=
  if h : n = 0 then .ok ⟨ByteArray.empty, h ▸ rfl⟩
  else if Bytes.limit ≤ offset + n then .error (readError offset n Errno.invalid.text)
  else
    let content := f.content
    if offset + n ≤ content.size then .ok ⟨content.read offset n, content.size_read offset n⟩
    else .error (readError offset n "failed to fill whole buffer")

/-- Writes all of the data; what lies past the end makes the file longer. -/
def write (f : OpenFile) (offset : Nat) (data : ByteArray) : Except Error OpenFile :=
  let refuse := fun (e : Errno) => (⟨.write, s!"{data.size} bytes at {offset}: {e.text}"⟩ : Error)
  if data.size = 0 then .ok f
  else if Bytes.limit ≤ offset + data.size then .error (refuse .invalid)
  else
    let content := f.content
    let longer := content.resize (max content.size (offset + data.size))
    .ok (f.setContent (longer.write offset data))

/-- A length that is negative to the system is refused, any offset is not. -/
def invalidate (f : OpenFile) (offset n : Nat) : Except Error OpenFile :=
  if n < Bytes.limit then .ok f
  else .error ⟨.io, s!"fadvise {n} at {offset}: {Errno.invalid.text}"⟩

/-- Zeroes the bytes of the range that are inside the file. -/
def discard (f : OpenFile) (offset n : Nat) : Except Error OpenFile :=
  let refuse := fun (e : Errno) => (⟨.write, s!"punch hole {n} at {offset}: {e.text}"⟩ : Error)
  if n = 0 ∨ Bytes.limit ≤ offset ∨ Bytes.limit ≤ n then .error (refuse .invalid)
  else if Bytes.limit ≤ offset + n then .error (refuse .tooLarge)
  else
    let content := f.content
    .ok (f.setContent (content.clear offset (min n (content.size - offset))))

def orKeep (f : OpenFile) : Except Error OpenFile → Except Failure Unit × OpenFile
  | .ok f => (.ok (), f)
  | .error e => (.error (.error e), f)

def answer (f : OpenFile) : (r : Request) → Except Failure r.Reply × OpenFile
  | .read offset n => ((f.read offset n).mapError .error, f)
  | .write offset data => f.orKeep (f.write offset data)
  | .invalidate offset n => f.orKeep (f.invalidate offset n)
  | .discard offset n => f.orKeep (f.discard offset n)
  | .flush => (.ok (), f)

def device : Device OpenFile where
  size f := .ok f.size
  answer r f := f.answer r

end OpenFile

end Readback
