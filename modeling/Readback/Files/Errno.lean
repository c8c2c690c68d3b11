namespace Readback

/-- Why the operating system refuses a request. -/
inductive Errno
  | notFound
  | ioFailure
  | busy
  | exists
  | notDirectory
  | isDirectory
  | invalid
  | tooLarge
  | noSpace
  | nameTooLong
  deriving DecidableEq, Repr

namespace Errno

def code : Errno → Nat
  | notFound => 2
  | ioFailure => 5
  | busy => 16
  | «exists» => 17
  | notDirectory => 20
  | isDirectory => 21
  | invalid => 22
  | tooLarge => 27
  | noSpace => 28
  | nameTooLong => 36

def words : Errno → String
  | notFound => "No such file or directory"
  | ioFailure => "Input/output error"
  | busy => "Device or resource busy"
  | «exists» => "File exists"
  | notDirectory => "Not a directory"
  | isDirectory => "Is a directory"
  | invalid => "Invalid argument"
  | tooLarge => "File too large"
  | noSpace => "No space left on device"
  | nameTooLong => "File name too long"

def kind : Errno → String
  | notFound => "NotFound"
  | ioFailure => "Uncategorized"
  | busy => "ResourceBusy"
  | «exists» => "AlreadyExists"
  | notDirectory => "NotADirectory"
  | isDirectory => "IsADirectory"
  | invalid => "InvalidInput"
  | tooLarge => "FileTooLarge"
  | noSpace => "StorageFull"
  | nameTooLong => "InvalidFilename"

def text (e : Errno) : String :=
  s!"{e.words} (os error {e.code})"

/-- The same with everything that is known of it. -/
def details (e : Errno) : String :=
  s!"Os \x7b code: {e.code}, kind: {e.kind}, message: \"{e.words}\" \x7d"

def all : List Errno :=
  [notFound, ioFailure, busy, «exists», notDirectory, isDirectory, invalid, tooLarge, noSpace,
    nameTooLong]

def ofCode? (n : Nat) : Option Errno :=
  all.find? (·.code = n)

end Errno

/-- Why a path cannot be followed. -/
inductive Obstacle
  /-- The path holds a character that would end it. -/
  | terminator
  | system (e : Errno)
  deriving DecidableEq, Repr

namespace Obstacle

def terminatorWords : String :=
  "file name contained an unexpected NUL byte"

def text : Obstacle → String
  | terminator => terminatorWords
  | system e => e.text

def details : Obstacle → String
  | terminator => s!"Error \x7b kind: InvalidInput, message: \"{terminatorWords}\" \x7d"
  | system e => e.details

end Obstacle

end Readback
