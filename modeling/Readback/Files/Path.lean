import Readback.Files.Errno

namespace Readback

/-- A path that can be followed. -/
structure Path where
  /-- Whether it starts at the root and not where the program is. -/
  absolute : Bool
  /-- What is between the slashes, where there is something. -/
  parts : List String
  /-- Whether a slash ends it, so that it leads to a directory or nowhere. -/
  closed : Bool
  deriving DecidableEq, Repr

namespace Path

/-- One more than the greatest number of bytes in a path. -/
def limit : Nat := 4096

/-- The greatest number of bytes in a name. -/
def maxName : Nat := 255

/-- Refuses a path that is empty or too long. -/
def read (s : String) : Except Obstacle Path :=
  if '\x00' ∈ s.toList then .error .terminator
  else if s = "" then .error (.system .notFound)
  else if limit ≤ s.utf8ByteSize then .error (.system .nameTooLong)
  else .ok ⟨s.startsWith "/", (s.splitOn "/").filter (· ≠ ""), s.endsWith "/"⟩

/-- The name that comes last; the directory itself and the one above it are no names. -/
def name? (p : Path) : Option String :=
  p.parts.getLast?.filter fun part => part ≠ "." ∧ part ≠ ".."

/-- Parts without those at the end that lead nowhere else. -/
def trimmed (parts : List String) : List String :=
  (parts.reverse.dropWhile fun part => part = "" ∨ part = ".").reverse

/-- The path of the directory that holds what a path leads to, as far as the path shows it. -/
def parent (s : String) : String :=
  match trimmed (s.splitOn "/") with
  | [] => "."
  | parts =>
    match trimmed parts.dropLast with
    | [] => if s.startsWith "/" then "/" else "."
    | parts => String.intercalate "/" parts

end Path

end Readback
