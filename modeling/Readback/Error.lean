import Readback.Basic

namespace Readback

inductive ErrorKind
  | setup
  | io
  | read
  | write
  | unsupported
  | config
  | invariant
  deriving DecidableEq, Repr

def ErrorKind.label : ErrorKind → String
  | .setup => "setup error"
  | .io => "IO error"
  | .read => "read error"
  | .write => "write error"
  | .unsupported => "unsupported"
  | .config => "invalid configuration"
  | .invariant => "invariant violation"

/-- An answer other than success that the caller is expected to handle. -/
structure Error where
  kind : ErrorKind
  text : String
  deriving DecidableEq, Repr

def Error.message (e : Error) : String :=
  e.kind.label ++ ": " ++ e.text

def Error.isOperational (e : Error) : Bool :=
  match e.kind with
  | .io | .read | .write | .unsupported => true
  | .setup | .config | .invariant => false

/-- A check of the program itself that failed, after which nothing more is computed. -/
inductive Fault
  | emptyRange (start stop : Nat)
  | rangeOverflow
  | overflow
  | outOfBounds
  | assertion
  | device
  /-- A source of random words gave out. -/
  | exhausted
  deriving DecidableEq, Repr

def Fault.text? : Fault → Option String
  | .emptyRange start stop => some s!"empty block range {start}..{stop}"
  | .rangeOverflow => some "block range end overflows u64"
  | _ => none

inductive Failure
  | error (e : Error)
  | fault (f : Fault)
  deriving DecidableEq, Repr

/-- Why a text says nothing. -/
inductive Unreadable
  | malformed
  /-- What was read up to some point is too much for the program. -/
  | fault (f : Fault)
  deriving DecidableEq, Repr

def orMalformed {α : Type} : Option α → Except Unreadable α
  | some x => .ok x
  | none => .error .malformed

end Readback
