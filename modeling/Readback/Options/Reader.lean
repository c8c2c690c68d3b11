import Readback.Options.Help

namespace Readback.Options

/-- Why a command line is not followed. -/
inductive Refusal
  | unknown (argument : String)
  | missingValue (f : Flag)
  | badValue (f : Flag) (value : String)
  | repeated (f : Flag)
  | needlessValue (f : Flag)
  /-- Not a mistake: help was asked for. -/
  | help (full : Bool)
  /-- A value was too much for the program. -/
  | faulted (f : Fault)
  deriving DecidableEq, Repr

def Refusal.text : Refusal → String
  | unknown argument => s!"unexpected argument '{argument}' found"
  | missingValue f => s!"a value is required for '--{f.name}' but none was supplied"
  | badValue f value => s!"invalid value '{value}' for '--{f.name}'"
  | repeated f => s!"the argument '--{f.name}' cannot be used multiple times"
  | needlessValue f => s!"the switch '--{f.name}' takes no value"
  | help _ => "help was asked for"
  | faulted _ => "a value cannot be taken in"

/-- Help that is asked for by its whole name is given in full. -/
def Refusal.inFull : Refusal → Refusal
  | help _ => help true
  | r => r

def digits? (s : List Char) : Option Nat :=
  if s ≠ [] ∧ s.all Char.isDigit then some (Nat.ofDigitChars 10 s 0) else .none

def natural? : List Char → Option Nat
  | '+' :: s => digits? s
  | s => digits? s

def uint64 (s : String) : Except Unreadable UInt64 := do
  let n ← orMalformed (natural? s.toList)
  if n < Word.limit then return n.toUInt64 else throw .malformed

/-- A small number is read with any sign, though only zero may have a minus. -/
def uint8 (s : String) : Except Unreadable UInt8 := do
  let n ← orMalformed <| match s.toList with
    | '-' :: s => (digits? s).filter (· = 0)
    | s => natural? s
  if n < 256 then return n.toUInt8 else throw .malformed

def Refusal.ofUnreadable (f : Flag) (value : String) : Unreadable → Refusal
  | .malformed => badValue f value
  | .fault f => faulted f

/-- Turns a switch on, or gives a flag its value. -/
def set (o : Options) (f : Flag) (value : String) : Except Refusal Options :=
  let read : {α : Type} → Except Unreadable α → (α → Options) → Except Refusal Options :=
    fun x k => (x.map k).mapError (.ofUnreadable f value)
  let path : (String → Options) → Except Refusal Options :=
    fun k => if value = "" then .error (.missingValue f) else .ok (k value)
  match f with
  | .device => path fun v => { o with device := some v }
  | .blockSize => read (uint64 value) fun v => { o with blockSize := some v }
  | .maxBlocks => read (uint64 value) fun v => { o with maxBlocks := some v }
  | .uniquePct => read (uint8 value) fun v => { o with uniquePct := some v }
  | .trimPct => read (uint8 value) fun v => { o with trimPct := some v }
  | .workers => read (uint64 value) fun v => { o with workers := some v }
  | .stopAtFull => .ok { o with stopAtFull := true }
  | .fast => .ok { o with fast := true }
  | .count => read (uint64 value) fun v => { o with count := some v }
  | .duration => read (Duration.parse value) fun v => { o with duration := some v }
  | .seed => read (uint64 value) fun v => { o with seed := some v }
  | .stopOnFailure => .ok { o with stopOnFailure := true }
  | .reportInterval => read (Duration.parse value) fun v => { o with reportInterval := some v }
  | .maxDiagnostics => read (uint64 value) fun v => { o with maxDiagnostics := some v }
  | .config => path fun v => { o with config := some v }
  | .summaryOut => path fun v => { o with summaryOut := some v }
  | .verbose => .ok { o with verbose := true }
  | .help => .error (.help false)

def give (o : Options) (f : Flag) (value : String) : Except Refusal Options :=
  if o.has f then .error (.repeated f) else o.set f value

/-- A command line as far as it was read.  A flag whose value is an argument of its own waits until
the next flag is known. -/
structure Progress where
  options : Options
  waiting : Option (Flag × Option String)

namespace Progress

def settle (p : Progress) : Except Refusal Options :=
  match p.waiting with
  | .none => .ok p.options
  | some (f, .none) => .error (.missingValue f)
  | some (f, some value) => p.options.give f value

/-- Refuses an argument.  The flag that waits is given first, of which only a fault counts. -/
def refuse {α : Type} (p : Progress) (r : Refusal) : Except Refusal α :=
  match p.settle with
  | .error (.faulted f) => .error (.faulted f)
  | _ => .error r

def attach (p : Progress) (f : Flag) (value : String) : Except Refusal Progress := do
  return ⟨← (← p.settle).give f value, .none⟩

def await (p : Progress) (f : Flag) : Except Refusal Progress := do
  return ⟨← p.settle, some (f, .none)⟩

/-- An argument that starts with two dashes. -/
def long (p : Progress) (argument : List Char) : Except Refusal Progress :=
  let name := String.ofList (argument.takeWhile (· ≠ '='))
  let value := match argument.dropWhile (· ≠ '=') with
    | _ :: v => some (String.ofList v)
    | [] => .none
  match Flag.ofName? name, value with
  | .none, _ => p.refuse (.unknown ("--" ++ name))
  | some f, some v => if f.isSwitch then p.refuse (.needlessValue f) else p.attach f v
  | some f, .none => if f.isSwitch then (p.attach f "").mapError .inFull else p.await f

/-- Letters after one dash: switches, and at the end perhaps a flag with its value. -/
def letters (p : Progress) : List Char → Except Refusal Progress
  | [] => .ok p
  | c :: rest =>
    match Flag.ofLetter? c with
    | .none => p.refuse (.unknown (String.ofList ['-', c]))
    | some f =>
      if f.isSwitch then do letters (← p.attach f "") rest
      else match rest with
        | [] => p.await f
        | '=' :: v => p.attach f (String.ofList v)
        | v => p.attach f (String.ofList v)

/-- An argument that is no flag: the value of the flag before, if that still has none. -/
def plain (p : Progress) (argument : String) : Except Refusal Progress :=
  match p.waiting with
  | some (f, .none) => .ok { p with waiting := some (f, some argument) }
  | _ => p.refuse (.unknown argument)

def argument (p : Progress) (s : String) : Except Refusal Progress :=
  match s.toList with
  | '-' :: '-' :: cs => p.long cs
  | '-' :: c :: cs => p.letters (c :: cs)
  | _ => p.plain s

end Progress

def readAll (p : Progress) : List String → Except Refusal Options
  | [] => p.settle
  | s :: rest =>
    if s = "--" then
      match rest with
      | [] => p.settle
      | other :: _ => p.refuse (.unknown other)
    else do readAll (← p.argument s) rest

/-- The flags on a command line, or the first reason not to follow it. -/
def read (arguments : List String) : Except Refusal Options :=
  readAll ⟨none, .none⟩ arguments

end Readback.Options
