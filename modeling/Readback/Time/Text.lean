import Readback.Error
import Readback.Text.Blank
import Readback.Time

namespace Readback.Duration

/-- The units a duration may be written in. -/
inductive TimeUnit
  | nanosecond
  | microsecond
  | millisecond
  | second
  | minute
  | hour
  | day
  | week
  | month
  | year
  deriving DecidableEq, Repr

namespace TimeUnit

/-- A unit in nanoseconds; months and years are parts of four hundred years. -/
def nanos : TimeUnit → Nat
  | nanosecond => 1
  | microsecond => 1000
  | millisecond => 1000000
  | second => Duration.second
  | minute => 60 * Duration.second
  | hour => 3600 * Duration.second
  | day => 86400 * Duration.second
  | week => 604800 * Duration.second
  | month => 2630016 * Duration.second
  | year => 31557600 * Duration.second

/-- What one of the unit adds to a count of seconds and one of nanoseconds. -/
def parts : TimeUnit → Nat × Nat
  | nanosecond => (0, 1)
  | microsecond => (0, 1000)
  | millisecond => (0, 1000000)
  | unit => (unit.nanos / Duration.second, 0)

/-- The same for fractions, which count minutes in nanoseconds; there is no part of a
nanosecond. -/
def fractionParts : TimeUnit → Option (Nat × Nat)
  | nanosecond => none
  | second => some (0, Duration.second)
  | minute => some (0, 60 * Duration.second)
  | unit => some unit.parts

def ofName? (s : String) : Option TimeUnit :=
  if s ∈ ["nanos", "nsec", "ns"] then some nanosecond
  else if s ∈ ["usec", "us", "µs"] then some microsecond
  else if s ∈ ["millis", "msec", "ms"] then some millisecond
  else if s ∈ ["seconds", "second", "secs", "sec", "s"] then some second
  else if s ∈ ["minutes", "minute", "min", "mins", "m"] then some minute
  else if s ∈ ["hours", "hour", "hr", "hrs", "h"] then some hour
  else if s ∈ ["days", "day", "d"] then some day
  else if s ∈ ["weeks", "week", "wk", "wks", "w"] then some week
  else if s ∈ ["months", "month", "M"] then some month
  else if s ∈ ["years", "year", "yr", "yrs", "y"] then some year
  else none

end TimeUnit

/-- A whole number and, after a point, a numerator and a denominator. -/
structure Amount where
  whole : Nat
  fraction : Option (Nat × Nat)

def isUnitLetter (c : Char) : Bool :=
  ('a' ≤ c && c ≤ 'z') || ('A' ≤ c && c ≤ 'Z') || c = 'µ'

def digitValue (c : Char) : Nat := c.toNat - 48

def checked (n : Nat) : Option Nat :=
  if n < Word.limit then some n else none

/-- Digits and blanks up to a letter, a point or the end. -/
def readWhole (n : Nat) : List Char → Option (Nat × List Char)
  | [] => some (n, [])
  | c :: s =>
    if c.isDigit then do readWhole (← checked (10 * n + digitValue c)) s
    else if Text.isBlank c then readWhole n s
    else if isUnitLetter c ∨ c = '.' then some (n, c :: s)
    else none

/-- Digits and blanks up to a letter or the end, as a numerator over a power of ten. -/
def readFraction (num den : Nat) : List Char → Option ((Nat × Nat) × List Char)
  | [] => some ((num, den), [])
  | c :: s =>
    if c.isDigit then do
      readFraction (← checked (10 * num + digitValue c)) (← checked (10 * den)) s
    else if Text.isBlank c then readFraction num den s
    else if isUnitLetter c then some ((num, den), c :: s)
    else none

def readAmount (n : Nat) (s : List Char) : Option (Amount × List Char) := do
  let (n, s) ← readWhole n s
  match s with
  | '.' :: s =>
    let ((num, den), s) ← readFraction 0 1 s
    if den = 1 then none else return (⟨n, some (num, den)⟩, s)
  | s => return (⟨n, none⟩, s)

/-- The letters of a unit, up to a blank, a digit or the end. -/
def readUnit : List Char → Option (List Char × List Char)
  | [] => some ([], [])
  | c :: s =>
    if c.isDigit then some ([], c :: s)
    else if Text.isBlank c then some ([], s)
    else if isUnitLetter c then (readUnit s).map fun (cs, rest) => (c :: cs, rest)
    else none

/-- Nanoseconds that make more than a second are carried over.  Those that make just one are left to
the sum, which is not prepared to overflow. -/
def addParts (d : Duration) (seconds nanos : Nat) : Except Unreadable Duration := do
  let seconds ← orMalformed (checked seconds)
  let nanos ← orMalformed (checked nanos)
  let nanos ← orMalformed (checked (d.subsecond + nanos))
  let seconds ← orMalformed (checked (d.seconds + seconds))
  let sum : Duration := ⟨seconds * second + nanos⟩
  if sum.fits then return sum
  else if nanos = second then throw (.fault .overflow)
  else throw .malformed

/-- `num` of a unit of `size`, divided by `den` without rest. -/
def fractionOf (num den size : Nat) : Option Nat := do
  let product ← checked (num * size)
  if product % den = 0 then some (product / den) else none

def addAmount (d : Duration) (a : Amount) (u : TimeUnit) : Except Unreadable Duration := do
  let (seconds, nanos) := u.parts
  let d ← addParts d (a.whole * seconds) (a.whole * nanos)
  match a.fraction with
  | none => return d
  | some (num, den) =>
    let (seconds, nanos) ← orMalformed u.fractionParts
    let seconds ← orMalformed (fractionOf num den seconds)
    let nanos ← orMalformed (fractionOf num den nanos)
    addParts d seconds nanos

/-- An amount after its first digit, and its unit. -/
def readSpan (digit : Nat) (s : List Char) : Option ((Amount × TimeUnit) × List Char) := do
  let (amount, s) ← readAmount digit s
  let (letters, s) ← readUnit s
  return ((amount, ← TimeUnit.ofName? (String.ofList letters)), s)

/-- Amounts with their units, added up; at least one. -/
def readSpans (d : Duration) (first : Bool) : (fuel : Nat) → List Char → Except Unreadable Duration
  | 0, _ => .error .malformed
  | fuel + 1, s =>
    match s.dropWhile Text.isBlank with
    | [] => if first then .error .malformed else .ok d
    | c :: s =>
      if c.isDigit then do
        let ((amount, unit), s) ← orMalformed (readSpan (digitValue c) s)
        readSpans (← addAmount d amount unit) false fuel s
      else .error .malformed

/-- Reads a duration such as `1h 30m` or `1.5s`. -/
def parse (s : String) : Except Unreadable Duration :=
  if s = "0" then .ok ⟨0⟩
  else readSpans ⟨0⟩ true (s.toList.length + 1) s.toList

def counted (n : Nat) (unit : String) : Option String :=
  if n = 0 then none else some (toString n ++ unit)

def countedPlural (n : Nat) (unit : String) : Option String :=
  if n = 0 then none else some (toString n ++ unit ++ if n = 1 then "" else "s")

/-- The parts of a duration that are not zero, the greatest unit first. -/
def text (d : Duration) : String :=
  let s := d.seconds
  let n := d.subsecond
  let ofYear := s % 31557600
  let ofMonth := ofYear % 2630016
  let ofDay := ofMonth % 86400
  let parts := [
    countedPlural (s / 31557600) "year",
    countedPlural (ofYear / 2630016) "month",
    countedPlural (ofMonth / 86400) "day",
    counted (ofDay / 3600) "h",
    counted (ofDay % 3600 / 60) "m",
    counted (ofDay % 60) "s",
    counted (n / 1000000) "ms",
    counted (n / 1000 % 1000) "us",
    counted (n % 1000) "ns"]
  if d.isZero then "0s" else String.intercalate " " (parts.filterMap id)

end Readback.Duration
