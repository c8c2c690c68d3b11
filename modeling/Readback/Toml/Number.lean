import Readback.Bytes
import Readback.Toml

namespace Readback.Toml

/-- Digits, with single underscores between them; `after` says whether a digit came before. -/
def digits (isDigit : Char → Bool) (after : Bool) : List Char → Option (List Char × List Char)
  | [] => if after then some ([], []) else none
  | c :: s =>
    if isDigit c then (digits isDigit true s).map fun (cs, rest) => (c :: cs, rest)
    else if c = '_' ∧ after then digits isDigit false s
    else if after then some ([], c :: s)
    else none

def whole? (n : Int) : Option Toml :=
  if -2 ^ 63 ≤ n ∧ n < 2 ^ 63 then some (whole n) else none

def inRadix (radix : Nat) (s : List Char) : Option (Toml × List Char) := do
  let (ds, rest) ← digits (fun c => (Bytes.hexValue? c).any (· < radix)) false s
  let values ← ds.mapM Bytes.hexValue?
  return (← whole? (values.foldl (radix * · + ·) 0 : Nat), rest)

def leadingDigits (s : List Char) : Option (List Char × List Char) :=
  match digits Char.isDigit false s with
  | some ('0' :: _ :: _, _) => none
  | found => found

/-- A sign, if one comes next: whether it is a minus. -/
def sign : List Char → Bool × List Char
  | '-' :: s => (true, s)
  | '+' :: s => (false, s)
  | s => (false, s)

def fraction : List Char → Option (Option (List Char) × List Char)
  | '.' :: s => (digits Char.isDigit false s).map fun (ds, rest) => (some ds, rest)
  | s => some (none, s)

/-- The power of ten that an exponent says, if one comes next. -/
def exponent : List Char → Option (Option Int × List Char)
  | [] => some (none, [])
  | c :: s =>
    if c = 'e' ∨ c = 'E' then
      let (negative, s) := sign s
      (digits Char.isDigit false s).map fun (ds, rest) =>
        let n : Int := Nat.ofDigitChars 10 ds 0
        (some (if negative then -n else n), rest)
    else some (none, c :: s)

/-- Half a unit above the greatest number of 64 bits: numbers from here on are too large. -/
def overflow : Nat := 2 ^ 1024 - 2 ^ 970

/-- Whether digits times a power of ten are too large.  The place of the first digit mostly says so;
where it does not, the number is small enough to be written out. -/
def overflows (ds : List Char) (power : Int) : Bool :=
  let ds := ds.dropWhile (· = '0')
  let place := ds.length + power
  if ds = [] ∨ place < 309 then false
  else if 309 < place then true
  else
    let n := Nat.ofDigitChars 10 ds 0
    overflow * 10 ^ (-power).toNat ≤ n * 10 ^ power.toNat

/-- A decimal number after its sign.  Only a number without a minus can be too large. -/
def decimal (negative : Bool) : List Char → Option (Toml × List Char)
  | 'i' :: 'n' :: 'f' :: s => some (other, s)
  | 'n' :: 'a' :: 'n' :: s => some (other, s)
  | s => do
    let (ds, s) ← leadingDigits s
    let (places, s) ← fraction s
    let (power, s) ← exponent s
    if places.isNone ∧ power.isNone then
      let n : Int := Nat.ofDigitChars 10 ds 0
      return (← whole? (if negative then -n else n), s)
    else
      let places := places.getD []
      if ¬negative ∧ overflows (ds ++ places) (power.getD 0 - places.length) then none
      else return (other, s)

/-- A number; one with a sign is decimal. -/
def number : List Char → Option (Toml × List Char)
  | '0' :: 'x' :: s => inRadix 16 s
  | '0' :: 'o' :: s => inRadix 8 s
  | '0' :: 'b' :: s => inRadix 2 s
  | s =>
    let (negative, s) := sign s
    decimal negative s

end Readback.Toml
