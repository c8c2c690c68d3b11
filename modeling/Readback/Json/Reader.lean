import Readback.Bytes
import Readback.Error
import Readback.Json
import Readback.Text.Glyph

namespace Readback.Json

open Text (Glyph)

def isBlank : Glyph → Bool
  | some c => c = ' ' || c = '\n' || c = '\t' || c = '\r'
  | none => false

def skipBlanks (s : List Glyph) : List Glyph :=
  s.dropWhile isBlank

def isDigit (g : Glyph) : Bool :=
  g.any Char.isDigit

/-- The digits at the front and what follows them. -/
def digits (s : List Glyph) : List Char × List Glyph :=
  ((s.takeWhile isDigit).filterMap id, s.dropWhile isDigit)

/-- Whole digits without a zero in front of others. -/
def wholeDigits (s : List Glyph) : Option (Nat × List Glyph) :=
  match digits s with
  | ([], _) => none
  | ('0' :: _ :: _, _) => none
  | (ds, rest) => some (Nat.ofDigitChars 10 ds 0, rest)

/-- A point and digits, if a point comes next: how many digits, and their value. -/
def fractionDigits : List Glyph → Option ((Nat × Nat) × List Glyph)
  | some '.' :: s =>
    match digits s with
    | ([], _) => none
    | (ds, rest) => some ((ds.length, Nat.ofDigitChars 10 ds 0), rest)
  | s => some ((0, 0), s)

/-- A sign, and what follows it. -/
def exponentSign : List Glyph → Bool × List Glyph
  | some '-' :: s => (true, s)
  | some '+' :: s => (false, s)
  | s => (false, s)

/-- The sign and digits of an exponent, if one comes next. -/
def exponentDigits : List Glyph → Option (Option Int × List Glyph)
  | g :: s =>
    if g = some 'e' ∨ g = some 'E' then
      let (negative, s) := exponentSign s
      match digits s with
      | ([], _) => none
      | (ds, rest) =>
        let n : Int := Nat.ofDigitChars 10 ds 0
        some (some (if negative then -n else n), rest)
    else some (none, g :: s)
  | [] => some (none, [])

def unsignedNumeral (negative : Bool) (s : List Glyph) : Option (Numeral × List Glyph) := do
  let (whole, s) ← wholeDigits s
  let ((places, fraction), s) ← fractionDigits s
  let (exponent, s) ← exponentDigits s
  return (⟨negative, whole, places, fraction, exponent⟩, s)

def numeral : List Glyph → Option (Numeral × List Glyph)
  | some '-' :: s => unsignedNumeral true s
  | s => unsignedNumeral false s

def hexUnit : List Glyph → Option (Nat × List Glyph)
  | some a :: some b :: some c :: some d :: rest => do
    let a ← Bytes.hexValue? a
    let b ← Bytes.hexValue? b
    let c ← Bytes.hexValue? c
    let d ← Bytes.hexValue? d
    return (4096 * a + 256 * b + 16 * c + d, rest)
  | _ => none

/-- One escape after its backslash: the character it stands for, or `none` for half of a pair. -/
def unescape : List Glyph → Option (Glyph × List Glyph)
  | some '"' :: s => some (some '"', s)
  | some '\\' :: s => some (some '\\', s)
  | some '/' :: s => some (some '/', s)
  | some 'b' :: s => some (some '\x08', s)
  | some 'f' :: s => some (some '\x0c', s)
  | some 'n' :: s => some (some '\n', s)
  | some 'r' :: s => some (some '\r', s)
  | some 't' :: s => some (some '\t', s)
  | some 'u' :: s => do
    let (high, rest) ← hexUnit s
    if 0xd800 ≤ high ∧ high < 0xdc00 then
      match rest with
      | some '\\' :: some 'u' :: after =>
        let (low, after) ← hexUnit after
        if 0xdc00 ≤ low ∧ low < 0xe000 then
          return (some (Char.ofNat (0x10000 + (high - 0xd800) * 0x400 + (low - 0xdc00))), after)
        else return (none, rest)
      | _ => return (none, rest)
    else if 0xdc00 ≤ high ∧ high < 0xe000 then return (none, rest)
    else return (some (Char.ofNat high), rest)
  | _ => none

/-- What stands up to the closing quote, and what follows it. -/
def upToQuote : List Glyph → Option (List Glyph × List Glyph)
  | [] => none
  | some '"' :: rest => some ([], rest)
  | some '\\' :: g :: s => (upToQuote s).map fun (gs, rest) => (some '\\' :: g :: gs, rest)
  | g :: s => (upToQuote s).map fun (gs, rest) => (g :: gs, rest)

def unquote : (fuel : Nat) → List Glyph → Option (List Glyph)
  | _, [] => some []
  | 0, _ => none
  | fuel + 1, some '\\' :: s => do
    let (g, s) ← unescape s
    return g :: (← unquote fuel s)
  | fuel + 1, g :: s => if g.any (·.toNat < 32) then none else (unquote fuel s).map (g :: ·)

/-- A quoted text, after its opening quote; `none` if not all of it is characters. -/
def textAfterQuote (s : List Glyph) : Option (Option String × List Glyph) := do
  let (gs, rest) ← upToQuote s
  return (((← unquote gs.length gs).mapM id).map String.ofList, rest)

def after (word : String) (s : List Glyph) : Option (List Glyph) :=
  let gs := word.toList.map some
  if gs.isPrefixOf s then some (s.drop gs.length) else none

def fieldName (s : List Glyph) : Option (Option String × List Glyph) := do
  match skipBlanks s with
  | some '"' :: s =>
    let (k, s) ← textAfterQuote s
    match skipBlanks s with
    | some ':' :: s => return (k, s)
    | _ => none
  | _ => none

mutual

/-- One value after any blanks, or as much as there is of it, and what follows it, if the text does
not break off.  Of a value without parts that breaks off there is nothing, and `null` takes its
place.  `fuel` bounds the depth. -/
def value : (fuel : Nat) → List Glyph → Json × Option (List Glyph)
  | 0, _ => (.null, none)
  | fuel + 1, s =>
    match skipBlanks s with
    | some 'n' :: rest => (.null, after "ull" rest)
    | some 't' :: rest => (.bool true, after "rue" rest)
    | some 'f' :: rest => (.bool false, after "alse" rest)
    | some '"' :: rest =>
      match textAfterQuote rest with
      | some (t, rest) => (.string t, some rest)
      | none => (.null, none)
    | some '[' :: rest =>
      match skipBlanks rest with
      | some ']' :: rest => (.array [], some rest)
      | rest =>
        let (vs, rest) := items fuel rest
        (.array vs, rest)
    | some '{' :: rest =>
      match skipBlanks rest with
      | some '}' :: rest => (.object [], some rest)
      | rest =>
        let (kvs, rest) := fields fuel rest
        (.object kvs, rest)
    | s =>
      match numeral s with
      | some (n, rest) => (.number n, some rest)
      | none => (.null, none)

/-- Values with commas between them, and the closing bracket. -/
def items : (fuel : Nat) → List Glyph → List Json × Option (List Glyph)
  | 0, _ => ([], none)
  | fuel + 1, s =>
    match value fuel s with
    | (v, none) => ([v], none)
    | (v, some s) =>
      match skipBlanks s with
      | some ']' :: rest => ([v], some rest)
      | some ',' :: rest =>
        let (vs, rest) := items fuel rest
        (v :: vs, rest)
      | _ => ([v], none)

/-- Named values with commas between them, and the closing brace. -/
def fields : (fuel : Nat) → List Glyph → List (Option String × Json) × Option (List Glyph)
  | 0, _ => ([], none)
  | fuel + 1, s =>
    match fieldName s with
    | none => ([], none)
    | some (k, s) =>
      match value fuel s with
      | (v, none) => ([(k, v)], none)
      | (v, some s) =>
        match skipBlanks s with
        | some '}' :: rest => ([(k, v)], some rest)
        | some ',' :: rest =>
          let (kvs, rest) := fields fuel rest
          ((k, v) :: kvs, rest)
        | _ => ([(k, v)], none)

end

/-- A text as one value, as far as it can be read, and whether the text is that value and nothing
else but blanks. -/
def read (s : List Glyph) : Json × Bool :=
  match value (s.length + 1) s with
  | (v, some rest) => (v, skipBlanks rest = [])
  | (v, none) => (v, false)

def parse? (s : List Char) : Option Json :=
  match read (s.map some) with
  | (v, true) => some v
  | _ => none

/-- What a text says.  It is read while it is understood: a fault counts if it comes before the
place where the text breaks off. -/
def decode {α : Type} (s : List Glyph) (meaning : Json → Except Unreadable α) :
    Except Unreadable α :=
  match read s with
  | (v, true) => meaning v
  | (v, false) =>
    match meaning v with
    | .error (.fault f) => .error (.fault f)
    | _ => .error .malformed

end Readback.Json
