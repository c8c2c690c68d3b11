import Readback.Json
import Readback.Bytes

namespace Readback

namespace Numeral

def chars (n : Numeral) : List Char :=
  let fraction := Nat.toDigits 10 n.fraction
  let tail := if n.places = 0 then []
    else '.' :: List.replicate (n.places - fraction.length) '0' ++ fraction
  let power := match n.exponent with
    | none => []
    | some e => 'e' :: (if e < 0 then '-' else '+') :: Nat.toDigits 10 e.natAbs
  (if n.negative then ['-'] else []) ++ Nat.toDigits 10 n.whole ++ tail ++ power

end Numeral

namespace Json

/-- A character inside quotes: quotes, backslashes and control characters are escaped. -/
def escape (c : Char) : List Char :=
  if c = '"' then ['\\', '"']
  else if c = '\\' then ['\\', '\\']
  else if c = '\x08' then ['\\', 'b']
  else if c = '\x0c' then ['\\', 'f']
  else if c = '\n' then ['\\', 'n']
  else if c = '\r' then ['\\', 'r']
  else if c = '\t' then ['\\', 't']
  else if c.toNat < 32 then '\\' :: 'u' :: Bytes.hexNumber 4 c.toNat
  else [c]

def quote (s : String) : List Char :=
  '"' :: s.toList.flatMap escape ++ ['"']

def quote? (s : Option String) : List Char :=
  quote (s.getD "")

def joined (separator : List Char) : List (List Char) → List Char
  | [] => []
  | [item] => item
  | item :: rest => item ++ separator ++ joined separator rest

def newline (depth : Nat) : List Char :=
  '\n' :: List.replicate (2 * depth) ' '

/-- Lays out a list between two brackets, an item a line. -/
def bracketed (opening closing : Char) (depth : Nat) (items : List (List Char)) : List Char :=
  if items = [] then [opening, closing]
  else
    opening :: newline (depth + 1) ++ joined (',' :: newline (depth + 1)) items
      ++ newline depth ++ [closing]

mutual

/-- The document over several lines, each level indented by two blanks. -/
def pretty (depth : Nat) : Json → List Char
  | null => "null".toList
  | bool b => (if b then "true" else "false").toList
  | number n => n.chars
  | string s => quote? s
  | array items => bracketed '[' ']' depth (prettyItems (depth + 1) items)
  | object fields => bracketed '{' '}' depth (prettyFields (depth + 1) fields)

def prettyItems (depth : Nat) : List Json → List (List Char)
  | [] => []
  | v :: vs => pretty depth v :: prettyItems depth vs

def prettyFields (depth : Nat) : List (Option String × Json) → List (List Char)
  | [] => []
  | (k, v) :: rest => (quote? k ++ ':' :: ' ' :: pretty depth v) :: prettyFields depth rest

end

mutual

/-- The document on one line, without blanks. -/
def compact : Json → List Char
  | null => "null".toList
  | bool b => (if b then "true" else "false").toList
  | number n => n.chars
  | string s => quote? s
  | array items => '[' :: joined [','] (compactItems items) ++ [']']
  | object fields => '{' :: joined [','] (compactFields fields) ++ ['}']

def compactItems : List Json → List (List Char)
  | [] => []
  | v :: vs => compact v :: compactItems vs

def compactFields : List (Option String × Json) → List (List Char)
  | [] => []
  | (k, v) :: rest => (quote? k ++ ':' :: compact v) :: compactFields rest

end

end Json

end Readback
