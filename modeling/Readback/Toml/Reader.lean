import Readback.Bytes
import Readback.Toml.Moment
import Readback.Toml.Number

namespace Readback.Toml

def isBlank (c : Char) : Bool :=
  c = ' ' || c = '\t'

def skipBlanks (s : List Char) : List Char :=
  s.dropWhile isBlank

/-- Whether a character may stand for itself: control characters other than the tab may not. -/
def isPlain (c : Char) : Bool :=
  c = '\t' || (32 ≤ c.toNat && c.toNat ≠ 127)

def skipComment : List Char → List Char
  | '#' :: s => s.dropWhile isPlain
  | s => s

/-- What follows the line, after nothing but blanks and a comment. -/
def lineEnd (s : List Char) : Option (List Char) :=
  match skipComment (skipBlanks s) with
  | [] => some []
  | '\n' :: s => some s
  | _ => none

/-- Line breaks of two characters are read as one. -/
def unifyBreaks : List Char → List Char
  | '\r' :: '\n' :: s => '\n' :: unifyBreaks s
  | c :: s => c :: unifyBreaks s
  | [] => []

def codePoint (count : Nat) (s : List Char) : Option (Char × List Char) := do
  let digits ← (s.take count).mapM Bytes.hexValue?
  let n := digits.foldl (16 * · + ·) 0
  if digits.length = count ∧ n.isValidChar then return (Char.ofNat n, s.drop count) else none

def unescape : List Char → Option (Char × List Char)
  | '"' :: s => some ('"', s)
  | '\\' :: s => some ('\\', s)
  | 'b' :: s => some ('\x08', s)
  | 'f' :: s => some ('\x0c', s)
  | 'n' :: s => some ('\n', s)
  | 'r' :: s => some ('\r', s)
  | 't' :: s => some ('\t', s)
  | 'u' :: s => codePoint 4 s
  | 'U' :: s => codePoint 8 s
  | _ => none

/-- A kind of quotation: the quote that ends it, and whether a backslash starts an escape. -/
structure Quotation where
  quote : Char
  escapes : Bool

def Quotation.basic : Quotation := ⟨'"', true⟩

def Quotation.literal : Quotation := ⟨'\x27', false⟩

def quoted (q : Quotation) : (fuel : Nat) → List Char → Option (List Char × List Char)
  | 0, _ => none
  | _, [] => none
  | fuel + 1, c :: s => do
    if c = q.quote then return ([], s)
    else if q.escapes ∧ c = '\\' then
      let (c, s) ← unescape s
      let (cs, rest) ← quoted q fuel s
      return (c :: cs, rest)
    else if isPlain c then
      let (cs, rest) ← quoted q fuel s
      return (c :: cs, rest)
    else none

/-- The characters up to three quotes, before which up to two more may stand.  A backslash at the
end of a line takes away the break and all blanks after it. -/
def quotedLines (q : Quotation) : (fuel : Nat) → List Char → Option (List Char × List Char)
  | 0, _ => none
  | _, [] => none
  | fuel + 1, c :: s => do
    let quotes := ((c :: s).takeWhile (· = q.quote)).length
    if 3 ≤ quotes then
      if quotes ≤ 5 then return (List.replicate (quotes - 3) q.quote, (c :: s).drop quotes)
      else none
    else if q.escapes ∧ c = '\\' then
      match skipBlanks s with
      | '\n' :: s => quotedLines q fuel (s.dropWhile fun c => isBlank c || c = '\n')
      | _ =>
        let (c, s) ← unescape s
        let (cs, rest) ← quotedLines q fuel s
        return (c :: cs, rest)
    else if isPlain c ∨ c = '\n' then
      let (cs, rest) ← quotedLines q fuel s
      return (c :: cs, rest)
    else none

def skipBreak : List Char → List Char
  | '\n' :: s => s
  | s => s

/-- A text, after the first of its quotes. -/
def textAfterQuote (q : Quotation) (s : List Char) : Option (Toml × List Char) :=
  let found := match s with
    | a :: b :: s' =>
      if a = q.quote ∧ b = q.quote then quotedLines q (s'.length + 1) (skipBreak s')
      else quoted q (s.length + 1) s
    | s => quoted q (s.length + 1) s
  found.map fun (cs, rest) => (text (String.ofList cs), rest)

def isKeyChar (c : Char) : Bool :=
  c.isAlphanum || c = '_' || c = '-'

def keyPart (s : List Char) : Option (String × List Char) :=
  let found := match s with
    | '"' :: s => quoted .basic (s.length + 1) s
    | '\x27' :: s => quoted .literal (s.length + 1) s
    | s =>
      match s.takeWhile isKeyChar with
      | [] => none
      | cs => some (cs, s.dropWhile isKeyChar)
  found.map fun (cs, rest) => (String.ofList cs, rest)

def keyParts : (fuel : Nat) → List Char → Option (List String × List Char)
  | 0, _ => none
  | fuel + 1, s => do
    let (k, s) ← keyPart (skipBlanks s)
    match skipBlanks s with
    | '.' :: s =>
      let (ks, s) ← keyParts fuel s
      return (k :: ks, s)
    | s => return ([k], s)

/-- How many values may lie in each other, and how many parts a key may have. -/
def maxDepth : Nat := 79

def key (s : List Char) : Option (List String × List Char) := do
  let (ks, rest) ← keyParts (s.length + 1) s
  if ks.length ≤ maxDepth then return (ks, rest) else none

/-- Leaves out blanks, breaks and comments, such as may stand between the items of a list. -/
def skipLines (inComment : Bool) : List Char → List Char
  | [] => []
  | c :: s =>
    if c = '\n' then skipLines false s
    else if inComment then if isPlain c then skipLines true s else c :: s
    else if isBlank c then skipLines false s
    else if c = '#' then skipLines true s
    else c :: s

def scalar (s : List Char) : Option (Toml × List Char) :=
  match afterMoment s with
  | some rest => some (other, rest)
  | none => number s

mutual

/-- One value, in which `depth` more may lie in each other; `fuel` bounds its length. -/
def value (depth : Nat) : (fuel : Nat) → List Char → Option (Toml × List Char)
  | 0, _ => none
  | fuel + 1, s =>
    match depth, s with
    | _, '"' :: s => textAfterQuote .basic s
    | _, '\x27' :: s => textAfterQuote .literal s
    | _, 't' :: 'r' :: 'u' :: 'e' :: s => some (truth true, s)
    | _, 'f' :: 'a' :: 'l' :: 's' :: 'e' :: s => some (truth false, s)
    | depth + 1, '[' :: s => (items depth fuel s).map fun (vs, rest) => (list vs, rest)
    | depth + 1, '{' :: s =>
      match skipBlanks s with
      | '}' :: rest => some (table .braces [], rest)
      | s => (pairs depth fuel [] s).map fun (fields, rest) => (table .braces fields, rest)
    | _, s => scalar s

/-- The items of a list, between which lines may break, up to the closing bracket. -/
def items (depth : Nat) : (fuel : Nat) → List Char → Option (List Toml × List Char)
  | 0, _ => none
  | fuel + 1, s => do
    match skipLines false s with
    | ']' :: rest => return ([], rest)
    | s =>
      let (v, s) ← value depth fuel s
      match skipLines false s with
      | ']' :: rest => return ([v], rest)
      | ',' :: s =>
        let (vs, rest) ← items depth fuel s
        return (v :: vs, rest)
      | _ => none

/-- The fields of a table in braces, all on one line. -/
def pairs (depth : Nat) : (fuel : Nat) → Fields → List Char → Option (Fields × List Char)
  | 0, _, _ => none
  | fuel + 1, fields, s => do
    let (k, s) ← key s
    match s with
    | '=' :: s =>
      let (v, s) ← value depth fuel (skipBlanks s)
      let fields ← addValue v k fields
      match skipBlanks s with
      | '}' :: rest => return (fields, rest)
      | ',' :: s => pairs depth fuel fields s
      | _ => none
    | _ => none

end

/-- A document as far as it was read: its fields, and the table that the last header opened. -/
structure Progress where
  fields : Fields
  path : List String

/-- One line: a header, a key with its value, or nothing but a comment. -/
def line (p : Progress) (s : List Char) : Option (Progress × List Char) := do
  match skipBlanks s with
  | [] => return (p, [])
  | '\n' :: s => return (p, s)
  | '#' :: s => return (p, ← lineEnd ('#' :: s))
  | '[' :: '[' :: s =>
    let (path, s) ← key s
    match s with
    | ']' :: ']' :: s => return (⟨← openNext path p.fields, path⟩, ← lineEnd s)
    | _ => none
  | '[' :: s =>
    let (path, s) ← key s
    match s with
    | ']' :: s => return (⟨← openTable path p.fields, path⟩, ← lineEnd s)
    | _ => none
  | s =>
    let (k, s) ← key s
    match s with
    | '=' :: s =>
      let (v, s) ← value maxDepth (s.length + 1) (skipBlanks s)
      return (⟨← addBelow v k p.path p.fields, p.path⟩, ← lineEnd s)
    | _ => none

def lines : (fuel : Nat) → Progress → List Char → Option Fields
  | _, p, [] => some p.fields
  | 0, _, _ => none
  | fuel + 1, p, s => do
    let (p, rest) ← line p s
    lines fuel p rest

/-- Reads a settings file, which may begin with a byte order mark. -/
def parse? (s : String) : Option Fields :=
  let s := match unifyBreaks s.toList with
    | '\ufeff' :: s => s
    | s => s
  lines (s.length + 1) ⟨[], []⟩ s

end Readback.Toml
