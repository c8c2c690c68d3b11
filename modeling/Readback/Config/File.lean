import Readback.Config.Fields
import Readback.Toml.Reader

namespace Readback

namespace Toml

def nat? (limit : Nat) : Toml → Option Nat
  | whole n => if 0 ≤ n ∧ n < limit then some n.toNat else none
  | _ => none

def truth? : Toml → Option Bool
  | truth b => some b
  | _ => none

def text? : Toml → Option String
  | text s => some s
  | _ => none

def isEmpty : Toml → Bool
  | list [] => true
  | table _ [] => true
  | _ => false

/-- One of several names, which may also be written as the only field of a table, over something
empty. -/
def name? : Toml → Option String
  | text s => some s
  | table _ [(k, v)] => if v.isEmpty then some k else none
  | _ => none

end Toml

namespace Config

def tomlFormat : Format Toml where
  uint64? v := (v.nat? Word.limit).map Nat.toUInt64
  uint8? v := (v.nat? 256).map Nat.toUInt8
  bool? := Toml.truth?
  text? := Toml.text?
  name? := Toml.name?
  isNull _ := false

def ofFields (fields : Toml.Fields) : Except Unreadable Config :=
  tomlFormat.config (fields.map fun (k, v) => (some k, v))

/-- Reads the text of a configuration file. -/
def ofToml (s : String) : Except Unreadable Config := do
  ofFields (← orMalformed (Toml.parse? s))

end Config

end Readback
