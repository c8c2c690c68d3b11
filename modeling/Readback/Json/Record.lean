import Readback.Json

namespace Readback.Json

def nat? (limit : Nat) : Json → Option Nat
  | number n => n.below? limit
  | _ => none

def bool? : Json → Option Bool
  | bool b => some b
  | _ => none

def text? : Json → Option String
  | string s => s
  | _ => none

def float? : Json → Option Float
  | number n => n.toFloat?
  | _ => none

def list? {α : Type} (item? : Json → Option α) : Json → Option (List α)
  | array items => items.mapM item?
  | _ => none

/-- What stands for nothing is `null`. -/
def optional {α : Type} (item : α → Json) (x : Option α) : Json :=
  x.elim null item

def optional? {α : Type} (item? : Json → Option α) : Json → Option (Option α)
  | null => some none
  | v => (item? v).map some

/-- One of several names, which may also be written as the only field of an object. -/
def name? : Json → Option String
  | string s => s
  | object [(some s, null)] => some s
  | _ => none

/-- The values of the fields with these names, in the order of the names; other fields are skipped.
A record may also be written as the array of its values. -/
def members? (names : List String) : Json → Option (List (Option Json))
  | object fields => do
    let named ← fields.mapM fun (k, v) => k.map fun k => (k, v)
    if names.all fun n => named.countP (·.1 = n) ≤ 1 then
      return names.map fun n => named.lookup n
    else none
  | array items => if items.length = names.length then some (items.map some) else none
  | _ => none

/-- The fields of a record in the order in which they are written; those of an array of values are
the first of the names. -/
def entries? (names : List String) : Json → Option (List (Option String × Json))
  | object fields => some fields
  | array items => some ((names.map some).zip items)
  | _ => none

/-- Whether an array has at most as many values as there are names. -/
def fits (names : List String) : Json → Bool
  | array items => items.length ≤ names.length
  | _ => true

end Readback.Json
