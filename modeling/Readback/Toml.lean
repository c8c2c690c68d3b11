namespace Readback

namespace Toml

/-- How a table came to be, which says what may still be added to it. -/
inductive Origin
  /-- Written in braces; nothing may be added. -/
  | braces
  /-- Opened by a header of its own. -/
  | header
  /-- Named on the way to a longer header, and may still get one of its own. -/
  | passed
  /-- Named on the way to a longer key. -/
  | dotted
  deriving DecidableEq, Repr

end Toml

/-- A value in a settings file. -/
inductive Toml
  | text (s : String)
  | whole (n : Int)
  | truth (b : Bool)
  /-- A number that need not be whole, a date or a time, which no setting takes. -/
  | other
  | list (items : List Toml)
  | table (origin : Toml.Origin) (fields : List (String × Toml))
  /-- A list of tables with a header each, from the last one back to the first. -/
  | tables (last : List (String × Toml)) (before : List (List (String × Toml)))

namespace Toml

abbrev Fields := List (String × Toml)

def alter (k : String) (f : Option Toml → Option Toml) : Fields → Option Fields
  | [] => (f none).map fun v => [(k, v)]
  | (k', v) :: rest =>
    if k' = k then (f (some v)).map fun v => (k, v) :: rest
    else (alter k f rest).map ((k', v) :: ·)

/-- Adds a value under a dotted key.  The table that gets it must come from such a key; on the way
to it may also be tables without a header of their own, and the last one of a list. -/
def addValue (v : Toml) : (key : List String) → Fields → Option Fields
  | [], _ => none
  | [k], fields => alter k (fun old => if old.isNone then some v else none) fields
  | k :: key, fields =>
    alter k (fun
      | none => (addValue v key []).map (table .dotted)
      | some (table .dotted inner) => (addValue v key inner).map (table .dotted)
      | some (table .passed inner) =>
        if key.length = 1 then none else (addValue v key inner).map (table .passed)
      | some (tables last before) =>
        if key.length = 1 then none else (addValue v key last).map (tables · before)
      | some _ => none) fields

/-- Changes what a header names.  The way there leads into the last table of a list. -/
def reach (f : Option Toml → Option Toml) : (path : List String) → Fields → Option Fields
  | [], _ => none
  | [k], fields => alter k f fields
  | k :: path, fields =>
    alter k (fun
      | none => (reach f path []).map (table .passed)
      | some (table .braces _) => none
      | some (table origin inner) => (reach f path inner).map (table origin)
      | some (tables last before) => (reach f path last).map (tables · before)
      | some _ => none) fields

/-- Opens the table that a header names. -/
def openTable : (path : List String) → Fields → Option Fields :=
  reach fun
    | none => some (table .header [])
    | some (table .passed inner) => some (table .header inner)
    | some _ => none

/-- Opens one more table of the list that a header names. -/
def openNext : (path : List String) → Fields → Option Fields :=
  reach fun
    | none => some (tables [] [])
    | some (tables last before) => some (tables [] (last :: before))
    | some _ => none

/-- Adds a value under a dotted key to the table that the last header opened. -/
def addBelow (v : Toml) (key : List String) : (path : List String) → Fields → Option Fields
  | [], fields => addValue v key fields
  | k :: path, fields =>
    alter k (fun
      | some (table origin inner) => (addBelow v key path inner).map (table origin)
      | some (tables last before) => (addBelow v key path last).map (tables · before)
      | _ => none) fields

end Toml

end Readback
