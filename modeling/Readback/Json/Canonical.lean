import Readback.Json

namespace Readback

/-- Whole numbers of 64 bits as they are; any other as the shortest numeral of the nearest
floating-point number. -/
def Numeral.canonical? (n : Numeral) : Option Numeral :=
  if n.isWhole ∧ n.whole < (if n.negative then 2 ^ 63 + 1 else 2 ^ 64)
      ∧ ¬(n.negative ∧ n.whole = 0) then some n
  else do Numeral.ofBinary? .double (.ofFloat (← n.toFloat?))

namespace Json

/-- The greatest number of brackets around a value. -/
def maxDepth : Nat := 127

mutual

/-- The document with its numbers as they are used, if it can be used at all: no half of a surrogate
pair, no number out of range, and at most `depth` levels. -/
def plain? : (depth : Nat) → Json → Option Json
  | _, null => some null
  | _, bool b => some (bool b)
  | _, number n => n.canonical?.map number
  | _, string s => s.map text
  | depth, array items => if depth = 0 then none else (plainItems? (depth - 1) items).map array
  | depth, object fields => if depth = 0 then none else (plainFields? (depth - 1) fields).map object

def plainItems? : (depth : Nat) → List Json → Option (List Json)
  | _, [] => some []
  | depth, v :: vs => do
    let v ← plain? depth v
    return v :: (← plainItems? depth vs)

def plainFields? : (depth : Nat) → List (Option String × Json) →
    Option (List (Option String × Json))
  | _, [] => some []
  | depth, (k, v) :: rest => do
    let v ← plain? depth v
    return (some (← k), v) :: (← plainFields? depth rest)

end

/-- Puts a field into its place in the order of names, instead of one with the same name. -/
def putField (k : Option String) (v : Json) :
    List (Option String × Json) → List (Option String × Json)
  | [] => [(k, v)]
  | (k', v') :: rest =>
    if k = k' then (k, v) :: rest
    else if k.getD "" < k'.getD "" then (k, v) :: (k', v') :: rest
    else (k', v') :: putField k v rest

mutual

/-- The document with its fields in the order of their names; of fields with one name the last
counts. -/
def sorted : Json → Json
  | array items => array (sortedItems items)
  | object fields => object (sortedFields [] fields)
  | v => v

def sortedItems : List Json → List Json
  | [] => []
  | v :: vs => sorted v :: sortedItems vs

/-- Adds fields to those there are. -/
def sortedFields (soFar : List (Option String × Json)) :
    List (Option String × Json) → List (Option String × Json)
  | [] => soFar
  | (k, v) :: rest => sortedFields (putField k (sorted v) soFar) rest

end

/-- The document as it is kept, if it can be used at all. -/
def canonical? (v : Json) : Option Json :=
  (v.plain? maxDepth).map sorted

end Json

end Readback
