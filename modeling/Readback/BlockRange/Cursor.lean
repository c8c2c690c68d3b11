import Readback.BlockRange

namespace Readback.BlockRange

/-- What is left of a walk over a range that may take blocks from both ends. -/
structure Cursor where
  next : Nat
  stop : Nat
  deriving DecidableEq, Repr

def cursor (r : BlockRange) : Cursor :=
  ⟨r.start, r.stop⟩

namespace Cursor

def front (c : Cursor) : Except Fault (Option Nat × Cursor) :=
  if c.next < c.stop then do
    let next ← Word.add c.next 1
    return (some c.next, { c with next })
  else return (none, c)

def back (c : Cursor) : Except Fault (Option Nat × Cursor) :=
  if c.next < c.stop then do
    let stop ← Word.sub c.stop 1
    return (some stop, { c with stop })
  else return (none, c)

/-- The block after skipping `n` at the same end; a walk that ends while skipping yields nothing. -/
def skip (step : Cursor → Except Fault (Option Nat × Cursor)) (c : Cursor) :
    Nat → Except Fault (Option Nat × Cursor)
  | 0 => step c
  | n + 1 => do
    match ← step c with
    | (some _, rest) => skip step rest n
    | (none, rest) => return (none, rest)

def nth (c : Cursor) (n : Nat) : Except Fault (Option Nat × Cursor) :=
  skip front c n

def nthBack (c : Cursor) (n : Nat) : Except Fault (Option Nat × Cursor) :=
  skip back c n

def length (c : Cursor) : Except Fault Nat :=
  Word.sub c.stop c.next

/-- The least and the greatest number of blocks that may be to come. -/
def sizeHint (c : Cursor) : Except Fault (Nat × Option Nat) := do
  let n ← c.length
  return (n, some n)

def count (c : Cursor) : Except Fault Nat :=
  c.length

/-- The block at which a walk to the end ends. -/
def last? (c : Cursor) : Except Fault (Option Nat) :=
  if c.next < c.stop then do
    let block ← Word.sub c.stop 1
    return some block
  else return none

def toList (c : Cursor) : List Nat :=
  List.range' c.next (c.stop - c.next)

end Cursor

end Readback.BlockRange
