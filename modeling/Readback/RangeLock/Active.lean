import Readback.BlockRange

namespace Readback

/-- The ranges that are leased out, ordered by where they start, no two from one start. -/
abbrev Active := List BlockRange

namespace Active

/-- Adds a range in place of the one with the same start, if there is one. -/
def insert (r : BlockRange) : Active → Active
  | [] => [r]
  | a :: rest =>
    if r.start < a.start then r :: a :: rest
    else if r.start = a.start then r :: rest
    else a :: insert r rest

def startingAt? (start : Nat) (active : Active) : Option BlockRange :=
  active.find? (·.start = start)

def erase (start : Nat) (active : Active) : Active :=
  active.filter (·.start ≠ start)

/-- The last range that starts before `stop`. -/
def lastBefore? (stop : Nat) (active : Active) : Option BlockRange :=
  (active.takeWhile (·.start < stop)).getLast?

/-- Whether an active range shares a block with `r`.  The active ranges share none, so only the last
that starts before the end of `r` can. -/
def overlaps (active : Active) (r : BlockRange) : Bool :=
  (active.lastBefore? r.stop).any (r.start < ·.stop)

/-- The first two neighbours of which the second starts before the first ends. -/
def collision? : Active → Option (BlockRange × BlockRange)
  | a :: b :: rest => if b.start < a.stop then some (a, b) else collision? (b :: rest)
  | _ => none

end Active

end Readback
