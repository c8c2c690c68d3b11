import Readback.Random.Source

namespace Readback

/-- A word width to draw in, with the way to draw a number of that many bits. -/
inductive Width
  | word32
  | word64

namespace Width

def bits : Width → Nat
  | word32 => 32
  | word64 => 64

def draw : Width → Source → Option (Nat × Source)
  | word32, s => s.next.map fun (w, s) => (w.toNat, s)
  | word64, s => s.next64.map fun (w, s) => (w.toNat, s)

/-- The greatest low half of a product that is accepted when drawing below `range`. -/
def zone (w : Width) (range : Nat) : Nat :=
  range * 2 ^ (w.bits - 1 - range.log2) - 1

end Width

namespace Source

/-- Draws until one is accepted, at most `tries` times.  A draw `v` is accepted if the low half of
`v * range` is in the zone, and stands for the high half. -/
def below (w : Width) (range : Nat) : (tries : Nat) → Source → Option (Nat × Source)
  | 0, _ => none
  | tries + 1, s => do
    let (v, s) ← w.draw s
    if v * range % 2 ^ w.bits ≤ w.zone range then return (v * range / 2 ^ w.bits, s)
    below w range tries s

/-- A number from `low` to `high`, every one as likely as the others.  There is none if the source
ends first, or goes round without a draw that is accepted. -/
def between (w : Width) (low high : Nat) (s : Source) : Option (Nat × Source) :=
  (s.below w (high + 1 - low) s.supply).map fun (v, s) => (low + v, s)

end Source

end Readback
