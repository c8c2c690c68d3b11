import Readback.ChaCha8

namespace Readback

/-- Where a key stream has got to: the next block, and the words left of the last one. -/
structure KeyStream where
  key : ChaCha8.Key
  counter : UInt64
  pending : List UInt32
  deriving DecidableEq

namespace KeyStream

def ofKey (key : ChaCha8.Key) : KeyStream :=
  ⟨key, 0, []⟩

/-- The multiplier and increment of the generator that stretches a seed into a key. -/
def multiplier : UInt64 := 6364136223846793005

def increment : UInt64 := 11634580027462260723

def seedWord (s : UInt64) : UInt32 :=
  let x := (((s >>> 18) ^^^ s) >>> 27).toUInt32
  let n := (s >>> 59).toUInt32
  (x >>> n) ||| (x <<< ((32 - n) % 32))

/-- The first `n` words stretched from a seed. -/
def seedWords (s : UInt64) : (n : Nat) → List UInt32
  | 0 => []
  | n + 1 =>
    let s := s * multiplier + increment
    seedWord s :: seedWords s n

def ofSeed (seed : UInt64) : KeyStream :=
  ofKey (Vector.ofFn fun i => (seedWords seed 8).getD i 0)

def next (k : KeyStream) : UInt32 × KeyStream :=
  match k.pending with
  | w :: rest => (w, { k with pending := rest })
  | [] =>
    let b := ChaCha8.block k.key k.counter
    (b[0], { k with counter := k.counter + 1, pending := b.toList.tail })

end KeyStream

/-- Random words: a key stream, which never ends, or a list, which does. -/
inductive Source
  | stream (k : KeyStream)
  | words (ws : List UInt32)
  deriving DecidableEq

namespace Source

def ofSeed (seed : UInt64) : Source :=
  .stream (.ofSeed seed)

def next : Source → Option (UInt32 × Source)
  | .stream k => let (w, k) := k.next; some (w, .stream k)
  | .words [] => none
  | .words (w :: ws) => some (w, .words ws)

/-- A number of 64 bits from the next two words, the low one first. -/
def next64 (s : Source) : Option (UInt64 × Source) := do
  let (low, s) ← s.next
  let (high, s) ← s.next
  return (low.toUInt64 ||| high.toUInt64 <<< 32, s)

/-- The number of words before the source ends or starts to repeat itself. -/
def supply : Source → Nat
  | .stream _ => 2 ^ 68
  | .words ws => ws.length

end Source

end Readback
