import Readback.BlockRange

namespace Readback

/-- A device cut into blocks; the bytes past the last whole block belong to none. -/
structure Geometry where
  devSize : Nat
  blockSize : Nat
  nBlocks : Nat
  deriving DecidableEq, Repr

namespace Geometry

def minBlockSize : Nat := 512

def maxBlockSize : Nat := 65536

inductive Refusal
  | notPowerOfTwo (blockSize : Nat)
  | blockSizeRange (blockSize : Nat)
  | noBlock (devSize blockSize : Nat)
  deriving DecidableEq, Repr

def Refusal.error : Refusal → Error
  | .notPowerOfTwo n => ⟨.config, s!"block size must be a power of two, not {n}"⟩
  | .blockSizeRange n =>
    ⟨.config, s!"block size must be between {minBlockSize} and {maxBlockSize} bytes, not {n}"⟩
  | .noBlock size n => ⟨.setup, s!"device of {size} bytes holds no {n} byte block"⟩

def checkBlockSize (n : Nat) : Except Refusal Unit :=
  if n ≠ 2 ^ n.log2 then .error (.notPowerOfTwo n)
  else if minBlockSize ≤ n ∧ n ≤ maxBlockSize then .ok ()
  else .error (.blockSizeRange n)

def make (devSize blockSize : Nat) : Except Refusal Geometry := do
  checkBlockSize blockSize
  if devSize / blockSize = 0 then throw (.noBlock devSize blockSize)
  return ⟨devSize, blockSize, devSize / blockSize⟩

def remainder (g : Geometry) : Nat :=
  g.devSize % g.blockSize

def byteOffset (g : Geometry) (block : Nat) : Except Fault Nat :=
  Word.mul block g.blockSize

/-- The block of a byte, found by clearing the low bits of its offset. -/
def blockOf (g : Geometry) (offset : Nat) : Nat :=
  (offset &&& (Word.limit - g.blockSize)) / g.blockSize

/-- The first byte of a range and the number of its bytes. -/
def rangeBytes (g : Geometry) (r : BlockRange) : Except Fault (Nat × Nat) := do
  let offset ← g.byteOffset r.start
  let count ← r.length
  return (offset, ← Word.mul count g.blockSize)

end Geometry

end Readback
