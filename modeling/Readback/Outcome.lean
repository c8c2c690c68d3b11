import Readback.Content
import Readback.Geometry
import Readback.RangeLock

namespace Readback

/-- A block that came back other than it was last written. -/
structure Mismatch where
  block : Nat
  offset : Nat
  tag : Tag
  /-- The index in the block of the first byte that differs. -/
  firstDiff : Nat
  /-- Up to 16 bytes from there on, as they should be and as they are. -/
  expected : ByteArray
  actual : ByteArray
  deriving DecidableEq

def Mismatch.text (m : Mismatch) : String :=
  s!"block {m.block} at offset {m.offset} ({m.tag.text}) differs from byte {m.firstDiff}: "
    ++ s!"expected {Bytes.hex m.expected} got {Bytes.hex m.actual}"

/-- What the comparison of one block comes to. -/
inductive Verdict
  /-- The block had never been written. -/
  | skipped
  | matched (block : Nat) (tag : Tag)
  | differs (m : Mismatch)
  deriving DecidableEq

/-- What was found out about the blocks of one lease. -/
structure Outcome where
  skipped : Nat
  verified : Nat
  verifiedDuplicate : Nat
  verifiedTrimmed : Nat
  verifiedBlocks : List Nat
  mismatches : List Mismatch
  /-- Set if the range could not be read, in which case nothing was compared. -/
  readError : Option Error
  deriving DecidableEq

namespace Verdict

def isSkipped : Verdict → Bool
  | skipped => true
  | _ => false

def matched? : Verdict → Option (Nat × Tag)
  | matched b t => some (b, t)
  | _ => none

def mismatch? : Verdict → Option Mismatch
  | differs m => some m
  | _ => none

end Verdict

namespace Outcome

def isClean (o : Outcome) : Bool :=
  o.mismatches.isEmpty && o.readError.isNone

def ofVerdicts (vs : List Verdict) : Outcome :=
  let matched := vs.filterMap Verdict.matched?
  { skipped := vs.countP Verdict.isSkipped
    verified := matched.length
    verifiedDuplicate := matched.countP (·.2 = .duplicate)
    verifiedTrimmed := matched.countP (·.2 = .trimmed)
    verifiedBlocks := matched.map (·.1)
    mismatches := vs.filterMap Verdict.mismatch?
    readError := none }

/-- The outcome for a range of which no block was ever written. -/
def untouched (count : Nat) : Outcome :=
  { ofVerdicts [] with skipped := count }

/-- The outcome for a lease whose range could not be read. -/
def unread (l : Lease) (e : Error) : Outcome :=
  { ofVerdicts [] with skipped := l.prior.countP Option.isNone, readError := some e }

/-- The first index from `i` on, of the next `n`, where two byte strings differ. -/
def differsFrom (a b : ByteArray) (i : Nat) : (n : Nat) → Option Nat
  | 0 => none
  | n + 1 => if Bytes.byteAt a i ≠ Bytes.byteAt b i then some i else differsFrom a b (i + 1) n

def firstDifference (a b : ByteArray) : Option Nat :=
  differsFrom a b 0 (min a.size b.size)

/-- The length of the excerpts of a block that differs. -/
def previewLength : Nat := 16

/-- Compares the content of a block with what was found in its place. -/
def compare (block offset : Nat) (tag : Tag) (expected actual : ByteArray) : Verdict :=
  match firstDifference expected actual with
  | none => .matched block tag
  | some i =>
    .differs {
      block, offset, tag
      firstDiff := i
      expected := Bytes.slice expected i previewLength
      actual := Bytes.slice actual i previewLength }

/-- Compares the bytes read for one block with what was last written to it. -/
def judge (c : Content) (g : Geometry) (actual : ByteArray) (block : Nat) :
    BlockState → Except Fault Verdict
  | none => .ok .skipped
  | some tag => do
    let offset ← g.byteOffset block
    let expected ← c.block offset tag
    return compare block offset tag expected actual

/-- Judges the blocks one after another; `bytes` holds what was read from the `i`-th on. -/
def judgeAll (c : Content) (g : Geometry) (bytes : ByteArray) :
    (i : Nat) → List (Nat × BlockState) → Except Fault (List Verdict)
  | _, [] => .ok []
  | i, (block, prior) :: rest => do
    let actual := Bytes.slice bytes (i * c.blockSize) c.blockSize
    let v ← judge c g actual block prior
    return v :: (← judgeAll c g bytes (i + 1) rest)

/-- Compares what was read for a lease with what was last written to its blocks. -/
def ofBytes (c : Content) (g : Geometry) (l : Lease) (bytes : ByteArray) : Except Fault Outcome :=
  (judgeAll c g bytes 0 (l.range.blocks.zip l.prior)).map ofVerdicts

end Outcome

end Readback
