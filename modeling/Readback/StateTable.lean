import Readback.Error
import Readback.Tag

namespace Readback

/-- What was last written to each block, and a bit for each block that was ever verified. -/
structure StateTable where
  states : Array BlockState
  words : Array UInt64
  coveredCount : Nat

namespace StateTable

/-- The greatest number of states that a table can hold, at four bytes each. -/
def maxSize : Nat := (Bytes.limit - 1) / 4

def make (nBlocks : Nat) : Except Fault StateTable :=
  if nBlocks ≤ maxSize then
    .ok {
      states := Array.replicate nBlocks none
      words := Array.replicate ((nBlocks + 63) / 64) 0
      coveredCount := 0 }
  else .error .overflow

def size (t : StateTable) : Nat :=
  t.states.size

def get (t : StateTable) (block : Nat) : Except Fault BlockState :=
  if h : block < t.states.size then .ok t.states[block] else .error .outOfBounds

def set (t : StateTable) (block : Nat) (s : BlockState) : Except Fault StateTable :=
  if h : block < t.states.size then .ok { t with states := t.states.set block s }
  else .error .outOfBounds

def bit (block : Nat) : UInt64 :=
  1 <<< (block % 64).toUInt64

/-- Sets the bit of a block, and says whether it was clear before. -/
def mark (t : StateTable) (block : Nat) : Except Fault (Bool × StateTable) :=
  if h : block / 64 < t.words.size then
    let word := t.words[block / 64]
    if word &&& bit block ≠ 0 then .ok (false, t)
    else .ok (true, { t with
      words := t.words.set (block / 64) (word ||| bit block)
      coveredCount := t.coveredCount + 1 })
  else .error .outOfBounds

def isCovered (t : StateTable) (block : Nat) : Except Fault Bool :=
  if h : block / 64 < t.words.size then .ok (t.words[block / 64] &&& bit block ≠ 0)
  else .error .outOfBounds

def texts (t : StateTable) : List String :=
  t.states.toList.map BlockState.text

def coveredBlocks (t : StateTable) : Except Fault (List Nat) :=
  (List.range t.size).filterM t.isCovered

end StateTable

end Readback
