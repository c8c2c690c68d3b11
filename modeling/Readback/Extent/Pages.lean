import Readback.Bytes

namespace Readback

/-- `2 ^ h` pages of bytes.  Only those are kept that something was written to. -/
inductive Pages : Nat → Type
  | zeroes {h : Nat} : Pages h
  | page (bytes : ByteArray) : Pages 0
  | halves {h : Nat} (low high : Pages h) : Pages (h + 1)

namespace Pages

def pageSize : Nat := 4096

def span (h : Nat) : Nat :=
  pageSize <<< h

def byteAt : {h : Nat} → Pages h → Nat → UInt8
  | _, zeroes, _ => 0
  | _, page bytes, i => Bytes.byteAt bytes i
  | h + 1, halves low high, i =>
    if i < span h then low.byteAt i else high.byteAt (i - span h)

def read : {h : Nat} → Pages h → (start count : Nat) → ByteArray
  | _, zeroes, _, count => Bytes.zeroes count
  | _, page bytes, start, count => Bytes.window bytes start count
  | h + 1, halves low high, start, count =>
    let half := span h
    if start + count ≤ half then low.read start count
    else if half ≤ start then high.read (start - half) count
    else low.read start (half - start) ++ high.read 0 (start + count - half)

theorem size_read {h : Nat} (p : Pages h) (start count : Nat) :
    (p.read start count).size = count := by
  induction p generalizing start count with
  | zeroes => exact Bytes.size_zeroes count
  | page bytes => exact Bytes.size_window bytes start count
  | halves low high ihl ihh =>
    simp only [read]
    split
    · exact ihl _ _
    · split
      · exact ihh _ _
      · rw [ByteArray.size_append, ihl, ihh]
        omega

def content : Pages 0 → ByteArray
  | zeroes => Bytes.zeroes pageSize
  | page bytes => bytes

def low {h : Nat} : Pages (h + 1) → Pages h
  | zeroes => zeroes
  | halves low _ => low

def high {h : Nat} : Pages (h + 1) → Pages h
  | zeroes => zeroes
  | halves _ high => high

def write : {h : Nat} → Pages h → (start : Nat) → ByteArray → Pages h
  | 0, p, start, data => page (Bytes.overwrite p.content start data)
  | h + 1, p, start, data =>
    let half := span h
    if start + data.size ≤ half then halves (p.low.write start data) p.high
    else if half ≤ start then halves p.low (p.high.write (start - half) data)
    else
      let first := half - start
      halves (p.low.write start (Bytes.slice data 0 first))
        (p.high.write 0 (Bytes.slice data first (data.size - first)))

def clear : {h : Nat} → Pages h → (start count : Nat) → Pages h
  | _, zeroes, _, _ => zeroes
  | _, page bytes, start, count =>
    page (Bytes.overwrite bytes start (Bytes.zeroes (min count pageSize)))
  | h + 1, halves low high, start, count =>
    let half := span h
    if start = 0 ∧ half + half ≤ count then zeroes
    else if start + count ≤ half then halves (low.clear start count) high
    else if half ≤ start then halves low (high.clear (start - half) count)
    else halves (low.clear start (half - start)) (high.clear 0 (start + count - half))

end Pages

end Readback
