import Readback.Basic

namespace Readback.Bytes

/-- One past the greatest number of bytes that can be kept together. -/
def limit : Nat := 2 ^ 63

def filled (n : Nat) (b : UInt8) : ByteArray :=
  ⟨Array.replicate n b⟩

def zeroes (n : Nat) : ByteArray :=
  filled n 0

theorem size_zeroes (n : Nat) : (zeroes n).size = n := by
  simp [zeroes, filled, ByteArray.size]

/-- The `width` low bytes of a number, the most significant first. -/
def bigEndian : (width value : Nat) → List UInt8
  | 0, _ => []
  | width + 1, value => bigEndian width (value / 256) ++ [UInt8.ofNat value]

/-- The `width` low bytes of a number, the least significant first. -/
def littleEndian : (width value : Nat) → List UInt8
  | 0, _ => []
  | width + 1, value => UInt8.ofNat value :: littleEndian width (value / 256)

def hexDigit (n : Nat) : Char :=
  if n < 10 then Char.ofNat (48 + n) else Char.ofNat (87 + n)

def hexNumber : (width value : Nat) → List Char
  | 0, _ => []
  | width + 1, value => hexNumber width (value / 16) ++ [hexDigit (value % 16)]

def hex (bytes : ByteArray) : String :=
  String.ofList (bytes.toList.flatMap fun b => hexNumber 2 b.toNat)

def hexValue? (c : Char) : Option Nat :=
  if '0' ≤ c ∧ c ≤ '9' then some (c.toNat - 48)
  else if 'a' ≤ c ∧ c ≤ 'f' then some (c.toNat - 87)
  else if 'A' ≤ c ∧ c ≤ 'F' then some (c.toNat - 55)
  else none

def ofHex? : List Char → Option (List UInt8)
  | [] => some []
  | [_] => none
  | high :: low :: rest => do
    let h ← hexValue? high
    let l ← hexValue? low
    return UInt8.ofNat (16 * h + l) :: (← ofHex? rest)

def concat (parts : List ByteArray) : ByteArray :=
  parts.foldl (· ++ ·) ByteArray.empty

def slice (bytes : ByteArray) (start count : Nat) : ByteArray :=
  bytes.extract start (start + count)

theorem size_slice {bytes : ByteArray} {start count : Nat} (h : start + count ≤ bytes.size) :
    (slice bytes start count).size = count := by
  simp only [slice, ByteArray.size_extract]
  omega

/-- The `count` bytes from `start` on, of which those past the end are zero. -/
def window (bytes : ByteArray) (start count : Nat) : ByteArray :=
  let found := slice bytes start count
  found ++ zeroes (count - found.size)

theorem size_window (bytes : ByteArray) (start count : Nat) :
    (window bytes start count).size = count := by
  simp only [window, slice, ByteArray.size_append, size_zeroes, ByteArray.size_extract]
  omega

/-- `bytes` with the bytes from `start` on replaced by those of `patch`, as far as they reach. -/
def overwrite (bytes : ByteArray) (start : Nat) (patch : ByteArray) : ByteArray :=
  patch.copySlice 0 bytes start (min patch.size (bytes.size - start))

/-- The byte at `i`, zero past the end. -/
@[inline] def byteAt (bytes : ByteArray) (i : Nat) : UInt8 :=
  if h : i < bytes.size then bytes[i] else 0

/-- The eight bytes from `i` on as a number, the most significant first. -/
def wordAt (bytes : ByteArray) (i : Nat) : UInt64 :=
  Nat.fold 8 (fun k _ w => (w <<< 8) ||| (byteAt bytes (i + k)).toUInt64) 0

end Readback.Bytes
