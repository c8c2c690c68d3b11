import Readback.Bytes

namespace Readback

namespace ChaCha8

abbrev Key := Vector UInt32 8

abbrev Block := Vector UInt32 16

/-- The key whose bytes, the least significant of each word first, are the first 32 of `bytes`. -/
def Key.ofBytes (bytes : ByteArray) : Key :=
  Vector.ofFn fun i =>
    Nat.fold 4 (fun k _ w => w ||| (Bytes.byteAt bytes (4 * i + k)).toUInt32 <<< (8 * k).toUInt32) 0

def rotateLeft (x : UInt32) (n : UInt32) : UInt32 :=
  (x <<< n) ||| (x >>> (32 - n))

def quarterRound (s : Block) (a b c d : Fin 16) : Block :=
  let xa := s[a] + s[b]
  let xd := rotateLeft (s[d] ^^^ xa) 16
  let xc := s[c] + xd
  let xb := rotateLeft (s[b] ^^^ xc) 12
  let xa := xa + xb
  let xd := rotateLeft (xd ^^^ xa) 8
  let xc := xc + xd
  let xb := rotateLeft (xb ^^^ xc) 7
  (((s.set a xa).set b xb).set c xc).set d xd

def doubleRound (s : Block) : Block :=
  let s := quarterRound s 0 4 8 12
  let s := quarterRound s 1 5 9 13
  let s := quarterRound s 2 6 10 14
  let s := quarterRound s 3 7 11 15
  let s := quarterRound s 0 5 10 15
  let s := quarterRound s 1 6 11 12
  let s := quarterRound s 2 7 8 13
  quarterRound s 3 4 9 14

/-- Constants, key, a counter of 64 bits, and 64 bits of zero that name the stream. -/
def start (key : Key) (counter : UInt64) : Block :=
  #v[0x61707865, 0x3320646e, 0x79622d32, 0x6b206574,
    key[0], key[1], key[2], key[3], key[4], key[5], key[6], key[7],
    counter.toUInt32, (counter >>> 32).toUInt32, 0, 0]

/-- One block of the key stream, after eight rounds. -/
def block (key : Key) (counter : UInt64) : Block :=
  let s := start key counter
  Vector.zipWith (· + ·) (Nat.repeat doubleRound 4 s) s

def Block.toBytes (b : Block) : ByteArray :=
  (b.toList.flatMap fun w => Bytes.littleEndian 4 w.toNat).toByteArray

end ChaCha8

end Readback
