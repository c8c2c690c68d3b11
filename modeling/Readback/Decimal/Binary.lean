import Readback.Basic

namespace Readback

/-- A floating-point number taken apart: the finite ones are a whole number times a power of two. -/
inductive Binary
  | nan
  | infinite (negative : Bool)
  | finite (negative : Bool) (mantissa : Nat) (exponent : Int)
  deriving DecidableEq, Repr

namespace Binary

/-- Takes apart the bits of a number with `fractionBits` bits after the point and `exponentBits`
bits of exponent. -/
def ofBits (fractionBits exponentBits bits : Nat) : Binary :=
  let negative := bits / 2 ^ (fractionBits + exponentBits) % 2 = 1
  let exponent := bits / 2 ^ fractionBits % 2 ^ exponentBits
  let fraction := bits % 2 ^ fractionBits
  let lowest : Int := 2 - 2 ^ (exponentBits - 1) - fractionBits
  if exponent = 2 ^ exponentBits - 1 then
    if fraction = 0 then infinite negative else nan
  else if exponent = 0 then finite negative fraction lowest
  else finite negative (2 ^ fractionBits + fraction) (lowest + (exponent - 1))

def ofFloat (x : Float) : Binary :=
  ofBits 52 11 x.toBits.toNat

def ofFloat32 (x : Float32) : Binary :=
  ofBits 23 8 x.toBits.toNat

end Binary

end Readback
