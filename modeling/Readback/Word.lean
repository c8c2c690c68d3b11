import Readback.Error

namespace Readback.Word

/-- One past the greatest 64-bit number. -/
def limit : Nat := 2 ^ 64

def add (a b : Nat) : Except Fault Nat :=
  if a + b < limit then .ok (a + b) else .error .overflow

def sub (a b : Nat) : Except Fault Nat :=
  if b ≤ a then .ok (a - b) else .error .overflow

def mul (a b : Nat) : Except Fault Nat :=
  if a * b < limit then .ok (a * b) else .error .overflow

theorem add_of_lt {a b : Nat} (h : a + b < limit) : add a b = .ok (a + b) := if_pos h

theorem sub_of_le {a b : Nat} (h : b ≤ a) : sub a b = .ok (a - b) := if_pos h

theorem mul_of_lt {a b : Nat} (h : a * b < limit) : mul a b = .ok (a * b) := if_pos h

end Readback.Word
