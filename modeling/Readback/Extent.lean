import Readback.Extent.Pages

namespace Readback

/-- A string of bytes of which most may be zero.  There is room for fewer than `Bytes.limit`. -/
structure Extent where
  size : Nat
  pages : Pages 51

namespace Extent

def zeroes (size : Nat) : Extent :=
  ⟨size, .zeroes⟩

def read (e : Extent) (start count : Nat) : ByteArray :=
  e.pages.read start count

theorem size_read (e : Extent) (start count : Nat) : (e.read start count).size = count :=
  e.pages.size_read start count

def write (e : Extent) (start : Nat) (data : ByteArray) : Extent :=
  { e with pages := e.pages.write start data }

def clear (e : Extent) (start count : Nat) : Extent :=
  { e with pages := e.pages.clear start count }

/-- What is cut off is lost; what is added is zero. -/
def resize (e : Extent) (size : Nat) : Extent :=
  ⟨size, e.pages.clear size (e.size - size)⟩

def ofBytes (bytes : ByteArray) : Extent :=
  (zeroes bytes.size).write 0 bytes

def toBytes (e : Extent) : ByteArray :=
  e.read 0 e.size

end Extent

end Readback
