import Readback.Program

namespace Readback.Program

/-- What happens to a program while it runs. -/
structure Disturbance where
  /-- It is told to stop as soon as it has printed a line. -/
  signal : Bool
  /-- Something else overwrites the device all the while. -/
  scribble : Bool
  deriving DecidableEq, Repr

def scribbled (f : OpenFile) : OpenFile :=
  f.setContent (.ofBytes (Bytes.filled f.content.size 0xee))

/-- Lets every worker take a step in turn, `rounds` times or until all have ended. -/
def takeTurns (d : Disturbance) (clock : Nat → Instant) :
    (rounds : Nat) → Run OpenFile → Run OpenFile
  | 0, r => r
  | rounds + 1, r =>
    if r.ended then r
    else
      let r := if d.scribble then { r with device := scribbled r.device } else r
      let r := if d.signal && !r.printed.isEmpty then r.interrupt else r
      takeTurns d clock rounds (r.round OpenFile.device (clock rounds))

end Readback.Program
