import Readback.Random.Uniform

namespace Readback

/-- How the content of a written block was made. -/
inductive Tag
  /-- From the offset of the block, the seed of the run, and the number given. -/
  | unique (n : UInt16)
  /-- From the seed of the run only, so the same in every block. -/
  | duplicate
  /-- All zero, and discarded after it was written. -/
  | trimmed
  deriving DecidableEq, Repr

namespace Tag

def text : Tag → String
  | unique n => "unique:0x" ++ String.ofList (Bytes.hexNumber 4 n.toNat)
  | duplicate => "duplicate"
  | trimmed => "trimmed"

/-- Draws the tag of one block: `uniquePct` of a hundred are unique, the next `trimPct` trimmed, and
the rest duplicate. -/
def pick (uniquePct trimPct : Nat) (s : Source) : Option (Tag × Source) := do
  let (percent, s) ← s.between .word32 0 99
  if percent < uniquePct then
    let (w, s) ← s.next
    return (.unique w.toUInt16, s)
  else if percent < uniquePct + trimPct then return (.trimmed, s)
  else return (.duplicate, s)

/-- Draws `n` tags, or as many as the source gives; what is left of it, if it did not give out. -/
def picks (uniquePct trimPct : Nat) : (n : Nat) → Source → List Tag × Option Source
  | 0, s => ([], some s)
  | n + 1, s =>
    match pick uniquePct trimPct s with
    | none => ([], none)
    | some (tag, s) =>
      let (tags, s) := picks uniquePct trimPct n s
      (tag :: tags, s)

end Tag

/-- What was last written to a block, if anything is known to have been. -/
abbrev BlockState := Option Tag

def BlockState.text : BlockState → String
  | some t => t.text
  | none => "-"

end Readback
