import Readback.Word

namespace Readback

/-- The blocks `start, …, stop - 1`.  `BlockRange.make` makes non-empty ranges only; one that was
read from a file may have any ends. -/
structure BlockRange where
  start : Nat
  stop : Nat
  deriving DecidableEq, Repr

namespace BlockRange

def make (start stop : Nat) : Except Fault BlockRange :=
  if start < stop then .ok ⟨start, stop⟩ else .error (.emptyRange start stop)

def ofLength (start count : Nat) : Except Fault BlockRange :=
  if start + count < Word.limit then make start (start + count) else .error .rangeOverflow

def length (r : BlockRange) : Except Fault Nat :=
  Word.sub r.stop r.start

def isEmpty (_ : BlockRange) : Bool :=
  false

def contains (r : BlockRange) (block : Nat) : Bool :=
  r.start ≤ block && block < r.stop

/-- Whether the two ranges share a block, if both are non-empty. -/
def overlaps (r s : BlockRange) : Bool :=
  r.start < s.stop && s.start < r.stop

def blocks (r : BlockRange) : List Nat :=
  List.range' r.start (r.stop - r.start)

def order (r s : BlockRange) : Ordering :=
  (compare r.start s.start).then (compare r.stop s.stop)

def text (r : BlockRange) : String :=
  s!"[{r.start}, {r.stop})"

theorem mem_blocks {r : BlockRange} {b : Nat} : b ∈ r.blocks ↔ r.start ≤ b ∧ b < r.stop := by
  simp only [blocks, List.mem_range'_1]
  omega

theorem length_blocks (r : BlockRange) : r.blocks.length = r.stop - r.start :=
  List.length_range'

theorem blocks_eq_cons {a stop : Nat} (h : a < stop) :
    blocks ⟨a, stop⟩ = a :: blocks ⟨a + 1, stop⟩ := by
  have hlen : stop - a = stop - (a + 1) + 1 := by omega
  simp only [blocks, hlen, List.range'_succ]

theorem eq_of_blocks_eq_cons {a b stop : Nat} {bs : List Nat} (h : blocks ⟨a, stop⟩ = b :: bs) :
    b = a ∧ a < stop ∧ bs = blocks ⟨a + 1, stop⟩ := by
  have hlt : a < stop := by
    have := length_blocks ⟨a, stop⟩
    rw [h, List.length_cons] at this
    simp only at this
    omega
  rw [blocks_eq_cons hlt, List.cons.injEq] at h
  exact ⟨h.1.symm, hlt, h.2.symm⟩

theorem blocks_concat {a stop : Nat} (h : a ≤ stop) :
    blocks ⟨a, stop + 1⟩ = blocks ⟨a, stop⟩ ++ [stop] := by
  have hlen : stop + 1 - a = stop - a + 1 := by omega
  have hlast : a + (stop - a) = stop := by omega
  simp only [blocks, hlen, List.range'_1_concat, hlast]

theorem getElem?_blocks {r : BlockRange} {i b : Nat} :
    r.blocks[i]? = some b ↔ i < r.stop - r.start ∧ b = r.start + i := by
  rw [blocks, List.getElem?_eq_some_iff]
  simp only [List.getElem_range', List.length_range', Nat.one_mul, exists_prop, eq_comm]

theorem contains_iff {r : BlockRange} {b : Nat} : r.contains b ↔ b ∈ r.blocks := by
  simp [contains, mem_blocks]

theorem overlaps_iff_shared {r s : BlockRange} (hr : r.start < r.stop) (hs : s.start < s.stop) :
    s.overlaps r = true ↔ ∃ b, b ∈ s.blocks ∧ b ∈ r.blocks := by
  simp only [overlaps, Bool.and_eq_true, decide_eq_true_eq, mem_blocks]
  constructor
  · intro h
    -- The later of the two starts lies in both.
    exact ⟨max s.start r.start, by omega, by omega⟩
  · rintro ⟨b, hbs, hbr⟩
    omega

theorem overlaps_eq_false {r s : BlockRange} :
    s.overlaps r = false ↔ s.stop ≤ r.start ∨ r.stop ≤ s.start := by
  rw [← Bool.not_eq_true]
  simp only [overlaps, Bool.and_eq_true, decide_eq_true_eq]
  omega

theorem make_of_lt {start stop : Nat} (h : start < stop) : make start stop = .ok ⟨start, stop⟩ :=
  if_pos h

end BlockRange

end Readback
