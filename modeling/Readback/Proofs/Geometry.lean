import Readback.Bytes
import Readback.Geometry
import Readback.Proofs.Except

namespace Readback.Geometry

variable {g : Geometry} {r : BlockRange} {b : Nat}

theorem checkBlockSize_ok {n : Nat} (h : checkBlockSize n = .ok ()) :
    minBlockSize ≤ n ∧ n ≤ maxBlockSize := by
  unfold checkBlockSize at h
  split at h
  · cases h
  · split at h
    · assumption
    · cases h

theorem make_ok {size blockSize : Nat} {g : Geometry} (h : make size blockSize = .ok g) :
    g = ⟨size, blockSize, size / blockSize⟩ ∧ 0 < g.nBlocks ∧ minBlockSize ≤ g.blockSize ∧
      g.blockSize ≤ maxBlockSize := by
  obtain ⟨u, hc, h⟩ := bind_eq_ok h
  split at h
  · cases h
  · cases h
    exact ⟨rfl, Nat.pos_of_ne_zero ‹_›, checkBlockSize_ok hc⟩

theorem blockSize_lt_limit {size blockSize : Nat} (h : make size blockSize = .ok g) :
    g.blockSize < Bytes.limit := by
  obtain ⟨-, -, -, hmax⟩ := make_ok h
  exact Nat.lt_of_le_of_lt hmax (by decide)

theorem nBlocks_mul_le {size blockSize : Nat} (h : make size blockSize = .ok g) :
    g.nBlocks * g.blockSize ≤ size := by
  rw [(make_ok h).1]
  exact Nat.div_mul_le_self size blockSize

theorem mul_lt_limit {size blockSize : Nat} (h : make size blockSize = .ok g)
    (hs : size < Word.limit) (hb : b ≤ g.nBlocks) : b * g.blockSize < Word.limit :=
  Nat.lt_of_le_of_lt (Nat.le_trans (Nat.mul_le_mul_right _ hb) (nBlocks_mul_le h)) hs

/-- The bytes of the blocks of a range. -/
def Owns (g : Geometry) (r : BlockRange) (i : Nat) : Prop :=
  r.start * g.blockSize ≤ i ∧ i < r.stop * g.blockSize

theorem byteOffset_eq {offset : Nat} (h : g.byteOffset b = .ok offset) :
    offset = b * g.blockSize :=
  Word.eq_of_mul h

theorem rangeBytes_eq {offset n : Nat} (h : g.rangeBytes r = .ok (offset, n)) :
    offset = r.start * g.blockSize ∧ n = (r.stop - r.start) * g.blockSize ∧ r.start ≤ r.stop := by
  obtain ⟨o, ho, h⟩ := bind_eq_ok h
  obtain ⟨count, hcount, h⟩ := bind_eq_ok h
  obtain ⟨bytes, hbytes, h⟩ := bind_eq_ok h
  cases h
  obtain ⟨rfl, hr⟩ := Word.eq_of_sub hcount
  exact ⟨byteOffset_eq ho, Word.eq_of_mul hbytes, hr⟩

theorem rangeBytes_of_lt (hr : r.start ≤ r.stop) (hl : r.stop * g.blockSize < Word.limit) :
    g.rangeBytes r = .ok (r.start * g.blockSize, (r.stop - r.start) * g.blockSize) := by
  have hs : r.start * g.blockSize ≤ r.stop * g.blockSize := Nat.mul_le_mul_right _ hr
  have hn : (r.stop - r.start) * g.blockSize ≤ r.stop * g.blockSize :=
    Nat.mul_le_mul_right _ (Nat.sub_le _ _)
  have ho : g.byteOffset r.start = .ok (r.start * g.blockSize) := Word.mul_of_lt (by omega)
  have hlen : r.length = .ok (r.stop - r.start) := Word.sub_of_le hr
  have hm : Word.mul (r.stop - r.start) g.blockSize = .ok ((r.stop - r.start) * g.blockSize) :=
    Word.mul_of_lt (by omega)
  simp only [rangeBytes, ho, hlen, hm, bind, Except.bind, pure, Except.pure]

theorem add_length_mul (hr : r.start ≤ r.stop) (n : Nat) :
    r.start * n + (r.stop - r.start) * n = r.stop * n := by
  rw [← Nat.add_mul]
  congr 1
  omega

theorem not_owns {k : Nat} (hb : b ∉ r.blocks) (hk : k < g.blockSize) :
    ¬ g.Owns r (b * g.blockSize + k) := by
  rintro ⟨h₁, h₂⟩
  apply hb
  rw [BlockRange.mem_blocks]
  have hlt : b * g.blockSize + k < (b + 1) * g.blockSize := by
    rw [Nat.succ_mul]
    omega
  have hs : r.start < b + 1 := Nat.lt_of_mul_lt_mul_right (Nat.lt_of_le_of_lt h₁ hlt)
  have he : b < r.stop := Nat.lt_of_mul_lt_mul_right (Nat.lt_of_le_of_lt (Nat.le_add_right _ k) h₂)
  omega

theorem Owns.exists_block {i : Nat} (hg : 0 < g.blockSize) (h : g.Owns r i) :
    ∃ b k, b ∈ r.blocks ∧ k < g.blockSize ∧ i = b * g.blockSize + k := by
  refine ⟨i / g.blockSize, i % g.blockSize, ?_, Nat.mod_lt _ hg, ?_⟩
  · rw [BlockRange.mem_blocks]
    exact ⟨(Nat.le_div_iff_mul_le hg).mpr h.1, (Nat.div_lt_iff_lt_mul hg).mpr h.2⟩
  · rw [Nat.mul_comm]
    exact (Nat.div_add_mod i g.blockSize).symm

theorem Owns.disjoint {s : BlockRange} {i : Nat} (hg : 0 < g.blockSize) (h : g.Owns r i)
    (hd : ∀ b ∈ r.blocks, b ∉ s.blocks) : ¬ g.Owns s i := by
  obtain ⟨b, k, hb, hk, rfl⟩ := h.exists_block hg
  exact not_owns (hd b hb) hk

end Readback.Geometry
