import Readback.Proofs.Geometry

namespace Readback.Geometry

variable {g : Geometry} {r s : BlockRange} {size blockSize b i : Nat}

theorem exists_pow_of_checkBlockSize {n : Nat} (h : checkBlockSize n = .ok ()) :
    ∃ k ≤ 16, n = 2 ^ k := by
  have hmax := (checkBlockSize_ok h).2
  unfold checkBlockSize at h
  split at h
  · cases h
  · rename_i hpow
    have hpow : n = 2 ^ n.log2 := Decidable.not_not.mp hpow
    refine ⟨n.log2, ?_, hpow⟩
    rw [hpow] at hmax
    exact (Nat.pow_le_pow_iff_right (by decide)).mp hmax

theorem exists_pow (h : make size blockSize = .ok g) : ∃ k ≤ 16, g.blockSize = 2 ^ k := by
  obtain ⟨u, hc, -⟩ := bind_eq_ok h
  rw [(make_ok h).1]
  exact exists_pow_of_checkBlockSize hc

theorem and_div_two_pow {k : Nat} (hk : k ≤ 64) (hi : i < 2 ^ 64) :
    (i &&& (2 ^ 64 - 2 ^ k)) / 2 ^ k = i / 2 ^ k := by
  have hsplit : (2 : Nat) ^ 64 = 2 ^ (64 - k) * 2 ^ k := by
    rw [← Nat.pow_add, Nat.sub_add_cancel hk]
  have hhigh : (2 ^ 64 - 2 ^ k) / 2 ^ k = 2 ^ (64 - k) - 1 := by
    rw [hsplit, ← Nat.sub_one_mul, Nat.mul_div_cancel _ (Nat.two_pow_pos k)]
  have hlt : i / 2 ^ k < 2 ^ (64 - k) := by
    rw [Nat.div_lt_iff_lt_mul (Nat.two_pow_pos k), ← hsplit]
    exact hi
  rw [Nat.and_div_two_pow, hhigh, Nat.and_two_pow_sub_one_eq_mod, Nat.mod_eq_of_lt hlt]

theorem blockOf_eq (h : make size blockSize = .ok g) (hi : i < Word.limit) :
    g.blockOf i = i / g.blockSize := by
  obtain ⟨k, hk, hpow⟩ := exists_pow h
  rw [blockOf, hpow]
  exact and_div_two_pow (by omega) hi

theorem blockSize_pos (h : make size blockSize = .ok g) : 0 < g.blockSize :=
  Nat.lt_of_lt_of_le (by decide) (make_ok h).2.2.1

theorem div_eq_iff (hg : 0 < g.blockSize) :
    i / g.blockSize = b ↔ b * g.blockSize ≤ i ∧ i < b * g.blockSize + g.blockSize := by
  rw [Nat.div_eq_iff hg]
  omega

theorem add_remainder (h : make size blockSize = .ok g) :
    g.nBlocks * g.blockSize + g.remainder = size := by
  rw [remainder, (make_ok h).1]
  exact Nat.div_add_mod' size blockSize

theorem range'_mul (width start n : Nat) :
    List.range' (start * width) (n * width) =
      (List.range' start n).flatMap fun b => List.range' (b * width) width := by
  induction n generalizing start with
  | zero => rw [Nat.zero_mul, List.range'_zero, List.range'_zero, List.flatMap_nil]
  | succ n ih =>
    rw [List.range'_succ, List.flatMap_cons, ← ih, Nat.succ_mul start, List.range'_append_1,
      Nat.succ_mul, Nat.add_comm width]

theorem owns_of_mem (hg : 0 < g.blockSize) (hb : b ∈ r.blocks) : g.Owns r (b * g.blockSize) := by
  obtain ⟨hstart, hstop⟩ := BlockRange.mem_blocks.mp hb
  exact ⟨Nat.mul_le_mul_right _ hstart, Nat.mul_lt_mul_of_pos_right hstop hg⟩

theorem exists_owns_iff (hg : 0 < g.blockSize) (hr : r.start < r.stop) (hs : s.start < s.stop) :
    (∃ i, g.Owns r i ∧ g.Owns s i) ↔ r.overlaps s = true := by
  rw [BlockRange.overlaps_iff_shared hs hr]
  constructor
  · rintro ⟨i, hir, his⟩
    apply Classical.byContradiction
    intro hn
    exact hir.disjoint hg (fun b hb hb' => hn ⟨b, hb, hb'⟩) his
  · rintro ⟨b, hb, hb'⟩
    exact ⟨_, owns_of_mem hg hb, owns_of_mem hg hb'⟩

theorem rangeBytes_of_le (h : make size blockSize = .ok g) (hsize : size < Word.limit)
    (hr : r.start < r.stop) (hb : r.stop ≤ g.nBlocks) :
    ∃ o n, g.rangeBytes r = .ok (o, n) ∧ o + n = r.stop * g.blockSize ∧
      (∀ i, o ≤ i ∧ i < o + n ↔ g.Owns r i) ∧
      List.range' o n = r.blocks.flatMap fun b => List.range' (b * g.blockSize) g.blockSize := by
  have hend := add_length_mul (Nat.le_of_lt hr) g.blockSize
  refine ⟨_, _, rangeBytes_of_lt (Nat.le_of_lt hr) (mul_lt_limit h hsize hb), hend, fun i => ?_,
    range'_mul _ _ _⟩
  rw [hend]
  rfl

theorem byteOffset_of_le (h : make size blockSize = .ok g) (hsize : size < Word.limit)
    (hb : b ≤ g.nBlocks) : g.byteOffset b = .ok (b * g.blockSize) :=
  Word.mul_of_lt (mul_lt_limit h hsize hb)

/-- Blocks and bytes go together.  The blocks and the remainder make up the device; a byte belongs
to the block that its offset tells; and the bytes of a range can be told, lie on whole blocks, are
those of its blocks one after another, and are shared with another range if and only if the two
overlap. -/
theorem blocks_partition (hsize : size < Word.limit) (h : make size blockSize = .ok g) :
    g.devSize = size ∧ g.blockSize = blockSize ∧
      g.nBlocks * g.blockSize + g.remainder = size ∧ g.remainder < g.blockSize ∧
      (∀ i < Word.limit, g.blockOf i = i / g.blockSize) ∧
      (∀ b < g.nBlocks, ∃ o, g.byteOffset b = .ok o ∧
        ∀ i < Word.limit, (o ≤ i ∧ i < o + g.blockSize ↔ g.blockOf i = b)) ∧
      ∀ r : BlockRange, r.start < r.stop → r.stop ≤ g.nBlocks →
        ∃ o n, g.rangeBytes r = .ok (o, n) ∧ o + n ≤ g.nBlocks * g.blockSize ∧
          (∃ offsets, r.blocks.mapM g.byteOffset = .ok offsets ∧
            List.range' o n = offsets.flatMap fun first => List.range' first g.blockSize) ∧
          ∀ s : BlockRange, s.start < s.stop → s.stop ≤ g.nBlocks →
            ∃ p m, g.rangeBytes s = .ok (p, m) ∧
              ((∃ i, (o ≤ i ∧ i < o + n) ∧ p ≤ i ∧ i < p + m) ↔ r.overlaps s = true) := by
  have hg := blockSize_pos h
  refine ⟨by rw [(make_ok h).1], by rw [(make_ok h).1], add_remainder h, Nat.mod_lt _ hg,
    fun i hi => blockOf_eq h hi, fun b hb => ?_, fun r hr hstop => ?_⟩
  · refine ⟨_, byteOffset_of_le h hsize (Nat.le_of_lt hb), fun i hi => ?_⟩
    rw [blockOf_eq h hi, div_eq_iff hg]
  · obtain ⟨o, n, hbytes, hend, howns, hblocks⟩ := rangeBytes_of_le h hsize hr hstop
    have hoffsets : r.blocks.mapM g.byteOffset = .ok (r.blocks.map (· * g.blockSize)) :=
      mapM_eq_ok fun b hb => byteOffset_of_le h hsize
        (Nat.le_trans (Nat.le_of_lt (BlockRange.mem_blocks.mp hb).2) hstop)
    refine ⟨o, n, hbytes, ?_, ⟨_, hoffsets, ?_⟩, fun s hs hstop' => ?_⟩
    · rw [hend]
      exact Nat.mul_le_mul_right _ hstop
    · rw [hblocks, List.flatMap_map]
    · obtain ⟨p, m, hbytes', -, howns', -⟩ := rangeBytes_of_le h hsize hs hstop'
      refine ⟨p, m, hbytes', ?_⟩
      simp only [howns, howns', exists_owns_iff hg hr hs]

/-- The greatest device there can be, and the last two of its blocks beside all others. -/
theorem blocks_partition_of_greatest :
    let g : Geometry := ⟨18446744073709551615, 65536, 281474976710655⟩
    let r : BlockRange := ⟨281474976710653, 281474976710655⟩
    let s : BlockRange := ⟨0, 281474976710653⟩
    18446744073709551615 < Word.limit ∧ make 18446744073709551615 65536 = .ok g ∧
      r.start < r.stop ∧ r.stop ≤ g.nBlocks ∧ s.start < s.stop ∧ s.stop ≤ g.nBlocks ∧
      g.blockOf 18446744073709551615 = 281474976710655 ∧ g.remainder = 65535 ∧
      ∃ o n p m, g.rangeBytes r = .ok (o, n) ∧ g.rangeBytes s = .ok (p, m) ∧
        o + n ≤ 281474976710655 * 65536 ∧
        ¬ ∃ i, (o ≤ i ∧ i < o + n) ∧ p ≤ i ∧ i < p + m := by
  intro g r s
  have hsize : 18446744073709551615 < Word.limit := by decide
  have hg : make 18446744073709551615 65536 = .ok g := rfl
  obtain ⟨-, -, hsum, -, hblock, -, hrange⟩ := blocks_partition hsize hg
  obtain ⟨o, n, hr, hend, -, hshared⟩ := hrange r (by decide) (by decide)
  obtain ⟨p, m, hs, hiff⟩ := hshared s (by decide) (by decide)
  have hremainder : 281474976710655 * 65536 + g.remainder = 18446744073709551615 := hsum
  have hlast : g.blockOf 18446744073709551615 = 18446744073709551615 / 65536 := hblock _ hsize
  refine ⟨hsize, hg, by decide, by decide, by decide, by decide, hlast, by omega, o, n, p, m, hr,
    hs, hend, fun hi => ?_⟩
  exact absurd (hiff.mp hi) (by decide)

end Readback.Geometry
