import Mathlib.Logic.Function.Iterate
import Readback.Proofs.Bytes
import Readback.Proofs.Geometry

namespace Readback

theorem size_sha512 (message : ByteArray) : (sha512 message).size = 64 := by
  simp [sha512, Sha512.State.toBytes, List.size_toByteArray, Bytes.length_bigEndian]

theorem ChaCha8.Block.size_toBytes (b : Block) : b.toBytes.size = 64 := by
  simp [toBytes, List.size_toByteArray, Bytes.length_littleEndian, List.length_flatMap,
    List.map_const']

namespace Content

theorem make_ok {blockSize : Nat} {seed : UInt64} {mode : Mode} {c : Content}
    (h : make blockSize seed mode = .ok c) : c.blockSize = blockSize := by
  unfold make at h
  split at h
  · cases h
    rfl
  · cases h

theorem size_writeChunks {σ : Type} (chunk : σ → ByteArray × σ) (count start : Nat) (s : σ)
    (out : ByteArray) : (writeChunks chunk count start s out).size = out.size := by
  induction count generalizing start s out with
  | zero => rfl
  | succ count ih =>
    rw [writeChunks, ih, Bytes.size_overwrite]

theorem size_expand (mode : Mode) (material : List UInt8) (out : ByteArray) :
    (expand mode material out).size = out.size := by
  cases mode <;> exact size_writeChunks _ _ _ _ _

/-- As far as chunks were written there is a byte of one of them, and of those the first was made
from `s`; past them there is what was there before. -/
theorem byteAt_writeChunks {σ : Type} {chunk : σ → ByteArray × σ}
    (hc : ∀ s, (chunk s).1.size = 64) (count start : Nat) (s : σ) (out : ByteArray) (i : Nat) :
    Bytes.byteAt (writeChunks chunk count start s out) i =
      if start ≤ i ∧ i < start + 64 * count ∧ i < out.size then
        Bytes.byteAt (chunk ((fun s => (chunk s).2)^[(i - start) / 64] s)).1 ((i - start) % 64)
      else Bytes.byteAt out i := by
  induction count generalizing start s out with
  | zero => exact (if_neg (by omega)).symm
  | succ count ih =>
    rw [writeChunks, ih, Bytes.size_overwrite, Bytes.byteAt_overwrite, hc]
    by_cases hfirst : start ≤ i ∧ i < start + 64
    · rw [if_neg (by omega), Nat.div_eq_of_lt (by omega), Nat.mod_eq_of_lt (by omega)]
      by_cases hi : i < out.size
      · rw [if_pos (by omega), if_pos (by omega)]
        rfl
      · rw [if_neg (by omega), if_neg (by omega)]
    by_cases hlater : start + 64 ≤ i ∧ i < start + 64 + 64 * count ∧ i < out.size
    · have hdiv : (i - start) / 64 = (i - (start + 64)) / 64 + 1 := by omega
      have hmod : (i - start) % 64 = (i - (start + 64)) % 64 := by omega
      rw [if_pos hlater, if_pos (by omega), hdiv, hmod, Function.iterate_succ_apply]
    · rw [if_neg hlater, if_neg (by omega), if_neg (by omega)]

theorem writeChunks_congr {σ : Type} {chunk : σ → ByteArray × σ}
    (hc : ∀ s, (chunk s).1.size = 64) {out out' : ByteArray} (hs : out.size = out'.size)
    {count : Nat} (hcount : out.size ≤ 64 * count) (s : σ) :
    writeChunks chunk count 0 s out = writeChunks chunk count 0 s out' := by
  apply Bytes.ext_byteAt
  · rw [size_writeChunks, size_writeChunks, hs]
  · intro i hi
    rw [size_writeChunks] at hi
    rw [byteAt_writeChunks hc, byteAt_writeChunks hc, if_pos (by omega), if_pos (by omega)]

theorem size_chainChunk (material : ByteArray) : (chainChunk material).1.size = 64 := by
  rw [chainChunk]
  exact size_sha512 material

theorem size_streamChunk (key : ChaCha8.Key) (counter : UInt64) :
    (streamChunk key counter).1.size = 64 := by
  rw [streamChunk]
  exact ChaCha8.Block.size_toBytes _

theorem expand_congr (mode : Mode) (material : List UInt8) {out out' : ByteArray}
    (hs : out.size = out'.size) : expand mode material out = expand mode material out' := by
  have hcount : out.size ≤ 64 * ((out.size + 63) / 64) := by omega
  cases mode with
  | hash =>
    simp only [expand, ← hs]
    exact writeChunks_congr size_chainChunk hs hcount _
  | fast =>
    simp only [expand, ← hs]
    exact writeChunks_congr (size_streamChunk _) hs hcount _

variable {c : Content} {g : Geometry} {offset : Nat} {t : Tag} {bytes : ByteArray}

theorem size_fill {out : ByteArray} (h : c.fill offset t out = .ok bytes) :
    bytes.size = c.blockSize := by
  unfold fill at h
  split at h
  · cases h
  · rename_i hs
    have hs : out.size = c.blockSize := Decidable.not_not.mp hs
    split at h
    · cases h
      exact Bytes.size_zeroes _
    · cases h
      rw [size_expand, hs]

theorem size_block (h : c.block offset t = .ok bytes) : bytes.size = c.blockSize := by
  unfold block at h
  split at h
  · exact size_fill h
  · cases h

theorem fill_eq_block (h : c.blockSize < Bytes.limit) {out : ByteArray}
    (ho : out.size = c.blockSize) (offset : Nat) (t : Tag) :
    c.fill offset t out = c.block offset t := by
  have hs : (Bytes.zeroes c.blockSize).size = c.blockSize := Bytes.size_zeroes _
  have he (material : List UInt8) : expand c.mode material out = expand c.mode material _ :=
    expand_congr c.mode material (ho.trans hs.symm)
  rw [block, if_pos h]
  cases t with
  | unique n => simp only [fill, ho, hs, he]
  | duplicate => simp only [fill, ho, hs, he]
  | trimmed => simp only [fill, ho, hs]

theorem exists_block (h : c.blockSize < Bytes.limit) (offset : Nat) (t : Tag) :
    ∃ bytes, c.block offset t = .ok bytes := by
  have hs : (Bytes.zeroes c.blockSize).size = c.blockSize := Bytes.size_zeroes _
  cases t <;> simp [block, fill, h, hs]

theorem selfCheck_ok (hs : c.blockSize * 7919 < Word.limit) (h : c.blockSize < Bytes.limit) :
    c.selfCheck = .ok () := by
  have hsame : c.block (c.blockSize * 7919) .duplicate = c.block 0 .duplicate := rfl
  obtain ⟨unique, hu⟩ := exists_block h 0 (.unique 0x5a5a)
  obtain ⟨unique', hu'⟩ := exists_block h (c.blockSize * 7919) (.unique 0x5a5a)
  obtain ⟨duplicate, hd⟩ := exists_block h 0 .duplicate
  obtain ⟨trimmed, ht⟩ := exists_block h 0 .trimmed
  obtain ⟨trimmed', ht'⟩ := exists_block h (c.blockSize * 7919) .trimmed
  simp [selfCheck, Word.mul_of_lt hs, hsame, hu, hu', hd, ht, ht', mapError_ok, bind,
    Except.bind, pure, Except.pure]

theorem byteAt_trimmed (h : c.block offset .trimmed = .ok bytes) (i : Nat) :
    Bytes.byteAt bytes i = 0 := by
  have hs : (Bytes.zeroes c.blockSize).size = c.blockSize := Bytes.size_zeroes _
  unfold block at h
  split at h
  · rw [fill, if_neg (not_not_intro hs)] at h
    cases h
    exact Bytes.byteAt_zeroes _ _
  · cases h

/-- What a device holds in a block is the content that goes with a tag. -/
def Holds (c : Content) (g : Geometry) (byte : Nat → UInt8) (b : Nat) (t : Tag) : Prop :=
  ∃ offset bytes, g.byteOffset b = .ok offset ∧ c.block offset t = .ok bytes ∧
    ∀ i < c.blockSize, byte (offset + i) = Bytes.byteAt bytes i

/-- A block keeps its content when only bytes of a range without it change. -/
theorem Holds.frame {byte byte' : Nat → UInt8} {b : Nat} {r : BlockRange}
    (h : c.Holds g byte b t) (hs : c.blockSize = g.blockSize) (hb : b ∉ r.blocks)
    (hf : ∀ i, ¬ g.Owns r i → byte' i = byte i) : c.Holds g byte' b t := by
  obtain ⟨offset, bytes, ho, hc, hi⟩ := h
  refine ⟨offset, bytes, ho, hc, fun i h => ?_⟩
  rw [hf, hi i h]
  rw [Geometry.byteOffset_eq ho]
  exact Geometry.not_owns hb (hs ▸ h)

end Content

end Readback
