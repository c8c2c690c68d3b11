import Readback.Proofs.Content
import Readback.Proofs.Random.Stream

namespace Readback

namespace KeyStream

def word (k : KeyStream) (n : Nat) : UInt32 :=
  (advance^[n] k).next.1

/-- Byte `i` of a key stream, of which each word gives its least significant byte first. -/
def byte (k : KeyStream) (i : Nat) : UInt8 :=
  UInt8.ofNat ((k.word (i / 4)).toNat / 256 ^ (i % 4))

theorem word_of_block (key : ChaCha8.Key) (c : UInt64) {r : Nat} (hr : r < 16) :
    word ⟨key, c, []⟩ r = (ChaCha8.block key c)[r] := by
  cases r with
  | zero => rfl
  | succ r =>
    have hlen := length_tail_block key c
    have hr : r < (ChaCha8.block key c).toList.tail.length := by omega
    rw [word, Function.iterate_succ_apply, advance_nil,
      advance_pending key (c + 1) (Nat.le_of_lt hr), List.drop_eq_getElem_cons hr]
    simp only [next, List.getElem_tail, Vector.getElem_toList]

theorem word_ofKey (key : ChaCha8.Key) (n : Nat) :
    (ofKey key).word n =
      (ChaCha8.block key (UInt64.ofNat (n / 16))).get ⟨n % 16, Nat.mod_lt n (by decide)⟩ := by
  have hsplit : advance^[n] (ofKey key) =
      advance^[n % 16] ⟨key, UInt64.ofNat (n / 16), []⟩ := by
    conv_lhs => rw [← Nat.mod_add_div n 16]
    rw [Function.iterate_add_apply, ofKey, advance_blocks, UInt64.zero_add]
  rw [word, hsplit]
  exact word_of_block key _ (Nat.mod_lt n (by decide))

theorem byteAt_toBytes (b : ChaCha8.Block) {i : Nat} (hi : i < 64) :
    Bytes.byteAt b.toBytes i =
      UInt8.ofNat ((b.get ⟨i / 4, by omega⟩).toNat / 256 ^ (i % 4)) := by
  have hr : i % 4 < 4 := Nat.mod_lt i (by decide)
  have hq : i / 4 < b.toList.length := by
    rw [Vector.length_toList]
    omega
  have hflat := Bytes.getElem?_flatMap (fun w : UInt32 => Bytes.length_littleEndian 4 w.toNat) hr
    b.toList (i / 4)
  rw [Nat.div_add_mod', List.getElem?_eq_getElem hq, Option.bind_some,
    Bytes.getElem?_littleEndian _ hr, Vector.getElem_toList] at hflat
  rw [ChaCha8.Block.toBytes, Bytes.byteAt_toByteArray, hflat]
  rfl

theorem byte_ofKey (key : ChaCha8.Key) (i : Nat) :
    (ofKey key).byte i =
      Bytes.byteAt (ChaCha8.block key (UInt64.ofNat (i / 64))).toBytes (i % 64) := by
  have hq : i / 4 / 16 = i / 64 := Nat.div_div_eq_div_mul i 4 16
  have hr : i / 4 % 16 = i % 64 / 4 := by omega
  have hm : i % 64 % 4 = i % 4 := Nat.mod_mod_of_dvd i (by decide)
  rw [byte, word_ofKey, byteAt_toBytes _ (Nat.mod_lt i (by decide))]
  simp only [hq, hr, hm]

end KeyStream

namespace Content

/-- Byte `i` of the endless string that is made of seed material: one digest after another, each
that of the one before and the first that of the material; or the key stream. -/
def stretched (mode : Mode) (material : List UInt8) (i : Nat) : UInt8 :=
  match mode with
  | .hash => Bytes.byteAt (sha512^[i / 64 + 1] material.toByteArray) (i % 64)
  | .fast => (KeyStream.ofKey (.ofBytes (key material).toByteArray)).byte i

/-- Byte `i` of the content that goes with an offset and a tag, were there no end to a block. -/
def endless (mode : Mode) (seed : UInt64) (offset : Nat) : Tag → Nat → UInt8
  | .trimmed => fun _ => 0
  | .duplicate => stretched mode (Bytes.bigEndian 8 seed.toNat)
  | .unique n =>
    stretched mode
      (Bytes.bigEndian 8 offset ++ Bytes.bigEndian 8 seed.toNat ++ Bytes.bigEndian 2 n.toNat)

theorem stretched_hash (material : List UInt8) (i : Nat) {j : Nat} (hj : j < 64) :
    stretched .hash material (64 * i + j) =
      Bytes.byteAt (sha512^[i + 1] material.toByteArray) j := by
  have hdiv : (64 * i + j) / 64 = i := by omega
  have hmod : (64 * i + j) % 64 = j := by omega
  simp only [stretched, hdiv, hmod]

theorem iterate_chainChunk (material : ByteArray) (n : Nat) :
    (chainChunk ((fun s => (chainChunk s).2)^[n] material)).1 = sha512^[n + 1] material := by
  have hnext : (fun s => (chainChunk s).2) = sha512 := funext fun s => by rw [chainChunk]
  rw [hnext, Function.iterate_succ_apply', chainChunk]

theorem iterate_streamChunk (key : ChaCha8.Key) (n : Nat) :
    (streamChunk key ((fun s => (streamChunk key s).2)^[n] 0)).1 =
      (ChaCha8.block key (UInt64.ofNat n)).toBytes := by
  have hcounter : (fun s => (streamChunk key s).2)^[n] 0 = UInt64.ofNat n := by
    induction n with
    | zero => rfl
    | succ n ih =>
      rw [Function.iterate_succ_apply', ih, UInt64.ofNat_add]
      rfl
  rw [hcounter]
  rfl

theorem byteAt_expand (mode : Mode) (material : List UInt8) {out : ByteArray} {i : Nat}
    (hi : i < out.size) :
    Bytes.byteAt (expand mode material out) i = stretched mode material i := by
  have hin : 0 ≤ i ∧ i < 0 + 64 * ((out.size + 63) / 64) ∧ i < out.size := by omega
  cases mode with
  | hash =>
    simp only [expand, stretched]
    rw [byteAt_writeChunks size_chainChunk, if_pos hin, iterate_chainChunk, Nat.sub_zero]
  | fast =>
    simp only [expand, stretched]
    rw [byteAt_writeChunks (size_streamChunk _), if_pos hin, iterate_streamChunk,
      KeyStream.byte_ofKey, Nat.sub_zero]

theorem filled_endless (c : Content) {out : ByteArray} (ho : out.size = c.blockSize) (offset : Nat)
    (t : Tag) : ∃ bytes, c.fill offset t out = .ok bytes ∧ bytes.size = c.blockSize ∧
      ∀ i < c.blockSize, Bytes.byteAt bytes i = endless c.mode c.seed offset t i := by
  have hstretched (material : List UInt8) : (expand c.mode material out).size = c.blockSize ∧
      ∀ i < c.blockSize,
        Bytes.byteAt (expand c.mode material out) i = stretched c.mode material i :=
    ⟨(size_expand _ _ _).trans ho, fun i hi => byteAt_expand _ _ (ho ▸ hi)⟩
  unfold fill
  rw [if_neg (not_not_intro ho)]
  cases t with
  | unique n => exact ⟨_, rfl, hstretched _⟩
  | duplicate => exact ⟨_, rfl, hstretched _⟩
  | trimmed => exact ⟨_, rfl, Bytes.size_zeroes _, fun i _ => Bytes.byteAt_zeroes _ i⟩

theorem fill_of_le {c c' : Content} {out bytes : ByteArray} {offset offset' : Nat} {t : Tag}
    (ho : out.size = c'.blockSize) (hs : c'.blockSize ≤ c.blockSize)
    (he : endless c'.mode c'.seed offset' t = endless c.mode c.seed offset t)
    (hsize : bytes.size = c.blockSize)
    (hb : ∀ i < c.blockSize, Bytes.byteAt bytes i = endless c.mode c.seed offset t i) :
    c'.fill offset' t out = .ok (Bytes.slice bytes 0 c'.blockSize) := by
  obtain ⟨bytes', hfill, hsize', hb'⟩ := c'.filled_endless ho offset' t
  have hslice : (Bytes.slice bytes 0 c'.blockSize).size = c'.blockSize :=
    Bytes.size_slice (by omega)
  rw [hfill]
  congr 1
  apply Bytes.ext_byteAt (hsize'.trans hslice.symm)
  intro i hi
  rw [hsize'] at hi
  rw [hb' i hi, Bytes.byteAt_slice, if_pos hi, Nat.zero_add, hb i (by omega), he]

/-- The content of a block is the beginning of an endless string that only the mode, the seed of
the run, the offset and the tag decide, and the offset has no part in duplicate content.  Filling a
buffer comes to an end with nothing left of what was in it. -/
theorem fill_prefix {c : Content} {out : ByteArray} (ho : out.size = c.blockSize) (offset : Nat)
    (t : Tag) : ∃ bytes, c.fill offset t out = .ok bytes ∧ bytes.size = c.blockSize ∧
      (∀ i < c.blockSize, Bytes.byteAt bytes i = endless c.mode c.seed offset t i) ∧
      (∀ out' : ByteArray, out'.size = c.blockSize → c.fill offset t out' = .ok bytes) ∧
      (c.blockSize < Bytes.limit → c.block offset t = .ok bytes) ∧
      (∀ (c' : Content) (out' : ByteArray), c'.mode = c.mode → c'.seed = c.seed →
        c'.blockSize ≤ c.blockSize → out'.size = c'.blockSize →
          c'.fill offset t out' = .ok (Bytes.slice bytes 0 c'.blockSize)) ∧
      (t = .duplicate → ∀ offset', c.fill offset' t out = .ok bytes) := by
  obtain ⟨bytes, hfill, hsize, hb⟩ := c.filled_endless ho offset t
  have hwhole : Bytes.slice bytes 0 c.blockSize = bytes := by
    rw [Bytes.slice, Nat.zero_add, ← hsize, ByteArray.extract_zero_size]
  have hsame {out' : ByteArray} (ho' : out'.size = c.blockSize) {offset' : Nat}
      (he : endless c.mode c.seed offset' t = endless c.mode c.seed offset t) :
      c.fill offset' t out' = .ok bytes := by
    rw [fill_of_le ho' (Nat.le_refl _) he hsize hb, hwhole]
  refine ⟨bytes, hfill, hsize, hb, fun out' ho' => hsame ho' rfl, fun hl => ?_, ?_, ?_⟩
  · rw [← fill_eq_block hl ho, hfill]
  · intro c' out' hmode hseed hs ho'
    exact fill_of_le ho' hs (by rw [hmode, hseed]) hsize hb
  · intro ht offset'
    subst ht
    exact hsame ho rfl

/-- One byte more than a digest: the last is the first of the digest of the digest, and without it
there is the first digest alone. -/
theorem fill_prefix_of_sixty_five :
    let c : Content := ⟨65, 3, .hash, by decide⟩
    let c' : Content := ⟨64, 3, .hash, by decide⟩
    let material := [0, 0, 0, 0, 0, 0, 2, 0, 0, 0, 0, 0, 0, 0, 0, 3, 1, 4].toByteArray
    (Bytes.filled 65 0xaa).size = c.blockSize ∧
      ∃ bytes, c.fill 512 (.unique 260) (Bytes.filled 65 0xaa) = .ok bytes ∧
        Bytes.byteAt bytes 64 = Bytes.byteAt (sha512 (sha512 material)) 0 ∧
        c'.fill 512 (.unique 260) (Bytes.filled 64 0xaa) = .ok (Bytes.slice bytes 0 64) := by
  intro c c' material
  have ho : (Bytes.filled 65 0xaa).size = c.blockSize := rfl
  have hmaterial : (Bytes.bigEndian 8 512 ++ Bytes.bigEndian 8 3 ++
      Bytes.bigEndian 2 260).toByteArray = material := by decide
  have hdigest := stretched_hash (Bytes.bigEndian 8 512 ++ Bytes.bigEndian 8 3 ++
    Bytes.bigEndian 2 260) 1 (show 0 < 64 by decide)
  rw [hmaterial] at hdigest
  obtain ⟨bytes, hfill, -, hb, -, -, hle, -⟩ := fill_prefix ho 512 (.unique 260)
  exact ⟨ho, bytes, hfill, (hb 64 (by decide)).trans hdigest, hle c' _ rfl rfl (by decide) rfl⟩

end Content

end Readback
