import Readback.Proofs.Content

namespace Readback

namespace ChaCha8.Key

/-- The word made of the first `n` of some bytes, the least significant first. -/
def gather (byte : Nat → UInt8) (n : Nat) : UInt32 :=
  Nat.fold n (fun k _ w => w ||| (byte k).toUInt32 <<< (8 * k).toUInt32) 0

variable {byte byte' : Nat → UInt8} {n : Nat}

theorem gather_succ (byte : Nat → UInt8) (n : Nat) :
    gather byte (n + 1) = gather byte n ||| (byte n).toUInt32 <<< (8 * n).toUInt32 :=
  rfl

theorem toNat_or_shift {w : UInt32} {b : UInt8} (hn : n < 4) (hw : w.toNat < 2 ^ (8 * n)) :
    (w ||| b.toUInt32 <<< (8 * n).toUInt32).toNat = 2 ^ (8 * n) * b.toNat + w.toNat := by
  have hshift : (8 * n).toUInt32.toNat % 32 = 8 * n := by
    have : (8 * n).toUInt32.toNat = 8 * n % 2 ^ 32 := rfl
    omega
  have hfit : 2 ^ (8 * n) * b.toNat < 2 ^ 32 := by
    have hpow : 2 ^ (8 * n) ≤ 2 ^ 24 := Nat.pow_le_pow_right (by decide) (by omega)
    exact Nat.lt_of_le_of_lt (Nat.mul_le_mul hpow (Nat.le_of_lt_succ b.toNat_lt)) (by decide)
  rw [UInt32.toNat_or, UInt32.toNat_shiftLeft, UInt8.toNat_toUInt32, hshift, Nat.shiftLeft_eq,
    Nat.mul_comm b.toNat, Nat.mod_eq_of_lt hfit, Nat.or_comm, Nat.two_pow_add_eq_or_of_lt hw]

theorem gather_lt (byte : Nat → UInt8) (hn : n ≤ 4) : (gather byte n).toNat < 2 ^ (8 * n) := by
  induction n with
  | zero => exact Nat.one_pos
  | succ n ih =>
    have hlow := ih (Nat.le_of_lt hn)
    have hpow : 2 ^ (8 * (n + 1)) = 2 ^ (8 * n) * 256 := Nat.pow_add 2 (8 * n) 8
    have hmul : 2 ^ (8 * n) * ((byte n).toNat + 1) ≤ 2 ^ (8 * n) * 256 :=
      Nat.mul_le_mul_left _ (byte n).toNat_lt
    rw [Nat.mul_succ] at hmul
    rw [gather_succ, toNat_or_shift hn hlow]
    omega

theorem toNat_gather_succ (byte : Nat → UInt8) (hn : n < 4) :
    (gather byte (n + 1)).toNat = 2 ^ (8 * n) * (byte n).toNat + (gather byte n).toNat := by
  rw [gather_succ, toNat_or_shift hn (gather_lt byte (Nat.le_of_lt hn))]

theorem gather_inj (hn : n ≤ 4) (h : gather byte n = gather byte' n) :
    ∀ k < n, byte k = byte' k := by
  induction n with
  | zero => exact fun k hk => absurd hk (Nat.not_lt_zero k)
  | succ n ih =>
    have hlow := gather_lt byte (n := n) (by omega)
    have hlow' := gather_lt byte' (n := n) (by omega)
    have hsum := congrArg UInt32.toNat h
    rw [toNat_gather_succ byte hn, toNat_gather_succ byte' hn] at hsum
    have htop : byte n = byte' n := by
      have := congrArg (· / 2 ^ (8 * n)) hsum
      simpa only [Nat.mul_add_div (Nat.two_pow_pos _), Nat.div_eq_of_lt hlow,
        Nat.div_eq_of_lt hlow', Nat.add_zero, UInt8.toNat_inj] using this
    have hrest : gather byte n = gather byte' n := by
      rw [htop] at hsum
      exact UInt32.toNat_inj.mp (Nat.add_left_cancel hsum)
    intro k hk
    rcases Nat.lt_succ_iff_lt_or_eq.mp hk with hk | rfl
    · exact ih (by omega) hrest k hk
    · exact htop

theorem ofBytes_inj {a b : ByteArray} (ha : a.size = 32) (hb : b.size = 32)
    (h : ofBytes a = ofBytes b) : a = b := by
  apply Bytes.ext_byteAt (ha.trans hb.symm)
  intro i hi
  have hq : i / 4 < 8 := by omega
  have hword : (ofBytes a)[i / 4] = (ofBytes b)[i / 4] := by rw [h]
  simp only [ofBytes, Vector.getElem_ofFn] at hword
  have := gather_inj (Nat.le_refl 4) hword (i % 4) (Nat.mod_lt i (by decide))
  rwa [Nat.div_add_mod] at this

end ChaCha8.Key

namespace Content

/-- What is made of a seed, an offset and a tag is the same for two of them only if all that their
content is to depend on is the same. -/
structure Separates {α : Type} (f : UInt64 → Nat → Tag → α) : Prop where
  unique (s s' o o' : UInt64) (n n' : UInt16) :
    f s o.toNat (.unique n) = f s' o'.toNat (.unique n') ↔ o = o' ∧ s = s' ∧ n = n'
  duplicate (s s' o o' : UInt64) :
    f s o.toNat .duplicate = f s' o'.toNat .duplicate ↔ s = s'
  apart (s s' o o' : UInt64) (n : UInt16) :
    f s o.toNat (.unique n) ≠ f s' o'.toNat .duplicate

theorem Separates.comp {α β : Type} {f : UInt64 → Nat → Tag → α} {g : α → β} (h : Separates f)
    (hg : ∀ s s' o o' t t', g (f s o t) = g (f s' o' t') → f s o t = f s' o' t') :
    Separates fun s o t => g (f s o t) where
  unique s s' o o' n n' := ⟨fun he => (h.unique s s' o o' n n').mp (hg _ _ _ _ _ _ he),
    fun he => congrArg g ((h.unique s s' o o' n n').mpr he)⟩
  duplicate s s' o o' := ⟨fun he => (h.duplicate s s' o o').mp (hg _ _ _ _ _ _ he),
    fun he => congrArg g ((h.duplicate s s' o o').mpr he)⟩
  apart s s' o o' n he := h.apart s s' o o' n (hg _ _ _ _ _ _ he)

theorem length_material_unique (s : UInt64) (o : Nat) (n : UInt16) :
    (material s o (.unique n)).length = 18 := by
  simp only [material, List.length_append, Bytes.length_bigEndian]

theorem length_material_duplicate (s : UInt64) (o : Nat) : (material s o .duplicate).length = 8 :=
  Bytes.length_bigEndian 8 s.toNat

theorem length_material_le (s : UInt64) (o : Nat) (t : Tag) : (material s o t).length ≤ 18 := by
  cases t with
  | unique n => exact Nat.le_of_eq (length_material_unique s o n)
  | duplicate => exact Nat.le_trans (Nat.le_of_eq (length_material_duplicate s o)) (by decide)
  | trimmed => exact Nat.zero_le 18

theorem bigEndian_word_inj {x y : UInt64}
    (h : Bytes.bigEndian 8 x.toNat = Bytes.bigEndian 8 y.toNat) : x = y :=
  UInt64.toNat_inj.mp (Bytes.bigEndian_inj x.toNat_lt y.toNat_lt h)

theorem separates_material : Separates material where
  unique s s' o o' n n' := by
    constructor
    · intro h
      obtain ⟨h, hn⟩ := List.append_inj' h (by simp only [Bytes.length_bigEndian])
      obtain ⟨ho, hs⟩ := List.append_inj' h (by simp only [Bytes.length_bigEndian])
      exact ⟨bigEndian_word_inj ho, bigEndian_word_inj hs,
        UInt16.toNat_inj.mp (Bytes.bigEndian_inj n.toNat_lt n'.toNat_lt hn)⟩
    · rintro ⟨rfl, rfl, rfl⟩
      rfl
  duplicate s s' o o' := by
    constructor
    · intro h
      exact bigEndian_word_inj h
    · rintro rfl
      rfl
  apart s s' o o' n h := by
    have hlen := congrArg List.length h
    rw [length_material_unique, length_material_duplicate] at hlen
    cases hlen

theorem length_key {m : List UInt8} (h : m.length ≤ 31) : (key m).length = 32 := by
  simp only [key, List.length_append, List.length_replicate, List.length_singleton]
  omega

/-- The last byte of a key is the length of the material, for which there is room in a byte; it
tells where the material ends and the zeroes begin. -/
theorem key_inj {m m' : List UInt8} (h : m.length ≤ 31) (h' : m'.length ≤ 31)
    (hk : key m = key m') : m = m' := by
  obtain ⟨hpad, hlast⟩ := List.append_inj' hk rfl
  have hlen : m.length = m'.length := by
    have hmod : m.length % 256 = m'.length % 256 := by
      simpa only [UInt8.toNat_ofNat'] using congrArg UInt8.toNat (List.head_eq_of_cons_eq hlast)
    omega
  exact (List.append_inj hpad hlen).1

theorem material_fits (s : UInt64) (o : Nat) (t : Tag) : (material s o t).length ≤ 31 :=
  Nat.le_trans (length_material_le s o t) (by decide)

theorem separates_key : Separates fun s o t => key (material s o t) :=
  separates_material.comp fun s s' o o' t t' => key_inj (material_fits s o t) (material_fits s' o' t')

theorem size_key (s : UInt64) (o : Nat) (t : Tag) :
    (key (material s o t)).toByteArray.size = 32 := by
  rw [List.size_toByteArray, length_key (material_fits s o t)]

theorem separates_words :
    Separates fun s o t => ChaCha8.Key.ofBytes (key (material s o t)).toByteArray := by
  apply separates_key.comp (g := fun k : List UInt8 => ChaCha8.Key.ofBytes k.toByteArray)
  intro s s' o o' t t' h
  have hbytes := ChaCha8.Key.ofBytes_inj (size_key s o t) (size_key s' o' t') h
  exact List.toByteArray_inj.mp hbytes

/-- Contents that are to differ are made from different material and under different keys, as bytes
and as the words that the cipher takes; and no material is taken for a digest in the chain of
another. -/
theorem identities_separate :
    Separates material ∧ Separates (fun s o t => key (material s o t)) ∧
      Separates (fun s o t => ChaCha8.Key.ofBytes (key (material s o t)).toByteArray) ∧
      ∀ (s : UInt64) (o : Nat) (t : Tag) (message : ByteArray),
        (sha512 message).size = 64 ∧ (material s o t).length ≠ 64 ∧
          (material s o t).toByteArray ≠ sha512 message ∧ (key (material s o t)).length = 32 := by
  refine ⟨separates_material, separates_key, separates_words, fun s o t message => ?_⟩
  have hm := material_fits s o t
  refine ⟨size_sha512 message, by omega, fun h => ?_, length_key hm⟩
  have hsize := congrArg ByteArray.size h
  rw [List.size_toByteArray, size_sha512] at hsize
  omega

end Content

end Readback
