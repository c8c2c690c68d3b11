import Readback.Outcome

namespace Readback.Bytes

theorem byteAt_eq (bytes : ByteArray) (i : Nat) : byteAt bytes i = bytes.data[i]?.getD 0 := by
  unfold byteAt
  by_cases h : i < bytes.size
  · have h' : i < bytes.data.size := h
    rw [dif_pos h, Array.getElem?_eq_getElem h']
    rfl
  · have h' : bytes.data.size ≤ i := Nat.le_of_not_lt h
    rw [dif_neg h, Array.getElem?_eq_none h']
    rfl

theorem byteAt_of_le {bytes : ByteArray} {i : Nat} (h : bytes.size ≤ i) : byteAt bytes i = 0 :=
  dif_neg (Nat.not_lt_of_ge h)

theorem byteAt_eq_getElem {bytes : ByteArray} {i : Nat} (h : i < bytes.size) :
    byteAt bytes i = bytes[i] :=
  dif_pos h

theorem ext_byteAt {a b : ByteArray} (hs : a.size = b.size)
    (h : ∀ i < a.size, byteAt a i = byteAt b i) : a = b := by
  refine ByteArray.ext (Array.ext hs fun i hi hi' => ?_)
  have := h i hi
  rw [byteAt_eq_getElem hi, byteAt_eq_getElem (hs ▸ hi)] at this
  exact this

theorem byteAt_zeroes (n i : Nat) : byteAt (zeroes n) i = 0 := by
  simp only [byteAt_eq, zeroes, filled, Array.getElem?_replicate]
  split <;> rfl

theorem byteAt_toByteArray (bytes : List UInt8) (i : Nat) :
    byteAt bytes.toByteArray i = bytes[i]?.getD 0 := by
  rw [byteAt_eq, List.data_toByteArray, List.getElem?_toArray]

theorem byteAt_append (a b : ByteArray) (i : Nat) :
    byteAt (a ++ b) i = if i < a.size then byteAt a i else byteAt b (i - a.size) := by
  simp only [byteAt_eq, ByteArray.data_append, Array.getElem?_append, ByteArray.size_data]
  split <;> rfl

theorem byteAt_extract (bytes : ByteArray) (start stop i : Nat) :
    byteAt (bytes.extract start stop) i =
      if start + i < stop then byteAt bytes (start + i) else 0 := by
  simp only [byteAt_eq, ByteArray.data_extract, Array.getElem?_extract]
  by_cases hi : start + i < stop
  · by_cases hb : start + i < bytes.data.size
    · rw [if_pos (by omega), if_pos hi]
    · rw [if_neg (by omega), if_pos hi, Array.getElem?_eq_none (by omega)]
  · rw [if_neg (by omega), if_neg hi]
    rfl

theorem byteAt_slice (bytes : ByteArray) (start count i : Nat) :
    byteAt (slice bytes start count) i = if i < count then byteAt bytes (start + i) else 0 := by
  simp only [slice, byteAt_extract, Nat.add_lt_add_iff_left]

theorem byteAt_window (bytes : ByteArray) (start count i : Nat) :
    byteAt (window bytes start count) i = if i < count then byteAt bytes (start + i) else 0 := by
  have hs := size_window bytes start count
  by_cases hi : i < count
  · rw [if_pos hi, window, byteAt_append, byteAt_slice, if_pos hi]
    split
    · rfl
    · rename_i hn
      simp only [slice, ByteArray.size_extract] at hn
      rw [byteAt_zeroes, byteAt_of_le (by omega)]
  · rw [if_neg hi, byteAt_of_le (by omega)]

theorem size_overwrite (bytes : ByteArray) (start : Nat) (patch : ByteArray) :
    (overwrite bytes start patch).size = bytes.size := by
  simp only [overwrite, ByteArray.copySlice_eq_append, ByteArray.size_append,
    ByteArray.size_extract, ByteArray.size_data]
  omega

theorem byteAt_overwrite (bytes : ByteArray) (start : Nat) (patch : ByteArray) (i : Nat) :
    byteAt (overwrite bytes start patch) i =
      if start ≤ i ∧ i < start + patch.size ∧ i < bytes.size then byteAt patch (i - start)
      else byteAt bytes i := by
  by_cases hi : i < bytes.size
  · simp only [overwrite, ByteArray.copySlice_eq_append, byteAt_append, byteAt_extract,
      ByteArray.size_append, ByteArray.size_extract, ByteArray.size_data]
    by_cases h₁ : i < start
    · rw [if_pos (by omega), if_pos (by omega), if_pos (by omega), if_neg (by omega), Nat.zero_add]
    by_cases h₂ : i < start + patch.size
    · have hsub : 0 + (i - (min start bytes.size - 0)) = i - start := by omega
      rw [if_pos (by omega), if_neg (by omega), if_pos (by omega), if_pos (by omega), hsub]
    · rw [if_neg (by omega), if_pos (by omega), if_neg (by omega)]
      congr 1
      omega
  · rw [if_neg (by omega), byteAt_of_le, byteAt_of_le (by omega)]
    rw [size_overwrite]
    omega

theorem overwrite_window (found : ByteArray) {bytes : ByteArray} {n : Nat} (h : bytes.size = n) :
    overwrite (window found 0 n) 0 bytes = bytes := by
  have hs : (overwrite (window found 0 n) 0 bytes).size = n := by
    rw [size_overwrite, size_window]
  apply ext_byteAt (hs.trans h.symm)
  intro i hi
  rw [byteAt_overwrite, if_pos, Nat.sub_zero]
  rw [size_window]
  omega

theorem length_bigEndian (width value : Nat) : (bigEndian width value).length = width := by
  induction width generalizing value with
  | zero => rfl
  | succ width ih => rw [bigEndian, List.length_append, ih, List.length_singleton]

theorem length_littleEndian (width value : Nat) : (littleEndian width value).length = width := by
  induction width generalizing value with
  | zero => rfl
  | succ width ih => rw [littleEndian, List.length_cons, ih]

theorem getElem?_littleEndian {width i : Nat} (value : Nat) (h : i < width) :
    (littleEndian width value)[i]? = some (UInt8.ofNat (value / 256 ^ i)) := by
  induction width generalizing value i with
  | zero => exact absurd h (Nat.not_lt_zero i)
  | succ width ih =>
    cases i with
    | zero => rw [littleEndian, List.getElem?_cons_zero, Nat.pow_zero, Nat.div_one]
    | succ i =>
      rw [littleEndian, List.getElem?_cons_succ, ih _ (Nat.lt_of_succ_lt_succ h),
        Nat.div_div_eq_div_mul, Nat.pow_succ, Nat.mul_comm]

def ofBigEndian (bytes : List UInt8) : Nat :=
  bytes.foldl (fun n b => 256 * n + b.toNat) 0

theorem ofBigEndian_bigEndian (width value : Nat) :
    ofBigEndian (bigEndian width value) = value % 256 ^ width := by
  induction width generalizing value with
  | zero => rw [Nat.pow_zero, Nat.mod_one]; rfl
  | succ width ih =>
    have hlast : (UInt8.ofNat value).toNat = value % 256 := UInt8.toNat_ofNat'
    rw [ofBigEndian, bigEndian, List.foldl_append, ← ofBigEndian, ih, List.foldl_cons,
      List.foldl_nil, hlast, Nat.pow_succ, Nat.mul_comm (256 ^ width), Nat.mod_mul]
    exact Nat.add_comm _ _

theorem bigEndian_inj {width m n : Nat} (hm : m < 256 ^ width) (hn : n < 256 ^ width)
    (h : bigEndian width m = bigEndian width n) : m = n := by
  have := congrArg ofBigEndian h
  rwa [ofBigEndian_bigEndian, ofBigEndian_bigEndian, Nat.mod_eq_of_lt hm,
    Nat.mod_eq_of_lt hn] at this

theorem getElem?_flatMap {α : Type} {f : α → List UInt8} {n i : Nat}
    (hf : ∀ a, (f a).length = n) (hi : i < n) (parts : List α) (k : Nat) :
    (parts.flatMap f)[k * n + i]? = parts[k]?.bind fun a => (f a)[i]? := by
  induction parts generalizing k with
  | nil => rfl
  | cons a rest ih =>
    rw [List.flatMap_cons]
    cases k with
    | zero =>
      rw [Nat.zero_mul, Nat.zero_add, List.getElem?_append_left (hf a ▸ hi)]
      rfl
    | succ k =>
      have hk : (k + 1) * n + i = (f a).length + (k * n + i) := by
        rw [hf a, Nat.succ_mul]
        omega
      rw [hk, List.getElem?_append_right (Nat.le_add_right _ _), Nat.add_sub_cancel_left, ih]
      rfl

theorem foldl_append (a : ByteArray) (parts : List ByteArray) :
    parts.foldl (· ++ ·) a = a ++ concat parts := by
  induction parts generalizing a with
  | nil => simp [concat]
  | cons p rest ih =>
    have hc : concat (p :: rest) = p ++ concat rest := by
      simp only [concat, List.foldl_cons, ByteArray.empty_append]
      exact ih p
    rw [hc, List.foldl_cons, ih, ByteArray.append_assoc]

theorem concat_cons (p : ByteArray) (rest : List ByteArray) :
    concat (p :: rest) = p ++ concat rest := by
  simp only [concat, List.foldl_cons, ByteArray.empty_append]
  exact foldl_append p rest

theorem size_concat {parts : List ByteArray} {n : Nat} (h : ∀ p ∈ parts, p.size = n) :
    (concat parts).size = parts.length * n := by
  induction parts with
  | nil => simp [concat]
  | cons p rest ih =>
    have hrest := ih fun q hq => h q (List.mem_cons_of_mem _ hq)
    rw [concat_cons, ByteArray.size_append, hrest, h p List.mem_cons_self, List.length_cons,
      Nat.succ_mul, Nat.add_comm]

theorem byteAt_concat {parts : List ByteArray} {n k i : Nat} {p : ByteArray}
    (h : ∀ q ∈ parts, q.size = n) (hp : parts[k]? = some p) (hi : i < n) :
    byteAt (concat parts) (k * n + i) = byteAt p i := by
  induction parts generalizing k with
  | nil => simp at hp
  | cons q rest ih =>
    have hq := h q List.mem_cons_self
    rw [concat_cons, byteAt_append, hq]
    cases k with
    | zero =>
      cases hp
      rw [if_pos (by omega), Nat.zero_mul, Nat.zero_add]
    | succ k =>
      have hsub : (k + 1) * n + i - n = k * n + i := by rw [Nat.succ_mul]; omega
      rw [if_neg (by rw [Nat.succ_mul]; omega), hsub]
      exact ih (fun q hq => h q (List.mem_cons_of_mem _ hq)) hp

theorem differsFrom_eq_none {a b : ByteArray} {i n : Nat} :
    Outcome.differsFrom a b i n = none ↔ ∀ k, i ≤ k → k < i + n → byteAt a k = byteAt b k := by
  induction n generalizing i with
  | zero => exact ⟨fun _ k _ _ => by omega, fun _ => rfl⟩
  | succ n ih =>
    unfold Outcome.differsFrom
    by_cases hi : byteAt a i = byteAt b i
    · rw [if_neg (not_not_intro hi), ih]
      constructor
      · intro h k hk hn
        rcases Nat.eq_or_lt_of_le hk with rfl | hk
        · exact hi
        · exact h k hk (by omega)
      · exact fun h k hk hn => h k (by omega) (by omega)
    · rw [if_pos hi]
      exact ⟨nofun, fun h => absurd (h i (Nat.le_refl i) (by omega)) hi⟩

theorem firstDifference_eq_none {a b : ByteArray} (hs : a.size = b.size)
    (h : ∀ i < a.size, byteAt a i = byteAt b i) : Outcome.firstDifference a b = none :=
  differsFrom_eq_none.mpr fun k _ hk => h k (by omega)

end Readback.Bytes
