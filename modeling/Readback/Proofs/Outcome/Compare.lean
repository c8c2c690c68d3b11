import Readback.Proofs.Bytes

namespace Readback

/-- A mismatch tells of a block where it first differs from its content, and how it goes on from
there, up to 16 bytes or the end of the block. -/
structure Mismatch.Shows (m : Mismatch) (block offset : Nat) (tag : Tag) (a b : ByteArray) :
    Prop where
  block : m.block = block
  offset : m.offset = offset
  tag : m.tag = tag
  within : m.firstDiff < a.size
  differs : Bytes.byteAt a m.firstDiff ≠ Bytes.byteAt b m.firstDiff
  least : ∀ i < m.firstDiff, Bytes.byteAt a i = Bytes.byteAt b i
  expected : m.expected = a.extract m.firstDiff (min (m.firstDiff + 16) a.size)
  actual : m.actual = b.extract m.firstDiff (min (m.firstDiff + 16) a.size)

namespace Outcome

variable {a b expected actual : ByteArray} {block offset : Nat} {tag : Tag}

theorem differsFrom_eq_some {i n k : Nat} (h : differsFrom a b i n = some k) :
    k < i + n ∧ Bytes.byteAt a k ≠ Bytes.byteAt b k ∧
      ∀ x, i ≤ x → x < k → Bytes.byteAt a x = Bytes.byteAt b x := by
  induction n generalizing i with
  | zero => cases h
  | succ n ih =>
    rw [differsFrom] at h
    by_cases hi : Bytes.byteAt a i = Bytes.byteAt b i
    · rw [if_neg (not_not_intro hi)] at h
      obtain ⟨hlt, hne, hbefore⟩ := ih h
      refine ⟨by omega, hne, ?_⟩
      intro x hx hk
      rcases Nat.eq_or_lt_of_le hx with rfl | hx
      · exact hi
      · exact hbefore x hx hk
    · rw [if_pos hi] at h
      cases h
      exact ⟨by omega, hi, fun x hx hlt => absurd hx (Nat.not_le_of_gt hlt)⟩

theorem matched?_compare {p : Nat × Tag}
    (h : (compare block offset tag expected actual).matched? = some p) : p = (block, tag) := by
  unfold compare at h
  split at h
  · cases h
    rfl
  · cases h

theorem mismatch?_compare {m : Mismatch}
    (h : (compare block offset tag expected actual).mismatch? = some m) :
    firstDifference expected actual = some m.firstDiff ∧
      m = ⟨block, offset, tag, m.firstDiff, Bytes.slice expected m.firstDiff previewLength,
        Bytes.slice actual m.firstDiff previewLength⟩ := by
  unfold compare at h
  split at h
  · cases h
  · cases h
    exact ⟨‹_›, rfl⟩

theorem compare_self : compare block offset tag expected expected = .matched block tag := by
  rw [compare, Bytes.firstDifference_eq_none rfl fun i _ => rfl]

theorem extract_min (bytes : ByteArray) (i j : Nat) :
    bytes.extract i (min j bytes.size) = bytes.extract i j := by
  apply Bytes.ext_byteAt
  · simp only [ByteArray.size_extract]
    omega
  · intro k hk
    rw [ByteArray.size_extract] at hk
    rw [Bytes.byteAt_extract, Bytes.byteAt_extract, if_pos (by omega), if_pos (by omega)]

theorem compare_of_ne (hs : expected.size = actual.size) (h : expected ≠ actual) :
    ∃ m, compare block offset tag expected actual = .differs m ∧
      m.Shows block offset tag expected actual := by
  cases hd : firstDifference expected actual with
  | none =>
    have hall := Bytes.differsFrom_eq_none.mp hd
    rw [← hs, Nat.min_self] at hall
    exact absurd (Bytes.ext_byteAt hs fun i hi => hall i (Nat.zero_le i) (by omega)) h
  | some i =>
    obtain ⟨hlt, hne, hbefore⟩ := differsFrom_eq_some hd
    rw [← hs, Nat.min_self, Nat.zero_add] at hlt
    refine ⟨_, by rw [compare, hd], rfl, rfl, rfl, hlt, hne, ?_, ?_, ?_⟩
    · exact fun x hx => hbefore x (Nat.zero_le x) hx
    · exact (extract_min expected i (i + 16)).symm
    · rw [hs]
      exact (extract_min actual i (i + 16)).symm

end Outcome

end Readback
