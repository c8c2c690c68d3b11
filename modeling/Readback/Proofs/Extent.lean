import Readback.Extent
import Readback.Proofs.Bytes

namespace Readback.Pages

/-- Every page that is kept has its full size. -/
def Sound : {h : Nat} → Pages h → Prop
  | _, zeroes => True
  | _, page bytes => bytes.size = pageSize
  | _, halves low high => low.Sound ∧ high.Sound

theorem span_zero : span 0 = pageSize :=
  rfl

theorem span_succ (h : Nat) : span (h + 1) = span h + span h := by
  simp only [span, Nat.shiftLeft_eq, Nat.pow_succ, ← Nat.mul_assoc]
  omega

theorem Sound.low {h : Nat} {p : Pages (h + 1)} (hp : p.Sound) : p.low.Sound := by
  cases p with
  | zeroes => trivial
  | halves low high => exact hp.1

theorem Sound.high {h : Nat} {p : Pages (h + 1)} (hp : p.Sound) : p.high.Sound := by
  cases p with
  | zeroes => trivial
  | halves low high => exact hp.2

theorem Sound.size_content {p : Pages 0} (hp : p.Sound) : p.content.size = pageSize := by
  cases p with
  | zeroes => exact Bytes.size_zeroes _
  | page bytes => exact hp

theorem byteAt_content (p : Pages 0) (i : Nat) : Bytes.byteAt p.content i = p.byteAt i := by
  cases p with
  | zeroes => exact Bytes.byteAt_zeroes _ _
  | page bytes => rfl

theorem byteAt_low_high {h : Nat} (p : Pages (h + 1)) (i : Nat) :
    p.byteAt i = if i < span h then p.low.byteAt i else p.high.byteAt (i - span h) := by
  cases p with
  | zeroes => simp [byteAt, low, high]
  | halves low high => rfl

theorem Sound.byteAt_of_le {h : Nat} {p : Pages h} (hp : p.Sound) {i : Nat} (hi : span h ≤ i) :
    p.byteAt i = 0 := by
  induction p generalizing i with
  | zeroes => rfl
  | page bytes => exact Bytes.byteAt_of_le (hp ▸ hi)
  | @halves h low high ihl ihh =>
    rw [span_succ] at hi
    rw [byteAt, if_neg (by omega)]
    exact ihh hp.2 (by omega)

theorem byteAt_read {h : Nat} (p : Pages h) (start count i : Nat) :
    Bytes.byteAt (p.read start count) i = if i < count then p.byteAt (start + i) else 0 := by
  induction p generalizing start count i with
  | zeroes =>
    rw [read, Bytes.byteAt_zeroes]
    split <;> rfl
  | page bytes => exact Bytes.byteAt_window bytes start count i
  | @halves h low high ihl ihh =>
    simp only [read, byteAt]
    split
    · rw [ihl]
      split
      · rw [if_pos (by omega)]
      · rfl
    split
    · rw [ihh]
      split
      · rw [if_neg (by omega)]
        congr 1
        omega
      · rfl
    · rw [Bytes.byteAt_append, size_read, ihl, ihh]
      by_cases hi : i < span h - start
      · rw [if_pos hi, if_pos hi, if_pos (by omega), if_pos (by omega)]
      · rw [if_neg hi]
        by_cases hc : i < count
        · rw [if_pos (by omega), if_pos hc, if_neg (by omega)]
          congr 1
          omega
        · rw [if_neg (by omega), if_neg hc]

theorem Sound.write {h : Nat} {p : Pages h} (hp : p.Sound) (start : Nat) (data : ByteArray) :
    (p.write start data).Sound := by
  induction h generalizing start data with
  | zero => exact (Bytes.size_overwrite _ _ _).trans hp.size_content
  | succ h ih =>
    simp only [Pages.write]
    split
    · exact ⟨ih hp.low _ _, hp.high⟩
    split
    · exact ⟨hp.low, ih hp.high _ _⟩
    · exact ⟨ih hp.low _ _, ih hp.high _ _⟩

theorem Sound.byteAt_write {h : Nat} {p : Pages h} (hp : p.Sound) {start : Nat} {data : ByteArray}
    (hs : start + data.size ≤ span h) (i : Nat) :
    (p.write start data).byteAt i =
      if start ≤ i ∧ i < start + data.size then Bytes.byteAt data (i - start) else p.byteAt i := by
  induction h generalizing start data i with
  | zero =>
    have hsize := hp.size_content
    rw [span_zero] at hs
    rw [Pages.write, byteAt, Bytes.byteAt_overwrite, byteAt_content]
    by_cases hi : start ≤ i ∧ i < start + data.size
    · rw [if_pos hi, if_pos ⟨hi.1, hi.2, by omega⟩]
    · rw [if_neg hi, if_neg fun hn => hi ⟨hn.1, hn.2.1⟩]
  | succ h ih =>
    rw [span_succ] at hs
    rw [byteAt_low_high p]
    simp only [Pages.write]
    split
    · rw [byteAt]
      by_cases hi : i < span h
      · rw [if_pos hi, if_pos hi, ih hp.low ‹_›]
      · rw [if_neg hi, if_neg hi, if_neg (by omega)]
    split
    · rw [byteAt]
      by_cases hi : i < span h
      · rw [if_pos hi, if_pos hi, if_neg (by omega)]
      · rw [if_neg hi, if_neg hi, ih hp.high (by omega)]
        by_cases hin : start ≤ i ∧ i < start + data.size
        · rw [if_pos (by omega), if_pos hin]
          congr 1
          omega
        · rw [if_neg (by omega), if_neg hin]
    · have hfirst : (Bytes.slice data 0 (span h - start)).size = span h - start :=
        Bytes.size_slice (by omega)
      have hrest : (Bytes.slice data (span h - start) (data.size - (span h - start))).size =
          data.size - (span h - start) := Bytes.size_slice (by omega)
      rw [byteAt]
      by_cases hi : i < span h
      · rw [if_pos hi, if_pos hi, ih hp.low (by omega), hfirst, Bytes.byteAt_slice]
        by_cases hin : start ≤ i
        · rw [if_pos (by omega), if_pos (by omega), if_pos (by omega), Nat.zero_add]
        · rw [if_neg (by omega), if_neg (by omega)]
      · rw [if_neg hi, if_neg hi, ih hp.high (by omega), hrest, Bytes.byteAt_slice]
        by_cases hin : i < start + data.size
        · rw [if_pos (by omega), if_pos (by omega), if_pos (by omega)]
          congr 1
          omega
        · rw [if_neg (by omega), if_neg (by omega)]

theorem Sound.clear {h : Nat} {p : Pages h} (hp : p.Sound) (start count : Nat) :
    (p.clear start count).Sound := by
  induction p generalizing start count with
  | zeroes => trivial
  | page bytes => exact (Bytes.size_overwrite _ _ _).trans hp
  | halves low high ihl ihh =>
    simp only [Pages.clear]
    split
    · trivial
    split
    · exact ⟨ihl hp.1 _ _, hp.2⟩
    split
    · exact ⟨hp.1, ihh hp.2 _ _⟩
    · exact ⟨ihl hp.1 _ _, ihh hp.2 _ _⟩

theorem Sound.byteAt_clear {h : Nat} {p : Pages h} (hp : p.Sound) {start count : Nat}
    (hs : start + count ≤ span h) (i : Nat) :
    (p.clear start count).byteAt i =
      if start ≤ i ∧ i < start + count then 0 else p.byteAt i := by
  induction p generalizing start count i with
  | zeroes =>
    simp only [Pages.clear, byteAt, ite_self]
  | page bytes =>
    have hsize : bytes.size = pageSize := hp
    rw [span_zero] at hs
    have hmin : min count pageSize = count := by omega
    rw [Pages.clear, byteAt, byteAt, hmin, Bytes.byteAt_overwrite, Bytes.size_zeroes,
      Bytes.byteAt_zeroes]
    by_cases hi : start ≤ i ∧ i < start + count
    · rw [if_pos hi, if_pos ⟨hi.1, hi.2, by omega⟩]
    · rw [if_neg hi, if_neg fun hn => hi ⟨hn.1, hn.2.1⟩]
  | @halves h low high ihl ihh =>
    have hlast := hp.byteAt_of_le (i := i)
    rw [span_succ] at hs hlast
    simp only [Pages.clear]
    split
    · rw [byteAt]
      split
      · rfl
      · exact (hlast (by omega)).symm
    rw [byteAt]
    split
    · rw [byteAt]
      by_cases hi : i < span h
      · rw [if_pos hi, if_pos hi, ihl hp.1 ‹_›]
      · rw [if_neg hi, if_neg hi, if_neg (by omega)]
    split
    · rw [byteAt]
      by_cases hi : i < span h
      · rw [if_pos hi, if_pos hi, if_neg (by omega)]
      · rw [if_neg hi, if_neg hi, ihh hp.2 (by omega)]
        by_cases hin : start ≤ i ∧ i < start + count
        · rw [if_pos (by omega), if_pos hin]
        · rw [if_neg (by omega), if_neg hin]
    · rw [byteAt]
      by_cases hi : i < span h
      · rw [if_pos hi, if_pos hi, ihl hp.1 (by omega)]
        by_cases hin : start ≤ i
        · rw [if_pos (by omega), if_pos (by omega)]
        · rw [if_neg (by omega), if_neg (by omega)]
      · rw [if_neg hi, if_neg hi, ihh hp.2 (by omega)]
        by_cases hin : i < start + count
        · rw [if_pos (by omega), if_pos (by omega)]
        · rw [if_neg (by omega), if_neg (by omega)]

end Readback.Pages

namespace Readback.Extent

theorem toBytes_ofBytes {bytes : ByteArray} (h : bytes.size ≤ Bytes.limit) :
    (ofBytes bytes).toBytes = bytes := by
  have hsize : (ofBytes bytes).toBytes.size = bytes.size := size_read _ _ _
  have hspan : 0 + bytes.size ≤ Pages.span 51 := by
    rw [Nat.zero_add]
    exact h
  refine Bytes.ext_byteAt hsize fun i hi => ?_
  rw [hsize] at hi
  have hwrite := Pages.Sound.byteAt_write (p := (.zeroes : Pages 51)) trivial hspan i
  rw [Nat.zero_add, if_pos ⟨Nat.zero_le i, hi⟩, Nat.sub_zero] at hwrite
  have hread := Pages.byteAt_read (ofBytes bytes).pages 0 bytes.size i
  rw [if_pos hi, Nat.zero_add] at hread
  exact hread.trans hwrite

end Readback.Extent
