import Readback.Proofs.Except
import Readback.Stats

namespace Readback.Stats

def amount (x : Counter) : List (Counter × UInt64) → UInt64
  | [] => 0
  | (c, v) :: rest => (if c = x then v else 0) + amount x rest

theorem ext_get {s s' : Stats} (h : ∀ x, s.get x = s'.get x) : s = s' := by
  have h₁ := h .iterations
  have h₂ := h .blocksTouched
  have h₃ := h .bytesWritten
  have h₄ := h .verified
  have h₅ := h .verifiedDuplicate
  have h₆ := h .verifiedTrimmed
  have h₇ := h .covered
  have h₈ := h .readErrors
  have h₉ := h .writeErrors
  have h₁₀ := h .mismatches
  have h₁₁ := h .failedIterations
  cases s
  cases s'
  simp only [get] at *
  subst h₁ h₂ h₃ h₄ h₅ h₆ h₇ h₈ h₉ h₁₀ h₁₁
  rfl

theorem get_add (s : Stats) (c : Counter) (v : UInt64) (x : Counter) :
    (s.add c v).get x = s.get x + if c = x then v else 0 := by
  by_cases hc : c = x
  · subst hc
    rw [add, get_set_self, if_pos rfl]
  · rw [add, get_set_of_ne _ (fun he => hc he.symm), if_neg hc, UInt64.add_zero]

theorem get_addAll (s : Stats) (additions : List (Counter × UInt64)) (x : Counter) :
    (s.addAll additions).get x = s.get x + amount x additions := by
  induction additions generalizing s with
  | nil => exact (UInt64.add_zero _).symm
  | cons p rest ih =>
    obtain ⟨c, v⟩ := p
    have hrest := ih (s.add c v)
    rw [get_add, UInt64.add_assoc] at hrest
    exact hrest

theorem addAll_append (s : Stats) (l l' : List (Counter × UInt64)) :
    s.addAll (l ++ l') = (s.addAll l).addAll l' :=
  List.foldl_append

theorem record_eq (s : Stats) {r : Record} {failed : Bool} (h : r.failed = .ok failed) :
    s.record r = (s.addAll (r.seen ++ Record.closing failed),
      Word.add (s.addAll r.seen).iterations.toNat 1) := by
  rw [record, h, addAll_append]

end Readback.Stats

namespace Readback.Record

theorem exists_failed {r : Record} (h : r.readErrors + r.writeErrors + r.mismatches < Word.limit) :
    ∃ failed, r.failed = .ok failed := by
  have h₁ : r.readErrors + r.writeErrors < Word.limit := by omega
  exact ⟨_, by simp only [failed, Word.add_of_lt h₁, bind, Except.bind, Word.add_of_lt h]; rfl⟩

theorem failed_iff {r : Record} {failed : Bool} (h : r.failed = .ok failed) :
    failed = true ↔ 0 < r.readErrors + r.writeErrors + r.mismatches := by
  obtain ⟨errors, he, h⟩ := bind_eq_ok h
  obtain ⟨sum, hs, h⟩ := bind_eq_ok h
  cases h
  rw [Word.eq_of_add hs, Word.eq_of_add he, decide_eq_true_iff]

end Readback.Record
