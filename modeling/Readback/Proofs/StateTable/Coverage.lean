import Mathlib.Data.Finset.Card
import Mathlib.Data.Nat.Bitwise
import Readback.Proofs.Except
import Readback.Proofs.StateTable

namespace Readback.StateTable

variable {n b newly : Nat} {t t' : StateTable} {S : Finset Nat} {first : Bool} {blocks : List Nat}

/-- The bit of a block is set.  There are no bits past the last word. -/
def Marked (t : StateTable) (b : Nat) : Prop :=
  (t.words.getD (b / 64) 0).toNat.testBit (b % 64)

/-- The blocks whose bits are set are those of a set, and they are as many as is kept count of. -/
structure Covers (t : StateTable) (S : Finset Nat) : Prop where
  count : t.coveredCount = S.card
  marked : ∀ b, t.Marked b ↔ b ∈ S

theorem toNat_bit (b : Nat) : (bit b).toNat = 2 ^ (b % 64) := by
  have hlt : b % 64 < 64 := Nat.mod_lt _ (by decide)
  have hpow : 2 ^ (b % 64) < 2 ^ 64 := Nat.pow_lt_pow_right (by decide) hlt
  have hshift : ((b % 64).toUInt64).toNat = b % 64 :=
    UInt64.toNat_ofNat_of_lt' (Nat.lt_trans hlt (by decide))
  rw [bit, UInt64.toNat_shiftLeft, hshift, Nat.mod_mod, UInt64.toNat_one, Nat.one_shiftLeft,
    Nat.mod_eq_of_lt hpow]

theorem and_bit_ne_zero (w : UInt64) (b : Nat) :
    w &&& bit b ≠ 0 ↔ w.toNat.testBit (b % 64) = true := by
  rw [Ne, ← UInt64.toNat_inj, UInt64.toNat_and, toNat_bit, Nat.and_two_pow, UInt64.toNat_zero]
  cases w.toNat.testBit (b % 64) <;> simp

theorem testBit_or_bit (w : UInt64) (b i : Nat) :
    (w ||| bit b).toNat.testBit i = true ↔ w.toNat.testBit i = true ∨ b % 64 = i := by
  rw [UInt64.toNat_or, toNat_bit, Nat.testBit_or, Nat.testBit_two_pow, Bool.or_eq_true,
    decide_eq_true_iff]

theorem marked_of_getElem (h : b / 64 < t.words.size) :
    t.Marked b ↔ t.words[b / 64] &&& bit b ≠ 0 := by
  rw [and_bit_ne_zero, Marked, Array.getD_eq_getD_getElem?, Array.getElem?_eq_getElem h,
    Option.getD_some]

theorem marked_set (h : b / 64 < t.words.size) (count b' : Nat) :
    Marked { t with
      words := t.words.set (b / 64) (t.words[b / 64] ||| bit b)
      coveredCount := count } b' ↔ t.Marked b' ∨ b' = b := by
  have hblock : b' = b ↔ b / 64 = b' / 64 ∧ b % 64 = b' % 64 := by omega
  rw [hblock]
  simp only [Marked, Array.getD_eq_getD_getElem?, Array.getElem?_set]
  by_cases hword : b / 64 = b' / 64
  · rw [if_pos hword, Option.getD_some, testBit_or_bit, ← hword, Array.getElem?_eq_getElem h,
      Option.getD_some, and_iff_right rfl]
  · rw [if_neg hword]
    exact (or_iff_left fun he => hword he.1).symm

theorem covers_of_make (h : make n = .ok t) : t.Covers ∅ := by
  unfold make at h
  split at h
  · cases h
    refine ⟨rfl, fun b => ?_⟩
    simp only [Marked, Array.getD_eq_getD_getElem?, Array.getElem?_replicate, Finset.notMem_empty]
    split <;> simp
  · cases h

/-- A block is first marked if it was not among those covered, and is among them from then on. -/
theorem Covers.mark (h : t.Covers S) (hm : t.mark b = .ok (first, t')) :
    t'.Covers (insert b S) ∧ first.toNat + S.card = (insert b S).card := by
  unfold StateTable.mark at hm
  split at hm
  · rename_i hword
    dsimp only at hm
    split at hm
    · rename_i hset
      cases hm
      have hb : b ∈ S := (h.marked b).mp ((marked_of_getElem hword).mpr hset)
      rw [Finset.insert_eq_of_mem hb]
      exact ⟨h, Nat.zero_add _⟩
    · rename_i hclear
      cases hm
      have hb : b ∉ S := fun hb => hclear ((marked_of_getElem hword).mp ((h.marked b).mpr hb))
      have hcard : (insert b S).card = S.card + 1 := Finset.card_insert_of_notMem hb
      refine ⟨⟨?_, fun b' => ?_⟩, ?_⟩
      · rw [hcard]
        exact congrArg (· + 1) h.count
      · rw [marked_set hword, h.marked, Finset.mem_insert, or_comm]
      · rw [hcard]
        exact Nat.add_comm _ _
  · cases hm

theorem Covers.markAll (h : t.Covers S) (hm : RangeLock.markAll t blocks = .ok (newly, t')) :
    t'.Covers (S ∪ blocks.toFinset) ∧ newly + S.card = (S ∪ blocks.toFinset).card := by
  induction blocks generalizing t S newly with
  | nil =>
    cases hm
    rw [List.toFinset_nil, Finset.union_empty]
    exact ⟨h, Nat.zero_add _⟩
  | cons b rest ih =>
    obtain ⟨⟨first, t₁⟩, hb, hm⟩ := bind_eq_ok hm
    obtain ⟨⟨m, t₂⟩, hr, hm⟩ := bind_eq_ok hm
    cases hm
    obtain ⟨h₁, hcard₁⟩ := h.mark hb
    obtain ⟨h₂, hcard₂⟩ := ih h₁ hr
    have hunion : S ∪ (b :: rest).toFinset = insert b S ∪ rest.toFinset := by
      rw [List.toFinset_cons, Finset.union_insert, Finset.insert_union]
    have hfirst : (if first then 1 else 0) = first.toNat := by cases first <;> rfl
    rw [hunion, hfirst]
    exact ⟨h₂, by omega⟩

theorem storeStates_marks {updates : List (Nat × BlockState)}
    (h : RangeLock.storeStates t updates = .ok t') :
    t'.words = t.words ∧ t'.coveredCount = t.coveredCount := by
  induction updates generalizing t with
  | nil =>
    cases h
    exact ⟨rfl, rfl⟩
  | cons p rest ih =>
    obtain ⟨b, s⟩ := p
    by_cases hb : b < t.states.size
    · simp only [RangeLock.storeStates, List.foldlM_cons, set_eq hb] at h
      exact ih (t := { t with states := t.states.set b s }) h
    · simp only [RangeLock.storeStates, List.foldlM_cons, set, dif_neg hb] at h
      cases h

theorem Covers.storeStates (h : t.Covers S) {updates : List (Nat × BlockState)}
    (hs : RangeLock.storeStates t updates = .ok t') : t'.Covers S := by
  obtain ⟨hwords, hcount⟩ := storeStates_marks hs
  refine ⟨hcount.trans h.count, fun b => ?_⟩
  rw [← h.marked, Marked, hwords, Marked]

end Readback.StateTable
