import Readback.Proofs.Except
import Readback.Proofs.Random.Uniform
import Readback.RangeLock

namespace Readback.RangeLock

open Source (Drawing Picks)

variable {n m : Nat} {k : RangeLock} {r : BlockRange} {s s' : Source}

/-- A length of at most `m` is picked, and then a start that leaves room for it in `n` blocks. -/
def Proposes (n m : Nat) (s : Source) (r : BlockRange) (s' : Source) : Prop :=
  ∃ count start s₁, Picks .word64 1 m s count s₁ ∧ Picks .word64 0 (n - count) s₁ start s' ∧
    r = ⟨start, start + count⟩

theorem drawing_proposes (n m : Nat) : Drawing (Proposes n m) where
  unique := by
    rintro s t₁ t₂ r r' ⟨count, start, s₁, hc, hs, rfl⟩ ⟨count', start', s₂, hc', hs', rfl⟩
    obtain ⟨rfl, rfl⟩ := (Source.drawing_picks _ _ _).unique hc hc'
    obtain ⟨rfl, rfl⟩ := (Source.drawing_picks _ _ _).unique hs hs'
    exact ⟨rfl, rfl⟩
  takes := by
    rintro s s' r ⟨count, start, s₁, hc, hs, -⟩
    exact ((Source.drawing_picks _ _ _).takes hc).trans ((Source.drawing_picks _ _ _).takes hs)

/-- A range of at least one block and at most `m`, inside `n` blocks. -/
structure Legal (n m : Nat) (r : BlockRange) : Prop where
  start_lt : r.start < r.stop
  length_le : r.stop - r.start ≤ m
  stop_le : r.stop ≤ n

theorem Proposes.legal (hm : 0 < m) (hmn : m ≤ n) (h : Proposes n m s r s') : Legal n m r := by
  obtain ⟨count, start, s₁, hc, hs, rfl⟩ := h
  have hcount := hc.mem hm
  have hstart := hs.mem (Nat.zero_le _)
  constructor
  · exact Nat.lt_add_of_pos_right hcount.1
  · exact (Nat.add_sub_cancel_left start count).trans_le hcount.2
  · exact Nat.add_le_of_le_sub (hcount.2.trans hmn) hstart.2

theorem Legal.exists_proposes (h : Legal n m r) (hmn : m ≤ n) (hn : n < 2 ^ 64) :
    ∃ ws : List UInt32, ∀ rest, Proposes n m (.words (ws ++ rest)) r (.words rest) := by
  have hlt := h.start_lt
  have hcount : 1 ≤ r.stop - r.start := Nat.sub_pos_of_lt hlt
  have hstart : r.start ≤ n - (r.stop - r.start) := by
    have hstop := h.stop_le
    omega
  have hroom : n - (r.stop - r.start) < 2 ^ 64 := Nat.lt_of_le_of_lt (Nat.sub_le _ _) hn
  obtain ⟨ws₁, hc⟩ := Source.exists_picks hcount h.length_le (Nat.lt_of_le_of_lt hmn hn)
  obtain ⟨ws₂, hs⟩ := Source.exists_picks (Nat.zero_le r.start) hstart hroom
  refine ⟨ws₁ ++ ws₂, ?_⟩
  intro rest
  rw [List.append_assoc]
  refine ⟨_, _, _, hc (ws₂ ++ rest), hs rest, ?_⟩
  rw [Nat.add_sub_of_le (Nat.le_of_lt hlt)]

theorem eq_of_ofLength {start count : Nat} (h : BlockRange.ofLength start count = .ok r) :
    r = ⟨start, start + count⟩ := by
  unfold BlockRange.ofLength BlockRange.make at h
  split at h
  · split at h
    · exact (Except.ok.inj h).symm
    · cases h
  · cases h

theorem proposes_of_candidate (h : k.candidate s = .ok (r, s')) :
    Proposes k.nBlocks k.maxBlocks s r s' := by
  unfold candidate at h
  split at h
  · rename_i count s₁ hc
    obtain ⟨room, hroom, h⟩ := bind_eq_ok h
    obtain ⟨rfl, -⟩ := Word.eq_of_sub hroom
    split at h
    · rename_i start s₂ hs
      obtain ⟨r', hr, h⟩ := bind_eq_ok h
      cases h
      exact ⟨count, start, s₁, Source.picks_of_between hc, Source.picks_of_between hs,
        eq_of_ofLength hr⟩
    · cases h
  · cases h

end Readback.RangeLock
