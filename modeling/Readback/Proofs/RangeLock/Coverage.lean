import Readback.Proofs.Except
import Readback.Proofs.RangeLock.Candidate
import Readback.Proofs.RangeLock.Claim
import Readback.Proofs.StateTable.Coverage

namespace Readback.RangeLock

variable {k k' : RangeLock} {l : Lease} {r : BlockRange} {s s' : Source} {S : Finset Nat}
  {states : List BlockState} {verified : List Nat} {newly n m : Nat}

theorem candidate_length (h : k.candidate s = .ok (r, s')) : r.stop - r.start ≤ k.maxBlocks :=
  ((proposes_of_candidate h).legal k.maxBlocks_pos k.maxBlocks_le).length_le

theorem grant_range (h : k.grant r = .ok (l, k')) : l.range = r := by
  obtain ⟨prior, -, h⟩ := bind_eq_ok h
  cases h
  rfl

theorem length_le_of_tryCandidates {tries : Nat}
    (h : k.tryCandidates tries s = .ok (some (l, k'), s')) :
    l.range.stop - l.range.start ≤ k.maxBlocks := by
  induction tries generalizing s with
  | zero => cases h
  | succ tries ih =>
    obtain ⟨⟨r, s₁⟩, hc, h⟩ := bind_eq_ok h
    dsimp only at h
    split at h
    · exact ih h
    · obtain ⟨⟨l', k''⟩, hg, h⟩ := bind_eq_ok h
      cases h
      rw [grant_range hg]
      exact candidate_length hc

theorem release_table (h : k.release l states verified = .ok (newly, k')) :
    k'.maxBlocks = k.maxBlocks ∧ ∃ t, storeStates k.table (l.range.blocks.zip states) = .ok t ∧
      markAll t verified = .ok (newly, k'.table) := by
  obtain ⟨length, -, h⟩ := bind_eq_ok h
  split at h
  · cases h
  · obtain ⟨t, hst, h⟩ := bind_eq_ok h
    obtain ⟨⟨n, t'⟩, hma, h⟩ := bind_eq_ok h
    cases h
    exact ⟨rfl, t, mapError_eq_ok hst, mapError_eq_ok hma⟩

/-- A release covers the verified blocks, and counts those that were not covered before. -/
theorem covers_release (h : k.release l states verified = .ok (newly, k'))
    (hk : k.table.Covers S) : k'.table.Covers (S ∪ verified.toFinset) ∧
      newly + S.card = (S ∪ verified.toFinset).card := by
  obtain ⟨-, t, hst, hma⟩ := release_table h
  exact (hk.storeStates hst).markAll hma

theorem newly_le (h : k.release l states verified = .ok (newly, k')) (hk : k.table.Covers S) :
    newly ≤ verified.length := by
  have hcard := (covers_release h hk).2
  have hunion := Finset.card_union_le S verified.toFinset
  have hlist := List.toFinset_card_le verified
  omega

theorem table_of_make (h : make n m = .ok k) :
    k.table.Covers ∅ ∧ k.maxBlocks = min (max 1 m) n := by
  unfold make at h
  split at h
  · obtain ⟨t, ht, h⟩ := bind_eq_ok h
    cases h
    exact ⟨StateTable.covers_of_make ht, rfl⟩
  · cases h

/-- The blocks that a lock counts as covered are blocks of its own. -/
def Counted (k : RangeLock) : Prop :=
  ∃ S ⊆ Finset.range k.nBlocks, k.table.Covers S

theorem Counted.covered_le (h : k.Counted) : k.covered ≤ k.nBlocks := by
  obtain ⟨S, hS, hk⟩ := h
  rw [covered, hk.count]
  exact (Finset.card_le_card hS).trans_eq (Finset.card_range _)

theorem counted_of_make (h : make n m = .ok k) : k.Counted :=
  ⟨∅, Finset.empty_subset _, (table_of_make h).1⟩

theorem Counted.entered (h : k.Counted) (he : k.Entered l k') : k'.Counted := by
  rw [he.after]
  exact h

theorem Counted.release (h : k.Counted) (hk : k.Shaped)
    (he : k.release l states verified = .ok (newly, k')) : k'.Counted := by
  obtain ⟨-, hv, hm⟩ := hk.release_ok_iff.mp ⟨_, he⟩
  obtain ⟨S, hS, hc⟩ := h
  refine ⟨S ∪ verified.toFinset, ?_, (covers_release he hc).1⟩
  rw [(hk.settled he).nBlocks]
  apply Finset.union_subset hS
  intro b hb
  have hrange := BlockRange.mem_blocks.mp (hv b (List.mem_toFinset.mp hb))
  exact Finset.mem_range.mpr (Nat.lt_of_lt_of_le hrange.2 (hk.within _ hm))

theorem Counted.play {h : History} (hk : h.lock.Counted) (hs : h.Shaped n) (calls : List Call) :
    (h.play calls).lock.Counted :=
  hs.lock_induction hk Counted.entered Counted.release calls

theorem maxBlocks_play (hk : make n m = .ok k) (calls : List Call) :
    ((History.new k).play calls).lock.maxBlocks = min (max 1 m) n := by
  have hnew := History.shaped_new hk
  have hmax : (History.new k).lock.maxBlocks = min (max 1 m) n := (table_of_make hk).2
  refine hnew.lock_induction (P := (·.maxBlocks = min (max 1 m) n)) hmax ?_ ?_ calls
  · intro k l k' hmax he
    rw [he.after]
    exact hmax
  · intro k l states verified newly k' hmax _ he
    exact (release_table he).1.trans hmax

end Readback.RangeLock
