import Readback.Proofs.RangeLock.Coverage
import Readback.Proofs.RangeLock.Foreign

namespace Readback

namespace StateTable

variable {n b : Nat} {t t' : StateTable}

theorem isCovered_iff : t.isCovered b = .ok true ↔ t.Marked b := by
  unfold isCovered
  split
  · rename_i h
    rw [marked_of_getElem h, Except.ok.injEq, decide_eq_true_iff]
  · rename_i h
    have hclear : t.words.getD (b / 64) 0 = 0 := by
      rw [Array.getD_eq_getD_getElem?, Array.getElem?_eq_none (Nat.le_of_not_lt h)]
      rfl
    simp [Marked, hclear]

theorem get_congr (ht : t.Sized n) (ht' : t'.Sized n) (h : t'.stateAt b = t.stateAt b) :
    t'.get b = t.get b := by
  by_cases hb : b < n
  · rw [get_eq (ht'.states ▸ hb), get_eq (ht.states ▸ hb), h]
  · simp only [get, ht.states, ht'.states, hb]
    rfl

end StateTable

namespace RangeLock

variable {n m newly : Nat} {k k' : RangeLock} {l : Lease} {states : List BlockState}
  {verified : List Nat}

def coveredSet (k : RangeLock) : Finset Nat :=
  (Finset.range k.nBlocks).filter fun b => k.table.isCovered b = .ok true

theorem Counted.covers (h : k.Counted) : k.table.Covers k.coveredSet := by
  obtain ⟨S, hS, hc⟩ := h
  have hset : k.coveredSet = S := by
    ext b
    rw [coveredSet, Finset.mem_filter, StateTable.isCovered_iff, hc.marked]
    exact and_iff_right_of_imp fun hb => hS hb
  rwa [hset]

theorem Counted.covered_eq (h : k.Counted) : k.covered = k.coveredSet.card :=
  h.covers.count

theorem Counted.coveredSet_release (h : k.Counted) (hk : k.Shaped)
    (he : k.release l states verified = .ok (newly, k')) :
    k'.coveredSet = k.coveredSet ∪ verified.toFinset ∧
      newly = (verified.toFinset \ k.coveredSet).card ∧ k'.covered = k.covered + newly := by
  have h' := h.release hk he
  obtain ⟨hc, hcard⟩ := covers_release he h.covers
  have hset : k'.coveredSet = k.coveredSet ∪ verified.toFinset := by
    ext b
    rw [← h'.covers.marked, hc.marked]
  refine ⟨hset, ?_, ?_⟩
  · have hsplit := Finset.card_sdiff_add_card verified.toFinset k.coveredSet
    rw [Finset.union_comm, ← hcard] at hsplit
    omega
  · rw [h'.covered_eq, h.covered_eq, hset, ← hcard]
    omega

theorem Settled.mapM_get (h : k.Settled l states k') (hk : k.Shaped) :
    l.range.blocks.mapM k'.table.get = .ok states := by
  have hstop := hk.within _ h.mem
  have hlen := h.length
  rw [RangeLock.mapM_get h.shaped.table]
  · congr 1
    apply List.ext_getElem
    · rw [List.length_map, BlockRange.length_blocks, hlen]
    · intro i hi hi'
      have hb : l.range.start + i ∈ l.range.blocks := by
        rw [BlockRange.mem_blocks]
        omega
      simp only [List.getElem_map, BlockRange.blocks, List.getElem_range', Nat.one_mul]
      rw [h.stateAt, if_pos hb, Nat.add_sub_cancel_left, List.getD_eq_getElem _ _ hi']
  · intro b hb
    rw [h.nBlocks]
    exact Nat.lt_of_lt_of_le (BlockRange.mem_blocks.mp hb).2 hstop

theorem Settled.get_of_not_mem (h : k.Settled l states k') (hk : k.Shaped) {b : Nat}
    (hb : b ∉ l.range.blocks) : k'.table.get b = k.table.get b := by
  apply StateTable.get_congr hk.table (h.nBlocks ▸ h.shaped.table)
  rw [h.stateAt, if_neg hb]

/-- A lease is given back as a whole or not at all, whoever granted it and whatever was claimed
before.  Nothing fails once the checks have passed. -/
theorem release_all_or_nothing (hk : make n m = .ok k) (calls : List Call) (l : Lease)
    (states : List BlockState) (verified : List Nat) :
    let h := (History.new k).play calls
    let h' := h.offer l states verified
    ((∃ f, h.lock.release l states verified = .error f) ↔
        l.range.length ≠ .ok states.length ∨ (∃ b ∈ verified, b ∉ l.range.blocks) ∨
          l.range ∉ h.lock.active) ∧
      (∀ f, h.lock.release l states verified = .error f → h' = h ∧
        ((∃ v : Violation, f = .error v.error) ∨
          l.range.stop < l.range.start ∧ f = .fault .overflow)) ∧
      ∀ newly k', h.lock.release l states verified = .ok (newly, k') → h'.lock = k' ∧
        h.lock.active.Perm (l.range :: k'.active) ∧
        l.range.blocks.mapM k'.table.get = .ok states ∧
        (∀ b, b ∉ l.range.blocks → k'.table.get b = h.lock.table.get b) ∧
        k'.coveredSet = h.lock.coveredSet ∪ verified.toFinset ∧
        newly = (verified.toFinset \ h.lock.coveredSet).card ∧
        k'.covered = h.lock.covered + newly := by
  intro h h'
  have hs : h.Shaped n := (History.shaped_new hk).play calls
  have hc : h.lock.Counted := (counted_of_make hk).play (History.shaped_new hk) calls
  refine ⟨?_, fun f he => ⟨?_, ?_⟩, fun newly k' he => ?_⟩
  · rw [exists_error_iff, hs.lock.release_ok_iff, not_and_or, not_and_or]
    simp only [not_forall, exists_prop, ne_eq]
  · simp only [h', History.offer, he]
  · rcases Nat.lt_or_ge l.range.stop l.range.start with hlt | hle
    · rw [release_of_lt hlt] at he
      cases he
      exact .inr ⟨hlt, rfl⟩
    · rcases hs.lock.release hle states verified with ⟨v, -, hv⟩ | ⟨-, newly, k', hv, -⟩
      · rw [he] at hv
        cases hv
        exact .inl ⟨v, rfl⟩
      · rw [he] at hv
        cases hv
  · have hsettled := hs.lock.settled he
    have hperm := hs.lock.sorted.perm_erase hsettled.mem
    rw [← hsettled.active] at hperm
    refine ⟨?_, hperm, hsettled.mapM_get hs.lock, ?_, hc.coveredSet_release hs.lock he⟩
    · simp only [h', History.offer, he]
    · intro b hb
      exact hsettled.get_of_not_mem hs.lock hb

/-- A lease across two words of bits, with one block verified twice and one that was verified
before; and the same lease with a block that is not its own. -/
theorem release_all_or_nothing_of_seventy : ∃ k, make 70 4 = .ok k ∧
    let calls : List Call := [.claim ⟨61, 64⟩, .release 0 [none, none, some .duplicate] [63],
      .claim ⟨62, 66⟩]
    let h := (History.new k).play calls
    let l : Lease := ⟨⟨62, 66⟩, [none, some .duplicate, none, none]⟩
    let states : List BlockState := [none, some .trimmed, some .duplicate, none]
    (∃ k', h.lock.release l states [64, 63, 64] = .ok (1, k') ∧ k'.active = [] ∧
        k'.coveredSet = {63, 64} ∧ l.range.blocks.mapM k'.table.get = .ok states) ∧
      h.offer l states [64, 66] = h := by
  refine ⟨_, rfl, ?_⟩
  intro calls h l states
  have ha : h.lock.active = [⟨62, 66⟩] := by decide +kernel
  have hc : h.lock.coveredSet = {63} := by decide +kernel
  constructor
  · obtain ⟨hiff, -, hok⟩ :=
      release_all_or_nothing (n := 70) (m := 4) rfl calls l states [64, 63, 64]
    have hchecks : ¬ (l.range.length ≠ .ok states.length ∨
        (∃ b ∈ [64, 63, 64], b ∉ l.range.blocks) ∨ l.range ∉ h.lock.active) := by
      rw [ha]
      decide
    obtain ⟨⟨newly, k'⟩, he⟩ := not_not.mp fun hn => hchecks (hiff.mp (exists_error_iff.mpr hn))
    obtain ⟨-, hperm, hstates, -, hset, hnewly, -⟩ := hok newly k' he
    have hone : newly = 1 := by
      rw [hnewly]
      exact (congrArg (fun S => Finset.card (_ \ S)) hc).trans (by decide)
    have hactive : k'.active = [] := by
      have hperm : [l.range].Perm (l.range :: k'.active) := ha ▸ hperm
      exact (List.perm_nil.mp hperm.cons_inv.symm)
    have hset : k'.coveredSet = {63, 64} := by
      rw [hset]
      exact (congrArg (· ∪ _) hc).trans (by decide)
    exact ⟨k', hone ▸ he, hactive, hset, hstates⟩
  · obtain ⟨hiff, herr, -⟩ := release_all_or_nothing (n := 70) (m := 4) rfl calls l states [64, 66]
    obtain ⟨f, he⟩ := hiff.mpr (.inr (.inl ⟨66, by decide, by decide⟩))
    exact (herr f he).1

end RangeLock

end Readback
