import Readback.Proofs.RangeLock.Claim

namespace Readback

namespace RangeLock

namespace History

def Leased (h : History) (b : Nat) : Prop :=
  ∃ p ∈ outstanding h.log, b ∈ p.2.range.blocks

variable {h : History} {r : BlockRange} {b n : Nat}

theorem Sound.leased_iff (hs : h.Sound) : h.Leased b ↔ ∃ s ∈ h.lock.active, b ∈ s.blocks := by
  constructor
  · rintro ⟨p, hp, hb⟩
    exact ⟨p.2.range, hs.mem_active hp, hb⟩
  · rintro ⟨s, hm, hb⟩
    obtain ⟨p, hp, rfl⟩ := List.mem_map.mp (hs.active.mem_iff.mp hm)
    exact ⟨p, hp, hb⟩

theorem Sound.overlaps_iff_leased (hs : h.Sound) (hr : r.start < r.stop) :
    h.lock.active.overlaps r = true ↔ ∃ b ∈ r.blocks, h.Leased b := by
  rw [hs.lock.active.overlaps_iff]
  constructor
  · rintro ⟨s, hm, ho⟩
    have hp := (hs.lock.active.proper s hm).1
    obtain ⟨b, hbs, hbr⟩ := (BlockRange.overlaps_iff_shared hr hp).mp ho
    exact ⟨b, hbr, hs.leased_iff.mpr ⟨s, hm, hbs⟩⟩
  · rintro ⟨b, hbr, hl⟩
    obtain ⟨s, hm, hbs⟩ := hs.leased_iff.mp hl
    have hp := (hs.lock.active.proper s hm).1
    exact ⟨s, hm, (BlockRange.overlaps_iff_shared hr hp).mpr ⟨b, hbs, hbr⟩⟩

theorem Sound.clear_iff (hs : h.Sound) :
    (∀ s ∈ h.lock.active, s.stop ≤ r.start ∨ r.stop ≤ s.start) ↔
      h.lock.active.overlaps r = false := by
  rw [← Bool.not_eq_true, hs.lock.active.overlaps_iff]
  simp only [not_exists, not_and, Bool.not_eq_true, BlockRange.overlaps_eq_false]

theorem Sound.claim_granted_iff (hs : h.Sound) (hr : h.lock.Fits r) :
    (∃ l lock, h.lock.claim r = .ok (some (l, lock)) ∧ l.range = r ∧
        lock.active.Perm (r :: h.lock.active)) ↔ h.lock.active.overlaps r = false := by
  rcases hs.lock.shaped.claim r with ⟨hlt, -⟩ | ⟨-, ho, he⟩ | ⟨l, lock, he, hg, rfl⟩
  · exact absurd hr.2 (Nat.not_le_of_lt hlt)
  · rw [he, ho]
    simp
  · have hperm := (hg.granted hr.1).perm hs.lock
    exact ⟨fun _ => hg.free, fun _ => ⟨l, lock, he, rfl, hperm⟩⟩

end History

variable {n m : Nat} {k : RangeLock}

/-- As long as no range without a block was granted, looking at one neighbour comes to the same as
looking at all, and a claim is refused exactly if one of its blocks is leased; one that lies right
beside leases is granted.  Ranges that are claimed as they are made all hold a block. -/
theorem claim_refused_iff_leased (hk : make n m = .ok k) (calls : List Call) :
    let h := (History.new k).play calls
    ((∀ c ∈ calls, c.Proper) → h.Filled) ∧
      (h.Filled → ∀ r : BlockRange, r.start < r.stop → r.stop ≤ n →
        (h.lock.active.overlaps r = true ↔ ∃ s ∈ h.lock.active, s.overlaps r = true) ∧
        (h.lock.active.overlaps r = true ↔
          ∃ s ∈ h.lock.active, ∃ b, b ∈ s.blocks ∧ b ∈ r.blocks) ∧
        (h.lock.claim r = .ok none ↔ ∃ b ∈ r.blocks, h.Leased b) ∧
        ((∃ l lock, h.lock.claim r = .ok (some (l, lock)) ∧ l.range = r ∧
            lock.active.Perm (r :: h.lock.active)) ↔ ¬ ∃ b ∈ r.blocks, h.Leased b) ∧
        ((∀ s ∈ h.lock.active, s.stop ≤ r.start ∨ r.stop ≤ s.start) ↔
          ¬ ∃ b ∈ r.blocks, h.Leased b)) := by
  intro h
  have hnew := History.sound_new hk
  have hsn := History.shaped_new hk
  constructor
  · exact hsn.filled_play nofun
  · intro hf r hlt hle
    have hs : h.Sound := hnew.play_of_filled hsn hf
    have hfits : h.lock.Fits r := ⟨hlt, (hsn.play calls).nBlocks ▸ hle⟩
    have hscan := hs.lock.active.overlaps_iff r
    have hleased := hs.overlaps_iff_leased hlt
    have hfree : h.lock.active.overlaps r = false ↔ ¬ ∃ b ∈ r.blocks, h.Leased b := by
      rw [← hleased, Bool.not_eq_true]
    refine ⟨hscan, ?_, ?_, (hs.claim_granted_iff hfits).trans hfree, hs.clear_iff.trans hfree⟩
    · rw [hscan]
      apply exists_congr
      intro s
      apply and_congr_right
      intro hm
      exact BlockRange.overlaps_iff_shared hlt (hs.lock.active.proper s hm).1
    · exact (hs.lock.claim_eq_none_iff hfits.2).trans (hscan.symm.trans hleased)

/-- Between two leases that it touches a range is granted, and one block further it is refused. -/
theorem claim_refused_of_neighbours : ∃ k, make 8 8 = .ok k ∧
    let calls : List Call := [.claim ⟨5, 8⟩, .claim ⟨0, 2⟩]
    let h := (History.new k).play calls
    (∀ c ∈ calls, c.Proper) ∧ h.Filled ∧ h.lock.active = [⟨0, 2⟩, ⟨5, 8⟩] ∧
      (∃ l lock, h.lock.claim ⟨2, 5⟩ = .ok (some (l, lock)) ∧ l.range = ⟨2, 5⟩) ∧
      h.lock.claim ⟨2, 6⟩ = .ok none := by
  refine ⟨_, rfl, ?_⟩
  intro calls h
  have hc : ∀ c ∈ calls, c.Proper := by simp [calls, Call.Proper]
  have ha : h.lock.active = [⟨0, 2⟩, ⟨5, 8⟩] := by decide +kernel
  have hclaims := claim_refused_iff_leased (n := 8) (m := 8) rfl calls
  have hf : h.Filled := hclaims.1 hc
  have hbetween := hclaims.2 hf ⟨2, 5⟩ (by decide) (by decide)
  have hbeyond := hclaims.2 hf ⟨2, 6⟩ (by decide) (by decide)
  have hclear : ∀ s ∈ h.lock.active, s.stop ≤ 2 ∨ 5 ≤ s.start := by
    rw [ha]
    decide
  obtain ⟨l, lock, he, hr, -⟩ := hbetween.2.2.2.1.mpr (hbetween.2.2.2.2.mp hclear)
  have hfirst : (0, ⟨⟨5, 8⟩, [none, none, none]⟩) ∈ outstanding h.log := by decide +kernel
  have hleased : ∃ b ∈ BlockRange.blocks ⟨2, 6⟩, h.Leased b :=
    ⟨5, by decide, _, hfirst, by decide⟩
  exact ⟨hc, hf, ha, ⟨l, lock, he, hr⟩, hbeyond.2.2.1.mpr hleased⟩

end RangeLock

end Readback
