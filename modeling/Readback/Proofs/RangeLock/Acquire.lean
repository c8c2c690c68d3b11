import Readback.Proofs.RangeLock.Coverage
import Readback.Proofs.RangeLock.Overlap

namespace Readback.RangeLock

open Source (First Drawing Picks)

variable {n m tries i : Nat} {k k' : RangeLock} {l : Lease} {r : BlockRange} {s s' : Source}

theorem Shaped.candidate_iff (hk : k.Shaped) (hs : s.Sound) :
    k.candidate s = .ok (r, s') ↔ Proposes k.nBlocks k.maxBlocks s r s' := by
  constructor
  · exact proposes_of_candidate
  · intro h
    have hlegal := h.legal k.maxBlocks_pos k.maxBlocks_le
    obtain ⟨count, start, s₁, hc, hst, rfl⟩ := h
    have hs₁ := hs.of_takes ((Source.drawing_picks _ _ _).takes hc)
    have hcount := hc.mem k.maxBlocks_pos
    have hroom : Word.sub k.nBlocks count = .ok (k.nBlocks - count) :=
      Word.sub_of_le (hcount.2.trans k.maxBlocks_le)
    have hend : start + count < Word.limit := Nat.lt_of_le_of_lt hlegal.stop_le hk.lt_limit
    have hmake : BlockRange.ofLength start count = .ok ⟨start, start + count⟩ := by
      rw [BlockRange.ofLength, if_pos hend, BlockRange.make_of_lt hlegal.start_lt]
    simp only [RangeLock.candidate, hs.between_iff.mpr hc, hroom, hs₁.between_iff.mpr hst, hmake,
      bind, Except.bind, pure, Except.pure]

theorem tryCandidates_add (k : RangeLock) (a b : Nat) (s : Source) :
    k.tryCandidates (a + b) s = (do
      match ← k.tryCandidates a s with
      | (some g, s) => return (some g, s)
      | (none, s) => k.tryCandidates b s) := by
  induction a generalizing s with
  | zero => rw [Nat.zero_add]; rfl
  | succ a ih =>
    rw [Nat.succ_add]
    simp only [tryCandidates]
    cases k.candidate s with
    | error f => rfl
    | ok p =>
      simp only [bind, Except.bind]
      split
      · exact ih p.2
      · cases k.grant p.1 with
        | error f => rfl
        | ok g => rfl

/-- The rounds neither skip a candidate nor try one again. -/
theorem tryRounds_eq (k : RangeLock) (rounds : Nat) (s : Source) :
    k.tryRounds rounds s = (do
      match ← k.tryCandidates (attempts * rounds) s with
      | (some (l, k), s) => return (l, k, s)
      | (none, _) => throw .exhausted) := by
  induction rounds generalizing s with
  | zero => rfl
  | succ rounds ih =>
    rw [Nat.mul_succ, Nat.add_comm (attempts * rounds), tryCandidates_add, tryRounds]
    cases k.tryCandidates attempts s with
    | error f => rfl
    | ok p =>
      obtain ⟨g, s₁⟩ := p
      cases g with
      | none => exact ih s₁
      | some g => rfl

theorem acquire_eq_ok : k.acquire s = .ok (l, k', s') ↔
    k.tryCandidates (attempts * (s.supply + 1)) s = .ok (some (l, k'), s') := by
  rw [acquire, tryRounds_eq]
  cases k.tryCandidates (attempts * (s.supply + 1)) s with
  | error f => simp [bind, Except.bind]
  | ok p =>
    obtain ⟨g, s₁⟩ := p
    cases g with
    | none => simp [bind, Except.bind, throw, throwThe, MonadExceptOf.throw]
    | some g => simp [bind, Except.bind, pure, Except.pure, Prod.ext_iff, and_assoc]

/-- The first candidate that overlaps no active range is `r`, and leaves `s'`. -/
def Offers (k : RangeLock) (s : Source) (r : BlockRange) (s' : Source) : Prop :=
  ∃ passed, First (Proposes k.nBlocks k.maxBlocks) (k.active.overlaps · = false) passed s r s'

theorem Shaped.tryCandidates_of_first (hk : k.Shaped) (hs : s.Sound)
    (h : First (Proposes k.nBlocks k.maxBlocks) (k.active.overlaps · = false) i s r s')
    (hi : i < tries) : k.tryCandidates tries s =
      .ok (some (⟨r, k.priorOf r⟩, { k with active := k.active.insert r }), s') := by
  induction h generalizing tries with
  | here h hfree =>
    obtain ⟨tries, rfl⟩ := Nat.exists_eq_succ_of_ne_zero (Nat.ne_of_gt hi)
    have hstop := (h.legal k.maxBlocks_pos k.maxBlocks_le).stop_le
    simp only [RangeLock.tryCandidates, (hk.candidate_iff hs).mpr h, hfree, hk.grant_eq hstop,
      bind, Except.bind, pure, Except.pure, Bool.false_eq_true, if_false]
  | later h hover _ ih =>
    obtain ⟨tries, rfl⟩ := Nat.exists_eq_succ_of_ne_zero (Nat.ne_zero_of_lt hi)
    have hs₁ := hs.of_takes ((drawing_proposes _ _).takes h)
    rw [Bool.not_eq_false] at hover
    simp only [RangeLock.tryCandidates, (hk.candidate_iff hs).mpr h, hover, bind, Except.bind,
      if_true]
    exact ih hs₁ (Nat.lt_of_succ_lt_succ hi)

theorem Shaped.offers_of_tryCandidates (hk : k.Shaped)
    (h : k.tryCandidates tries s = .ok (some (l, k'), s')) :
    k.Offers s l.range s' ∧ k.Granted l k' := by
  induction tries generalizing s with
  | zero => cases h
  | succ tries ih =>
    obtain ⟨⟨r, s₁⟩, hc, h⟩ := bind_eq_ok h
    have hp := proposes_of_candidate hc
    have hlegal := hp.legal k.maxBlocks_pos k.maxBlocks_le
    dsimp only at h
    split at h
    · rename_i hover
      obtain ⟨⟨passed, hf⟩, hg⟩ := ih h
      exact ⟨⟨passed + 1, .later hp (by rw [hover]; nofun) hf⟩, hg⟩
    · rename_i hfree
      rw [Bool.not_eq_true] at hfree
      rw [hk.grant_eq hlegal.stop_le] at h
      cases h
      exact ⟨⟨0, .here hp hfree⟩, ⟨hlegal.start_lt, hlegal.stop_le⟩, hfree, rfl, rfl⟩

/-- What is granted is the first candidate that overlaps no active range, and the words of the
candidates up to that one are taken. -/
theorem Shaped.acquire_iff (hk : k.Shaped) (hs : s.Sound) :
    k.acquire s = .ok (l, k', s') ↔ k.Offers s l.range s' ∧ k.Granted l k' := by
  rw [acquire_eq_ok]
  constructor
  · exact hk.offers_of_tryCandidates
  · rintro ⟨⟨passed, hf⟩, hg⟩
    have hsupply := hf.lt_supply (drawing_proposes _ _) hs
    have htries : passed < attempts * (s.supply + 1) := by
      rw [attempts]
      omega
    have hl : l = ⟨l.range, k.priorOf l.range⟩ := by rw [← hg.prior]
    rw [hk.tryCandidates_of_first hs hf htries, ← hl, ← hg.after]

theorem Offers.legal (h : k.Offers s r s') : Legal k.nBlocks k.maxBlocks r := by
  obtain ⟨passed, hf⟩ := h
  obtain ⟨t, hp⟩ := hf.exists_drawn
  exact hp.legal k.maxBlocks_pos k.maxBlocks_le

theorem Offers.free (h : k.Offers s r s') : k.active.overlaps r = false := by
  obtain ⟨passed, hf⟩ := h
  exact hf.prop

theorem Shaped.acquire_of_offers (hk : k.Shaped) (hs : s.Sound) (h : k.Offers s r s') :
    ∃ l k', k.acquire s = .ok (l, k', s') ∧ l.range = r := by
  have hlegal := h.legal
  have hg : k.Granted ⟨r, k.priorOf r⟩ { k with active := k.active.insert r } :=
    ⟨⟨hlegal.start_lt, hlegal.stop_le⟩, h.free, rfl, rfl⟩
  exact ⟨_, _, (hk.acquire_iff hs).mpr ⟨h, hg⟩, rfl⟩

theorem Shaped.acquire_legal (hk : k.Shaped) (s : Source) :
    k.acquire s = .error .exhausted ∨ ∃ l k' s', k.acquire s = .ok (l, k', s') ∧
      Legal k.nBlocks k.maxBlocks l.range ∧ k.Granted l k' := by
  rcases hk.acquire s with he | ⟨l, k', s', he, hg⟩
  · exact .inl he
  · have ho := (hk.offers_of_tryCandidates (acquire_eq_ok.mp he)).1
    exact .inr ⟨l, k', s', he, ho.legal, hg⟩

theorem Shaped.exists_offers (hk : k.Shaped) (hr : Legal k.nBlocks k.maxBlocks r)
    (hfree : k.active.overlaps r = false) :
    ∃ ws : List UInt32, ∀ rest, k.Offers (.words (ws ++ rest)) r (.words rest) := by
  obtain ⟨ws, hws⟩ := hr.exists_proposes k.maxBlocks_le hk.lt_limit
  exact ⟨ws, fun rest => ⟨0, .here (hws rest) hfree⟩⟩

/-- What is granted is the first candidate that is let through, and the words of the candidates up
to that one are taken, however many rounds it needs.  It is legal, and nothing on the way overflows;
and every legal range that overlaps no active one is granted for some words.  As long as no range
without a block was granted, the candidates that are let through are those that overlap no active
range, which hold no block of a lease; ranges that are claimed as they are made all hold a block. -/
theorem acquire_first_free (hk : make n m = .ok k) (calls : List Call) :
    let h := (History.new k).play calls
    let most := min (max 1 m) n
    (∀ s : Source, s.Sound → ∀ r s',
        (∃ l lock, h.lock.acquire s = .ok (l, lock, s') ∧ l.range = r) ↔
          ∃ passed, First (Proposes n most) (h.lock.active.overlaps · = false) passed s r s') ∧
      (∀ s, h.lock.acquire s = .error .exhausted ∨ ∃ l lock s',
        h.lock.acquire s = .ok (l, lock, s') ∧ Legal n most l.range ∧ h.lock.Granted l lock) ∧
      (∀ r, Legal n most r → (∀ a ∈ h.lock.active, a.overlaps r = false) →
        ∃ ws : List UInt32, ∀ rest, ∃ l lock,
          h.lock.acquire (.words (ws ++ rest)) = .ok (l, lock, .words rest) ∧ l.range = r) ∧
      ((∀ c ∈ calls, c.Proper) → h.Filled) ∧
      (h.Filled →
        (∀ s : Source, s.Sound → ∀ r s',
          (∃ l lock, h.lock.acquire s = .ok (l, lock, s') ∧ l.range = r) ↔
            ∃ passed, First (Proposes n most) (fun r => ∀ a ∈ h.lock.active, a.overlaps r = false)
              passed s r s') ∧
        ∀ r, Legal n most r →
          (h.lock.active.overlaps r = false ↔ ∀ a ∈ h.lock.active, a.overlaps r = false) ∧
          (h.lock.active.overlaps r = false ↔ ¬ ∃ b ∈ r.blocks, h.Leased b)) := by
  intro h most
  have hnew := History.sound_new hk
  have hsn := History.shaped_new hk
  have hsh : h.Shaped n := hsn.play calls
  have hmost : h.lock.maxBlocks = most := maxBlocks_play hk calls
  simp only [← hmost, ← hsh.nBlocks]
  have hgrants (s : Source) (hs : s.Sound) (r : BlockRange) (s' : Source) :
      (∃ l lock, h.lock.acquire s = .ok (l, lock, s') ∧ l.range = r) ↔ h.lock.Offers s r s' := by
    constructor
    · rintro ⟨l, lock, he, rfl⟩
      exact ((hsh.lock.acquire_iff hs).mp he).1
    · exact hsh.lock.acquire_of_offers hs
  refine ⟨hgrants, hsh.lock.acquire_legal, ?_, hsn.filled_play nofun, ?_⟩
  · intro r hr hclear
    obtain ⟨ws, hws⟩ := hsh.lock.exists_offers hr (Active.overlaps_of_clear hclear)
    exact ⟨ws, fun rest => hsh.lock.acquire_of_offers trivial (hws rest)⟩
  · intro hf
    have hs : h.Sound := hnew.play_of_filled hsn hf
    have hclear (r : BlockRange) : h.lock.active.overlaps r = false ↔
        ∀ a ∈ h.lock.active, a.overlaps r = false := by
      rw [← hs.clear_iff]
      simp only [BlockRange.overlaps_eq_false]
    constructor
    · intro s hsound r s'
      rw [hgrants s hsound]
      exact exists_congr fun passed => First.congr fun _ => hclear _
    · intro r hr
      refine ⟨hclear r, ?_⟩
      rw [← hs.overlaps_iff_leased hr.start_lt, Bool.not_eq_true]

/-- Nine candidates overlap the only lease, and the tenth is granted; so could the last block be.
Sources made from a seed are no different. -/
theorem acquire_first_free_of_four : ∃ k, make 4 2 = .ok k ∧
    let calls : List Call := [.claim ⟨0, 2⟩]
    let h := (History.new k).play calls
    let s : Source := .words
      (List.replicate 36 0 ++ [0, 2147483648, 2863311531, 2863311530, 7])
    (∀ c ∈ calls, c.Proper) ∧ h.Filled ∧ s.Sound ∧
      (∃ l lock, h.lock.acquire s = .ok (l, lock, .words [7]) ∧ l.range = ⟨2, 4⟩) ∧
      (∃ passed, First (Proposes 4 2) (fun r => ∀ a ∈ h.lock.active, a.overlaps r = false) passed s
        ⟨2, 4⟩ (.words [7])) ∧
      (∀ seed r s', (∃ l lock, h.lock.acquire (.ofSeed seed) = .ok (l, lock, s') ∧ l.range = r) ↔
        ∃ passed, First (Proposes 4 2) (fun r => ∀ a ∈ h.lock.active, a.overlaps r = false) passed
          (.ofSeed seed) r s') ∧
      (¬ ∃ b ∈ BlockRange.blocks ⟨3, 4⟩, h.Leased b) ∧
      ∃ ws : List UInt32, ∀ rest, ∃ l lock,
        h.lock.acquire (.words (ws ++ rest)) = .ok (l, lock, .words rest) ∧ l.range = ⟨3, 4⟩ := by
  refine ⟨_, rfl, ?_⟩
  intro calls h s
  have hfirst := acquire_first_free (n := 4) (m := 2) rfl calls
  have hc : ∀ c ∈ calls, c.Proper := by simp [calls, Call.Proper]
  have hf : h.Filled := hfirst.2.2.2.1 hc
  have hsound : s.Sound := trivial
  have hrun : (h.lock.acquire s).map (fun p => (p.1.range, p.2.2)) =
      .ok (⟨2, 4⟩, .words [7]) := by
    decide +kernel
  obtain ⟨⟨l, lock, s'⟩, he, hl⟩ := map_eq_ok hrun
  obtain ⟨hr, rfl⟩ := Prod.mk.inj hl
  have hgot : ∃ l lock, h.lock.acquire s = .ok (l, lock, .words [7]) ∧ l.range = ⟨2, 4⟩ :=
    ⟨l, lock, he, hr⟩
  have hlast : Legal 4 2 ⟨3, 4⟩ := ⟨by decide, by decide, by decide⟩
  have ha : h.lock.active = [⟨0, 2⟩] := by decide +kernel
  have hclear : ∀ a ∈ h.lock.active, a.overlaps ⟨3, 4⟩ = false := by
    rw [ha]
    decide
  have hfilled := hfirst.2.2.2.2 hf
  have hoverlap := hfilled.2 _ hlast
  have hunleased := hoverlap.2.mp (hoverlap.1.mpr hclear)
  exact ⟨hc, hf, hsound, hgot, (hfilled.1 s hsound _ _).mp hgot,
    fun seed => hfilled.1 _ (Source.sound_ofSeed seed), hunleased, hfirst.2.2.1 _ hlast hclear⟩

end Readback.RangeLock
