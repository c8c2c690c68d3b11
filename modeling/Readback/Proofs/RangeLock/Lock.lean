import Readback.Proofs.RangeLock.Shape

namespace Readback.RangeLock

structure Sound (k : RangeLock) : Prop where
  active : k.active.Sound k.nBlocks
  table : k.table.Sized k.nBlocks
  small : k.nBlocks ≤ StateTable.maxSize

theorem Sound.shaped {k : RangeLock} (h : k.Sound) : k.Shaped :=
  ⟨h.table, h.small, fun r hr => (h.active.proper r hr).2, h.active.sorted⟩

theorem sound_of_make {n m : Nat} {k : RangeLock} (h : make n m = .ok k) :
    k.Sound ∧ k.nBlocks = n ∧ k.active = [] ∧ ∀ b, k.table.stateAt b = none := by
  unfold make at h
  split at h
  · obtain ⟨t, ht, h⟩ := bind_eq_ok h
    cases h
    exact ⟨⟨.nil n, StateTable.sized_of_make ht, StateTable.le_maxSize_of_make ht⟩, rfl, rfl,
      StateTable.stateAt_of_make ht⟩
  · cases h

theorem Sound.lt_limit {k : RangeLock} (h : k.Sound) : k.nBlocks < Word.limit :=
  h.shaped.lt_limit

theorem Sound.insert {k : RangeLock} (hk : k.Sound) {r : BlockRange} (hr : k.Fits r)
    (ho : k.active.overlaps r = false) : Sound { k with active := k.active.insert r } :=
  ⟨hk.active.insert hr.1 hr.2 ho, hk.table, hk.small⟩

theorem Sound.granted {k : RangeLock} (hk : k.Sound) {r : BlockRange} (hr : k.Fits r)
    (ho : k.active.overlaps r = false) {l : Lease} {k' : RangeLock}
    (h : k.grant r = .ok (l, k')) : k.Granted l k' := by
  rw [hk.shaped.grant_eq hr.2] at h
  cases h
  exact ⟨hr, ho, rfl, rfl⟩

theorem Granted.sound {k k' : RangeLock} {l : Lease} (h : k.Granted l k') (hk : k.Sound) :
    k'.Sound := by
  rw [h.after]
  exact hk.insert h.fits h.free

theorem Granted.perm {k k' : RangeLock} {l : Lease} (h : k.Granted l k') (hk : k.Sound) :
    k'.active.Perm (l.range :: k.active) := by
  rw [h.after]
  exact Active.insert_perm fun s hs => hk.active.start_ne h.fits.1 h.free hs

theorem Granted.mem {k k' : RangeLock} {l : Lease} (h : k.Granted l k') (hk : k.Sound)
    {r : BlockRange} : r ∈ k'.active ↔ r = l.range ∨ r ∈ k.active := by
  rw [(h.perm hk).mem_iff, List.mem_cons]

theorem Granted.not_mem {k k' : RangeLock} {l : Lease} (h : k.Granted l k') (hk : k.Sound) :
    l.range ∉ k.active :=
  fun hm => hk.active.start_ne h.fits.1 h.free hm rfl

theorem Granted.disjoint {k k' : RangeLock} {l : Lease} (h : k.Granted l k') (hk : k.Sound)
    {b : Nat} (hb : b ∈ l.range.blocks) {r : BlockRange} (hr : r ∈ k.active) : b ∉ r.blocks := by
  intro hbr
  have hapart := hk.active.not_overlaps h.free hr
  rw [BlockRange.mem_blocks] at hb hbr
  omega

theorem Granted.stateAt {k k' : RangeLock} {l : Lease} (h : k.Granted l k') (b : Nat) :
    k'.table.stateAt b = k.table.stateAt b := by
  rw [h.after]

theorem Granted.priorOf {k k' : RangeLock} {l : Lease} (h : k.Granted l k') (r : BlockRange) :
    k'.priorOf r = k.priorOf r :=
  List.map_congr_left fun b _ => h.stateAt b

theorem Sound.tryCandidates {k : RangeLock} (hk : k.Sound) (tries : Nat) (s : Source) :
    k.tryCandidates tries s = .error .exhausted ∨
      (∃ s', k.tryCandidates tries s = .ok (none, s')) ∨
      ∃ l k' s', k.tryCandidates tries s = .ok (some (l, k'), s') ∧ k.Granted l k' :=
  hk.shaped.tryCandidates tries s

theorem Sound.acquire {k : RangeLock} (hk : k.Sound) (s : Source) :
    k.acquire s = .error .exhausted ∨
      ∃ l k' s', k.acquire s = .ok (l, k', s') ∧ k.Granted l k' :=
  hk.shaped.acquire s

theorem Sound.claim {k : RangeLock} (hk : k.Sound) {r : BlockRange} (hr : r.start < r.stop) :
    (∃ e, k.claim r = .error (.error e)) ∨ k.claim r = .ok none ∨
      ∃ l k', k.claim r = .ok (some (l, k')) ∧ k.Granted l k' ∧ l.range = r := by
  rcases hk.shaped.claim r with ⟨-, he⟩ | ⟨-, -, he⟩ | ⟨l, k', he, hg, rfl⟩
  · exact .inl ⟨_, he⟩
  · exact .inr (.inl he)
  · exact .inr (.inr ⟨l, k', he, hg.granted hr, rfl⟩)

theorem Sound.claim_eq_none_iff {k : RangeLock} (hk : k.Sound) {r : BlockRange}
    (hr : r.stop ≤ k.nBlocks) :
    k.claim r = .ok none ↔ ∃ s ∈ k.active, s.overlaps r = true := by
  rw [← hk.active.overlaps_iff]
  rcases hk.shaped.claim r with ⟨hlt, -⟩ | ⟨-, ho, he⟩ | ⟨l, lock, he, hg, rfl⟩
  · exact absurd hlt (Nat.not_lt_of_ge hr)
  · simp [he, ho]
  · simp [he, hg.free]

/-- A lease that was given back with the new states of its blocks, and the lock that took it back
before and after. -/
structure Released (k : RangeLock) (l : Lease) (states : List BlockState) (k' : RangeLock) :
    Prop where
  mem : l.range ∈ k.active
  length : states.length = l.range.stop - l.range.start
  sound : k'.Sound
  nBlocks : k'.nBlocks = k.nBlocks
  active : k'.active = k.active.erase l.range.start
  stateAt : ∀ b, k'.table.stateAt b =
    if b ∈ l.range.blocks then states.getD (b - l.range.start) none else k.table.stateAt b

theorem Released.perm {k k' : RangeLock} {l : Lease} {states : List BlockState}
    (h : k.Released l states k') (hk : k.Sound) : k.active.Perm (l.range :: k'.active) := by
  rw [h.active]
  exact hk.active.sorted.perm_erase h.mem

theorem Released.mem_active {k k' : RangeLock} {l : Lease} {states : List BlockState}
    (h : k.Released l states k') (hk : k.Sound) {r : BlockRange} :
    r ∈ k'.active ↔ r ∈ k.active ∧ r ≠ l.range := by
  rw [h.active, Active.mem_erase]
  refine and_congr_right fun hr => not_congr ⟨fun he => ?_, fun he => by rw [he]⟩
  exact hk.active.sorted.eq_of_start_eq hr h.mem he

theorem Released.priorOf {k k' : RangeLock} {l : Lease} {states : List BlockState}
    (h : k.Released l states k') (hk : k.Sound) {r : BlockRange} (hr : r ∈ k.active)
    (hne : r ≠ l.range) : k'.priorOf r = k.priorOf r := by
  apply List.map_congr_left
  intro b hb
  rw [h.stateAt, if_neg fun hbl => hne (hk.active.eq_of_mem hr h.mem hb hbl)]

theorem Settled.released {k k' : RangeLock} {l : Lease} {states : List BlockState}
    (h : k.Settled l states k') (hk : k.Sound) : k.Released l states k' := by
  have hsound : k'.Sound := by
    refine ⟨?_, h.shaped.table, h.shaped.small⟩
    rw [h.active, h.nBlocks]
    exact hk.active.erase _
  exact ⟨h.mem, h.length, hsound, h.nBlocks, h.active, h.stateAt⟩

theorem Sound.release {k : RangeLock} (hk : k.Sound) {l : Lease}
    (hl : l.range.start < l.range.stop) (states : List BlockState) (verified : List Nat) :
    (∃ v, k.objection? l.range (l.range.stop - l.range.start) states verified = some v ∧
        k.release l states verified = .error (.error v.error)) ∨
      k.objection? l.range (l.range.stop - l.range.start) states verified = none ∧
        ∃ newly k', k.release l states verified = .ok (newly, k') ∧ k.Released l states k' := by
  refine (hk.shaped.release (Nat.le_of_lt hl) states verified).imp_right ?_
  rintro ⟨ho, newly, k', he, hs⟩
  exact ⟨ho, newly, k', he, hs.released hk⟩

theorem Sound.released {k k' : RangeLock} (hk : k.Sound) {l : Lease}
    (hl : l.range.start < l.range.stop) {states : List BlockState} {verified : List Nat}
    {newly : Nat} (h : k.release l states verified = .ok (newly, k')) :
    k.Released l states k' := by
  rcases hk.release hl states verified with ⟨v, -, he⟩ | ⟨-, m, k₁, he, hr⟩
  · rw [h] at he
    cases he
  · rw [h] at he
    cases he
    exact hr

/-- What a release does to the table depends on the table and on the lease only. -/
theorem Sound.release_like {k₁ k₂ k' : RangeLock} (h₁ : k₁.Sound) (h₂ : k₂.Sound)
    (ht : k₂.table = k₁.table) {l : Lease} {states : List BlockState} {verified : List Nat}
    {newly : Nat} (hm : l.range ∈ k₂.active)
    (h : k₁.release l states verified = .ok (newly, k')) :
    k₂.release l states verified =
      .ok (newly, { k₂ with table := k'.table, active := k₂.active.erase l.range.start }) := by
  obtain ⟨length, hlen, h⟩ := bind_eq_ok h
  cases ho : k₁.objection? l.range length states verified with
  | some v =>
    rw [ho] at h
    cases h
  | none =>
    rw [ho] at h
    obtain ⟨hs, hv, -⟩ := (objection?_eq_none h₁.shaped).mp ho
    have ho₂ := (objection?_eq_none h₂.shaped).mpr ⟨hs, hv, hm⟩
    obtain ⟨t, hst, h⟩ := bind_eq_ok h
    obtain ⟨p, hma, h⟩ := bind_eq_ok h
    cases h
    simp only [RangeLock.release, ht, hlen, ho₂, hst, hma, bind, Except.bind, pure, Except.pure]

theorem Sound.idle {k : RangeLock} (h : k.Sound) : Sound { k with active := [] } :=
  ⟨.nil _, h.table, h.small⟩

theorem Sound.claim_idle {k : RangeLock} (hk : k.Sound) (ha : k.active = []) {r : BlockRange}
    (hr : k.Fits r) :
    k.claim r = .ok (some (⟨r, k.priorOf r⟩, { k with active := [r] })) := by
  have ho : k.active.overlaps r = false := by
    rw [ha]
    rfl
  rw [RangeLock.claim, if_neg (Nat.not_lt_of_ge hr.2), ho, if_neg Bool.false_ne_true,
    hk.shaped.grant_eq hr.2, ha]
  rfl

theorem Sound.checkDisjoint {k : RangeLock} (hk : k.Sound) : k.checkDisjoint = .ok () := by
  rw [RangeLock.checkDisjoint, hk.active.collision?_eq_none]

theorem Sound.activeLeases {k : RangeLock} (hk : k.Sound) : k.activeLeases = .ok k.active :=
  activeLeases_eq fun r hr => (hk.active.proper r hr).1

end Readback.RangeLock
