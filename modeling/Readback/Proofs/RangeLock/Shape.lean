import Readback.Proofs.Except
import Readback.Proofs.Random.Uniform
import Readback.Proofs.RangeLock.Active
import Readback.Proofs.StateTable

namespace Readback

namespace RangeLock

structure Shaped (k : RangeLock) : Prop where
  table : k.table.Sized k.nBlocks
  small : k.nBlocks ≤ StateTable.maxSize
  within : ∀ r ∈ k.active, r.stop ≤ k.nBlocks
  sorted : k.active.Sorted

theorem Shaped.lt_limit {k : RangeLock} (h : k.Shaped) : k.nBlocks < Word.limit := by
  have := h.small
  simp only [StateTable.maxSize, Bytes.limit] at this
  simp only [Word.limit]
  omega

def Fits (k : RangeLock) (r : BlockRange) : Prop :=
  r.start < r.stop ∧ r.stop ≤ k.nBlocks

theorem Shaped.candidate {k : RangeLock} (hk : k.Shaped) (s : Source) :
    k.candidate s = .error .exhausted ∨ ∃ r s', k.candidate s = .ok (r, s') ∧ k.Fits r := by
  have hpos := k.maxBlocks_pos
  have hle := k.maxBlocks_le
  unfold RangeLock.candidate
  cases hc : s.between .word64 1 k.maxBlocks with
  | none => exact .inl rfl
  | some p =>
    obtain ⟨count, s₁⟩ := p
    obtain ⟨hc₁, hc₂⟩ := Source.between_mem hpos hc
    have hroom : Word.sub k.nBlocks count = .ok (k.nBlocks - count) :=
      Word.sub_of_le (by omega)
    simp only [hroom, bind, Except.bind]
    cases hst : s₁.between .word64 0 (k.nBlocks - count) with
    | none => exact .inl rfl
    | some q =>
      obtain ⟨start, s₂⟩ := q
      obtain ⟨-, hst₂⟩ := Source.between_mem (Nat.zero_le _) hst
      have hlimit := hk.lt_limit
      have hr : BlockRange.ofLength start count = .ok ⟨start, start + count⟩ := by
        rw [BlockRange.ofLength, if_pos (by omega), BlockRange.make_of_lt (by omega)]
      simp only [hr]
      exact .inr ⟨_, _, rfl, by simp only [Fits]; omega⟩

def priorOf (k : RangeLock) (r : BlockRange) : List BlockState :=
  r.blocks.map k.table.stateAt

theorem mapM_get {n : Nat} {t : StateTable} (ht : t.Sized n) {blocks : List Nat}
    (h : ∀ b ∈ blocks, b < n) : blocks.mapM t.get = .ok (blocks.map t.stateAt) :=
  mapM_eq_ok fun b hb => StateTable.get_eq (ht.states.symm ▸ h b hb)

/-- A lease for a range that may hold no block, and the lock that entered it before and after. -/
structure Entered (k : RangeLock) (l : Lease) (k' : RangeLock) : Prop where
  within : l.range.stop ≤ k.nBlocks
  free : k.active.overlaps l.range = false
  prior : l.prior = k.priorOf l.range
  after : k' = { k with active := k.active.insert l.range }

theorem Entered.length_prior {k k' : RangeLock} {l : Lease} (h : k.Entered l k') :
    l.prior.length = l.range.blocks.length := by
  rw [h.prior, priorOf, List.length_map]

theorem Entered.shaped {k k' : RangeLock} {l : Lease} (h : k.Entered l k') (hk : k.Shaped) :
    k'.Shaped := by
  rw [h.after]
  refine ⟨hk.table, hk.small, fun r hr => ?_, hk.sorted.insert l.range⟩
  rcases Active.mem_of_mem_insert hr with rfl | hr
  · exact h.within
  · exact hk.within r hr

/-- A lease that was granted, and the lock that granted it before and after. -/
structure Granted (k : RangeLock) (l : Lease) (k' : RangeLock) : Prop where
  fits : k.Fits l.range
  free : k.active.overlaps l.range = false
  prior : l.prior = k.priorOf l.range
  after : k' = { k with active := k.active.insert l.range }

theorem Granted.entered {k k' : RangeLock} {l : Lease} (h : k.Granted l k') : k.Entered l k' :=
  ⟨h.fits.2, h.free, h.prior, h.after⟩

theorem Entered.granted {k k' : RangeLock} {l : Lease} (h : k.Entered l k')
    (hl : l.range.start < l.range.stop) : k.Granted l k' :=
  ⟨⟨hl, h.within⟩, h.free, h.prior, h.after⟩

theorem Shaped.grant_eq {k : RangeLock} (hk : k.Shaped) {r : BlockRange} (hr : r.stop ≤ k.nBlocks) :
    k.grant r = .ok (⟨r, k.priorOf r⟩, { k with active := k.active.insert r }) := by
  have hb (b : Nat) (h : b ∈ r.blocks) : b < k.nBlocks :=
    Nat.lt_of_lt_of_le (BlockRange.mem_blocks.mp h).2 hr
  rw [grant, mapM_get hk.table hb]
  rfl

theorem Shaped.tryCandidates {k : RangeLock} (hk : k.Shaped) (tries : Nat) (s : Source) :
    k.tryCandidates tries s = .error .exhausted ∨
      (∃ s', k.tryCandidates tries s = .ok (none, s')) ∨
      ∃ l k' s', k.tryCandidates tries s = .ok (some (l, k'), s') ∧ k.Granted l k' := by
  induction tries generalizing s with
  | zero => exact .inr (.inl ⟨s, rfl⟩)
  | succ tries ih =>
    rcases hk.candidate s with hc | ⟨r, s₁, hc, hr⟩
    · exact .inl (by simp [RangeLock.tryCandidates, hc, bind, Except.bind])
    · simp only [RangeLock.tryCandidates, hc, bind, Except.bind]
      cases ho : k.active.overlaps r with
      | true => exact ih s₁
      | false =>
        rw [if_neg Bool.false_ne_true, hk.grant_eq hr.2]
        exact .inr (.inr ⟨_, _, s₁, rfl, hr, ho, rfl, rfl⟩)

theorem Shaped.tryRounds {k : RangeLock} (hk : k.Shaped) (rounds : Nat) (s : Source) :
    k.tryRounds rounds s = .error .exhausted ∨
      ∃ l k' s', k.tryRounds rounds s = .ok (l, k', s') ∧ k.Granted l k' := by
  induction rounds generalizing s with
  | zero => exact .inl rfl
  | succ rounds ih =>
    rcases hk.tryCandidates attempts s with h | ⟨s₁, h⟩ | ⟨l, k', s₁, h, hg⟩
    · exact .inl (by simp [RangeLock.tryRounds, h, bind, Except.bind])
    · simp only [RangeLock.tryRounds, h, bind, Except.bind]
      exact ih s₁
    · exact .inr ⟨l, k', s₁, by simp [RangeLock.tryRounds, h, bind, Except.bind, pure,
        Except.pure], hg⟩

theorem Shaped.acquire {k : RangeLock} (hk : k.Shaped) (s : Source) :
    k.acquire s = .error .exhausted ∨
      ∃ l k' s', k.acquire s = .ok (l, k', s') ∧ k.Granted l k' :=
  hk.tryRounds _ s

/-- A claim is an error if it leads past the end, is refused if it overlaps, and goes through
otherwise. -/
theorem Shaped.claim {k : RangeLock} (hk : k.Shaped) (r : BlockRange) :
    (k.nBlocks < r.stop ∧
        k.claim r = .error (.error (Violation.pastEnd r (k.nBlocks - 1)).error)) ∨
      (r.stop ≤ k.nBlocks ∧ k.active.overlaps r = true ∧ k.claim r = .ok none) ∨
      ∃ l k', k.claim r = .ok (some (l, k')) ∧ k.Entered l k' ∧ l.range = r := by
  by_cases hn : k.nBlocks < r.stop
  · exact .inl ⟨hn, if_pos hn⟩
  have hle := Nat.le_of_not_lt hn
  rw [RangeLock.claim, if_neg hn]
  cases ho : k.active.overlaps r with
  | true => exact .inr (.inl ⟨hle, rfl, rfl⟩)
  | false =>
    rw [if_neg Bool.false_ne_true, hk.grant_eq hle]
    exact .inr (.inr ⟨_, _, rfl, ⟨hle, ho, rfl, rfl⟩, rfl⟩)

/-- A lease was given back with the new states of its blocks: the lock before and after. -/
structure Settled (k : RangeLock) (l : Lease) (states : List BlockState) (k' : RangeLock) :
    Prop where
  mem : l.range ∈ k.active
  length : states.length = l.range.stop - l.range.start
  shaped : k'.Shaped
  nBlocks : k'.nBlocks = k.nBlocks
  active : k'.active = k.active.erase l.range.start
  stateAt : ∀ b, k'.table.stateAt b =
    if b ∈ l.range.blocks then states.getD (b - l.range.start) none else k.table.stateAt b

theorem Settled.not_mem {k k' : RangeLock} {l : Lease} {states : List BlockState}
    (h : k.Settled l states k') : l.range ∉ k'.active := by
  rw [h.active, Active.mem_erase]
  exact fun hm => hm.2 rfl

theorem objection?_eq_none {k : RangeLock} (hk : k.Shaped) {r : BlockRange} {length : Nat}
    {states : List BlockState} {verified : List Nat} :
    k.objection? r length states verified = none ↔
      states.length = length ∧ (∀ b ∈ verified, b ∈ r.blocks) ∧ r ∈ k.active := by
  unfold objection?
  by_cases hlen : states.length = length
  · rw [if_neg (not_not_intro hlen)]
    cases hf : verified.find? fun b => !r.contains b with
    | some b =>
      have hb : b ∉ r.blocks := by
        have hc := List.find?_some hf
        rwa [Bool.not_eq_true', ← Bool.not_eq_true, BlockRange.contains_iff] at hc
      have hm : b ∈ verified := List.mem_of_find?_eq_some hf
      exact ⟨nofun, fun h => absurd (h.2.1 b hm) hb⟩
    | none =>
      have hv : ∀ b ∈ verified, b ∈ r.blocks := by
        simpa [BlockRange.contains_iff] using hf
      by_cases ha : k.active.startingAt? r.start = some r
      · rw [if_pos ha]
        exact ⟨fun _ => ⟨hlen, hv, hk.sorted.startingAt?_eq_some.mp ha⟩, fun _ => rfl⟩
      · rw [if_neg ha]
        exact ⟨nofun, fun h => absurd (hk.sorted.startingAt?_eq_some.mpr h.2.2) ha⟩
  · rw [if_pos hlen]
    exact ⟨nofun, fun h => absurd h.1 hlen⟩

theorem Shaped.release {k : RangeLock} (hk : k.Shaped) {l : Lease}
    (hl : l.range.start ≤ l.range.stop) (states : List BlockState) (verified : List Nat) :
    (∃ v, k.objection? l.range (l.range.stop - l.range.start) states verified = some v ∧
        k.release l states verified = .error (.error v.error)) ∨
      k.objection? l.range (l.range.stop - l.range.start) states verified = none ∧
        ∃ newly k', k.release l states verified = .ok (newly, k') ∧ k.Settled l states k' := by
  have hlen : l.range.length = .ok (l.range.stop - l.range.start) := Word.sub_of_le hl
  cases ho : k.objection? l.range (l.range.stop - l.range.start) states verified with
  | some v =>
    refine .inl ⟨v, rfl, ?_⟩
    simp only [RangeLock.release, hlen, mapError_ok, bind, Except.bind, ho]
    rfl
  | none =>
    obtain ⟨hs, hv, hm⟩ := (objection?_eq_none hk).mp ho
    have hstop := hk.within _ hm
    obtain ⟨t₁, h₁, ht₁, hst⟩ :=
      StateTable.storeStates_range' states hk.table (show l.range.start + _ ≤ k.nBlocks by omega)
    obtain ⟨newly, t₂, h₂, ht₂, he₂⟩ := StateTable.markAll_ok verified ht₁ fun b hb =>
      Nat.lt_of_lt_of_le (BlockRange.mem_blocks.mp (hv b hb)).2 hstop
    have hb : l.range.blocks = List.range' l.range.start states.length := by
      rw [BlockRange.blocks, hs]
    refine .inr ⟨rfl, newly,
      { k with table := t₂, active := k.active.erase l.range.start }, ?_, ?_⟩
    · simp only [RangeLock.release, hlen, mapError_ok, bind, Except.bind, ho, hb, h₁, h₂]
      rfl
    · refine ⟨hm, hs, ⟨ht₂, hk.small, fun r hr => ?_, hk.sorted.erase _⟩, rfl, rfl, fun b => ?_⟩
      · exact hk.within r (Active.mem_erase.mp hr).1
      have hmem : b ∈ l.range.blocks ↔
          l.range.start ≤ b ∧ b < l.range.start + states.length := by
        rw [BlockRange.mem_blocks]
        omega
      have hsame : t₂.stateAt b = t₁.stateAt b := by rw [StateTable.stateAt, he₂]; rfl
      simp only [hmem, hsame, hst b]

theorem release_of_lt {k : RangeLock} {l : Lease} (hl : l.range.stop < l.range.start)
    (states : List BlockState) (verified : List Nat) :
    k.release l states verified = .error (.fault .overflow) := by
  have hlen : l.range.length = .error .overflow := if_neg (Nat.not_le_of_lt hl)
  simp only [RangeLock.release, hlen, mapError_error, bind, Except.bind]

/-- A release goes through if and only if every check does. -/
theorem Shaped.release_ok_iff {k : RangeLock} (hk : k.Shaped) {l : Lease}
    {states : List BlockState} {verified : List Nat} :
    (∃ p, k.release l states verified = .ok p) ↔
      l.range.length = .ok states.length ∧ (∀ b ∈ verified, b ∈ l.range.blocks) ∧
        l.range ∈ k.active := by
  by_cases hle : l.range.start ≤ l.range.stop
  · have hlen : l.range.length = .ok (l.range.stop - l.range.start) := Word.sub_of_le hle
    rw [hlen, Except.ok.injEq, eq_comm, ← objection?_eq_none hk]
    rcases hk.release hle states verified with ⟨v, ho, he⟩ | ⟨ho, newly, k', he, -⟩
    · simp [ho, he]
    · simp [ho, he]
  · have hlt := Nat.lt_of_not_le hle
    have hlen : l.range.length = .error .overflow := if_neg hle
    simp [release_of_lt hlt, hlen]

theorem Shaped.settled {k k' : RangeLock} (hk : k.Shaped) {l : Lease} {states : List BlockState}
    {verified : List Nat} {newly : Nat} (h : k.release l states verified = .ok (newly, k')) :
    k.Settled l states k' := by
  obtain ⟨hlen, -, -⟩ := hk.release_ok_iff.mp ⟨_, h⟩
  have hle : l.range.start ≤ l.range.stop := (Word.eq_of_sub hlen).2
  rcases hk.release hle states verified with ⟨v, -, he⟩ | ⟨-, newly', k₁, he, hs⟩
  · rw [h] at he
    cases he
  · rw [h] at he
    cases he
    exact hs

theorem mapM_make_eq {rs : List BlockRange} (h : ∀ r ∈ rs, r.start < r.stop) :
    rs.mapM (fun r => BlockRange.make r.start r.stop) = .ok rs := by
  induction rs with
  | nil => rfl
  | cons r rest ih =>
    have hr := BlockRange.make_of_lt (h r List.mem_cons_self)
    rw [List.mapM_cons, hr, ih fun s hs => h s (List.mem_cons_of_mem _ hs)]
    rfl

theorem mapM_make_ne_ok {rs : List BlockRange} {r : BlockRange} (hr : r ∈ rs)
    (he : r.stop ≤ r.start) (out : List BlockRange) :
    rs.mapM (fun r => BlockRange.make r.start r.stop) ≠ .ok out := by
  induction rs generalizing out with
  | nil => cases hr
  | cons s rest ih =>
    intro h
    rw [List.mapM_cons] at h
    obtain ⟨s', hs, h⟩ := bind_eq_ok h
    obtain ⟨out', ho, -⟩ := bind_eq_ok h
    rcases List.mem_cons.mp hr with rfl | hr
    · rw [BlockRange.make, if_neg (Nat.not_lt_of_ge he)] at hs
      cases hs
    · exact ih hr out' ho

theorem activeLeases_eq {k : RangeLock} (h : ∀ r ∈ k.active, r.start < r.stop) :
    k.activeLeases = .ok k.active :=
  mapM_make_eq h

theorem activeLeases_ne_ok {k : RangeLock} {r : BlockRange} (hr : r ∈ k.active)
    (he : r.stop ≤ r.start) (rs : List BlockRange) : k.activeLeases ≠ .ok rs :=
  mapM_make_ne_ok hr he rs

end RangeLock

end Readback
