import Readback.Proofs.RangeLock.Claim

namespace Readback.RangeLock

namespace History

/-- What becomes of a lock to which a lease is given back that another lock may have granted. -/
def offer (h : History) (l : Lease) (states : List BlockState) (verified : List Nat) : History :=
  match h.lock.release l states verified with
  | .ok (_, lock) => { h with lock }
  | .error _ => h

/-- All that a lock looks at when a lease is given back. -/
structure Accepts (h : History) (l : Lease) (states : List BlockState) (verified : List Nat) :
    Prop where
  ordered : l.range.start ≤ l.range.stop
  active : l.range ∈ h.lock.active
  states : states.length = l.prior.length
  verified : ∀ b ∈ verified, b ∈ l.range.blocks

section Offer

variable {n n' : Nat} {h h' : History} {t : Nat} {l : Lease}
variable {states : List BlockState} {verified : List Nat}

/-- A lease that any lock granted is taken for one's own if it looks like it. -/
theorem Shaped.accepts_iff (hs : h.Shaped n) (hs' : h'.Shaped n')
    (hl : .granted t l ∈ h'.log) (hle : l.range.start ≤ l.range.stop) :
    h.Accepts l states verified ↔
      h.lock.objection? l.range (l.range.stop - l.range.start) states verified = none := by
  have hlen : l.prior.length = l.range.stop - l.range.start := by
    rw [hs'.prior t l hl, BlockRange.length_blocks]
  rw [objection?_eq_none hs.lock]
  constructor
  · intro ha
    exact ⟨ha.states.trans hlen, ha.verified, ha.active⟩
  · rintro ⟨hst, hv, hm⟩
    exact ⟨hle, hm, hst.trans hlen.symm, hv⟩

theorem Shaped.refuses {k : RangeLock} (hk : k.Shaped) (hle : l.range.start ≤ l.range.stop)
    (hm : l.range ∉ k.active) :
    ∃ v : Violation, k.release l states verified = .error (.error v.error) := by
  rcases hk.release hle states verified with ⟨v, -, he⟩ | ⟨ho, -⟩
  · exact ⟨v, he⟩
  · exact absurd ((objection?_eq_none hk).mp ho).2.2 hm

end Offer

theorem Shaped.regain {n : Nat} {h : History} (hs : h.Shaped n) {l : Lease}
    {states : List BlockState} {lock : RangeLock} (hr : h.lock.Settled l states lock) :
    Shaped n { h with lock } := by
  refine ⟨hr.shaped, hr.nBlocks.trans hs.nBlocks, hs.within, hs.prior, fun r hm => ?_⟩
  rw [hr.active, Active.mem_erase] at hm
  exact hs.owned r hm.1

end History

variable {n m n' m' : Nat} {a b : RangeLock}

/-- A lease of another lock is refused, and nothing changes, unless the lock itself has one of that
very range out.  Then it is taken back in the place of that one, which cannot be given back any
more. -/
theorem release_foreign_iff (ha : make n m = .ok a) (hb : make n' m' = .ok b)
    (callsA callsB : List Call) {t : Nat} {l : Lease}
    (hl : .granted t l ∈ ((History.new b).play callsB).log)
    (states : List BlockState) (verified : List Nat) :
    let h := (History.new a).play callsA
    let h' := h.offer l states verified
    (¬ h.Accepts l states verified → h' = h ∧
        (l.range.start ≤ l.range.stop →
          ∃ v : Violation, h.lock.release l states verified = .error (.error v.error))) ∧
      (h.Accepts l states verified →
        (∃ newly, h.lock.release l states verified = .ok (newly, h'.lock)) ∧
        l.range ∉ h'.lock.active ∧
        ∃ p ∈ outstanding h'.log, p.2.range = l.range ∧
          ∀ states' verified', ∃ v : Violation,
            h'.lock.release p.2 states' verified' = .error (.error v.error)) := by
  intro h h'
  have hs : h.Shaped n := (History.shaped_new ha).play callsA
  have hs' := (History.shaped_new hb).play callsB
  by_cases hle : l.range.start ≤ l.range.stop
  · have hiff : h.Accepts l states verified ↔ _ := hs.accepts_iff hs' hl hle
    rcases hs.lock.release hle states verified with ⟨v, ho, he⟩ | ⟨ho, newly, lock, he, hr⟩
    · have hoff : h' = h := by simp only [h', History.offer, he]
      refine ⟨fun _ => ⟨hoff, fun _ => ⟨v, he⟩⟩, fun hacc => ?_⟩
      rw [hiff.mp hacc] at ho
      cases ho
    · have hoff : h' = { h with lock } := by simp only [h', History.offer, he]
      refine ⟨fun hn => absurd (hiff.mpr ho) hn, fun _ => ?_⟩
      obtain ⟨p, hp, hpr⟩ := hs.owned _ hr.mem
      rw [hoff]
      refine ⟨⟨newly, he⟩, hr.not_mem, p, hp, hpr, fun states' verified' => ?_⟩
      exact History.Shaped.refuses hr.shaped (hpr ▸ hle) (hpr ▸ hr.not_mem)
  · have he := release_of_lt (k := h.lock) (Nat.lt_of_not_le hle) states verified
    have hoff : h' = h := by simp only [h', History.offer, he]
    exact ⟨fun _ => ⟨hoff, fun h => absurd h hle⟩, fun hacc => absurd hacc.ordered hle⟩

/-- A lease that is part of one's own is refused. -/
theorem release_foreign_of_part : ∃ a b, make 8 8 = .ok a ∧ make 8 8 = .ok b ∧
    let h := (History.new a).play [.claim ⟨0, 3⟩]
    let other := (History.new b).play [.claim ⟨0, 2⟩]
    let l : Lease := ⟨⟨0, 2⟩, [none, none]⟩
    .granted 0 l ∈ other.log ∧
      h.offer l [some .duplicate, some .duplicate] [1] = h ∧
      ∃ v : Violation, h.lock.release l [some .duplicate, some .duplicate] [1] =
        .error (.error v.error) := by
  refine ⟨_, _, rfl, rfl, ?_⟩
  intro h other l
  have hl : .granted 0 l ∈ other.log := List.mem_cons_self
  have hm : l.range ∉ h.lock.active := by decide +kernel
  have hf := (@release_foreign_iff 8 8 8 8 _ _ rfl rfl [.claim ⟨0, 3⟩] [.claim ⟨0, 2⟩] 0 l hl
    [some .duplicate, some .duplicate] [1]).1 fun ha => hm ha.active
  exact ⟨hl, hf.1, hf.2 (by decide)⟩

/-- A lease of another lock frees a range of which one's own lease is still out. -/
theorem foreign_lease_frees_range : ∃ a b, make 8 8 = .ok a ∧ make 8 8 = .ok b ∧
    let h := (History.new a).play [.claim ⟨0, 2⟩]
    let other := (History.new b).play [.claim ⟨0, 2⟩]
    let l : Lease := ⟨⟨0, 2⟩, [none, none]⟩
    let h' := h.offer l [some .duplicate, some .duplicate] [1]
    .granted 0 l ∈ other.log ∧
      outstanding h'.log = [(0, l)] ∧ h.lock.active = [⟨0, 2⟩] ∧ h'.lock.active = [] ∧
      h.lock.covered = 0 ∧ h'.lock.covered = 1 ∧
      h'.lock.table.states[0]? = some (some .duplicate) := by
  refine ⟨_, _, rfl, rfl, ?_⟩
  intro h other l h'
  exact ⟨List.mem_cons_self, by decide +kernel, by decide +kernel, by decide +kernel,
    by decide +kernel, by decide +kernel, by decide +kernel⟩

end Readback.RangeLock
