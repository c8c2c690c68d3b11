import Readback.Proofs.RangeLock.History

namespace Readback.RangeLock

namespace History

theorem granted_of_mem {log : List Deed} {t t' : Nat} {l l' : Lease} {states : List BlockState}
    (h : .granted t l ∈ Deed.returned t' l' states :: log) : .granted t l ∈ log := by
  rcases List.mem_cons.mp h with he | h
  · cases he
  · exact h

/-- What every call keeps true, whatever range it claims. -/
structure Shaped (n : Nat) (h : History) : Prop where
  lock : h.lock.Shaped
  nBlocks : h.lock.nBlocks = n
  within : ∀ t l, .granted t l ∈ h.log → l.range.stop ≤ n
  prior : ∀ t l, .granted t l ∈ h.log → l.prior.length = l.range.blocks.length
  owned : ∀ r ∈ h.lock.active, ∃ p ∈ outstanding h.log, p.2.range = r

theorem shaped_new {n m : Nat} {k : RangeLock} (hk : make n m = .ok k) : (new k).Shaped n := by
  obtain ⟨hs, hn, ha, -⟩ := sound_of_make hk
  refine ⟨hs.shaped, hn, nofun, nofun, fun r hr => ?_⟩
  rw [new, ha] at hr
  cases hr

/-- All that a call can do, whatever range it claims. -/
inductive Reply (h : History) : Except Failure History → Prop
  | enter {l : Lease} {lock : RangeLock} (he : h.lock.Entered l lock) :
      Reply h (.ok (h.grant l lock))
  | settle {t : Nat} {l : Lease} {states : List BlockState} {lock : RangeLock}
      (ho : (t, l) ∈ outstanding h.log) (hr : h.lock.Settled l states lock) :
      Reply h (.ok { h with lock, log := .returned t l states :: h.log })
  | nothing : Reply h (.ok h)
  | failure (f : Failure) : Reply h (.error f)

theorem Shaped.reply {n : Nat} {h : History} (hs : h.Shaped n) (c : Call) :
    h.Reply (h.answer c) := by
  cases c with
  | acquire s =>
    rcases hs.lock.acquire s with he | ⟨l, lock, s', he, hg⟩
    · simp only [answer, he]
      exact .failure _
    · simp only [answer, he]
      exact .enter hg.entered
  | claim r =>
    rcases hs.lock.claim r with ⟨-, he⟩ | ⟨-, -, he⟩ | ⟨l, lock, he, hg, -⟩
    · simp only [answer, he]
      exact .failure _
    · simp only [answer, he]
      exact .nothing
    · simp only [answer, he]
      exact .enter hg
  | release t states verified =>
    cases hf : (outstanding h.log).find? (·.1 = t) with
    | none =>
      simp only [answer, hf]
      exact .nothing
    | some p =>
      obtain ⟨t', l⟩ := p
      have ht : t' = t := by simpa using List.find?_some hf
      have hm : (t, l) ∈ outstanding h.log := ht ▸ List.mem_of_find?_eq_some hf
      by_cases hl : l.range.start ≤ l.range.stop
      · rcases hs.lock.release hl states verified with ⟨v, -, he⟩ | ⟨-, newly, lock, he, hr⟩
        · simp only [answer, hf, he]
          exact .failure _
        · simp only [answer, hf, he]
          exact .settle hm hr
      · simp only [answer, hf, release_of_lt (Nat.lt_of_not_le hl)]
        exact .failure _

theorem Shaped.step {n : Nat} {h : History} (hs : h.Shaped n) (c : Call) :
    (h.step c).Shaped n := by
  have hreply := hs.reply c
  unfold History.step
  generalize h.answer c = x at hreply
  cases hreply with
  | enter he =>
    refine ⟨he.shaped hs.lock, ?_, ?_, ?_, ?_⟩
    · simp only [grant, he.after]
      exact hs.nBlocks
    · intro t l' hm
      rcases List.mem_cons.mp hm with hd | hm
      · cases hd
        exact hs.nBlocks ▸ he.within
      · exact hs.within t l' hm
    · intro t l' hm
      rcases List.mem_cons.mp hm with hd | hm
      · cases hd
        exact he.length_prior
      · exact hs.prior t l' hm
    · intro r hr
      simp only [grant, he.after] at hr
      rcases Active.mem_of_mem_insert hr with rfl | hr
      · exact ⟨_, List.mem_cons_self, rfl⟩
      · obtain ⟨p, hp, hpr⟩ := hs.owned r hr
        exact ⟨p, List.mem_cons_of_mem _ hp, hpr⟩
  | settle ho hr =>
    refine ⟨hr.shaped, hr.nBlocks.trans hs.nBlocks, ?_, ?_, ?_⟩
    · intro t l' hm
      exact hs.within t l' (granted_of_mem hm)
    · intro t l' hm
      exact hs.prior t l' (granted_of_mem hm)
    · intro r hm
      rw [hr.active, Active.mem_erase] at hm
      obtain ⟨p, hp, rfl⟩ := hs.owned r hm.1
      refine ⟨p, (List.mem_erase_of_ne fun he => ?_).mpr hp, rfl⟩
      rw [he] at hm
      exact hm.2 rfl
  | nothing => exact hs
  | failure f => exact hs

theorem Shaped.play {n : Nat} {h : History} (hs : h.Shaped n) (calls : List Call) :
    (h.play calls).Shaped n := by
  induction calls generalizing h with
  | nil => exact hs
  | cons c rest ih => exact ih (hs.step c)

/-- What every grant and every release keeps true of a lock holds of it all the time. -/
theorem Shaped.lock_induction {n : Nat} {h : History} (hs : h.Shaped n) {P : RangeLock → Prop}
    (hP : P h.lock) (henter : ∀ {k l k'}, P k → k.Entered l k' → P k')
    (hrelease : ∀ {k l states verified newly k'}, P k → k.Shaped →
      k.release l states verified = .ok (newly, k') → P k')
    (calls : List Call) : P (h.play calls).lock := by
  induction calls generalizing h with
  | nil => exact hP
  | cons c rest ih =>
    apply ih (hs.step c)
    unfold History.step
    cases c with
    | acquire s =>
      rcases hs.lock.acquire s with he | ⟨l, lock, s', he, hg⟩
      · simp only [answer, he]
        exact hP
      · simp only [answer, he]
        exact henter hP hg.entered
    | claim r =>
      rcases hs.lock.claim r with ⟨-, he⟩ | ⟨-, -, he⟩ | ⟨l, lock, he, hg, -⟩
      · simp only [answer, he]
        exact hP
      · simp only [answer, he]
        exact hP
      · simp only [answer, he]
        exact henter hP hg
    | release t states verified =>
      cases hf : (outstanding h.log).find? (·.1 = t) with
      | none =>
        simp only [answer, hf]
        exact hP
      | some p =>
        cases he : h.lock.release p.2 states verified with
        | error f =>
          simp only [answer, hf, he]
          exact hP
        | ok q =>
          simp only [answer, hf, he]
          exact hrelease hP hs.lock he

theorem Shaped.mem_step {n : Nat} {h : History} (hs : h.Shaped n) (c : Call) {d : Deed}
    (hd : d ∈ h.log) : d ∈ (h.step c).log := by
  have hreply := hs.reply c
  unfold History.step
  generalize h.answer c = x at hreply
  cases hreply with
  | enter he => exact List.mem_cons_of_mem _ hd
  | settle ho hr => exact List.mem_cons_of_mem _ hd
  | nothing => exact hd
  | failure f => exact hd

theorem Shaped.mem_play {n : Nat} {h : History} (hs : h.Shaped n) (calls : List Call) {d : Deed}
    (hd : d ∈ h.log) : d ∈ (h.play calls).log := by
  induction calls generalizing h with
  | nil => exact hd
  | cons c rest ih => exact ih (hs.step c) (hs.mem_step c hd)

/-- Every range that was granted holds a block. -/
def Filled (h : History) : Prop :=
  ∀ t l, .granted t l ∈ h.log → l.range.start < l.range.stop

theorem Shaped.filled_step {n : Nat} {h : History} (hs : h.Shaped n) (hf : h.Filled) {c : Call}
    (hc : c.Proper) : (h.step c).Filled := by
  have hgrant {l : Lease} {lock : RangeLock} (hl : l.range.start < l.range.stop) :
      (h.grant l lock).Filled := by
    intro t l' hm
    rcases List.mem_cons.mp hm with hd | hm
    · cases hd
      exact hl
    · exact hf t l' hm
  unfold History.step
  cases c with
  | acquire s =>
    rcases hs.lock.acquire s with he | ⟨l, lock, s', he, hg⟩
    · simp only [answer, he]
      exact hf
    · simp only [answer, he]
      exact hgrant hg.fits.1
  | claim r =>
    rcases hs.lock.claim r with ⟨-, he⟩ | ⟨-, -, he⟩ | ⟨l, lock, he, -, rfl⟩
    · simp only [answer, he]
      exact hf
    · simp only [answer, he]
      exact hf
    · simp only [answer, he]
      exact hgrant hc
  | release t states verified =>
    cases ho : (outstanding h.log).find? (·.1 = t) with
    | none =>
      simp only [answer, ho]
      exact hf
    | some p =>
      cases he : h.lock.release p.2 states verified with
      | error f =>
        simp only [answer, ho, he]
        exact hf
      | ok q =>
        simp only [answer, ho, he]
        exact fun t l hm => hf t l (granted_of_mem hm)

theorem Shaped.filled_play {n : Nat} {h : History} (hs : h.Shaped n) (hf : h.Filled)
    {calls : List Call} (hc : ∀ c ∈ calls, c.Proper) : (h.play calls).Filled := by
  induction calls generalizing h with
  | nil => exact hf
  | cons c rest ih =>
    obtain ⟨hc, hrest⟩ := List.forall_mem_cons.mp hc
    exact ih (hs.step c) (hs.filled_step hf hc) hrest

theorem Sound.step_of_filled {n : Nat} {h : History} (hs : h.Sound) (hsh : h.Shaped n) {c : Call}
    (hf : (h.step c).Filled) : (h.step c).Sound := by
  have hreply := hsh.reply c
  unfold History.step at hf ⊢
  generalize h.answer c = x at hreply hf
  cases hreply with
  | enter he => exact hs.of_grant (he.granted (hf _ _ List.mem_cons_self))
  | settle ho hr => exact hs.of_giveBack ho (hr.released hs.lock)
  | nothing => exact hs
  | failure f => exact hs

theorem Sound.play_of_filled {n : Nat} {h : History} (hs : h.Sound) (hsh : h.Shaped n)
    {calls : List Call} (hf : (h.play calls).Filled) : (h.play calls).Sound := by
  induction calls generalizing h with
  | nil => exact hs
  | cons c rest ih =>
    have hstep : (h.step c).Filled := fun t l hm =>
      hf t l ((hsh.step c).mem_play rest hm)
    exact ih (hs.step_of_filled hsh hstep) (hsh.step c) hf

end History

end Readback.RangeLock
