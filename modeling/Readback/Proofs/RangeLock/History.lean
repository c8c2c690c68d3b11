import Mathlib.Data.List.Nodup
import Readback.Proofs.RangeLock.Lock

namespace Readback.RangeLock

/-- What may be asked of a lock.  A lease is named by its ticket, the number of those granted
before it. -/
inductive Call
  | acquire (s : Source)
  | claim (r : BlockRange)
  | release (ticket : Nat) (states : List BlockState) (verified : List Nat)

/-- Ranges are claimed as `BlockRange.make` makes them. -/
def Call.Proper : Call → Prop
  | .claim r => r.start < r.stop
  | _ => True

/-- What came of a call that changed something. -/
inductive Deed
  | granted (ticket : Nat) (l : Lease)
  | returned (ticket : Nat) (l : Lease) (states : List BlockState)

/-- The leases that were granted and not given back, given what was done, the latest first. -/
def outstanding : List Deed → List (Nat × Lease)
  | [] => []
  | .granted t l :: earlier => (t, l) :: outstanding earlier
  | .returned t l _ :: earlier => (outstanding earlier).erase (t, l)

/-- The state with which a block was last given back. -/
def lastStored : List Deed → Nat → BlockState
  | [], _ => none
  | .granted .. :: earlier, b => lastStored earlier b
  | .returned _ l states :: earlier, b =>
    if b ∈ l.range.blocks then states.getD (b - l.range.start) none else lastStored earlier b

/-- A lock in use, and what was done with it, the latest first. -/
structure History where
  lock : RangeLock
  issued : Nat
  log : List Deed

namespace History

def new (k : RangeLock) : History :=
  ⟨k, 0, []⟩

def grant (h : History) (l : Lease) (lock : RangeLock) : History :=
  ⟨lock, h.issued + 1, .granted h.issued l :: h.log⟩

/-- What a call leads to.  A lease stays out if its release is refused; one that is not out cannot
be given back. -/
def answer (h : History) : Call → Except Failure History
  | .acquire s => do
    let (l, lock, _) ← (h.lock.acquire s).mapError .fault
    return h.grant l lock
  | .claim r => do
    match ← h.lock.claim r with
    | some (l, lock) => return h.grant l lock
    | none => return h
  | .release t states verified =>
    match (outstanding h.log).find? (·.1 = t) with
    | none => .ok h
    | some (_, l) => do
      let (_, lock) ← h.lock.release l states verified
      return { h with lock, log := .returned t l states :: h.log }

def step (h : History) (c : Call) : History :=
  match h.answer c with
  | .ok h' => h'
  | .error _ => h

def play (h : History) (calls : List Call) : History :=
  calls.foldl step h

/-- What every call keeps true: the ranges of the leases that are out are the active ones, and the
table still says of their blocks what it said when they were granted. -/
structure Sound (h : History) : Prop where
  lock : h.lock.Sound
  active : h.lock.active.Perm ((outstanding h.log).map (·.2.range))
  prior : ∀ p ∈ outstanding h.log, p.2.prior = h.lock.priorOf p.2.range
  stored : ∀ b, h.lock.table.stateAt b = lastStored h.log b
  granted : ∀ later t l earlier, h.log = later ++ .granted t l :: earlier →
    l.prior = l.range.blocks.map (lastStored earlier)

theorem sound_new {n m : Nat} {k : RangeLock} (hk : make n m = .ok k) : (new k).Sound := by
  obtain ⟨hs, -, ha, ht⟩ := sound_of_make hk
  refine ⟨hs, ?_, nofun, ht, ?_⟩
  · simp [new, ha, outstanding]
  · intro later t l earlier he
    simp [new] at he

theorem Sound.mem_active {h : History} (hs : h.Sound) {p : Nat × Lease}
    (hp : p ∈ outstanding h.log) : p.2.range ∈ h.lock.active :=
  hs.active.mem_iff.mpr (List.mem_map_of_mem hp)

theorem Sound.eq_of_range {h : History} (hs : h.Sound) {p q : Nat × Lease}
    (hp : p ∈ outstanding h.log) (hq : q ∈ outstanding h.log) (he : p.2.range = q.2.range) :
    p = q := by
  have hn : ((outstanding h.log).map (·.2.range)).Nodup :=
    hs.active.nodup_iff.mp hs.lock.active.nodup
  exact List.inj_on_of_nodup_map hn hp hq he

/-- All that a call can do. -/
inductive Course (h : History) : Except Failure History → Prop
  | grant {l : Lease} {lock : RangeLock} (hg : h.lock.Granted l lock) :
      Course h (.ok (h.grant l lock))
  | giveBack {t : Nat} {l : Lease} {states : List BlockState} {lock : RangeLock}
      (ho : (t, l) ∈ outstanding h.log) (hr : h.lock.Released l states lock) :
      Course h (.ok { h with lock, log := .returned t l states :: h.log })
  | nothing : Course h (.ok h)
  | refusal (e : Error) : Course h (.error (.error e))
  | exhausted : Course h (.error (.fault .exhausted))

theorem Sound.course {h : History} (hs : h.Sound) {c : Call} (hc : c.Proper) :
    h.Course (h.answer c) := by
  cases c with
  | acquire s =>
    rcases hs.lock.acquire s with he | ⟨l, lock, s', he, hg⟩
    · simp only [answer, he]
      exact .exhausted
    · simp only [answer, he]
      exact .grant hg
  | claim r =>
    rcases hs.lock.claim hc with ⟨e, he⟩ | he | ⟨l, lock, he, hg, -⟩
    · simp only [answer, he]
      exact .refusal e
    · simp only [answer, he]
      exact .nothing
    · simp only [answer, he]
      exact .grant hg
  | release t states verified =>
    cases hf : (outstanding h.log).find? (·.1 = t) with
    | none =>
      simp only [answer, hf]
      exact .nothing
    | some p =>
      obtain ⟨t', l⟩ := p
      have ht : t' = t := by simpa using List.find?_some hf
      have hm : (t, l) ∈ outstanding h.log := ht ▸ List.mem_of_find?_eq_some hf
      have hl := hs.lock.active.proper _ (hs.mem_active hm)
      rcases hs.lock.release hl.1 states verified with ⟨v, -, he⟩ | ⟨-, newly, lock, he, hr⟩
      · simp only [answer, hf, he]
        exact .refusal _
      · simp only [answer, hf, he]
        exact .giveBack hm hr

theorem Sound.of_grant {h : History} (hs : h.Sound) {l : Lease} {lock : RangeLock}
    (hg : h.lock.Granted l lock) : (h.grant l lock).Sound := by
  refine ⟨hg.sound hs.lock, ?_, ?_, ?_, ?_⟩
  · exact (hg.perm hs.lock).trans (hs.active.cons _)
  · intro p hp
    simp only [grant] at hp ⊢
    rw [hg.priorOf]
    rcases List.mem_cons.mp hp with rfl | hp
    · exact hg.prior
    · exact hs.prior p hp
  · intro b
    simp only [grant, hg.stateAt]
    exact hs.stored b
  · intro later t l' earlier he
    cases later with
    | nil =>
      cases he
      rw [hg.prior]
      exact List.map_congr_left fun b _ => hs.stored b
    | cons d later => exact hs.granted later t l' earlier (List.tail_eq_of_cons_eq he)

theorem Sound.of_giveBack {h : History} (hs : h.Sound) {t : Nat} {l : Lease}
    {states : List BlockState} {lock : RangeLock} (ho : (t, l) ∈ outstanding h.log)
    (hr : h.lock.Released l states lock) :
    Sound { h with lock, log := .returned t l states :: h.log } := by
  have hperm := List.perm_cons_erase ho
  refine ⟨hr.sound, ?_, ?_, ?_, ?_⟩
  · have h₁ := (hr.perm hs.lock).symm.trans (hs.active.trans (hperm.map _))
    exact h₁.cons_inv
  · intro p hp
    have hnodup : (outstanding h.log).Nodup :=
      List.Nodup.of_map _ (hs.active.nodup_iff.mp hs.lock.active.nodup)
    obtain ⟨hne, hp⟩ := hnodup.mem_erase_iff.mp hp
    rw [hs.prior p hp]
    exact (hr.priorOf hs.lock (hs.mem_active hp) fun he => hne (hs.eq_of_range hp ho he)).symm
  · intro b
    rw [hr.stateAt, hs.stored]
    rfl
  · intro later t' l' earlier he
    cases later with
    | nil => cases he
    | cons d later => exact hs.granted later t' l' earlier (List.tail_eq_of_cons_eq he)

theorem Sound.step {h : History} (hs : h.Sound) {c : Call} (hc : c.Proper) : (h.step c).Sound := by
  have hcourse := hs.course hc
  unfold History.step
  generalize h.answer c = x at hcourse
  cases hcourse with
  | grant hg => exact hs.of_grant hg
  | giveBack ho hr => exact hs.of_giveBack ho hr
  | nothing => exact hs
  | refusal e => exact hs
  | exhausted => exact hs

theorem Sound.play {h : History} (hs : h.Sound) {calls : List Call} (hc : ∀ c ∈ calls, c.Proper) :
    (h.play calls).Sound := by
  induction calls generalizing h with
  | nil => exact hs
  | cons c rest ih =>
    exact ih (hs.step (hc c List.mem_cons_self)) fun c' h' => hc c' (List.mem_cons_of_mem _ h')

theorem Sound.step_nBlocks {h : History} (hs : h.Sound) {c : Call} (hc : c.Proper) :
    (h.step c).lock.nBlocks = h.lock.nBlocks := by
  have hcourse := hs.course hc
  unfold History.step
  generalize h.answer c = x at hcourse
  cases hcourse with
  | grant hg => simp only [grant, hg.after]
  | giveBack ho hr => exact hr.nBlocks
  | nothing => rfl
  | refusal e => rfl
  | exhausted => rfl

theorem Sound.play_nBlocks {h : History} (hs : h.Sound) {calls : List Call}
    (hc : ∀ c ∈ calls, c.Proper) : (h.play calls).lock.nBlocks = h.lock.nBlocks := by
  induction calls generalizing h with
  | nil => rfl
  | cons c rest ih =>
    have hc₁ := hc c List.mem_cons_self
    exact (ih (hs.step hc₁) fun c' h' => hc c' (List.mem_cons_of_mem _ h')).trans
      (hs.step_nBlocks hc₁)

theorem Sound.eq_exhausted {h : History} (hs : h.Sound) {c : Call} (hc : c.Proper) {f : Fault}
    (he : h.answer c = .error (.fault f)) : f = .exhausted := by
  have hcourse := hs.course hc
  rw [he] at hcourse
  cases hcourse
  rfl

theorem mem_outstanding {later earlier : List Deed} {t : Nat} {l : Lease}
    (h : ∀ l' states, .returned t l' states ∉ later) :
    (t, l) ∈ outstanding (later ++ .granted t l :: earlier) := by
  induction later with
  | nil => exact List.mem_cons_self
  | cons d rest ih =>
    have ih := ih fun l' states hm => h l' states (List.mem_cons_of_mem _ hm)
    cases d with
    | granted t' l' => exact List.mem_cons_of_mem _ ih
    | returned t' l' states =>
      refine (List.mem_erase_of_ne fun he => ?_).mpr ih
      cases he
      exact h l states List.mem_cons_self

end History

variable {n m : Nat} {k : RangeLock}

/-- The active ranges are those of the leases that are out, each once, and share no block. -/
theorem leases_exclusive (hk : make n m = .ok k) (calls : List Call)
    (hc : ∀ c ∈ calls, c.Proper) :
    let h := (History.new k).play calls
    (∀ r ∈ h.lock.active, r.start < r.stop ∧ r.stop ≤ n) ∧
      h.lock.active.Pairwise (fun r s => r.blocks.Disjoint s.blocks) ∧
      h.lock.active.Perm ((outstanding h.log).map (·.2.range)) ∧
      h.lock.checkDisjoint = .ok () ∧
      h.lock.activeLeases = .ok h.lock.active ∧
      ∀ c f, c.Proper → h.answer c = .error (.fault f) → f = .exhausted := by
  intro h
  have hnew := History.sound_new hk
  have hs : h.Sound := hnew.play hc
  have hn : h.lock.nBlocks = n := (hnew.play_nBlocks hc).trans (sound_of_make hk).2.1
  refine ⟨?_, hs.lock.active.disjoint, hs.active, hs.lock.checkDisjoint, hs.lock.activeLeases,
    fun c f hp he => hs.eq_exhausted hp he⟩
  intro r hr
  have := hs.lock.active.proper r hr
  rwa [hn] at this

/-- A neighbour is granted, an overlapping range is not, and a refused release changes nothing. -/
theorem leases_exclusive_of_four : ∃ k, make 4 2 = .ok k ∧
    let calls : List Call := [.claim ⟨0, 2⟩, .claim ⟨1, 3⟩, .claim ⟨2, 4⟩, .release 1 [none] [],
      .release 0 [some .duplicate, some .trimmed] [1], .claim ⟨1, 2⟩]
    let h := (History.new k).play calls
    (∀ c ∈ calls, c.Proper) ∧ h.lock.active = [⟨1, 2⟩, ⟨2, 4⟩] ∧
      h.lock.active.Pairwise (fun r s => r.blocks.Disjoint s.blocks) ∧
      h.lock.active.Perm ((outstanding h.log).map (·.2.range)) := by
  refine ⟨_, rfl, ?_⟩
  intro calls h
  have hc : ∀ c ∈ calls, c.Proper := by simp [calls, Call.Proper]
  have ha : h.lock.active = [⟨1, 2⟩, ⟨2, 4⟩] := by decide +kernel
  have he := leases_exclusive (n := 4) (m := 2) rfl calls hc
  exact ⟨hc, ha, he.2.1, he.2.2.1⟩

/-- A lease carries what was last stored in its blocks, and while it is out nobody else stores
anything there. -/
theorem prior_eq_lastStored (hk : make n m = .ok k) (calls : List Call)
    (hc : ∀ c ∈ calls, c.Proper) {later earlier : List Deed} {t : Nat} {l : Lease}
    (hlog : ((History.new k).play calls).log = later ++ .granted t l :: earlier) :
    l.prior = l.range.blocks.map (lastStored earlier) ∧
      ((∀ l' states, .returned t l' states ∉ later) →
        l.range.blocks.mapM ((History.new k).play calls).lock.table.get = .ok l.prior) := by
  have hs := (History.sound_new hk).play hc
  refine ⟨hs.granted later t l earlier hlog, fun hout => ?_⟩
  have hm : (t, l) ∈ outstanding ((History.new k).play calls).log :=
    hlog ▸ History.mem_outstanding hout
  have hprior : l.prior = _ := hs.prior _ hm
  have hstop := (hs.lock.active.proper _ (hs.mem_active hm)).2
  rw [hprior]
  exact mapM_get hs.lock.table fun b hb =>
    Nat.lt_of_lt_of_le (BlockRange.mem_blocks.mp hb).2 hstop

/-- The second lease sees what the first stored, and keeps it while a third is granted. -/
theorem prior_eq_lastStored_of_four :
    let k : RangeLock := ⟨4, 2, [], ⟨#[none, none, none, none], #[0], 0⟩, by decide, by decide⟩
    let calls : List Call := [.claim ⟨0, 2⟩, .release 0 [some .duplicate, some .trimmed] [],
      .claim ⟨1, 3⟩, .claim ⟨3, 4⟩]
    let l : Lease := ⟨⟨1, 3⟩, [some .trimmed, none]⟩
    make 4 2 = .ok k ∧ (∀ c ∈ calls, c.Proper) ∧
      ((History.new k).play calls).log = [.granted 2 ⟨⟨3, 4⟩, [none]⟩] ++ .granted 1 l ::
        [.returned 0 ⟨⟨0, 2⟩, [none, none]⟩ [some .duplicate, some .trimmed],
          .granted 0 ⟨⟨0, 2⟩, [none, none]⟩] ∧
      l.range.blocks.mapM ((History.new k).play calls).lock.table.get = .ok l.prior := by
  intro k calls l
  have hk : make 4 2 = .ok k := rfl
  have hc : ∀ c ∈ calls, c.Proper := by simp [calls, Call.Proper]
  have hlog : ((History.new k).play calls).log =
      [.granted 2 ⟨⟨3, 4⟩, [none]⟩] ++ .granted 1 l ::
        [.returned 0 ⟨⟨0, 2⟩, [none, none]⟩ [some .duplicate, some .trimmed],
          .granted 0 ⟨⟨0, 2⟩, [none, none]⟩] := by
    cbv
  have he := (prior_eq_lastStored hk calls hc hlog).2 (by simp)
  exact ⟨hk, hc, hlog, he⟩

end Readback.RangeLock
