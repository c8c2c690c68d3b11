import Mathlib.Data.List.Infix
import Readback.Proofs.RangeLock.Foreign

namespace Readback.RangeLock

/-- What may befall a lock: a call, or a lease given back to it that it need not have granted. -/
inductive Move
  | call (c : Call)
  | offer (l : Lease) (states : List BlockState) (verified : List Nat)

/-- A lock in use among others, and the ranges that it took back from others than their holders. -/
structure Traffic where
  history : History
  lost : List BlockRange

namespace Traffic

def new (k : RangeLock) : Traffic :=
  ⟨.new k, []⟩

def move (x : Traffic) : Move → Traffic
  | .call c => { x with history := x.history.step c }
  | .offer l states verified =>
    match x.history.lock.release l states verified with
    | .ok (_, lock) => ⟨{ x.history with lock }, l.range :: x.lost⟩
    | .error _ => x

def play (x : Traffic) (moves : List Move) : Traffic :=
  moves.foldl move x

def out (x : Traffic) : List BlockRange :=
  (outstanding x.history.log).map (·.2.range)

inductive Course (x : Traffic) : Traffic → Prop
  | enter {l : Lease} {lock : RangeLock} (he : x.history.lock.Entered l lock) :
      Course x { x with history := x.history.grant l lock }
  | settle {t : Nat} {l : Lease} {states : List BlockState} {lock : RangeLock}
      (ho : (t, l) ∈ outstanding x.history.log) (hr : x.history.lock.Settled l states lock) :
      Course x { x with history :=
        { x.history with lock, log := .returned t l states :: x.history.log } }
  | lose {l : Lease} {states : List BlockState} {lock : RangeLock}
      (hr : x.history.lock.Settled l states lock) :
      Course x ⟨{ x.history with lock }, l.range :: x.lost⟩
  | nothing : Course x x

variable {n : Nat} {x : Traffic}

theorem course (hs : x.history.Shaped n) (mv : Move) : x.Course (x.move mv) := by
  cases mv with
  | call c =>
    have hreply := hs.reply c
    show x.Course { x with history := x.history.step c }
    unfold History.step
    generalize x.history.answer c = a at hreply
    cases hreply with
    | enter he => exact .enter he
    | settle ho hr => exact .settle ho hr
    | nothing => exact .nothing
    | failure f => exact .nothing
  | offer l states verified =>
    cases h : x.history.lock.release l states verified with
    | error f =>
      simp only [move, h]
      exact .nothing
    | ok p =>
      simp only [move, h]
      exact .lose (hs.lock.settled h)

theorem shaped_move (hs : x.history.Shaped n) (mv : Move) : (x.move mv).history.Shaped n := by
  cases mv with
  | call c => exact hs.step c
  | offer l states verified =>
    cases h : x.history.lock.release l states verified with
    | error f =>
      simp only [move, h]
      exact hs
    | ok p =>
      simp only [move, h]
      exact hs.regain (hs.lock.settled h)

theorem shaped_play (hs : x.history.Shaped n) (moves : List Move) :
    (x.play moves).history.Shaped n := by
  induction moves generalizing x with
  | nil => exact hs
  | cons mv rest ih => exact ih (shaped_move hs mv)

theorem mem_move (hs : x.history.Shaped n) (mv : Move) {d : Deed} (hd : d ∈ x.history.log) :
    d ∈ (x.move mv).history.log := by
  have hcourse := course hs mv
  generalize x.move mv = y at hcourse
  cases hcourse with
  | enter he => exact List.mem_cons_of_mem _ hd
  | settle ho hr => exact List.mem_cons_of_mem _ hd
  | lose hr => exact hd
  | nothing => exact hd

theorem mem_play (hs : x.history.Shaped n) (moves : List Move) {d : Deed}
    (hd : d ∈ x.history.log) : d ∈ (x.play moves).history.log := by
  induction moves generalizing x with
  | nil => exact hd
  | cons mv rest ih => exact ih (shaped_move hs mv) (mem_move hs mv hd)

theorem of_mem_move (hs : x.history.Shaped n) {mv : Move} {t : Nat} {l : Lease}
    (hm : .granted t l ∈ (x.move mv).history.log) :
    .granted t l ∈ x.history.log ∨ l.range ∈ (x.move mv).history.lock.active := by
  have hcourse := course hs mv
  generalize x.move mv = y at hcourse hm
  cases hcourse with
  | enter he =>
    rcases List.mem_cons.mp hm with hd | hm
    · cases hd
      simp only [History.grant, he.after]
      exact .inr (Active.mem_insert_self _ _)
    · exact .inl hm
  | settle ho hr => exact .inl (History.granted_of_mem hm)
  | lose hr => exact .inl hm
  | nothing => exact .inl hm

theorem play_concat (x : Traffic) (moves : List Move) (mv : Move) :
    x.play (moves ++ [mv]) = (x.play moves).move mv :=
  List.foldl_concat move x mv moves

theorem exists_active (hs : x.history.Shaped n) (hnew : x.history.log = []) {moves : List Move}
    {t : Nat} {l : Lease} (hm : .granted t l ∈ (x.play moves).history.log) :
    ∃ earlier, earlier <+: moves ∧ l.range ∈ (x.play earlier).history.lock.active := by
  induction moves using List.reverseRecOn with
  | nil =>
    rw [show (x.play []).history.log = [] from hnew] at hm
    cases hm
  | append_singleton moves mv ih =>
    rw [play_concat] at hm
    rcases of_mem_move (shaped_play hs moves) hm with hm | ha
    · obtain ⟨earlier, hp, ha⟩ := ih hm
      exact ⟨earlier, hp.trans (List.prefix_append _ _), ha⟩
    · rw [← play_concat] at ha
      exact ⟨_, List.prefix_rfl, ha⟩

/-- Every lease that is out has its range active, or it is lost. -/
structure Account (x : Traffic) : Prop where
  lock : x.history.lock.Sound
  out : x.out.Perm (x.history.lock.active ++ x.lost)

theorem account_new {m : Nat} {k : RangeLock} (hk : make n m = .ok k) : (new k).Account := by
  obtain ⟨hs, -, ha, -⟩ := sound_of_make hk
  refine ⟨hs, ?_⟩
  simp [new, History.new, out, outstanding, ha]

theorem Account.move (ha : x.Account) (hs : x.history.Shaped n) {mv : Move}
    (hf : (x.move mv).history.Filled) : (x.move mv).Account := by
  have hcourse := course hs mv
  generalize x.move mv = y at hcourse hf
  cases hcourse with
  | enter he =>
    have hg := he.granted (hf _ _ List.mem_cons_self)
    exact ⟨hg.sound ha.lock, (ha.out.cons _).trans ((hg.perm ha.lock).symm.append_right x.lost)⟩
  | settle ho hr =>
    have hr := hr.released ha.lock
    have hout := (List.perm_cons_erase ho).map (·.2.range)
    have hactive := (hr.perm ha.lock).append_right x.lost
    exact ⟨hr.sound, (hout.symm.trans (ha.out.trans hactive)).cons_inv⟩
  | lose hr =>
    have hr := hr.released ha.lock
    have hactive := (hr.perm ha.lock).append_right x.lost
    exact ⟨hr.sound, (ha.out.trans hactive).trans List.perm_middle.symm⟩
  | nothing => exact ha

theorem Account.play (ha : x.Account) (hs : x.history.Shaped n) {moves : List Move}
    (hf : (x.play moves).history.Filled) : (x.play moves).Account := by
  induction moves generalizing x with
  | nil => exact ha
  | cons mv rest ih =>
    have hmove : (x.move mv).history.Filled := fun t l hm =>
      hf t l (mem_play (shaped_move hs mv) rest hm)
    exact ih (ha.move hs hmove) (shaped_move hs mv) hf

def Apart (rs : List BlockRange) : Prop :=
  rs.Pairwise fun r s => r.blocks.Disjoint s.blocks

theorem apart_perm {rs ss : List BlockRange} (h : rs.Perm ss) : Apart rs ↔ Apart ss :=
  h.pairwise_iff fun hd => hd.symm

theorem exists_granted {log : List Deed} {t : Nat} {l : Lease}
    (h : (t, l) ∈ outstanding log) : .granted t l ∈ log := by
  induction log with
  | nil => cases h
  | cons d earlier ih =>
    cases d with
    | granted t' l' =>
      rcases List.mem_cons.mp h with he | h
      · cases he
        exact List.mem_cons_self
      · exact List.mem_cons_of_mem _ (ih h)
    | returned t' l' states => exact List.mem_cons_of_mem _ (ih (List.mem_of_mem_erase h))

/-- Leases are apart, and stay so whatever is claimed next, exactly as long as none is lost. -/
theorem Account.lost_eq_nil_iff (ha : x.Account) (hs : x.history.Shaped n)
    (hf : x.history.Filled) :
    x.lost = [] ↔ ∀ r : BlockRange, r.start < r.stop → Apart (x.move (.call (.claim r))).out := by
  constructor
  · intro hl r hr
    have ha' : (x.move (.call (.claim r))).Account := ha.move hs (hs.filled_step hf hr)
    have hlost : (x.move (.call (.claim r))).lost = [] := hl
    rw [apart_perm ha'.out, hlost, List.append_nil]
    exact ha'.lock.active.disjoint
  · intro h
    by_contra hl
    obtain ⟨r, hr⟩ := List.exists_mem_of_ne_nil _ hl
    have hout : r ∈ x.out := ha.out.mem_iff.mpr (List.mem_append_right _ hr)
    obtain ⟨p, hp, rfl⟩ := List.mem_map.mp hout
    have hlt := hf _ _ (exists_granted hp)
    have hle := hs.within _ _ (exists_granted hp)
    have hapart := h p.2.range hlt
    -- The range is still in use: either it is granted once more, or a part of it was already.
    rcases hs.lock.claim p.2.range with ⟨hpast, -⟩ | ⟨-, ho, he⟩ | ⟨l, lock, he, -, hrange⟩
    · exact absurd (hs.nBlocks ▸ hle) (Nat.not_le_of_lt hpast)
    · have hsame : x.move (.call (.claim p.2.range)) = x := by
        simp only [Traffic.move, History.step, History.answer, he]
        rfl
      rw [hsame, apart_perm ha.out] at hapart
      obtain ⟨s, hsm, hso⟩ := (ha.lock.active.overlaps_iff _).mp ho
      have hproper := (ha.lock.active.proper s hsm).1
      obtain ⟨b, hbs, hbr⟩ := (BlockRange.overlaps_iff_shared hlt hproper).mp hso
      exact (List.pairwise_append.mp hapart).2.2 s hsm _ hr hbs hbr
    · have hnext : (x.move (.call (.claim p.2.range))).out = p.2.range :: x.out := by
        simp only [Traffic.move, History.step, History.answer, he]
        exact congrArg (· :: x.out) hrange
      have hfirst := BlockRange.mem_blocks.mpr ⟨Nat.le_refl _, hlt⟩
      rw [hnext] at hapart
      exact List.rel_of_pairwise_cons hapart hout hfirst hfirst

/-- The active ranges could be listed at any time exactly if none without a block was granted. -/
theorem filled_iff {m : Nat} {k : RangeLock} (hk : make n m = .ok k) (moves : List Move) :
    ((new k).play moves).history.Filled ↔ ∀ earlier, earlier <+: moves →
      ∃ rs, ((new k).play earlier).history.lock.activeLeases = .ok rs := by
  have hnew : (new k).history.Shaped n := History.shaped_new hk
  have hsound : (new k).Account := account_new hk
  constructor
  · rintro hf earlier ⟨later, rfl⟩
    have hfe : ((new k).play earlier).history.Filled := by
      intro t l hm
      apply hf t l
      rw [play, List.foldl_append]
      exact mem_play (shaped_play hnew earlier) later hm
    exact ⟨_, (hsound.play hnew hfe).lock.activeLeases⟩
  · intro hok t l hm
    by_contra hl
    obtain ⟨earlier, hp, ha⟩ := exists_active hnew rfl hm
    obtain ⟨rs, hrs⟩ := hok earlier hp
    exact activeLeases_ne_ok ha (Nat.le_of_not_lt hl) rs hrs

end Traffic

open Traffic (Apart)

variable {n m : Nat} {k : RangeLock}

/-- Whatever ranges are claimed and whatever leases are given back, every claim is refused or grants
the range that was claimed, which then ends on the device.  As long as no range without a block was
granted, the active ranges share no block, a claim is refused exactly if it overlaps one of them,
and the leases that are out are those of the active ranges and of the ranges that were taken back
from others than their holders; without any of these they stay apart, and only then.  And the
active ranges could be listed at any time exactly if no range without a block was granted. -/
theorem claims_safe_iff_filled (hk : make n m = .ok k) (moves : List Move) :
    let x := (Traffic.new k).play moves
    let lock := x.history.lock
    (∀ r, (∃ e, lock.claim r = .error (.error e)) ∨ lock.claim r = .ok none ∨
        ∃ l lock', lock.claim r = .ok (some (l, lock')) ∧ l.range = r ∧ r.stop ≤ n ∧
          r ∈ lock'.active) ∧
      (x.history.Filled →
        (∀ r ∈ lock.active, r.start < r.stop ∧ r.stop ≤ n) ∧
        Apart lock.active ∧
        x.out.Perm (lock.active ++ x.lost) ∧
        (x.lost = [] ↔
          ∀ r : BlockRange, r.start < r.stop → Apart (x.move (.call (.claim r))).out) ∧
        ∀ r, r.stop ≤ n →
          (lock.claim r = .ok none ↔ ∃ s ∈ lock.active, s.overlaps r = true)) ∧
      (x.history.Filled ↔ ∀ earlier, earlier <+: moves →
        ∃ rs, ((Traffic.new k).play earlier).history.lock.activeLeases = .ok rs) := by
  intro x lock
  have hnew : (Traffic.new k).history.Shaped n := History.shaped_new hk
  have hsh : x.history.Shaped n := Traffic.shaped_play hnew moves
  refine ⟨?_, ?_, Traffic.filled_iff hk moves⟩
  · intro r
    rcases hsh.lock.claim r with ⟨-, he⟩ | ⟨-, -, he⟩ | ⟨l, lock', he, hg, rfl⟩
    · exact .inl ⟨_, he⟩
    · exact .inr (.inl he)
    · refine .inr (.inr ⟨l, lock', he, rfl, hsh.nBlocks ▸ hg.within, ?_⟩)
      rw [hg.after]
      exact Active.mem_insert_self _ _
  · intro hf
    have ha : x.Account := (Traffic.account_new hk).play hnew hf
    refine ⟨?_, ha.lock.active.disjoint, ha.out, ha.lost_eq_nil_iff hsh hf, ?_⟩
    · intro r hr
      have := ha.lock.active.proper r hr
      rwa [hsh.nBlocks] at this
    · intro r hr
      exact ha.lock.claim_eq_none_iff (hsh.nBlocks ▸ hr)

/-- A range without a block inside an active one is refused, one that starts and ends past the last
block is an error, and a lease of a part of an active range is not taken back. -/
theorem claims_safe_of_four : ∃ k, make 4 2 = .ok k ∧
    let moves : List Move := [.call (.claim ⟨0, 2⟩), .call (.claim ⟨1, 1⟩), .call (.claim ⟨9, 7⟩),
      .offer ⟨⟨0, 1⟩, [none]⟩ [none] [], .call (.claim ⟨2, 4⟩)]
    let x := (Traffic.new k).play moves
    x.history.lock.active = [⟨0, 2⟩, ⟨2, 4⟩] ∧ x.history.Filled ∧ Apart x.history.lock.active ∧
      (∀ r : BlockRange, r.start < r.stop → Apart (x.move (.call (.claim r))).out) ∧
      ∃ rs, x.history.lock.activeLeases = .ok rs := by
  refine ⟨_, rfl, ?_⟩
  intro moves x
  have ha : x.history.lock.active = [⟨0, 2⟩, ⟨2, 4⟩] := by decide +kernel
  have hlost : x.lost = [] := by decide +kernel
  have hall : (x.history.log.all fun
      | .granted _ l => decide (l.range.start < l.range.stop)
      | .returned .. => true) = true := by
    decide +kernel
  have hf : x.history.Filled := fun t l hm => of_decide_eq_true (List.all_eq_true.mp hall _ hm)
  have hsafe := claims_safe_iff_filled (n := 4) (m := 2) rfl moves
  have hfilled := hsafe.2.1 hf
  exact ⟨ha, hf, hfilled.2.1, hfilled.2.2.2.1.mp hlost, hsafe.2.2.mp hf moves List.prefix_rfl⟩

/-- A lease of another lock of the same range is taken for one's own, and a range that ends before
it starts takes the place of the active one with the same start.  After either, a range can be
claimed again of which a lease is still out; and with the other one the active ranges cannot be
listed. -/
theorem range_leased_twice : ∃ k, make 8 8 = .ok k ∧
    let l : Lease := ⟨⟨0, 2⟩, [none, none]⟩
    let x := (Traffic.new k).play [.call (.claim ⟨0, 2⟩), .offer l [none, none] [],
      .call (.claim ⟨0, 2⟩)]
    let y := (Traffic.new k).play [.call (.claim ⟨4, 8⟩), .call (.claim ⟨4, 2⟩)]
    .granted 0 l ∈ ((History.new k).play [.claim ⟨0, 2⟩]).log ∧
      outstanding x.history.log = [(1, l), (0, l)] ∧
      y.history.lock.activeLeases = .error (.emptyRange 4 2) ∧
      (y.move (.call (.claim ⟨4, 8⟩))).out = [⟨4, 8⟩, ⟨4, 2⟩, ⟨4, 8⟩] := by
  refine ⟨_, rfl, ?_⟩
  intro l x y
  exact ⟨List.mem_cons_self, by decide +kernel, by decide +kernel, by decide +kernel⟩

end Readback.RangeLock
