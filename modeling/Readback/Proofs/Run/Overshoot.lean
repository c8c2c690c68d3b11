import Mathlib.Algebra.Order.BigOperators.Group.Finset
import Readback.Device.Memory
import Readback.Proofs.Run.Finish
import Readback.Proofs.Run.Start
import Readback.Proofs.Run.Trace
import Readback.Proofs.Worker.Stopping

namespace Readback.Run

variable {σ : Type} {dev : Device σ} {r : Run σ} {now : Instant} {i k n : Nat} {w v : Worker}
  {t : Worker.Turn σ} {x : Counter} {c : Config}

/-- Every worker counts its iteration last. -/
def Closes (r : Run σ) : Prop :=
  ∀ {k : Nat} {v : Worker}, r.workers[k]? = some v → v.phase.Closes

theorem Closes.move (h : r.Closes) (m : Move) : (r.move dev m).Closes := by
  cases m with
  | interrupt => exact h
  | step i now =>
    apply step_induction (P := Closes) h
    intro w hw t ht _ k v hv
    rcases worker_after hw hv with ⟨rfl, rfl⟩ | ⟨hk, hv⟩
    · exact ht.closes (h hw)
    · exact h hv

/-- How many more iterations a worker may count, once a counter has got to `n`. -/
def allowance (x : Counter) (n : Nat) (r : Run σ) (k : Nat) : Nat :=
  r.workers[k]?.elim 0 fun w => w.phase.allowance x n r.shared.stop.raised

theorem allowance_le_one (r : Run σ) (k : Nat) : r.allowance x n k ≤ 1 := by
  unfold allowance
  cases r.workers[k]? with
  | none => exact Nat.zero_le 1
  | some w => exact Phase.allowance_le_one _ _

theorem allowance_after_self (hw : r.workers[i]? = some w) :
    (r.after i w t).allowance x n i = t.worker.phase.allowance x n t.shared.stop.raised := by
  rw [allowance, getElem?_after_self hw]
  rfl

theorem allowance_after_ne (ht : w.Transition dev r.job now r.shared r.device t) (hk : k ≠ i) :
    (r.after i w t).allowance x n k ≤ r.allowance x n k := by
  rw [allowance, getElem?_after_ne hk, allowance]
  cases r.workers[k]? with
  | none => exact Nat.le_refl 0
  | some v => exact v.phase.allowance_raise ht.raised

theorem allowance_interrupt (r : Run σ) (k : Nat) :
    r.interrupt.allowance x n k ≤ r.allowance x n k := by
  rw [allowance, allowance, interrupt]
  cases r.workers[k]? with
  | none => exact Nat.le_refl 0
  | some v => exact v.phase.allowance_raise fun _ => rfl

theorem counted_self (hw : r.workers[i]? = some w) :
    Act.counted i (r.act? (.step i now)).toList = w.phase.counting := by
  rw [act?_step hw, ← Worker.act?_counts (j := r.job) (s := r.shared)]
  cases w.act? r.job r.shared with
  | none => rfl
  | some a => cases h : a.counts <;> simp [Act.counted, h]

theorem counted_ne (hk : k ≠ i) : Act.counted k (r.act? (.step i now)).toList = 0 := by
  cases hw : r.workers[i]? with
  | none =>
    rw [act?_of_none hw]
    rfl
  | some w =>
    rw [act?_step hw]
    cases w.act? r.job r.shared with
    | none => rfl
    | some a => simp [Act.counted, hk.symm]

theorem counted_cases {P : Nat → Nat → Prop} (m : Move)
    (hself : ∀ w t now, r.workers[k]? = some w → w.Transition dev r.job now r.shared r.device t →
      P w.phase.counting (t.worker.phase.allowance x n t.shared.stop.raised))
    (hother : ∀ a, a ≤ r.allowance x n k → P 0 a) :
    P (Act.counted k (r.act? m).toList) ((r.move dev m).allowance x n k) := by
  cases m with
  | interrupt => exact hother _ (allowance_interrupt r k)
  | step i now =>
    cases hw : r.workers[i]? with
    | none =>
      rw [act?_of_none hw, move, step_of_none hw]
      exact hother _ (Nat.le_refl _)
    | some w =>
      rw [move, step_eq hw]
      by_cases hk : k = i
      · subst hk
        rw [counted_self hw, allowance_after_self hw]
        exact hself w _ now hw Worker.step_transition
      · rw [counted_ne hk]
        exact hother _ (allowance_after_ne Worker.step_transition hk)

theorem counted_move_le (dev : Device σ) (hc : r.Closes) (m : Move) (k : Nat) :
    Act.counted k (r.act? m).toList + (r.move dev m).allowance x n k ≤ 1 := by
  apply counted_cases (P := fun a b => a + b ≤ 1)
  · intro w t now hw ht
    exact ht.counting_le (hc hw)
  · intro a ha
    rw [Nat.zero_add]
    exact Nat.le_trans ha (allowance_le_one r k)

/-- The policy gives a reason to stop when a counter has got to `n`. -/
def Decided (r : Run σ) (x : Counter) (n : Nat) : Prop :=
  ∀ seen now, n ≤ (Stats.get seen x).toNat → r.job.policy.evaluate seen now ≠ none

/-- What a worker counts once a counter has got to where a run is to stop is taken off its
allowance. -/
theorem counted_move_allowance (dev : Device σ) (hc : r.Closes) (hd : r.Decided x n)
    (hx : n ≤ (r.shared.stats.get x).toNat) (m : Move) (k : Nat) :
    Act.counted k (r.act? m).toList + (r.move dev m).allowance x n k ≤ r.allowance x n k := by
  apply counted_cases (P := fun a b => a + b ≤ r.allowance x n k)
  · intro w t now hw ht
    rw [allowance, hw]
    exact ht.allowance (hc hw) hx hd
  · intro a ha
    rw [Nat.zero_add]
    exact ha

theorem Decided.move (hd : r.Decided x n) (m : Move) : (r.move dev m).Decided x n := by
  intro seen now hx
  rw [move_job]
  exact hd seen now hx

theorem NoWrap.le_move {m : Move} {rest : List Move} (hn : r.NoWrap dev (m :: rest)) :
    r.shared.stats.Le (r.move dev m).shared.stats := by
  intro x
  rw [hn.move]
  exact Nat.le_add_right _ _

theorem NoWrap.le_play {moves : List Move} (hn : r.NoWrap dev moves) :
    r.shared.stats.Le (r.play dev moves).shared.stats := by
  intro x
  rw [hn.play]
  exact Nat.le_add_right _ _

theorem counted_le_allowance {moves : List Move} (hc : r.Closes) (hd : r.Decided x n)
    (hn : r.NoWrap dev moves) (hx : n ≤ (r.shared.stats.get x).toNat) (k : Nat) :
    Act.counted k (r.trace dev moves) ≤ r.allowance x n k := by
  induction moves generalizing r with
  | nil => exact Nat.zero_le _
  | cons m rest ih =>
    have hm := counted_move_allowance dev hc hd hx m k
    have hrest := ih (hc.move m) (hd.move m) hn.tail (Nat.le_trans hx (hn.le_move x))
    rw [trace, Act.counted_append]
    omega

theorem total_iterations (hc : r.Closes) (m : Move) :
    Act.total .iterations (r.act? m).toList =
      ∑ k ∈ Finset.range r.workers.size, Act.counted k (r.act? m).toList := by
  cases m with
  | interrupt => exact (Finset.sum_const_zero).symm
  | step i now =>
    cases hw : r.workers[i]? with
    | none =>
      rw [act?_of_none hw]
      exact (Finset.sum_const_zero).symm
    | some w =>
      obtain ⟨hi, -⟩ := Array.getElem?_eq_some_iff.mp hw
      rw [Finset.sum_eq_single i (fun k _ hk => counted_ne hk)
        (fun h => absurd (Finset.mem_range.mpr hi) h), counted_self hw, total_step hw]
      exact (hc hw).adding

/-- How many more iterations all workers may count together. -/
def spare (n : Nat) (r : Run σ) : Nat :=
  ∑ k ∈ Finset.range r.workers.size, r.allowance .iterations n k

/-- There are fewer than `n` iterations, or at most one more for each worker but one. -/
def Budgeted (n : Nat) (r : Run σ) : Prop :=
  r.shared.stats.iterations.toNat < n ∨
    r.shared.stats.iterations.toNat + r.spare n + 1 ≤ n + r.workers.size

theorem Budgeted.move {m : Move} {rest : List Move} (h : r.Budgeted n) (hc : r.Closes)
    (hd : r.Decided .iterations n) (hn : r.NoWrap dev (m :: rest)) :
    (r.move dev m).Budgeted n := by
  have hsize : (r.move dev m).workers.size = r.workers.size := move_size r dev m
  have hiterations : (r.move dev m).shared.stats.iterations.toNat =
      r.shared.stats.iterations.toNat + Act.total .iterations (r.act? m).toList :=
    hn.move .iterations
  have hsum : Act.total .iterations (r.act? m).toList + (r.move dev m).spare n =
      ∑ k ∈ Finset.range r.workers.size, (Act.counted k (r.act? m).toList +
        (r.move dev m).allowance .iterations n k) := by
    rw [total_iterations hc, spare, hsize, Finset.sum_add_distrib]
  unfold Budgeted
  rw [hsize, hiterations]
  by_cases hx : r.shared.stats.iterations.toNat < n
  · -- The move may be the one that gets to `n`.
    have hle := Finset.sum_le_sum fun k (_ : k ∈ Finset.range r.workers.size) =>
      counted_move_le dev (x := .iterations) (n := n) hc m k
    rw [← hsum, ← Finset.card_eq_sum_ones, Finset.card_range] at hle
    omega
  · have hle := Finset.sum_le_sum fun k (_ : k ∈ Finset.range r.workers.size) =>
      counted_move_allowance dev hc hd (Nat.le_of_not_lt hx) m k
    rw [← hsum] at hle
    have hspare := h.resolve_left hx
    unfold spare at hspare
    omega

theorem Budgeted.play {moves : List Move} (h : r.Budgeted n) (hc : r.Closes)
    (hd : r.Decided .iterations n) (hn : r.NoWrap dev moves) : (r.play dev moves).Budgeted n := by
  induction moves generalizing r with
  | nil => exact h
  | cons m rest ih => exact ih (h.move hc hd hn) (hc.move m) (hd.move m) hn.tail

/-- A worker ends as soon as its record is complete. -/
def Ending (x : Counter) (n : Nat) (r : Run σ) (i : Nat) : Prop :=
  ∀ {w : Worker}, r.workers[i]? = some w →
    w.phase.isRecording = true ∨ w.phase.halts x n r.shared.stop.raised = true

theorem Ending.move (h : r.Ending x n i) (hd : r.Decided x n)
    (hx : n ≤ (r.shared.stats.get x).toNat) (m : Move) : (r.move dev m).Ending x n i := by
  cases m with
  | interrupt =>
    intro w hw
    exact (h hw).imp_right (Phase.halts_raise fun _ => rfl)
  | step k now =>
    apply step_induction (P := fun s => s.Ending x n i) h
    intro w hw t ht _ v hv
    rcases worker_after hw hv with ⟨rfl, rfl⟩ | ⟨-, hv⟩
    · exact ht.ending hx hd (h hw)
    · exact (h hv).imp_right (Phase.halts_raise ht.raised)

theorem Ending.play {moves : List Move} (h : r.Ending x n i) (hd : r.Decided x n)
    (hn : r.NoWrap dev moves) (hx : n ≤ (r.shared.stats.get x).toNat) :
    (r.play dev moves).Ending x n i := by
  induction moves generalizing r with
  | nil => exact h
  | cons m rest ih =>
    exact ih (h.move hd hx m) (hd.move m) hn.tail (Nat.le_trans hx (hn.le_move x))

/-- Whoever gets a counter to `n` is recording, and ends with that record. -/
theorem ending_of_crossing {rest : List Move} (hn : r.NoWrap dev (.step i now :: rest))
    (hlt : (r.shared.stats.get x).toNat < n)
    (hle : n ≤ ((r.step dev now i).shared.stats.get x).toNat) :
    (r.step dev now i).Ending x n i := by
  have hmove : ((r.step dev now i).shared.stats.get x).toNat = _ := hn.move x
  cases hw : r.workers[i]? with
  | none =>
    rw [step_of_none hw] at hle
    exact (Nat.not_lt_of_ge hle hlt).elim
  | some w =>
    rw [total_step hw] at hmove
    have hrecording : w.phase.isRecording = true := by
      cases hp : w.phase with
      | recording c v rest => rfl
      | _ =>
        rw [hp] at hmove
        simp only [Phase.adding] at hmove
        omega
    rw [step_eq hw]
    intro v hv
    rw [getElem?_after_self hw] at hv
    cases hv
    exact Worker.step_transition.ending_of_recording hrecording

/-- What workers have seen of the counters, and the reasons that are given or to be given, are
backed by the counters. -/
structure Backed (c : Config) (r : Run σ) : Prop where
  phases : ∀ {k : Nat} {v : Worker}, r.workers[k]? = some v →
    v.phase.Backed c r.job.geometry.nBlocks r.shared.stats
  given : ∀ reason, r.shared.stop.given = some reason →
    c.Justifies r.job.geometry.nBlocks r.shared.stats reason

theorem Backed.after (h : r.Backed c) (hw : r.workers[i]? = some w)
    (ht : w.Transition dev r.job now r.shared r.device t) {moment : Instant}
    (hp : c.policy moment r.job.geometry.nBlocks = .ok r.job.policy)
    (hn : r.job.geometry.nBlocks < Word.limit) (hle : r.shared.stats.Le t.shared.stats) :
    (r.after i w t).Backed c := by
  refine ⟨fun hv => ?_, fun reason hg => ?_⟩
  · rcases worker_after hw hv with ⟨rfl, rfl⟩ | ⟨-, hv⟩
    · exact (ht.backed hp hn (h.phases hw)).mono hle
    · exact (h.phases hv).mono hle
  · rcases ht.given hg with hg | ⟨cause, hp⟩
    · exact (h.given reason hg).mono hle
    · have hphase := h.phases hw
      rw [hp] at hphase
      exact Config.Justifies.mono hphase hle

theorem Backed.play {moves : List Move} (h : r.Backed c) {moment : Instant}
    (hp : c.policy moment r.job.geometry.nBlocks = .ok r.job.policy)
    (hnb : r.job.geometry.nBlocks < Word.limit) (hn : r.NoWrap dev moves) :
    (r.play dev moves).Backed c := by
  induction moves generalizing r with
  | nil => exact h
  | cons m rest ih =>
    have hjob := move_job r dev m
    refine ih ?_ (hjob ▸ hp) (hjob ▸ hnb) hn.tail
    have hle := hn.le_move
    cases m with
    | interrupt => exact ⟨h.phases, h.given⟩
    | step i now =>
      cases hw : r.workers[i]? with
      | none =>
        rw [move, step_of_none hw]
        exact h
      | some w =>
        rw [move, step_eq hw] at hle ⊢
        exact h.after hw Worker.step_transition hp hnb hle

variable {d : σ} {setting : Setting} {events : List Event}

theorem Started.nBlocks_lt (h : Started dev d c setting events r) :
    r.job.geometry.nBlocks < Word.limit := by
  rw [← h.custody.nBlocks]
  exact h.custody.lock.lt_limit

theorem Started.closes (h : Started dev d c setting events r) : r.Closes := by
  intro k v hv
  rw [h.polling hv]
  trivial

theorem Started.decided (h : Started dev d c setting events r)
    (hx : c.threshold r.job.geometry.nBlocks x = some n) : r.Decided x n :=
  fun _ _ hle => Config.Met.evaluate ⟨n, hx, hle⟩ h.policy h.nBlocks_lt

theorem Started.backed (h : Started dev d c setting events r) : r.Backed c := by
  refine ⟨fun hv => ?_, fun reason hg => ?_⟩
  · rw [h.polling hv]
    trivial
  · rw [h.shared] at hg
    cases hg

theorem Started.budgeted (h : Started dev d c setting events r) {count : UInt64}
    (hc : c.count = some count) : r.Budgeted count.toNat := by
  left
  have hz : count ≠ 0 := fun hz => h.valid.count (hz ▸ hc)
  have hs : r.shared.stats.iterations = 0 := by rw [h.shared]; rfl
  rw [hs]
  exact Nat.pos_of_ne_zero fun he => hz (UInt64.toNat_inj.mp he)

theorem play_closes (h : r.Closes) (moves : List Move) : (r.play dev moves).Closes := by
  induction moves generalizing r with
  | nil => exact h
  | cons m rest ih => exact ih (h.move m)

theorem Decided.play (h : r.Decided x n) (moves : List Move) :
    (r.play dev moves).Decided x n := by
  intro seen now hx
  rw [play_job]
  exact h seen now hx

/-- Once a condition to stop that speaks of a counter is met, no worker counts more than one further
iteration, and the one that met it none beyond the one of which it was recording.  So with a count
of `n` there are fewer iterations than `n` and the number of workers together, and just `n` if a
single worker stops for that reason. -/
theorem bounded_overshoot (hs : start dev d c setting = (events, .ok r)) {moves : List Move}
    (hn : r.NoWrap dev moves) :
    (∀ before i now after x, moves = before ++ .step i now :: after →
      let r₀ := r.play dev before
      let r₁ := r₀.step dev now i
      ¬ c.Met r.job.geometry.nBlocks x r₀.shared.stats →
      c.Met r.job.geometry.nBlocks x r₁.shared.stats →
      (∀ k, Act.counted k (r₀.trace dev (.step i now :: after)) ≤ 1) ∧
      ∀ mid rest w, after = mid ++ rest → (r₁.play dev mid).workers[i]? = some w →
        w.phase.isRecording = false → Act.counted i ((r₁.play dev mid).trace dev rest) = 0) ∧
    ∀ count, c.count = some count →
      (r.play dev moves).shared.stats.iterations.toNat ≤ count.toNat + c.workers.toNat - 1 ∧
      ∀ now summary, (r.play dev moves).finish now = .ok summary →
        summary.stats.iterations.toNat ≤ count.toNat + c.workers.toNat - 1 ∧
        (c.workers = 1 → summary.stopReason = some .iterationBudget →
          summary.stats.iterations = count) := by
  have h := started_of_start hs
  refine ⟨?_, fun count hcount => ?_⟩
  · rintro before i now after x rfl r₀ r₁ hbefore hmet
    obtain ⟨n, hx, hle⟩ := hmet
    have hd₀ : r₀.Decided x n := (h.decided hx).play before
    have hc₀ : r₀.Closes := play_closes h.closes before
    have hn₀ : r₀.NoWrap dev (.step i now :: after) := hn.after
    have hlt : (r₀.shared.stats.get x).toNat < n :=
      Nat.lt_of_not_le fun hle => hbefore ⟨n, hx, hle⟩
    have hd₁ : r₁.Decided x n := hd₀.move (.step i now)
    have hc₁ : r₁.Closes := hc₀.move (.step i now)
    refine ⟨fun k => ?_, ?_⟩
    · have hstep := counted_move_le dev (x := x) (n := n) hc₀ (.step i now) k
      have hrest := counted_le_allowance hc₁ hd₁ hn₀.tail hle k
      rw [trace, Act.counted_append]
      exact Nat.le_trans (Nat.add_le_add_left hrest _) hstep
    · rintro mid rest w rfl hw hover
      have hmid : r₁.NoWrap dev (mid ++ rest) := hn₀.tail
      have hend : (r₁.play dev mid).Ending x n i :=
        Ending.play (ending_of_crossing hn₀ hlt hle) hd₁ hmid.before hle
      have hhalts := (hend hw).resolve_left (Bool.not_eq_true _ ▸ hover)
      have hcounted := counted_le_allowance (play_closes hc₁ mid) (hd₁.play mid) hmid.after
        (Nat.le_trans hle (hmid.before.le_play x)) i
      rw [allowance, hw] at hcounted
      apply Nat.le_zero.mp
      refine Nat.le_trans hcounted ?_
      rw [Option.elim_some, Phase.allowance, hhalts]
      exact Nat.le_refl 0
  · have hthreshold : c.threshold r.job.geometry.nBlocks .iterations = some count.toNat := by
      rw [Config.threshold, hcount]
      rfl
    have hb := (h.budgeted hcount).play h.closes (h.decided hthreshold) hn
    have hworkers : 0 < c.workers.toNat := by
      apply Nat.pos_of_ne_zero
      exact fun hz => h.valid.workers (UInt64.toNat_inj.mp hz)
    have hle : (r.play dev moves).shared.stats.iterations.toNat ≤
        count.toNat + c.workers.toNat - 1 := by
      unfold Budgeted at hb
      rw [play_size, h.size] at hb
      omega
    refine ⟨hle, fun now summary hfinish => ?_⟩
    have hfinished := finished_of_finish hfinish
    rw [hfinished.stats]
    refine ⟨hle, fun hone hreason => ?_⟩
    rw [hfinished.stopReason] at hreason
    have hbacked := h.backed.play h.policy h.nBlocks_lt hn
    have hgiven := Stop.Signal.given_of_reason hreason (by decide)
    obtain ⟨m, hm, hge⟩ := hbacked.given _ hgiven .iterations rfl
    rw [play_job, hthreshold, Option.some_inj] at hm
    subst hm
    apply UInt64.toNat_inj.mp
    rw [hone] at hle
    exact Nat.le_antisymm hle hge

/-- Two workers that are to stop after one iteration: the first counts it, the second one more. -/
theorem bounded_overshoot_of_two_workers :
    let c : Config := { Config.standard with
      blockSize := 512, workers := 2, uniquePct := 0, trimPct := 100, count := some 1 }
    let d : Memory := ⟨.zeroes 2048, false, false, false, false, 0, 0, 0⟩
    let setting : Setting := ⟨false, 0, ⟨0⟩,
      fun id => .words [0, 0, 0, if id = 0 then 0 else 0x80000000, 0]⟩
    let moves : List Move := (List.range 60).map fun n => .step (n % 2) ⟨n⟩
    ∃ events r, start Memory.device d c setting = (events, .ok r) ∧
      r.NoWrap Memory.device moves ∧ (r.play Memory.device moves).ended = true ∧
      (r.play Memory.device moves).shared.stats.iterations = 2 ∧
      (r.play Memory.device moves).shared.stats.iterations.toNat ≤
        (1 : UInt64).toNat + c.workers.toNat - 1 ∧
      ∀ k, Act.counted k ((r.play Memory.device (moves.take 18)).trace Memory.device
        (moves.drop 18)) ≤ 1 := by
  intro c d setting moves
  have hv : c.validate = .ok () := by decide +kernel
  have hsize : Memory.device.size d = .ok 2048 := rfl
  obtain ⟨events, r, hs, hn, hend, hcount, hbefore, hmet⟩ : ∃ events r,
      start Memory.device d c setting = (events, .ok r) ∧ r.NoWrap Memory.device moves ∧
      (r.play Memory.device moves).ended = true ∧
      (r.play Memory.device moves).shared.stats.iterations = 2 ∧
      (¬ c.Met r.job.geometry.nBlocks .iterations
        (r.play Memory.device (moves.take 18)).shared.stats) ∧
      c.Met r.job.geometry.nBlocks .iterations
        ((r.play Memory.device (moves.take 18)).step Memory.device ⟨18⟩ 0).shared.stats :=
    ⟨_, _, start_eq hv hsize (by decide) (dif_pos (by decide)) (make_lock (by decide) (by decide))
      rfl rfl, fun x => by cases x <;> decide +kernel, by decide +kernel, by decide +kernel,
      by decide +kernel, by decide +kernel⟩
  obtain ⟨hbound, hfinal⟩ := bounded_overshoot hs hn
  exact ⟨events, r, hs, hn, hend, hcount, (hfinal 1 rfl).1,
    (hbound (moves.take 18) 0 ⟨18⟩ (moves.drop 19) .iterations rfl hbefore hmet).1⟩

end Readback.Run
