import Readback.Device.Memory
import Readback.Proofs.Run.Safety
import Readback.Proofs.Worker.Account

namespace Readback

namespace Act

def done (acts : List (Nat × Act)) : List Completed :=
  acts.filterMap fun a => a.2.completed?

theorem done_append (acts acts' : List (Nat × Act)) :
    done (acts ++ acts') = done acts ++ done acts' :=
  List.filterMap_append

end Act

namespace Run

variable {σ : Type} {dev : Device σ} {r : Run σ} {now : Instant} {i k : Nat} {w v : Worker}
  {t : Worker.Turn σ} {b : Batch} {written : Bool} {acts : List (Nat × Act)}

theorem done_of_quiet (hr : ∀ b written, w.phase ≠ .releasing b written) :
    Act.done ((w.act? r.job r.shared).map (i, ·)).toList = [] := by
  cases ha : w.act? r.job r.shared with
  | none => rfl
  | some a =>
    cases Worker.does_of_act? ha with
    | complete hp h => exact absurd hp (hr _ _)
    | _ => rfl

theorem Regular.release (dev : Device σ) (now : Instant) (hr : r.Regular)
    (hw : r.workers[i]? = some w) (hp : w.phase = .releasing b written) :
    ∃ (c : Completed) (lock : RangeLock), w.phase = .releasing c.batch c.written ∧
      r.shared.lock.release c.batch.lease (Worker.newStates c.batch c.written)
        c.batch.outcome.verifiedBlocks = .ok (c.newly, lock) ∧
      w.act? r.job r.shared = some (.completed c) ∧
      w.step dev r.job now r.shared r.device =
        Worker.goto w { r.shared with lock } r.device (Worker.recordNext
          ((c.record r.job.geometry).seen ++ Record.closing c.failed)) := by
  obtain ⟨newly, lock, he⟩ := hr.custody.exists_release hw hp
  obtain ⟨hlt, hstop⟩ := hr.fits hw (l := b.lease) (by rw [hp]; rfl)
  obtain ⟨failed, hf⟩ := hr.exists_failed hw hp (b.range.stop - b.range.start)
    ((b.range.stop - b.range.start) * r.job.geometry.blockSize) newly
  obtain rfl := Completed.failed_eq (c := ⟨b, written, newly⟩) hf
  refine ⟨⟨b, written, newly⟩, lock, hp, he, (Worker.Does.complete hp he).act?, ?_⟩
  exact Worker.step_releasing hp he (hr.rangeBytes (Nat.le_of_lt hlt) hstop)
    (Word.sub_of_le (Nat.le_of_lt hlt)) hf

/-- The books after some acts: leases are no longer than allowed, the iterations completed are
sound, the blocks covered are those that matched, and what was added to the counters and what is
still to be added come to what the iterations do. -/
structure Audited (r : Run σ) (acts : List (Nat × Act)) : Prop where
  short : ∀ a ∈ r.shared.lock.active, a.stop - a.start ≤ r.shared.lock.maxBlocks
  sound : ∀ c ∈ Act.done acts, c.Sound r.job.geometry r.shared.lock.maxBlocks
  covers : r.shared.lock.table.Covers (Completed.matched (Act.done acts))
  newly : Completed.total r.job.geometry .covered (Act.done acts) =
    (Completed.matched (Act.done acts)).card
  balance : ∀ x, Act.total x acts + r.sum (fun v => Stats.gain x v.phase.additions) =
    Completed.total r.job.geometry x (Act.done acts)

theorem Audited.interrupt (h : r.Audited acts) : r.interrupt.Audited acts :=
  ⟨h.short, h.sound, h.covers, h.newly, h.balance⟩

theorem Audited.short_after (dev : Device σ) (now : Instant) (h : r.Audited acts)
    (hr : r.Regular) (hw : r.workers[i]? = some w) :
    ∀ a ∈ (w.step dev r.job now r.shared r.device).shared.lock.active,
      a.stop - a.start ≤ r.shared.lock.maxBlocks := by
  intro a ha
  rcases Worker.step_active hr.custody.lock (fun l hl => hr.custody.held ⟨w, hw, hl⟩) ha with
    ⟨ha, -⟩ | ⟨l, hl, rfl⟩
  · exact h.short a ha
  · cases Worker.does_of_act? hl with
    | grant hp hg => exact RangeLock.length_le_of_tryCandidates hg

/-- What a turn does to the balance, if it adds `owed` to what is owed. -/
theorem Audited.balance_after (h : r.Audited acts) (hw : r.workers[i]? = some w) (x : Counter)
    (owed : Nat) (ht : w.phase.adding x + Stats.gain x t.worker.phase.additions =
      Stats.gain x w.phase.additions + owed) :
    Act.total x (acts ++ ((w.act? r.job r.shared).map (i, ·)).toList) +
        (r.after i w t).sum (fun v => Stats.gain x v.phase.additions) =
      Completed.total r.job.geometry x (Act.done acts) + owed := by
  have hbalance := h.balance x
  have hsum := sum_after (t := t) (f := fun v => Stats.gain x v.phase.additions) hw
  rw [Act.total_append, total_turn]
  omega

theorem Audited.completed (h : r.Audited acts) (hr : r.Regular) (hw : r.workers[i]? = some w)
    {c : Completed} {lock : RangeLock} (hp : w.phase = .releasing c.batch c.written)
    (he : r.shared.lock.release c.batch.lease (Worker.newStates c.batch c.written)
      c.batch.outcome.verifiedBlocks = .ok (c.newly, lock)) :
    c.Sound r.job.geometry r.shared.lock.maxBlocks := by
  have hlease : w.phase.lease? = some c.batch.lease := by rw [hp]; rfl
  obtain ⟨hlt, hstop⟩ := hr.fits hw hlease
  have hformed := hr.custody.formed hw
  rw [hp] at hformed
  have houtcome := hr.accounted hw c.batch (by rw [hp]; rfl)
  refine ⟨Nat.sub_pos_of_lt hlt, h.short _ (hr.custody.held ⟨w, hw, hlease⟩), hstop,
    hformed.verified, houtcome, ?_⟩
  rw [houtcome.verified]
  exact RangeLock.newly_le he h.covers

theorem Audited.release (h : r.Audited acts) (hr : r.Regular) (hw : r.workers[i]? = some w)
    (hp : w.phase = .releasing b written) :
    (r.after i w (w.step dev r.job now r.shared r.device)).Audited
      (acts ++ ((w.act? r.job r.shared).map (i, ·)).toList) := by
  have hshort := h.short_after dev now hr hw
  obtain ⟨c, lock, hp, he, hact, hstep⟩ := hr.release dev now hw hp
  have hsound := h.completed hr hw hp he
  have hlimit : lock.maxBlocks = r.shared.lock.maxBlocks := (RangeLock.release_table he).1
  obtain ⟨hcovers, hcard⟩ := RangeLock.covers_release he h.covers
  have hdone : Act.done (acts ++ ((w.act? r.job r.shared).map (i, ·)).toList) =
      Act.done acts ++ [c] := by
    rw [hact]
    exact Act.done_append _ _
  rw [hstep] at hshort ⊢
  refine ⟨?_, ?_, ?_, ?_, fun x => ?_⟩
  · exact hlimit ▸ hshort
  · show ∀ c' ∈ _, Completed.Sound _ lock.maxBlocks c'
    rw [hdone, hlimit]
    exact List.forall_mem_append.mpr ⟨h.sound, List.forall_mem_singleton.mpr hsound⟩
  · rw [hdone, Completed.matched_concat]
    exact hcovers
  · rw [hdone, Completed.matched_concat, Completed.total_concat, ← hcard, Nat.add_comm]
    exact congrArg (c.newly + ·) h.newly
  · rw [hdone, Completed.total_concat]
    apply h.balance_after hw x (c.adds r.job.geometry x)
    rw [hp]
    show 0 + Stats.gain x (Worker.recordNext _).additions = 0 + _
    rw [Worker.recordNext_additions]
    exact congrArg _ (Record.gain_additions (hsound.adds_lt hr.room hr.custody.blockSize_pos))

theorem Audited.keep (h : r.Audited acts) (hr : r.Regular) (hw : r.workers[i]? = some w)
    (hp : ∀ b written, w.phase ≠ .releasing b written) :
    (r.after i w (w.step dev r.job now r.shared r.device)).Audited
      (acts ++ ((w.act? r.job r.shared).map (i, ·)).toList) := by
  have ht : w.Transition dev r.job now r.shared r.device
      (w.step dev r.job now r.shared r.device) := Worker.step_transition
  have hhandles := hr.custody.handles hw ht
  have hdone : Act.done (acts ++ ((w.act? r.job r.shared).map (i, ·)).toList) = Act.done acts := by
    rw [Act.done_append, done_of_quiet hp, List.append_nil]
  refine ⟨?_, ?_, ?_, ?_, fun x => ?_⟩
  · show ∀ a ∈ _, _ ≤ _
    exact hhandles.maxBlocks ▸ h.short_after dev now hr hw
  · rw [hdone]
    exact hhandles.maxBlocks ▸ h.sound
  · rw [hdone]
    exact hhandles.table hp ▸ h.covers
  · rw [hdone]
    exact h.newly
  · rw [hdone]
    exact h.balance_after hw x 0 (ht.gain hp x)

theorem Audited.step (h : r.Audited acts) (hr : r.Regular) (hw : r.workers[i]? = some w) :
    (r.after i w (w.step dev r.job now r.shared r.device)).Audited
      (acts ++ ((w.act? r.job r.shared).map (i, ·)).toList) := by
  by_cases hp : ∃ b written, w.phase = .releasing b written
  · obtain ⟨b, written, hp⟩ := hp
    exact h.release hr hw hp
  · exact h.keep hr hw fun b written he => hp ⟨b, written, he⟩

theorem Audited.play (h : r.Audited acts) (hr : r.Regular) (moves : List Move) :
    (r.play dev moves).Audited (acts ++ r.trace dev moves) := by
  have hplay : (r.play dev moves).Regular ∧
      (r.play dev moves).Audited (acts ++ r.trace dev moves) := trace_induction
    (P := fun acts r => r.Regular ∧ r.Audited acts)
    (fun ⟨hr, h⟩ hw => ⟨hr.after hw Worker.step_transition, h.step hr hw⟩)
    (fun ⟨hr, h⟩ => ⟨hr.interrupt, h.interrupt⟩) ⟨hr, h⟩ moves
  exact hplay.2

variable {moves : List Move} {d : σ} {c : Config} {setting : Setting} {events : List Event}

theorem Started.audited (h : Started dev d c setting events r) (hr : r.Regular)
    (moves : List Move) : (r.play dev moves).Audited (r.trace dev moves) := by
  have hstart : r.Audited [] := by
    refine ⟨fun a ha => ?_, nofun, (RangeLock.table_of_make h.lock).1, rfl, fun x => ?_⟩
    · rw [(RangeLock.sound_of_make h.lock).2.2.1] at ha
      cases ha
    · refine (Nat.zero_add _).trans (sum_eq_zero fun k v hv => ?_)
      rw [h.polling hv]
      rfl
  exact hstart.play hr moves

theorem maxBlocks_play (dev : Device σ) (hr : r.Regular) (moves : List Move) :
    (r.play dev moves).shared.lock.maxBlocks = r.shared.lock.maxBlocks := by
  have hplay : (r.play dev moves).Regular ∧
      (r.play dev moves).shared.lock.maxBlocks = r.shared.lock.maxBlocks :=
    play_induction (P := fun s => s.Regular ∧ s.shared.lock.maxBlocks = r.shared.lock.maxBlocks)
      (fun h hw ht => ⟨h.1.after hw ht, (h.1.custody.handles hw ht).maxBlocks.trans h.2⟩)
      (fun h => ⟨h.1.interrupt, h.2⟩) ⟨hr, rfl⟩ moves
  exact hplay.2

theorem Started.maxBlocks (h : Started dev d c setting events r) :
    r.shared.lock.maxBlocks = min c.maxBlocksPerOp.toNat r.job.geometry.nBlocks := by
  have hpos : c.maxBlocksPerOp.toNat ≠ 0 := fun he =>
    h.valid.maxBlocksPerOp (UInt64.toNat_inj.mp he)
  rw [(RangeLock.table_of_make h.lock).2, Nat.max_eq_right (Nat.one_le_iff_ne_zero.mpr hpos)]

theorem Started.toNat_stats (h : Started dev d c setting events r)
    (ha : (r.play dev moves).Audited (r.trace dev moves)) (hn : r.NoWrap dev moves)
    (hend : (r.play dev moves).ended = true) (x : Counter) :
    ((r.play dev moves).shared.stats.get x).toNat =
      Completed.total r.job.geometry x (Act.done (r.trace dev moves)) := by
  have hzero : (r.shared.stats.get x).toNat = 0 := by
    rw [h.shared]
    cases x <;> rfl
  have hnone : (r.play dev moves).sum (fun v => Stats.gain x v.phase.additions) = 0 := by
    refine sum_eq_zero fun k v hv => ?_
    obtain ⟨hk, rfl⟩ := Array.getElem?_eq_some_iff.mp hv
    rw [Worker.additions_of_ended (Array.all_eq_true.mp hend k hk)]
    rfl
  have hbalance := ha.balance x
  rw [hnone, play_job, Nat.add_zero] at hbalance
  rw [hn.play, hzero, hbalance, Nat.zero_add]

/-- When every worker has ended, and unless a counter wraps around, the counters account for the
iterations that were completed, whatever the device answered and in whatever order the workers took
turns. -/
theorem counters_account (hsize : ∀ size, dev.size d = .ok size → size < Word.limit)
    (hs : start dev d c setting = (events, .ok r)) (hn : r.NoWrap dev moves)
    (hend : (r.play dev moves).ended = true) :
    let r' := r.play dev moves
    let done := Act.done (r.trace dev moves)
    r'.shared.stats.Accounts r.job.geometry c.maxBlocksPerOp.toNat done ∧
    r'.shared.stats.covered.toNat = r'.shared.lock.covered ∧
    ∀ now summary, r'.finish now = .ok summary → summary.stats = r'.shared.stats ∧
      (summary.passed = true ↔ ∀ c ∈ done, c.batch.outcome.mismatches = []) := by
  intro r' done
  have h := started_of_start hs
  have hr := h.regular hsize
  have ha : r'.Audited (r.trace dev moves) := h.audited hr moves
  have htotal (x : Counter) : (r'.shared.stats.get x).toNat =
      Completed.total r.job.geometry x done := h.toNat_stats ha hn hend x
  have hsound : ∀ c' ∈ done, c'.Sound r.job.geometry
      (min c.maxBlocksPerOp.toNat r.job.geometry.nBlocks) := by
    have hlimit := (maxBlocks_play dev hr moves).trans h.maxBlocks
    have hjob := play_job r dev moves
    rw [← hlimit, ← hjob]
    exact ha.sound
  have hnewly : Completed.total r.job.geometry .covered done = (Completed.matched done).card := by
    rw [← play_job r dev moves]
    exact ha.newly
  have haccounts := Stats.accounts_of_total htotal hsound hnewly
  refine ⟨haccounts, ?_, fun now summary hf => ?_⟩
  · exact haccounts.covered.trans ha.covers.count.symm
  · have hstats := (finished_of_finish hf).stats
    refine ⟨hstats, ?_⟩
    rw [Summary.passed, hstats, decide_eq_true_iff]
    exact haccounts.mismatches_eq_zero

/-- Two workers on a device that fails to write. -/
theorem counters_account_of_failing_writes :
    let c : Config := { Config.standard with
      blockSize := 512, workers := 2, uniquePct := 0, trimPct := 100, count := some 1 }
    let d : Memory := ⟨.zeroes 2048, false, true, false, false, 0, 0, 0⟩
    let setting : Setting := ⟨false, 0, ⟨0⟩,
      fun id => .words [0, 0, 0, if id = 0 then 0 else 0x80000000, 0]⟩
    let moves : List Move := (List.range 60).map fun n => .step (n % 2) ⟨n⟩
    ∃ events r, start Memory.device d c setting = (events, .ok r) ∧
      (r.play Memory.device moves).shared.stats.failedIterations = 2 ∧
      (Act.done (r.trace Memory.device moves)).length = 2 := by
  intro c d setting moves
  have hv : c.validate = .ok () := by decide +kernel
  have hsize : Memory.device.size d = .ok 2048 := rfl
  obtain ⟨events, r, hs, hiterations, hfailed, hn, hend⟩ : ∃ events r,
      start Memory.device d c setting = (events, .ok r) ∧
      (r.play Memory.device moves).shared.stats.iterations = 2 ∧
      (r.play Memory.device moves).shared.stats.failedIterations = 2 ∧
      r.NoWrap Memory.device moves ∧ (r.play Memory.device moves).ended = true :=
    ⟨_, _, start_eq hv hsize (by decide) (dif_pos (by decide)) (make_lock (by decide) (by decide))
      rfl rfl, by decide +kernel, by decide +kernel,
      fun x => by cases x <;> decide +kernel, by decide +kernel⟩
  have hlimit (size : Nat) (h : Memory.device.size d = .ok size) : size < Word.limit := by
    cases hsize.symm.trans h
    decide
  obtain ⟨haccounts, -, -⟩ := counters_account hlimit hs hn hend
  refine ⟨events, r, hs, hfailed, ?_⟩
  rw [← haccounts.iterations, hiterations]
  rfl

end Run

end Readback
