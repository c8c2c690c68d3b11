import Readback.Proofs.Run.Overshoot
import Readback.Proofs.Run.Safety
import Readback.Proofs.Worker.Reason

namespace Readback.Run

variable {σ : Type} {dev : Device σ} {r : Run σ} {now : Instant} {i : Nat} {w : Worker}
  {t : Worker.Turn σ} {c : Config} {outside : Prop} {done : List (Nat × Evaluation)}

def evaluations (dev : Device σ) (r : Run σ) (moves : List Move) : List (Nat × Evaluation) :=
  r.notes (fun r now w => w.evaluation? r.job now) dev moves

def Found (done : List (Nat × Evaluation)) (reason : Stop.Reason) : Prop :=
  ∃ a ∈ done, a.2.reason = some reason

/-- Each reason that is given or to be given was found in an evaluation, each that was found is to be
given unless there is one already, and without any the flag can only be raised from outside. -/
structure Reasoned (outside : Prop) (done : List (Nat × Evaluation)) (r : Run σ) : Prop where
  custody : r.Custody
  phases : ∀ {k : Nat} {v : Worker}, r.workers[k]? = some v →
    v.phase.Reasoned (Found done) r.shared.stop
  given : ∀ reason, r.shared.stop.given = some reason → Found done reason
  pending : ∀ reason, Found done reason → r.shared.stop.given ≠ none ∨
    ∃ (k : Nat) (v : Worker) (x : Stop.Reason) (cause : Option Error),
      r.workers[k]? = some v ∧ v.phase = .giving x cause
  raised : r.shared.stop.raised = true → outside ∨ r.shared.stop.given ≠ none
  evaluated : ∀ a ∈ done, a.2.reason = r.job.policy.evaluate a.2.seen a.2.now

theorem Found.append {reason : Stop.Reason} (h : Found done reason)
    (more : List (Nat × Evaluation)) : Found (done ++ more) reason := by
  obtain ⟨a, ha, hr⟩ := h
  exact ⟨a, List.mem_append_left _ ha, hr⟩

theorem found_concat {e : Evaluation} {reason : Stop.Reason} (he : e.reason = some reason) :
    Found (done ++ [(i, e)]) reason :=
  ⟨(i, e), List.mem_append_right _ List.mem_cons_self, he⟩

theorem giving_of_evaluation? {e : Evaluation} {reason : Stop.Reason}
    (h : w.evaluation? r.job now = some e) (he : e.reason = some reason) :
    (w.step dev r.job now r.shared r.device).worker.phase = .giving reason none := by
  obtain ⟨hp, hnow, hreason⟩ := Worker.evaluate_of_evaluation? h
  rw [he, hnow] at hreason
  simp only [Worker.step, hp, Worker.judge, ← hreason]
  rfl

theorem given_of_giving {reason : Stop.Reason} {cause : Option Error}
    (hp : w.phase = .giving reason cause) :
    (w.step dev r.job now r.shared r.device).shared.stop.given ≠ none := by
  simp only [Worker.step, hp]
  exact Worker.give_ne_none _ _

theorem Reasoned.pending_after (h : r.Reasoned outside done) (hw : r.workers[i]? = some w)
    {reason : Stop.Reason} (hf : Found (done ++ ((w.evaluation? r.job now).map (i, ·)).toList) reason) :
    let t := w.step dev r.job now r.shared r.device
    t.shared.stop.given ≠ none ∨
      ∃ (k : Nat) (v : Worker) (x : Stop.Reason) (cause : Option Error),
        (r.after i w t).workers[k]? = some v ∧ v.phase = .giving x cause := by
  intro t
  have ht : w.Transition dev r.job now r.shared r.device t := Worker.step_transition
  obtain ⟨a, ha, hreason⟩ := hf
  rcases List.mem_append.mp ha with ha | ha
  -- Who was about to give a reason still is, unless this step has given it.
  · rcases h.pending reason ⟨a, ha, hreason⟩ with hg | ⟨k, v, x, cause, hv, hp⟩
    · exact .inl (ht.given_ne_none hg)
    by_cases hk : k = i
    · subst hk
      cases hw.symm.trans hv
      exact .inl (given_of_giving hp)
    · exact .inr ⟨k, v, x, cause, (getElem?_after_ne hk).trans hv, hp⟩
  · cases he : w.evaluation? r.job now with
    | none =>
      rw [he] at ha
      cases ha
    | some e =>
      rw [he] at ha
      cases List.mem_singleton.mp ha
      exact .inr ⟨i, _, reason, none, getElem?_after_self hw, giving_of_evaluation? he hreason⟩

theorem Reasoned.step (h : r.Reasoned outside done) (hw : r.workers[i]? = some w) :
    (r.after i w (w.step dev r.job now r.shared r.device)).Reasoned outside
      (done ++ ((w.evaluation? r.job now).map (i, ·)).toList) := by
  have ht : w.Transition dev r.job now r.shared r.device
      (w.step dev r.job now r.shared r.device) := Worker.step_transition
  have hphase := h.phases hw
  refine ⟨h.custody.after hw ht, fun {k v} hv => ?_, fun reason hg => ?_,
    fun reason hf => h.pending_after hw hf, fun hr => ?_, fun a ha => ?_⟩
  · rcases worker_after hw hv with ⟨rfl, rfl⟩ | ⟨-, hv⟩
    · refine ht.reasoned (hphase.mono (fun _ hf => hf.append _) id id)
        (fun b written e hp => h.custody.not_refused hw hp e) fun e reason he hreason => ?_
      rw [he]
      exact found_concat hreason
    · exact (h.phases hv).mono (fun _ hf => hf.append _) ht.given_ne_none ht.raised
  · rcases ht.given hg with hg | ⟨cause, hp⟩
    · exact (h.given reason hg).append _
    · rw [hp] at hphase
      exact Found.append hphase _
  · rcases ht.raised_of_reasoned hphase hr with hr | hg
    · exact (h.raised hr).imp_right ht.given_ne_none
    · exact .inr (ht.given_ne_none hg)
  · rcases List.mem_append.mp ha with ha | ha
    · exact h.evaluated a ha
    · cases he : w.evaluation? r.job now with
      | none =>
        rw [he] at ha
        cases ha
      | some e =>
        rw [he] at ha
        cases List.mem_singleton.mp ha
        exact (Worker.evaluate_of_evaluation? he).2.2

theorem Reasoned.interrupt (h : r.Reasoned outside done) (ho : outside) :
    r.interrupt.Reasoned outside done :=
  ⟨h.custody.interrupt, fun hv => (h.phases hv).mono (fun _ => id) id fun _ => rfl, h.given,
    h.pending, fun _ => .inl ho, h.evaluated⟩

theorem Reasoned.play {moves : List Move} (h : r.Reasoned outside done)
    (ho : .interrupt ∈ moves → outside) :
    (r.play dev moves).Reasoned outside (done ++ r.evaluations dev moves) :=
  notes_induction (fun h hw => h.step hw) (fun hm _ _ h => h.interrupt (ho hm)) h

variable {d : σ} {setting : Setting} {events : List Event}

theorem Started.reasoned (h : Started dev d c setting events r) (ho : setting.stopped = true → outside) :
    r.Reasoned outside [] := by
  refine ⟨h.custody, fun hv => ?_, fun reason hg => ?_, fun reason hf => ?_, fun hr => ?_, nofun⟩
  · rw [h.polling hv]
    trivial
  · rw [h.shared] at hg
    cases hg
  · obtain ⟨a, ha, -⟩ := hf
    cases ha
  · rw [h.shared] at hr
    exact .inl (ho hr)

/-- What a reason to stop says of a run is true. -/
structure Explained (c : Config) (setting : Setting) (nBlocks : Nat) (moves : List Move)
    (evaluations : List (Nat × Evaluation)) (stats : Stats) (reason : Stop.Reason) : Prop where
  aborted : reason ≠ .aborted
  iterations : reason = .iterationBudget → ∃ n, c.count = some n ∧ n ≤ stats.iterations
  verified : reason = .fullCoverage → c.stopAtFull = true ∧ nBlocks ≤ stats.verified.toNat
  mismatches : reason = .failure → c.stopOnFailure = true ∧ 0 < stats.mismatches
  deadline : reason = .deadline → ∃ t, c.duration = some t ∧
    ∃ a ∈ evaluations, setting.start.nanos + t.nanos ≤ a.2.now.nanos
  signalled : reason = .signalled → (setting.stopped = true ∨ .interrupt ∈ moves) ∧
    ∀ a ∈ evaluations, a.2.reason = none

theorem Started.raised_of_finished (h : Started dev d c setting events r) {moves : List Move}
    (hr : (r.play dev moves).Reasoned outside done)
    (hw : ∀ w ∈ (r.play dev moves).workers.toList, ∃ samples, w.phase = .stopped (.ok samples)) :
    (r.play dev moves).shared.stop.raised = true := by
  have hsize : 0 < (r.play dev moves).workers.size := by
    rw [play_size, h.size]
    exact Nat.pos_of_ne_zero fun hz => h.valid.workers (UInt64.toNat_inj.mp hz)
  have hv := Array.getElem?_eq_getElem hsize
  obtain ⟨samples, hp⟩ := hw _ (Array.getElem_mem_toList hsize)
  have hphase := hr.phases hv
  rw [hp] at hphase
  exact hphase

theorem Reasoned.not_found (h : r.Reasoned outside done) (hg : r.shared.stop.given = none)
    (hw : ∀ w ∈ r.workers.toList, ∃ samples, w.phase = .stopped (.ok samples)) :
    ∀ a ∈ done, a.2.reason = none := by
  intro a ha
  by_contra hreason
  obtain ⟨reason, he⟩ := Option.ne_none_iff_exists'.mp hreason
  rcases h.pending reason ⟨a, ha, he⟩ with hne | ⟨k, v, x, cause, hv, hp⟩
  · exact hne hg
  · obtain ⟨samples, hp'⟩ := hw v (List.mem_of_getElem? (by rwa [Array.getElem?_toList]))
    cases hp.symm.trans hp'

theorem Started.explained_of_found (h : Started dev d c setting events r) {moves : List Move}
    (hn : r.NoWrap dev moves) (hr : (r.play dev moves).Reasoned outside (r.evaluations dev moves))
    {reason : Stop.Reason} (hg : (r.play dev moves).shared.stop.given = some reason) :
    Explained c setting r.job.geometry.nBlocks moves (r.evaluations dev moves)
      (r.play dev moves).shared.stats reason := by
  have hjob := play_job r dev moves
  have hbacked := h.backed.play h.policy h.nBlocks_lt hn
  have hjustifies := hbacked.given reason hg
  obtain ⟨a, ha, hreason⟩ := hr.given reason hg
  have hevaluate := hr.evaluated a ha
  rw [hreason, hjob] at hevaluate
  rw [hjob] at hjustifies
  refine ⟨?_, ?_, ?_, ?_, ?_, ?_⟩
  · rintro rfl
    exact Config.evaluate_ne_aborted hevaluate.symm
  · rintro rfl
    exact (hjustifies .iterations rfl).count_le
  · rintro rfl
    exact (hjustifies .verified rfl).nBlocks_le
  · rintro rfl
    exact (hjustifies .mismatches rfl).mismatches_pos
  · rintro rfl
    obtain ⟨t, ht, hle⟩ := Config.elapsed_of_evaluate hevaluate.symm h.policy
    exact ⟨t, ht, a, ha, hle⟩
  · rintro rfl
    exact absurd hevaluate.symm Config.evaluate_ne_signalled

/-- A run that ends well has stopped for a reason, which is true of it, whatever the device answers,
however the workers take turns, and whether or not it is also stopped from outside.  Once the policy
finds a reason, it finds one whenever the counters and the clock have gone on. -/
theorem reason_justified :
    (start dev d c setting = (events, .ok r) → ∀ moves now summary, r.NoWrap dev moves →
      (r.play dev moves).finish now = .ok summary →
      ∃ reason, summary.stopReason = some reason ∧
        Explained c setting r.job.geometry.nBlocks moves (r.evaluations dev moves) summary.stats
          reason) ∧
    ∀ (p : Stop.Policy) (s s' : Stats) (now now' : Instant), p.evaluate s now ≠ none → s.Le s' →
      now.nanos ≤ now'.nanos → p.evaluate s' now' ≠ none := by
  refine ⟨fun hs moves now summary hn hf => ?_,
    fun p s s' now now' h hle hnow => Stop.Policy.evaluate_mono h hle hnow⟩
  have h := started_of_start hs
  have hfinished := finished_of_finish hf
  have hr : (r.play dev moves).Reasoned (setting.stopped = true ∨ .interrupt ∈ moves)
      (r.evaluations dev moves) := (h.reasoned .inl).play .inr
  have hstopped := stopped_of_collect hfinished.rates
  have hraised := h.raised_of_finished hr hstopped
  rw [hfinished.stopReason, hfinished.stats, Stop.Signal.reason]
  cases hg : (r.play dev moves).shared.stop.given with
  | some reason => exact ⟨reason, rfl, h.explained_of_found hn hr hg⟩
  | none =>
    refine ⟨.signalled, by rw [hraised]; rfl, nofun, nofun, nofun, nofun, nofun, fun _ => ?_⟩
    exact ⟨(hr.raised hraised).resolve_right (not_not_intro hg), hr.not_found hg hstopped⟩

/-- Two workers that stop after an iteration each, as there is to be no more than one. -/
theorem reason_justified_of_two_workers :
    let c : Config := { Config.standard with
      blockSize := 512, workers := 2, uniquePct := 0, trimPct := 100, count := some 1 }
    let d : Memory := ⟨.zeroes 2048, false, true, false, false, 0, 0, 0⟩
    let setting : Setting := ⟨false, 0, ⟨0⟩,
      fun id => .words [0, 0, 0, if id = 0 then 0 else 0x80000000, 0]⟩
    let moves : List Move := (List.range 60).map fun n => .step (n % 2) ⟨n⟩
    ∃ events r summary, start Memory.device d c setting = (events, .ok r) ∧
      (r.play Memory.device moves).finish ⟨60⟩ = .ok summary ∧
      summary.stopReason = some .iterationBudget ∧ 1 ≤ summary.stats.iterations := by
  intro c d setting moves
  have hv : c.validate = .ok () := by decide +kernel
  have hsize : Memory.device.size d = .ok 2048 := rfl
  obtain ⟨events, r, hs, hn, hstopped, hreason⟩ : ∃ events r,
      start Memory.device d c setting = (events, .ok r) ∧ r.NoWrap Memory.device moves ∧
      (∀ w ∈ (r.play Memory.device moves).workers.toList, ∃ res, w.phase = .stopped res) ∧
      (r.play Memory.device moves).shared.stop.reason = some .iterationBudget :=
    ⟨_, _, start_eq hv hsize (by decide) (dif_pos (by decide)) (make_lock (by decide) (by decide))
      rfl rfl, fun x => by cases x <;> decide +kernel, by decide +kernel, by decide +kernel⟩
  have hlimit (size : Nat) (h : Memory.device.size d = .ok size) : size < Word.limit := by
    cases hsize.symm.trans h
    decide
  obtain ⟨summary, hf⟩ := (started_of_start hs).exists_finish hlimit hstopped ⟨60⟩
  have hstop : summary.stopReason = some .iterationBudget :=
    (finished_of_finish hf).stopReason.trans hreason
  obtain ⟨reason, he, hexplained⟩ := reason_justified.1 hs moves ⟨60⟩ summary hn hf
  cases hstop.symm.trans he
  obtain ⟨n, hcount, hle⟩ := hexplained.iterations rfl
  cases hcount
  exact ⟨events, r, summary, hs, hf, hstop, hle⟩

end Readback.Run
