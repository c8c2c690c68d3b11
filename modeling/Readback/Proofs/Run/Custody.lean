import Readback.Proofs.Worker.Custody
import Readback.Run

namespace Readback

namespace Run

variable {σ : Type} {dev : Device σ} {r : Run σ} {now : Instant} {i k : Nat} {w v : Worker}
  {t : Worker.Turn σ}

/-- The run after the `i`-th worker took its turn. -/
def after (r : Run σ) (i : Nat) (w : Worker) (t : Worker.Turn σ) : Run σ :=
  { r with
    shared := t.shared
    device := t.device
    workers := r.workers.setIfInBounds i t.worker
    log := (t.events.map (LogEntry.mk (some w.id))).reverse ++ r.log
    printed := t.printed.toList ++ r.printed }

theorem step_eq (h : r.workers[i]? = some w) :
    r.step dev now i = r.after i w (w.step dev r.job now r.shared r.device) := by
  unfold step
  rw [h]
  rfl

theorem step_of_none (h : r.workers[i]? = none) : r.step dev now i = r := by
  unfold step
  rw [h]

theorem step_job (r : Run σ) (dev : Device σ) (now : Instant) (i : Nat) :
    (r.step dev now i).job = r.job := by
  cases h : r.workers[i]? with
  | none => rw [step_of_none h]
  | some w => rw [step_eq h, after]

/-- What holds after any step of any worker, if it holds before. -/
theorem step_induction {P : Run σ → Prop} (h : P r)
    (hw : ∀ w, r.workers[i]? = some w → ∀ t, w.Transition dev r.job now r.shared r.device t →
      t = w.step dev r.job now r.shared r.device → P (r.after i w t)) :
    P (r.step dev now i) := by
  cases hi : r.workers[i]? with
  | none =>
    rw [step_of_none hi]
    exact h
  | some w =>
    rw [step_eq hi]
    exact hw w hi _ Worker.step_transition rfl

theorem getElem?_after_self (h : r.workers[i]? = some w) :
    (r.after i w t).workers[i]? = some t.worker := by
  obtain ⟨hi, -⟩ := Array.getElem?_eq_some_iff.mp h
  exact Array.getElem?_setIfInBounds_self_of_lt hi

theorem getElem?_after_ne (h : k ≠ i) : (r.after i w t).workers[k]? = r.workers[k]? :=
  Array.getElem?_setIfInBounds_ne h.symm

theorem worker_after (h : r.workers[i]? = some w) (hv : (r.after i w t).workers[k]? = some v) :
    k = i ∧ v = t.worker ∨ k ≠ i ∧ r.workers[k]? = some v := by
  by_cases hk : k = i
  · subst hk
    rw [getElem?_after_self h] at hv
    exact .inl ⟨rfl, (Option.some.inj hv).symm⟩
  · rw [getElem?_after_ne hk] at hv
    exact .inr ⟨hk, hv⟩

/-- A worker has a lease in its hands. -/
def Has (r : Run σ) (k : Nat) (l : Lease) : Prop :=
  ∃ v, r.workers[k]? = some v ∧ v.phase.lease? = some l

theorem has_after {l : Lease} (hw : r.workers[i]? = some w) (h : (r.after i w t).Has k l) :
    k = i ∧ t.worker.phase.lease? = some l ∨ k ≠ i ∧ r.Has k l := by
  obtain ⟨v, hv, hl⟩ := h
  rcases worker_after hw hv with ⟨rfl, rfl⟩ | ⟨hk, hv⟩
  · exact .inl ⟨rfl, hl⟩
  · exact .inr ⟨hk, v, hv, hl⟩

/-- Each lease in the hands of a worker is active in the lock, has the states of its blocks as they
are in the table, and is in the hands of no other worker. -/
structure Custody (r : Run σ) : Prop where
  job : r.job.Sound
  lock : r.shared.lock.Sound
  nBlocks : r.shared.lock.nBlocks = r.job.geometry.nBlocks
  formed : ∀ {k : Nat} {v : Worker}, r.workers[k]? = some v → v.phase.Formed r.job
  held : ∀ {k : Nat} {l : Lease}, r.Has k l → l.range ∈ r.shared.lock.active
  prior : ∀ {k : Nat} {l : Lease}, r.Has k l → l.prior = r.shared.lock.priorOf l.range
  apart : ∀ {k k' : Nat} {l l' : Lease}, r.Has k l → r.Has k' l' → l.range = l'.range → k = k'

theorem Custody.disjoint (hr : r.Custody) {l l' : Lease} (h : r.Has k l) (h' : r.Has i l')
    (hki : k ≠ i) {b : Nat} (hb : b ∈ l.range.blocks) : b ∉ l'.range.blocks := fun hb' =>
  hki (hr.apart h h' (hr.lock.active.eq_of_mem (hr.held h) (hr.held h') hb hb'))

theorem Custody.blockSize_pos (hr : r.Custody) : 0 < r.job.geometry.blockSize :=
  hr.job.blockSize ▸ r.job.content.blockSize_pos

theorem Custody.handles (hr : r.Custody) (hw : r.workers[i]? = some w)
    (ht : w.Transition dev r.job now r.shared r.device t) :
    w.phase.Handles r.shared.lock t.worker.phase t.shared.lock :=
  ht.handles hr.lock fun _ hl => hr.held ⟨w, hw, hl⟩

theorem Custody.formed_after (hr : r.Custody) (hw : r.workers[i]? = some w)
    (ht : w.Transition dev r.job now r.shared r.device t)
    (hv : (r.after i w t).workers[k]? = some v) : v.phase.Formed r.job := by
  rcases worker_after hw hv with ⟨rfl, rfl⟩ | ⟨hk, hv⟩
  · exact ht.formed (hr.formed hw)
  · exact hr.formed hv

theorem Custody.keep (hr : r.Custody) (hw : r.workers[i]? = some w)
    (ht : w.Transition dev r.job now r.shared r.device t) (hk : t.shared.lock = r.shared.lock)
    (hl : ∀ l, t.worker.phase.lease? = some l → w.phase.lease? = some l) :
    (r.after i w t).Custody := by
  have hold {k : Nat} {l : Lease} (h : (r.after i w t).Has k l) : r.Has k l := by
    rcases has_after hw h with ⟨rfl, ho⟩ | ⟨-, ho⟩
    · exact ⟨w, hw, hl l ho⟩
    · exact ho
  refine ⟨hr.job, hk ▸ hr.lock, ?_, hr.formed_after hw ht, fun h => ?_, fun h => ?_, fun h h' =>
    hr.apart (hold h) (hold h')⟩
  · exact (congrArg _ hk).trans hr.nBlocks
  · exact (congrArg RangeLock.active hk) ▸ hr.held (hold h)
  · exact hk ▸ hr.prior (hold h)

theorem Custody.grant (hr : r.Custody) (hw : r.workers[i]? = some w)
    (ht : w.Transition dev r.job now r.shared r.device t) {m : Lease}
    (hg : r.shared.lock.Granted m t.shared.lock)
    (hl : ∀ l, t.worker.phase.lease? = some l → l = m) : (r.after i w t).Custody := by
  refine ⟨hr.job, hg.sound hr.lock, ?_, hr.formed_after hw ht, fun h => ?_, fun h => ?_,
    fun h h' he => ?_⟩
  · show t.shared.lock.nBlocks = _
    rw [hg.after]
    exact hr.nBlocks
  · apply (hg.mem hr.lock).mpr
    rcases has_after hw h with ⟨rfl, ho⟩ | ⟨-, ho⟩
    · exact .inl (by rw [hl _ ho])
    · exact .inr (hr.held ho)
  · refine Eq.trans ?_ (hg.priorOf _).symm
    rcases has_after hw h with ⟨rfl, ho⟩ | ⟨-, ho⟩
    · rw [hl _ ho]
      exact hg.prior
    · exact hr.prior ho
  · rcases has_after hw h with ⟨rfl, ho⟩ | ⟨-, ho⟩ <;>
      rcases has_after hw h' with ⟨rfl, ho'⟩ | ⟨-, ho'⟩
    · rfl
    · rw [hl _ ho] at he
      exact absurd (he ▸ hr.held ho') (hg.not_mem hr.lock)
    · rw [hl _ ho'] at he
      exact absurd (he ▸ hr.held ho) (hg.not_mem hr.lock)
    · exact hr.apart ho ho' he

theorem Custody.release (hr : r.Custody) (hw : r.workers[i]? = some w)
    (ht : w.Transition dev r.job now r.shared r.device t) {m : Lease} {states : List BlockState}
    (hm : w.phase.lease? = some m) (hb : r.shared.lock.Released m states t.shared.lock)
    (hl : t.worker.phase.lease? = none) : (r.after i w t).Custody := by
  have hold {k : Nat} {l : Lease} (h : (r.after i w t).Has k l) : k ≠ i ∧ r.Has k l := by
    rcases has_after hw h with ⟨rfl, ho⟩ | ho
    · rw [hl] at ho
      cases ho
    · exact ho
  have hne {k : Nat} {l : Lease} (h : k ≠ i ∧ r.Has k l) : l.range ≠ m.range :=
    fun he => h.1 (hr.apart h.2 ⟨w, hw, hm⟩ he)
  refine ⟨hr.job, hb.sound, hb.nBlocks.trans hr.nBlocks, hr.formed_after hw ht, fun h => ?_,
    fun h => ?_, fun h h' => hr.apart (hold h).2 (hold h').2⟩
  · exact (hb.mem_active hr.lock).mpr ⟨hr.held (hold h).2, hne (hold h)⟩
  · exact (hr.prior (hold h).2).trans
      (hb.priorOf hr.lock (hr.held (hold h).2) (hne (hold h))).symm

theorem Custody.after (hr : r.Custody) (hw : r.workers[i]? = some w)
    (ht : w.Transition dev r.job now r.shared r.device t) : (r.after i w t).Custody := by
  cases hr.handles hw ht with
  | keep hk hl => exact hr.keep hw ht hk hl
  | grant hp hg hl => exact hr.grant hw ht hg hl
  | release hp he hb hl => exact hr.release hw ht (by rw [hp]; rfl) hb hl

theorem Custody.interrupt (hr : r.Custody) : r.interrupt.Custody :=
  ⟨hr.job, hr.lock, hr.nBlocks, hr.formed, hr.held, hr.prior, hr.apart⟩

theorem Custody.move (hr : r.Custody) (m : Move) : (r.move dev m).Custody := by
  cases m with
  | step i now => exact step_induction hr fun w hw t ht _ => hr.after hw ht
  | interrupt => exact hr.interrupt

theorem Custody.play (hr : r.Custody) (moves : List Move) : (r.play dev moves).Custody := by
  induction moves generalizing r with
  | nil => exact hr
  | cons m rest ih => exact ih (hr.move m)

end Run

end Readback
