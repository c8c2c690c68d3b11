import Readback.Proofs.Run.Finish
import Readback.Proofs.Run.Holding
import Readback.Proofs.Worker.Safety
import Readback.Proofs.Worker.Stopping

namespace Readback

/-- A fault that the program cannot help: the random words gave out, or the device gave way. -/
def Device.Excuses {σ : Type} (dev : Device σ) (f : Fault) : Prop :=
  f = .exhausted ∨ ∃ q d d', dev.answer q d = (.error (.fault f), d')

namespace Run

variable {σ : Type} {dev : Device σ} {r : Run σ} {now : Instant} {i k : Nat} {w v : Worker}
  {t : Worker.Turn σ} {d : σ} {c : Config} {setting : Setting} {events : List Event}

/-- What keeps workers from tripping: the leases are in order, the bytes of the blocks can be
counted, and the outcomes account for their blocks. -/
structure Regular (r : Run σ) : Prop where
  custody : r.Custody
  room : r.job.geometry.nBlocks * r.job.geometry.blockSize < Word.limit
  accounted : ∀ {k : Nat} {v : Worker}, r.workers[k]? = some v → v.phase.Accounted

theorem Regular.after (h : r.Regular) (hw : r.workers[i]? = some w)
    (ht : w.Transition dev r.job now r.shared r.device t) : (r.after i w t).Regular := by
  refine ⟨h.custody.after hw ht, h.room, fun hv => ?_⟩
  rcases worker_after hw hv with ⟨rfl, rfl⟩ | ⟨-, hv⟩
  · exact ht.accounted (h.accounted hw)
  · exact h.accounted hv

theorem Regular.interrupt (h : r.Regular) : r.interrupt.Regular :=
  ⟨h.custody.interrupt, h.room, h.accounted⟩

theorem Regular.play (h : r.Regular) (moves : List Move) : (r.play dev moves).Regular :=
  play_induction (fun h hw ht => h.after hw ht) (fun h => h.interrupt) h moves

theorem Started.regular (h : Started dev d c setting events r)
    (hsize : ∀ size, dev.size d = .ok size → size < Word.limit) : r.Regular := by
  obtain ⟨size, hs, hg⟩ := h.geometry
  refine ⟨h.custody, ?_, fun hv b hb => ?_⟩
  · exact Nat.lt_of_le_of_lt (Geometry.nBlocks_mul_le hg) (hsize size hs)
  · rw [h.polling hv] at hb
    cases hb

theorem Regular.rangeBytes (h : r.Regular) {a : BlockRange} (hle : a.start ≤ a.stop)
    (hstop : a.stop ≤ r.job.geometry.nBlocks) :
    r.job.geometry.rangeBytes a = .ok (a.start * r.job.geometry.blockSize,
      (a.stop - a.start) * r.job.geometry.blockSize) :=
  Geometry.rangeBytes_of_lt hle
    (Nat.lt_of_le_of_lt (Nat.mul_le_mul_right _ hstop) h.room)

theorem Regular.lt_limit (h : r.Regular) {a : BlockRange}
    (hstop : a.stop ≤ r.job.geometry.nBlocks) :
    ∀ b ∈ a.blocks, b * r.job.geometry.blockSize < Word.limit := by
  intro b hb
  have hlt := Nat.lt_of_lt_of_le (BlockRange.mem_blocks.mp hb).2 hstop
  exact Nat.lt_of_le_of_lt (Nat.mul_le_mul_right _ (Nat.le_of_lt hlt)) h.room

theorem Regular.fits (h : r.Regular) (hw : r.workers[i]? = some w) {l : Lease}
    (hl : w.phase.lease? = some l) :
    l.range.start < l.range.stop ∧ l.range.stop ≤ r.job.geometry.nBlocks := by
  rw [← h.custody.nBlocks]
  exact h.custody.lock.active.proper _ (h.custody.held ⟨w, hw, hl⟩)

theorem Regular.fits_granted (h : r.Regular) {l : Lease} {lock : RangeLock} {source source' : Source}
    (hg : r.shared.lock.tryCandidates RangeLock.attempts source = .ok (some (l, lock), source')) :
    l.range.start < l.range.stop ∧ l.range.stop ≤ r.job.geometry.nBlocks := by
  rw [← h.custody.nBlocks]
  exact (Worker.granted_of_tryCandidates h.custody.lock hg).fits

theorem Regular.trips (h : r.Regular) (hw : r.workers[i]? = some w) {f : Fault}
    (ht : w.Trips dev r.job r.shared r.device f) : dev.Excuses f := by
  cases ht with
  | draw hp hd =>
    rcases h.custody.lock.tryCandidates RangeLock.attempts w.source with
      he | ⟨s', he⟩ | ⟨l, k', s', he, -⟩
    · rw [hd] at he
      cases he
      exact .inl rfl
    · cases hd.symm.trans he
    · cases hd.symm.trans he
  | range hl hr =>
    obtain ⟨hlt, hstop⟩ := h.fits hw hl
    cases hr.symm.trans (h.rangeBytes (Nat.le_of_lt hlt) hstop)
  | @run b run rest f hp hr =>
    have hf := h.custody.formed hw
    rw [hp] at hf
    obtain ⟨hlt, -⟩ := hf.1.mem_run (hf.2 run List.mem_cons_self)
    obtain ⟨-, hstop⟩ := hf.1.run_within (hf.2 run List.mem_cons_self)
    have hfits := h.fits hw (l := b.lease) (by rw [hp]; rfl)
    cases hr.symm.trans (h.rangeBytes (Nat.le_of_lt hlt) (Nat.le_trans hstop hfits.2))
  | device ha he => exact .inr ⟨_, _, _, he⟩
  | @compare l offset n bytes d' f hp hr he ho =>
    have hfits := h.fits hw (l := l) (by rw [hp]; rfl)
    obtain ⟨o, ho'⟩ := Outcome.exists_ofBytes h.custody.job.small (h.lt_limit hfits.2) bytes.1
    cases ho.symm.trans ho'
  | release hp he =>
    obtain ⟨newly, k', he'⟩ := h.custody.exists_release hw hp
    cases he.symm.trans he'

theorem Regular.exists_failed (h : r.Regular) (hw : r.workers[i]? = some w) {b : Batch}
    {written : Bool} (hp : w.phase = .releasing b written) (n bytes newly : Nat) :
    ∃ failed, (Worker.recordOf b written n bytes newly).failed = .ok failed := by
  have hcompared := (h.accounted hw b (by rw [hp]; rfl)).compared
  have hm : b.lease.range ∈ r.shared.lock.active := h.custody.held ⟨w, hw, by rw [hp]; rfl⟩
  exact Worker.exists_failed_of_le h.custody.lock (h.custody.lock.active.proper _ hm)
    (Nat.le_trans (Nat.le_add_left _ _) hcompared) n bytes newly

theorem Regular.calm_prepared (h : r.Regular) {s : Shared} {x : σ} {u : Worker} {l : Lease}
    {o : Outcome} (ht : u.Prepared r.job s x l o t)
    (hstop : l.range.stop ≤ r.job.geometry.nBlocks) : t.worker.phase.Calm dev.Excuses := by
  cases ht with
  | ready hc => trivial
  | fault hc => exact .inl (Worker.compose_error h.custody.job.small (h.lt_limit hstop) hc)

/-- No worker gives up, and none crashes over anything that the program could help. -/
theorem Regular.calm (h : r.Regular) (hw : r.workers[i]? = some w)
    (ht : w.Transition dev r.job now r.shared r.device t) (hc : w.phase.Calm dev.Excuses) :
    t.worker.phase.Calm dev.Excuses := by
  cases ht with
  | stop hp hr => exact ⟨_, rfl⟩
  | grantUnwritten hp hg hu hn ht => exact h.calm_prepared ht (h.fits_granted hg).2
  | unread hp hr he ht => exact h.calm_prepared ht (h.fits hw (by rw [hp]; rfl)).2
  | compare hp hr he ho ht => exact h.calm_prepared ht (h.fits hw (by rw [hp]; rfl)).2
  | write hp hr he => exact Worker.discardNext_calm _ _
  | discard hp hr he => exact Worker.discardNext_calm _ _
  | release hp he hr hn hf => exact Worker.recordNext_calm _
  | refuse hp he => exact absurd he (h.custody.not_refused hw hp _)
  | record hp => exact Worker.recordNext_calm _
  | judge hp hr => exact ⟨fun he => Config.evaluate_ne_aborted (he ▸ hr), rfl⟩
  | give hp =>
    rw [hp] at hc
    exact hc.2
  | abort hp =>
    rw [hp] at hc
    cases hc
  | retry hp he => exact hc
  | idle hp => exact hc
  | crash hd hf => exact h.trips hw hf
  | @crashGranted l lock source f hp hg hl =>
    have hlen : l.range.length = .ok _ := Word.sub_of_le (Nat.le_of_lt (h.fits_granted hg).1)
    cases hl.symm.trans hlen
  | @crashRecorded b written newly lock f hp he hf =>
    obtain ⟨hlt, hstop⟩ := h.fits hw (l := b.lease) (by rw [hp]; rfl)
    rcases hf with hf | hf | ⟨n, bytes, hf⟩
    · cases hf.symm.trans (h.rangeBytes (Nat.le_of_lt hlt) hstop)
    · have hlen : b.range.length = .ok _ := Word.sub_of_le (Nat.le_of_lt hlt)
      cases hf.symm.trans hlen
    · obtain ⟨failed, hf'⟩ := h.exists_failed hw hp n bytes newly
      cases hf.symm.trans hf'
  | _ => trivial

/-- A run in which nobody gave up. -/
structure Unbroken (dev : Device σ) (r : Run σ) : Prop where
  regular : r.Regular
  calm : ∀ {k : Nat} {v : Worker}, r.workers[k]? = some v → v.phase.Calm dev.Excuses
  given : r.shared.stop.given ≠ some .aborted

theorem Unbroken.after (h : r.Unbroken dev) (hw : r.workers[i]? = some w)
    (ht : w.Transition dev r.job now r.shared r.device t) : (r.after i w t).Unbroken dev := by
  refine ⟨h.regular.after hw ht, fun hv => ?_, fun hg => ?_⟩
  · rcases worker_after hw hv with ⟨rfl, rfl⟩ | ⟨-, hv⟩
    · exact h.regular.calm hw ht (h.calm hw)
    · exact h.calm hv
  · rcases ht.given hg with hg | ⟨cause, hp⟩
    · exact h.given hg
    · have hc := h.calm hw
      rw [hp] at hc
      exact hc.1 rfl

theorem Unbroken.play (h : r.Unbroken dev) (moves : List Move) :
    (r.play dev moves).Unbroken dev :=
  play_induction (fun h hw ht => h.after hw ht)
    (fun h => ⟨h.regular.interrupt, h.calm, h.given⟩) h moves

theorem Started.unbroken (h : Started dev d c setting events r)
    (hsize : ∀ size, dev.size d = .ok size → size < Word.limit) : r.Unbroken dev := by
  refine ⟨h.regular hsize, fun hv => ?_, ?_⟩
  · rw [h.polling hv]
    trivial
  · rw [h.shared]
    nofun

theorem Unbroken.reason (h : r.Unbroken dev) : r.shared.stop.reason ≠ some .aborted :=
  fun hr => h.given (Stop.Signal.given_of_reason hr nofun)

theorem Holds.idle {acts : List (Nat × Act)} (h : r.Holds acts)
    (hw : ∀ w ∈ r.workers.toList, ∃ res, w.phase = .stopped res) :
    r.shared.lock.active = [] := by
  refine h.active_eq_nil fun {k v} hv => ?_
  rw [← Array.getElem?_toList] at hv
  obtain ⟨res, hp⟩ := hw v (List.mem_of_getElem? hv)
  rw [hp]
  exact ⟨rfl, nofun⟩

theorem Unbroken.stopped (h : r.Unbroken dev)
    (hw : ∀ w ∈ r.workers.toList, ∃ res, w.phase = .stopped res) :
    ∀ w ∈ r.workers.toList, ∃ samples, w.phase = .stopped (.ok samples) := by
  intro w hmem
  obtain ⟨res, hp⟩ := hw w hmem
  obtain ⟨k, hv⟩ := List.getElem?_of_mem hmem
  rw [Array.getElem?_toList] at hv
  have hc := h.calm hv
  rw [hp] at hc
  obtain ⟨samples, rfl⟩ := hc
  exact ⟨samples, hp⟩

theorem Started.exists_finish (h : Started dev d c setting events r)
    (hsize : ∀ size, dev.size d = .ok size → size < Word.limit) {moves : List Move}
    (hw : ∀ w ∈ (r.play dev moves).workers.toList, ∃ res, w.phase = .stopped res)
    (now : Instant) : ∃ summary, (r.play dev moves).finish now = .ok summary := by
  have hr := (h.unbroken hsize).play moves
  exact Run.exists_finish (hr.stopped hw) hr.regular.custody.lock ((h.holds moves).idle hw) now

end Run

end Readback
