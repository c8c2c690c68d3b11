import Readback.Proofs.Except
import Readback.Proofs.RangeLock.Lock
import Readback.Run

namespace Readback.Run

variable {σ : Type} {r : Run σ} {now : Instant} {summary : Summary} {ws : List Worker}
  {rates rates' : RateSamples}

theorem stopped_of_collect (h : collect rates ws = .ok rates') :
    ∀ w ∈ ws, ∃ samples, w.phase = .stopped (.ok samples) := by
  induction ws generalizing rates with
  | nil =>
    intro w hw
    cases hw
  | cons w rest ih =>
    unfold collect at h
    split at h
    · rename_i samples hp
      exact List.forall_mem_cons.mpr ⟨⟨samples, hp⟩, ih h⟩
    · cases h
    · cases h

theorem exists_collect (h : ∀ w ∈ ws, ∃ samples, w.phase = .stopped (.ok samples))
    (rates : RateSamples) : ∃ rates', collect rates ws = .ok rates' := by
  induction ws generalizing rates with
  | nil => exact ⟨rates, rfl⟩
  | cons w rest ih =>
    obtain ⟨⟨samples, hp⟩, hrest⟩ := List.forall_mem_cons.mp h
    rw [collect, hp]
    exact ih hrest _

structure Finished (r : Run σ) (summary : Summary) : Prop where
  rates : collect .empty r.workers.toList = .ok summary.rates
  stats : summary.stats = r.shared.stats
  stopReason : summary.stopReason = r.shared.stop.reason

theorem finished_of_finish (h : r.finish now = .ok summary) : r.Finished summary := by
  obtain ⟨rates, hc, h⟩ := bind_eq_ok h
  obtain ⟨u, -, h⟩ := bind_eq_ok h
  obtain ⟨u, -, h⟩ := bind_eq_ok h
  cases h
  exact ⟨mapError_eq_ok hc, rfl, rfl⟩

theorem job_of_finish (h : r.finish now = .ok summary) :
    summary.config = r.job.config ∧ summary.geometry = r.job.geometry := by
  obtain ⟨rates, -, h⟩ := bind_eq_ok h
  obtain ⟨u, -, h⟩ := bind_eq_ok h
  obtain ⟨u, -, h⟩ := bind_eq_ok h
  cases h
  exact ⟨rfl, rfl⟩

theorem exists_finish (hw : ∀ w ∈ r.workers.toList, ∃ samples, w.phase = .stopped (.ok samples))
    (hk : r.shared.lock.Sound) (ha : r.shared.lock.active = []) (now : Instant) :
    ∃ summary, r.finish now = .ok summary := by
  obtain ⟨rates, hc⟩ := exists_collect hw .empty
  have hl : leftover r.shared.lock = .ok () := by
    rw [leftover, hk.activeLeases, ha]
    rfl
  exact ⟨_, by simp only [finish, hc, hk.checkDisjoint, hl, mapError_ok, bind, Except.bind]; rfl⟩

end Readback.Run
