import Readback.Proofs.Run.Failure

namespace Readback

namespace Config

variable {c : Config} {start : Instant} {t : Duration}

/-- What the machine has to have for a run that starts at `start`, which a valid configuration may
still ask too much of. -/
structure Startable (c : Config) (start : Instant) : Prop where
  deadline : ∀ t, c.duration = some t → start.nanos + t.nanos < Instant.range * Duration.second
  workers : c.workers.toNat ≤ Run.maxWorkers

theorem policy_of_late (hd : c.duration = some t)
    (h : Instant.range * Duration.second ≤ start.nanos + t.nanos) (nBlocks : Nat) :
    c.policy start nBlocks = .error .overflow := by
  rw [policy, hd, Option.mapM_some, Instant.add_of_le h]
  rfl

theorem Startable.exists_later (h : c.Startable start) (hs : start.shown = true)
    (hd : c.duration = some t) : ∃ later, start.add t = .ok later :=
  ⟨_, Instant.add_of_lt hs (h.deadline t hd)⟩

theorem workers_of_not_startable {nBlocks : Nat} {p : Stop.Policy} (h : ¬ c.Startable start)
    (hp : c.policy start nBlocks = .ok p) : Run.maxWorkers < c.workers.toNat := by
  refine Nat.lt_of_not_le fun hw => h ⟨fun t ht => Int.not_le.mp fun hlate => ?_, hw⟩
  cases (policy_of_late ht hlate nBlocks).symm.trans hp

theorem policy_error {nBlocks : Nat} {f : Fault} (h : c.policy start nBlocks = .error f) :
    f = .overflow := by
  cases hd : c.duration with
  | none =>
    rw [policy, hd] at h
    cases h
  | some t =>
    rw [policy, hd, Option.mapM_some, Instant.add] at h
    split at h
    · cases h
    · cases h
      rfl

end Config

namespace Run

variable {σ : Type} {dev : Device σ} {d : σ} {c : Config} {setting : Setting} {size : Nat}

theorem makeWorkers_of_many {j : Job} {entropy : Nat → Source} (h : maxWorkers < c.workers.toNat) :
    makeWorkers c j entropy = .error .overflow := by
  rw [makeWorkers, if_pos h]
  rfl

/-- Past its checks the set-up breaks off in one of two places: where the deadline is worked out, and
where the workers are made. -/
theorem start_of_not_startable (hv : c.validate = .ok ()) (hd : dev.size d = .ok size)
    (hsize : size < Word.limit) (hblock : c.blockSize.toNat ≤ size)
    (h : ¬ c.Startable setting.start) :
    let g : Geometry := ⟨size, c.blockSize.toNat, size / c.blockSize.toNat⟩
    start dev d c setting =
      (deviceEvents g ++ openingEvents c (c.seed.getD setting.freshSeed) g,
        .error (.fault .overflow)) := by
  intro g
  obtain ⟨hmin, -⟩ := Geometry.checkBlockSize_ok (Config.valid_of_validate hv).blockSize
  simp only [Geometry.minBlockSize] at hmin
  have hpos : 0 < c.blockSize.toNat := by omega
  have hn : 0 < size / c.blockSize.toNat := Nat.div_pos hblock hpos
  rw [start_of_block hv hd hn (dif_pos hpos)]
  refine Prod.ext rfl ?_
  simp only [sharedFor, jobFor, make_lock hn (div_le_maxSize hv hsize), bind, Except.bind, pure,
    Except.pure]
  -- The deadline is worked out first, but both faults are the same.
  cases hp : c.policy setting.start (size / c.blockSize.toNat) with
  | error f =>
    cases Config.policy_error hp
    rfl
  | ok policy =>
    simp only [makeWorkers_of_many (Config.workers_of_not_startable h hp)]
    rfl

/-- Every configuration that is not refused is taken up, on any device that has a block: the run
starts with all its workers, and the device as it was, if the clock can show the deadline and there
is memory for the workers.  Else the set-up breaks off with an overflow after all was said that is
said when a run starts: nothing tests for that. -/
theorem starts_or_overflows (hv : c.validate = .ok ()) (hd : dev.size d = .ok size)
    (hsize : size < Word.limit) (hblock : c.blockSize.toNat ≤ size)
    (hshown : setting.start.shown = true) :
    let g : Geometry := ⟨size, c.blockSize.toNat, size / c.blockSize.toNat⟩
    let events := deviceEvents g ++ openingEvents c (c.seed.getD setting.freshSeed) g
    (c.Startable setting.start →
      ∃ r, start dev d c setting = (events, .ok r) ∧ r.workers.size = c.workers.toNat ∧
        r.device = d) ∧
    (¬ c.Startable setting.start →
      start dev d c setting = (events, .error (.fault .overflow))) := by
  intro g events
  refine ⟨fun h => ?_, start_of_not_startable hv hd hsize hblock⟩
  obtain ⟨events', r, hs⟩ := exists_start_of_size hv hd hblock hsize h.workers
    fun t ht => h.exists_later hshown ht
  have hr := started_of_start hs
  obtain ⟨size', hd', hg⟩ := hr.geometry
  cases hd.symm.trans hd'
  have hsaid := hr.said
  rw [(Geometry.make_ok hg).1] at hsaid
  subst hsaid
  exact ⟨r, hs, hr.size, hr.device⟩

theorem starts_or_overflows_of_minute :
    let c : Config := { Config.standard with blockSize := 512, duration := some (.ofSeconds 60) }
    let d : Memory := ⟨.zeroes 8192, true, true, false, false, 0, 0, 0⟩
    let setting : Setting := ⟨false, 0, ⟨0⟩, fun _ => .words []⟩
    ∃ events r, start Memory.device d c setting = (events, .ok r) ∧ r.workers.size = 2 ∧
      r.device = d := by
  intro c d setting
  have hs : c.Startable setting.start := by
    refine ⟨fun t ht => ?_, by decide⟩
    cases ht
    decide
  have hv : c.validate = .ok () := by decide +kernel
  have hsize : Memory.device.size d = .ok 8192 := rfl
  have hshown : setting.start.shown = true := by decide
  obtain ⟨hstarts, -⟩ := starts_or_overflows hv hsize (by decide) (by decide) hshown
  obtain ⟨r, hr, hworkers, hdevice⟩ := hstarts hs
  exact ⟨_, r, hr, hworkers, hdevice⟩

/-- The longest duration there is passes every check of the configuration, and ends after the last
time that a clock can show. -/
theorem overflow_of_longest_duration :
    let c : Config := { Config.standard with
      blockSize := 512, maxBlocksPerOp := 4, workers := 1, seed := some 1
      duration := some (.ofSeconds 18446744073709551615)
      reportInterval := .ofSeconds 8640000 }
    let d : Memory := ⟨.zeroes 8192, true, true, false, false, 0, 0, 0⟩
    let setting : Setting := ⟨true, 0, ⟨0⟩, fun _ => .words []⟩
    c.validate = .ok () ∧ c.duration.all Duration.fits = true ∧ Memory.device.size d = .ok 8192 ∧
      c.blockSize.toNat ≤ 8192 ∧
      (start Memory.device d c setting).2 = .error (.fault .overflow) := by
  intro c d setting
  have hv : c.validate = .ok () := by decide +kernel
  have hlate : ¬ c.Startable setting.start :=
    fun h => absurd (h.deadline _ rfl) (by decide)
  refine ⟨hv, by decide +kernel, rfl, by decide, ?_⟩
  rw [start_of_not_startable hv rfl (by decide) (by decide) hlate]

end Run

end Readback
