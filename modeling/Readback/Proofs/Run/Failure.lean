import Readback.Device.Memory
import Readback.Proofs.Run.Safety

namespace Readback.Run

variable {σ : Type} {dev : Device σ} {d : σ} {c : Config} {setting : Setting}

theorem start_refused {refusal : Config.Refusal} (h : c.validate = .error refusal) :
    start dev d c setting = ([], .error (.error refusal.error)) := by
  rw [start, h]

theorem start_of_deviceGeometry {e : Error} (hv : c.validate = .ok ())
    (h : deviceGeometry dev d c = .error e) :
    start dev d c setting = ([], .error (.error e)) := by
  rw [start, hv]
  simp only [h]

theorem start_unsized {e : Error} (hv : c.validate = .ok ()) (h : dev.size d = .error e) :
    start dev d c setting =
      ([], .error (.error ⟨.setup, s!"cannot size device: {e.message}"⟩)) := by
  apply start_of_deviceGeometry hv
  rw [deviceGeometry, h]
  rfl

theorem start_no_block {size : Nat} (hv : c.validate = .ok ()) (h : dev.size d = .ok size)
    (hsize : size < c.blockSize.toNat) :
    start dev d c setting =
      ([], .error (.error (Geometry.Refusal.noBlock size c.blockSize.toNat).error)) := by
  apply start_of_deviceGeometry hv
  have hcheck := (Config.valid_of_validate hv).blockSize
  have hzero : size / c.blockSize.toNat = 0 := Nat.div_eq_of_lt hsize
  simp only [deviceGeometry, h, Geometry.make, hcheck, hzero, if_true, bind, Except.bind, throw,
    throwThe, MonadExceptOf.throw, mapError_error]

/-- What a run starts with depends on the size of the device only. -/
theorem start_congr {dev' : Device σ} (h : dev'.size d = dev.size d) :
    start dev' d c setting = start dev d c setting := by
  have hg : deviceGeometry dev' d c = deviceGeometry dev d c := by
    rw [deviceGeometry, h, deviceGeometry]
  rw [start, hg, start]

theorem exists_start_of_size {size : Nat} (hv : c.validate = .ok ()) (h : dev.size d = .ok size)
    (hblock : c.blockSize.toNat ≤ size) (hsize : size < Word.limit)
    (hworkers : c.workers.toNat ≤ maxWorkers)
    (hduration : ∀ t, c.duration = some t → ∃ later, setting.start.add t = .ok later) :
    ∃ events r, start dev d c setting = (events, .ok r) := by
  obtain ⟨hmin, -⟩ := Geometry.checkBlockSize_ok (Config.valid_of_validate hv).blockSize
  simp only [Geometry.minBlockSize] at hmin
  obtain ⟨policy, hpolicy⟩ := Config.exists_policy hduration (size / c.blockSize.toNat)
  exact exists_start hv h (Nat.div_pos hblock (by omega)) (div_le_maxSize hv hsize) hworkers hpolicy

/-- A run fails to start if and only if its configuration is refused, the device has no size or the
device holds no block. -/
theorem start_error_iff (hsize : ∀ size, dev.size d = .ok size → size < Word.limit)
    (hworkers : c.workers.toNat ≤ maxWorkers)
    (hduration : ∀ t, c.duration = some t → ∃ later, setting.start.add t = .ok later) :
    (∃ e, (start dev d c setting).2 = .error e) ↔
      (∃ refusal, c.validate = .error refusal) ∨ (∃ e, dev.size d = .error e) ∨
        ∃ size, dev.size d = .ok size ∧ size < c.blockSize.toNat := by
  cases hv : c.validate with
  | error refusal =>
    rw [start_refused hv]
    exact ⟨fun _ => .inl ⟨refusal, rfl⟩, fun _ => ⟨_, rfl⟩⟩
  | ok u =>
  cases h : dev.size d with
  | error e =>
    rw [start_unsized hv h]
    exact ⟨fun _ => .inr (.inl ⟨e, rfl⟩), fun _ => ⟨_, rfl⟩⟩
  | ok size =>
    by_cases hblock : size < c.blockSize.toNat
    · rw [start_no_block hv h hblock]
      exact ⟨fun _ => .inr (.inr ⟨size, rfl, hblock⟩), fun _ => ⟨_, rfl⟩⟩
    · obtain ⟨events, r, hs⟩ := exists_start_of_size hv h (Nat.le_of_not_lt hblock) (hsize size h)
        hworkers hduration
      rw [hs]
      constructor
      · rintro ⟨e, he⟩
        cases he
      · rintro (⟨refusal, he⟩ | ⟨e, he⟩ | ⟨n, he, hn⟩)
        · cases he
        · cases he
        · cases he
          exact absurd hn hblock

theorem finish_of_crashed {r : Run σ} (h : ∃ w ∈ r.workers.toList, ∃ f, w.phase = .crashed f)
    (now : Instant) (summary : Summary) : r.finish now ≠ .ok summary := by
  obtain ⟨w, hw, f, hp⟩ := h
  intro hfinish
  obtain ⟨samples, hp'⟩ := stopped_of_collect (finished_of_finish hfinish).rates w hw
  cases hp.symm.trans hp'

/-- A run fails before it does anything, because of its configuration or the size of the device, or
not at all: however the device answers and the workers take turns, no lease is refused when it is
given back, no worker gives up, and when all have stopped no lease is left and the run ends well.
Only a worker that crashes, which takes a device that gives way or random words that give out, keeps
it from that. -/
theorem fails_at_start_only (hsize : ∀ size, dev.size d = .ok size → size < Word.limit)
    (hworkers : c.workers.toNat ≤ maxWorkers)
    (hduration : ∀ t, c.duration = some t → ∃ later, setting.start.add t = .ok later) :
    ((∃ e, (start dev d c setting).2 = .error e) ↔
      (∃ refusal, c.validate = .error refusal) ∨ (∃ e, dev.size d = .error e) ∨
        ∃ size, dev.size d = .ok size ∧ size < c.blockSize.toNat) ∧
    (∀ refusal, c.validate = .error refusal → ∀ {τ : Type} (dev' : Device τ) (d' : τ),
      start dev' d' c setting = ([], .error (.error refusal.error))) ∧
    (c.validate = .ok () →
      (∀ e, dev.size d = .error e → start dev d c setting =
        ([], .error (.error ⟨.setup, s!"cannot size device: {e.message}"⟩))) ∧
      (∀ size, dev.size d = .ok size → size < c.blockSize.toNat → start dev d c setting =
        ([], .error (.error (Geometry.Refusal.noBlock size c.blockSize.toNat).error))) ∧
      ∀ dev' : Device σ, dev'.size d = dev.size d →
        start dev' d c setting = start dev d c setting) ∧
    ∀ events r, start dev d c setting = (events, .ok r) →
      r.device = d ∧ r.job.content.selfCheck = .ok () ∧ ∀ moves,
      let r' := r.play dev moves
      (∀ (k : Nat) (w : Worker) b written, r'.workers[k]? = some w →
        w.phase = .releasing b written →
        ∃ newly k', r'.shared.lock.release b.lease (Worker.newStates b written)
          b.outcome.verifiedBlocks = .ok (newly, k')) ∧
      (∀ (k : Nat) (w : Worker), r'.workers[k]? = some w →
        (∀ cause, w.phase ≠ .giving .aborted cause) ∧ ∀ e, w.phase ≠ .stopped (.error e)) ∧
      r'.shared.stop.reason ≠ some .aborted ∧ r'.shared.lock.checkDisjoint = .ok () ∧
      (∀ (k : Nat) (w : Worker) f, r'.workers[k]? = some w → w.phase = .crashed f →
        dev.Excuses f) ∧
      ((∀ w ∈ r'.workers.toList, ∃ res, w.phase = .stopped res) →
        r'.shared.lock.activeLeases = .ok [] ∧ ∀ now, ∃ summary, r'.finish now = .ok summary) ∧
      ((∃ w ∈ r'.workers.toList, ∃ f, w.phase = .crashed f) →
        ∀ now summary, r'.finish now ≠ .ok summary) := by
  refine ⟨start_error_iff hsize hworkers hduration, fun refusal hv _ _ _ => start_refused hv,
    fun hv => ⟨fun e => start_unsized hv, fun size => start_no_block hv, fun _ => start_congr⟩,
    fun events r hs => ?_⟩
  have h := started_of_start hs
  refine ⟨h.device, h.checked, fun moves => ?_⟩
  intro r'
  have hr : r'.Unbroken dev := (h.unbroken hsize).play moves
  have hlock := hr.regular.custody.lock
  refine ⟨fun k w b written hw hp => hr.regular.custody.exists_release hw hp, fun k w hw => ?_,
    hr.reason, hlock.checkDisjoint, fun k w f hw hp => ?_, fun hw => ?_, finish_of_crashed⟩
  · have hc := hr.calm hw
    refine ⟨fun cause hp => ?_, fun e hp => ?_⟩
    · rw [hp] at hc
      exact hc.1 rfl
    · rw [hp] at hc
      obtain ⟨samples, he⟩ := hc
      cases he
  · have hc := hr.calm hw
    rw [hp] at hc
    exact hc
  · have hidle := (h.holds moves).idle hw
    exact ⟨hidle ▸ hlock.activeLeases, exists_finish (hr.stopped hw) hlock hidle⟩

/-- Two workers on a device that fails to write stop after an iteration each, and the run ends
well. -/
theorem fails_at_start_only_of_failing_writes :
    let c : Config := { Config.standard with
      blockSize := 512, workers := 2, uniquePct := 0, trimPct := 100, count := some 1
      duration := some (.ofSeconds 5) }
    let d : Memory := ⟨.zeroes 2048, false, true, false, false, 0, 0, 0⟩
    let setting : Setting := ⟨false, 0, ⟨0⟩,
      fun id => .words [0, 0, 0, if id = 0 then 0 else 0x80000000, 0]⟩
    let moves : List Move := (List.range 60).map fun n => .step (n % 2) ⟨n⟩
    ∃ events r, start Memory.device d c setting = (events, .ok r) ∧
      (r.play Memory.device moves).shared.stats.writeErrors = 2 ∧
      ∃ summary, (r.play Memory.device moves).finish ⟨60⟩ = .ok summary := by
  intro c d setting moves
  have hv : c.validate = .ok () := by decide +kernel
  have hsize : Memory.device.size d = .ok 2048 := rfl
  have hlater : setting.start.add (.ofSeconds 5) = .ok ⟨5000000000⟩ := by decide +kernel
  have hpolicy : c.policy setting.start 4 = .ok ⟨some 1, some ⟨5000000000⟩, none, false⟩ := by
    decide +kernel
  obtain ⟨events, r, hs, hfailed, hstopped⟩ : ∃ events r,
      start Memory.device d c setting = (events, .ok r) ∧
      (r.play Memory.device moves).shared.stats.writeErrors = 2 ∧
      ∀ w ∈ (r.play Memory.device moves).workers.toList, ∃ res, w.phase = .stopped res :=
    ⟨_, _, start_eq hv hsize (by decide) (dif_pos (by decide)) (make_lock (by decide) (by decide))
      hpolicy rfl, by decide +kernel, by decide +kernel⟩
  have hlimit (size : Nat) (h : Memory.device.size d = .ok size) : size < Word.limit := by
    cases hsize.symm.trans h
    decide
  have hduration (t : Duration) (h : c.duration = some t) :
      ∃ later, setting.start.add t = .ok later := by
    cases h
    exact ⟨_, hlater⟩
  obtain ⟨-, -, -, hruns⟩ := fails_at_start_only hlimit (by decide) hduration
  obtain ⟨-, -, hplay⟩ := hruns events r hs
  obtain ⟨-, -, -, -, -, hends, -⟩ := hplay moves
  exact ⟨events, r, hs, hfailed, (hends hstopped).2 ⟨60⟩⟩

end Readback.Run
