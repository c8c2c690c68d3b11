import Readback.Proofs.Config
import Readback.Proofs.Except
import Readback.Proofs.Run.Custody

namespace Readback

namespace Run

variable {σ : Type} {dev : Device σ} {d : σ} {c : Config} {setting : Setting} {events : List Event}
  {r : Run σ}

structure Started (dev : Device σ) (d : σ) (c : Config) (setting : Setting) (events : List Event)
    (r : Run σ) : Prop where
  valid : c.Valid
  config : r.job.config = c
  policy : c.policy setting.start r.job.geometry.nBlocks = .ok r.job.policy
  geometry : ∃ size, dev.size d = .ok size ∧
    Geometry.make size c.blockSize.toNat = .ok r.job.geometry
  content : Content.make c.blockSize.toNat (c.seed.getD setting.freshSeed) c.mode =
    .ok r.job.content
  checked : r.job.content.selfCheck = .ok ()
  lock : RangeLock.make r.job.geometry.nBlocks c.maxBlocksPerOp.toNat = .ok r.shared.lock
  shared : r.shared = ⟨r.shared.lock, .zero, .make setting.stopped, false⟩
  workers : makeWorkers c r.job setting.entropy = .ok r.workers
  device : r.device = d
  log : r.log = events.reverse.map (LogEntry.mk none)
  said : events = deviceEvents r.job.geometry ++
    openingEvents c (c.seed.getD setting.freshSeed) r.job.geometry

theorem deviceGeometry_ok {g : Geometry} (h : deviceGeometry dev d c = .ok g) :
    ∃ size, dev.size d = .ok size ∧ Geometry.make size c.blockSize.toNat = .ok g := by
  unfold deviceGeometry at h
  cases hsize : dev.size d with
  | error e =>
    rw [hsize] at h
    cases h
  | ok size =>
    rw [hsize] at h
    exact ⟨size, rfl, mapError_eq_ok h⟩

theorem sharedFor_ok {g : Geometry} {stopped : Bool} {s : Shared}
    (h : sharedFor c g stopped = .ok s) :
    RangeLock.make g.nBlocks c.maxBlocksPerOp.toNat = .ok s.lock ∧
      s = ⟨s.lock, .zero, .make stopped, false⟩ := by
  obtain ⟨lock, hlock, h⟩ := bind_eq_ok h
  cases h
  exact ⟨hlock, rfl⟩

theorem jobFor_ok {g : Geometry} {content : Content} {moment : Instant} {j : Job}
    (h : jobFor c g content moment = .ok j) :
    j.config = c ∧ j.geometry = g ∧ j.content = content ∧
      c.policy moment g.nBlocks = .ok j.policy := by
  obtain ⟨policy, hp, h⟩ := bind_eq_ok h
  cases h
  exact ⟨rfl, rfl, rfl, hp⟩

theorem started_of_start (h : start dev d c setting = (events, .ok r)) :
    Started dev d c setting events r := by
  unfold start at h
  cases hv : c.validate with
  | error e => simp [hv] at h
  | ok u =>
  cases hg : deviceGeometry dev d c with
  | error e => simp [hv, hg] at h
  | ok g =>
  cases hc : Content.make c.blockSize.toNat (c.seed.getD setting.freshSeed) c.mode with
  | error f => simp [hv, hg, hc] at h
  | ok content =>
  cases hs : content.selfCheck with
  | error e => simp [hv, hg, hc, hs] at h
  | ok u =>
    simp only [hv, hg, hc, hs, Prod.mk.injEq] at h
    obtain ⟨rfl, h⟩ := h
    obtain ⟨shared, hl, h⟩ := bind_eq_ok (mapError_eq_ok h)
    obtain ⟨job, hj, h⟩ := bind_eq_ok h
    obtain ⟨workers, hw, h⟩ := bind_eq_ok h
    cases h
    obtain ⟨hlock, hshared⟩ := sharedFor_ok hl
    obtain ⟨hconfig, rfl, rfl, hpolicy⟩ := jobFor_ok hj
    exact ⟨Config.valid_of_validate hv, hconfig, hpolicy, deviceGeometry_ok hg, hc, hs, hlock,
      hshared, hw, rfl, rfl, rfl⟩

theorem length_of_mapM {α β ε : Type} {f : α → Except ε β} {xs : List α} {ys : List β}
    (h : xs.mapM f = .ok ys) : ys.length = xs.length := by
  induction xs generalizing ys with
  | nil =>
    cases h
    rfl
  | cons x rest ih =>
    obtain ⟨y, zs, hx, hr, rfl⟩ := mapM_cons_eq_ok h
    exact congrArg (· + 1) (ih hr)

theorem getElem?_of_mapM {α β ε : Type} {f : α → Except ε β} {xs : List α} {ys : List β}
    (h : xs.mapM f = .ok ys) {n : Nat} {y : β} (hy : ys[n]? = some y) :
    ∃ x, xs[n]? = some x ∧ f x = .ok y := by
  induction xs generalizing ys n with
  | nil =>
    cases h
    cases hy
  | cons x rest ih =>
    obtain ⟨z, zs, hx, hr, rfl⟩ := mapM_cons_eq_ok h
    cases n with
    | zero =>
      obtain rfl : z = y := Option.some.inj hy
      exact ⟨x, rfl, hx⟩
    | succ n => exact ih hr hy

theorem makeWorkers_ok {j : Job} {entropy : Nat → Source} {workers : Array Worker}
    (h : makeWorkers c j entropy = .ok workers) :
    workers.size = c.workers.toNat ∧
      ∀ (k : Nat) v, workers[k]? = some v → Worker.make j k (entropy k) = .ok v := by
  unfold makeWorkers at h
  split at h
  · cases h
  · obtain ⟨ws, hm, h⟩ := bind_eq_ok h
    cases h
    refine ⟨?_, fun k v hv => ?_⟩
    · rw [List.size_toArray, length_of_mapM hm, List.length_range]
    · rw [List.getElem?_toArray] at hv
      obtain ⟨id, hid, hmake⟩ := getElem?_of_mapM hm hv
      obtain ⟨hlt, rfl⟩ := List.getElem?_eq_some_iff.mp hid
      rwa [List.getElem_range] at hmake

theorem Started.size (h : Started dev d c setting events r) :
    r.workers.size = c.workers.toNat :=
  (makeWorkers_ok h.workers).1

theorem Started.made (h : Started dev d c setting events r) {k : Nat} {v : Worker}
    (hv : r.workers[k]? = some v) : Worker.make r.job k (setting.entropy k) = .ok v :=
  (makeWorkers_ok h.workers).2 k v hv

theorem Started.polling (h : Started dev d c setting events r) {k : Nat} {v : Worker}
    (hv : r.workers[k]? = some v) : v.phase = .polling := by
  rw [Worker.make_ok (h.made hv)]

theorem Started.lease_free (h : Started dev d c setting events r) {k : Nat} {l : Lease} :
    ¬ r.Has k l := by
  rintro ⟨v, hv, hl⟩
  rw [h.polling hv] at hl
  cases hl

theorem Started.job (h : Started dev d c setting events r) : r.job.Sound := by
  obtain ⟨size, -, hg⟩ := h.geometry
  obtain ⟨he, hn, -, -⟩ := Geometry.make_ok hg
  have hb : r.job.content.blockSize = r.job.geometry.blockSize := by
    rw [Content.make_ok h.content, he]
  refine ⟨hb, ?_, hn⟩
  rw [hb]
  exact Geometry.blockSize_lt_limit hg

theorem Started.custody (h : Started dev d c setting events r) : r.Custody := by
  obtain ⟨hk, hn, -, -⟩ := RangeLock.sound_of_make h.lock
  refine ⟨h.job, hk, hn, fun hv => ?_, fun hl => absurd hl h.lease_free,
    fun hl => absurd hl h.lease_free, fun hl => absurd hl h.lease_free⟩
  rw [h.polling hv]
  trivial

theorem exists_mapM {α β ε : Type} {f : α → Except ε β} (hf : ∀ x, ∃ y, f x = .ok y)
    (xs : List α) : ∃ ys, xs.mapM f = .ok ys := by
  induction xs with
  | nil => exact ⟨[], rfl⟩
  | cons x rest ih =>
    obtain ⟨y, hy⟩ := hf x
    obtain ⟨ys, hys⟩ := ih
    exact ⟨y :: ys, by simp [List.mapM_cons, hy, hys, bind, Except.bind, pure, Except.pure]⟩

theorem exists_make {j : Job} (h : j.content.blockSize = j.geometry.blockSize) (id : Nat)
    (entropy : Source) : ∃ w, Worker.make j id entropy = .ok w :=
  ⟨_, if_neg (not_not_intro h)⟩

theorem maxBlocks_pos {n : Nat} (h : 0 < n) (m : Nat) : 0 < min (max 1 m) n := by
  omega

theorem make_lock {n m : Nat} (h : 0 < n) (hn : n ≤ StateTable.maxSize) :
    RangeLock.make n m = .ok ⟨n, min (max 1 m) n, [],
      ⟨.replicate n none, .replicate ((n + 63) / 64) 0, 0⟩, maxBlocks_pos h m,
      Nat.min_le_right _ _⟩ := by
  simp only [RangeLock.make, StateTable.make, dif_pos h, if_pos hn, bind, Except.bind]
  rfl

theorem div_le_maxSize {size : Nat} (hv : c.validate = .ok ()) (hsize : size < Word.limit) :
    size / c.blockSize.toNat ≤ StateTable.maxSize := by
  obtain ⟨hmin, -⟩ := Geometry.checkBlockSize_ok (Config.valid_of_validate hv).blockSize
  simp only [Geometry.minBlockSize] at hmin
  refine Nat.le_trans (Nat.div_le_div_left hmin (by omega)) ?_
  simp only [StateTable.maxSize, Bytes.limit]
  simp only [Word.limit] at hsize
  omega

/-- With a valid configuration and a device that has a block, all that is left to go wrong is that
there may not be enough of something. -/
theorem start_of_block {size : Nat} {content : Content} (hv : c.validate = .ok ())
    (hd : dev.size d = .ok size) (hblock : 0 < size / c.blockSize.toNat)
    (hcontent : Content.make c.blockSize.toNat (c.seed.getD setting.freshSeed) c.mode =
      .ok content) :
    let g : Geometry := ⟨size, c.blockSize.toNat, size / c.blockSize.toNat⟩
    let seed := c.seed.getD setting.freshSeed
    let events := deviceEvents g ++ openingEvents c seed g
    let run : Except Fault (Run σ) := do
      let shared ← sharedFor c g setting.stopped
      let job ← jobFor c g content setting.start
      let workers ← makeWorkers c job setting.entropy
      return ⟨seed, job, shared, d, workers, events.reverse.map (LogEntry.mk none), []⟩
    start dev d c setting = (events, run.mapError .fault) := by
  intro g seed events run
  have hcheck : Geometry.checkBlockSize c.blockSize.toNat = .ok () := by
    obtain ⟨u, hc, -⟩ := bind_eq_ok hv
    exact mapError_eq_ok hc
  obtain ⟨-, hmax⟩ := Geometry.checkBlockSize_ok hcheck
  simp only [Geometry.maxBlockSize] at hmax
  have hgeometry : deviceGeometry dev d c = .ok g := by
    simp [deviceGeometry, hd, Geometry.make, hcheck, Nat.ne_of_gt hblock, bind, Except.bind, pure,
      Except.pure, mapError_ok, g]
  have hsize : content.blockSize = c.blockSize.toNat := Content.make_ok hcontent
  have hself : content.selfCheck = .ok () := by
    refine Content.selfCheck_ok ?_ ?_
    · simp only [Word.limit]
      omega
    · simp only [Bytes.limit]
      omega
  simp only [start, hv, hgeometry, hcontent, hself]
  rfl

theorem start_eq {size : Nat} {content : Content} {policy : Stop.Policy} {lock : RangeLock}
    {workers : Array Worker} (hv : c.validate = .ok ()) (hd : dev.size d = .ok size)
    (hblock : 0 < size / c.blockSize.toNat)
    (hcontent : Content.make c.blockSize.toNat (c.seed.getD setting.freshSeed) c.mode = .ok content)
    (hlock : RangeLock.make (size / c.blockSize.toNat) c.maxBlocksPerOp.toNat = .ok lock)
    (hpolicy : c.policy setting.start (size / c.blockSize.toNat) = .ok policy)
    (hworkers : makeWorkers c ⟨c, ⟨size, c.blockSize.toNat, size / c.blockSize.toNat⟩, content,
      policy, setting.start⟩ setting.entropy = .ok workers) :
    let g : Geometry := ⟨size, c.blockSize.toNat, size / c.blockSize.toNat⟩
    let seed := c.seed.getD setting.freshSeed
    let events := deviceEvents g ++ openingEvents c seed g
    start dev d c setting = (events, .ok ⟨seed, ⟨c, g, content, policy, setting.start⟩,
      ⟨lock, .zero, .make setting.stopped, false⟩, d, workers,
      events.reverse.map (LogEntry.mk none), []⟩) := by
  intro g seed events
  rw [start_of_block hv hd hblock hcontent]
  simp only [sharedFor, jobFor, hlock, hpolicy, hworkers, g, bind, Except.bind, pure, Except.pure,
    mapError_ok]
  rfl

theorem exists_start {size : Nat} {policy : Stop.Policy} (hv : c.validate = .ok ())
    (hd : dev.size d = .ok size) (hblock : 0 < size / c.blockSize.toNat)
    (htable : size / c.blockSize.toNat ≤ StateTable.maxSize)
    (hworkers : c.workers.toNat ≤ maxWorkers)
    (hpolicy : c.policy setting.start (size / c.blockSize.toNat) = .ok policy) :
    ∃ events r, start dev d c setting = (events, .ok r) := by
  have hpos : 0 < c.blockSize.toNat := by
    rcases Nat.eq_zero_or_pos c.blockSize.toNat with hz | hpos
    · rw [hz, Nat.div_zero] at hblock
      exact absurd hblock (Nat.lt_irrefl 0)
    · exact hpos
  have hcontent : Content.make c.blockSize.toNat (c.seed.getD setting.freshSeed) c.mode =
      .ok ⟨c.blockSize.toNat, c.seed.getD setting.freshSeed, c.mode, hpos⟩ := dif_pos hpos
  have hlock := make_lock (m := c.maxBlocksPerOp.toNat) hblock htable
  generalize hj : (⟨c, ⟨size, c.blockSize.toNat, size / c.blockSize.toNat⟩,
    ⟨c.blockSize.toNat, c.seed.getD setting.freshSeed, c.mode, hpos⟩, policy,
    setting.start⟩ : Job) = j
  have hsame : j.content.blockSize = j.geometry.blockSize := by rw [← hj]
  obtain ⟨ws, hws⟩ := exists_mapM (fun id => exists_make hsame id (setting.entropy id))
    (List.range c.workers.toNat)
  have hmake : makeWorkers c j setting.entropy = .ok ws.toArray := by
    simp [makeWorkers, Nat.not_lt_of_ge hworkers, hws, bind, Except.bind, pure, Except.pure]
  exact ⟨_, _, start_eq hv hd hblock hcontent hlock hpolicy (hj ▸ hmake)⟩

end Run

end Readback
