import Readback.Proofs.Run.Confinement
import Readback.Proofs.Worker.Account
import Readback.Proofs.Worker.Draw

namespace Readback

/-- What two configurations with one worker share when they draw the same: all but the stop
conditions, how often to report and how many mismatches to describe. -/
structure Config.Alike (c c' : Config) : Prop where
  workers : c.workers = 1
  workers' : c'.workers = 1
  fixed : c.seed.isSome
  seed : c'.seed = c.seed
  blockSize : c'.blockSize = c.blockSize
  maxBlocksPerOp : c'.maxBlocksPerOp = c.maxBlocksPerOp
  uniquePct : c'.uniquePct = c.uniquePct
  trimPct : c'.trimPct = c.trimPct
  mode : c'.mode = c.mode

structure Job.Alike (j j' : Job) : Prop where
  uniquePct : j'.config.uniquePct = j.config.uniquePct
  trimPct : j'.config.trimPct = j.config.trimPct
  geometry : j'.geometry = j.geometry
  content : j'.content = j.content

namespace Job.Alike

variable {j j' : Job} (h : j.Alike j')
include h

theorem compose (blocks : List Nat) (s : Source) :
    Worker.compose j' blocks s = Worker.compose j blocks s := by
  induction blocks generalizing s with
  | nil => rfl
  | cons block rest ih =>
    simp only [Worker.compose, h.uniquePct, h.trimPct, h.geometry, h.content, ih]

theorem draws (k : RangeLock) (n : Nat) (s : Source) : j'.draws k n s = j.draws k n s := by
  induction n with
  | zero => rfl
  | succ n ih => simp only [Job.draws, Job.draw, ih, h.compose]

end Job.Alike

namespace Run

variable {σ : Type} {dev : Device σ} {r : Run σ} {now : Instant} {i : Nat} {w : Worker}
  {t : Worker.Turn σ} {k : RangeLock} {s₀ : Source} {seen : List Sight}

def sights (dev : Device σ) (r : Run σ) (moves : List Move) : List Sight :=
  (r.trace dev moves).filterMap fun a => a.2.sight?

/-- What a device is asked in the course of a run is all that changes it, and the writes that are
seen are the writes that it is asked. -/
structure Shows (dev : Device σ) (d : σ) (r : Run σ) (moves : List Move) : Prop where
  device : (r.play dev moves).device = dev.replay d (Act.calls (r.trace dev moves))
  writes : (r.sights dev moves).filterMap Sight.write? =
    (Act.calls (r.trace dev moves)).filterMap Request.write?

/-- The only worker of a run is seen to do what it draws, from a lock like `k` and the words of
`s₀`. -/
structure Alone (k : RangeLock) (s₀ : Source) (seen : List Sight) (r : Run σ) : Prop where
  size : r.workers.size = 1
  custody : r.Custody
  holds : ∃ acts, r.Holds acts
  nBlocks : r.shared.lock.nBlocks = k.nBlocks
  maxBlocks : r.shared.lock.maxBlocks = k.maxBlocks
  worker : ∀ {i : Nat} {w : Worker}, r.workers[i]? = some w → w.Reproduces r.job k s₀ seen

theorem Alone.eq_zero (h : r.Alone k s₀ seen) (hw : r.workers[i]? = some w) : i = 0 := by
  obtain ⟨hi, -⟩ := Array.getElem?_eq_some_iff.mp hw
  rw [h.size] at hi
  exact Nat.lt_one_iff.mp hi

/-- A worker on its own finds nothing leased when it is about to acquire. -/
theorem Alone.idle (h : r.Alone k s₀ seen) (hw : r.workers[i]? = some w)
    (hp : w.phase = .acquiring) : r.shared.lock.active = [] := by
  obtain ⟨acts, hacts⟩ := h.holds
  refine hacts.active_eq_nil fun {n v} hv => ?_
  rw [h.eq_zero hv, ← h.eq_zero hw, hw] at hv
  cases hv
  rw [hp]
  exact ⟨rfl, nofun⟩

theorem Alone.step (h : r.Alone k s₀ seen) (hw : r.workers[i]? = some w) :
    (r.after i w (w.step dev r.job now r.shared r.device)).Alone k s₀
      (seen ++ (w.sight? r.job r.shared).toList) := by
  have ht : w.Transition dev r.job now r.shared r.device
      (w.step dev r.job now r.shared r.device) := Worker.step_transition
  have hhandles := h.custody.handles hw ht
  obtain ⟨acts, hacts⟩ := h.holds
  have hafter := h.custody.after hw ht
  refine ⟨Array.size_setIfInBounds.trans h.size, hafter, ⟨_, hacts.step h.custody hw⟩, ?_,
    hhandles.maxBlocks.trans h.maxBlocks, fun {n v} hv => ?_⟩
  · exact hafter.nBlocks.trans (h.custody.nBlocks.symm.trans h.nBlocks)
  · rcases worker_after hw hv with ⟨rfl, rfl⟩ | ⟨hn, hv⟩
    · exact ht.reproduces (h.idle hw) (RangeLock.candidate_congr h.nBlocks h.maxBlocks)
        (fun b written e hp => h.custody.not_refused hw hp e) (h.worker hw)
    · exact absurd ((h.eq_zero hv).trans (h.eq_zero hw).symm) hn

theorem Alone.interrupt (h : r.Alone k s₀ seen) : r.interrupt.Alone k s₀ seen := by
  obtain ⟨acts, hacts⟩ := h.holds
  exact ⟨h.size, h.custody.interrupt, ⟨acts, hacts.interrupt⟩, h.nBlocks, h.maxBlocks, h.worker⟩

theorem Alone.play (h : r.Alone k s₀ []) (moves : List Move) :
    (r.play dev moves).Alone k s₀ (r.sights dev moves) := by
  have hstart : r.Alone k s₀ (([] : List (Nat × Act)).filterMap fun a => a.2.sight?) := h
  have hinterrupt {acts : List (Nat × Act)} {r : Run σ}
      (h : r.Alone k s₀ (acts.filterMap fun a => a.2.sight?)) :
      r.interrupt.Alone k s₀ (acts.filterMap fun a => a.2.sight?) := h.interrupt
  refine trace_induction (P := fun acts r => r.Alone k s₀ (acts.filterMap fun a => a.2.sight?))
    (fun {acts r i w now} h hw => ?_) hinterrupt hstart moves
  have hstep : (r.after i w (w.step dev r.job now r.shared r.device)).Alone k s₀ _ := h.step hw
  have hsight : (((w.act? r.job r.shared).map (i, ·)).toList.filterMap fun a => a.2.sight?) =
      (w.sight? r.job r.shared).toList := by
    rw [Worker.sight?]
    cases w.act? r.job r.shared <;> rfl
  rwa [List.filterMap_append, hsight]

theorem Alone.draws (h : r.Alone k s₀ seen) {n : Nat} (hn : n ≤ seen.countP Sight.isFinished) :
    ∃ xs s, r.job.draws k n s₀ = .ok (xs, s) ∧
      xs.flatMap (Draw.sights r.job.geometry) <+: seen := by
  obtain ⟨w, hw⟩ : ∃ w, r.workers[0]? = some w :=
    ⟨_, Array.getElem?_eq_getElem (h.size ▸ Nat.one_pos)⟩
  obtain ⟨ys, s, rest, hys, rfl, hrest, -⟩ := h.worker hw
  rw [List.countP_append, Draw.countP_sights, hrest] at hn
  obtain ⟨xs, s', hxs, zs, rfl⟩ := Job.exists_draws_of_le hys hn
  refine ⟨xs, s', hxs, ?_⟩
  rw [List.flatMap_append, List.append_assoc]
  exact List.prefix_append _ _

variable {d : σ} {c : Config} {setting : Setting} {events : List Event}

theorem Started.shows (h : Started dev d c setting events r) (moves : List Move) :
    r.Shows dev d moves := by
  refine ⟨h.device ▸ device_play r moves, ?_⟩
  have hact (a : Act) : a.sight?.bind Sight.write? = a.call?.bind Request.write? := by
    cases a with
    | asked q => cases q <;> rfl
    | _ => rfl
  rw [sights, Act.calls, List.filterMap_filterMap, List.filterMap_filterMap]
  exact List.filterMap_congr fun a _ => hact a.2

theorem Started.alone (h : Started dev d c setting events r) (hc : c.workers = 1) :
    r.Alone r.shared.lock (Worker.sourceFor c 0 (setting.entropy 0)) [] := by
  refine ⟨?_, h.custody, ⟨_, h.holds []⟩, rfl, rfl, fun hw => ⟨[], _, [], rfl, rfl, rfl, ?_⟩⟩
  · rw [h.size, hc]
    rfl
  · obtain ⟨hi, -⟩ := Array.getElem?_eq_some_iff.mp hw
    rw [h.size, hc] at hi
    obtain rfl := Nat.lt_one_iff.mp hi
    rw [Worker.make_ok (h.made hw), h.config]
    exact ⟨rfl, rfl⟩

variable {σ' : Type} {dev' : Device σ'} {d' : σ'} {c' : Config} {setting' : Setting}
  {events' : List Event} {r' : Run σ'}

theorem Started.alike (h : Started dev d c setting events r)
    (h' : Started dev' d' c' setting' events' r') (hc : c.Alike c')
    (hsize : dev'.size d' = dev.size d) : r.job.Alike r'.job ∧ r'.shared.lock = r.shared.lock := by
  obtain ⟨size, hs, hg⟩ := h.geometry
  obtain ⟨size', hs', hg'⟩ := h'.geometry
  obtain ⟨seed, hseed⟩ := Option.isSome_iff_exists.mp hc.fixed
  have hcontent := h.content
  have hcontent' := h'.content
  have hlock := h.lock
  have hlock' := h'.lock
  rw [hsize, hs] at hs'
  cases hs'
  rw [hc.blockSize, hg, Except.ok.injEq] at hg'
  rw [hseed] at hcontent
  rw [hc.blockSize, hc.mode, hc.seed, hseed] at hcontent'
  rw [hc.maxBlocksPerOp, ← hg', hlock, Except.ok.injEq] at hlock'
  refine ⟨⟨?_, ?_, hg'.symm, ?_⟩, hlock'.symm⟩
  · rw [h.config, h'.config, hc.uniquePct]
  · rw [h.config, h'.config, hc.trimPct]
  · exact Except.ok.inj (hcontent'.symm.trans hcontent)

/-- Two runs with one worker and a seed draw the same, whatever their devices hold and answer, when
they stop and what they report: as far as both get, they lease the same ranges, write the same bytes
at the same places and give the leases back with the same tags; and these writes are those that the
devices are asked. -/
theorem reproducible (hc : c.Alike c') (hsize : dev'.size d' = dev.size d)
    (hs : start dev d c setting = (events, .ok r))
    (hs' : start dev' d' c' setting' = (events', .ok r')) {moves moves' : List Move} {n : Nat}
    (hn : n ≤ (r.sights dev moves).countP Sight.isFinished)
    (hn' : n ≤ (r'.sights dev' moves').countP Sight.isFinished) :
    ∃ xs : List Draw, xs.length = n ∧
      xs.flatMap (Draw.sights r.job.geometry) <+: r.sights dev moves ∧
      xs.flatMap (Draw.sights r.job.geometry) <+: r'.sights dev' moves' ∧
      r.Shows dev d moves ∧ r'.Shows dev' d' moves' := by
  have h := started_of_start hs
  have h' := started_of_start hs'
  obtain ⟨halike, hlock⟩ := h.alike h' hc hsize
  have hsource : Worker.sourceFor c' 0 (setting'.entropy 0) =
      Worker.sourceFor c 0 (setting.entropy 0) := by
    obtain ⟨seed, hseed⟩ := Option.isSome_iff_exists.mp hc.fixed
    simp only [Worker.sourceFor, hc.seed, hseed]
  obtain ⟨xs, s, hxs, hprefix⟩ := ((h.alone hc.workers).play moves).draws hn
  obtain ⟨ys, s', hys, hprefix'⟩ := ((h'.alone hc.workers').play moves').draws hn'
  rw [play_job] at hxs hprefix hys hprefix'
  rw [hsource, hlock, halike.draws, hxs] at hys
  cases hys
  rw [halike.geometry] at hprefix'
  exact ⟨xs, Job.length_draws hxs, hprefix, hprefix', h.shows moves, h'.shows moves'⟩

/-- A run on a device that fails to read, and one on a device that fails to write. -/
theorem reproducible_of_failing_devices :
    let c : Config := { Config.standard with
      blockSize := 512, workers := 1, uniquePct := 0, trimPct := 100, seed := some 7 }
    let c' : Config := { c with count := some 2, maxDiagnostics := 0 }
    let d : Memory := ⟨.zeroes 2048, true, false, false, false, 0, 0, 0⟩
    let d' : Memory := ⟨.zeroes 2048, false, true, false, false, 0, 0, 0⟩
    let setting : Setting := ⟨false, 0, ⟨0⟩, fun _ => .words []⟩
    let moves : List Move := (List.range 60).map fun n => .step 0 ⟨n⟩
    ∃ events r events' r', start Memory.device d c setting = (events, .ok r) ∧
      start Memory.device d' c' setting = (events', .ok r') ∧
      ∃ xs : List Draw, xs.length = 2 ∧
        xs.flatMap (Draw.sights r.job.geometry) <+: r.sights Memory.device moves ∧
        xs.flatMap (Draw.sights r.job.geometry) <+: r'.sights Memory.device moves ∧
        r.Shows Memory.device d moves ∧ r'.Shows Memory.device d' moves := by
  intro c c' d d' setting moves
  have hc : c.Alike c' := ⟨rfl, rfl, rfl, rfl, rfl, rfl, rfl, rfl, rfl⟩
  have hv : c.validate = .ok () := by decide +kernel
  have hv' : c'.validate = .ok () := by decide +kernel
  have hsize : Memory.device.size d = .ok 2048 := rfl
  have hsize' : Memory.device.size d' = .ok 2048 := rfl
  obtain ⟨events, r, hs, hn⟩ : ∃ events r, start Memory.device d c setting = (events, .ok r) ∧
      2 ≤ (r.sights Memory.device moves).countP Sight.isFinished :=
    ⟨_, _, start_eq hv hsize (by decide) (dif_pos (by decide)) (make_lock (by decide) (by decide))
      rfl rfl, by decide +kernel⟩
  obtain ⟨events', r', hs', hn'⟩ : ∃ events r, start Memory.device d' c' setting = (events, .ok r) ∧
      2 ≤ (r.sights Memory.device moves).countP Sight.isFinished :=
    ⟨_, _, start_eq hv' hsize' (by decide) (dif_pos (by decide)) (make_lock (by decide) (by decide))
      rfl rfl, by decide +kernel⟩
  exact ⟨events, r, events', r', hs, hs', reproducible hc (hsize'.trans hsize.symm) hs hs' hn hn'⟩

end Run

end Readback
