import Readback.Proofs.Run.Start
import Readback.Proofs.Worker.Tally

namespace Readback

open Memory (Agree)

/-- What was left behind is the same, whatever the devices have noted otherwise. -/
structure Ledger.Same (s s' : Ledger Memory) : Prop where
  contents : s.device.bytes = s'.device.bytes
  lock : s.lock = s'.lock
  stats : s.stats = s'.stats

namespace Run

variable {σ : Type}

def due (r : Run σ) (x : Counter) : UInt64 :=
  Worker.dueAll x r.workers.toList

def Free (r : Run σ) (i : Nat) : Prop :=
  ∀ l ∈ r.shared.lock.active, ¬ r.job.geometry.Owns l i

/-- Whether every iteration that was begun is over. -/
def settled (r : Run σ) : Bool :=
  r.shared.lock.active.isEmpty && r.workers.all fun w => !w.phase.isRecording

def released? (r : Run σ) (i : Nat) : Option (Iteration × Iteration.Yield) :=
  r.workers[i]?.bind fun w => w.released? r.shared.lock

/-- The iterations whose leases are given back, in the order in which they are, and what comes of
them. -/
def iterations (dev : Device σ) : Run σ → List Move → List (Iteration × Iteration.Yield)
  | _, [] => []
  | r, .interrupt :: rest => iterations dev r.interrupt rest
  | r, .step i now :: rest => (r.released? i).toList ++ iterations dev (r.step dev now i) rest

/-- What a run has left behind so far. -/
def ledger (r : Run σ) : Ledger σ :=
  ⟨r.shared.lock, r.shared.stats, r.device⟩

/-- Where a run stands that is compared with its iterations, as far as their leases were given back,
one after another. -/
structure Serialized (r : Run Memory) (s : Ledger Memory) : Prop where
  custody : r.Custody
  room : r.job.geometry.nBlocks * r.job.geometry.blockSize < Word.limit
  lock : s.lock = { r.shared.lock with active := [] }
  device : Agree r.Free s.device r.device
  stats : ∀ x, s.stats.get x = r.shared.stats.get x + r.due x
  trail : ∀ {k : Nat} {v : Worker} {l : Lease}, r.workers[k]? = some v →
    v.phase.lease? = some l → ∃ m₀ m, Agree (r.job.geometry.Owns l.range) m₀ s.device ∧
      Agree (r.job.geometry.Owns l.range) m r.device ∧ v.phase.Trail Memory.device r.job m₀ m

variable {r : Run Memory} {s : Ledger Memory} {now : Instant} {i : Nat} {w : Worker}
  {t : Worker.Turn Memory}

theorem due_after (hw : r.workers[i]? = some w) (x : Counter) :
    (r.after i w t).due x + w.phase.due x = r.due x + t.worker.phase.due x := by
  have hi : r.workers.toList[i]? = some w := by simpa using hw
  have hset := Worker.dueAll_set (x := x) hi t.worker
  simp only [due, after, Array.toList_setIfInBounds]
  exact hset

/-- A turn changes bytes under the lease of the worker only. -/
theorem Serialized.frame (h : r.Serialized s) (hw : r.workers[i]? = some w)
    (ht : w.Transition Memory.device r.job now r.shared r.device t) :
    Agree (fun x => ∀ l, r.Has i l → ¬ r.job.geometry.Owns l.range x) t.device r.device := by
  rcases ht.answered with he | ⟨l, q, reply, hq, he⟩
  · rw [he]
    exact .refl _ h.device.right
  · have hwithin := hq.within (h.custody.formed hw) h.custody.job.blockSize
    have hkeeps := h.device.right.keeps (fun _ => hwithin.touches) he
    exact hkeeps.mono fun x hx => hx l ⟨w, hw, hq.lease⟩

theorem Serialized.stats_after (h : r.Serialized s) (hw : r.workers[i]? = some w)
    (ht : w.Transition Memory.device r.job now r.shared r.device t) (hk : w.Retains r.shared.lock)
    (x : Counter) : s.stats.get x = t.shared.stats.get x + (r.after i w t).due x := by
  have hbalance := ht.balance hk x
  have hdue := due_after hw x (t := t)
  rw [h.stats x]
  grind

theorem Serialized.others (h : r.Serialized s) {k : Nat} {l : Lease} (hl : r.Has k l)
    (hki : k ≠ i) {x : Nat} (hx : r.job.geometry.Owns l.range x) {l' : Lease}
    (hl' : r.Has i l') : ¬ r.job.geometry.Owns l'.range x :=
  hx.disjoint h.custody.blockSize_pos fun _ hb => h.custody.disjoint hl hl' hki hb

theorem Serialized.trail_of_ne (h : r.Serialized s) (hw : r.workers[i]? = some w)
    (ht : w.Transition Memory.device r.job now r.shared r.device t) {k : Nat} {v : Worker}
    {l : Lease} (hki : k ≠ i) (hv : r.workers[k]? = some v) (hl : v.phase.lease? = some l) :
    ∃ m₀ m, Agree (r.job.geometry.Owns l.range) m₀ s.device ∧
      Agree (r.job.geometry.Owns l.range) m t.device ∧
      v.phase.Trail Memory.device r.job m₀ m := by
  obtain ⟨m₀, m, hstart, hnow, htrail⟩ := h.trail hv hl
  have hframe := (h.frame hw ht).symm.mono fun x hx l' hl' => h.others ⟨v, hv, hl⟩ hki hx hl'
  exact ⟨m₀, m, hstart, hnow.trans hframe, htrail⟩

/-- A turn that leaves the lock alone is part of an iteration that is not over, or of none. -/
theorem Serialized.keep (h : r.Serialized s) (hw : r.workers[i]? = some w)
    (ht : w.Transition Memory.device r.job now r.shared r.device t) (hk : w.Retains r.shared.lock)
    (hlock : t.shared.lock = r.shared.lock)
    (hlease : ∀ l, t.worker.phase.lease? = some l → w.phase.lease? = some l) :
    (r.after i w t).Serialized s := by
  refine ⟨h.custody.after hw ht, h.room, ?_, ?_, h.stats_after hw ht hk, fun hv hl => ?_⟩
  · show s.lock = { t.shared.lock with active := [] }
    rw [hlock]
    exact h.lock
  · have hframe := (h.frame hw ht).symm.mono fun x (hx : r.Free x) l hl => hx _ (h.custody.held hl)
    apply (h.device.trans hframe).mono
    intro x hx
    have hx : ∀ l ∈ t.shared.lock.active, ¬ r.job.geometry.Owns l x := hx
    rwa [hlock] at hx
  · rcases worker_after hw hv with ⟨rfl, rfl⟩ | ⟨hki, hv⟩
    · obtain ⟨m₀, m, hstart, hnow, htrail⟩ := h.trail hw (hlease _ hl)
      obtain ⟨m', hnow, htrail⟩ := ht.trail (hlease _ hl) htrail hnow (h.custody.formed hw)
        h.custody.job.blockSize hl
      exact ⟨m₀, m', hstart, hnow, htrail⟩
    · exact h.trail_of_ne hw ht hki hv hl

/-- An iteration that is granted its lease begins on bytes that nobody else has touched. -/
theorem Serialized.grant (h : r.Serialized s) (hw : r.workers[i]? = some w)
    (ht : w.Transition Memory.device r.job now r.shared r.device t) (hp : w.phase = .acquiring)
    {l : Lease} (hg : r.shared.lock.Granted l t.shared.lock)
    (hlease : ∀ m, t.worker.phase.lease? = some m → m = l) : (r.after i w t).Serialized s := by
  have hk : w.Retains r.shared.lock := fun b written newly k' hp' => by
    rw [hp] at hp'
    cases hp'
  obtain ⟨hdevice, htrail⟩ := ht.trail_of_acquiring hp
  refine ⟨h.custody.after hw ht, h.room, ?_, ?_, h.stats_after hw ht hk, fun hv hl => ?_⟩
  · show s.lock = { t.shared.lock with active := [] }
    rw [h.lock, hg.after]
  · show Agree _ s.device t.device
    rw [hdevice]
    refine h.device.mono fun x hx m hm => hx m ?_
    exact (hg.mem h.custody.lock).mpr (.inr hm)
  · rcases worker_after hw hv with ⟨rfl, rfl⟩ | ⟨hki, hv⟩
    · obtain rfl := hlease _ hl
      refine ⟨r.device, r.device, h.device.symm.mono fun x hx m hm => ?_, ?_, htrail⟩
      · exact hx.disjoint h.custody.blockSize_pos fun b hb => hg.disjoint h.custody.lock hb hm
      · show Agree _ r.device t.device
        rw [hdevice]
        exact .refl _ h.device.right
    · exact h.trail_of_ne hw ht hki hv hl

theorem Serialized.rangeBytes (h : r.Serialized s) {l : Lease} (hl : r.Has i l) :
    r.job.geometry.rangeBytes l.range = .ok (l.range.start * r.job.geometry.blockSize,
      (l.range.stop - l.range.start) * r.job.geometry.blockSize) := by
  obtain ⟨hlt, hstop⟩ := h.custody.lock.active.proper _ (h.custody.held hl)
  rw [h.custody.nBlocks] at hstop
  have hle := Nat.mul_le_mul_right r.job.geometry.blockSize hstop
  exact Geometry.rangeBytes_of_lt (Nat.le_of_lt hlt) (Nat.lt_of_le_of_lt hle h.room)

/-- Where the bytes of a lease are as the worker left them, and the others as they were, all bytes
are free that were before and those of the lease. -/
theorem Serialized.agree_of_released (h : r.Serialized s) {l : Lease} {k' : RangeLock}
    {states : List BlockState} (hr : r.shared.lock.Released l states k') {d' m : Memory}
    (hown : Agree (r.job.geometry.Owns l.range) d' m)
    (hnow : Agree (r.job.geometry.Owns l.range) m r.device)
    (hrest : Agree (fun x => ¬ r.job.geometry.Owns l.range x) d' s.device) :
    Agree (fun x => ∀ l ∈ k'.active, ¬ r.job.geometry.Owns l x) d' r.device := by
  have hfree : Agree (fun x => r.Free x ∧ ¬ r.job.geometry.Owns l.range x) d' r.device :=
    (hrest.mono fun x hx => hx.2).trans (h.device.mono fun x hx => hx.1)
  apply ((hown.trans hnow).union hfree).mono
  intro x hx
  by_cases ho : r.job.geometry.Owns l.range x
  · exact .inl ho
  · refine .inr ⟨fun l' hl' ho' => ?_, ho⟩
    have hne : l' ≠ l.range := fun he => ho (he ▸ ho')
    exact hx l' ((hr.mem_active h.custody.lock).mpr ⟨hl', hne⟩) ho'

theorem Serialized.stats_of_released (h : r.Serialized s) (hw : r.workers[i]? = some w) {l : Lease}
    (hl : w.phase.lease? = some l) (k' : RangeLock) (additions : List (Counter × UInt64))
    (x : Counter) :
    (s.stats.addAll additions).get x = r.shared.stats.get x +
      (r.after i w (Worker.goto w { r.shared with lock := k' } r.device
        (Worker.recordNext additions))).due x := by
  have hdue := due_after hw x (t := Worker.goto w { r.shared with lock := k' } r.device
    (Worker.recordNext additions))
  have hnext := Worker.due_recordNext x additions
  rw [Worker.due_of_lease hl x, UInt64.add_zero] at hdue
  rw [Stats.get_addAll, h.stats x, hdue, UInt64.add_assoc]
  exact congrArg _ (congrArg _ hnext.symm)

/-- An iteration that gives its lease back could have been executed now as a whole. -/
theorem Serialized.release (h : r.Serialized s) (hw : r.workers[i]? = some w)
    (ht : w.Transition Memory.device r.job now r.shared r.device t)
    (ht' : t = w.step Memory.device r.job now r.shared r.device) {b : Batch} {written : Bool}
    {newly : Nat} {k' : RangeLock} (hp : w.phase = .releasing b written)
    (hrelease : r.shared.lock.release b.lease (Worker.newStates b written)
      b.outcome.verifiedBlocks = .ok (newly, k')) :
    ∃ s', Iteration.execute Memory.device r.job ⟨b.range, b.tags⟩ s =
      .ok (⟨b.outcome, newly⟩, s') ∧ (r.after i w t).Serialized s' := by
  have hlease : w.phase.lease? = some b.lease := by
    rw [hp]
    rfl
  have hheld : r.Has i b.lease := ⟨w, hw, hlease⟩
  have hmem := h.custody.held hheld
  have hfits : r.shared.lock.Fits b.range := h.custody.lock.active.proper _ hmem
  have hreleased := h.custody.lock.released hfits.1 hrelease
  have hcomposed : b.Composed r.job := by
    have hformed := h.custody.formed hw
    rwa [hp] at hformed
  obtain ⟨m₀, m, hstart, hnow, htrail⟩ := h.trail hw hlease
  rw [hp] at htrail
  have hr := h.rangeBytes hheld
  have hn : b.range.length = .ok (b.range.stop - b.range.start) :=
    Word.sub_of_le (Nat.le_of_lt hfits.1)
  obtain ⟨failed, hf⟩ := Worker.exists_failed htrail h.custody.lock hfits
    (b.range.stop - b.range.start) ((b.range.stop - b.range.start) * r.job.geometry.blockSize) newly
  obtain ⟨d', hexecute, hown, hrest⟩ := Iteration.execute_of_trail htrail hcomposed
    h.custody.job.blockSize h.lock h.custody.lock hfits (h.custody.prior hheld) hstart
    hrelease hr hn hf
  rw [Worker.step_releasing hp hrelease hr hn hf] at ht'
  subst ht'
  refine ⟨_, hexecute, h.custody.after hw ht, h.room, ?_,
    h.agree_of_released hreleased hown hnow hrest,
    h.stats_of_released hw hlease k' _, fun {k v l} hv hl => ?_⟩
  · have hlike := h.custody.lock.release_like h.custody.lock rfl hmem hrelease
    obtain ⟨-, hk'⟩ := Prod.mk.inj (Except.ok.inj (hrelease.symm.trans hlike))
    exact congrArg (fun k : RangeLock => { k with active := [] }) hk'.symm
  · rcases worker_after hw hv with ⟨rfl, rfl⟩ | ⟨hki, hv⟩
    · cases (Worker.recordNext_lease? _).symm.trans hl
    · obtain ⟨m₁, m', hstart', hnow', htrail'⟩ := h.trail_of_ne hw ht hki hv hl
      have hframe := hrest.symm.mono fun x hx => h.others ⟨v, hv, hl⟩ hki hx hheld
      exact ⟨m₁, m', hstart'.trans hframe, hnow', htrail'⟩

/-- The iteration that a step brings to its end, if any, could have been executed now as a whole. -/
theorem Serialized.step (h : r.Serialized s) (now : Instant) (i : Nat) :
    ∃ s', Iteration.executeAll Memory.device r.job ((r.released? i).toList.map Prod.fst) s =
      .ok ((r.released? i).toList.map Prod.snd, s') ∧
      (r.step Memory.device now i).Serialized s' := by
  cases hw : r.workers[i]? with
  | none =>
    rw [step_of_none hw, released?, hw]
    exact ⟨s, rfl, h⟩
  | some w =>
    have ht : w.Transition Memory.device r.job now r.shared r.device _ := Worker.step_transition
    have hreleased : r.released? i = w.released? r.shared.lock := by
      rw [released?, hw]
      rfl
    rw [step_eq hw, hreleased]
    by_cases hk : w.Retains r.shared.lock
    · rw [hk.released?]
      refine ⟨s, rfl, ?_⟩
      cases h.custody.handles hw ht with
      | keep hlock hl => exact h.keep hw ht hk hlock hl
      | grant hp hg hl => exact h.grant hw ht hp hg hl
      | release hp he hr hl => exact absurd he (hk _ _ _ _ hp)
    · simp only [Worker.Retains, not_forall, not_not] at hk
      obtain ⟨b, written, newly, k', hp, hrelease⟩ := hk
      obtain ⟨s', hexecute, hs'⟩ := h.release hw ht rfl hp hrelease
      rw [Worker.released?_eq hp hrelease]
      refine ⟨s', ?_, hs'⟩
      simp only [Option.toList_some, List.map_cons, List.map_nil, Iteration.executeAll, hexecute,
        bind, Except.bind, pure, Except.pure]

theorem Serialized.play (h : r.Serialized s) (moves : List Move) :
    ∃ s', Iteration.executeAll Memory.device r.job
        ((r.iterations Memory.device moves).map Prod.fst) s =
      .ok ((r.iterations Memory.device moves).map Prod.snd, s') ∧
      (r.play Memory.device moves).Serialized s' := by
  induction moves generalizing r s with
  | nil => exact ⟨s, rfl, h⟩
  | cons m rest ih =>
    cases m with
    | interrupt =>
      have hi : r.interrupt.Serialized s :=
        ⟨h.custody.interrupt, h.room, h.lock, h.device, h.stats, h.trail⟩
      exact ih hi
    | step i now =>
      obtain ⟨s₁, hfirst, h₁⟩ := h.step now i
      obtain ⟨s₂, hrest, h₂⟩ := ih h₁
      rw [step_job] at hrest
      refine ⟨s₂, ?_, h₂⟩
      simp only [iterations, List.map_append]
      exact Iteration.executeAll_append hfirst hrest

variable {d : Memory} {c : Config} {setting : Setting} {events : List Event} {moves : List Move}

theorem Started.due_eq_zero (h : Started Memory.device d c setting events r) (x : Counter) :
    r.due x = 0 := by
  apply Worker.dueAll_eq_zero
  intro v hv
  obtain ⟨k, hk⟩ := List.mem_iff_getElem?.mp hv
  rw [Array.getElem?_toList] at hk
  rw [h.polling hk]
  rfl

theorem Started.serialized (h : Started Memory.device d c setting events r) (hd : d.Sound) :
    r.Serialized r.ledger := by
  obtain ⟨size, hsize, hg⟩ := h.geometry
  obtain ⟨he, -, -, -⟩ := Geometry.make_ok hg
  obtain ⟨-, -, hactive, -⟩ := RangeLock.sound_of_make h.lock
  refine ⟨h.custody, ?_, ?_, ?_, fun x => ?_, fun hv hl => ?_⟩
  · have hroom := hd.room
    have hsize : d.size = size := Except.ok.inj hsize
    have hblocks := Geometry.nBlocks_mul_le hg
    simp only [Pages.span, Pages.pageSize] at hroom
    simp only [Word.limit]
    omega
  · show r.shared.lock = { r.shared.lock with active := [] }
    rw [← hactive]
  · rw [ledger, h.device]
    exact .refl _ hd
  · rw [ledger, h.due_eq_zero, UInt64.add_zero]
  · rw [h.polling hv] at hl
    cases hl

theorem Serialized.same (h : r.Serialized s) (hend : r.settled = true) : s.Same r.ledger := by
  simp only [settled, Bool.and_eq_true, List.isEmpty_iff, Array.all_eq_true',
    Bool.not_eq_true'] at hend
  obtain ⟨hactive, hrecording⟩ := hend
  refine ⟨?_, ?_, Stats.ext_get fun x => ?_⟩
  · refine Bytes.ext_byteAt ?_ fun i hi => ?_
    · rw [Memory.size_bytes, Memory.size_bytes]
      exact h.device.alike.size
    · rw [Memory.size_bytes] at hi
      rw [Memory.byteAt_bytes hi, Memory.byteAt_bytes (h.device.alike.size ▸ hi)]
      apply h.device.bytes i
      rw [Free, hactive]
      nofun
  · rw [h.lock, ← hactive]
    rfl
  · rw [h.stats x, due, Worker.dueAll_eq_zero fun w hw => hrecording w (by simpa using hw),
      UInt64.add_zero]
    rfl

/-- However the steps of the workers are interleaved, once all iterations are over it is as if they
had been executed one after another, in the order in which they gave their leases back: each finds
out the same and covers as many blocks for the first time, and they leave the same bytes, the same
states and covered blocks and the same counters. -/
theorem serializable (hs : start Memory.device d c setting = (events, .ok r)) (hd : d.Sound)
    (hend : (r.play Memory.device moves).settled = true) :
    let done := r.iterations Memory.device moves
    ∃ s, Iteration.executeAll Memory.device r.job (done.map Prod.fst) r.ledger =
      .ok (done.map Prod.snd, s) ∧ s.Same (r.play Memory.device moves).ledger := by
  obtain ⟨s, hall, h⟩ := ((started_of_start hs).serialized hd).play moves
  exact ⟨s, hall, h.same hend⟩

/-- Two workers that write and trim different blocks side by side. -/
theorem serializable_of_two_workers :
    let c : Config := { Config.standard with
      blockSize := 512, workers := 2, uniquePct := 0, trimPct := 100 }
    let d : Memory := ⟨.zeroes 2048, false, false, false, false, 0, 0, 0⟩
    let setting : Setting := ⟨false, 0, ⟨0⟩,
      fun id => .words [0, 0, 0, if id = 0 then 0 else 0x80000000, 0]⟩
    let moves : List Move := (List.range 20).map fun n => .step (n % 2) ⟨n⟩
    ∃ events r, start Memory.device d c setting = (events, .ok r) ∧
      (r.play Memory.device moves).settled = true ∧
      (r.play Memory.device moves).shared.stats.iterations = 2 ∧
      ∃ s, Iteration.executeAll Memory.device r.job
          ((r.iterations Memory.device moves).map Prod.fst) r.ledger =
        .ok ((r.iterations Memory.device moves).map Prod.snd, s) ∧
        s.Same (r.play Memory.device moves).ledger := by
  intro c d setting moves
  have hv : c.validate = .ok () := by decide +kernel
  have hsize : Memory.device.size d = .ok 2048 := rfl
  have hd : d.Sound := ⟨trivial, by decide⟩
  obtain ⟨events, r, hs, hend, hcount⟩ : ∃ events r,
      start Memory.device d c setting = (events, .ok r) ∧
      (r.play Memory.device moves).settled = true ∧
      (r.play Memory.device moves).shared.stats.iterations = 2 :=
    ⟨_, _, start_eq hv hsize (by decide) (dif_pos (by decide)) (make_lock (by decide) (by decide))
      rfl rfl, by decide +kernel, by decide +kernel⟩
  exact ⟨events, r, hs, hend, hcount, serializable hs hd hend⟩

end Run

end Readback
