import Readback.Proofs.Worker.Trail

namespace Readback

def Phase.due (x : Counter) : Phase → UInt64
  | .recording c v rest => Stats.amount x ((c, v) :: rest)
  | _ => 0

def Phase.isRecording : Phase → Bool
  | .recording .. => true
  | _ => false

namespace Worker

variable {σ : Type} {dev : Device σ} {j : Job} {now : Instant} {w : Worker} {s : Shared} {d : σ}
  {t : Turn σ} {b : Batch} {written failed : Bool} {newly offset bytes n : Nat} {k : RangeLock}

theorem due_recordNext (x : Counter) (additions : List (Counter × UInt64)) :
    (recordNext additions).due x = Stats.amount x additions := by
  cases additions <;> rfl

def dueAll (x : Counter) : List Worker → UInt64
  | [] => 0
  | w :: rest => w.phase.due x + dueAll x rest

theorem dueAll_set {x : Counter} {ws : List Worker} {i : Nat} (h : ws[i]? = some w) (v : Worker) :
    dueAll x (ws.set i v) + w.phase.due x = dueAll x ws + v.phase.due x := by
  induction ws generalizing i with
  | nil => simp at h
  | cons u rest ih =>
    cases i with
    | zero =>
      obtain rfl : u = w := by simpa using h
      simp only [List.set_cons_zero, dueAll]
      ac_rfl
    | succ i =>
      have hrest := ih (i := i) (by simpa using h)
      simp only [List.set_cons_succ, dueAll, UInt64.add_assoc, hrest]

theorem dueAll_eq_zero {x : Counter} {ws : List Worker}
    (h : ∀ w ∈ ws, w.phase.isRecording = false) : dueAll x ws = 0 := by
  induction ws with
  | nil => rfl
  | cons w rest ih =>
    obtain ⟨hw, hrest⟩ := List.forall_mem_cons.mp h
    have hdue : w.phase.due x = 0 := by
      cases hp : w.phase <;> simp [hp, Phase.isRecording] at hw <;> rfl
    rw [dueAll, hdue, ih hrest]
    rfl

/-- The iteration whose lease a worker gives back with its next step, and what came of it. -/
def released? (w : Worker) (k : RangeLock) : Option (Iteration × Iteration.Yield) :=
  match w.phase with
  | .releasing b written =>
    match k.release b.lease (newStates b written) b.outcome.verifiedBlocks with
    | .ok (newly, _) => some (⟨b.range, b.tags⟩, ⟨b.outcome, newly⟩)
    | .error _ => none
  | _ => none

/-- The next step of a worker gives no lease back. -/
def Retains (w : Worker) (k : RangeLock) : Prop :=
  ∀ b written newly k', w.phase = .releasing b written →
    k.release b.lease (newStates b written) b.outcome.verifiedBlocks ≠ .ok (newly, k')

theorem Retains.released? (h : w.Retains k) : w.released? k = none := by
  unfold Worker.released?
  split
  · rename_i b written hp
    split
    · exact absurd ‹_› (h b written _ _ hp)
    · rfl
  · rfl

theorem released?_eq (hp : w.phase = .releasing b written) {k' : RangeLock}
    (h : k.release b.lease (newStates b written) b.outcome.verifiedBlocks = .ok (newly, k')) :
    w.released? k = some (⟨b.range, b.tags⟩, ⟨b.outcome, newly⟩) := by
  simp only [released?, hp, h]

variable {k' : RangeLock}

theorem step_releasing (hp : w.phase = .releasing b written)
    (h : s.lock.release b.lease (newStates b written) b.outcome.verifiedBlocks = .ok (newly, k'))
    (hr : j.geometry.rangeBytes b.range = .ok (offset, bytes)) (hn : b.range.length = .ok n)
    (hf : (recordOf b written n bytes newly).failed = .ok failed) :
    step dev j now w s d = goto w { s with lock := k' } d
      (recordNext ((recordOf b written n bytes newly).seen ++ Record.closing failed)) := by
  simp only [step, hp, release, h, orCrash, hr, hn, hf]

theorem due_of_lease {l : Lease} (h : w.phase.lease? = some l) (x : Counter) :
    w.phase.due x = 0 := by
  cases hp : w.phase <;> simp [hp, Phase.lease?] at h <;> rfl

theorem Trips.due {f : Fault} (h : Trips dev j w s d f) (x : Counter) : w.phase.due x = 0 := by
  cases h with
  | draw hp h =>
    rw [hp]
    rfl
  | range hl h => exact due_of_lease hl x
  | device ha h => exact due_of_lease ha.lease x
  | run hp h => exact due_of_lease (by rw [hp]; rfl) x
  | compare hp hr h ho => exact due_of_lease (by rw [hp]; rfl) x
  | release hp h => exact due_of_lease (by rw [hp]; rfl) x

theorem exists_failed_of_le (hk : k.Sound) (hb : k.Fits b.range)
    (hm : b.outcome.mismatches.length ≤ b.range.stop - b.range.start) (n bytes newly : Nat) :
    ∃ failed, (recordOf b written n bytes newly).failed = .ok failed := by
  have hstop : b.range.stop ≤ k.nBlocks := hb.2
  have hsmall := hk.small
  simp only [StateTable.maxSize, Bytes.limit] at hsmall
  have hread : (if b.outcome.readError.isSome then 1 else 0) ≤ 1 := by split <;> omega
  have hwrite : (if written then 0 else 1) ≤ 1 := by split <;> omega
  apply Record.exists_failed
  simp only [recordOf, Word.limit]
  omega

theorem exists_failed {d₀ : σ} (ht : (Phase.releasing b written).Trail dev j d₀ d) (hk : k.Sound)
    (hb : k.Fits b.range) (n bytes newly : Nat) :
    ∃ failed, (recordOf b written n bytes newly).failed = .ok failed := by
  obtain ⟨d₁, hverify, -⟩ := ht
  exact exists_failed_of_le hk hb (Outcome.verify_mismatches hverify) n bytes newly

/-- What a step adds to a counter is what the worker has less to add. -/
theorem Transition.balance (h : Transition dev j now w s d t) (hk : w.Retains s.lock)
    (x : Counter) : t.shared.stats.get x + t.worker.phase.due x = s.stats.get x + w.phase.due x := by
  cases h with
  | @record c v rest hp =>
    rw [hp]
    show (s.stats.add c v).get x + (recordNext rest).due x =
      s.stats.get x + Stats.amount x ((c, v) :: rest)
    rw [due_recordNext, Stats.get_add, UInt64.add_assoc]
    rfl
  | release hp h hr hn hf => exact absurd h (hk _ _ _ _ hp)
  | crashRecorded hp h hf => exact absurd h (hk _ _ _ _ hp)
  | grantUnwritten hp h hu hn ht =>
    rw [hp]
    cases ht <;> rfl
  | unread hp hr h ht =>
    rw [hp]
    cases ht <;> rfl
  | compare hp hr h ho ht =>
    rw [hp]
    cases ht <;> rfl
  | retry hp h => rfl
  | idle hp => rfl
  | write hp hr h =>
    rw [hp]
    generalize trimmedRuns _ _ = runs
    cases runs <;> rfl
  | @discard b run rest offset n d' hp hr h =>
    rw [hp]
    cases rest <;> rfl
  | crash hd hf =>
    rw [hf.due]
    rfl
  | _ =>
    simp only [*]
    rfl

end Worker

end Readback
