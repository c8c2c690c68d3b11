import Readback.Proofs.Stats
import Readback.Proofs.Worker.Custody

namespace Readback

/-- What is asked of the device in a phase, if it asks anything and can tell where. -/
def Phase.call? (g : Geometry) : Phase → Option Request
  | .invalidating l => (g.rangeBytes l.range).toOption.map fun (offset, n) => .invalidate offset n
  | .reading l => (g.rangeBytes l.range).toOption.map fun (offset, n) => .read offset n
  | .writing b => (g.rangeBytes b.range).toOption.map fun (offset, _) => .write offset b.data
  | .discarding _ run _ => (g.rangeBytes run).toOption.map fun (offset, n) => .discard offset n
  | .flushing _ => some .flush
  | .dropping b => (g.rangeBytes b.range).toOption.map fun (offset, n) => .invalidate offset n
  | _ => none

/-- An iteration whose lease went back to the lock. -/
structure Completed where
  batch : Batch
  written : Bool
  newly : Nat

/-- What one step of a worker does to the lock, the device or the counters. -/
inductive Act
  | granted (l : Lease)
  | asked (q : Request)
  | completed (c : Completed)
  | added (c : Counter) (v : UInt64)

namespace Act

def adds (x : Counter) : Act → Nat
  | .added c v => if c = x then v.toNat else 0
  | _ => 0

def counts : Act → Bool
  | .added .iterations _ => true
  | _ => false

def call? : Act → Option Request
  | .asked q => some q
  | _ => none

def completed? : Act → Option Completed
  | .completed c => some c
  | _ => none

end Act

def Phase.adding (x : Counter) : Phase → Nat
  | .recording c v _ => if c = x then v.toNat else 0
  | _ => 0

theorem Phase.Asks.call? {g : Geometry} {p : Phase} {l : Lease} {q : Request}
    (h : p.Asks g l q) : p.call? g = some q := by
  cases h with
  | flush => rfl
  | invalidate h => simp only [Phase.call?, h]; rfl
  | read h => simp only [Phase.call?, h]; rfl
  | write h => simp only [Phase.call?, h]; rfl
  | discard h => simp only [Phase.call?, h]; rfl
  | drop h => simp only [Phase.call?, h]; rfl

theorem Phase.asks_of_call? {g : Geometry} {p : Phase} {q : Request} (h : p.call? g = some q) :
    ∃ l, p.Asks g l q := by
  have known {r : BlockRange} {f : Nat × Nat → Request}
      (h : (g.rangeBytes r).toOption.map f = some q) :
      ∃ offset n, g.rangeBytes r = .ok (offset, n) ∧ f (offset, n) = q := by
    cases hr : g.rangeBytes r with
    | error e =>
      rw [hr] at h
      cases h
    | ok p =>
      rw [hr] at h
      exact ⟨p.1, p.2, rfl, Option.some.inj h⟩
  cases p with
  | invalidating l =>
    obtain ⟨offset, n, hr, rfl⟩ := known h
    exact ⟨l, .invalidate hr⟩
  | reading l =>
    obtain ⟨offset, n, hr, rfl⟩ := known h
    exact ⟨l, .read hr⟩
  | writing b =>
    obtain ⟨offset, n, hr, rfl⟩ := known h
    exact ⟨b.lease, .write hr⟩
  | discarding b run rest =>
    obtain ⟨offset, n, hr, rfl⟩ := known h
    exact ⟨b.lease, .discard hr⟩
  | flushing b =>
    cases h
    exact ⟨b.lease, .flush⟩
  | dropping b =>
    obtain ⟨offset, n, hr, rfl⟩ := known h
    exact ⟨b.lease, .drop hr⟩
  | _ => cases h

def Phase.counting : Phase → Nat
  | .recording .iterations _ _ => 1
  | _ => 0

namespace Worker

variable {σ : Type} {dev : Device σ} {j : Job} {now : Instant} {w : Worker} {s : Shared} {d : σ}

def act? (j : Job) (w : Worker) (s : Shared) : Option Act :=
  match w.phase with
  | .acquiring =>
    match s.lock.tryCandidates RangeLock.attempts w.source with
    | .ok (some (l, _), _) => some (.granted l)
    | _ => none
  | .releasing b written =>
    match s.lock.release b.lease (newStates b written) b.outcome.verifiedBlocks with
    | .ok (newly, _) => some (.completed ⟨b, written, newly⟩)
    | .error _ => none
  | .recording c v _ => some (.added c v)
  | p => (p.call? j.geometry).map .asked

/-- What it takes for the next step of a worker to do something. -/
inductive Does (j : Job) (w : Worker) (s : Shared) : Act → Prop
  | grant {l : Lease} {lock : RangeLock} {source : Source} (hp : w.phase = .acquiring)
      (h : s.lock.tryCandidates RangeLock.attempts w.source = .ok (some (l, lock), source)) :
      Does j w s (.granted l)
  | ask {q : Request} (h : w.phase.call? j.geometry = some q) : Does j w s (.asked q)
  | complete {b : Batch} {written : Bool} {newly : Nat} {lock : RangeLock}
      (hp : w.phase = .releasing b written)
      (h : s.lock.release b.lease (newStates b written) b.outcome.verifiedBlocks =
        .ok (newly, lock)) : Does j w s (.completed ⟨b, written, newly⟩)
  | add {c : Counter} {v : UInt64} {rest : List (Counter × UInt64)}
      (hp : w.phase = .recording c v rest) : Does j w s (.added c v)

theorem does_of_act? {a : Act} (h : w.act? j s = some a) : Does j w s a := by
  unfold act? at h
  split at h
  · rename_i hp
    split at h
    · cases h
      exact .grant hp ‹_›
    · cases h
  · rename_i hp
    split at h
    · cases h
      exact .complete hp ‹_›
    · cases h
  · cases h
    exact .add ‹_›
  · obtain ⟨q, hq, rfl⟩ := Option.map_eq_some_iff.mp h
    exact .ask hq

theorem Does.act? {a : Act} (h : Does j w s a) : w.act? j s = some a := by
  cases h with
  | grant hp h => simp only [Worker.act?, hp, h]
  | ask h =>
    unfold Worker.act?
    split
    · rename_i hp
      rw [hp] at h
      cases h
    · rename_i hp
      rw [hp] at h
      cases h
    · rename_i hp
      rw [hp] at h
      cases h
    · rw [h]
      rfl
  | complete hp h => simp only [Worker.act?, hp, h]
  | add hp => simp only [Worker.act?, hp]

theorem ask_device {q : Request} {k : Except Error q.Reply → σ → Turn σ}
    (h : ∀ x d', (k x d').device = d') : (ask dev w s d q k).device = (dev.answer q d).2 := by
  apply ask_cases (P := fun t => t.device = (dev.answer q d).2)
  · intro reply d' ha
    rw [h, ha]
  · intro e d' ha
    rw [h, ha]
  · intro f d' ha
    rw [ha]
    rfl

theorem orCrash_device {x : Except Fault (Nat × Nat)} {f : Nat × Nat → Request}
    {k : Nat × Nat → Turn σ} (h : ∀ offset n, (k (offset, n)).device = (dev.answer (f (offset, n)) d).2) :
    (orCrash w s d x k).device = (x.toOption.map f).elim d fun q => (dev.answer q d).2 := by
  cases x with
  | error f => rfl
  | ok p => exact h p.1 p.2

theorem prepare_device (l : Lease) (o : Outcome) : (prepare j w s d l o).device = d :=
  (prepare_prepared l o).lease.2.1

theorem acquire_device : (acquire j w s d).device = d := by
  unfold acquire
  apply orCrash_cases (P := fun t : Turn σ => t.device = d)
  · rintro ⟨_ | ⟨l, lock⟩, source⟩ -
    · rfl
    dsimp only
    split
    · rfl
    · apply orCrash_cases (P := fun t : Turn σ => t.device = d)
      · intro n hn
        exact prepare_device _ _
      · intro f hf
        rfl
  · intro f hf
    rfl

theorem readBack_device (l : Lease) :
    (readBack dev j w s d l).device =
      ((Phase.reading l).call? j.geometry).elim d fun q => (dev.answer q d).2 := by
  apply orCrash_device
  intro offset n
  apply ask_device
  intro x d'
  cases x with
  | error e => exact prepare_device _ _
  | ok bytes =>
    apply orCrash_cases (P := fun t : Turn σ => t.device = d')
    · intro o ho
      exact prepare_device _ _
    · intro f hf
      rfl

theorem release_device (b : Batch) (written : Bool) : (release j w s d b written).device = d := by
  unfold release
  split
  · rfl
  · rfl
  · apply orCrash_cases (P := fun t : Turn σ => t.device = d)
    · rintro ⟨offset, bytes⟩ -
      apply orCrash_cases (P := fun t : Turn σ => t.device = d)
      · intro n hn
        apply orCrash_cases (P := fun t : Turn σ => t.device = d)
        · intro failed hf
          rfl
        · intro f hf
          rfl
      · intro f hf
        rfl
    · intro f hf
      rfl

/-- A step leaves the device as the answer to what it asks does, or as it was. -/
theorem step_device : (step dev j now w s d).device =
    (w.phase.call? j.geometry).elim d fun q => (dev.answer q d).2 := by
  unfold step
  cases hp : w.phase with
  | polling =>
    dsimp only [poll]
    split <;> rfl
  | acquiring => exact acquire_device
  | invalidating l => exact orCrash_device fun offset n => ask_device fun x d' => rfl
  | reading l => exact readBack_device l
  | writing b =>
    apply orCrash_device
    intro offset n
    apply ask_device
    intro x d'
    cases x <;> rfl
  | discarding b run rest =>
    apply orCrash_device
    intro offset n
    apply ask_device
    intro x d'
    cases x with
    | ok u => rfl
    | error e =>
      dsimp only
      split <;> rfl
  | flushing b =>
    apply ask_device
    intro x d'
    cases x <;> rfl
  | dropping b => exact orCrash_device fun offset n => ask_device fun x d' => rfl
  | releasing b written => exact release_device b written
  | recording c v rest => rfl
  | reporting =>
    dsimp only [consider]
    split <;> rfl
  | sampling t seen pending =>
    cases pending with
    | cons c rest => rfl
    | nil =>
      dsimp only [sample]
      split <;> rfl
  | checking seen pending => cases pending <;> rfl
  | judging seen =>
    dsimp only [judge]
    split <;> rfl
  | giving reason cause => rfl
  | raising cause => cases cause <;> rfl
  | stopped res => rfl
  | crashed f => rfl

theorem Trips.busy {f : Fault} (h : Trips dev j w s d f) :
    w.phase = .acquiring ∨ ∃ l, w.phase.lease? = some l := by
  cases h with
  | draw hp h => exact .inl hp
  | range hl h => exact .inr ⟨_, hl⟩
  | run hp h => exact .inr ⟨_, by rw [hp]; rfl⟩
  | device ha h => exact .inr ⟨_, ha.lease⟩
  | compare hp hr h ho => exact .inr ⟨_, by rw [hp]; rfl⟩
  | release hp h => exact .inr ⟨_, by rw [hp]; rfl⟩

theorem adding_eq_zero (x : Counter) (h : w.phase = .acquiring ∨ ∃ l, w.phase.lease? = some l) :
    w.phase.adding x = 0 := by
  rcases h with hp | ⟨l, hl⟩
  · rw [hp]
    rfl
  · cases hp : w.phase with
    | recording c v rest =>
      rw [hp] at hl
      cases hl
    | _ => rfl

theorem adding_of_ended (x : Counter) (h : w.ended = true) : w.phase.adding x = 0 := by
  rcases phase_of_ended h with ⟨result, hp⟩ | ⟨f, hp⟩ <;> rw [hp] <;> rfl

theorem act?_adds (x : Counter) : (w.act? j s).elim 0 (Act.adds x) = w.phase.adding x := by
  cases h : w.act? j s with
  | none =>
    cases hp : w.phase with
    | recording c v rest =>
      rw [Does.act? (.add hp)] at h
      cases h
    | _ => rfl
  | some a =>
    cases does_of_act? h with
    | grant hp h => exact (adding_eq_zero x (.inl hp)).symm
    | ask hq =>
      obtain ⟨l, ha⟩ := Phase.asks_of_call? hq
      exact (adding_eq_zero x (.inr ⟨l, ha.lease⟩)).symm
    | complete hp h => exact (adding_eq_zero x (.inr ⟨_, by rw [hp]; rfl⟩)).symm
    | add hp =>
      rw [hp]
      rfl

theorem act?_counts : (w.act? j s).elim 0 (fun a => a.counts.toNat) = w.phase.counting := by
  cases h : w.act? j s with
  | none =>
    cases hp : w.phase with
    | recording c v rest =>
      rw [Does.act? (.add hp)] at h
      cases h
    | _ => rfl
  | some a =>
    cases does_of_act? h with
    | grant hp h =>
      rw [hp]
      rfl
    | ask hq =>
      obtain ⟨l, ha⟩ := Phase.asks_of_call? hq
      cases hp : w.phase <;> rw [hp] at ha <;> first | rfl | cases ha
    | complete hp h =>
      rw [hp]
      rfl
    | @add c v rest hp =>
      rw [hp]
      cases c <;> rfl

theorem Transition.eq_of_recording {t : Turn σ} (h : Transition dev j now w s d t) {c : Counter}
    {v : UInt64} {rest : List (Counter × UInt64)} (hp : w.phase = .recording c v rest) :
    t = goto w { s with stats := s.stats.add c v } d (recordNext rest) := by
  cases h with
  | record hp' =>
    rw [hp] at hp'
    cases hp'
    rfl
  | idle he =>
    unfold ended at he
    rw [hp] at he
    cases he
  | crash hd hf =>
    rcases hf.busy with hp' | ⟨l, hl⟩
    · rw [hp] at hp'
      cases hp'
    · rw [hp] at hl
      cases hl
  | _ => simp only [hp, reduceCtorEq] at *

/-- A step adds to the counters what its phase says. -/
theorem Transition.get_stats {t : Turn σ} (h : Transition dev j now w s d t) (x : Counter) :
    t.shared.stats.get x = s.stats.get x + UInt64.ofNat (w.phase.adding x) := by
  have still (hs : t.shared.stats = s.stats) (ha : w.phase.adding x = 0) :
      t.shared.stats.get x = s.stats.get x + UInt64.ofNat (w.phase.adding x) := by
    rw [hs, ha]
    exact (UInt64.add_zero _).symm
  cases h with
  | @record c v rest hp =>
    rw [hp]
    show (s.stats.add c v).get x = s.stats.get x + UInt64.ofNat (if c = x then v.toNat else 0)
    rw [Stats.get_add]
    split
    · rw [UInt64.ofNat_toNat]
    · rfl
  | grantUnwritten hp h hw hn ht =>
    exact still (by rw [ht.lease.1]) (adding_eq_zero x (.inl hp))
  | unread hp hr h ht => exact still (by rw [ht.lease.1]) (by rw [hp]; rfl)
  | compare hp hr h ho ht => exact still (by rw [ht.lease.1]) (by rw [hp]; rfl)
  | retry hp h => exact still rfl (adding_eq_zero x (.inl hp))
  | idle hp => exact still rfl (adding_of_ended x hp)
  | crash hd hf => exact still rfl (adding_eq_zero x hf.busy)
  | _ => exact still rfl (by simp only [*]; rfl)

end Worker

end Readback
