import Readback.Proofs.Run.Start
import Readback.Proofs.Run.Trace

namespace Readback

/-- What a worker has in its hands after an act, if it had `held` before. -/
def Act.hold (held : List Lease) : Act → List Lease
  | .granted l => l :: held
  | .completed c => held.erase c.batch.lease
  | _ => held

def Act.holding (k : Nat) (acts : List (Nat × Act)) : List Lease :=
  acts.foldl (fun held a => if a.1 = k then a.2.hold held else held) []

theorem Act.holding_concat (acts : List (Nat × Act)) (i k : Nat) (a : Act) :
    Act.holding k (acts ++ [(i, a)]) =
      if i = k then a.hold (Act.holding k acts) else Act.holding k acts :=
  List.foldl_append

theorem Act.mem_hold {held : List Lease} {l : Lease} {a : Option Act} (hl : l ∈ held)
    (hne : ∀ c, a = some (.completed c) → c.batch.range ≠ l.range) :
    l ∈ a.elim held (Act.hold held) := by
  cases a with
  | none => exact hl
  | some a =>
    cases a with
    | granted m => exact List.mem_cons_of_mem m hl
    | completed c =>
      refine (List.mem_erase_of_ne fun he => ?_).mpr hl
      exact hne c rfl (congrArg Lease.range he.symm)
    | asked q => exact hl
    | added x v => exact hl

/-- The next step may take a lease from the lock or give one back. -/
def Phase.trades : Phase → Bool
  | .acquiring => true
  | .releasing .. => true
  | _ => false

namespace Worker

variable {σ : Type} {dev : Device σ} {j : Job} {now : Instant} {w : Worker} {s : Shared} {d : σ}
  {t : Turn σ}

theorem hold_of_quiet (hw : w.phase.trades = false) (held : List Lease) :
    (w.act? j s).elim held (Act.hold held) = held := by
  cases ha : w.act? j s with
  | none => rfl
  | some a =>
    cases does_of_act? ha with
    | grant hp h =>
      rw [hp] at hw
      cases hw
    | complete hp h =>
      rw [hp] at hw
      cases hw
    | ask h => rfl
    | add hp => rfl

theorem trades_of_ended (h : w.ended = true) : w.phase.trades = false := by
  rcases phase_of_ended h with ⟨result, hp⟩ | ⟨f, hp⟩ <;> rw [hp] <;> rfl

theorem length_hold_le :
    ((w.act? j s).elim w.phase.lease?.toList (Act.hold w.phase.lease?.toList)).length ≤ 1 := by
  cases ha : w.act? j s with
  | none => exact Option.length_toList_le
  | some a =>
    cases does_of_act? ha with
    | grant hp h =>
      rw [hp]
      exact Nat.le_refl 1
    | complete hp h =>
      exact Nat.le_trans (List.length_erase_le) Option.length_toList_le
    | ask h => exact Option.length_toList_le
    | add hp => exact Option.length_toList_le

theorem Prepared.holding {l : Lease} {o : Outcome} (h : Prepared j w s d l o t) :
    t.worker.phase.lease?.toList = [l] ∨ ∃ f, t.worker.phase = .crashed f := by
  cases h with
  | ready h => exact .inl rfl
  | fault h => exact .inr ⟨_, rfl⟩

/-- A worker goes on with the lease that it was granted, and has none once that is released. -/
theorem Transition.holding (h : Transition dev j now w s d t)
    (hk : ∀ b written e, w.phase = .releasing b written →
      s.lock.release b.lease (newStates b written) b.outcome.verifiedBlocks ≠ .error (.error e)) :
    t.worker.phase.lease?.toList =
        (w.act? j s).elim w.phase.lease?.toList (Act.hold w.phase.lease?.toList) ∨
      ∃ f, t.worker.phase = .crashed f := by
  cases h with
  | retry hp h =>
    left
    have ha : w.act? j s = none := by simp only [Worker.act?, hp, h]
    rw [ha]
    rfl
  | grant hp h hw =>
    left
    rw [Does.act? (.grant hp h), hp]
    rfl
  | grantUnwritten hp h hu hn ht =>
    rw [Does.act? (.grant hp h), hp]
    exact ht.holding
  | unread hp hr h ht =>
    rw [hold_of_quiet (by rw [hp]; rfl), hp]
    exact ht.holding
  | compare hp hr h ho ht =>
    rw [hold_of_quiet (by rw [hp]; rfl), hp]
    exact ht.holding
  | @write b offset n d' hp hr h =>
    left
    rw [hold_of_quiet (by rw [hp]; rfl), hp]
    exact congrArg Option.toList (discardNext_lease? _ _)
  | @discard b run rest offset n d' hp hr h =>
    left
    rw [hold_of_quiet (by rw [hp]; rfl), hp]
    exact congrArg Option.toList (discardNext_lease? _ _)
  | @release b written newly lock offset bytes n failed hp h hr hn hf =>
    left
    rw [Does.act? (.complete hp h), hp]
    refine (congrArg Option.toList (recordNext_lease? _)).trans ?_
    exact (List.erase_cons_head b.lease []).symm
  | refuse hp h => exact absurd h (hk _ _ _ hp)
  | record hp =>
    left
    rw [hold_of_quiet (by rw [hp]; rfl), hp]
    exact congrArg Option.toList (recordNext_lease? _)
  | idle hp =>
    left
    rw [hold_of_quiet (trades_of_ended hp)]
    rfl
  | crash hd hf => exact .inr ⟨_, rfl⟩
  | crashGranted hp h hl => exact .inr ⟨_, rfl⟩
  | crashRecorded hp h hf => exact .inr ⟨_, rfl⟩
  | _ =>
    left
    rw [hold_of_quiet (by simp only [*]; rfl)]
    simp only [*]
    rfl

theorem acquire_shared {l : Lease} {lock : RangeLock} {source : Source}
    (h : s.lock.tryCandidates RangeLock.attempts w.source = .ok (some (l, lock), source)) :
    (acquire j w s d).shared = { s with lock } := by
  simp only [acquire, h, orCrash]
  split
  · rfl
  · split
    · exact (prepare_prepared _ _).lease.1
    · rfl

theorem release_shared {b : Batch} {written : Bool} {newly : Nat} {lock : RangeLock}
    (h : s.lock.release b.lease (newStates b written) b.outcome.verifiedBlocks =
      .ok (newly, lock)) : (release j w s d b written).shared = { s with lock } := by
  simp only [release, h, orCrash]
  split
  · split
    · split <;> rfl
    · rfl
  · rfl

theorem Transition.lock_of_quiet (h : Transition dev j now w s d t)
    (hw : w.phase.trades = false) : t.shared.lock = s.lock := by
  have never {p : Phase} (hp : w.phase = p) (ht : p.trades = true) : t.shared.lock = s.lock := by
    rw [hp, ht] at hw
    cases hw
  cases h with
  | grant hp h hu => exact never hp rfl
  | grantUnwritten hp h hu hn ht => exact never hp rfl
  | crashGranted hp h hl => exact never hp rfl
  | release hp h hr hn hf => exact never hp rfl
  | crashRecorded hp h hf => exact never hp rfl
  | unread hp hr h ht => exact congrArg Shared.lock ht.lease.1
  | compare hp hr h ho ht => exact congrArg Shared.lock ht.lease.1
  | _ => rfl

theorem acquire_active (hk : s.lock.Sound) (hp : w.phase = .acquiring) {r : BlockRange}
    (hr : r ∈ (acquire j w s d).shared.lock.active) :
    r ∈ s.lock.active ∨ ∃ l, w.act? j s = some (.granted l) ∧ l.range = r := by
  rcases hk.tryCandidates RangeLock.attempts w.source with
    he | ⟨source, he⟩ | ⟨l, lock, source, he, hgranted⟩
  · rw [acquire, he] at hr
    exact .inl hr
  · rw [acquire, he] at hr
    exact .inl hr
  · rw [acquire_shared he] at hr
    rcases (hgranted.mem hk).mp hr with rfl | hr
    · exact .inr ⟨l, Does.act? (.grant hp he), rfl⟩
    · exact .inl hr

theorem release_active {b : Batch} {written : Bool} (hk : s.lock.Sound)
    (hm : b.lease.range ∈ s.lock.active) {r : BlockRange}
    (hr : r ∈ (release j w s d b written).shared.lock.active) :
    r ∈ s.lock.active ∧ ∀ newly lock, s.lock.release b.lease (newStates b written)
      b.outcome.verifiedBlocks = .ok (newly, lock) → b.range ≠ r := by
  cases he : s.lock.release b.lease (newStates b written) b.outcome.verifiedBlocks with
  | error e =>
    refine ⟨?_, fun newly lock h => ?_⟩
    · cases e <;> simp only [release, he] at hr <;> exact hr
    · cases h
  | ok p =>
    obtain ⟨newly, lock⟩ := p
    rw [release_shared he] at hr
    obtain ⟨hr, hne⟩ := ((hk.released (hk.active.proper _ hm).1 he).mem_active hk).mp hr
    exact ⟨hr, fun _ _ _ => hne.symm⟩

/-- What is active after a step was so before and is not released with it, or is granted with
it. -/
theorem step_active (hk : s.lock.Sound)
    (hl : ∀ l, w.phase.lease? = some l → l.range ∈ s.lock.active) {r : BlockRange}
    (hr : r ∈ (step dev j now w s d).shared.lock.active) :
    (r ∈ s.lock.active ∧ ∀ c, w.act? j s = some (.completed c) → c.batch.range ≠ r) ∨
      ∃ l, w.act? j s = some (.granted l) ∧ l.range = r := by
  have kept (hactive : r ∈ s.lock.active) (hp : ∀ b written, w.phase ≠ .releasing b written) :
      r ∈ s.lock.active ∧ ∀ c, w.act? j s = some (.completed c) → c.batch.range ≠ r := by
    refine ⟨hactive, fun c hc => ?_⟩
    cases does_of_act? hc with
    | complete hp' h => exact absurd hp' (hp _ _)
  cases hp : w.phase with
  | acquiring =>
    have hstep : step dev j now w s d = acquire j w s d := by simp only [step, hp]
    rw [hstep] at hr
    rcases acquire_active hk hp hr with hr | hgranted
    · exact .inl (kept hr fun b written he => by cases hp.symm.trans he)
    · exact .inr hgranted
  | releasing b written =>
    have hstep : step dev j now w s d = release j w s d b written := by simp only [step, hp]
    rw [hstep] at hr
    obtain ⟨hr, hne⟩ := release_active hk (hl b.lease (by rw [hp]; rfl)) hr
    refine .inl ⟨hr, fun c hc => ?_⟩
    cases does_of_act? hc with
    | complete hp' h =>
      cases hp.symm.trans hp'
      exact hne _ _ h
  | _ =>
    rw [step_transition.lock_of_quiet (by rw [hp]; rfl)] at hr
    exact .inl (kept hr fun b written he => by cases hp.symm.trans he)

end Worker

namespace Run

variable {σ : Type} {dev : Device σ} {r : Run σ} {now : Instant} {i k : Nat} {w v : Worker}
  {t : Worker.Turn σ}

theorem Custody.exists_release (hr : r.Custody) (hw : r.workers[i]? = some w) {b : Batch}
    {written : Bool} (hp : w.phase = .releasing b written) :
    ∃ newly k', r.shared.lock.release b.lease (Worker.newStates b written)
      b.outcome.verifiedBlocks = .ok (newly, k') := by
  have hf := hr.formed hw
  rw [hp] at hf
  have hm : b.lease.range ∈ r.shared.lock.active := hr.held ⟨w, hw, by rw [hp]; rfl⟩
  have hlength : (Worker.newStates b written).length = b.lease.range.stop - b.lease.range.start := by
    rw [Worker.newStates, List.length_map]
    exact hf.length
  have hnone := (RangeLock.objection?_eq_none hr.lock.shaped).mpr ⟨hlength, hf.verified, hm⟩
  rcases hr.lock.release (hr.lock.active.proper _ hm).1 (Worker.newStates b written)
    b.outcome.verifiedBlocks with ⟨v, hv, -⟩ | ⟨-, newly, k', he, -⟩
  · cases hnone.symm.trans hv
  · exact ⟨newly, k', he⟩

theorem Custody.not_refused (hr : r.Custody) (hw : r.workers[i]? = some w) {b : Batch}
    {written : Bool} (hp : w.phase = .releasing b written) (e : Error) :
    r.shared.lock.release b.lease (Worker.newStates b written) b.outcome.verifiedBlocks ≠
      .error (.error e) := by
  obtain ⟨newly, k', he⟩ := hr.exists_release hw hp
  rw [he]
  nofun

/-- After some acts no worker holds more than one lease, each that has not crashed holds the one it
is busy with, and somebody holds each range that is active. -/
structure Holds (r : Run σ) (acts : List (Nat × Act)) : Prop where
  single : ∀ k, (Act.holding k acts).length ≤ 1
  hands : ∀ {k : Nat} {v : Worker}, r.workers[k]? = some v →
    v.phase.lease?.toList = Act.holding k acts ∨ ∃ f, v.phase = .crashed f
  active : ∀ {a : BlockRange}, a ∈ r.shared.lock.active →
    ∃ k v l, r.workers[k]? = some v ∧ l ∈ Act.holding k acts ∧ l.range = a

theorem Holds.active_eq_nil {acts : List (Nat × Act)} (h : r.Holds acts)
    (hw : ∀ {k : Nat} {v : Worker}, r.workers[k]? = some v →
      v.phase.lease? = none ∧ ∀ f, v.phase ≠ .crashed f) :
    r.shared.lock.active = [] := by
  apply List.eq_nil_iff_forall_not_mem.mpr
  intro a ha
  obtain ⟨k, v, l, hv, hl, -⟩ := h.active ha
  obtain ⟨hnone, hcrashed⟩ := hw hv
  rcases h.hands hv with hlease | ⟨f, hp⟩
  · rw [← hlease, hnone] at hl
    cases hl
  · exact hcrashed f hp

theorem holding_append (acts : List (Nat × Act)) (a : Option Act) (i k : Nat) :
    Act.holding k (acts ++ (a.map (i, ·)).toList) =
      if i = k then a.elim (Act.holding k acts) (Act.hold (Act.holding k acts))
      else Act.holding k acts := by
  cases a with
  | none => rw [Option.map_none, Option.toList_none, List.append_nil, Option.elim_none, ite_self]
  | some a => exact Act.holding_concat acts i k a

theorem Holds.interrupt {acts : List (Nat × Act)} (h : r.Holds acts) : r.interrupt.Holds acts :=
  ⟨h.single, h.hands, h.active⟩

theorem Holds.step {acts : List (Nat × Act)} (h : r.Holds acts) (hr : r.Custody)
    (hw : r.workers[i]? = some w) :
    (r.after i w (w.step dev r.job now r.shared r.device)).Holds
      (acts ++ ((w.act? r.job r.shared).map (i, ·)).toList) := by
  have ht : w.Transition dev r.job now r.shared r.device
      (w.step dev r.job now r.shared r.device) := Worker.step_transition
  have idle {f : Fault} (hp : w.phase = .crashed f) : w.act? r.job r.shared = none := by
    simp only [Worker.act?, hp]
    rfl
  refine ⟨fun k => ?_, fun {k v} hv => ?_, fun {a} ha => ?_⟩
  · rw [holding_append]
    by_cases hk : i = k
    · subst hk
      rw [if_pos rfl]
      rcases h.hands hw with hl | ⟨f, hp⟩
      · rw [← hl]
        exact Worker.length_hold_le
      · rw [idle hp]
        exact h.single i
    · rw [if_neg hk]
      exact h.single k
  · rw [holding_append]
    rcases worker_after hw hv with ⟨rfl, rfl⟩ | ⟨hk, hv⟩
    · rw [if_pos rfl]
      rcases h.hands hw with hl | ⟨f, hp⟩
      · rw [← hl]
        exact ht.holding fun b written e hp => hr.not_refused hw hp e
      · right
        refine ⟨f, ?_⟩
        simp only [Worker.step, hp]
        exact hp
    · rw [if_neg (Ne.symm hk)]
      exact h.hands hv
  · rcases Worker.step_active hr.lock (fun l hl => hr.held ⟨w, hw, hl⟩) ha with
      ⟨ha, hne⟩ | ⟨l, hl, rfl⟩
    · obtain ⟨k, v, l, hv, hl, rfl⟩ := h.active ha
      by_cases hk : i = k
      · subst hk
        refine ⟨i, _, l, getElem?_after_self hw, ?_, rfl⟩
        rw [holding_append, if_pos rfl]
        exact Act.mem_hold hl hne
      · refine ⟨k, v, l, (getElem?_after_ne (Ne.symm hk)).trans hv, ?_, rfl⟩
        rw [holding_append, if_neg hk]
        exact hl
    · refine ⟨i, _, l, getElem?_after_self hw, ?_, rfl⟩
      rw [holding_append, if_pos rfl, hl]
      exact List.mem_cons_self

theorem Holds.play {acts : List (Nat × Act)} (h : r.Holds acts) (hr : r.Custody)
    (moves : List Move) : (r.play dev moves).Holds (acts ++ r.trace dev moves) := by
  have hplay : (r.play dev moves).Custody ∧
      (r.play dev moves).Holds (acts ++ r.trace dev moves) := trace_induction
    (P := fun acts r => r.Custody ∧ r.Holds acts)
    (fun ⟨hr, h⟩ hw => ⟨hr.after hw Worker.step_transition, h.step hr hw⟩)
    (fun ⟨hr, h⟩ => ⟨hr.interrupt, h.interrupt⟩) ⟨hr, h⟩ moves
  exact hplay.2

theorem Started.holds {d : σ} {c : Config} {setting : Setting} {events : List Event}
    (h : Started dev d c setting events r) (moves : List Move) :
    (r.play dev moves).Holds (r.trace dev moves) := by
  have hstart : r.Holds [] := by
    refine ⟨fun k => Nat.zero_le 1, fun hv => .inl ?_, fun ha => ?_⟩
    · rw [h.polling hv]
      rfl
    · rw [(RangeLock.sound_of_make h.lock).2.2.1] at ha
      cases ha
  exact hstart.play h.custody moves

end Run

end Readback
