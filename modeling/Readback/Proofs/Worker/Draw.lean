import Readback.Proofs.RangeLock.Coverage
import Readback.Proofs.Worker.Act

namespace Readback

/-- What the random words of one iteration decide. -/
structure Draw where
  range : BlockRange
  tags : List Tag
  data : ByteArray

/-- What can be seen of an iteration: which blocks it leases, what it writes where, and with which
tags it gives the lease back. -/
inductive Sight
  | leased (range : BlockRange)
  | wrote (offset : Nat) (data : ByteArray)
  | finished (tags : List Tag)

def Sight.write? : Sight → Option (Nat × ByteArray)
  | .wrote offset data => some (offset, data)
  | _ => none

def Request.write? : Request → Option (Nat × ByteArray)
  | .write offset data => some (offset, data)
  | _ => none

def Draw.sights (g : Geometry) (x : Draw) : List Sight :=
  [.leased x.range, .wrote (x.range.start * g.blockSize) x.data, .finished x.tags]

def Sight.isFinished : Sight → Bool
  | .finished _ => true
  | _ => false

theorem Draw.countP_sights (g : Geometry) (xs : List Draw) :
    (xs.flatMap (Draw.sights g)).countP Sight.isFinished = xs.length := by
  induction xs with
  | nil => rfl
  | cons x rest ih =>
    rw [List.flatMap_cons, List.countP_append, ih, List.length_cons, Nat.add_comm]
    rfl

def Act.sight? : Act → Option Sight
  | .granted l => some (.leased l.range)
  | .asked (.write offset data) => some (.wrote offset data)
  | .completed c => some (.finished c.batch.tags)
  | _ => none

def Batch.draw (b : Batch) : Draw :=
  ⟨b.range, b.tags, b.data⟩

namespace Job

variable {j j' : Job} {k k' : RangeLock} {s s' s₀ : Source} {x : Draw} {xs : List Draw} {n m : Nat}

/-- One iteration's draw, if the first range that is tried is free. -/
def draw (j : Job) (k : RangeLock) (s : Source) : Except Fault (Draw × Source) := do
  let (range, s) ← k.candidate s
  let (blocks, s) ← Worker.compose j range.blocks s
  return (⟨range, blocks.map Prod.fst, Bytes.concat (blocks.map Prod.snd)⟩, s)

def draws (j : Job) (k : RangeLock) : Nat → Source → Except Fault (List Draw × Source)
  | 0, s => .ok ([], s)
  | n + 1, s => do
    let (xs, s) ← draws j k n s
    let (x, s) ← j.draw k s
    return (xs ++ [x], s)

theorem draw_eq {r : BlockRange} {blocks : List (Tag × ByteArray)} {s₁ : Source}
    (hc : k.candidate s = .ok (r, s₁)) (h : Worker.compose j r.blocks s₁ = .ok (blocks, s')) :
    j.draw k s =
      .ok (⟨r, blocks.map Prod.fst, Bytes.concat (blocks.map Prod.snd)⟩, s') := by
  simp only [draw, hc, h, bind, Except.bind]
  rfl

theorem draws_succ (h : j.draws k n s₀ = .ok (xs, s)) (hx : j.draw k s = .ok (x, s')) :
    j.draws k (n + 1) s₀ = .ok (xs ++ [x], s') := by
  simp only [draws, h, hx, bind, Except.bind]
  rfl

theorem length_draws (h : j.draws k n s₀ = .ok (xs, s)) : xs.length = n := by
  induction n generalizing xs s with
  | zero =>
    cases h
    rfl
  | succ n ih =>
    obtain ⟨⟨ys, s₁⟩, hys, h⟩ := bind_eq_ok h
    obtain ⟨⟨y, s₂⟩, -, h⟩ := bind_eq_ok h
    cases h
    rw [List.length_append, ih hys]
    rfl

theorem exists_draws_of_le (h : j.draws k m s₀ = .ok (xs, s)) (hn : n ≤ m) :
    ∃ ys s', j.draws k n s₀ = .ok (ys, s') ∧ ys <+: xs := by
  induction m generalizing xs s with
  | zero =>
    cases Nat.le_zero.mp hn
    exact ⟨xs, s, h, List.prefix_refl xs⟩
  | succ m ih =>
    rcases Nat.le_succ_iff.mp hn with hn | rfl
    · obtain ⟨⟨zs, s₁⟩, hzs, h⟩ := bind_eq_ok h
      obtain ⟨⟨z, s₂⟩, -, h⟩ := bind_eq_ok h
      cases h
      obtain ⟨ys, s', hys, hprefix⟩ := ih hzs hn
      exact ⟨ys, s', hys, hprefix.trans (List.prefix_append zs [z])⟩
    · exact ⟨xs, s, h, List.prefix_refl xs⟩

end Job

theorem RangeLock.candidate_congr {k k' : RangeLock} (hn : k.nBlocks = k'.nBlocks)
    (hm : k.maxBlocks = k'.maxBlocks) (s : Source) : k.candidate s = k'.candidate s := by
  simp only [RangeLock.candidate, hn, hm]

theorem RangeLock.granted_of_idle {k : RangeLock} {tries : Nat} {s s' : Source}
    {p : Option (Lease × RangeLock)} (hk : k.active = [])
    (h : k.tryCandidates (tries + 1) s = .ok (p, s')) :
    ∃ l k', p = some (l, k') ∧ k.candidate s = .ok (l.range, s') := by
  obtain ⟨⟨r, s₁⟩, hc, h⟩ := bind_eq_ok h
  have hfree : k.active.overlaps r = false := by rw [hk]; rfl
  simp only [hfree, Bool.false_eq_true, if_false] at h
  obtain ⟨⟨l, k'⟩, hg, h⟩ := bind_eq_ok h
  cases h
  exact ⟨l, k', rfl, by rw [hc, grant_range hg]⟩

/-- What was seen of the iteration under way, if it began with `s` and the worker has come to
`source`. -/
def Phase.Follows (j : Job) (k : RangeLock) (s source : Source) (seen : List Sight) :
    Phase → Prop
  | .invalidating l => seen = [.leased l.range] ∧ k.candidate s = .ok (l.range, source)
  | .reading l => seen = [.leased l.range] ∧ k.candidate s = .ok (l.range, source)
  | .writing b => seen = [.leased b.range] ∧ j.draw k s = .ok (b.draw, source)
  | .discarding b _ _ | .flushing b | .dropping b | .releasing b _ =>
    seen = [.leased b.range, .wrote (b.range.start * j.geometry.blockSize) b.data] ∧
      j.draw k s = .ok (b.draw, source)
  | .crashed _ => True
  | _ => seen = [] ∧ source = s

def Phase.shows : Phase → Bool
  | .acquiring => true
  | .writing _ => true
  | .releasing .. => true
  | _ => false

namespace Worker

variable {σ : Type} {dev : Device σ} {j : Job} {now : Instant} {w v : Worker} {s : Shared} {d : σ}
  {t : Turn σ} {k : RangeLock} {s₀ : Source} {sights : List Sight}

def sight? (j : Job) (w : Worker) (s : Shared) : Option Sight :=
  (w.act? j s).bind Act.sight?

/-- All that was seen of a worker is what it has drawn: some iterations, and what is seen so far of
the one under way. -/
def Reproduces (j : Job) (k : RangeLock) (s₀ : Source) (sights : List Sight) (w : Worker) : Prop :=
  ∃ xs s seen, j.draws k xs.length s₀ = .ok (xs, s) ∧
    sights = xs.flatMap (Draw.sights j.geometry) ++ seen ∧ seen.countP Sight.isFinished = 0 ∧
    w.phase.Follows j k s w.source seen

theorem sight?_of_quiet (hw : w.phase.shows = false) : w.sight? j s = none := by
  cases ha : w.act? j s with
  | none => rw [sight?, ha, Option.bind_none]
  | some a =>
    rw [sight?, ha, Option.bind_some]
    cases does_of_act? ha with
    | grant hp h =>
      rw [hp] at hw
      cases hw
    | @ask q hq =>
      obtain ⟨l, hl⟩ := Phase.asks_of_call? hq
      generalize w.phase = p at hl hw
      cases hl with
      | write hr => cases hw
      | _ => rfl
    | complete hp h =>
      rw [hp] at hw
      cases hw
    | add hp => rfl

namespace Reproduces

variable (hw : w.Reproduces j k s₀ sights)
include hw

theorem quiet (hq : w.phase.shows = false)
    (hv : ∀ source seen, w.phase.Follows j k source w.source seen →
      v.phase.Follows j k source v.source seen) :
    v.Reproduces j k s₀ (sights ++ (w.sight? j s).toList) := by
  obtain ⟨xs, source, seen, hxs, hsights, hcount, hfollows⟩ := hw
  rw [sight?_of_quiet hq, Option.toList_none, List.append_nil]
  exact ⟨xs, source, seen, hxs, hsights, hcount, hv source seen hfollows⟩

theorem shown {x : Sight} (hx : w.sight? j s = some x) (hnot : x.isFinished = false)
    (hv : ∀ source seen, w.phase.Follows j k source w.source seen →
      v.phase.Follows j k source v.source (seen ++ [x])) :
    v.Reproduces j k s₀ (sights ++ (w.sight? j s).toList) := by
  obtain ⟨xs, source, seen, hxs, rfl, hcount, hfollows⟩ := hw
  refine ⟨xs, source, seen ++ [x], hxs, ?_, ?_, hv source seen hfollows⟩
  · rw [hx, List.append_assoc]
    rfl
  · rw [List.countP_append, hcount, List.countP_singleton, hnot]
    rfl

theorem finished {b : Batch} {written : Bool} {newly : Nat} {lock : RangeLock}
    (hp : w.phase = .releasing b written)
    (h : s.lock.release b.lease (newStates b written) b.outcome.verifiedBlocks =
      .ok (newly, lock)) (hv : v.phase.Follows j k w.source v.source []) :
    v.Reproduces j k s₀ (sights ++ (w.sight? j s).toList) := by
  obtain ⟨xs, source, seen, hxs, rfl, hcount, hfollows⟩ := hw
  rw [hp] at hfollows
  obtain ⟨rfl, hdraw⟩ := hfollows
  refine ⟨xs ++ [b.draw], w.source, [], ?_, ?_, rfl, hv⟩
  · rw [List.length_append]
    exact Job.draws_succ hxs hdraw
  · rw [sight?, Does.act? (.complete hp h), List.flatMap_append, List.append_assoc,
      List.append_nil]
    rfl

theorem crashed {f : Fault} (hv : v.phase = .crashed f) :
    v.Reproduces j k s₀ (sights ++ (w.sight? j s).toList) := by
  have hfollows {source source' : Source} {seen : List Sight} :
      v.phase.Follows j k source source' seen := by
    rw [hv]
    trivial
  by_cases hq : w.phase.shows = true
  · cases hx : w.sight? j s with
    | none =>
      obtain ⟨xs, source, seen, hxs, hsights, hcount, -⟩ := hw
      rw [Option.toList_none, List.append_nil]
      exact ⟨xs, source, seen, hxs, hsights, hcount, hfollows⟩
    | some x =>
      obtain ⟨a, ha, hax⟩ := Option.bind_eq_some_iff.mp hx
      rw [← hx]
      cases does_of_act? ha with
      | grant hp h =>
        cases hax
        exact hw.shown hx rfl fun _ _ _ => hfollows
      | @ask q hq =>
        cases q with
        | write offset data =>
          cases hax
          exact hw.shown hx rfl fun _ _ _ => hfollows
        | _ => cases hax
      | complete hp h => exact hw.finished hp h hfollows
      | add hp => cases hax
  · exact hw.quiet (Bool.eq_false_of_not_eq_true hq) fun _ _ _ => hfollows

end Reproduces

theorem recordNext_follows (additions : List (Counter × UInt64)) (source : Source) :
    (recordNext additions).Follows j k source source [] := by
  cases additions <;> exact ⟨rfl, rfl⟩

theorem discardNext_follows {b : Batch} {source source' : Source} (runs : List BlockRange)
    (h : j.draw k source = .ok (b.draw, source')) :
    (discardNext b runs).Follows j k source source'
      [.leased b.range, .wrote (b.range.start * j.geometry.blockSize) b.data] := by
  cases runs <;> exact ⟨rfl, h⟩

theorem Prepared.follows {l : Lease} {o : Outcome} {source : Source} (h : Prepared j w s d l o t)
    (hc : k.candidate source = .ok (l.range, w.source)) :
    t.worker.phase.Follows j k source t.worker.source [.leased l.range] := by
  cases h with
  | ready h => exact ⟨rfl, Job.draw_eq hc h⟩
  | fault h => trivial

theorem sight?_write {b : Batch} {offset n : Nat} (hp : w.phase = .writing b)
    (hr : j.geometry.rangeBytes b.range = .ok (offset, n)) :
    w.sight? j s = some (.wrote (b.range.start * j.geometry.blockSize) b.data) := by
  have ha : w.phase.Asks j.geometry b.lease (.write offset b.data) := by
    rw [hp]
    exact .write hr
  rw [sight?, Does.act? (.ask ha.call?), (Geometry.rangeBytes_eq hr).1]
  rfl

/-- Whatever the device answers, a worker that finds nothing leased draws on in the same way. -/
theorem Transition.reproduces (h : Transition dev j now w s d t)
    (hidle : w.phase = .acquiring → s.lock.active = [])
    (hlock : ∀ source, s.lock.candidate source = k.candidate source)
    (hk : ∀ b written e, w.phase = .releasing b written →
      s.lock.release b.lease (newStates b written) b.outcome.verifiedBlocks ≠ .error (.error e))
    (hw : w.Reproduces j k s₀ sights) :
    t.worker.Reproduces j k s₀ (sights ++ (w.sight? j s).toList) := by
  have granted {l : Lease} {lock : RangeLock} {source : Source} (hp : w.phase = .acquiring)
      (h : s.lock.tryCandidates RangeLock.attempts w.source = .ok (some (l, lock), source)) :
      w.sight? j s = some (.leased l.range) ∧ k.candidate w.source = .ok (l.range, source) := by
    obtain ⟨l', lock', he, hc⟩ := RangeLock.granted_of_idle (hidle hp) h
    cases he
    rw [hlock] at hc
    refine ⟨?_, hc⟩
    rw [sight?, Does.act? (.grant hp h)]
    rfl
  have idle {p p' : Phase} (hp : w.phase = p) (hq : p.shows = false)
      (hv : ∀ source seen, p.Follows j k source w.source seen →
        p'.Follows j k source w.source seen) :
      Worker.Reproduces j k s₀ (sights ++ (w.sight? j s).toList) { w with phase := p' } :=
    hw.quiet (hp ▸ hq) (hp ▸ hv)
  cases h with
  -- On its own a worker never tries in vain, which would use up random words.
  | retry hp h =>
    obtain ⟨l, lock, he, -⟩ := RangeLock.granted_of_idle (hidle hp) h
    cases he
  | grant hp h hu =>
    obtain ⟨hx, hc⟩ := granted hp h
    refine hw.shown hx rfl fun source seen hf => ?_
    rw [hp] at hf
    obtain ⟨rfl, rfl⟩ := hf
    exact ⟨rfl, hc⟩
  | grantUnwritten hp h hu hn ht =>
    obtain ⟨hx, hc⟩ := granted hp h
    refine hw.shown hx rfl fun source seen hf => ?_
    rw [hp] at hf
    obtain ⟨rfl, rfl⟩ := hf
    exact ht.follows hc
  | unread hp hr h ht =>
    refine hw.quiet (by rw [hp]; rfl) fun source seen hf => ?_
    rw [hp] at hf
    obtain ⟨rfl, hc⟩ := hf
    exact ht.follows hc
  | compare hp hr h ho ht =>
    refine hw.quiet (by rw [hp]; rfl) fun source seen hf => ?_
    rw [hp] at hf
    obtain ⟨rfl, hc⟩ := hf
    exact ht.follows hc
  | write hp hr h =>
    refine hw.shown (sight?_write hp hr) rfl fun source seen hf => ?_
    rw [hp] at hf
    obtain ⟨rfl, hdraw⟩ := hf
    exact discardNext_follows _ hdraw
  | writeFailed hp hr h =>
    refine hw.shown (sight?_write hp hr) rfl fun source seen hf => ?_
    rw [hp] at hf
    obtain ⟨rfl, hdraw⟩ := hf
    exact ⟨rfl, hdraw⟩
  | discard hp hr h =>
    refine idle hp rfl fun source seen hf => ?_
    obtain ⟨rfl, hdraw⟩ := hf
    exact discardNext_follows _ hdraw
  | release hp h hr hn hfailed => exact hw.finished hp h (recordNext_follows _ _)
  | refuse hp h => exact absurd h (hk _ _ _ hp)
  -- From here to the next lease no random word is drawn, so nothing is left to follow.
  | record hp =>
    refine idle hp rfl fun source seen hf => ?_
    obtain ⟨rfl, rfl⟩ := hf
    exact recordNext_follows _ _
  | report hp hr => exact hw.quiet (by rw [hp]; rfl) fun _ _ hf => by rwa [hp] at hf
  | idle hp =>
    refine hw.quiet ?_ fun _ _ hf => hf
    rcases phase_of_ended hp with ⟨result, hp⟩ | ⟨f, hp⟩ <;> rw [hp] <;> rfl
  | crash hd hf => exact hw.crashed rfl
  | crashGranted hp h hl => exact hw.crashed rfl
  | crashRecorded hp h hf => exact hw.crashed rfl
  | _ =>
    have hp := ‹w.phase = _›
    exact idle hp rfl fun _ _ hf => hf

end Worker

end Readback
