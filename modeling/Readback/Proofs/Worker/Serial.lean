import Readback.Outcome.Verify
import Readback.Proofs.Worker.Batch

namespace Readback

/-- Asks the device, unless it gives way. -/
def Device.tell {σ : Type} (dev : Device σ) (q : Request) (d : σ) :
    Except Fault (Except Error q.Reply × σ) :=
  match dev.answer q d with
  | (.ok reply, d) => .ok (.ok reply, d)
  | (.error (.error e), d) => .ok (.error e, d)
  | (.error (.fault f), _) => .error f

/-- The range that a worker was granted and the tags that it drew for the blocks. -/
structure Iteration where
  range : BlockRange
  tags : List Tag
  deriving DecidableEq

/-- What an iteration finds out, and how many blocks it covers for the first time. -/
structure Iteration.Yield where
  outcome : Outcome
  newly : Nat
  deriving DecidableEq

/-- What iterations leave behind for the next. -/
structure Ledger (σ : Type) where
  lock : RangeLock
  stats : Stats
  device : σ

section Serial

variable {σ : Type} (dev : Device σ) (j : Job)

/-- The part of a verification that is left once the device was told to forget what it cached. -/
def Outcome.readBack (c : Content) (g : Geometry) (l : Lease) (offset n : Nat) (d : σ) :
    Except Failure Outcome × σ :=
  match dev.answer (.read offset n) d with
  | (.error (.fault f), d) => (.error (.fault f), d)
  | (.error (.error e), d) => (.ok (unread l e), d)
  | (.ok bytes, d) => ((ofBytes c g l bytes.1).mapError .fault, d)

namespace Batch

/-- The end of a write: a hint, whether or not the device takes it. -/
def drop (b : Batch) (d : σ) : Except Fault (Bool × σ) := do
  let (offset, n) ← j.geometry.rangeBytes b.range
  let (_, d) ← dev.tell (.invalidate offset n) d
  return (true, d)

def settle (b : Batch) (d : σ) : Except Fault (Bool × σ) := do
  match ← dev.tell .flush d with
  | (.ok _, d) => b.drop dev j d
  | (.error _, d) => return (false, d)

/-- Discards one run after another, until the device turns out not to support it. -/
def discard (b : Batch) : List BlockRange → σ → Except Fault (Bool × σ)
  | [], d => b.settle dev j d
  | run :: rest, d => do
    let (offset, n) ← j.geometry.rangeBytes run
    match ← dev.tell (.discard offset n) d with
    | (.ok _, d) => b.discard rest d
    | (.error e, d) => if e.kind = .unsupported then b.settle dev j d else return (false, d)

/-- Writes a batch, discards its trimmed blocks and flushes.  The answer is whether all of it went
well. -/
def commit (b : Batch) (d : σ) : Except Fault (Bool × σ) := do
  let (offset, _) ← j.geometry.rangeBytes b.range
  match ← dev.tell (.write offset b.data) d with
  | (.ok _, d) => b.discard dev j (Worker.trimmedRuns b.range b.tags) d
  | (.error _, d) => return (false, d)

end Batch

def Job.renderBlock (p : Nat × Tag) : Except Fault ByteArray := do
  let offset ← j.geometry.byteOffset p.1
  j.content.block offset p.2

def Job.render (tagged : List (Nat × Tag)) : Except Fault ByteArray := do
  return Bytes.concat (← tagged.mapM j.renderBlock)

namespace Iteration

/-- An iteration from beginning to end, with nobody else at work. -/
def execute (it : Iteration) (s : Ledger σ) : Except Failure (Yield × Ledger σ) := do
  let some (l, lock) ← s.lock.claim it.range | throw (.fault .assertion)
  let (outcome, device) := Outcome.verify dev j.content j.geometry l s.device
  let outcome ← outcome
  let data ← (j.render (it.range.blocks.zip it.tags)).mapError .fault
  let b : Batch := ⟨l, outcome, it.tags, data⟩
  let (written, device) ← (b.commit dev j device).mapError .fault
  let (newly, lock) ← lock.release l (Worker.newStates b written) outcome.verifiedBlocks
  let (_, bytes) ← (j.geometry.rangeBytes it.range).mapError .fault
  let blocks ← it.range.length.mapError .fault
  let r := Worker.recordOf b written blocks bytes newly
  let _ ← r.failed.mapError .fault
  return (⟨outcome, newly⟩, ⟨lock, (s.stats.record r).1, device⟩)

def executeAll : List Iteration → Ledger σ → Except Failure (List Yield × Ledger σ)
  | [], s => .ok ([], s)
  | it :: rest, s => do
    let (y, s) ← it.execute dev j s
    let (ys, s) ← executeAll rest s
    return (y :: ys, s)

variable {dev j}

theorem executeAll_append {l l' : List Iteration} {s s' s'' : Ledger σ} {ys ys' : List Yield}
    (h : executeAll dev j l s = .ok (ys, s')) (h' : executeAll dev j l' s' = .ok (ys', s'')) :
    executeAll dev j (l ++ l') s = .ok (ys ++ ys', s'') := by
  induction l generalizing s ys with
  | nil =>
    cases h
    exact h'
  | cons it rest ih =>
    obtain ⟨⟨y, s₁⟩, he, h⟩ := bind_eq_ok h
    obtain ⟨⟨zs, s₂⟩, hr, h⟩ := bind_eq_ok h
    cases h
    simp only [List.cons_append, executeAll, he, ih hr, bind, Except.bind]
    rfl

end Iteration

end Serial

section Answers

variable {σ : Type} {dev : Device σ} {j : Job} {b : Batch} {d d' : σ} {offset n : Nat} {e : Error}

namespace Device

variable {q : Request}

theorem tell_ok {reply : q.Reply} (h : dev.answer q d = (.ok reply, d')) :
    dev.tell q d = .ok (.ok reply, d') := by
  rw [tell, h]

theorem tell_error (h : dev.answer q d = (.error (.error e), d')) :
    dev.tell q d = .ok (.error e, d') := by
  rw [tell, h]

end Device

namespace Batch

theorem mapM_renderBlock {l : List (Nat × Tag)} {parts : List ByteArray}
    (h : List.Forall₂ j.Makes l parts) : l.mapM j.renderBlock = .ok parts := by
  induction h with
  | nil => rfl
  | @cons p bytes rest others hm _ ih =>
    obtain ⟨offset, ho, hc⟩ := hm
    have hp : j.renderBlock p = .ok bytes := by
      rw [Job.renderBlock, ho]
      exact hc
    rw [List.mapM_cons, hp, ih]
    rfl

theorem Composed.render (h : b.Composed j) : j.render b.tagged = .ok b.data := by
  obtain ⟨parts, hd, hf⟩ := h.content
  have hm : b.tagged.mapM j.renderBlock = .ok parts := mapM_renderBlock hf
  rw [hd, Job.render, hm]
  rfl

theorem commit_ok (hr : j.geometry.rangeBytes b.range = .ok (offset, n))
    (h : dev.answer (.write offset b.data) d = (.ok (), d')) :
    b.commit dev j d = b.discard dev j (Worker.trimmedRuns b.range b.tags) d' := by
  simp only [commit, hr, bind, Except.bind, Device.tell_ok h]

theorem commit_error (hr : j.geometry.rangeBytes b.range = .ok (offset, n))
    (h : dev.answer (.write offset b.data) d = (.error (.error e), d')) :
    b.commit dev j d = .ok (false, d') := by
  simp only [commit, hr, bind, Except.bind, Device.tell_error h]
  rfl

variable {run : BlockRange} {rest : List BlockRange}

theorem discard_ok (hr : j.geometry.rangeBytes run = .ok (offset, n))
    (h : dev.answer (.discard offset n) d = (.ok (), d')) :
    b.discard dev j (run :: rest) d = b.discard dev j rest d' := by
  rw [discard]
  simp only [hr, bind, Except.bind, Device.tell_ok h]

theorem discard_unsupported (hr : j.geometry.rangeBytes run = .ok (offset, n))
    (h : dev.answer (.discard offset n) d = (.error (.error e), d')) (he : e.kind = .unsupported) :
    b.discard dev j (run :: rest) d = b.settle dev j d' := by
  rw [discard]
  simp only [hr, bind, Except.bind, Device.tell_error h, if_pos he]

theorem discard_error (hr : j.geometry.rangeBytes run = .ok (offset, n))
    (h : dev.answer (.discard offset n) d = (.error (.error e), d')) (he : e.kind ≠ .unsupported) :
    b.discard dev j (run :: rest) d = .ok (false, d') := by
  rw [discard]
  simp only [hr, bind, Except.bind, Device.tell_error h, if_neg he]
  rfl

theorem settle_ok (h : dev.answer .flush d = (.ok (), d')) :
    b.settle dev j d = b.drop dev j d' := by
  simp only [settle, bind, Except.bind, Device.tell_ok h]

theorem settle_error (h : dev.answer .flush d = (.error (.error e), d')) :
    b.settle dev j d = .ok (false, d') := by
  simp only [settle, bind, Except.bind, Device.tell_error h]
  rfl

theorem drop_answer (hr : j.geometry.rangeBytes b.range = .ok (offset, n))
    {reply : Except Failure (Request.Reply (.invalidate offset n))}
    (h : dev.answer (.invalidate offset n) d = (reply, d'))
    (hf : ∀ f, reply ≠ .error (.fault f)) : b.drop dev j d = .ok (true, d') := by
  match reply with
  | .error (.fault f) => exact absurd rfl (hf f)
  | .error (.error e) =>
    simp only [drop, hr, bind, Except.bind, Device.tell_error h]
    rfl
  | .ok reply =>
    simp only [drop, hr, bind, Except.bind, Device.tell_ok h]
    rfl

end Batch

namespace Outcome

variable {c : Content} {g : Geometry} {l : Lease}

theorem readBack_ok {bytes : Request.Reply (.read offset n)} {o : Outcome}
    (h : dev.answer (.read offset n) d = (.ok bytes, d')) (ho : ofBytes c g l bytes.1 = .ok o) :
    readBack dev c g l offset n d = (.ok o, d') := by
  rw [readBack, h]
  simp only [ho]
  rfl

theorem readBack_error (h : dev.answer (.read offset n) d = (.error (.error e), d')) :
    readBack dev c g l offset n d = (.ok (unread l e), d') := by
  rw [readBack, h]

theorem length_judgeAll {bytes : ByteArray} {i : Nat} {l : List (Nat × BlockState)}
    {vs : List Verdict} (h : judgeAll c g bytes i l = .ok vs) : vs.length = l.length := by
  induction l generalizing i vs with
  | nil =>
    cases h
    rfl
  | cons q rest ih =>
    obtain ⟨block, prior⟩ := q
    obtain ⟨v, -, h⟩ := bind_eq_ok h
    obtain ⟨us, hr, h⟩ := bind_eq_ok h
    cases h
    rw [List.length_cons, List.length_cons, ih hr]

theorem ofBytes_mismatches {bytes : ByteArray} {o : Outcome} (h : ofBytes c g l bytes = .ok o) :
    o.mismatches.length ≤ l.range.stop - l.range.start := by
  obtain ⟨vs, hj, rfl⟩ := map_eq_ok h
  have hlen := length_judgeAll hj
  have hle : (vs.filterMap Verdict.mismatch?).length ≤ vs.length := List.length_filterMap_le _ _
  rw [List.length_zip, BlockRange.length_blocks] at hlen
  rw [ofVerdicts]
  dsimp only
  omega

theorem verify_mismatches {o : Outcome} (h : verify dev c g l d = (.ok o, d')) :
    o.mismatches.length ≤ l.range.stop - l.range.start := by
  unfold verify at h
  split at h
  · split at h
    · cases h
    split at h
    · cases h
    split at h
    · cases h
    · cases h
      exact Nat.zero_le _
    · rename_i bytes _ _
      obtain ⟨ho, -⟩ := Prod.mk.inj h
      exact ofBytes_mismatches (mapError_eq_ok ho)
  · obtain ⟨ho, -⟩ := Prod.mk.inj h
    obtain ⟨n, -, rfl⟩ := map_eq_ok (mapError_eq_ok ho)
    exact Nat.zero_le _

theorem verify_fault (hl : l.anyWritten = true) (hr : g.rangeBytes l.range = .ok (offset, n))
    {f : Fault} (hi : dev.answer (.invalidate offset n) d = (.error (.fault f), d')) :
    verify dev c g l d = (.error (.fault f), d') := by
  unfold verify
  rw [if_pos hl, hr]
  dsimp only
  rw [hi]

theorem verify_eq_readBack (hl : l.anyWritten = true)
    (hr : g.rangeBytes l.range = .ok (offset, n))
    {reply : Except Failure (Request.Reply (.invalidate offset n))}
    (hi : dev.answer (.invalidate offset n) d = (reply, d'))
    (hf : ∀ f, reply ≠ .error (.fault f)) :
    verify dev c g l d = readBack dev c g l offset n d' := by
  unfold verify
  rw [if_pos hl, hr]
  dsimp only
  rw [hi]
  match reply with
  | .error (.fault f) => exact absurd rfl (hf f)
  | .error (.error e) => rfl
  | .ok _ => rfl

theorem verify_unwritten (hl : l.anyWritten = false) :
    verify dev c g l d = ((l.range.length.map untouched).mapError .fault, d) := by
  unfold verify
  rw [hl]
  rfl

end Outcome

end Answers

end Readback
