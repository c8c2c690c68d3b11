import Readback.Proofs.Outcome
import Readback.Proofs.Stop
import Readback.Proofs.Worker.Custody

namespace Readback

def Phase.batch? : Phase → Option Batch
  | .writing b => some b
  | .discarding b _ _ => some b
  | .flushing b => some b
  | .dropping b => some b
  | .releasing b _ => some b
  | _ => none

/-- The outcome of the batch at hand accounts for its blocks. -/
def Phase.Accounted (p : Phase) : Prop :=
  ∀ b, p.batch? = some b → b.outcome.Accounts b.range

/-- The worker has neither given up nor crashed, unless over a fault of which `P` speaks. -/
def Phase.Calm (P : Fault → Prop) : Phase → Prop
  | .giving reason cause => reason ≠ .aborted ∧ cause = none
  | .raising cause => cause = none
  | .stopped res => ∃ samples, res = .ok samples
  | .crashed f => P f
  | _ => True

namespace Worker

variable {σ : Type} {dev : Device σ} {j : Job} {now : Instant} {w : Worker} {s : Shared} {d : σ}
  {t : Turn σ}

def hasStopped (w : Worker) : Bool :=
  match w.phase with
  | .stopped _ => true
  | _ => false

theorem hasStopped_iff : w.hasStopped = true ↔ ∃ res, w.phase = .stopped res := by
  unfold hasStopped
  split
  · rename_i res hp
    exact ⟨fun _ => ⟨res, hp⟩, fun _ => rfl⟩
  · rename_i hp
    exact ⟨nofun, fun ⟨res, he⟩ => absurd he (hp res)⟩

instance (w : Worker) : Decidable (∃ res, w.phase = .stopped res) :=
  decidable_of_iff _ hasStopped_iff

theorem recordNext_batch? (additions : List (Counter × UInt64)) :
    (recordNext additions).batch? = none := by
  cases additions <;> rfl

theorem discardNext_batch? (b : Batch) (runs : List BlockRange) :
    (discardNext b runs).batch? = some b := by
  cases runs <;> rfl

theorem recordNext_calm {P : Fault → Prop} (additions : List (Counter × UInt64)) :
    (recordNext additions).Calm P := by
  cases additions <;> trivial

theorem discardNext_calm {P : Fault → Prop} (b : Batch) (runs : List BlockRange) :
    (discardNext b runs).Calm P := by
  cases runs <;> trivial

/-- How the outcome for a lease is found: a lease of blocks that were never written is not read, and
one that was read is compared unless the read failed. -/
inductive Finds (j : Job) (w : Worker) (s : Shared) : Lease → Outcome → Prop
  | untouched {l : Lease} {lock : RangeLock} {source : Source} {n : Nat}
      (hp : w.phase = .acquiring)
      (h : s.lock.tryCandidates RangeLock.attempts w.source = .ok (some (l, lock), source))
      (hn : l.range.length = .ok n) : Finds j w s l (.untouched n)
  | unread {l : Lease} {e : Error} (hp : w.phase = .reading l) : Finds j w s l (.unread l e)
  | compared {l : Lease} {offset n : Nat} {bytes : Request.Reply (.read offset n)} {o : Outcome}
      (hp : w.phase = .reading l) (hr : j.geometry.rangeBytes l.range = .ok (offset, n))
      (ho : Outcome.ofBytes j.content j.geometry l bytes.1 = .ok o) : Finds j w s l o

/-- A batch that is made for a lease whose outcome was found. -/
structure Readies (j : Job) (w : Worker) (s : Shared) (b : Batch) : Prop where
  found : Finds j w s b.lease b.outcome
  composed : ∃ source source' blocks, compose j b.range.blocks source = .ok (blocks, source') ∧
    b.tags = blocks.map Prod.fst ∧ b.data = Bytes.concat (blocks.map Prod.snd)

theorem Prepared.readies {u : Worker} {s' : Shared} {l : Lease} {o : Outcome} {b : Batch}
    (h : Prepared j u s' d l o t) (ho : Finds j w s l o) (hb : t.worker.phase.batch? = some b) :
    Readies j w s b := by
  cases h with
  | ready h =>
    cases hb
    exact ⟨ho, _, _, _, h, rfl, rfl⟩
  | fault h => cases hb

/-- The batch at hand after a step was at hand before, or has just been made. -/
theorem Transition.batch {b : Batch} (h : Transition dev j now w s d t)
    (hb : t.worker.phase.batch? = some b) : w.phase.batch? = some b ∨ Readies j w s b := by
  have same {p p' : Phase} (hp : w.phase = p) (he : p'.batch? = p.batch?)
      (hb : p'.batch? = some b) : w.phase.batch? = some b ∨ Readies j w s b :=
    .inl (by rw [hp, ← he, hb])
  have none {p : Phase} (he : p.batch? = none) (hb : p.batch? = some b) :
      w.phase.batch? = some b ∨ Readies j w s b := nomatch he.symm.trans hb
  cases h with
  | grantUnwritten hp h hu hn ht => exact .inr (ht.readies (.untouched hp h hn) hb)
  | unread hp hr h ht => exact .inr (ht.readies (.unread hp) hb)
  | compare hp hr h ho ht => exact .inr (ht.readies (.compared hp hr ho) hb)
  | write hp hr h => exact same hp (discardNext_batch? _ _) hb
  | writeFailed hp hr h => exact same hp rfl hb
  | discard hp hr h => exact same hp (discardNext_batch? _ _) hb
  | noDiscard hp hr h he => exact same hp rfl hb
  | discardFailed hp hr h he => exact same hp rfl hb
  | flush hp h => exact same hp rfl hb
  | flushFailed hp h => exact same hp rfl hb
  | drop hp hr h hf => exact same hp rfl hb
  | release hp h hr hn hf => exact none (recordNext_batch? _) hb
  | record hp => exact none (recordNext_batch? _) hb
  | retry hp h => exact .inl hb
  | idle hp => exact .inl hb
  | _ => exact none rfl hb

theorem Finds.accounts {l : Lease} {o : Outcome} (h : Finds j w s l o) : o.Accounts l.range := by
  cases h with
  | untouched hp h hn => exact Outcome.untouched_accounts _
  | unread hp => exact Outcome.unread_accounts _
  | compared hp hr ho => exact Outcome.ofBytes_accounts ho

theorem Transition.accounted (h : Transition dev j now w s d t) (hw : w.phase.Accounted) :
    t.worker.phase.Accounted := by
  intro b hb
  rcases h.batch hb with hb | hb
  · exact hw b hb
  · exact hb.found.accounts

theorem compose_error (hc : j.content.blockSize < Bytes.limit) {blocks : List Nat}
    (hb : ∀ b ∈ blocks, b * j.geometry.blockSize < Word.limit) {source : Source} {f : Fault}
    (h : compose j blocks source = .error f) : f = .exhausted := by
  induction blocks generalizing source with
  | nil => cases h
  | cons block rest ih =>
    obtain ⟨hblock, hrest⟩ := List.forall_mem_cons.mp hb
    unfold compose at h
    cases ht : Tag.pick j.config.uniquePct.toNat j.config.trimPct.toNat source with
    | none =>
      simp only [ht] at h
      cases h
      rfl
    | some p =>
      obtain ⟨tag, source'⟩ := p
      have ho : j.geometry.byteOffset block = .ok (block * j.geometry.blockSize) :=
        Word.mul_of_lt hblock
      obtain ⟨bytes, hbytes⟩ := Content.exists_block hc (block * j.geometry.blockSize) tag
      simp only [ht, ho, hbytes, bind, Except.bind] at h
      cases hr : compose j rest source' with
      | error f' =>
        simp only [hr] at h
        cases h
        exact ih hrest hr
      | ok q =>
        simp only [hr] at h
        cases h

end Worker

end Readback
