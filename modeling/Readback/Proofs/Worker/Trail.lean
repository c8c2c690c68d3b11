import Readback.Proofs.Stats
import Readback.Proofs.Worker.Local

namespace Readback

open Memory (Agree)

variable {σ : Type} {j : Job} {now : Instant} {w : Worker} {s : Shared} {l : Lease}

/-- How an iteration that began on a device in state `d₀` has got to a phase, and the device to `d`,
if it was alone: what is left to do comes to the same as the whole. -/
def Phase.Trail (dev : Device σ) (j : Job) (d₀ d : σ) : Phase → Prop
  | .invalidating l => l.anyWritten = true ∧ d = d₀
  | .reading l => ∀ offset n, j.geometry.rangeBytes l.range = .ok (offset, n) →
    Outcome.verify dev j.content j.geometry l d₀ =
      Outcome.readBack dev j.content j.geometry l offset n d
  | .writing b => Outcome.verify dev j.content j.geometry b.lease d₀ = (.ok b.outcome, d)
  | .discarding b run rest =>
    ∃ d₁, Outcome.verify dev j.content j.geometry b.lease d₀ = (.ok b.outcome, d₁) ∧
      b.commit dev j d₁ = b.discard dev j (run :: rest) d
  | .flushing b =>
    ∃ d₁, Outcome.verify dev j.content j.geometry b.lease d₀ = (.ok b.outcome, d₁) ∧
      b.commit dev j d₁ = b.settle dev j d
  | .dropping b =>
    ∃ d₁, Outcome.verify dev j.content j.geometry b.lease d₀ = (.ok b.outcome, d₁) ∧
      b.commit dev j d₁ = b.drop dev j d
  | .releasing b written =>
    ∃ d₁, Outcome.verify dev j.content j.geometry b.lease d₀ = (.ok b.outcome, d₁) ∧
      b.commit dev j d₁ = .ok (written, d)
  | _ => True

namespace Worker

variable {dev : Device σ} {d d₀ : σ} {t : Turn σ}

theorem discardNext_trail {b : Batch} {runs : List BlockRange}
    (h : ∃ d₁, Outcome.verify dev j.content j.geometry b.lease d₀ = (.ok b.outcome, d₁) ∧
      b.commit dev j d₁ = b.discard dev j runs d) : (discardNext b runs).Trail dev j d₀ d := by
  cases runs <;> exact h

theorem Prepared.trail {o : Outcome} (h : Prepared j w s d l o t) {d' : σ}
    (hv : Outcome.verify dev j.content j.geometry l d₀ = (.ok o, d')) :
    t.worker.phase.Trail dev j d₀ d' := by
  cases h with
  | ready h => exact hv
  | fault h => trivial

theorem Transition.trail_of_acquiring (h : Transition dev j now w s d t)
    (hp : w.phase = .acquiring) :
    t.device = d ∧ t.worker.phase.Trail dev j d d := by
  rcases h.answered with hd | ⟨l, q, reply, hq, -⟩
  · refine ⟨hd, ?_⟩
    cases h with
    | retry hp' h =>
      show w.phase.Trail dev j d d
      rw [hp]
      trivial
    | grant hp' h hw => exact ⟨hw, rfl⟩
    | grantUnwritten hp' h hw hn ht =>
      apply ht.trail
      rw [Outcome.verify_unwritten hw, hn]
      rfl
    | crash hd hf => trivial
    | crashGranted hp' h hl => trivial
    | idle he => simp [ended, hp] at he
    | _ => simp only [hp, reduceCtorEq] at *
  · rw [hp] at hq
    cases hq

theorem Prepared.device {o : Outcome} (h : Prepared j w s d l o t) : t.device = d :=
  h.lease.2.1

/-- An iteration that is under way goes on as it would alone, on a device that agrees with the real
one on the bytes of its lease. -/
theorem Transition.trail {t : Turn Memory} {m₀ m d : Memory}
    (h : Transition Memory.device j now w s d t) (hl : w.phase.lease? = some l)
    (ht : w.phase.Trail Memory.device j m₀ m) (ha : Agree (j.geometry.Owns l.range) m d)
    (hf : w.phase.Formed j) (hs : j.content.blockSize = j.geometry.blockSize)
    (hl' : t.worker.phase.lease? = some l) :
    ∃ m', Agree (j.geometry.Owns l.range) m' t.device ∧
      t.worker.phase.Trail Memory.device j m₀ m' := by
  have busy : w.phase ≠ .acquiring := fun hp => by
    rw [hp] at hl
    cases hl
  have step {q : Request} {reply : Except Failure q.Reply} {d' : Memory}
      (hq : w.phase.Asks j.geometry l q) (h : Memory.device.answer q d = (reply, d')) :
      ∃ e, Memory.device.answer q m = (reply, e) ∧ Agree (j.geometry.Owns l.range) e d' :=
    ha.answer (hq.within hf hs) h
  cases h with
  | invalidate hp hr h hfault =>
    rw [hp] at hl ht
    cases hl
    obtain ⟨hw, rfl⟩ := ht
    obtain ⟨e, he, ha⟩ := step (by rw [hp]; exact .invalidate hr) h
    refine ⟨e, ha, fun offset n hr' => ?_⟩
    cases hr.symm.trans hr'
    exact Outcome.verify_eq_readBack hw hr he hfault
  | unread hp hr h hprepared =>
    rw [hp] at hl ht
    cases hl
    obtain ⟨e, he, ha⟩ := step (by rw [hp]; exact .read hr) h
    exact ⟨e, hprepared.device ▸ ha,
      hprepared.trail ((ht _ _ hr).trans (Outcome.readBack_error he))⟩
  | compare hp hr h ho hprepared =>
    rw [hp] at hl ht
    cases hl
    obtain ⟨e, he, ha⟩ := step (by rw [hp]; exact .read hr) h
    exact ⟨e, hprepared.device ▸ ha,
      hprepared.trail ((ht _ _ hr).trans (Outcome.readBack_ok he ho))⟩
  | write hp hr h =>
    rw [hp] at hl ht
    cases hl
    obtain ⟨e, he, ha⟩ := step (by rw [hp]; exact .write hr) h
    exact ⟨e, ha, discardNext_trail ⟨m, ht, Batch.commit_ok hr he⟩⟩
  | writeFailed hp hr h =>
    rw [hp] at hl ht
    cases hl
    obtain ⟨e, he, ha⟩ := step (by rw [hp]; exact .write hr) h
    exact ⟨e, ha, m, ht, Batch.commit_error hr he⟩
  | discard hp hr h =>
    rw [hp] at hl ht
    cases hl
    obtain ⟨d₁, hv, hc⟩ := ht
    obtain ⟨e, he, ha⟩ := step (by rw [hp]; exact .discard hr) h
    exact ⟨e, ha, discardNext_trail ⟨d₁, hv, hc.trans (Batch.discard_ok hr he)⟩⟩
  | noDiscard hp hr h hu =>
    rw [hp] at hl ht
    cases hl
    obtain ⟨d₁, hv, hc⟩ := ht
    obtain ⟨e, he, ha⟩ := step (by rw [hp]; exact .discard hr) h
    exact ⟨e, ha, d₁, hv, hc.trans (Batch.discard_unsupported hr he hu)⟩
  | discardFailed hp hr h hu =>
    rw [hp] at hl ht
    cases hl
    obtain ⟨d₁, hv, hc⟩ := ht
    obtain ⟨e, he, ha⟩ := step (by rw [hp]; exact .discard hr) h
    exact ⟨e, ha, d₁, hv, hc.trans (Batch.discard_error hr he hu)⟩
  | flush hp h =>
    rw [hp] at hl ht
    cases hl
    obtain ⟨d₁, hv, hc⟩ := ht
    obtain ⟨e, he, ha⟩ := step (by rw [hp]; exact .flush) h
    exact ⟨e, ha, d₁, hv, hc.trans (Batch.settle_ok he)⟩
  | flushFailed hp h =>
    rw [hp] at hl ht
    cases hl
    obtain ⟨d₁, hv, hc⟩ := ht
    obtain ⟨e, he, ha⟩ := step (by rw [hp]; exact .flush) h
    exact ⟨e, ha, d₁, hv, hc.trans (Batch.settle_error he)⟩
  | drop hp hr h hfault =>
    rw [hp] at hl ht
    cases hl
    obtain ⟨d₁, hv, hc⟩ := ht
    obtain ⟨e, he, ha⟩ := step (by rw [hp]; exact .drop hr) h
    exact ⟨e, ha, d₁, hv, hc.trans (Batch.drop_answer hr he hfault)⟩
  | release hp h hr hn hfailed => cases (recordNext_lease? _).symm.trans hl'
  | record hp => cases (recordNext_lease? _).symm.trans hl'
  | idle he => cases hp : w.phase <;> simp [hp, ended, Phase.lease?] at he hl
  | retry hp h => exact absurd hp busy
  | grant hp h hw => exact absurd hp busy
  | grantUnwritten hp h hw hn hprepared => exact absurd hp busy
  | _ => cases hl'

end Worker

/-- An iteration that has come to the release of its lease comes to the same end alone, wherever the
device agrees on the bytes of the lease and the table on its blocks. -/
theorem Iteration.execute_of_trail {b : Batch} {written failed : Bool} {m₀ m : Memory}
    {S : Ledger Memory} {k k' : RangeLock} {newly offset bytes n : Nat}
    (ht : (Phase.releasing b written).Trail Memory.device j m₀ m) (hb : b.Composed j)
    (hs : j.content.blockSize = j.geometry.blockSize) (hlock : S.lock = { k with active := [] })
    (hk : k.Sound) (hfits : k.Fits b.range) (hprior : b.lease.prior = k.priorOf b.range)
    (hd : Agree (j.geometry.Owns b.range) m₀ S.device)
    (hrelease : k.release b.lease (Worker.newStates b written) b.outcome.verifiedBlocks =
      .ok (newly, k'))
    (hr : j.geometry.rangeBytes b.range = .ok (offset, bytes)) (hn : b.range.length = .ok n)
    (hf : (Worker.recordOf b written n bytes newly).failed = .ok failed) :
    ∃ d', execute Memory.device j ⟨b.range, b.tags⟩ S =
        .ok (⟨b.outcome, newly⟩, ⟨{ k with table := k'.table, active := [] },
          S.stats.addAll ((Worker.recordOf b written n bytes newly).seen ++ Record.closing failed),
          d'⟩) ∧
      Agree (j.geometry.Owns b.range) d' m ∧
      Agree (fun i => ¬ j.geometry.Owns b.range i) d' S.device := by
  obtain ⟨d₁, hverify, hcommit⟩ := ht
  obtain ⟨lock, stats, device⟩ := S
  subst hlock
  have hclaim := hk.idle.claim_idle rfl hfits
  have hlease : (⟨b.range, k.priorOf b.range⟩ : Lease) = b.lease :=
    congrArg (Lease.mk b.lease.range) hprior.symm
  have hheld : RangeLock.Sound { k with active := [b.range] } := hk.idle.insert hfits rfl
  have hagain := hk.release_like hheld rfl (List.mem_singleton.mpr rfl) hrelease
  obtain ⟨hfound, hafter⟩ := Outcome.verify_agree (c := j.content) hd.symm
  have hsame := Outcome.verify_keeps (c := j.content) (g := j.geometry) (l := b.lease) hd.right
  rw [hverify] at hfound hafter
  generalize hx : Outcome.verify Memory.device j.content j.geometry b.lease device = x
    at hfound hafter hsame
  obtain ⟨found, e₁⟩ := x
  have hfound : found = .ok b.outcome := hfound
  have hcommitted := b.commit_same hb hs hafter
  have hkeeps := b.commit_keeps hb hs hafter.left
  rw [hcommit] at hcommitted
  generalize hy : b.commit Memory.device j e₁ = y at hcommitted hkeeps
  have hrender : j.render (b.range.blocks.zip b.tags) = .ok b.data := hb.render
  cases hcommitted with
  | @ok _ d' _ hagree =>
    refine ⟨d', ?_, hagree, (hkeeps _ _ rfl).trans (hsame.mono fun _ _ => trivial)⟩
    have herase : Active.erase b.lease.range.start [b.range] = [] := by
      simp [Active.erase, Batch.range]
    have hprior' : RangeLock.priorOf { k with active := [] } b.range = k.priorOf b.range := rfl
    simp only [execute, hclaim, bind, Except.bind, hprior', hlease, hx, hfound, hrender,
      mapError_ok, hy, hagain, hr, hn, hf, Stats.record_eq _ hf, herase]
    rfl

end Readback
