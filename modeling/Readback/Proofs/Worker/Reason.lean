import Readback.Proofs.Worker.Stopping

namespace Readback

/-- An evaluation of the stop policy: what was seen of the counters, when, and what came of it. -/
structure Evaluation where
  seen : Stats
  now : Instant
  reason : Option Stop.Reason

/-- A reason that is to be given is one of which `P` speaks, the flag is raised only after a reason
is given, and a worker stops only after it is raised. -/
def Phase.Reasoned (P : Stop.Reason → Prop) (s : Stop.Signal) : Phase → Prop
  | .giving reason _ => P reason
  | .raising _ => s.given ≠ none
  | .stopped _ => s.raised = true
  | _ => True

theorem Phase.Reasoned.mono {P Q : Stop.Reason → Prop} {s s' : Stop.Signal} {p : Phase}
    (h : p.Reasoned P s) (hpq : ∀ reason, P reason → Q reason)
    (hg : s.given ≠ none → s'.given ≠ none) (hr : s.raised = true → s'.raised = true) :
    p.Reasoned Q s' := by
  cases p with
  | giving reason cause => exact hpq reason h
  | raising cause => exact hg h
  | stopped result => exact hr h
  | _ => trivial

namespace Worker

variable {σ : Type} {dev : Device σ} {j : Job} {now : Instant} {w : Worker} {s : Shared} {d : σ}
  {t : Turn σ} {P : Stop.Reason → Prop}

def evaluation? (j : Job) (now : Instant) (w : Worker) : Option Evaluation :=
  match w.phase with
  | .judging seen => some ⟨seen, now, j.policy.evaluate seen now⟩
  | _ => none

theorem evaluation?_judging {seen : Stats} (hp : w.phase = .judging seen) :
    w.evaluation? j now = some ⟨seen, now, j.policy.evaluate seen now⟩ := by
  rw [evaluation?, hp]

theorem evaluate_of_evaluation? {e : Evaluation} (h : w.evaluation? j now = some e) :
    w.phase = .judging e.seen ∧ e.now = now ∧ e.reason = j.policy.evaluate e.seen e.now := by
  unfold evaluation? at h
  split at h
  · cases h
    exact ⟨‹_›, rfl, rfl⟩
  · cases h

theorem give_ne_none (s : Stop.Signal) (reason : Stop.Reason) : (s.give reason).given ≠ none := by
  unfold Stop.Signal.give
  cases s.given <;> nofun

theorem Transition.given_ne_none (h : Transition dev j now w s d t) (hs : s.stop.given ≠ none) :
    t.shared.stop.given ≠ none := by
  cases h with
  | grantUnwritten hp h hu hn ht => exact ht.lease.1 ▸ hs
  | unread hp hr h ht => exact ht.lease.1 ▸ hs
  | compare hp hr h ho ht => exact ht.lease.1 ▸ hs
  | give hp => exact give_ne_none _ _
  | _ => exact hs

theorem Transition.raised_of_reasoned (h : Transition dev j now w s d t)
    (hw : w.phase.Reasoned P s.stop) (ht : t.shared.stop.raised = true) :
    s.stop.raised = true ∨ s.stop.given ≠ none := by
  cases h with
  | grantUnwritten hp h hu hn hprepared =>
    rw [hprepared.lease.1] at ht
    exact .inl ht
  | unread hp hr h hprepared =>
    rw [hprepared.lease.1] at ht
    exact .inl ht
  | compare hp hr h ho hprepared =>
    rw [hprepared.lease.1] at ht
    exact .inl ht
  | raise hp =>
    rw [hp] at hw
    exact .inr hw
  | abort hp =>
    rw [hp] at hw
    exact .inr hw
  | _ => exact .inl ht

theorem recordNext_reasoned (additions : List (Counter × UInt64)) :
    (recordNext additions).Reasoned P s.stop := by
  cases additions <;> trivial

theorem discardNext_reasoned (b : Batch) (runs : List BlockRange) :
    (discardNext b runs).Reasoned P s.stop := by
  cases runs <;> trivial

theorem Prepared.reasoned {l : Lease} {o : Outcome} (h : Prepared j w s d l o t) :
    t.worker.phase.Reasoned P t.shared.stop := by
  cases h <;> trivial

/-- A worker gives the reasons that it finds, raises the flag after that, and stops after that. -/
theorem Transition.reasoned (h : Transition dev j now w s d t) (hw : w.phase.Reasoned P s.stop)
    (hk : ∀ b written e, w.phase = .releasing b written →
      s.lock.release b.lease (newStates b written) b.outcome.verifiedBlocks ≠ .error (.error e))
    (hP : ∀ e reason, w.evaluation? j now = some e → e.reason = some reason → P reason) :
    t.worker.phase.Reasoned P t.shared.stop := by
  cases h with
  | stop hp hr => exact hr
  | grantUnwritten hp h hu hn ht => exact ht.reasoned
  | unread hp hr h ht => exact ht.reasoned
  | compare hp hr h ho ht => exact ht.reasoned
  | write hp hr h => exact discardNext_reasoned _ _
  | discard hp hr h => exact discardNext_reasoned _ _
  | release hp h hr hn hf => exact recordNext_reasoned _
  | record hp => exact recordNext_reasoned _
  | refuse hp h => exact absurd h (hk _ _ _ hp)
  | judge hp hr => exact hP _ _ (evaluation?_judging hp) hr
  | give hp => exact give_ne_none _ _
  | abort hp => rfl
  | retry hp h => exact hw
  | idle hp => exact hw
  | _ => trivial

end Worker

end Readback
