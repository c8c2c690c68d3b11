import Readback.Proofs.Stop
import Readback.Proofs.Worker.Act
import Readback.Proofs.Worker.Tally

namespace Readback

/-- The additions of an iteration end with the iteration itself, which is counted nowhere else. -/
def Record.Closes : List (Counter × UInt64) → Prop
  | [] => False
  | [p] => p = (.iterations, 1)
  | p :: q :: rest => p.1 ≠ .iterations ∧ Closes (q :: rest)

namespace Record

theorem closes_append {front back : List (Counter × UInt64)}
    (hf : ∀ p ∈ front, p.1 ≠ .iterations) (hb : Closes back) : Closes (front ++ back) := by
  induction front with
  | nil => exact hb
  | cons p rest ih =>
    have hrest := ih fun q hq => hf q (List.mem_cons_of_mem _ hq)
    rw [List.cons_append]
    cases hl : rest ++ back with
    | nil =>
      rw [hl] at hrest
      exact hrest.elim
    | cons q more =>
      rw [hl] at hrest
      exact ⟨hf p List.mem_cons_self, hrest⟩

theorem closes_closing (failed : Bool) : Closes (closing failed) := by
  cases failed with
  | false => rfl
  | true => exact ⟨nofun, rfl⟩

theorem ne_iterations_of_seen (r : Record) : ∀ p ∈ r.seen, p.1 ≠ .iterations := by
  intro p hp
  have hm := (List.mem_filter.mp hp).1
  simp only [amounts, List.mem_cons, List.not_mem_nil, or_false] at hm
  rcases hm with rfl | rfl | rfl | rfl | rfl | rfl | rfl | rfl | rfl <;> nofun

theorem closes (r : Record) (failed : Bool) : Closes (r.seen ++ closing failed) :=
  closes_append r.ne_iterations_of_seen (closes_closing failed)

end Record

/-- A worker counts its iteration last. -/
def Phase.Closes : Phase → Prop
  | .recording c v rest => Record.Closes ((c, v) :: rest)
  | _ => True

theorem Phase.Closes.adding {p : Phase} (h : p.Closes) : p.adding .iterations = p.counting := by
  cases p with
  | recording c v rest =>
    cases rest with
    | nil =>
      cases h
      rfl
    | cons q more =>
      cases c with
      | iterations => exact absurd rfl h.1
      | _ => rfl
  | _ => rfl

/-- Whether a worker ends before it counts another iteration, if a counter has got to where a run is
to stop. -/
def Phase.halts (x : Counter) (n : Nat) (raised : Bool) : Phase → Bool
  | .polling => raised
  | .reporting => true
  | .sampling .. => true
  | .checking seen pending => x ∈ pending || n ≤ (seen.get x).toNat
  | .judging seen => n ≤ (seen.get x).toNat
  | .giving .. => true
  | .raising _ => true
  | .stopped _ => true
  | .crashed _ => true
  | _ => false

def Phase.allowance (x : Counter) (n : Nat) (raised : Bool) (p : Phase) : Nat :=
  (!p.halts x n raised).toNat

variable {x : Counter} {n : Nat}

theorem Phase.counting_le_one (p : Phase) : p.counting ≤ 1 := by
  unfold counting
  split
  · exact Nat.le_refl 1
  · exact Nat.zero_le 1

theorem Phase.allowance_le_one (p : Phase) (raised : Bool) : p.allowance x n raised ≤ 1 :=
  Bool.toNat_le _

theorem Phase.counting_of_halts {p : Phase} {raised : Bool} (h : p.halts x n raised = true) :
    p.counting = 0 := by
  cases p with
  | recording c v rest => cases h
  | _ => rfl

theorem Phase.halts_raise {p : Phase} {raised raised' : Bool} (h : raised = true → raised' = true)
    (hp : p.halts x n raised = true) : p.halts x n raised' = true := by
  cases p with
  | polling => exact h hp
  | _ => exact hp

theorem Phase.allowance_raise (p : Phase) {raised raised' : Bool}
    (h : raised = true → raised' = true) : p.allowance x n raised' ≤ p.allowance x n raised := by
  unfold allowance
  cases hp : p.halts x n raised with
  | true =>
    rw [halts_raise h hp]
  | false => exact Bool.toNat_le _

/-- What a worker has seen of the counters is not ahead of them, and a reason that it is to give is
justified by them. -/
def Phase.Backed (c : Config) (nBlocks : Nat) (s : Stats) : Phase → Prop
  | .checking seen _ => seen.Le s
  | .judging seen => seen.Le s
  | .giving reason _ => c.Justifies nBlocks s reason
  | _ => True

theorem Phase.Backed.mono {c : Config} {nBlocks : Nat} {s s' : Stats} {p : Phase}
    (h : p.Backed c nBlocks s) (hs : s.Le s') : p.Backed c nBlocks s' := by
  cases p with
  | checking seen pending => exact Stats.Le.trans h hs
  | judging seen => exact Stats.Le.trans h hs
  | giving reason cause => exact Config.Justifies.mono h hs
  | _ => trivial

namespace Worker

variable {σ : Type} {dev : Device σ} {j : Job} {now : Instant} {w : Worker} {s : Shared} {d : σ}
  {t : Turn σ}

theorem recordNext_closes {additions : List (Counter × UInt64)} (h : Record.Closes additions) :
    (recordNext additions).Closes := by
  cases additions with
  | nil => exact h.elim
  | cons p rest => exact h

theorem discardNext_closes (b : Batch) (runs : List BlockRange) : (discardNext b runs).Closes := by
  cases runs <;> trivial

theorem Prepared.closes {l : Lease} {o : Outcome} (h : Prepared j w s d l o t) :
    t.worker.phase.Closes := by
  cases h <;> trivial

theorem Transition.closes (h : Transition dev j now w s d t) (hw : w.phase.Closes) :
    t.worker.phase.Closes := by
  cases h with
  | retry hp h => exact hw
  | idle hp => exact hw
  | grantUnwritten hp h hu hn ht => exact ht.closes
  | unread hp hr h ht => exact ht.closes
  | compare hp hr h ho ht => exact ht.closes
  | write hp hr h => exact discardNext_closes _ _
  | discard hp hr h => exact discardNext_closes _ _
  | release hp h hr hn hf => exact recordNext_closes (Record.closes _ _)
  | @record c v rest hp =>
    rw [hp] at hw
    cases rest with
    | nil => trivial
    | cons q more => exact hw.2
  | _ => trivial

theorem Transition.raised (h : Transition dev j now w s d t) (hs : s.stop.raised = true) :
    t.shared.stop.raised = true := by
  cases h with
  | grantUnwritten hp h hu hn ht => exact ht.lease.1 ▸ hs
  | unread hp hr h ht => exact ht.lease.1 ▸ hs
  | compare hp hr h ho ht => exact ht.lease.1 ▸ hs
  | raise hp => rfl
  | abort hp => rfl
  | _ => exact hs

theorem Transition.halts (h : Transition dev j now w s d t) (hx : n ≤ (s.stats.get x).toNat)
    (he : ∀ seen now, n ≤ (Stats.get seen x).toNat → j.policy.evaluate seen now ≠ none)
    (hw : w.phase.halts x n s.stop.raised = true) :
    t.worker.phase.halts x n t.shared.stop.raised = true := by
  cases h with
  | stop hp hr => rfl
  | enter hp hr =>
    rw [hp, hr] at hw
    cases hw
  | early hp hd => cases x <;> rfl
  | report hp hr => cases x <;> rfl
  | silent hp hr => cases x <;> rfl
  | @check seen c rest hp =>
    rw [hp] at hw
    apply Bool.or_eq_true_iff.mpr
    by_cases hc : x = c
    · right
      rw [hc, Stats.get_set_self]
      exact decide_eq_true (hc ▸ hx)
    · rw [Stats.get_set_of_ne seen hc]
      rcases Bool.or_eq_true_iff.mp hw with hm | hle
      · left
        exact decide_eq_true ((List.mem_cons.mp (of_decide_eq_true hm)).resolve_left hc)
      · exact .inr hle
  | @checked seen hp =>
    rw [hp] at hw
    change (decide (x ∈ []) || decide (n ≤ (seen.get x).toNat)) = true at hw
    rcases Bool.or_eq_true_iff.mp hw with hm | hle
    · cases of_decide_eq_true hm
    · exact hle
  | @pass seen hp hr =>
    rw [hp] at hw
    exact absurd hr (he seen now (of_decide_eq_true hw))
  | idle hp => exact hw
  | retry hp h => exact hw
  | due hp hd => rfl
  | sample hp => rfl
  | judge hp hr => rfl
  | give hp => rfl
  | raise hp => rfl
  | abort hp => rfl
  | crash hd hf => rfl
  | crashGranted hp h hl => rfl
  | crashRecorded hp h hf => rfl
  | refuse hp h => rfl
  | _ =>
    simp only [*] at hw
    cases hw

theorem Transition.halts_of_counting (h : Transition dev j now w s d t) (hc : w.phase.Closes)
    (hw : w.phase.counting = 1) : t.worker.phase.halts x n t.shared.stop.raised = true := by
  cases hp : w.phase with
  | recording c v rest =>
    rw [hp] at hc hw
    rw [h.eq_of_recording hp]
    cases rest with
    | nil => rfl
    | cons q more =>
      cases c with
      | iterations => exact absurd rfl hc.1
      | _ => cases hw
  | _ =>
    rw [hp] at hw
    cases hw

theorem Transition.counting_le (h : Transition dev j now w s d t) (hc : w.phase.Closes) :
    w.phase.counting + t.worker.phase.allowance x n t.shared.stop.raised ≤ 1 := by
  rcases Nat.eq_zero_or_pos w.phase.counting with hz | hpos
  · rw [hz, Nat.zero_add]
    exact Phase.allowance_le_one _ _
  · have hone : w.phase.counting = 1 := Nat.le_antisymm w.phase.counting_le_one hpos
    rw [hone, Phase.allowance, h.halts_of_counting hc hone]
    exact Nat.le_refl 1

/-- The iterations that a step counts are taken off the allowance of the worker. -/
theorem Transition.allowance (h : Transition dev j now w s d t) (hc : w.phase.Closes)
    (hx : n ≤ (s.stats.get x).toNat)
    (he : ∀ seen now, n ≤ (Stats.get seen x).toNat → j.policy.evaluate seen now ≠ none) :
    w.phase.counting + t.worker.phase.allowance x n t.shared.stop.raised ≤
      w.phase.allowance x n s.stop.raised := by
  unfold Phase.allowance
  cases hw : w.phase.halts x n s.stop.raised with
  | true =>
    rw [Phase.counting_of_halts hw, h.halts hx he hw]
    exact Nat.le_refl 0
  | false => exact h.counting_le hc

theorem Transition.ending_of_recording (h : Transition dev j now w s d t)
    (hw : w.phase.isRecording = true) : t.worker.phase.isRecording = true ∨
      t.worker.phase.halts x n t.shared.stop.raised = true := by
  cases hp : w.phase with
  | recording c v rest =>
    rw [h.eq_of_recording hp]
    cases rest with
    | nil => exact .inr rfl
    | cons p more => exact .inl rfl
  | _ =>
    rw [hp] at hw
    cases hw

theorem Transition.ending (h : Transition dev j now w s d t) (hx : n ≤ (s.stats.get x).toNat)
    (he : ∀ seen now, n ≤ (Stats.get seen x).toNat → j.policy.evaluate seen now ≠ none)
    (hw : w.phase.isRecording = true ∨ w.phase.halts x n s.stop.raised = true) :
    t.worker.phase.isRecording = true ∨
      t.worker.phase.halts x n t.shared.stop.raised = true := by
  rcases hw with hr | hh
  · exact h.ending_of_recording hr
  · exact .inr (h.halts hx he hh)

variable {c : Config} {nBlocks : Nat}

theorem recordNext_backed (additions : List (Counter × UInt64)) :
    (recordNext additions).Backed c nBlocks s.stats := by
  cases additions <;> trivial

theorem Transition.backed (h : Transition dev j now w s d t) {moment : Instant}
    (hp : c.policy moment nBlocks = .ok j.policy) (hn : nBlocks < Word.limit)
    (hw : w.phase.Backed c nBlocks s.stats) : t.worker.phase.Backed c nBlocks s.stats := by
  cases h with
  | grantUnwritten hp h hu hn ht => cases ht <;> trivial
  | unread hp hr h ht => cases ht <;> trivial
  | compare hp hr h ho ht => cases ht <;> trivial
  | write hp hr h =>
    generalize trimmedRuns _ _ = runs
    cases runs <;> trivial
  | @discard b run rest offset n d' hp hr h => cases rest <;> trivial
  | release hp h hr hn hf => exact recordNext_backed _
  | record hp => exact recordNext_backed _
  | early hp hd => exact Stats.zero_le s.stats
  | report hp hr => exact Stats.zero_le s.stats
  | silent hp hr => exact Stats.zero_le s.stats
  | check hp =>
    rw [hp] at hw
    exact Stats.Le.set hw _
  | checked hp =>
    rw [hp] at hw
    exact hw
  | judge hj hr =>
    rw [hj] at hw
    exact (Config.justifies_of_evaluate hr hp hn).mono hw
  | refuse hp h =>
    intro x hx
    cases hx
  | retry hp h => exact hw
  | idle hp => exact hw
  | _ => trivial

/-- A reason that is given after a step was given before, or by the worker whose step it was. -/
theorem Transition.given (h : Transition dev j now w s d t) {reason : Stop.Reason}
    (ht : t.shared.stop.given = some reason) :
    s.stop.given = some reason ∨ ∃ cause, w.phase = .giving reason cause := by
  cases h with
  | grantUnwritten hp h hu hn hprepared =>
    rw [hprepared.lease.1] at ht
    exact .inl ht
  | unread hp hr h hprepared =>
    rw [hprepared.lease.1] at ht
    exact .inl ht
  | compare hp hr h ho hprepared =>
    rw [hprepared.lease.1] at ht
    exact .inl ht
  | @give r cause hp =>
    change s.stop.given.or (some r) = some reason at ht
    cases hg : s.stop.given with
    | none =>
      rw [hg] at ht
      cases ht
      exact .inr ⟨cause, hp⟩
    | some first =>
      rw [hg] at ht
      exact .inl ht
  | _ => exact .inl ht

end Worker

end Readback
