import Readback.Proofs.Run.Account
import Readback.Proofs.Worker.Diagnosis

namespace Readback

namespace Act

variable {k : Nat} {x : Counter}

def totalOf (k : Nat) (x : Counter) (acts : List (Nat × Act)) : Nat :=
  total x (acts.filter (·.1 = k))

theorem totalOf_append (acts acts' : List (Nat × Act)) :
    totalOf k x (acts ++ acts') = totalOf k x acts + totalOf k x acts' := by
  rw [totalOf, List.filter_append, total_append]
  rfl

theorem totalOf_self (a : Option Act) :
    totalOf k x (a.map (k, ·)).toList = total x (a.map (k, ·)).toList := by
  have hall : ∀ b ∈ (a.map (k, ·)).toList, decide (b.1 = k) = true := by
    intro b hb
    obtain ⟨a', -, rfl⟩ := Option.map_eq_some_iff.mp (Option.mem_toList.mp hb)
    exact decide_eq_true rfl
  rw [totalOf, List.filter_eq_self.mpr hall]

theorem totalOf_ne {i : Nat} (h : k ≠ i) (a : Option Act) :
    totalOf k x (a.map (i, ·)).toList = 0 := by
  have hnone : ∀ b ∈ (a.map (i, ·)).toList, ¬ decide (b.1 = k) = true := by
    intro b hb
    obtain ⟨a', -, rfl⟩ := Option.map_eq_some_iff.mp (Option.mem_toList.mp hb)
    exact fun he => h (of_decide_eq_true he).symm
  rw [totalOf, List.filter_eq_nil_iff.mpr hnone]
  rfl

end Act

namespace Run

variable {σ : Type} {dev : Device σ} {r : Run σ} {now : Instant} {i k : Nat} {w v : Worker}
  {t : Worker.Turn σ} {acts : List (Nat × Act)}

def said (k : Nat) (r : Run σ) : List Event :=
  (r.log.reverse.filter (·.worker = some k)).map LogEntry.event

def outcomes (k : Nat) (r : Run σ) : List (BlockRange × Outcome) :=
  (r.said k).filterMap Event.outcome?

theorem said_after_self (h : w.id = i) : (r.after i w t).said i = r.said i ++ t.events := by
  have hall : (t.events.map (LogEntry.mk (some w.id))).filter (·.worker = some i) =
      t.events.map (LogEntry.mk (some w.id)) := by
    refine List.filter_eq_self.mpr fun e he => ?_
    obtain ⟨x, -, rfl⟩ := List.mem_map.mp he
    exact decide_eq_true (congrArg some h)
  rw [said, after, List.reverse_append, List.reverse_reverse, List.filter_append, List.map_append,
    hall, List.map_map]
  exact congrArg (r.said i ++ ·) (List.map_id _)

theorem said_after_ne (h : w.id = i) (hk : k ≠ i) : (r.after i w t).said k = r.said k := by
  have hnone : (t.events.map (LogEntry.mk (some w.id))).filter (·.worker = some k) = [] := by
    refine List.filter_eq_nil_iff.mpr fun e he => ?_
    obtain ⟨x, -, rfl⟩ := List.mem_map.mp he
    exact fun he => hk ((Option.some.inj (of_decide_eq_true he)).symm.trans h)
  rw [said, after, List.reverse_append, List.reverse_reverse, List.filter_append, hnone,
    List.append_nil]
  rfl

/-- What a worker has said of outcomes, how it stands after them, and what it has counted of their
mismatches or has still to count, unless it crashed. -/
structure Recounts (r : Run σ) (acts : List (Nat × Act)) (k : Nat) (v : Worker) : Prop where
  id : v.id = k
  said : (r.said k).filter Event.ofOutcome =
    Event.transcript r.job.config.maxDiagnostics.toNat 0 (r.outcomes k)
  told : v.Told r.job.config.maxDiagnostics.toNat (Outcome.mismatched (r.outcomes k)).length
  counted : (∀ f, v.phase ≠ .crashed f) → Act.totalOf k .mismatches acts + v.phase.found +
    Stats.gain .mismatches v.phase.additions = (Outcome.mismatched (r.outcomes k)).length

theorem Recounts.other (h : r.Recounts acts k v) (hw : w.id = i) (hk : k ≠ i) :
    (r.after i w t).Recounts (acts ++ ((w.act? r.job r.shared).map (i, ·)).toList) k v := by
  have hsaid : (r.after i w t).said k = r.said k := said_after_ne hw hk
  have houtcomes : (r.after i w t).outcomes k = r.outcomes k :=
    congrArg (List.filterMap Event.outcome?) hsaid
  refine ⟨h.id, ?_, ?_, ?_⟩
  · rw [hsaid, houtcomes]
    exact h.said
  · rw [houtcomes]
    exact h.told
  · rw [houtcomes, Act.totalOf_append, Act.totalOf_ne hk]
    exact h.counted

theorem outcomes_after_self (h : w.id = i) {budget n : Nat} {logged : List (BlockRange × Outcome)}
    (hs : w.Says budget n t logged) : (r.after i w t).outcomes i = r.outcomes i ++ logged := by
  rw [outcomes, said_after_self h, List.filterMap_append, hs.outcomes]
  rfl

/-- What a turn adds to what its worker has counted and has to count. -/
theorem Recounts.counted_after (dev : Device σ) (now : Instant) (h : r.Recounts acts i w)
    (hr : r.Regular) (ha : r.Audited acts) (hw : r.workers[i]? = some w)
    {budget n : Nat} {logged : List (BlockRange × Outcome)}
    (hs : w.Says budget n (w.step dev r.job now r.shared r.device) logged)
    (hc : ∀ f, (w.step dev r.job now r.shared r.device).worker.phase ≠ .crashed f) :
    Act.totalOf i .mismatches (acts ++ ((w.act? r.job r.shared).map (i, ·)).toList) +
        (w.step dev r.job now r.shared r.device).worker.phase.found +
        Stats.gain .mismatches
          (w.step dev r.job now r.shared r.device).worker.phase.additions =
      (Outcome.mismatched (r.outcomes i)).length + (Outcome.mismatched logged).length := by
  have ht : w.Transition dev r.job now r.shared r.device
      (w.step dev r.job now r.shared r.device) := Worker.step_transition
  have hcounted := h.counted fun f hp => hc f (ht.crashed hp)
  rw [Act.totalOf_append, Act.totalOf_self, total_turn]
  by_cases hp : ∃ b written, w.phase = .releasing b written
  · obtain ⟨b, written, hp⟩ := hp
    obtain ⟨c, lock, hp, he, hact, hstep⟩ := hr.release dev now hw hp
    have hsound := ha.completed hr hw hp he
    have hquiet : logged = [] := by
      rw [← hs.outcomes, hstep]
      rfl
    have hgain : Stats.gain .mismatches ((c.record r.job.geometry).seen ++
        Record.closing c.failed) = c.batch.outcome.mismatches.length :=
      Record.gain_additions (hsound.adds_lt hr.room hr.custody.blockSize_pos)
    have hfound : (Worker.recordNext ((c.record r.job.geometry).seen ++
        Record.closing c.failed)).found = 0 := by
      rw [Phase.found, Worker.recordNext_batch?]
      rfl
    rw [hp] at hcounted ⊢
    rw [hstep, hquiet]
    show _ + 0 + (Worker.recordNext _).found + Stats.gain _ (Worker.recordNext _).additions = _ + 0
    rw [Worker.recordNext_additions, hgain, hfound]
    exact hcounted
  · have hne : ∀ b written, w.phase ≠ .releasing b written :=
      fun b written he => hp ⟨b, written, he⟩
    have hgain := ht.gain hne .mismatches
    have hfound := hs.found hne hc
    omega

theorem Recounts.self (h : r.Recounts acts i w) (hr : r.Regular) (ha : r.Audited acts)
    (hw : r.workers[i]? = some w) :
    (r.after i w (w.step dev r.job now r.shared r.device)).Recounts
      (acts ++ ((w.act? r.job r.shared).map (i, ·)).toList) i
      (w.step dev r.job now r.shared r.device).worker := by
  have ht : w.Transition dev r.job now r.shared r.device
      (w.step dev r.job now r.shared r.device) := Worker.step_transition
  obtain ⟨logged, hs⟩ := ht.says h.told
  have houtcomes := outcomes_after_self (r := r) h.id hs
  have hlength : (Outcome.mismatched (r.outcomes i ++ logged)).length =
      (Outcome.mismatched (r.outcomes i)).length + (Outcome.mismatched logged).length := by
    rw [Outcome.mismatched_append, List.length_append]
  refine ⟨ht.id_eq.trans h.id, ?_, ?_, fun hc => ?_⟩
  · rw [houtcomes, said_after_self h.id, List.filter_append, h.said, hs.events,
      Event.transcript_append, Nat.zero_add]
    rfl
  · rw [houtcomes, hlength]
    exact hs.told
  · rw [houtcomes, hlength]
    exact h.counted_after dev now hr ha hw hs hc

/-- Every worker recounts what it has said and counted. -/
def Recounted (r : Run σ) (acts : List (Nat × Act)) : Prop :=
  ∀ (k : Nat) (v : Worker), r.workers[k]? = some v → r.Recounts acts k v

theorem Recounted.interrupt (h : r.Recounted acts) : r.interrupt.Recounted acts := by
  intro k v hv
  obtain ⟨hid, hsaid, htold, hcounted⟩ := h k v hv
  exact ⟨hid, hsaid, htold, hcounted⟩

theorem Recounted.step (h : r.Recounted acts) (hr : r.Regular) (ha : r.Audited acts)
    (hw : r.workers[i]? = some w) :
    (r.after i w (w.step dev r.job now r.shared r.device)).Recounted
      (acts ++ ((w.act? r.job r.shared).map (i, ·)).toList) := by
  intro k v hv
  rcases worker_after hw hv with ⟨rfl, rfl⟩ | ⟨hk, hv⟩
  · exact (h k w hw).self hr ha hw
  · exact (h k v hv).other (h i w hw).id hk

theorem Recounted.play (h : r.Recounted acts) (hr : r.Regular) (ha : r.Audited acts)
    (moves : List Move) : (r.play dev moves).Recounted (acts ++ r.trace dev moves) := by
  have hplay : (r.play dev moves).Regular ∧
      (r.play dev moves).Audited (acts ++ r.trace dev moves) ∧
      (r.play dev moves).Recounted (acts ++ r.trace dev moves) := trace_induction
    (P := fun acts r => r.Regular ∧ r.Audited acts ∧ r.Recounted acts)
    (fun ⟨hr, ha, h⟩ hw =>
      ⟨hr.after hw Worker.step_transition, ha.step hr hw, h.step hr ha hw⟩)
    (fun ⟨hr, ha, h⟩ => ⟨hr.interrupt, ha.interrupt, h.interrupt⟩) ⟨hr, ha, h⟩ moves
  exact hplay.2.2

variable {d : σ} {c : Config} {setting : Setting} {events : List Event} {moves : List Move}

theorem Started.said_eq_nil (h : Started dev d c setting events r) (k : Nat) : r.said k = [] := by
  have hnone : r.log.reverse.filter (·.worker = some k) = [] := by
    apply List.filter_eq_nil_iff.mpr
    intro e he
    rw [h.log, List.mem_reverse] at he
    obtain ⟨x, -, rfl⟩ := List.mem_map.mp he
    exact Bool.false_ne_true
  rw [Run.said, hnone]
  rfl

theorem Started.told (h : Started dev d c setting events r) (hw : r.workers[k]? = some w) :
    w.Told c.maxDiagnostics.toNat 0 := by
  rw [← h.config]
  exact Worker.told_of_make (h.made hw)

theorem Started.recounted (h : Started dev d c setting events r) : r.Recounted [] := by
  intro k v hv
  have hnone : r.outcomes k = [] := congrArg (List.filterMap Event.outcome?) (h.said_eq_nil k)
  refine ⟨congrArg Worker.id (Worker.make_ok (h.made hv)), ?_, ?_, fun _ => ?_⟩
  · rw [hnone, h.said_eq_nil]
    rfl
  · rw [hnone, h.config]
    exact h.told hv
  · rw [hnone, h.polling hv]
    rfl

/-- Whatever outcomes a worker logs, the mismatches that come first in them are described for as
long as the budget lasts, the one after that brings the word that the others are not, and no more is
said.  What a worker says of outcomes in a run is what it says of the sequence of those it found,
and what it has counted or has still to count comes to all their mismatches. -/
theorem diagnostics_bounded (hsize : ∀ size, dev.size d = .ok size → size < Word.limit)
    (hs : start dev d c setting = (events, .ok r)) {w₀ : Worker} (hw₀ : r.workers[k]? = some w₀) :
    let budget := c.maxDiagnostics.toNat
    (∀ logged, let ms := Outcome.mismatched logged
      (w₀.logAll logged).1.filter Event.isDiagnostic =
        (ms.take budget).map .mismatch ++ (if budget < ms.length then [.muted] else []) ∧
      (w₀.logAll logged).2.diagnosticsLeft = budget - ms.length ∧
      ((w₀.logAll logged).2.muted = true ↔ budget < ms.length)) ∧
    (∀ logged range o, let n := (Outcome.mismatched logged).length
      (w₀.logAll (logged ++ [(range, o)])).1 = (w₀.logAll logged).1 ++
        .compared range o :: ((o.readError.map (.readFailed range)).toList ++
          ((o.mismatches.take (budget - n)).map .mismatch ++
            if n ≤ budget ∧ budget < n + o.mismatches.length then [.muted] else []))) ∧
    ∀ moves, let r' := r.play dev moves
      (r'.said k).filter Event.ofOutcome = (w₀.logAll (r'.outcomes k)).1 ∧
      r'.shared.stats.mismatches = .ofNat (Act.total .mismatches (r.trace dev moves)) ∧
      ∀ w, r'.workers[k]? = some w → (∀ f, w.phase ≠ .crashed f) →
        Act.totalOf k .mismatches (r.trace dev moves) + w.phase.found +
          Stats.gain .mismatches w.phase.additions =
            (Outcome.mismatched (r'.outcomes k)).length := by
  intro budget
  have h := started_of_start hs
  have htold : w₀.Told budget 0 := h.told hw₀
  refine ⟨fun logged => ?_, fun logged range o => ?_, fun moves => ?_⟩
  · obtain ⟨hevents, hleft, hmuted⟩ := htold.logAll logged
    rw [hevents, Event.filter_transcript, hmuted, decide_eq_true_iff, hleft, Nat.zero_add]
    refine ⟨?_, rfl, Iff.rfl⟩
    rw [Event.diagnoses, Nat.sub_zero, Nat.zero_add]
    simp only [Nat.zero_le, true_and]
  · rw [(htold.logAll _).1, (htold.logAll logged).1, Event.transcript_append, Nat.zero_add]
    show _ ++ _ :: (_ ++ Event.diagnoses budget _ _ ++ []) = _
    rw [List.append_nil]
    rfl
  · intro r'
    have hr := h.regular hsize
    have hrecounted : r'.Recounted (r.trace dev moves) :=
      h.recounted.play hr (h.audited hr []) moves
    have hjob : r'.job.config = c := (congrArg Job.config (play_job r dev moves)).trans h.config
    refine ⟨?_, ?_, fun w hw => (hrecounted k w hw).counted⟩
    · obtain ⟨w, hw⟩ : ∃ w, r'.workers[k]? = some w := by
        obtain ⟨hk, -⟩ := Array.getElem?_eq_some_iff.mp hw₀
        exact ⟨_, Array.getElem?_eq_getElem (play_size r dev moves ▸ hk)⟩
      rw [(hrecounted k w hw).said, (htold.logAll _).1, hjob]
    · refine (get_stats_play r dev moves .mismatches).trans ?_
      rw [h.shared]
      exact UInt64.zero_add _

/-- A worker that is to describe two mismatches, and outcomes with one and with three. -/
theorem diagnostics_bounded_of_four_mismatches :
    let c : Config := { Config.standard with
      blockSize := 512, workers := 1, seed := some 7, maxDiagnostics := 2 }
    let d : Memory := ⟨.zeroes 2048, false, false, true, false, 0, 0, 0⟩
    let setting : Setting := ⟨false, 0, ⟨0⟩, fun _ => .words []⟩
    let m (block : Nat) : Mismatch := ⟨block, 512 * block, .trimmed, 0, .empty, .empty⟩
    let logged : List (BlockRange × Outcome) := [
      (⟨0, 2⟩, .ofVerdicts [.differs (m 0), .matched 1 .trimmed]),
      (⟨1, 4⟩, .ofVerdicts [.differs (m 1), .differs (m 2), .differs (m 3)])]
    ∃ events r w₀, start Memory.device d c setting = (events, .ok r) ∧ r.workers[0]? = some w₀ ∧
      (w₀.logAll logged).1.filter Event.isDiagnostic =
        [.mismatch (m 0), .mismatch (m 1), .muted] ∧
      (w₀.logAll logged).2.muted = true := by
  intro c d setting m logged
  have hv : c.validate = .ok () := by decide +kernel
  have hsize : Memory.device.size d = .ok 2048 := rfl
  have hpolicy : c.policy setting.start 4 = .ok ⟨none, none, none, false⟩ := rfl
  have hlimit (size : Nat) (h : Memory.device.size d = .ok size) : size < Word.limit := by
    cases hsize.symm.trans h
    decide
  obtain ⟨events, r, hs⟩ :=
    exists_start hv hsize (by decide) (by decide) (by decide) hpolicy
  obtain ⟨w₀, hw₀⟩ : ∃ w₀, r.workers[0]? = some w₀ := by
    have hone : r.workers.size = 1 := (started_of_start hs).size
    exact ⟨_, Array.getElem?_eq_getElem (hone ▸ Nat.one_pos)⟩
  obtain ⟨hlogged, -, -⟩ := diagnostics_bounded hlimit hs hw₀
  obtain ⟨hevents, -, hmuted⟩ := hlogged logged
  exact ⟨events, r, w₀, hs, hw₀, hevents, hmuted.mpr (by decide)⟩

end Run

end Readback
