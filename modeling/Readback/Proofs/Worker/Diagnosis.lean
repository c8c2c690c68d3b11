import Readback.Proofs.Worker.Account

namespace Readback

def Outcome.mismatched (logged : List (BlockRange × Outcome)) : List Mismatch :=
  logged.flatMap fun x => x.2.mismatches

theorem Outcome.mismatched_append (logged logged' : List (BlockRange × Outcome)) :
    mismatched (logged ++ logged') = mismatched logged ++ mismatched logged' :=
  List.flatMap_append

def Phase.found (p : Phase) : Nat :=
  p.batch?.elim 0 fun b => b.outcome.mismatches.length

namespace Event

/-- A mismatch that is described, or the word that the others are not. -/
def isDiagnostic : Event → Bool
  | mismatch _ | muted => true
  | _ => false

def ofOutcome : Event → Bool
  | compared .. | readFailed .. | mismatch _ | muted => true
  | _ => false

def outcome? : Event → Option (BlockRange × Outcome)
  | compared range o => some (range, o)
  | _ => none

/-- What is said of mismatches that come after `n` others. -/
def diagnoses (budget n : Nat) (ms : List Mismatch) : List Event :=
  (ms.take (budget - n)).map mismatch ++ if n ≤ budget ∧ budget < n + ms.length then [muted] else []

def transcript (budget : Nat) : Nat → List (BlockRange × Outcome) → List Event
  | _, [] => []
  | n, (range, o) :: rest =>
    compared range o :: ((o.readError.map (readFailed range)).toList ++
      diagnoses budget n o.mismatches ++ transcript budget (n + o.mismatches.length) rest)

variable {budget n : Nat}

theorem diagnoses_cons_of_lt (h : n < budget) (m : Mismatch) (ms : List Mismatch) :
    diagnoses budget n (m :: ms) = mismatch m :: diagnoses budget (n + 1) ms := by
  obtain ⟨k, rfl⟩ := Nat.exists_eq_add_of_lt h
  have htake : n + k + 1 - n = k + 1 := by omega
  have hrest : n + k + 1 - (n + 1) = k := by omega
  have hiff : (n ≤ n + k + 1 ∧ n + k + 1 < n + (ms.length + 1)) ↔
      (n + 1 ≤ n + k + 1 ∧ n + k + 1 < n + 1 + ms.length) := by omega
  rw [diagnoses, diagnoses, htake, hrest, List.take_succ_cons, List.map_cons, List.length_cons,
    List.cons_append, if_congr hiff rfl rfl]

theorem diagnoses_cons_self (m : Mismatch) (ms : List Mismatch) :
    diagnoses n n (m :: ms) = [muted] := by
  rw [diagnoses, Nat.sub_self, List.take_zero, if_pos ⟨Nat.le_refl n, by simp⟩]
  rfl

theorem diagnoses_of_lt (h : budget < n) (ms : List Mismatch) : diagnoses budget n ms = [] := by
  rw [diagnoses, Nat.sub_eq_zero_of_le (Nat.le_of_lt h), List.take_zero,
    if_neg fun hle => Nat.not_le_of_lt h hle.1]
  rfl

theorem diagnoses_nil : diagnoses budget n [] = [] := by
  rw [diagnoses, List.take_nil, if_neg fun h => Nat.not_le_of_lt h.2 h.1]
  rfl

theorem diagnoses_append (ms ms' : List Mismatch) :
    diagnoses budget n (ms ++ ms') =
      diagnoses budget n ms ++ diagnoses budget (n + ms.length) ms' := by
  induction ms generalizing n with
  | nil =>
    rw [diagnoses_nil]
    rfl
  | cons m rest ih =>
    rw [List.length_cons, Nat.add_comm rest.length, ← Nat.add_assoc]
    rcases Nat.lt_trichotomy n budget with h | rfl | h
    · rw [List.cons_append, diagnoses_cons_of_lt h, diagnoses_cons_of_lt h, ih, List.cons_append]
    · rw [List.cons_append, diagnoses_cons_self, diagnoses_cons_self,
        diagnoses_of_lt (by omega) ms']
      rfl
    · rw [diagnoses_of_lt h, diagnoses_of_lt h, diagnoses_of_lt (by omega)]
      rfl

theorem mem_diagnoses {e : Event} {ms : List Mismatch} (h : e ∈ diagnoses budget n ms) :
    e.isDiagnostic = true := by
  rcases List.mem_append.mp h with h | h
  · obtain ⟨m, -, rfl⟩ := List.mem_map.mp h
    rfl
  · split at h
    · rw [List.mem_singleton.mp h]
      rfl
    · cases h

theorem transcript_append (logged logged' : List (BlockRange × Outcome)) :
    transcript budget n (logged ++ logged') = transcript budget n logged ++
      transcript budget (n + (Outcome.mismatched logged).length) logged' := by
  induction logged generalizing n with
  | nil => rfl
  | cons x rest ih =>
    obtain ⟨range, o⟩ := x
    have hcount : (Outcome.mismatched ((range, o) :: rest)).length =
        o.mismatches.length + (Outcome.mismatched rest).length := List.length_append
    rw [List.cons_append, transcript, ih, transcript, hcount, Nat.add_assoc]
    simp only [List.cons_append, List.append_assoc]

/-- The mismatches that are described, and the word that the others are not. -/
theorem filter_transcript (logged : List (BlockRange × Outcome)) :
    (transcript budget n logged).filter isDiagnostic =
      diagnoses budget n (Outcome.mismatched logged) := by
  induction logged generalizing n with
  | nil => exact diagnoses_nil.symm
  | cons x rest ih =>
    obtain ⟨range, o⟩ := x
    have hread : ((o.readError.map (readFailed range)).toList).filter isDiagnostic = [] := by
      cases o.readError <;> rfl
    have hdiagnoses : (diagnoses budget n o.mismatches).filter isDiagnostic =
        diagnoses budget n o.mismatches := List.filter_eq_self.mpr fun e he => mem_diagnoses he
    have hcons : Outcome.mismatched ((range, o) :: rest) =
        o.mismatches ++ Outcome.mismatched rest := rfl
    rw [transcript, List.filter_cons_of_neg Bool.false_ne_true, List.filter_append,
      List.filter_append, hread, hdiagnoses, ih, hcons, diagnoses_append]
    rfl

theorem mem_transcript {e : Event} {logged : List (BlockRange × Outcome)}
    (h : e ∈ transcript budget n logged) : e.ofOutcome = true := by
  induction logged generalizing n with
  | nil => cases h
  | cons x rest ih =>
    obtain ⟨range, o⟩ := x
    rcases List.mem_cons.mp h with rfl | h
    · rfl
    rcases List.mem_append.mp h with h | h
    · rcases List.mem_append.mp h with h | h
      · obtain ⟨e', he', rfl⟩ := Option.map_eq_some_iff.mp (Option.mem_toList.mp h)
        rfl
      · have hd := mem_diagnoses h
        cases e with
        | mismatch m => rfl
        | muted => rfl
        | _ => cases hd
    · exact ih h

theorem filterMap_transcript (logged : List (BlockRange × Outcome)) :
    (transcript budget n logged).filterMap outcome? = logged := by
  induction logged generalizing n with
  | nil => rfl
  | cons x rest ih =>
    obtain ⟨range, o⟩ := x
    have hread : ((o.readError.map (readFailed range)).toList).filterMap outcome? = [] := by
      cases o.readError <;> rfl
    have hdiagnoses : (diagnoses budget n o.mismatches).filterMap outcome? = [] := by
      refine List.filterMap_eq_nil_iff.mpr fun e he => ?_
      have hd := mem_diagnoses he
      cases e with
      | compared range' o' => cases hd
      | _ => rfl
    have houtcome : outcome? (compared range o) = some (range, o) := rfl
    rw [transcript, List.filterMap_cons_some houtcome, List.filterMap_append,
      List.filterMap_append, hread, hdiagnoses, ih]
    rfl

theorem filterMap_ofOutcome (events : List Event) :
    (events.filter ofOutcome).filterMap outcome? = events.filterMap outcome? := by
  rw [List.filterMap_filter]
  apply List.filterMap_congr
  intro e _
  cases e <;> rfl

end Event

namespace Worker

variable {w : Worker} {budget n : Nat}

/-- How a worker stands whose outcomes had `n` mismatches so far. -/
structure Told (budget n : Nat) (w : Worker) : Prop where
  left : w.diagnosticsLeft = budget - n
  muted : w.muted = decide (budget < n)

theorem told_of_make {j : Job} {id : Nat} {entropy : Source} (h : make j id entropy = .ok w) :
    w.Told j.config.maxDiagnostics.toNat 0 := by
  rw [make_ok h]
  exact ⟨rfl, (decide_eq_false (Nat.not_lt_zero _)).symm⟩

theorem Told.describe (h : w.Told budget n) (ms : List Mismatch) :
    (w.describe ms).1 = Event.diagnoses budget n ms ∧
      (w.describe ms).2.Told budget (n + ms.length) := by
  induction ms generalizing w n with
  | nil => exact ⟨Event.diagnoses_nil.symm, h⟩
  | cons m rest ih =>
    obtain ⟨hleft, hmuted⟩ := h
    have hcount : n + (m :: rest).length = n + 1 + rest.length := by
      rw [List.length_cons, Nat.add_comm rest.length, Nat.add_assoc]
    rw [hcount, Worker.describe]
    rcases Nat.lt_trichotomy n budget with hn | rfl | hn
    · -- There is budget left.
      have hnext : Told budget (n + 1) { w with diagnosticsLeft := w.diagnosticsLeft - 1 } := by
        refine ⟨by rw [hleft, Nat.sub_sub], hmuted.trans ?_⟩
        rw [decide_eq_false (by omega), decide_eq_false (by omega)]
      obtain ⟨hevents, htold⟩ := ih hnext
      rw [if_pos (by omega), Event.diagnoses_cons_of_lt hn]
      exact ⟨congrArg (.mismatch m :: ·) hevents, htold⟩
    · -- The budget is used up and this was not said yet.
      have hnext : Told n (n + 1) { w with muted := true } :=
        ⟨by rw [hleft]; omega, (decide_eq_true (Nat.lt_succ_self n)).symm⟩
      have hnot : w.muted ≠ true := fun he => Nat.lt_irrefl n (of_decide_eq_true (hmuted ▸ he))
      obtain ⟨hevents, htold⟩ := ih hnext
      rw [Event.diagnoses_of_lt (Nat.lt_succ_self n)] at hevents
      rw [if_neg (by omega), if_neg hnot, Event.diagnoses_cons_self]
      exact ⟨congrArg (.muted :: ·) hevents, htold⟩
    · -- It was said already.
      have hnext : Told budget (n + 1) w := by
        refine ⟨by rw [hleft]; omega, hmuted.trans ?_⟩
        rw [decide_eq_true hn, decide_eq_true (by omega)]
      obtain ⟨hevents, htold⟩ := ih hnext
      rw [Event.diagnoses_of_lt (Nat.lt_succ_of_lt hn)] at hevents
      rw [if_neg (by omega), if_pos (hmuted.trans (decide_eq_true hn)), Event.diagnoses_of_lt hn]
      exact ⟨hevents, htold⟩

def logAll (w : Worker) : List (BlockRange × Outcome) → List Event × Worker
  | [] => ([], w)
  | (range, o) :: rest =>
    let (events, w) := w.logOutcome range o
    let (more, w) := w.logAll rest
    (events ++ more, w)

theorem Told.logAll (h : w.Told budget n) (logged : List (BlockRange × Outcome)) :
    (w.logAll logged).1 = Event.transcript budget n logged ∧
      (w.logAll logged).2.Told budget (n + (Outcome.mismatched logged).length) := by
  induction logged generalizing w n with
  | nil => exact ⟨rfl, h⟩
  | cons x rest ih =>
    obtain ⟨range, o⟩ := x
    obtain ⟨hevents, htold⟩ := h.describe o.mismatches
    obtain ⟨hmore, hrest⟩ := ih htold
    have hcount : (Outcome.mismatched ((range, o) :: rest)).length =
        o.mismatches.length + (Outcome.mismatched rest).length := List.length_append
    rw [hcount, ← Nat.add_assoc]
    refine ⟨?_, hrest⟩
    rw [Event.transcript, ← hmore, ← hevents]
    rfl

variable {σ : Type} {dev : Device σ} {j : Job} {now : Instant} {s : Shared} {d : σ} {t : Turn σ}

/-- What a step says of outcomes that come after `n` mismatches, and the mismatches that are at hand
unless the worker crashes or releases its lease. -/
structure Says (budget n : Nat) (w : Worker) (t : Turn σ) (logged : List (BlockRange × Outcome)) :
    Prop where
  events : t.events.filter Event.ofOutcome = Event.transcript budget n logged
  told : t.worker.Told budget (n + (Outcome.mismatched logged).length)
  found : (∀ b written, w.phase ≠ .releasing b written) → (∀ f, t.worker.phase ≠ .crashed f) →
    t.worker.phase.found = w.phase.found + (Outcome.mismatched logged).length

theorem Says.outcomes {logged : List (BlockRange × Outcome)} (h : Says budget n w t logged) :
    t.events.filterMap Event.outcome? = logged := by
  rw [← Event.filterMap_ofOutcome, h.events, Event.filterMap_transcript]

theorem Prepared.says {l : Lease} {o : Outcome} {u : Worker} (h : Prepared j u s d l o t)
    (hu : u.Told budget n) (hw : w.phase.found = 0) : Says budget n w t [(l.range, o)] := by
  obtain ⟨hevents, hleft, hmuted⟩ := hu.logAll [(l.range, o)]
  have hcount : (Outcome.mismatched [(l.range, o)]).length = o.mismatches.length := by
    rw [Outcome.mismatched, List.flatMap_singleton]
  have hsaid : (u.logOutcome l.range o).1.filter Event.ofOutcome =
      Event.transcript budget n [(l.range, o)] := by
    have hone : (u.logAll [(l.range, o)]).1 = (u.logOutcome l.range o).1 := List.append_nil _
    rw [← hone, hevents]
    exact List.filter_eq_self.mpr fun e he => Event.mem_transcript he
  cases h with
  | ready h =>
    refine ⟨hsaid, ⟨hleft, hmuted⟩, fun _ _ => ?_⟩
    rw [hw, hcount, Nat.zero_add]
    rfl
  | fault h => exact ⟨hsaid, ⟨hleft, hmuted⟩, fun _ hc => absurd rfl (hc _)⟩

theorem Transition.says (h : Transition dev j now w s d t) (hw : w.Told budget n) :
    ∃ logged, Says budget n w t logged := by
  have nothing {t : Turn σ} (he : t.events.filter Event.ofOutcome = [])
      (hleft : t.worker.diagnosticsLeft = w.diagnosticsLeft) (hmuted : t.worker.muted = w.muted)
      (hf : (∀ b written, w.phase ≠ .releasing b written) →
        (∀ f, t.worker.phase ≠ .crashed f) → t.worker.phase.batch? = w.phase.batch?) :
      ∃ logged, Says budget n w t logged :=
    ⟨[], he, ⟨hleft.trans hw.left, hmuted.trans hw.muted⟩, fun hr hc =>
      congrArg (fun b : Option Batch => b.elim 0 fun b => b.outcome.mismatches.length) (hf hr hc)⟩
  cases h with
  | grantUnwritten hp h hu hn ht => exact ⟨_, ht.says ⟨hw.left, hw.muted⟩ (by rw [hp]; rfl)⟩
  | unread hp hr h ht => exact ⟨_, ht.says hw (by rw [hp]; rfl)⟩
  | compare hp hr h ho ht => exact ⟨_, ht.says hw (by rw [hp]; rfl)⟩
  | write hp hr h => exact nothing rfl rfl rfl fun _ _ => by rw [hp]; exact discardNext_batch? _ _
  | discard hp hr h => exact nothing rfl rfl rfl fun _ _ => by rw [hp]; exact discardNext_batch? _ _
  | @noDiscard b run rest offset m e d' hp hr h he =>
    refine nothing ?_ rfl rfl fun _ _ => by rw [hp]; rfl
    show (if s.discardWarned then [] else [Event.noDiscard e.text]).filter Event.ofOutcome = []
    split <;> rfl
  | release hp h hr hn hf => exact nothing rfl rfl rfl fun hne _ => absurd hp (hne _ _)
  | refuse hp h => exact nothing rfl rfl rfl fun hne _ => absurd hp (hne _ _)
  | record hp => exact nothing rfl rfl rfl fun _ _ => by rw [hp]; exact recordNext_batch? _
  | retry hp h => exact nothing rfl rfl rfl fun _ _ => rfl
  | idle hp => exact nothing rfl rfl rfl fun _ _ => rfl
  | crash hd hf => exact nothing rfl rfl rfl fun _ hc => absurd rfl (hc _)
  | crashGranted hp h hl => exact nothing rfl rfl rfl fun _ hc => absurd rfl (hc _)
  | crashRecorded hp h hf => exact nothing rfl rfl rfl fun _ hc => absurd rfl (hc _)
  | _ => exact nothing rfl rfl rfl fun _ _ => by simp only [*]; rfl

theorem Transition.crashed (h : Transition dev j now w s d t) {f : Fault}
    (hp : w.phase = .crashed f) : t.worker.phase = .crashed f := by
  cases h with
  | idle he => exact hp
  | crash hd hf =>
    rcases hf.busy with hp' | ⟨l, hl⟩
    · cases hp.symm.trans hp'
    · rw [hp] at hl
      cases hl
  | _ => simp only [hp, reduceCtorEq] at *

theorem describe_id (w : Worker) (ms : List Mismatch) : (w.describe ms).2.id = w.id := by
  induction ms generalizing w with
  | nil => rfl
  | cons m rest ih =>
    simp only [describe]
    split
    · exact ih _
    split
    · exact ih _
    · exact ih _

theorem Prepared.id_eq {l : Lease} {o : Outcome} (h : Prepared j w s d l o t) :
    t.worker.id = w.id := by
  cases h with
  | ready h => exact w.describe_id o.mismatches
  | fault h => exact w.describe_id o.mismatches

theorem Transition.id_eq (h : Transition dev j now w s d t) : t.worker.id = w.id := by
  cases h with
  | grantUnwritten hp h hu hn ht => exact ht.id_eq
  | unread hp hr h ht => exact ht.id_eq
  | compare hp hr h ho ht => exact ht.id_eq
  | _ => rfl

end Worker

end Readback
