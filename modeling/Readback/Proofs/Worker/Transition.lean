import Readback.Worker

namespace Readback

def Phase.lease? : Phase → Option Lease
  | .invalidating l => some l
  | .reading l => some l
  | .writing b => some b.lease
  | .discarding b _ _ => some b.lease
  | .flushing b => some b.lease
  | .dropping b => some b.lease
  | .releasing b _ => some b.lease
  | _ => none

/-- What is asked of the device in a phase, and under which lease. -/
inductive Phase.Asks (g : Geometry) : Phase → Lease → Request → Prop
  | invalidate {l : Lease} {offset n : Nat} (h : g.rangeBytes l.range = .ok (offset, n)) :
      Asks g (.invalidating l) l (.invalidate offset n)
  | read {l : Lease} {offset n : Nat} (h : g.rangeBytes l.range = .ok (offset, n)) :
      Asks g (.reading l) l (.read offset n)
  | write {b : Batch} {offset n : Nat} (h : g.rangeBytes b.range = .ok (offset, n)) :
      Asks g (.writing b) b.lease (.write offset b.data)
  | discard {b : Batch} {run : BlockRange} {rest : List BlockRange} {offset n : Nat}
      (h : g.rangeBytes run = .ok (offset, n)) :
      Asks g (.discarding b run rest) b.lease (.discard offset n)
  | flush {b : Batch} : Asks g (.flushing b) b.lease .flush
  | drop {b : Batch} {offset n : Nat} (h : g.rangeBytes b.range = .ok (offset, n)) :
      Asks g (.dropping b) b.lease (.invalidate offset n)

theorem Phase.Asks.lease {g : Geometry} {p : Phase} {l : Lease} {q : Request}
    (h : p.Asks g l q) : p.lease? = some l := by
  cases h <;> rfl

namespace Worker

variable {σ : Type} (dev : Device σ) (j : Job) (now : Instant) (w : Worker) (s : Shared) (d : σ)

/-- What a worker can trip over. -/
inductive Trips : Fault → Prop
  | draw {f : Fault} (hp : w.phase = .acquiring)
      (h : s.lock.tryCandidates RangeLock.attempts w.source = .error f) : Trips f
  | range {l : Lease} {f : Fault} (hl : w.phase.lease? = some l)
      (h : j.geometry.rangeBytes l.range = .error f) : Trips f
  | run {b : Batch} {run : BlockRange} {rest : List BlockRange} {f : Fault}
      (hp : w.phase = .discarding b run rest)
      (h : j.geometry.rangeBytes run = .error f) : Trips f
  | device {l : Lease} {q : Request} {d' : σ} {f : Fault} (ha : w.phase.Asks j.geometry l q)
      (h : dev.answer q d = (.error (.fault f), d')) : Trips f
  | compare {l : Lease} {offset n : Nat} {bytes : Request.Reply (.read offset n)} {d' : σ}
      {f : Fault} (hp : w.phase = .reading l) (hr : j.geometry.rangeBytes l.range = .ok (offset, n))
      (h : dev.answer (.read offset n) d = (.ok bytes, d'))
      (ho : Outcome.ofBytes j.content j.geometry l bytes.1 = .error f) : Trips f
  | release {b : Batch} {written : Bool} {f : Fault} (hp : w.phase = .releasing b written)
      (h : s.lock.release b.lease (newStates b written) b.outcome.verifiedBlocks =
        .error (.fault f)) : Trips f

/-- The device is as it was, or has answered what was asked of it. -/
def Answered (d' : σ) : Prop :=
  d' = d ∨ ∃ l q reply, w.phase.Asks j.geometry l q ∧ dev.answer q d = (reply, d')

/-- What becomes of a worker that knows the outcome for its lease. -/
inductive Prepared (l : Lease) (o : Outcome) : Turn σ → Prop
  | ready {blocks : List (Tag × ByteArray)} {source : Source}
      (h : compose j l.range.blocks w.source = .ok (blocks, source)) :
      Prepared l o { goto { (w.logOutcome l.range o).2 with source } s d
        (.writing ⟨l, o, blocks.map Prod.fst, Bytes.concat (blocks.map Prod.snd)⟩) with
        events := (w.logOutcome l.range o).1 }
  | fault {f : Fault} (h : compose j l.range.blocks w.source = .error f) :
      Prepared l o { crash (w.logOutcome l.range o).2 s d f with
        events := (w.logOutcome l.range o).1 }

/-- All that one step of a worker can come to, with what it takes to get there. -/
inductive Transition : Turn σ → Prop
  | stop (hp : w.phase = .polling) (hr : s.stop.raised = true) :
      Transition { goto w s d (.stopped (.ok (w.reporter.map Reporter.samples))) with
        events := [.done] }
  | enter (hp : w.phase = .polling) (hr : s.stop.raised = false) :
      Transition (goto w s d .acquiring)
  | retry {source : Source} (hp : w.phase = .acquiring)
      (h : s.lock.tryCandidates RangeLock.attempts w.source = .ok (none, source)) :
      Transition (.quiet { w with source } s d)
  | grant {l : Lease} {lock : RangeLock} {source : Source} (hp : w.phase = .acquiring)
      (h : s.lock.tryCandidates RangeLock.attempts w.source = .ok (some (l, lock), source))
      (hw : l.anyWritten = true) :
      Transition (goto { w with source } { s with lock } d (.invalidating l))
  | grantUnwritten {l : Lease} {lock : RangeLock} {source : Source} {n : Nat} {t : Turn σ}
      (hp : w.phase = .acquiring)
      (h : s.lock.tryCandidates RangeLock.attempts w.source = .ok (some (l, lock), source))
      (hw : l.anyWritten = false) (hn : l.range.length = .ok n)
      (ht : Prepared j { w with source } { s with lock } d l (.untouched n) t) : Transition t
  | invalidate {l : Lease} {offset n : Nat} {reply : Except Failure Unit} {d' : σ}
      (hp : w.phase = .invalidating l) (hr : j.geometry.rangeBytes l.range = .ok (offset, n))
      (h : dev.answer (.invalidate offset n) d = (reply, d'))
      (hf : ∀ f, reply ≠ .error (.fault f)) : Transition (goto w s d' (.reading l))
  | unread {l : Lease} {offset n : Nat} {e : Error} {d' : σ} {t : Turn σ}
      (hp : w.phase = .reading l) (hr : j.geometry.rangeBytes l.range = .ok (offset, n))
      (h : dev.answer (.read offset n) d = (.error (.error e), d'))
      (ht : Prepared j w s d' l (.unread l e) t) : Transition t
  | compare {l : Lease} {offset n : Nat} {bytes : Request.Reply (.read offset n)} {d' : σ}
      {o : Outcome} {t : Turn σ}
      (hp : w.phase = .reading l) (hr : j.geometry.rangeBytes l.range = .ok (offset, n))
      (h : dev.answer (.read offset n) d = (.ok bytes, d'))
      (ho : Outcome.ofBytes j.content j.geometry l bytes.1 = .ok o)
      (ht : Prepared j w s d' l o t) : Transition t
  | write {b : Batch} {offset n : Nat} {d' : σ} (hp : w.phase = .writing b)
      (hr : j.geometry.rangeBytes b.range = .ok (offset, n))
      (h : dev.answer (.write offset b.data) d = (.ok (), d')) :
      Transition (goto w s d' (discardNext b (trimmedRuns b.range b.tags)))
  | writeFailed {b : Batch} {offset n : Nat} {e : Error} {d' : σ} (hp : w.phase = .writing b)
      (hr : j.geometry.rangeBytes b.range = .ok (offset, n))
      (h : dev.answer (.write offset b.data) d = (.error (.error e), d')) :
      Transition (giveUp w s d' b e)
  | discard {b : Batch} {run : BlockRange} {rest : List BlockRange} {offset n : Nat} {d' : σ}
      (hp : w.phase = .discarding b run rest) (hr : j.geometry.rangeBytes run = .ok (offset, n))
      (h : dev.answer (.discard offset n) d = (.ok (), d')) :
      Transition (goto w s d' (discardNext b rest))
  | noDiscard {b : Batch} {run : BlockRange} {rest : List BlockRange} {offset n : Nat}
      {e : Error} {d' : σ} (hp : w.phase = .discarding b run rest)
      (hr : j.geometry.rangeBytes run = .ok (offset, n))
      (h : dev.answer (.discard offset n) d = (.error (.error e), d'))
      (he : e.kind = .unsupported) :
      Transition { goto w { s with discardWarned := true } d' (.flushing b) with
        events := if s.discardWarned then [] else [.noDiscard e.text] }
  | discardFailed {b : Batch} {run : BlockRange} {rest : List BlockRange} {offset n : Nat}
      {e : Error} {d' : σ} (hp : w.phase = .discarding b run rest)
      (hr : j.geometry.rangeBytes run = .ok (offset, n))
      (h : dev.answer (.discard offset n) d = (.error (.error e), d'))
      (he : e.kind ≠ .unsupported) : Transition (giveUp w s d' b e)
  | flush {b : Batch} {d' : σ} (hp : w.phase = .flushing b)
      (h : dev.answer .flush d = (.ok (), d')) : Transition (goto w s d' (.dropping b))
  | flushFailed {b : Batch} {e : Error} {d' : σ} (hp : w.phase = .flushing b)
      (h : dev.answer .flush d = (.error (.error e), d')) : Transition (giveUp w s d' b e)
  | drop {b : Batch} {offset n : Nat} {reply : Except Failure Unit} {d' : σ}
      (hp : w.phase = .dropping b) (hr : j.geometry.rangeBytes b.range = .ok (offset, n))
      (h : dev.answer (.invalidate offset n) d = (reply, d'))
      (hf : ∀ f, reply ≠ .error (.fault f)) : Transition (goto w s d' (.releasing b true))
  | release {b : Batch} {written : Bool} {newly : Nat} {lock : RangeLock} {offset bytes n : Nat}
      {failed : Bool} (hp : w.phase = .releasing b written)
      (h : s.lock.release b.lease (newStates b written) b.outcome.verifiedBlocks =
        .ok (newly, lock))
      (hr : j.geometry.rangeBytes b.range = .ok (offset, bytes)) (hn : b.range.length = .ok n)
      (hf : (recordOf b written n bytes newly).failed = .ok failed) :
      Transition (goto w { s with lock } d
        (recordNext ((recordOf b written n bytes newly).seen ++ Record.closing failed)))
  | refuse {b : Batch} {written : Bool} {e : Error} (hp : w.phase = .releasing b written)
      (h : s.lock.release b.lease (newStates b written) b.outcome.verifiedBlocks =
        .error (.error e)) :
      Transition { goto w s d (.giving .aborted (some e)) with events := [.aborting e] }
  | record {c : Counter} {v : UInt64} {rest : List (Counter × UInt64)}
      (hp : w.phase = .recording c v rest) :
      Transition (goto w { s with stats := s.stats.add c v } d (recordNext rest))
  | due (hp : w.phase = .reporting) (hd : w.reporter.any (·.due now) = true) :
      Transition (goto w s d (.sampling now .zero Counter.all))
  | early (hp : w.phase = .reporting) (hd : w.reporter.any (·.due now) = false) :
      Transition (goto w s d startChecking)
  | sample {t : Instant} {seen : Stats} {c : Counter} {rest : List Counter}
      (hp : w.phase = .sampling t seen (c :: rest)) :
      Transition (goto w s d (.sampling t (seen.set c (s.stats.get c)) rest))
  | report {t : Instant} {seen : Stats} {r : Reporter} (hp : w.phase = .sampling t seen [])
      (hr : w.reporter = some r) :
      Transition { goto { w with reporter := some (r.report seen t).2 } s d startChecking with
        printed := some (r.report seen t).1 }
  | silent {t : Instant} {seen : Stats} (hp : w.phase = .sampling t seen [])
      (hr : w.reporter = none) : Transition (goto w s d startChecking)
  | check {seen : Stats} {c : Counter} {rest : List Counter}
      (hp : w.phase = .checking seen (c :: rest)) :
      Transition (goto w s d (.checking (seen.set c (s.stats.get c)) rest))
  | checked {seen : Stats} (hp : w.phase = .checking seen []) :
      Transition (goto w s d (.judging seen))
  | judge {seen : Stats} {reason : Stop.Reason} (hp : w.phase = .judging seen)
      (hr : j.policy.evaluate seen now = some reason) :
      Transition (goto w s d (.giving reason none))
  | pass {seen : Stats} (hp : w.phase = .judging seen)
      (hr : j.policy.evaluate seen now = none) : Transition (goto w s d .polling)
  | give {reason : Stop.Reason} {cause : Option Error} (hp : w.phase = .giving reason cause) :
      Transition (goto w { s with stop := s.stop.give reason } d (.raising cause))
  | raise (hp : w.phase = .raising none) :
      Transition (goto w { s with stop := s.stop.setFlag true } d .polling)
  | abort {e : Error} (hp : w.phase = .raising (some e)) :
      Transition (goto w { s with stop := s.stop.setFlag true } d (.stopped (.error e)))
  | idle (hp : w.ended = true) : Transition (.quiet w s d)
  | crash {f : Fault} {d' : σ} (hd : Answered dev j w d d') (hf : Trips dev j w s d f) :
      Transition (crash w s d' f)
  | crashGranted {l : Lease} {lock : RangeLock} {source : Source} {f : Fault}
      (hp : w.phase = .acquiring)
      (h : s.lock.tryCandidates RangeLock.attempts w.source = .ok (some (l, lock), source))
      (hl : l.range.length = .error f) :
      Transition (crash { w with source } { s with lock } d f)
  | crashRecorded {b : Batch} {written : Bool} {newly : Nat} {lock : RangeLock} {f : Fault}
      (hp : w.phase = .releasing b written)
      (h : s.lock.release b.lease (newStates b written) b.outcome.verifiedBlocks =
        .ok (newly, lock))
      (hf : j.geometry.rangeBytes b.range = .error f ∨ b.range.length = .error f ∨
        ∃ n bytes, (recordOf b written n bytes newly).failed = .error f) :
      Transition (crash w { s with lock } d f)

variable {dev j now w s d}

theorem orCrash_cases {α : Type} {P : Turn σ → Prop} {x : Except Fault α} {k : α → Turn σ}
    (hok : ∀ a, x = .ok a → P (k a)) (hfault : ∀ f, x = .error f → P (crash w s d f)) :
    P (orCrash w s d x k) := by
  cases x with
  | ok a => exact hok a rfl
  | error f => exact hfault f rfl

theorem ask_cases {P : Turn σ → Prop} {q : Request} {k : Except Error q.Reply → σ → Turn σ}
    (hok : ∀ reply d', dev.answer q d = (.ok reply, d') → P (k (.ok reply) d'))
    (herror : ∀ e d', dev.answer q d = (.error (.error e), d') → P (k (.error e) d'))
    (hfault : ∀ f d', dev.answer q d = (.error (.fault f), d') → P (crash w s d' f)) :
    P (ask dev w s d q k) := by
  unfold ask
  split
  · exact hok _ _ ‹_›
  · exact herror _ _ ‹_›
  · exact hfault _ _ ‹_›

theorem make_ok {id : Nat} {entropy : Source} (h : make j id entropy = .ok w) :
    w = {
      id
      source := sourceFor j.config id entropy
      phase := .polling
      diagnosticsLeft := j.config.maxDiagnostics.toNat
      muted := false
      reporter := if id = 0 then
        some (.make j.config.reportInterval j.geometry.nBlocks j.start) else none } := by
  unfold make at h
  split at h
  · cases h
  · exact (Except.ok.inj h).symm

theorem phase_of_ended (h : w.ended = true) :
    (∃ result, w.phase = .stopped result) ∨ ∃ f, w.phase = .crashed f := by
  unfold ended at h
  split at h
  · exact .inl ⟨_, ‹_›⟩
  · exact .inr ⟨_, ‹_›⟩
  · cases h

theorem describe_source (w : Worker) (ms : List Mismatch) :
    (w.describe ms).2.source = w.source := by
  induction ms generalizing w with
  | nil => rfl
  | cons m rest ih =>
    simp only [describe]
    split
    · exact ih _
    split
    · exact ih _
    · exact ih _

theorem logOutcome_source (w : Worker) (range : BlockRange) (o : Outcome) :
    (w.logOutcome range o).2.source = w.source :=
  w.describe_source o.mismatches

theorem prepare_prepared (l : Lease) (o : Outcome) :
    Prepared j w s d l o (prepare j w s d l o) := by
  simp only [prepare, logOutcome_source]
  cases h : compose j l.range.blocks w.source with
  | ok p => exact .ready h
  | error f => exact .fault h

theorem Transition.fault {f : Fault} (hf : Trips dev j w s d f) :
    Transition dev j now w s d (Worker.crash w s d f) :=
  .crash (.inl rfl) hf

theorem Transition.rangeFault {l : Lease} (hl : w.phase.lease? = some l) {f : Fault}
    (h : j.geometry.rangeBytes l.range = .error f) :
    Transition dev j now w s d (Worker.crash w s d f) :=
  .fault (.range hl h)

theorem Transition.deviceFault {l : Lease} {q : Request} {d' : σ} {f : Fault}
    (ha : w.phase.Asks j.geometry l q) (h : dev.answer q d = (.error (.fault f), d')) :
    Transition dev j now w s d (Worker.crash w s d' f) :=
  .crash (.inr ⟨l, q, _, ha, h⟩) (.device ha h)

theorem poll_transition (hp : w.phase = .polling) : Transition dev j now w s d (poll w s d) := by
  unfold poll
  cases hr : s.stop.raised with
  | true => exact .stop hp hr
  | false => exact .enter hp hr

theorem acquire_transition (hp : w.phase = .acquiring) :
    Transition dev j now w s d (acquire j w s d) := by
  refine orCrash_cases (fun a h => ?_) fun f h => .fault (.draw hp h)
  obtain ⟨lease?, source⟩ := a
  cases lease? with
  | none => exact .retry hp h
  | some p =>
    obtain ⟨l, lock⟩ := p
    dsimp only
    cases hw : l.anyWritten with
    | true => exact .grant hp h hw
    | false =>
      exact orCrash_cases (fun n hn => .grantUnwritten hp h hw hn (prepare_prepared _ _))
        fun f hf => .crashGranted hp h hf

theorem invalidate_transition {l : Lease} (hp : w.phase = .invalidating l) :
    Transition dev j now w s d (invalidate dev j w s d l) := by
  have hl : w.phase.lease? = some l := by rw [hp]; rfl
  refine orCrash_cases (fun p hr => ?_) fun f h => .rangeFault hl h
  obtain ⟨offset, n⟩ := p
  have ha : w.phase.Asks j.geometry l (.invalidate offset n) := by rw [hp]; exact .invalidate hr
  refine ask_cases (fun reply d' h => ?_) (fun e d' h => ?_) fun f d' h => .deviceFault ha h
  · exact .invalidate hp hr h nofun
  · exact .invalidate hp hr h nofun

theorem readBack_transition {l : Lease} (hp : w.phase = .reading l) :
    Transition dev j now w s d (readBack dev j w s d l) := by
  have hl : w.phase.lease? = some l := by rw [hp]; rfl
  refine orCrash_cases (fun p hr => ?_) fun f h => .rangeFault hl h
  obtain ⟨offset, n⟩ := p
  have ha : w.phase.Asks j.geometry l (.read offset n) := by rw [hp]; exact .read hr
  refine ask_cases (fun bytes d' h => ?_) (fun e d' h => ?_) fun f d' h => .deviceFault ha h
  · refine orCrash_cases (fun o ho => ?_) fun f ho => ?_
    · exact .compare hp hr h ho (prepare_prepared _ _)
    · exact .crash (.inr ⟨l, _, _, ha, h⟩) (.compare hp hr h ho)
  · exact .unread hp hr h (prepare_prepared _ _)

theorem write_transition {b : Batch} (hp : w.phase = .writing b) :
    Transition dev j now w s d (write dev j w s d b) := by
  have hl : w.phase.lease? = some b.lease := by rw [hp]; rfl
  refine orCrash_cases (fun p hr => ?_) fun f h => .rangeFault hl h
  obtain ⟨offset, n⟩ := p
  have ha : w.phase.Asks j.geometry b.lease (.write offset b.data) := by rw [hp]; exact .write hr
  refine ask_cases (fun reply d' h => ?_) (fun e d' h => ?_) fun f d' h => .deviceFault ha h
  · exact .write hp hr h
  · exact .writeFailed hp hr h

theorem discard_transition {b : Batch} {run : BlockRange} {rest : List BlockRange}
    (hp : w.phase = .discarding b run rest) :
    Transition dev j now w s d (discard dev j w s d b run rest) := by
  refine orCrash_cases (fun p hr => ?_) fun f h => .fault (.run hp h)
  obtain ⟨offset, n⟩ := p
  have ha : w.phase.Asks j.geometry b.lease (.discard offset n) := by rw [hp]; exact .discard hr
  refine ask_cases (fun reply d' h => ?_) (fun e d' h => ?_) fun f d' h => .deviceFault ha h
  · exact .discard hp hr h
  · dsimp only
    split
    · exact .noDiscard hp hr h ‹_›
    · exact .discardFailed hp hr h ‹_›

theorem flush_transition {b : Batch} (hp : w.phase = .flushing b) :
    Transition dev j now w s d (flush dev w s d b) := by
  have ha : w.phase.Asks j.geometry b.lease .flush := by rw [hp]; exact .flush
  refine ask_cases (fun reply d' h => ?_) (fun e d' h => ?_) fun f d' h => .deviceFault ha h
  · exact .flush hp h
  · exact .flushFailed hp h

theorem drop_transition {b : Batch} (hp : w.phase = .dropping b) :
    Transition dev j now w s d (drop dev j w s d b) := by
  have hl : w.phase.lease? = some b.lease := by rw [hp]; rfl
  refine orCrash_cases (fun p hr => ?_) fun f h => .rangeFault hl h
  obtain ⟨offset, n⟩ := p
  have ha : w.phase.Asks j.geometry b.lease (.invalidate offset n) := by rw [hp]; exact .drop hr
  refine ask_cases (fun reply d' h => ?_) (fun e d' h => ?_) fun f d' h => .deviceFault ha h
  · exact .drop hp hr h nofun
  · exact .drop hp hr h nofun

theorem release_transition {b : Batch} {written : Bool} (hp : w.phase = .releasing b written) :
    Transition dev j now w s d (release j w s d b written) := by
  unfold release
  split
  · exact .fault (.release hp ‹_›)
  · exact .refuse hp ‹_›
  · refine orCrash_cases (fun p hr => ?_) fun f hf => .crashRecorded hp ‹_› (.inl hf)
    obtain ⟨offset, bytes⟩ := p
    refine orCrash_cases (fun n hn => ?_) fun f hf => .crashRecorded hp ‹_› (.inr (.inl hf))
    refine orCrash_cases (fun failed hf => ?_) fun f hf =>
      .crashRecorded hp ‹_› (.inr (.inr ⟨n, bytes, hf⟩))
    exact .release hp ‹_› hr hn hf

theorem consider_transition (hp : w.phase = .reporting) :
    Transition dev j now w s d (consider now w s d) := by
  unfold consider
  cases hd : w.reporter.any (·.due now) with
  | true => exact .due hp hd
  | false => exact .early hp hd

theorem sample_transition {t : Instant} {seen : Stats} {pending : List Counter}
    (hp : w.phase = .sampling t seen pending) :
    Transition dev j now w s d (sample w s d t seen pending) := by
  cases pending with
  | cons c rest => exact .sample hp
  | nil =>
    unfold sample
    cases hr : w.reporter with
    | none => exact .silent hp hr
    | some r => exact .report hp hr

theorem check_transition {seen : Stats} {pending : List Counter}
    (hp : w.phase = .checking seen pending) :
    Transition dev j now w s d (check w s d seen pending) := by
  cases pending with
  | cons c rest => exact .check hp
  | nil => exact .checked hp

theorem judge_transition {seen : Stats} (hp : w.phase = .judging seen) :
    Transition dev j now w s d (judge j now w s d seen) := by
  unfold judge
  split
  · exact .judge hp ‹_›
  · exact .pass hp ‹_›

theorem raise_transition {cause : Option Error} (hp : w.phase = .raising cause) :
    Transition dev j now w s d (raise w s d cause) := by
  cases cause with
  | none => exact .raise hp
  | some e => exact .abort hp

/-- Every step is one of those that `Transition` lists. -/
theorem step_transition : Transition dev j now w s d (step dev j now w s d) := by
  unfold step
  split
  · exact poll_transition ‹_›
  · exact acquire_transition ‹_›
  · exact invalidate_transition ‹_›
  · exact readBack_transition ‹_›
  · exact write_transition ‹_›
  · exact discard_transition ‹_›
  · exact flush_transition ‹_›
  · exact drop_transition ‹_›
  · exact release_transition ‹_›
  · exact .record ‹_›
  · exact consider_transition ‹_›
  · exact sample_transition ‹_›
  · exact check_transition ‹_›
  · exact judge_transition ‹_›
  · exact .give ‹_›
  · exact raise_transition ‹_›
  · exact .idle (by simp [ended, *])
  · exact .idle (by simp [ended, *])

end Worker

end Readback
