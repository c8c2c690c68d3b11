import Mathlib.Algebra.GroupWithZero.Nat
import Readback.Proofs.Stop
import Readback.Stats.Reporter

namespace Readback.Reporter

variable {r r' : Reporter} {interval : Duration} {n : Nat} {start : Instant}
  {done calls : List Call}

structure Call where
  stats : Stats
  now : Instant

def after (r : Reporter) (c : Call) : Reporter :=
  (r.reportAt c.stats c.now).2

def reported (r : Reporter) : List Call → List Call
  | [] => []
  | c :: rest =>
    if (r.reportAt c.stats c.now).1.isSome then c :: (r.after c).reported rest
    else (r.after c).reported rest

def lastTime (start : Instant) (done : List Call) : Instant :=
  (done.map Call.now).getLastD start

def lastSeen (done : List Call) : Stats :=
  (done.map Call.stats).getLastD .zero

def increments (x : Counter) (seen : Stats) : List Call → List UInt64
  | [] => []
  | c :: rest => (c.stats.get x - seen.get x) :: increments x c.stats rest

def spans (last : Instant) : List Call → List Duration
  | [] => []
  | c :: rest => c.now.since last :: spans c.now rest

def rate (increment : UInt64) (span : Duration) : Float32 :=
  increment.toFloat32 / span.divisor.toFloat32

def rates (x : Counter) (start : Instant) (done : List Call) : List Float32 :=
  List.zipWith rate (increments x .zero done) (spans start done)

theorem lastTime_concat (start : Instant) (done : List Call) (c : Call) :
    lastTime start (done ++ [c]) = c.now := by
  rw [lastTime, List.map_append, List.map_singleton, List.getLastD_concat]

theorem lastSeen_concat (done : List Call) (c : Call) : lastSeen (done ++ [c]) = c.stats := by
  rw [lastSeen, List.map_append, List.map_singleton, List.getLastD_concat]

theorem increments_concat (x : Counter) (seen : Stats) (done : List Call) (c : Call) :
    increments x seen (done ++ [c]) = increments x seen done ++
      [c.stats.get x - ((done.map Call.stats).getLastD seen).get x] := by
  induction done generalizing seen with
  | nil => rfl
  | cons d rest ih =>
    rw [List.cons_append, increments, ih, List.map_cons, List.getLastD_cons]
    rfl

theorem spans_concat (last : Instant) (done : List Call) (c : Call) :
    spans last (done ++ [c]) = spans last done ++ [c.now.since (lastTime last done)] := by
  induction done generalizing last with
  | nil => rfl
  | cons d rest ih =>
    rw [List.cons_append, spans, ih, lastTime, lastTime, List.map_cons, List.getLastD_cons]
    rfl

theorem length_increments (x : Counter) (seen : Stats) (done : List Call) :
    (increments x seen done).length = done.length := by
  induction done generalizing seen with
  | nil => rfl
  | cons c rest ih => rw [increments, List.length_cons, ih, List.length_cons]

theorem length_spans (last : Instant) (done : List Call) :
    (spans last done).length = done.length := by
  induction done generalizing last with
  | nil => rfl
  | cons c rest ih => rw [spans, List.length_cons, ih, List.length_cons]

theorem length_rates (x : Counter) (start : Instant) (done : List Call) :
    (rates x start done).length = done.length := by
  rw [rates, List.length_zipWith, length_increments, length_spans, Nat.min_self]

theorem rates_concat (x : Counter) (start : Instant) (done : List Call) (c : Call) :
    rates x start (done ++ [c]) = rates x start done ++
      [rate (c.stats.get x - (lastSeen done).get x) (c.now.since (lastTime start done))] := by
  have hlength : (increments x .zero done).length = (spans start done).length := by
    rw [length_increments, length_spans]
  rw [rates, increments_concat, spans_concat, List.zipWith_append hlength]
  rfl

theorem reportAt_of_due {s : Stats} {now : Instant} (h : r.due now = true) :
    r.reportAt s now =
      (some (s.line (now.since r.start) r.nBlocks), (r.report s now).2) :=
  if_pos h

theorem reportAt_of_early {s : Stats} {now : Instant} (h : r.due now = false) :
    r.reportAt s now = (none, r) :=
  if_neg (by rw [h]; exact Bool.false_ne_true)

theorem due_iff {now : Instant} (h : 0 < r.interval.nanos) :
    r.due now = true ↔ r.last.nanos + r.interval.nanos ≤ now.nanos := by
  have hsince : (now.since r.last).nanos = (now.nanos - r.last.nanos).toNat := rfl
  rw [due, decide_eq_true_iff]
  omega

theorem growth_of_le {now last : UInt64} (h : last.toNat ≤ now.toNat) :
    growth now last = now - last :=
  if_pos (UInt64.le_iff_toNat_le.mpr h)

/-- What a reporter keeps is what the reports that it has made come to. -/
structure Tracks (interval : Duration) (n : Nat) (start : Instant) (r : Reporter)
    (done : List Call) : Prop where
  interval_eq : r.interval = interval
  nBlocks_eq : r.nBlocks = n
  start_eq : r.start = start
  last : r.last = lastTime start done
  seen : r.lastStats = lastSeen done
  iops : r.samples.iops = rates .iterations start done
  bandwidth : r.samples.bandwidth = rates .bytesWritten start done
  spaced : ∀ k (h : k < done.length), start.nanos + (k + 1) * interval.nanos ≤ done[k].now.nanos
  late : start.nanos + done.length * interval.nanos ≤ (lastTime start done).nanos
  sum : ∀ x, ((increments x .zero done).map UInt64.toNat).sum = ((lastSeen done).get x).toNat

theorem tracks_make (interval : Duration) (n : Nat) (start : Instant) :
    Tracks interval n start (make interval n start) [] where
  interval_eq := rfl
  nBlocks_eq := rfl
  start_eq := rfl
  last := rfl
  seen := rfl
  iops := rfl
  bandwidth := rfl
  spaced _ h := nomatch h
  late := by simp [lastTime]
  sum x := by cases x <;> rfl

/-- A report is the next of those that the reporter keeps track of. -/
theorem Tracks.report (h : Tracks interval n start r done) {c : Call}
    (hle : (lastSeen done).Le c.stats)
    (hdue : (lastTime start done).nanos + interval.nanos ≤ c.now.nanos) :
    Tracks interval n start (r.report c.stats c.now).2 (done ++ [c]) := by
  have hgrowth (x : Counter) : growth (c.stats.get x) (r.lastStats.get x) =
      c.stats.get x - (lastSeen done).get x := by
    rw [h.seen]
    exact growth_of_le (hle x)
  have hnow : start.nanos + (done.length + 1) * interval.nanos ≤ c.now.nanos := by
    have hlate := h.late
    rw [Int.add_mul, Int.one_mul]
    omega
  refine ⟨h.interval_eq, h.nBlocks_eq, h.start_eq, (lastTime_concat _ _ _).symm,
    (lastSeen_concat _ _).symm, ?_, ?_, fun k hk => ?_, ?_, fun x => ?_⟩
  · rw [rates_concat, ← h.iops, ← h.last, ← hgrowth]
    rfl
  · rw [rates_concat, ← h.bandwidth, ← h.last, ← hgrowth]
    rfl
  · rw [List.length_append, List.length_singleton] at hk
    rcases Nat.lt_or_eq_of_le (Nat.le_of_lt_succ hk) with hold | rfl
    · rw [List.getElem_append_left hold]
      exact h.spaced k hold
    · rw [List.getElem_concat_length rfl]
      exact hnow
  · rw [lastTime_concat, List.length_append, List.length_singleton]
    exact hnow
  · have hlast := hle x
    have hsub : (c.stats.get x - (lastSeen done).get x).toNat =
        (c.stats.get x).toNat - ((lastSeen done).get x).toNat :=
      UInt64.toNat_sub_of_le _ _ (UInt64.le_iff_toNat_le.mpr hlast)
    rw [increments_concat, List.map_append, List.sum_append, h.sum, lastSeen_concat]
    simp only [List.map_singleton, List.sum_singleton]
    show _ + (c.stats.get x - (lastSeen done).get x).toNat = _
    omega

theorem Tracks.reportAt (h : Tracks interval n start r done) (hpos : 0 < interval.nanos)
    (s : Stats) (now : Instant) : (r.reportAt s now).1 =
      if (lastTime start done).nanos + interval.nanos ≤ now.nanos then
        some (s.line (now.since start) n) else none := by
  have hdue : r.due now = true ↔ (lastTime start done).nanos + interval.nanos ≤ now.nanos := by
    rw [due_iff (h.interval_eq ▸ hpos), h.last, h.interval_eq]
  cases hd : r.due now with
  | true => rw [reportAt_of_due hd, if_pos (hdue.mp hd), h.start_eq, h.nBlocks_eq]
  | false =>
    have hearly : ¬ (lastTime start done).nanos + interval.nanos ≤ now.nanos := fun hn =>
      Bool.false_ne_true (hd.symm.trans (hdue.mpr hn))
    rw [reportAt_of_early hd, if_neg hearly]

theorem reportAt_of_none {s : Stats} {now : Instant} (h : (r.reportAt s now).1 = none) :
    (r.reportAt s now).2 = r := by
  cases hd : r.due now with
  | true =>
    rw [reportAt_of_due hd] at h
    cases h
  | false => rw [reportAt_of_early hd]

theorem Tracks.foldl (h : Tracks interval n start r done) (hpos : 0 < interval.nanos)
    (hle : ∀ c ∈ calls, (lastSeen done).Le c.stats)
    (hgrow : calls.Pairwise fun c c' => c.stats.Le c'.stats) :
    Tracks interval n start (calls.foldl after r) (done ++ r.reported calls) := by
  induction calls generalizing r done with
  | nil => rwa [reported, List.append_nil]
  | cons c rest ih =>
    obtain ⟨hnext, hrest⟩ := List.pairwise_cons.mp hgrow
    have hanswer := h.reportAt hpos c.stats c.now
    rw [List.foldl_cons, reported]
    by_cases hdue : (lastTime start done).nanos + interval.nanos ≤ c.now.nanos
    · have hd : r.due c.now = true := by
        rw [due_iff (h.interval_eq ▸ hpos), h.last, h.interval_eq]
        exact hdue
      have hafter : r.after c = (r.report c.stats c.now).2 := by rw [after, reportAt_of_due hd]
      rw [hanswer, if_pos hdue, Option.isSome_some, if_pos rfl, List.append_cons, hafter]
      refine ih (h.report (hle c List.mem_cons_self) hdue) ?_ hrest
      rw [lastSeen_concat]
      exact hnext
    · rw [if_neg hdue] at hanswer
      have hafter : r.after c = r := reportAt_of_none hanswer
      rw [hanswer, Option.isSome_none, if_neg Bool.false_ne_true, hafter]
      exact ih h (fun c' hc' => hle c' (List.mem_cons_of_mem _ hc')) hrest

/-- Whenever a reporter is called, it answers if and only if an interval has passed since the last
report, and else stays as it is.  So the reports are an interval apart, each has a sample of either
rate, and what the samples are made of adds up to what the counters showed at the last report. -/
theorem reports_add_up (hpos : 0 < interval.nanos) (n : Nat) (start : Instant)
    (hgrow : calls.Pairwise fun c c' => c.stats.Le c'.stats) :
    let r := calls.foldl after (make interval n start)
    let done := (make interval n start).reported calls
    (∀ s now, (r.reportAt s now).1 =
        (if (lastTime start done).nanos + interval.nanos ≤ now.nanos then
          some (s.line (now.since start) n) else none) ∧
      ((r.reportAt s now).1 = none → (r.reportAt s now).2 = r)) ∧
    (∀ k (h : k < done.length),
      start.nanos + (k + 1) * interval.nanos ≤ done[k].now.nanos) ∧
    r.samples.iops.length = done.length ∧ r.samples.bandwidth.length = done.length ∧
    r.samples.iops = rates .iterations start done ∧
    r.samples.bandwidth = rates .bytesWritten start done ∧
    r.lastStats = lastSeen done ∧
    ∀ x, ((increments x .zero done).map UInt64.toNat).sum = (r.lastStats.get x).toNat := by
  intro r done
  have h : Tracks interval n start r done :=
    (tracks_make interval n start).foldl hpos (fun c _ => Stats.zero_le c.stats) hgrow
  refine ⟨fun s now => ⟨h.reportAt hpos s now, reportAt_of_none⟩, h.spaced, ?_, ?_, h.iops,
    h.bandwidth, h.seen, fun x => ?_⟩
  · rw [h.iops, length_rates]
  · rw [h.bandwidth, length_rates]
  · rw [h.seen]
    exact h.sum x

/-- The clock goes back between two reports, which leave none of five iterations out. -/
theorem reports_add_up_of_backward_clock :
    let call (millis : Int) (iterations bytes : UInt64) : Call :=
      ⟨{ Stats.zero with iterations := iterations, bytesWritten := bytes }, ⟨millis * 1000000⟩⟩
    let calls := [call 500 1 512, call 1000 2 512, call 200 3 1024, call 3000 5 4096]
    let r := calls.foldl after (make (.ofSeconds 1) 16 ⟨0⟩)
    let done := (make (.ofSeconds 1) 16 ⟨0⟩).reported calls
    0 < (Duration.ofSeconds 1).nanos ∧ (calls.Pairwise fun c c' => c.stats.Le c'.stats) ∧
      r.samples.iops.length = 2 ∧ (∃ h : 1 < done.length, 2000000000 ≤ done[1].now.nanos) ∧
      ((increments .iterations .zero done).map UInt64.toNat).sum = 5 ∧
      (r.reportAt .zero ⟨3999999999⟩).1 = none := by
  intro call calls r done
  have hpos : 0 < (Duration.ofSeconds 1).nanos := by decide
  have hle {t t' : Int} {i i' b b' : UInt64} (hi : i.toNat ≤ i'.toNat) (hb : b.toNat ≤ b'.toNat) :
      (call t i b).stats.Le (call t' i' b').stats := by
    intro x
    cases x with
    | iterations => exact hi
    | bytesWritten => exact hb
    | _ => exact Nat.le_refl 0
  have hgrow : calls.Pairwise fun c c' => c.stats.Le c'.stats := by
    simp only [calls, List.pairwise_cons, List.forall_mem_cons, List.Pairwise.nil,
      List.not_mem_nil, false_imp_iff, implies_true, and_true]
    exact ⟨⟨hle (by decide) (by decide), hle (by decide) (by decide), hle (by decide) (by decide)⟩,
      ⟨hle (by decide) (by decide), hle (by decide) (by decide)⟩, hle (by decide) (by decide)⟩
  obtain ⟨hanswer, hspaced, hiops, -, -, -, hseen, hsum⟩ := reports_add_up hpos 16 ⟨0⟩ hgrow
  have htwo : done.length = 2 := by decide +kernel
  have hlast : r.lastStats.iterations = 5 := by
    rw [hseen]
    decide +kernel
  have hone : 1 < done.length := by omega
  refine ⟨hpos, hgrow, hiops.trans htwo, ⟨hone, hspaced 1 hone⟩, (hsum .iterations).trans ?_, ?_⟩
  · show r.lastStats.iterations.toNat = 5
    rw [hlast]
    rfl
  · have hearly : ¬ (lastTime ⟨0⟩ done).nanos + (Duration.ofSeconds 1).nanos ≤ 3999999999 := by
      decide +kernel
    rw [(hanswer _ _).1, if_neg hearly]

end Readback.Reporter
