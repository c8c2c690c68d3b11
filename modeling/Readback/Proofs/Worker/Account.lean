import Mathlib.Algebra.Order.BigOperators.Group.List
import Mathlib.Algebra.Order.Ring.Nat
import Readback.Proofs.Except
import Readback.Proofs.RangeLock.Coverage
import Readback.Proofs.Worker.Act
import Readback.Proofs.Worker.Safety

namespace Readback

variable {x : Counter}

def Stats.gain (x : Counter) (additions : List (Counter × UInt64)) : Nat :=
  (additions.map fun (c, v) => if c = x then v.toNat else 0).sum

namespace Record

variable {r : Record} {failed : Bool}

def adds (r : Record) (failed : Bool) : Counter → Nat
  | .iterations => 1
  | .blocksTouched => r.blocks
  | .bytesWritten => r.bytesWritten
  | .verified => r.verified
  | .verifiedDuplicate => r.verifiedDuplicate
  | .verifiedTrimmed => r.verifiedTrimmed
  | .covered => r.newlyCovered
  | .readErrors => r.readErrors
  | .writeErrors => r.writeErrors
  | .mismatches => r.mismatches
  | .failedIterations => failed.toNat

theorem gain_filter (additions : List (Counter × UInt64)) :
    Stats.gain x (additions.filter (·.2 ≠ 0)) = Stats.gain x additions := by
  induction additions with
  | nil => rfl
  | cons p rest ih =>
    obtain ⟨c, v⟩ := p
    by_cases hv : v = 0
    · subst hv
      simpa [Stats.gain] using ih
    · simpa [Stats.gain, hv] using ih

theorem gain_additions (h : ∀ x, r.adds failed x < Word.limit) :
    Stats.gain x (r.seen ++ closing failed) = r.adds failed x := by
  have hexact (x : Counter) : (r.adds failed x).toUInt64.toNat = r.adds failed x :=
    UInt64.toNat_ofNat_of_lt' (h x)
  have happend : Stats.gain x (r.seen ++ closing failed) =
      Stats.gain x r.amounts + Stats.gain x (closing failed) := by
    rw [Stats.gain, List.map_append, List.sum_append]
    exact congrArg (· + _) (gain_filter r.amounts)
  have hx := hexact x
  rw [happend]
  cases x <;> cases failed <;> simp_all [Stats.gain, amounts, closing, adds]

end Record

namespace Completed

variable {g : Geometry} {maxBlocks : Nat} {c : Completed}

def blocks (c : Completed) : Nat :=
  c.batch.range.stop - c.batch.range.start

/-- The range could not be read or written, or a block came back other than it was written. -/
def failed (c : Completed) : Bool :=
  c.batch.outcome.readError.isSome || !c.written || !c.batch.outcome.mismatches.isEmpty

def record (g : Geometry) (c : Completed) : Record :=
  Worker.recordOf c.batch c.written c.blocks (c.blocks * g.blockSize) c.newly

def adds (g : Geometry) (x : Counter) (c : Completed) : Nat :=
  (c.record g).adds c.failed x

/-- The lease of an iteration was a range of the device, no longer than allowed, and its outcome
accounts for the blocks of the range. -/
structure Sound (g : Geometry) (maxBlocks : Nat) (c : Completed) : Prop where
  pos : 0 < c.blocks
  short : c.blocks ≤ maxBlocks
  stop : c.batch.range.stop ≤ g.nBlocks
  verified : ∀ b ∈ c.batch.outcome.verifiedBlocks, b ∈ c.batch.range.blocks
  outcome : c.batch.outcome.Accounts c.batch.range
  newly : c.newly ≤ c.batch.outcome.verified

theorem failed_iff (g : Geometry) (c : Completed) :
    c.failed = true ↔
      0 < c.adds g .readErrors + c.adds g .writeErrors + c.adds g .mismatches := by
  have hread : c.adds g .readErrors = if c.batch.outcome.readError.isSome then 1 else 0 := rfl
  have hwrite : c.adds g .writeErrors = if c.written then 0 else 1 := rfl
  have hmismatch : c.adds g .mismatches = c.batch.outcome.mismatches.length := rfl
  rw [hread, hwrite, hmismatch, failed]
  cases c.batch.outcome.readError.isSome <;> cases c.written <;>
    cases c.batch.outcome.mismatches <;> simp

theorem failed_eq {failed : Bool} (h : (c.record g).failed = .ok failed) : failed = c.failed := by
  rw [Bool.eq_iff_iff, failed_iff g, Record.failed_iff h]
  rfl

theorem adds_failed_le_one (g : Geometry) (c : Completed) :
    c.adds g .failedIterations ≤ 1 :=
  Bool.toNat_le c.failed

theorem adds_failed_le (g : Geometry) (c : Completed) :
    c.adds g .failedIterations ≤
      c.adds g .readErrors + c.adds g .writeErrors + c.adds g .mismatches := by
  cases hf : c.failed with
  | false => exact Nat.le_trans (Nat.le_of_eq (congrArg Bool.toNat hf)) (Nat.zero_le _)
  | true => exact Nat.le_trans (adds_failed_le_one g c) ((failed_iff g c).mp hf)

theorem Sound.adds_lt (h : c.Sound g maxBlocks) (hg : g.nBlocks * g.blockSize < Word.limit)
    (hb : 0 < g.blockSize) (x : Counter) : c.adds g x < Word.limit := by
  have hblocks : c.blocks ≤ g.nBlocks := Nat.le_trans (Nat.sub_le _ _) h.stop
  have hbytes : c.blocks * g.blockSize < Word.limit :=
    Nat.lt_of_le_of_lt (Nat.mul_le_mul_right _ hblocks) hg
  have hlt : c.blocks < Word.limit := Nat.lt_of_le_of_lt (Nat.le_mul_of_pos_right _ hb) hbytes
  have hkinds := h.outcome.kinds
  have hcompared : c.batch.outcome.verified + c.batch.outcome.mismatches.length ≤ c.blocks :=
    h.outcome.compared
  have hnewly := h.newly
  have hone : 1 < Word.limit := by decide
  cases x with
  | iterations => exact hone
  | blocksTouched => exact hlt
  | bytesWritten =>
    show (if c.written then c.blocks * g.blockSize else 0) < Word.limit
    split <;> omega
  | verified =>
    show c.batch.outcome.verified < Word.limit
    omega
  | verifiedDuplicate =>
    show c.batch.outcome.verifiedDuplicate < Word.limit
    omega
  | verifiedTrimmed =>
    show c.batch.outcome.verifiedTrimmed < Word.limit
    omega
  | covered =>
    show c.newly < Word.limit
    omega
  | readErrors =>
    show (if c.batch.outcome.readError.isSome then 1 else 0) < Word.limit
    split <;> omega
  | writeErrors =>
    show (if c.written then 0 else 1) < Word.limit
    split <;> omega
  | mismatches =>
    show c.batch.outcome.mismatches.length < Word.limit
    omega
  | failedIterations => exact Nat.lt_of_le_of_lt (adds_failed_le_one g c) hone

end Completed

namespace Completed

variable {g : Geometry} {maxBlocks : Nat} {done : List Completed}

def total (g : Geometry) (x : Counter) (done : List Completed) : Nat :=
  (done.map (Completed.adds g x)).sum

def matched (done : List Completed) : Finset Nat :=
  (done.flatMap fun c => c.batch.outcome.verifiedBlocks).toFinset

theorem total_concat (g : Geometry) (x : Counter) (done : List Completed) (c : Completed) :
    total g x (done ++ [c]) = total g x done + c.adds g x := by
  rw [total, List.map_append, List.sum_append]
  rfl

theorem matched_concat (done : List Completed) (c : Completed) :
    matched (done ++ [c]) = matched done ∪ c.batch.outcome.verifiedBlocks.toFinset := by
  rw [matched, List.flatMap_append, List.toFinset_append, List.flatMap_cons, List.flatMap_nil,
    List.append_nil, matched]

theorem total_iterations (g : Geometry) (done : List Completed) :
    total g .iterations done = done.length := by
  induction done with
  | nil => rfl
  | cons c rest ih => exact (congrArg (1 + ·) ih).trans (Nat.add_comm _ _)

theorem total_bytesWritten (g : Geometry) (done : List Completed) :
    total g .bytesWritten done =
      g.blockSize * ((done.filter Completed.written).map Completed.blocks).sum := by
  induction done with
  | nil => rfl
  | cons c rest ih =>
    have hcons : total g .bytesWritten (c :: rest) =
        (if c.written then c.blocks * g.blockSize else 0) + total g .bytesWritten rest := rfl
    rw [hcons, ih]
    cases hw : c.written with
    | false =>
      rw [List.filter_cons_of_neg (by rw [hw]; nofun), if_neg Bool.false_ne_true, Nat.zero_add]
    | true =>
      rw [List.filter_cons_of_pos hw, List.map_cons, List.sum_cons, Nat.mul_add, if_pos rfl,
        Nat.mul_comm]

theorem total_failedIterations (g : Geometry) (done : List Completed) :
    total g .failedIterations done = done.countP Completed.failed := by
  induction done with
  | nil => rfl
  | cons c rest ih =>
    have hcons : total g .failedIterations (c :: rest) =
        c.failed.toNat + total g .failedIterations rest := rfl
    rw [hcons, ih, List.countP_cons, Nat.add_comm]
    cases c.failed <;> rfl

theorem total_failed_le (g : Geometry) (done : List Completed) :
    total g .failedIterations done ≤
      total g .readErrors done + total g .writeErrors done + total g .mismatches done := by
  simp only [total, ← List.sum_map_add]
  exact List.sum_le_sum fun c _ => adds_failed_le g c

theorem total_failed_eq_zero (g : Geometry) (done : List Completed) :
    total g .failedIterations done = 0 ↔
      total g .readErrors done + total g .writeErrors done + total g .mismatches done = 0 := by
  refine ⟨fun h => ?_, fun h => Nat.le_zero.mp (h ▸ total_failed_le g done)⟩
  rw [total_failedIterations, List.countP_eq_zero] at h
  simp only [total, ← List.sum_map_add]
  apply List.sum_eq_zero
  simp only [List.forall_mem_map]
  exact fun c hc => Nat.eq_zero_of_not_pos fun hpos => h c hc ((failed_iff g c).mpr hpos)

theorem total_mismatches_eq_zero (g : Geometry) (done : List Completed) :
    total g .mismatches done = 0 ↔ ∀ c ∈ done, c.batch.outcome.mismatches = [] := by
  rw [total, List.sum_eq_zero_iff]
  simp only [List.forall_mem_map]
  exact forall₂_congr fun c _ => List.length_eq_zero_iff

variable (h : ∀ c ∈ done, c.Sound g maxBlocks)

include h

theorem total_iterations_le : total g .iterations done ≤ total g .blocksTouched done :=
  List.sum_le_sum fun c hc => (h c hc).pos

theorem total_blocks_le : total g .blocksTouched done ≤ done.length * maxBlocks := by
  have hle := List.sum_le_card_nsmul (done.map (Completed.adds g .blocksTouched)) maxBlocks
    (List.forall_mem_map.mpr fun c hc => (h c hc).short)
  rwa [List.length_map, Nat.nsmul_eq_mul] at hle

theorem total_kinds_le : total g .verifiedDuplicate done + total g .verifiedTrimmed done ≤
    total g .verified done := by
  simp only [total, ← List.sum_map_add]
  exact List.sum_le_sum fun c hc => (h c hc).outcome.kinds

theorem total_compared_le : total g .verified done + total g .mismatches done ≤
    total g .blocksTouched done := by
  simp only [total, ← List.sum_map_add]
  exact List.sum_le_sum fun c hc => (h c hc).outcome.compared

theorem total_covered_le : total g .covered done ≤ total g .verified done :=
  List.sum_le_sum fun c hc => (h c hc).newly

theorem card_matched_le : (matched done).card ≤ g.nBlocks := by
  have hsub : matched done ⊆ Finset.range g.nBlocks := by
    intro b hb
    obtain ⟨c, hc, hb⟩ := List.mem_flatMap.mp (List.mem_toFinset.mp hb)
    have hrange := BlockRange.mem_blocks.mp ((h c hc).verified b hb)
    exact Finset.mem_range.mpr (Nat.lt_of_lt_of_le hrange.2 (h c hc).stop)
  exact (Finset.card_le_card hsub).trans_eq (Finset.card_range _)

end Completed

/-- How counters account for the iterations that were completed. -/
structure Stats.Accounts (s : Stats) (g : Geometry) (maxBlocks : Nat) (done : List Completed) :
    Prop where
  iterations : s.iterations.toNat = done.length
  blocksTouched : s.blocksTouched.toNat = (done.map Completed.blocks).sum
  iterations_le : s.iterations.toNat ≤ s.blocksTouched.toNat
  blocksTouched_le : s.blocksTouched.toNat ≤ s.iterations.toNat * min maxBlocks g.nBlocks
  bytesWritten : s.bytesWritten.toNat =
    g.blockSize * ((done.filter Completed.written).map Completed.blocks).sum
  kinds : s.verifiedDuplicate.toNat + s.verifiedTrimmed.toNat ≤ s.verified.toNat
  compared : s.verified.toNat + s.mismatches.toNat ≤ s.blocksTouched.toNat
  covered : s.covered.toNat = (Completed.matched done).card
  covered_le : s.covered.toNat ≤ min g.nBlocks s.verified.toNat
  failedIterations : s.failedIterations.toNat = done.countP Completed.failed
  failed_le_iterations : s.failedIterations.toNat ≤ s.iterations.toNat
  failed_le_errors : s.failedIterations.toNat ≤
    s.readErrors.toNat + s.writeErrors.toNat + s.mismatches.toNat
  failed_eq_zero : s.failedIterations = 0 ↔
    s.readErrors = 0 ∧ s.writeErrors = 0 ∧ s.mismatches = 0
  mismatches_eq_zero : s.mismatches = 0 ↔ ∀ c ∈ done, c.batch.outcome.mismatches = []

theorem Stats.accounts_of_total {s : Stats} {g : Geometry} {maxBlocks : Nat}
    {done : List Completed} (h : ∀ x, (s.get x).toNat = Completed.total g x done)
    (hsound : ∀ c ∈ done, c.Sound g (min maxBlocks g.nBlocks))
    (hcovered : Completed.total g .covered done = (Completed.matched done).card) :
    s.Accounts g maxBlocks done := by
  have hiterations : s.iterations.toNat = done.length :=
    (h .iterations).trans (Completed.total_iterations g done)
  have hfailed : s.failedIterations.toNat = done.countP Completed.failed :=
    (h .failedIterations).trans (Completed.total_failedIterations g done)
  have hcount : s.covered.toNat = (Completed.matched done).card := (h .covered).trans hcovered
  have hverified : s.covered.toNat ≤ s.verified.toNat := by
    simpa only [← h, Stats.get] using Completed.total_covered_le hsound
  have hzero : s.failedIterations.toNat = 0 ↔
      s.readErrors.toNat + s.writeErrors.toNat + s.mismatches.toNat = 0 := by
    simpa only [← h, Stats.get] using Completed.total_failed_eq_zero g done
  refine ⟨hiterations, h .blocksTouched, ?_, ?_, ?_, ?_, ?_, hcount, ?_, hfailed, ?_, ?_, ?_, ?_⟩
  · simpa only [← h, Stats.get] using Completed.total_iterations_le hsound
  · rw [hiterations]
    simpa only [← h, Stats.get] using Completed.total_blocks_le hsound
  · exact (h .bytesWritten).trans (Completed.total_bytesWritten g done)
  · simpa only [← h, Stats.get] using Completed.total_kinds_le hsound
  · simpa only [← h, Stats.get] using Completed.total_compared_le hsound
  · exact le_min (hcount ▸ Completed.card_matched_le hsound) hverified
  · rw [hfailed, hiterations]
    exact List.countP_le_length
  · simpa only [← h, Stats.get] using Completed.total_failed_le g done
  · simp only [← UInt64.toNat_inj, UInt64.toNat_zero, hzero, Nat.add_eq_zero_iff, and_assoc]
  · rw [← UInt64.toNat_inj, ← Completed.total_mismatches_eq_zero g, ← h]
    rfl

def Phase.additions : Phase → List (Counter × UInt64)
  | .recording c v rest => (c, v) :: rest
  | _ => []

theorem Phase.Handles.maxBlocks {k k' : RangeLock} {p p' : Phase} (h : Phase.Handles k p p' k') :
    k'.maxBlocks = k.maxBlocks := by
  cases h with
  | keep hk hl => rw [hk]
  | grant hp hg hl => rw [hg.after]
  | release hp h hr hl => exact (RangeLock.release_table h).1

theorem Phase.Handles.table {k k' : RangeLock} {p p' : Phase} (h : Phase.Handles k p p' k')
    (hp : ∀ b written, p ≠ .releasing b written) : k'.table = k.table := by
  cases h with
  | keep hk hl => rw [hk]
  | grant hp' hg hl => rw [hg.after]
  | release hp' h hr hl => exact absurd hp' (hp _ _)

namespace Worker

variable {σ : Type} {dev : Device σ} {j : Job} {now : Instant} {w : Worker} {s : Shared} {d : σ}
  {t : Turn σ}

theorem recordNext_additions (additions : List (Counter × UInt64)) :
    (recordNext additions).additions = additions := by
  cases additions <;> rfl

theorem discardNext_additions (b : Batch) (runs : List BlockRange) :
    (discardNext b runs).additions = [] := by
  cases runs <;> rfl

theorem Prepared.additions {l : Lease} {o : Outcome} (h : Prepared j w s d l o t) :
    t.worker.phase.additions = [] := by
  cases h <;> rfl

theorem additions_eq_nil (h : w.phase = .acquiring ∨ ∃ l, w.phase.lease? = some l) :
    w.phase.additions = [] := by
  rcases h with hp | ⟨l, hl⟩
  · rw [hp]
    rfl
  · cases hp : w.phase with
    | recording c v rest =>
      rw [hp] at hl
      cases hl
    | _ => rfl

theorem additions_of_ended (h : w.ended = true) : w.phase.additions = [] := by
  rcases phase_of_ended h with ⟨result, hp⟩ | ⟨f, hp⟩ <;> rw [hp] <;> rfl

/-- Unless a lease is released, a worker has left to add what it had, less what it adds. -/
theorem Transition.gain (h : Transition dev j now w s d t)
    (hr : ∀ b written, w.phase ≠ .releasing b written) (x : Counter) :
    w.phase.adding x + Stats.gain x t.worker.phase.additions =
      Stats.gain x w.phase.additions := by
  have none {p : Phase} (hp : w.phase = p) (ha : p.adding x = 0) (hadds : p.additions = [])
      (ht : t.worker.phase.additions = []) : w.phase.adding x + Stats.gain x
        t.worker.phase.additions = Stats.gain x w.phase.additions := by
    rw [hp, ha, hadds, ht]
    rfl
  cases h with
  | @record c v rest hp =>
    rw [hp]
    show _ + Stats.gain x (recordNext rest).additions = Stats.gain x ((c, v) :: rest)
    rw [recordNext_additions]
    rfl
  | release hp h hr' hn hf => exact absurd hp (hr _ _)
  | crashRecorded hp h hf => exact absurd hp (hr _ _)
  | grantUnwritten hp h hu hn ht => exact none hp rfl rfl ht.additions
  | unread hp hr' h ht => exact none hp rfl rfl ht.additions
  | compare hp hr' h ho ht => exact none hp rfl rfl ht.additions
  | write hp hr' h => exact none hp rfl rfl (discardNext_additions _ _)
  | discard hp hr' h => exact none hp rfl rfl (discardNext_additions _ _)
  | retry hp h => exact none hp rfl rfl (additions_eq_nil (.inl hp))
  | idle hp => exact none rfl (adding_of_ended x hp) (additions_of_ended hp) (additions_of_ended hp)
  | crash hd hf => exact none rfl (adding_eq_zero x hf.busy) (additions_eq_nil hf.busy) rfl
  | _ => exact none (by assumption) rfl rfl rfl

end Worker

end Readback
