import Readback.Proofs.Run.Account
import Readback.Proofs.Run.Overshoot
import Readback.Proofs.Worker.Bounds

namespace Readback.Run

variable {σ : Type} {dev : Device σ} {r : Run σ} {now : Instant} {i k : Nat} {w v : Worker}
  {t : Worker.Turn σ} {size blockSize maxBlocks : Nat} {calls : List RangeLock.Call}

/-- A run whose workers have done nothing yet, with a lock that was in use before, on a device of
`size` bytes.  The configuration need not be one that a run starts with. -/
structure Poised (size blockSize maxBlocks : Nat) (calls : List RangeLock.Call) (r : Run σ) :
    Prop where
  limit : size < Word.limit
  geometry : Geometry.make size blockSize = .ok r.job.geometry
  content : r.job.content.blockSize = blockSize
  lock : ∃ k, RangeLock.make r.job.geometry.nBlocks maxBlocks = .ok k ∧
    r.shared.lock = ((RangeLock.History.new k).play calls).lock
  proper : ∀ c ∈ calls, c.Proper
  polling : ∀ w ∈ r.workers.toList, w.phase = .polling

/-- What keeps the workers of a run going: they have what they need, none gave up, and what they
found out about their leases is no more than there is. -/
structure Steady (dev : Device σ) (r : Run σ) : Prop where
  regular : r.Regular
  size : r.job.geometry.nBlocks * r.job.geometry.blockSize ≤ r.job.geometry.devSize
  limit : r.job.geometry.devSize < Word.limit
  counted : r.shared.lock.Counted
  closes : r.Closes
  calm : ∀ {k : Nat} {v : Worker}, r.workers[k]? = some v → v.phase.Calm dev.Excuses
  outcomes : ∀ {k : Nat} {v : Worker}, r.workers[k]? = some v → ∀ b, v.phase.batch? = some b →
    b.outcome.Bounded r.job.content.blockSize b.range.blocks.length

theorem Poised.polling_of (h : r.Poised size blockSize maxBlocks calls)
    (hv : r.workers[k]? = some v) : v.phase = .polling := by
  rw [← Array.getElem?_toList] at hv
  exact h.polling v (List.mem_of_getElem? hv)

theorem Poised.regular (h : r.Poised size blockSize maxBlocks calls) : r.Regular := by
  obtain ⟨he, hpos, -, hmax⟩ := Geometry.make_ok h.geometry
  obtain ⟨k, hk, hlock⟩ := h.lock
  have hnew := RangeLock.History.sound_new hk
  have hs := hnew.play h.proper
  have hb : r.job.content.blockSize = r.job.geometry.blockSize := by
    rw [h.content, he]
  have hnone {k : Nat} {l : Lease} : ¬ r.Has k l := by
    rintro ⟨v, hv, hl⟩
    rw [h.polling_of hv] at hl
    cases hl
  have hsmall : r.job.content.blockSize < Bytes.limit := by
    rw [hb]
    exact Nat.lt_of_le_of_lt hmax (by decide)
  refine ⟨⟨⟨hb, hsmall, hpos⟩, hlock ▸ hs.lock, ?_, fun hv => ?_, fun hl => absurd hl hnone,
    fun hl => absurd hl hnone, fun hl => absurd hl hnone⟩, ?_, fun hv b hbatch => ?_⟩
  · rw [hlock, hnew.play_nBlocks h.proper]
    exact (RangeLock.sound_of_make hk).2.1
  · rw [h.polling_of hv]
    trivial
  · exact Nat.lt_of_le_of_lt (Geometry.nBlocks_mul_le h.geometry) h.limit
  · rw [h.polling_of hv] at hbatch
    cases hbatch

theorem Poised.steady (h : r.Poised size blockSize maxBlocks calls) : r.Steady dev := by
  obtain ⟨he, -, -, -⟩ := Geometry.make_ok h.geometry
  obtain ⟨k, hk, hlock⟩ := h.lock
  refine ⟨h.regular, ?_, ?_, ?_, fun hv => ?_, fun hv => ?_, fun hv b hb => ?_⟩
  · rw [he]
    exact Nat.div_mul_le_self _ _
  · rw [he]
    exact h.limit
  · rw [hlock]
    exact (RangeLock.counted_of_make hk).play (RangeLock.History.shaped_new hk) calls
  · rw [h.polling_of hv]
    trivial
  · rw [h.polling_of hv]
    trivial
  · rw [h.polling_of hv] at hb
    cases hb

theorem Steady.prior (h : r.Steady dev) {l : Lease} (hl : r.Has k l) :
    l.prior.length = l.range.blocks.length := by
  rw [h.regular.custody.prior hl, RangeLock.priorOf, List.length_map]

theorem Steady.after (h : r.Steady dev) (hw : r.workers[i]? = some w)
    (ht : w.Transition dev r.job now r.shared r.device t) : (r.after i w t).Steady dev := by
  refine ⟨h.regular.after hw ht, h.size, h.limit, ?_, fun hv => ?_, fun hv => ?_,
    fun hv b hb => ?_⟩
  · cases h.regular.custody.handles hw ht with
    | keep hk hl => exact hk ▸ h.counted
    | grant hp hg hl => exact h.counted.entered hg.entered
    | release hp he hr hl => exact h.counted.release h.regular.custody.lock.shaped he
  · rcases worker_after hw hv with ⟨rfl, rfl⟩ | ⟨-, hv⟩
    · exact ht.closes (h.closes hw)
    · exact h.closes hv
  · rcases worker_after hw hv with ⟨rfl, rfl⟩ | ⟨-, hv⟩
    · exact h.regular.calm hw ht (h.calm hw)
    · exact h.calm hv
  · rcases worker_after hw hv with ⟨rfl, rfl⟩ | ⟨-, hv⟩
    · rcases ht.batch hb with hb | hb
      · exact h.outcomes hw b hb
      · exact hb.found.bounded h.regular.custody.job.blockSize
          fun hp => h.prior ⟨w, hw, by rw [hp]; rfl⟩
    · exact h.outcomes hv b hb

theorem Steady.play (h : r.Steady dev) (moves : List Move) : (r.play dev moves).Steady dev :=
  play_induction (fun h hw ht => h.after hw ht)
    (fun h => ⟨h.regular.interrupt, h.size, h.limit, h.counted, h.closes, h.calm, h.outcomes⟩) h
    moves

theorem Steady.reaches (h : r.Steady dev) {a : BlockRange} (ha : a.start < a.stop)
    (hstop : a.stop ≤ r.job.geometry.nBlocks) : r.job.geometry.Reaches a :=
  Geometry.reaches h.size h.limit ha hstop

theorem Steady.reaches_granted (h : r.Steady dev) {moves : List Move} {l : Lease}
    (hl : (k, .granted l) ∈ r.trace dev moves) : r.job.geometry.Reaches l.range := by
  obtain ⟨pre, post, hsplit⟩ := List.append_of_mem hl
  obtain ⟨before, m, after, rfl, -, hact⟩ := exists_move_of_trace hsplit
  obtain ⟨now, w, rfl, hw, hdoes⟩ := exists_of_act? hact
  have hr := h.play before
  have hjob := play_job r dev before
  cases hdoes with
  | grant hp hg =>
    obtain ⟨hlt, hstop⟩ := hr.regular.fits_granted hg
    exact hjob ▸ hr.reaches hlt hstop

theorem Steady.lease (h : r.Steady dev) (hw : r.workers[i]? = some w) {l : Lease}
    (hl : w.phase.lease? = some l) : l.Bounded r.job.geometry := by
  obtain ⟨hlt, hstop⟩ := h.regular.fits hw hl
  refine ⟨h.reaches hlt hstop, h.prior ⟨w, hw, hl⟩, fun offset n hr i hi => ?_⟩
  rw [(Geometry.rangeBytes_eq hr).2.1]
  rw [BlockRange.length_blocks] at hi
  exact Nat.mul_le_mul_right _ hi

theorem Steady.batch (h : r.Steady dev) (hw : r.workers[i]? = some w) {b : Batch}
    (hb : w.phase.batch? = some b) : b.Bounded r.job := by
  obtain ⟨hl, hcomposed⟩ := Phase.composed_of_batch? hb (h.regular.custody.formed hw)
  obtain ⟨hlt, hstop⟩ := h.regular.fits hw hl
  exact hcomposed.bounded h.regular.custody.job.blockSize
    (fun a ha hle => h.reaches ha (Nat.le_trans hle hstop)) hlt (h.outcomes hw b hb)

theorem Steady.release (h : r.Steady dev) (hw : r.workers[i]? = some w) {b : Batch} {written : Bool}
    (hp : w.phase = .releasing b written) :
    ∃ newly lock, r.shared.lock.release b.lease (Worker.newStates b written)
        b.outcome.verifiedBlocks = .ok (newly, lock) ∧
      ((Completed.mk b written newly).record r.job.geometry).failed =
        .ok (Completed.mk b written newly).failed ∧
      ∀ x, (Completed.mk b written newly).adds r.job.geometry x < Word.limit := by
  obtain ⟨newly, lock, he⟩ := h.regular.custody.exists_release hw hp
  obtain ⟨failed, hf⟩ := h.regular.exists_failed hw hp (b.range.stop - b.range.start)
    ((b.range.stop - b.range.start) * r.job.geometry.blockSize) newly
  obtain rfl := Completed.failed_eq (c := ⟨b, written, newly⟩) hf
  refine ⟨newly, lock, he, hf, ?_⟩
  obtain ⟨hlt, hstop⟩ := h.regular.fits hw (l := b.lease) (by rw [hp]; rfl)
  have hformed := h.regular.custody.formed hw
  rw [hp] at hformed
  have haccounts := h.regular.accounted hw b (by rw [hp]; rfl)
  obtain ⟨S, -, hS⟩ := h.counted
  have hnewly : newly ≤ b.outcome.verified := by
    rw [haccounts.verified]
    exact RangeLock.newly_le he hS
  have hsound : (Completed.mk b written newly).Sound r.job.geometry
      (b.range.stop - b.range.start) :=
    ⟨Nat.sub_pos_of_lt hlt, Nat.le_refl _, hstop, hformed.verified, haccounts, hnewly⟩
  exact hsound.adds_lt h.regular.room h.regular.custody.blockSize_pos

theorem iterations_move_le (hc : r.Closes) (dev : Device σ) (m : Move) :
    (r.move dev m).shared.stats.iterations.toNat ≤ r.shared.stats.iterations.toNat + 1 := by
  cases m with
  | interrupt => exact Nat.le_succ _
  | step i now =>
    apply step_induction (P := fun s => s.shared.stats.iterations.toNat ≤ _) (Nat.le_succ _)
    intro w hw t ht _
    have hadds := ht.get_stats .iterations
    have hone : w.phase.adding .iterations ≤ 1 := by
      rw [(hc hw).adding]
      exact w.phase.counting_le_one
    have hle : (UInt64.ofNat (w.phase.adding .iterations)).toNat ≤ 1 :=
      Nat.le_trans (Nat.mod_le _ _) hone
    show (t.shared.stats.get .iterations).toNat ≤ _
    rw [hadds, UInt64.toNat_add]
    exact Nat.le_trans (Nat.mod_le _ _) (Nat.add_le_add_left hle _)

theorem iterations_le (hc : r.Closes) (dev : Device σ) (moves : List Move) :
    (r.play dev moves).shared.stats.iterations.toNat ≤
      r.shared.stats.iterations.toNat + moves.length := by
  induction moves generalizing r with
  | nil => exact Nat.le_refl _
  | cons m rest ih =>
    have hm := iterations_move_le hc dev m
    have hnext : (r.move dev m).Closes := hc.move m
    have hrest := ih hnext
    rw [List.length_cons]
    exact Nat.le_trans hrest (by omega)

theorem Closes.adds_one (hc : r.Closes) (hw : r.workers[i]? = some w) {v : UInt64}
    {rest : List (Counter × UInt64)} (hp : w.phase = .recording .iterations v rest) : v = 1 := by
  have hadding := (hc hw).adding
  rw [hp] at hadding
  exact UInt64.toNat_inj.mp hadding

/-- Workers never trip over the program itself, and never go out of bounds.  They start with a lock
that was in use before, on a device of any size, and with any configuration, and the device answers
as it likes but does not give way.  The leases granted reach no further than the device, with a
state and room in a buffer for each block.  Batches are as long as the lease, chunk by chunk as long
as content is made, and their runs of trimmed blocks are parts of the lease.  Leases are taken back,
and what an iteration adds to a counter fits in a word.  The count of the iterations itself fits as
long as those so far, one for each move and one more come to less than a word can hold. -/
theorem stays_in_bounds (h : r.Poised size blockSize maxBlocks calls)
    (hdev : ∀ q d f d', dev.answer q d ≠ (.error (.fault f), d')) (moves : List Move) :
    let r' := r.play dev moves
    (∀ k l, (k, .granted l) ∈ r.trace dev moves → r.job.geometry.Reaches l.range) ∧
    r'.shared.lock.covered ≤ r'.shared.lock.nBlocks ∧
    ∀ (i : Nat) (w : Worker), r'.workers[i]? = some w →
      (∀ f, w.phase = .crashed f → f = .exhausted) ∧
      (∀ e, w.phase ≠ .stopped (.error e)) ∧
      (∀ l, w.phase.lease? = some l → l.Bounded r.job.geometry) ∧
      (∀ b, w.phase.batch? = some b → b.Bounded r.job) ∧
      (∀ b written, w.phase = .releasing b written →
        ∃ newly lock, r'.shared.lock.release b.lease (Worker.newStates b written)
            b.outcome.verifiedBlocks = .ok (newly, lock) ∧
          ((Completed.mk b written newly).record r.job.geometry).failed =
            .ok (Completed.mk b written newly).failed ∧
          ∀ x, (Completed.mk b written newly).adds r.job.geometry x < Word.limit) ∧
      ∀ n rest, w.phase = .recording .iterations n rest →
        r.shared.stats.iterations.toNat + moves.length + 1 < Word.limit →
        Word.add r'.shared.stats.iterations.toNat n.toNat =
          .ok (r'.shared.stats.iterations.toNat + 1) := by
  intro r'
  have hsteady : r'.Steady dev := h.steady.play moves
  have hjob : r'.job = r.job := play_job r dev moves
  have hnever (f : Fault) (hf : dev.Excuses f) : f = .exhausted := by
    rcases hf with hf | ⟨q, d, d', hf⟩
    · exact hf
    · exact absurd hf (hdev q d f d')
  refine ⟨fun k l hl => h.steady.reaches_granted hl, hsteady.counted.covered_le,
    fun i w hw => ⟨fun f hp => ?_, fun e hp => ?_, fun l hl => ?_,
    fun b hb => ?_, fun b written hp => ?_, fun n rest hp hlimit => ?_⟩⟩
  · have hcalm := hsteady.calm hw
    rw [hp] at hcalm
    exact hnever f hcalm
  · have hcalm := hsteady.calm hw
    rw [hp] at hcalm
    obtain ⟨samples, he⟩ := hcalm
    cases he
  · exact hjob ▸ hsteady.lease hw hl
  · exact hjob ▸ hsteady.batch hw hb
  · exact hjob ▸ hsteady.release hw hp
  · obtain rfl := Closes.adds_one hsteady.closes hw hp
    have hstart : r.Steady dev := h.steady
    have hle := iterations_le hstart.closes dev moves
    exact Word.add_of_lt (Nat.lt_of_le_of_lt (Nat.succ_le_succ hle) hlimit)

/-- A worker beside a lease of somebody else, with more than a hundred percent of trimmed blocks. -/
theorem stays_in_bounds_beside_lease :
    let c : Config := { Config.standard with uniquePct := 0, trimPct := 255 }
    let j : Job := ⟨c, ⟨2048, 512, 4⟩, ⟨512, 0, .hash, by decide⟩, ⟨none, none, none, false⟩, ⟨0⟩⟩
    let k : RangeLock := ⟨4, 2, [], ⟨#[none, none, none, none], #[0], 0⟩, by decide, by decide⟩
    let w : Worker := ⟨0, .words [0, 0, 0, 0, 60], .polling, 0, false, none⟩
    let r : Run Memory := ⟨0, j, ⟨((RangeLock.History.new k).play [.claim ⟨2, 4⟩]).lock, .zero,
      .make false, false⟩, ⟨.zeroes 2048, false, false, false, false, 0, 0, 0⟩, #[w], [], []⟩
    let moves : List Move := (List.range 20).map fun (n : Nat) => .step 0 ⟨n⟩
    (r.play Memory.device moves).shared.lock.active = [⟨2, 4⟩] ∧
      (r.play Memory.device moves).shared.stats.blocksTouched = 1 ∧
      (r.play Memory.device moves).shared.lock.covered ≤
        (r.play Memory.device moves).shared.lock.nBlocks := by
  intro c j k w r moves
  have hk : RangeLock.make 4 2 = .ok k := rfl
  have h : r.Poised 2048 512 2 [.claim ⟨2, 4⟩] :=
    ⟨by decide, rfl, rfl, ⟨k, hk, rfl⟩, by simp [RangeLock.Call.Proper], by simp [r, w]⟩
  have hactive : (r.play Memory.device moves).shared.lock.active = [⟨2, 4⟩] := by decide +kernel
  have htouched : (r.play Memory.device moves).shared.stats.blocksTouched = 1 := by decide +kernel
  exact ⟨hactive, htouched, (stays_in_bounds h Memory.answer_ne_fault moves).2.1⟩

end Readback.Run
