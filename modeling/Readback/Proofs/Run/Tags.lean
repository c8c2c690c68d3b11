import Readback.Proofs.Run.Account
import Readback.Proofs.Run.Confinement
import Readback.Proofs.Worker.Tags

namespace Readback

namespace Run

variable {σ : Type} {dev : Device σ} {r : Run σ} {now : Instant} {i k : Nat} {w v : Worker}
  {t : Worker.Turn σ} {P : Tag → Prop}

/-- The tags that the percentages of a run leave room for. -/
def Draws (r : Run σ) : Tag → Prop :=
  Tag.Drawn r.job.config.uniquePct.toNat r.job.config.trimPct.toNat

/-- Nothing is known of a block, nor found out about one, but tags that `P` allows. -/
structure Tagged (P : Tag → Prop) (r : Run σ) : Prop where
  custody : r.Custody
  draws : ∀ tag, r.Draws tag → P tag
  table : ∀ b tag, r.shared.lock.table.stateAt b = some tag → P tag
  phases : ∀ {k : Nat} {v : Worker}, r.workers[k]? = some v → v.phase.Tagged P

theorem Tagged.prior (h : r.Tagged P) {l : Lease} (hl : r.Has k l) {tag : Tag}
    (htag : some tag ∈ l.prior) : P tag := by
  rw [h.custody.prior hl] at htag
  obtain ⟨b, -, hb⟩ := List.mem_map.mp htag
  exact h.table b tag hb

theorem Tagged.table_after (h : r.Tagged P) (hw : r.workers[i]? = some w)
    (ht : w.Transition dev r.job now r.shared r.device t) (b : Nat) (tag : Tag)
    (hb : t.shared.lock.table.stateAt b = some tag) : P tag := by
  cases h.custody.handles hw ht with
  | keep hk hl => exact h.table b tag (hk ▸ hb)
  | grant hp hg hl => exact h.table b tag ((hg.stateAt b).symm.trans hb)
  | @release batch written newly hp he hr hl =>
    rw [hr.stateAt] at hb
    split at hb
    · obtain ⟨htags, -⟩ := h.phases hw batch (by rw [hp]; rfl)
      rw [List.getD_eq_getElem?_getD] at hb
      cases hs : (Worker.newStates batch written)[b - batch.lease.range.start]? with
      | none =>
        rw [hs] at hb
        cases hb
      | some s =>
        rw [hs] at hb
        cases (show s = some tag from hb)
        exact htags tag (Worker.mem_tags_of_newStates (List.mem_of_getElem? hs))
    · exact h.table b tag hb

theorem Tagged.after (h : r.Tagged P) (hw : r.workers[i]? = some w)
    (ht : w.Transition dev r.job now r.shared r.device t) : (r.after i w t).Tagged P := by
  refine ⟨h.custody.after hw ht, h.draws, h.table_after hw ht, fun hv => ?_⟩
  rcases worker_after hw hv with ⟨rfl, rfl⟩ | ⟨-, hv⟩
  · exact ht.tagged h.draws (fun l hl tag htag => h.prior ⟨w, hw, hl⟩ htag) (h.phases hw)
  · exact h.phases hv

theorem Tagged.play (h : r.Tagged P) (moves : List Move) : (r.play dev moves).Tagged P :=
  play_induction (fun h hw ht => h.after hw ht)
    (fun h => ⟨h.custody.interrupt, h.draws, h.table, h.phases⟩) h moves

variable {d : σ} {c : Config} {setting : Setting} {events : List Event} {moves : List Move}

theorem Started.tagged (h : Started dev d c setting events r) : r.Tagged r.Draws := by
  obtain ⟨-, -, -, hnone⟩ := RangeLock.sound_of_make h.lock
  refine ⟨h.custody, fun _ ht => ht, fun b tag hb => ?_, fun hv b hb => ?_⟩
  · rw [hnone] at hb
    cases hb
  · rw [h.polling hv] at hb
    cases hb

/-- A discard is asked for only where a block was tagged as trimmed. -/
theorem Started.trimmed_of_discard (h : Started dev d c setting events r) {offset n : Nat}
    (hq : .discard offset n ∈ Act.calls (r.trace dev moves)) : r.Draws .trimmed := by
  obtain ⟨pre, k, post, hsplit⟩ := mem_calls hq
  obtain ⟨before, m, after, rfl, -, hact⟩ := exists_move_of_trace hsplit
  obtain ⟨now, w, rfl, hw, hdoes⟩ := exists_of_act? hact
  have hr : (r.play dev before).Tagged r.Draws := h.tagged.play before
  cases hdoes with
  | ask hq =>
    obtain ⟨l, ha⟩ := Phase.asks_of_call? hq
    cases hp : w.phase with
    | discarding b run rest =>
      have hformed := hr.custody.formed hw
      rw [hp] at hformed
      obtain ⟨hlt, htrimmed⟩ := hformed.1.mem_run (hformed.2 run List.mem_cons_self)
      have hmem := htrimmed run.start (BlockRange.mem_blocks.mpr ⟨Nat.le_refl _, hlt⟩)
      exact (hr.phases hw b (by rw [hp]; rfl)).1 .trimmed (List.of_mem_zip hmem).2
    | _ =>
      rw [hp] at ha
      cases ha

theorem Started.keeps_of_done (h : Started dev d c setting events r) {e : Completed}
    (he : e ∈ Act.done (r.trace dev moves)) : e.batch.outcome.Keeps r.Draws := by
  obtain ⟨⟨k, a⟩, ha, hc⟩ := List.mem_filterMap.mp he
  obtain ⟨pre, post, hsplit⟩ := List.append_of_mem ha
  obtain ⟨before, m, after, rfl, -, hact⟩ := exists_move_of_trace hsplit
  obtain ⟨now, w, rfl, hw, hdoes⟩ := exists_of_act? hact
  have hr : (r.play dev before).Tagged r.Draws := h.tagged.play before
  cases hdoes with
  | complete hp hrel =>
    cases hc
    exact (hr.phases hw _ (by rw [hp]; rfl)).2
  | _ => cases hc

theorem Started.get_stats_eq_zero (h : Started dev d c setting events r) (hr : r.Regular)
    (hn : r.NoWrap dev moves) {x : Counter}
    (hx : ∀ e ∈ Act.done (r.trace dev moves), e.adds r.job.geometry x = 0) :
    (r.play dev moves).shared.stats.get x = 0 := by
  have hzero : (r.shared.stats.get x).toNat = 0 := by
    rw [h.shared]
    cases x <;> rfl
  have htotal : Completed.total r.job.geometry x (Act.done (r.trace dev moves)) = 0 :=
    List.sum_eq_zero (List.forall_mem_map.mpr hx)
  have hbalance := (h.audited hr moves).balance x
  rw [play_job, htotal] at hbalance
  rw [← UInt64.toNat_inj, hn.play, hzero]
  show 0 + _ = 0
  omega

/-- The percentages of a run govern all that comes of it, whatever the device does.  The states of
blocks are of kinds that the percentages leave room for, a run without trimmed blocks discards
nothing, and, unless a counter wraps around, blocks are counted as verified under those kinds
only. -/
theorem percentages_govern (hsize : ∀ size, dev.size d = .ok size → size < Word.limit)
    (hs : start dev d c setting = (events, .ok r)) (hn : r.NoWrap dev moves) :
    let r' := r.play dev moves
    let unique := c.uniquePct.toNat
    let trim := c.trimPct.toNat
    (∀ b tag, r'.shared.lock.table.get b = .ok (some tag) → match tag with
      | .unique _ => 0 < unique
      | .duplicate => unique + trim < 100
      | .trimmed => 0 < trim) ∧
    (trim = 0 → r'.shared.stats.verifiedTrimmed = 0 ∧
      ∀ offset n, .discard offset n ∉ Act.calls (r.trace dev moves)) ∧
    (unique + trim = 100 → r'.shared.stats.verifiedDuplicate = 0) ∧
    (unique = 100 →
      r'.shared.stats.verifiedDuplicate = 0 ∧ r'.shared.stats.verifiedTrimmed = 0) ∧
    (unique = 0 → r'.ended = true → r'.shared.stats.verified.toNat =
      r'.shared.stats.verifiedDuplicate.toNat + r'.shared.stats.verifiedTrimmed.toNat) ∧
    ∀ now summary, r'.finish now = .ok summary → summary.stats = r'.shared.stats := by
  intro r' unique trim
  have h := started_of_start hs
  have hr := h.regular hsize
  have htagged : r'.Tagged r.Draws := h.tagged.play moves
  have hdraws : r.Draws = Tag.Drawn unique trim := by rw [Draws, h.config]
  have hle : unique + trim ≤ 100 := h.valid.percentages
  have hkeeps (e : Completed) (he : e ∈ Act.done (r.trace dev moves)) :
      e.batch.outcome.Keeps (Tag.Drawn unique trim) := hdraws ▸ h.keeps_of_done he
  have htrimmed (ht : trim = 0) : r'.shared.stats.verifiedTrimmed = 0 :=
    h.get_stats_eq_zero hr hn (x := .verifiedTrimmed) fun e he =>
      (hkeeps e he).trimmed (Nat.not_lt_of_ge (Nat.le_of_eq ht))
  have hduplicate (hd : unique + trim = 100) : r'.shared.stats.verifiedDuplicate = 0 :=
    h.get_stats_eq_zero hr hn (x := .verifiedDuplicate) fun e he =>
      (hkeeps e he).duplicate (Nat.not_lt_of_ge (Nat.le_of_eq hd.symm))
  refine ⟨fun b tag hb => ?_, fun ht => ⟨htrimmed ht, fun offset n hq => ?_⟩, hduplicate,
    fun hu => ?_, fun hu hend => ?_, fun now summary hf => (finished_of_finish hf).stats⟩
  · have htag := htagged.table b tag (StateTable.stateAt_of_get hb)
    rw [hdraws] at htag
    cases tag <;> exact htag
  · have hdrawn := h.trimmed_of_discard hq
    rw [hdraws] at hdrawn
    exact Nat.ne_of_gt hdrawn ht
  · exact ⟨hduplicate (by omega), htrimmed (by omega)⟩
  · have htotal (x : Counter) := h.toNat_stats (h.audited hr moves) hn hend x
    refine (htotal .verified).trans ?_
    refine Eq.trans ?_ (congrArg₂ (· + ·) (htotal .verifiedDuplicate).symm
      (htotal .verifiedTrimmed).symm)
    simp only [Completed.total, ← List.sum_map_add]
    refine congrArg List.sum (List.map_congr_left fun e he => ?_)
    exact (hkeeps e he).unique fun n => Nat.not_lt_of_ge (Nat.le_of_eq hu)

/-- Two workers that write trimmed blocks only. -/
theorem percentages_govern_of_trimmed :
    let c : Config := { Config.standard with
      blockSize := 512, workers := 2, uniquePct := 0, trimPct := 100, count := some 1 }
    let d : Memory := ⟨.zeroes 2048, false, false, false, false, 0, 0, 0⟩
    let setting : Setting := ⟨false, 0, ⟨0⟩,
      fun id => .words [0, 0, 0, if id = 0 then 0 else 0x80000000, 0]⟩
    let moves : List Move := (List.range 80).map fun n => .step (n % 2) ⟨n⟩
    ∃ events r, start Memory.device d c setting = (events, .ok r) ∧
      (r.play Memory.device moves).shared.lock.table.texts =
        ["trimmed", "-", "trimmed", "-"] ∧
      (r.play Memory.device moves).shared.stats.verifiedDuplicate = 0 ∧
      (r.play Memory.device moves).shared.stats.verified.toNat =
        (r.play Memory.device moves).shared.stats.verifiedTrimmed.toNat := by
  intro c d setting moves
  have hv : c.validate = .ok () := by decide +kernel
  have hsize : Memory.device.size d = .ok 2048 := rfl
  obtain ⟨events, r, hs, htexts, hend, hn⟩ : ∃ events r,
      start Memory.device d c setting = (events, .ok r) ∧
      (r.play Memory.device moves).shared.lock.table.texts = ["trimmed", "-", "trimmed", "-"] ∧
      (r.play Memory.device moves).ended = true ∧ r.NoWrap Memory.device moves :=
    ⟨_, _, start_eq hv hsize (by decide) (dif_pos (by decide)) (make_lock (by decide) (by decide))
      rfl rfl, by decide +kernel, by decide +kernel, fun x => by cases x <;> decide +kernel⟩
  have hlimit (size : Nat) (h : Memory.device.size d = .ok size) : size < Word.limit := by
    cases hsize.symm.trans h
    decide
  obtain ⟨-, -, hduplicate, -, hunique, -⟩ := percentages_govern hlimit hs hn
  have hzero := hduplicate rfl
  refine ⟨events, r, hs, htexts, hzero, ?_⟩
  rw [hunique rfl hend, hzero]
  exact Nat.zero_add _

end Run

end Readback
