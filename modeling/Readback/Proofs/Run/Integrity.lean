import Readback.Proofs.Device.Memory
import Readback.Proofs.Run.Finish
import Readback.Proofs.Run.Start
import Readback.Proofs.Worker.Integrity

namespace Readback.Run

variable {σ : Type} {dev : Device σ} {byte : σ → Nat → UInt8} {r : Run σ} {now : Instant}
  {i k : Nat} {w v : Worker} {t : Worker.Turn σ}

/-- The device does and answers what it may in every request of every move. -/
def Honest (dev : Device σ) (byte : σ → Nat → UInt8) : Run σ → List Move → Prop
  | _, [] => True
  | r, .interrupt :: rest => Honest dev byte r.interrupt rest
  | r, .step i now :: rest =>
    (∀ w, r.workers[i]? = some w → w.Served dev byte r.job r.device) ∧
      Honest dev byte (r.step dev now i) rest

/-- Nothing in a run tells of a mismatch, and the device holds what the table and the workers say
of it. -/
structure Intact (byte : σ → Nat → UInt8) (r : Run σ) : Prop where
  custody : r.Custody
  kept : r.shared.lock.Kept r.job.content r.job.geometry (byte r.device)
  phases : ∀ {k : Nat} {v : Worker}, r.workers[k]? = some v →
    v.phase.Clean r.job.content r.job.geometry (byte r.device)
  mismatches : r.shared.stats.mismatches = 0
  reason : r.shared.stop.given ≠ some .failure
  log : ∀ e ∈ r.log, e.event.Clean

theorem Intact.frame (hr : r.Intact byte) (hw : r.workers[i]? = some w)
    (hd : w.Served dev byte r.job r.device)
    (ht : w.Transition dev r.job now r.shared r.device t) :
    byte t.device = byte r.device ∨ ∃ l, r.Has i l ∧
      ∀ x, ¬ r.job.geometry.Owns l.range x → byte t.device x = byte r.device x := by
  rcases ht.answered with he | ⟨l, q, reply, hq, he⟩
  · exact .inl (congrArg byte he)
  · refine .inr ⟨l, ⟨w, hw, hq.lease⟩, fun x hx => ?_⟩
    have hmay := hd l q hq
    rw [he] at hmay
    exact hmay.frame (hq.within (hr.custody.formed hw) hr.custody.job.blockSize) hx

/-- The blocks under no lease keep their content when a worker takes its turn. -/
theorem Intact.kept_device (hr : r.Intact byte) (hw : r.workers[i]? = some w)
    (hd : w.Served dev byte r.job r.device)
    (ht : w.Transition dev r.job now r.shared r.device t) :
    r.shared.lock.Kept r.job.content r.job.geometry (byte t.device) := by
  rcases hr.frame hw hd ht with he | ⟨l, hl, hf⟩
  · rw [he]
    exact hr.kept
  · intro b tag hb hfree
    exact (hr.kept b tag hb hfree).frame hr.custody.job.blockSize
      (hfree _ (hr.custody.held hl)) hf

theorem Intact.kept_after (hr : r.Intact byte) (hw : r.workers[i]? = some w)
    (hd : w.Served dev byte r.job r.device)
    (ht : w.Transition dev r.job now r.shared r.device t) :
    t.shared.lock.Kept r.job.content r.job.geometry (byte t.device) := by
  have hold := hr.kept_device hw hd ht
  cases hr.custody.handles hw ht with
  | keep hk hl => exact hk ▸ hold
  | grant hp hg hl => exact hold.granted hr.custody.lock hg
  | @release b written newly hp he hb hl =>
    have hdev : t.device = r.device := by
      rcases ht.answered with he | ⟨l, q, reply, hq, he⟩
      · exact he
      · rw [hp] at hq
        cases hq
    have hclean := hr.phases hw
    have hcomposed := hr.custody.formed hw
    rw [hp] at hclean hcomposed
    exact hold.released hr.custody.lock hcomposed hb fun hwritten => hdev ▸ hclean.2 hwritten

theorem Intact.after (hr : r.Intact byte) (hw : r.workers[i]? = some w)
    (hd : w.Served dev byte r.job r.device)
    (ht : w.Transition dev r.job now r.shared r.device t) : (r.after i w t).Intact byte := by
  have hc := ht.clean hd hr.custody.job hr.custody.lock (hr.custody.formed hw) (hr.phases hw)
    hr.kept hr.mismatches hr.reason
  refine ⟨hr.custody.after hw ht, hr.kept_after hw hd ht, fun hv => ?_, hc.mismatches,
    hc.reason, fun e he => ?_⟩
  · rcases worker_after hw hv with ⟨rfl, rfl⟩ | ⟨hk, hv⟩
    · exact hc.phase
    rcases hr.frame hw hd ht with he | ⟨l, hl, hf⟩
    · exact he ▸ hr.phases hv
    · exact (hr.phases hv).frame hr.custody.job.blockSize
        (fun m hm b hb => hr.custody.disjoint ⟨_, hv, hm⟩ hl hk hb) hf
  · rcases List.mem_append.mp he with he | he
    · obtain ⟨x, hx, rfl⟩ := List.mem_map.mp (List.mem_reverse.mp he)
      exact hc.events x hx
    · exact hr.log e he

theorem Intact.play (hr : r.Intact byte) {moves : List Move} (hd : r.Honest dev byte moves) :
    (r.play dev moves).Intact byte := by
  induction moves generalizing r with
  | nil => exact hr
  | cons m rest ih =>
    cases m with
    | interrupt =>
      exact ih ⟨hr.custody.interrupt, hr.kept, hr.phases, hr.mismatches, hr.reason, hr.log⟩ hd
    | step i now =>
      exact ih (step_induction hr fun w hw t ht _ => hr.after hw (hd.1 w hw) ht) hd.2

theorem Started.intact {d : σ} {c : Config} {setting : Setting} {events : List Event}
    (h : Started dev d c setting events r) (byte : σ → Nat → UInt8) : r.Intact byte := by
  obtain ⟨-, -, -, hnone⟩ := RangeLock.sound_of_make h.lock
  refine ⟨h.custody, fun b t hb => ?_, fun hv => ?_, ?_, ?_, fun e he => ?_⟩
  · rw [hnone] at hb
    cases hb
  · rw [h.polling hv]
    trivial
  · rw [h.shared]
    rfl
  · rw [h.shared]
    nofun
  · rw [h.log, List.map_reverse, List.mem_reverse] at he
    obtain ⟨x, hx, rfl⟩ := List.mem_map.mp he
    rw [h.said] at hx
    simp only [deviceEvents, openingEvents, List.mem_append, List.mem_singleton] at hx
    rcases hx with (rfl | hx) | (rfl | hx)
    · trivial
    · split at hx
      · cases hx
      · rw [List.mem_singleton.mp hx]
        trivial
    · trivial
    · split at hx
      · cases hx
      · rw [List.mem_singleton.mp hx]
        trivial

/-- However the steps of the workers are interleaved, and whichever of their requests fail, a device
that does what it may holds in each block under no lease what the table says of it, no comparison
finds a mismatch, none is counted, described or given as the reason to stop, and a run that ends has
passed. -/
theorem no_false_failure {d : σ} {c : Config} {setting : Setting} {events : List Event}
    (hs : start dev d c setting = (events, .ok r)) (byte : σ → Nat → UInt8) {moves : List Move}
    (hd : r.Honest dev byte moves) :
    let r' := r.play dev moves
    (∀ b tag, r'.shared.lock.table.stateAt b = some tag →
      (∀ l ∈ r'.shared.lock.active, b ∉ l.blocks) →
      r'.job.content.Holds r'.job.geometry (byte r'.device) b tag) ∧
    (∀ e ∈ r'.log, (∀ range o, e.event = .compared range o → o.mismatches = []) ∧
      (∀ m, e.event ≠ .mismatch m) ∧ e.event ≠ .muted) ∧
    r'.shared.stats.mismatches = 0 ∧ r'.shared.stop.reason ≠ some .failure ∧
    ∀ now summary, r'.finish now = .ok summary → summary.passed = true := by
  intro r'
  have hr : r'.Intact byte := ((started_of_start hs).intact byte).play hd
  refine ⟨hr.kept, fun e he => ?_, hr.mismatches, ?_, fun now summary h => ?_⟩
  · have hclean := hr.log e he
    refine ⟨fun range o h => ?_, fun m h => ?_, fun h => ?_⟩ <;> rw [h] at hclean
    · exact hclean
    · exact hclean
    · exact hclean
  · have hreason := hr.reason
    unfold Stop.Signal.reason
    cases hg : r'.shared.stop.given with
    | none =>
      rw [Option.none_or]
      split <;> nofun
    | some reason => rwa [hg] at hreason
  · rw [Summary.passed, (finished_of_finish h).stats, hr.mismatches]
    rfl

/-- A device in memory that works and does not corrupt what it reads. -/
def Trusty (m : Memory) : Prop :=
  m.Sound ∧ m.corruptReads = false

theorem trusty_step {r : Run Memory} (h : Trusty r.device) (now : Instant) (i : Nat) :
    Trusty (r.step Memory.device now i).device := by
  apply step_induction (P := fun r : Run Memory => Trusty r.device) h
  intro w hw t ht _
  apply ht.device_induction (P := Trusty) h
  intro q reply m he
  have hm : (r.device.answer q).2 = m := congrArg Prod.snd he
  rw [← hm]
  exact ⟨h.1.answer q, (h.1.alike_answer q).corruptReads.trans h.2⟩

theorem honest_memory {r : Run Memory} (h : Trusty r.device) (moves : List Move) :
    r.Honest Memory.device Memory.byte moves := by
  induction moves generalizing r with
  | nil => trivial
  | cons m rest ih =>
    cases m with
    | interrupt => exact ih h
    | step i now => exact ⟨fun w hw l q hq => h.1.mayAnswer h.2 _ q, ih (trusty_step h now i)⟩

/-- Two workers on a device of four blocks that fails to discard. -/
theorem no_false_failure_of_four_blocks :
    let c : Config := { Config.standard with blockSize := 512, trimPct := 40, seed := some 7 }
    let d : Memory := ⟨.zeroes 2048, false, false, false, true, 0, 0, 0⟩
    let setting : Setting := ⟨false, 0, ⟨0⟩, fun _ => .words []⟩
    let moves : List Move := (List.range 400).map fun n => .step (n % 2) ⟨n⟩
    ∃ events r, start Memory.device d c setting = (events, .ok r) ∧
      r.Honest Memory.device Memory.byte moves ∧
      (r.play Memory.device moves).shared.stats.mismatches = 0 := by
  intro c d setting moves
  have hv : c.validate = .ok () := by decide +kernel
  have hsize : Memory.device.size d = .ok 2048 := rfl
  have hpolicy : c.policy setting.start 4 = .ok ⟨none, none, none, false⟩ := rfl
  obtain ⟨events, r, hs⟩ :=
    exists_start hv hsize (by decide) (by decide) (by decide) hpolicy
  have hdevice : r.device = d := (started_of_start hs).device
  have ht : Trusty r.device := by
    rw [hdevice]
    exact ⟨⟨trivial, by decide⟩, rfl⟩
  have hd := honest_memory ht moves
  exact ⟨events, r, hs, hd, (no_false_failure hs Memory.byte hd).2.2.1⟩

end Readback.Run
