import Readback.Proofs.Device.Memory
import Readback.Proofs.Run.Start
import Readback.Proofs.Run.Trace
import Readback.Proofs.Worker.Durability

namespace Readback.Run

variable {σ : Type} {dev : Device σ} {r : Run σ} {now : Instant} {i k : Nat} {w v : Worker}
  {t : Worker.Turn σ} {x y : Contents} {done : List (Nat × Deed)}

def history (dev : Device σ) (r : Run σ) (moves : List Move) : List (Nat × Deed) :=
  r.notes (fun r _ w => w.deed? dev r.job r.shared r.device) dev moves

/-- The blocks under no lease hold what the table says of them, and would after a crash. -/
structure Durable (r : Run σ) (x : Contents) : Prop where
  custody : r.Custody
  live : r.shared.lock.Kept r.job.content r.job.geometry x.live
  durable : r.shared.lock.Kept r.job.content r.job.geometry x.durable
  phases : ∀ {k : Nat} {v : Worker}, r.workers[k]? = some v →
    v.phase.Firm r.job.content r.job.geometry x

/-- A call of a worker leaves the blocks alone that are not under its lease. -/
theorem Custody.frame (hr : r.Custody) (hw : r.workers[i]? = some w)
    (hx : Deed.Leaves r.job.geometry x y (w.deed? dev r.job r.shared r.device)) :
    y = x ∨ ∃ l c, r.Has i l ∧ Call.Leaves (r.job.geometry.Owns l.range) c x y ∧
      c.request.Within (r.job.geometry.Owns l.range) := by
  cases hc : w.phase.call? r.job.geometry with
  | none => exact .inl (Worker.leaves_of_quiet hc hx)
  | some q =>
    obtain ⟨l, hq⟩ := Phase.asks_of_call? hc
    rw [Worker.deed?_asks hq rfl] at hx
    exact .inr ⟨l, _, ⟨w, hw, hq.lease⟩, hx, hq.within (hr.formed hw) hr.job.blockSize⟩

theorem Durable.framed (hr : r.Durable x) (hw : r.workers[i]? = some w)
    (hx : Deed.Leaves r.job.geometry x y (w.deed? dev r.job r.shared r.device)) :
    r.shared.lock.Kept r.job.content r.job.geometry y.live ∧
      r.shared.lock.Kept r.job.content r.job.geometry y.durable := by
  rcases hr.custody.frame hw hx with rfl | ⟨l, c, hl, hc, hq⟩
  · exact ⟨hr.live, hr.durable⟩
  have keeps {b : Nat} {tag : Tag} (hb : r.shared.lock.table.stateAt b = some tag)
      (hfree : ∀ m ∈ r.shared.lock.active, b ∉ m.blocks) :
      r.job.content.Keeps r.job.geometry y b tag :=
    hc.keeps hq hr.custody.job.blockSize (hfree _ (hr.custody.held hl))
      ⟨hr.live b tag hb hfree, hr.durable b tag hb hfree⟩
  exact ⟨fun b tag hb hfree => (keeps hb hfree).1, fun b tag hb hfree => (keeps hb hfree).2⟩

theorem Durable.kept_after (hr : r.Durable x) (hw : r.workers[i]? = some w)
    (ht : w.Transition dev r.job now r.shared r.device t)
    (hx : Deed.Leaves r.job.geometry x y (w.deed? dev r.job r.shared r.device)) :
    t.shared.lock.Kept r.job.content r.job.geometry y.live ∧
      t.shared.lock.Kept r.job.content r.job.geometry y.durable := by
  obtain ⟨hlive, hdurable⟩ := hr.framed hw hx
  cases hr.custody.handles hw ht with
  | keep hk hl => exact hk ▸ ⟨hlive, hdurable⟩
  | grant hp hg hl =>
    exact ⟨hlive.granted hr.custody.lock hg, hdurable.granted hr.custody.lock hg⟩
  | @release b written newly hp he hb hl =>
    have hfirm := hr.phases hw
    have hcomposed := hr.custody.formed hw
    rw [Worker.leaves_of_quiet (by rw [hp]; rfl) hx] at hlive hdurable ⊢
    rw [hp] at hfirm hcomposed
    exact ⟨hlive.released hr.custody.lock hcomposed hb fun hwritten => (hfirm hwritten).1,
      hdurable.released hr.custody.lock hcomposed hb fun hwritten => (hfirm hwritten).2⟩

theorem Durable.after (hr : r.Durable x) (hw : r.workers[i]? = some w)
    (ht : w.Transition dev r.job now r.shared r.device t)
    (hx : Deed.Leaves r.job.geometry x y (w.deed? dev r.job r.shared r.device)) :
    (r.after i w t).Durable y := by
  obtain ⟨hlive, hdurable⟩ := hr.kept_after hw ht hx
  refine ⟨hr.custody.after hw ht, hlive, hdurable, fun hv => ?_⟩
  rcases worker_after hw hv with ⟨rfl, rfl⟩ | ⟨hk, hv⟩
  · exact ht.firm hx hr.custody.job (hr.custody.formed hw) (hr.phases hw)
  -- What another worker has written survives, because the call is made under a lease apart from its.
  rcases hr.custody.frame hw hx with rfl | ⟨l, c, hl, hc, hq⟩
  · exact hr.phases hv
  · exact (hr.phases hv).leaves hc hq hr.custody.job.blockSize
      fun m hm b hb => hr.custody.disjoint ⟨_, hv, hm⟩ hl hk hb

theorem Durable.interrupt (hr : r.Durable x) : r.interrupt.Durable x :=
  ⟨hr.custody.interrupt, hr.live, hr.durable, hr.phases⟩

/-- Whatever is left of `x` after what is done so far, the table is true to it. -/
def Survives (x : Contents) (done : List (Nat × Deed)) (r : Run σ) : Prop :=
  ∀ y, Deed.Leads r.job.geometry done x y → r.Durable y

theorem Survives.play (h : r.Survives x done) (moves : List Move) :
    (r.play dev moves).Survives x (done ++ r.history dev moves) := by
  refine notes_induction (fun h hw y hy => ?_) (fun _ _ _ h y hy => (h y hy).interrupt) h
  obtain ⟨z, hz, ha⟩ := Deed.leads_concat hy
  exact (h z hz).after hw Worker.step_transition ha

theorem Started.durable {d : σ} {c : Config} {setting : Setting} {events : List Event}
    (h : Started dev d c setting events r) (x : Contents) : r.Durable x := by
  obtain ⟨-, -, -, hnone⟩ := RangeLock.sound_of_make h.lock
  have hkept (byte : Nat → UInt8) :
      r.shared.lock.Kept r.job.content r.job.geometry byte := fun b tag hb => by
    rw [hnone] at hb
    cases hb
  refine ⟨h.custody, hkept x.live, hkept x.durable, fun hv => ?_⟩
  rw [h.polling hv]
  trivial

theorem Started.survives {d : σ} {c : Config} {setting : Setting} {events : List Event}
    (h : Started dev d c setting events r) (x : Contents) : r.Survives x [] := by
  rintro y rfl
  exact h.durable y

/-- Before a lease was released with new states, its blocks were written, then trimmed, then flushed
and then left alone. -/
structure Traced (done : List (Nat × Deed)) (r : Run σ) : Prop where
  custody : r.Custody
  phases : ∀ {k : Nat} {v : Worker}, r.workers[k]? = some v →
    v.phase.Tracked r.job.geometry k done
  released : ∀ {pre : List (Nat × Deed)} {k : Nat} {x : Completed} {tag : Tag},
    pre ++ [(k, .released x)] <+: done → some tag ∈ Worker.newStates x.batch x.written →
    x.batch.Composed r.job ∧ ∃ cs, Deed.Since k pre x.batch.lease cs ∧
      x.batch.Sealed r.job.geometry cs

theorem written_of_mem_newStates {b : Batch} {written : Bool} {tag : Tag}
    (h : some tag ∈ Worker.newStates b written) : written = true := by
  obtain ⟨u, -, hu⟩ := List.mem_map.mp h
  cases written with
  | true => rfl
  | false => cases hu

theorem Traced.after (h : r.Traced done) (hw : r.workers[i]? = some w)
    (ht : w.Transition dev r.job now r.shared r.device t) :
    (r.after i w t).Traced
      (done ++ ((w.deed? dev r.job r.shared r.device).map (i, ·)).toList) := by
  refine ⟨h.custody.after hw ht, fun hv => ?_, fun hpre htag => ?_⟩
  · rcases worker_after hw hv with ⟨rfl, rfl⟩ | ⟨hk, hv⟩
    · exact ht.tracked (h.custody.formed hw) (h.phases hw)
    · intro l hl
      obtain ⟨cs, hsince, hcs⟩ := h.phases hv l hl
      refine ⟨cs, ?_, hcs⟩
      cases w.deed? dev r.job r.shared r.device with
      | none => exact (List.append_nil done).symm ▸ hsince
      | some a => exact hsince.other hk.symm a
  · cases ha : w.deed? dev r.job r.shared r.device with
    | none =>
      rw [ha] at hpre
      exact h.released ((List.append_nil done) ▸ hpre) htag
    | some a =>
      rw [ha] at hpre
      -- A release is either the new deed, which the phase accounts for, or an old one.
      rcases List.prefix_concat_iff.mp hpre with he | hpre
      · obtain ⟨rfl, hlast⟩ := List.append_inj' he rfl
        cases hlast
        cases Worker.doing_of_deed? ha with
        | @release b written newly lock hp hrelease =>
          have hcomposed := h.custody.formed hw
          obtain ⟨cs, hsince, hcs⟩ := h.phases hw b.lease (by rw [hp]; rfl)
          rw [hp] at hcomposed hcs
          exact ⟨hcomposed, cs, hsince, hcs (written_of_mem_newStates htag)⟩
      · exact h.released hpre htag

theorem Traced.play (h : r.Traced done) (moves : List Move) :
    (r.play dev moves).Traced (done ++ r.history dev moves) :=
  notes_induction (fun h hw => h.after hw Worker.step_transition)
    (fun _ _ _ h => ⟨h.custody.interrupt, h.phases, h.released⟩) h

theorem Started.traced {d : σ} {c : Config} {setting : Setting} {events : List Event}
    (h : Started dev d c setting events r) : r.Traced [] := by
  refine ⟨h.custody, fun hv l hl => ?_, fun hpre htag => ?_⟩
  · rw [h.polling hv] at hl
    cases hl
  · cases (List.append_eq_nil_iff.mp (List.prefix_nil.mp hpre)).2

/-- Whichever calls fail, and however the steps of the workers are interleaved, a worker that gives a
lease back with new states has written all of its new content in one call, then discarded trimmed
blocks only, then flushed the device and then changed nothing more.  So a crash at any time loses no
block of which the table says anything and that is under no lease.  To invalidate is only a hint, so
it is taken to change nothing, failed or not, as is a discard that the device cannot do; any other
call that fails, a read too, may spoil the range of its lease. -/
theorem flush_before_release {d : σ} {c : Config} {setting : Setting} {events : List Event}
    (hs : start dev d c setting = (events, .ok r)) (moves : List Move) :
    let history := r.history dev moves
    let r' := r.play dev moves
    (∀ pre k x tag, pre ++ [(k, .released x)] <+: history →
      some tag ∈ Worker.newStates x.batch x.written → x.batch.Composed r.job ∧
        ∃ calls, Deed.Since k pre x.batch.lease calls ∧ x.batch.Sealed r.job.geometry calls) ∧
    (∀ before, ∃ after, Deed.Leads r.job.geometry history before after) ∧
    ∀ before after, Deed.Leads r.job.geometry history before after →
      ∀ b tag, r'.shared.lock.table.stateAt b = some tag →
        (∀ l ∈ r'.shared.lock.active, b ∉ l.blocks) →
        r.job.content.Holds r.job.geometry after.durable b tag := by
  intro history r'
  have hstart := started_of_start hs
  have hjob : r'.job = r.job := play_job r dev moves
  refine ⟨fun pre k x tag hpre htag => ?_, Deed.exists_leads _ _,
    fun before after hleads b tag hb hfree => ?_⟩
  · rw [← hjob]
    exact (hstart.traced.play moves).released hpre htag
  · rw [← hjob] at hleads ⊢
    exact ((hstart.survives before).play moves after hleads).durable b tag hb hfree

/-- Two workers on a device that does not support discards. -/
theorem flush_before_release_of_two_workers :
    let c : Config := { Config.standard with
      blockSize := 512, workers := 2, uniquePct := 0, trimPct := 100 }
    let d : Memory := ⟨.zeroes 2048, false, false, false, true, 0, 0, 0⟩
    let setting : Setting := ⟨false, 0, ⟨0⟩,
      fun id => .words [0, 0, 0, if id = 0 then 0 else 0x80000000, 0]⟩
    let moves : List Move := (List.range 20).map fun n => .step (n % 2) ⟨n⟩
    ∃ events r, start Memory.device d c setting = (events, .ok r) ∧
      (r.play Memory.device moves).shared.lock.table.stateAt 0 = some .trimmed ∧
      ∀ before, ∃ after, Deed.Leads r.job.geometry (r.history Memory.device moves) before after ∧
        r.job.content.Holds r.job.geometry after.durable 0 .trimmed := by
  intro c d setting moves
  have hv : c.validate = .ok () := by decide +kernel
  have hsize : Memory.device.size d = .ok 2048 := rfl
  obtain ⟨events, r, hs, hstate, hfree⟩ : ∃ events r,
      start Memory.device d c setting = (events, .ok r) ∧
      (r.play Memory.device moves).shared.lock.table.stateAt 0 = some .trimmed ∧
      (r.play Memory.device moves).shared.lock.active = [] :=
    ⟨_, _, start_eq hv hsize (by decide) (dif_pos (by decide)) (make_lock (by decide) (by decide))
      rfl rfl, by decide +kernel, by decide +kernel⟩
  obtain ⟨-, hexists, hdurable⟩ := flush_before_release hs moves
  refine ⟨events, r, hs, hstate, fun before => ?_⟩
  obtain ⟨after, hleads⟩ := hexists before
  refine ⟨after, hleads, hdurable before after hleads 0 .trimmed hstate fun l hl => ?_⟩
  rw [hfree] at hl
  cases hl

end Readback.Run
