import Mathlib.Data.List.Induction
import Readback.Proofs.Device.Memory
import Readback.Proofs.Run.Holding

namespace Readback

variable {σ : Type} {dev : Device σ}

def Act.calls (acts : List (Nat × Act)) : List Request :=
  acts.filterMap fun a => a.2.call?

/-- What is left of a device that some requests are made of, whatever it answers. -/
def Device.replay (dev : Device σ) (d : σ) (calls : List Request) : σ :=
  calls.foldl (fun d q => (dev.answer q d).2) d

theorem Geometry.owns_of_rangeBytes {g : Geometry} {r : BlockRange} {offset n i : Nat}
    (h : g.rangeBytes r = .ok (offset, n)) (hi : offset ≤ i ∧ i < offset + n) : g.Owns r i := by
  obtain ⟨rfl, rfl, hle⟩ := rangeBytes_eq h
  rw [add_length_mul hle] at hi
  exact hi

/-- No request changes a byte that it does not name, whatever was asked of the device before. -/
def Device.Confined (dev : Device σ) (d : σ) (byte : σ → Nat → UInt8) : Prop :=
  ∀ (calls : List Request) (q : Request) (i : Nat), ¬ q.Spans i →
    byte (dev.replay d (calls ++ [q])) i = byte (dev.replay d calls) i

theorem Device.Confined.replay {d : σ} {byte : σ → Nat → UInt8} (hf : dev.Confined d byte) {i : Nat}
    {calls : List Request} (hi : ∀ q ∈ calls, ¬ q.Spans i) :
    byte (dev.replay d calls) i = byte d i := by
  induction calls using List.reverseRecOn with
  | nil => rfl
  | append_singleton calls q ih =>
    rw [hf calls q i (hi q (List.mem_append_right _ List.mem_cons_self))]
    exact ih fun p hp => hi p (List.mem_append_left _ hp)

theorem Act.granted_of_holding {k : Nat} {l : Lease} {acts : List (Nat × Act)}
    (h : l ∈ Act.holding k acts) : (k, .granted l) ∈ acts := by
  induction acts using List.reverseRecOn with
  | nil => cases h
  | append_singleton acts a ih =>
    obtain ⟨i, a⟩ := a
    rw [Act.holding_concat] at h
    by_cases hk : i = k
    · subst hk
      rw [if_pos rfl] at h
      cases a with
      | granted m =>
        rcases List.mem_cons.mp h with rfl | h
        · exact List.mem_append_right _ List.mem_cons_self
        · exact List.mem_append_left _ (ih h)
      | completed c => exact List.mem_append_left _ (ih (List.mem_of_mem_erase h))
      | asked q => exact List.mem_append_left _ (ih h)
      | added x v => exact List.mem_append_left _ (ih h)
    · rw [if_neg hk] at h
      exact List.mem_append_left _ (ih h)

theorem Phase.Asks.spans {j : Job} {p : Phase} {l : Lease} {q : Request}
    (h : p.Asks j.geometry l q) (hf : p.Formed j)
    (hs : j.content.blockSize = j.geometry.blockSize) {i : Nat} (hi : q.Spans i) :
    j.geometry.Owns l.range i := by
  cases h with
  | invalidate hr => exact Geometry.owns_of_rangeBytes hr hi
  | read hr => exact Geometry.owns_of_rangeBytes hr hi
  | write hr => exact (Phase.Asks.write hr).within hf hs i hi
  | discard hr => exact (Phase.Asks.discard hr).within hf hs i hi
  | flush => exact hi.elim
  | drop hr => exact Geometry.owns_of_rangeBytes hr hi

namespace Run

variable {r : Run σ} {i k : Nat} {w v : Worker}

theorem device_move (r : Run σ) (m : Move) :
    (r.move dev m).device = dev.replay r.device (Act.calls (r.act? m).toList) := by
  cases m with
  | interrupt => rfl
  | step i now =>
    cases hw : r.workers[i]? with
    | none =>
      rw [move, step_of_none hw, act?_of_none hw]
      rfl
    | some w =>
      rw [move, step_eq hw, act?_step hw]
      refine Worker.step_device.trans ?_
      cases ha : w.act? r.job r.shared with
      | none =>
        cases hq : w.phase.call? r.job.geometry with
        | none => rfl
        | some q => cases ha.symm.trans (Worker.Does.ask hq).act?
      | some a =>
        cases Worker.does_of_act? ha with
        | ask hq =>
          rw [hq]
          rfl
        | grant hp h =>
          rw [hp]
          rfl
        | complete hp h =>
          rw [hp]
          rfl
        | add hp =>
          rw [hp]
          rfl

theorem calls_append (acts acts' : List (Nat × Act)) :
    Act.calls (acts ++ acts') = Act.calls acts ++ Act.calls acts' :=
  List.filterMap_append

/-- The device comes out of a run as the calls that are made leave it. -/
theorem device_play (r : Run σ) (moves : List Move) :
    (r.play dev moves).device = dev.replay r.device (Act.calls (r.trace dev moves)) := by
  induction moves generalizing r with
  | nil => rfl
  | cons m rest ih =>
    have hrest := ih (r.move dev m)
    rw [device_move] at hrest
    rw [trace, calls_append, Device.replay, List.foldl_append]
    exact hrest

theorem mem_calls {acts : List (Nat × Act)} {q : Request} (h : q ∈ Act.calls acts) :
    ∃ pre k post, acts = pre ++ (k, .asked q) :: post := by
  obtain ⟨⟨k, a⟩, ha, hq⟩ := List.mem_filterMap.mp h
  obtain ⟨pre, post, rfl⟩ := List.append_of_mem ha
  cases a with
  | asked q' =>
    cases hq
    exact ⟨pre, k, post, rfl⟩
  | _ => cases hq

variable {d : σ} {c : Config} {setting : Setting} {events : List Event}

/-- Calls that workers are about to make at one time name different bytes. -/
theorem Custody.calls_disjoint (hr : r.Custody) {q q' : Request} (hk : k ≠ i)
    (hv : r.workers[k]? = some v) (hw : r.workers[i]? = some w)
    (hq : v.phase.call? r.job.geometry = some q) (hq' : w.phase.call? r.job.geometry = some q')
    {x : Nat} (hx : q.Spans x) : ¬ q'.Spans x := by
  intro hx'
  obtain ⟨l, ha⟩ := Phase.asks_of_call? hq
  obtain ⟨l', ha'⟩ := Phase.asks_of_call? hq'
  have howns := ha.spans (hr.formed hv) hr.job.blockSize hx
  have howns' := ha'.spans (hr.formed hw) hr.job.blockSize hx'
  refine howns.disjoint hr.blockSize_pos (fun b hb => ?_) howns'
  exact hr.disjoint ⟨v, hv, ha.lease⟩ ⟨w, hw, ha'.lease⟩ hk hb

/-- A call is made under the one lease that its worker holds, about bytes of it, and these are bytes
of blocks. -/
theorem Started.call_confined (h : Started dev d c setting events r) {moves : List Move}
    {pre post : List (Nat × Act)} {q : Request}
    (hsplit : r.trace dev moves = pre ++ (k, .asked q) :: post) :
    ∃ l, Act.holding k pre = [l] ∧ (∀ i, q.Spans i → r.job.geometry.Owns l.range i) ∧
      ∀ i, r.job.geometry.Owns l.range i →
        i < r.job.geometry.nBlocks * r.job.geometry.blockSize := by
  obtain ⟨before, m, after, rfl, rfl, hact⟩ := exists_move_of_trace hsplit
  obtain ⟨now, w, rfl, hw, hdoes⟩ := exists_of_act? hact
  have hr : (r.play dev before).Custody := h.custody.play before
  have hjob := play_job r dev before
  cases hdoes with
  | ask hq =>
    obtain ⟨l, ha⟩ := Phase.asks_of_call? hq
    have hstop := (hr.lock.active.proper _ (hr.held ⟨w, hw, ha.lease⟩)).2
    have hspans (i : Nat) (hi : q.Spans i) := ha.spans (hr.formed hw) hr.job.blockSize hi
    rw [hr.nBlocks, hjob] at hstop
    rw [hjob] at hspans
    refine ⟨l, ?_, hspans, fun i hi => ?_⟩
    · rcases (h.holds before).hands hw with hl | ⟨f, hp⟩
      · rw [← hl, ha.lease]
        rfl
      · rw [hp] at ha
        cases ha
    · exact Nat.lt_of_lt_of_le hi.2 (Nat.mul_le_mul_right _ hstop)

/-- In the course of a run only calls change the device.  Each worker holds at most one lease, and
none when it tries for one; it makes calls about bytes of its lease alone, so that calls of two
workers never meet, and a device that keeps to the bytes of its calls keeps the bytes past the last
block and those of every block that was in no lease. -/
theorem confined (hs : start dev d c setting = (events, .ok r)) (moves : List Move) :
    let r' := r.play dev moves
    let acts := r.trace dev moves
    let g := r.job.geometry
    r'.device = dev.replay d (Act.calls acts) ∧
    (∀ k, (Act.holding k acts).length ≤ 1 ∧
      ∀ w, r'.workers[k]? = some w → w.phase = .acquiring → Act.holding k acts = []) ∧
    (∀ pre post k q, acts = pre ++ (k, .asked q) :: post →
      ∃ l, Act.holding k pre = [l] ∧ (∀ i, q.Spans i → g.Owns l.range i) ∧
        ∀ i, g.Owns l.range i → i < g.nBlocks * g.blockSize) ∧
    (∀ (k k' : Nat) (w w' : Worker) (q q' : Request), k ≠ k' →
      r'.workers[k]? = some w → r'.workers[k']? = some w' →
      w.phase.call? g = some q → w'.phase.call? g = some q' → ∀ i, q.Spans i → ¬ q'.Spans i) ∧
    ∀ byte, dev.Confined d byte →
      (∀ i, g.nBlocks * g.blockSize ≤ i → byte r'.device i = byte d i) ∧
      ∀ b, (∀ k l, (k, .granted l) ∈ acts → b ∉ l.range.blocks) → ∀ i < g.blockSize,
        byte r'.device (b * g.blockSize + i) = byte d (b * g.blockSize + i) := by
  intro r' acts g
  have h := started_of_start hs
  have hholds : r'.Holds acts := h.holds moves
  have hdevice : r'.device = dev.replay d (Act.calls acts) := h.device ▸ device_play r moves
  refine ⟨hdevice, fun k => ⟨hholds.single k, fun w hw hp => ?_⟩,
    fun pre post k q hsplit => h.call_confined hsplit,
    fun k k' w w' q q' hk hw hw' hq hq' i hi => ?_, fun byte hf => ⟨fun i hi => ?_,
      fun b hb i hi => ?_⟩⟩
  · rcases hholds.hands hw with hl | ⟨f, hp'⟩
    · rw [← hl, hp]
      rfl
    · rw [hp] at hp'
      cases hp'
  · have hr : r'.Custody := h.custody.play moves
    have hg : r'.job.geometry = g := congrArg Job.geometry (play_job r dev moves)
    rw [← hg] at hq hq'
    exact hr.calls_disjoint hk hw hw' hq hq' hi
  · rw [hdevice]
    apply hf.replay
    intro q hq hspans
    obtain ⟨pre, k, post, hsplit⟩ := mem_calls hq
    obtain ⟨l, -, howns, hlt⟩ := h.call_confined hsplit
    exact Nat.not_lt_of_ge hi (hlt i (howns i hspans))
  · rw [hdevice]
    apply hf.replay
    intro q hq hspans
    obtain ⟨pre, k, post, hsplit⟩ := mem_calls hq
    obtain ⟨l, hl, howns, -⟩ := h.call_confined hsplit
    have hgranted : (k, .granted l) ∈ pre :=
      Act.granted_of_holding (by rw [hl]; exact List.mem_cons_self)
    have hmem : (k, .granted l) ∈ acts := hsplit ▸ List.mem_append_left _ hgranted
    exact Geometry.not_owns (hb k l hmem) hi (howns _ hspans)

theorem confined_memory {m : Memory} (hm : m.Sound) : Memory.device.Confined m Memory.byte := by
  intro calls q i hi
  have hs : (Memory.device.replay m calls).Sound := by
    induction calls using List.reverseRecOn with
    | nil => exact hm
    | append_singleton calls q ih =>
      rw [Device.replay, List.foldl_append]
      exact ih.answer q
  rw [Device.replay, List.foldl_append]
  exact hs.byte_answer fun ht => hi ht.spans

/-- Two workers on a device of four blocks and 100 bytes more. -/
theorem confined_of_four_blocks :
    let c : Config := { Config.standard with
      blockSize := 512, workers := 2, uniquePct := 0, trimPct := 100 }
    let d : Memory := ⟨.zeroes 2148, false, false, false, false, 0, 0, 0⟩
    let setting : Setting := ⟨false, 0, ⟨0⟩,
      fun id => .words [0, 0, 0, if id = 0 then 0 else 0x80000000, 0]⟩
    let moves : List Move := (List.range 20).map fun n => .step (n % 2) ⟨n⟩
    ∃ events r, start Memory.device d c setting = (events, .ok r) ∧
      (Act.calls (r.trace Memory.device moves)).length = 8 ∧
      ∀ i, 4 * 512 ≤ i → Memory.byte (r.play Memory.device moves).device i = Memory.byte d i := by
  intro c d setting moves
  have hv : c.validate = .ok () := by decide +kernel
  have hsize : Memory.device.size d = .ok 2148 := rfl
  have hd : d.Sound := ⟨trivial, by decide⟩
  obtain ⟨events, r, hs, hg, hcalls⟩ : ∃ events r,
      start Memory.device d c setting = (events, .ok r) ∧
      r.job.geometry.nBlocks * r.job.geometry.blockSize = 4 * 512 ∧
      (Act.calls (r.trace Memory.device moves)).length = 8 :=
    ⟨_, _, start_eq hv hsize (by decide) (dif_pos (by decide)) (make_lock (by decide) (by decide))
      rfl rfl, by decide +kernel, by decide +kernel⟩
  obtain ⟨-, -, -, -, hbytes⟩ := confined hs moves
  refine ⟨events, r, hs, hcalls, fun i hi => ?_⟩
  exact (hbytes Memory.byte (confined_memory hd)).1 i (hg ▸ hi)

end Run

end Readback
