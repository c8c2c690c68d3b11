import Readback.Proofs.Device.Memory
import Readback.Proofs.Worker.Custody
import Readback.Proofs.Worker.Serial

namespace Readback

open Memory (Agree)

variable {own : Nat → Prop} {m m' : Memory} {α β : Type}

/-- The same fault, or the same value on devices that agree on some bytes. -/
inductive Same (own : Nat → Prop) : Except Fault (α × Memory) → Except Fault (α × Memory) → Prop
  | ok {a : α} {m m' : Memory} (h : Agree own m m') : Same own (.ok (a, m)) (.ok (a, m'))
  | error (f : Fault) : Same own (.error f) (.error f)

theorem Same.bind {x y : Except Fault (α × Memory)} {k : α × Memory → Except Fault (β × Memory)}
    (h : Same own x y) (hk : ∀ a m m', Agree own m m' → Same own (k (a, m)) (k (a, m'))) :
    Same own (x >>= k) (y >>= k) := by
  cases h with
  | ok h => exact hk _ _ _ h
  | error f => exact .error f

/-- Whatever comes of it, the bytes without stay as they were. -/
def Keeps (own : Nat → Prop) (m : Memory) (x : Except Fault (α × Memory)) : Prop :=
  ∀ a m', x = .ok (a, m') → Agree (fun i => ¬ own i) m' m

theorem Keeps.ok (a : α) (hm : m.Sound) : Keeps own m (.ok (a, m)) := by
  intro a' m' h
  cases h
  exact .refl _ hm

theorem Keeps.error (f : Fault) : Keeps own m (.error f : Except Fault (α × Memory)) :=
  nofun

theorem Keeps.bind {x : Except Fault (α × Memory)} {k : α × Memory → Except Fault (β × Memory)}
    (h : Keeps own m x) (hk : ∀ a m', m'.Sound → Keeps own m' (k (a, m'))) :
    Keeps own m (x >>= k) := by
  cases x with
  | error f => exact .error f
  | ok p =>
    intro b m'' hb
    have ha := h p.1 p.2 rfl
    exact (hk p.1 p.2 ha.left b m'' hb).trans ha

theorem Same.tell {q : Request} (h : Agree own m m') (hq : q.Within own) :
    Same own (Memory.device.tell q m) (Memory.device.tell q m') := by
  generalize hx : Memory.device.answer q m' = x
  obtain ⟨reply, e'⟩ := x
  obtain ⟨e, he, ha⟩ := h.answer hq hx
  rw [Device.tell, Device.tell, he, hx]
  cases reply with
  | ok reply => exact .ok ha
  | error e =>
    cases e with
    | error e => exact .ok ha
    | fault f => exact .error f

theorem Keeps.tell {q : Request} (hm : m.Sound) (hq : q.Within own) :
    Keeps own m (Memory.device.tell q m) := by
  generalize hx : Memory.device.answer q m = x
  obtain ⟨reply, e⟩ := x
  rw [Device.tell, hx]
  have hk := hm.keeps (fun _ => hq.touches) hx
  intro a m' h
  cases reply with
  | ok reply =>
    cases h
    exact hk
  | error e =>
    cases e with
    | error e =>
      cases h
      exact hk
    | fault f => cases h

theorem within_invalidate (offset n : Nat) : (Request.invalidate offset n).Within own :=
  fun _ h => h.elim

theorem within_flush : Request.flush.Within own :=
  fun _ h => h.elim

namespace Batch

variable {j : Job} {b : Batch}

theorem drop_same (h : Agree own m m') :
    Same own (b.drop Memory.device j m) (b.drop Memory.device j m') := by
  unfold drop
  cases j.geometry.rangeBytes b.range with
  | error f => exact .error f
  | ok p => exact (Same.tell h (within_invalidate p.1 p.2)).bind fun _ _ _ h => .ok h

theorem drop_keeps (hm : m.Sound) : Keeps own m (b.drop Memory.device j m) := by
  unfold drop
  cases j.geometry.rangeBytes b.range with
  | error f => exact .error f
  | ok p => exact (Keeps.tell hm (within_invalidate p.1 p.2)).bind fun _ _ hm => .ok _ hm

theorem settle_same (h : Agree own m m') :
    Same own (b.settle Memory.device j m) (b.settle Memory.device j m') := by
  apply (Same.tell h within_flush).bind
  intro a m m' h
  cases a with
  | ok reply => exact drop_same h
  | error e => exact .ok h

theorem settle_keeps (hm : m.Sound) : Keeps own m (b.settle Memory.device j m) := by
  apply (Keeps.tell hm within_flush).bind
  intro a m' hm'
  cases a with
  | ok reply => exact drop_keeps hm'
  | error e => exact .ok _ hm'

variable {runs : List BlockRange}

def Covers (g : Geometry) (own : Nat → Prop) (runs : List BlockRange) : Prop :=
  ∀ run ∈ runs, ∀ offset n, g.rangeBytes run = .ok (offset, n) →
    (Request.discard offset n).Within own

theorem discard_same (hc : Covers j.geometry own runs) (h : Agree own m m') :
    Same own (b.discard Memory.device j runs m) (b.discard Memory.device j runs m') := by
  induction runs generalizing m m' with
  | nil => exact settle_same h
  | cons run rest ih =>
    obtain ⟨hrun, hrest⟩ := List.forall_mem_cons.mp hc
    unfold discard
    cases hr : j.geometry.rangeBytes run with
    | error f => exact .error f
    | ok p =>
      apply (Same.tell h (hrun p.1 p.2 hr)).bind
      intro a m m' h
      cases a with
      | ok reply => exact ih hrest h
      | error e =>
        dsimp only
        split
        · exact settle_same h
        · exact .ok h

theorem discard_keeps (hc : Covers j.geometry own runs) (hm : m.Sound) :
    Keeps own m (b.discard Memory.device j runs m) := by
  induction runs generalizing m with
  | nil => exact settle_keeps hm
  | cons run rest ih =>
    obtain ⟨hrun, hrest⟩ := List.forall_mem_cons.mp hc
    unfold discard
    cases hr : j.geometry.rangeBytes run with
    | error f => exact .error f
    | ok p =>
      apply (Keeps.tell hm (hrun p.1 p.2 hr)).bind
      intro a m' hm'
      cases a with
      | ok reply => exact ih hrest hm'
      | error e =>
        dsimp only
        split
        · exact settle_keeps hm'
        · exact .ok _ hm'

variable (hb : b.Composed j) (hs : j.content.blockSize = j.geometry.blockSize)
include hb hs

theorem covers_trimmedRuns :
    Covers j.geometry (j.geometry.Owns b.range) (Worker.trimmedRuns b.range b.tags) := by
  intro run hrun offset n hr
  have ha : Phase.Asks j.geometry (.discarding b run []) b.lease (.discard offset n) := .discard hr
  exact ha.within ⟨hb, by simpa using hrun⟩ hs

theorem within_write {offset n : Nat} (hr : j.geometry.rangeBytes b.range = .ok (offset, n)) :
    (Request.write offset b.data).Within (j.geometry.Owns b.range) := by
  have ha : Phase.Asks j.geometry (.writing b) b.lease (.write offset b.data) := .write hr
  exact ha.within hb hs

theorem commit_same (h : Agree (j.geometry.Owns b.range) m m') :
    Same (j.geometry.Owns b.range) (b.commit Memory.device j m) (b.commit Memory.device j m') := by
  unfold commit
  cases hr : j.geometry.rangeBytes b.range with
  | error f => exact .error f
  | ok p =>
    apply (Same.tell h (within_write hb hs hr)).bind
    intro a m m' h
    cases a with
    | ok reply => exact discard_same (covers_trimmedRuns hb hs) h
    | error e => exact .ok h

theorem commit_keeps (hm : m.Sound) :
    Keeps (j.geometry.Owns b.range) m (b.commit Memory.device j m) := by
  unfold commit
  cases hr : j.geometry.rangeBytes b.range with
  | error f => exact .error f
  | ok p =>
    apply (Keeps.tell hm (within_write hb hs hr)).bind
    intro a m' hm'
    cases a with
    | ok reply => exact discard_keeps (covers_trimmedRuns hb hs) hm'
    | error e => exact .ok _ hm'

end Batch

namespace Outcome

variable {c : Content} {g : Geometry} {l : Lease}

theorem within_read {offset n : Nat} (hr : g.rangeBytes l.range = .ok (offset, n)) :
    (Request.read offset n).Within (g.Owns l.range) := by
  intro i hi
  obtain ⟨rfl, rfl, hle⟩ := Geometry.rangeBytes_eq hr
  have hadd := Geometry.add_length_mul hle g.blockSize
  exact ⟨Nat.le_add_right _ _, by omega⟩

theorem readBack_agree {offset n : Nat} (hr : g.rangeBytes l.range = .ok (offset, n))
    (h : Agree (g.Owns l.range) m m') :
    (readBack Memory.device c g l offset n m).1 = (readBack Memory.device c g l offset n m').1 ∧
      Agree (g.Owns l.range) (readBack Memory.device c g l offset n m).2
        (readBack Memory.device c g l offset n m').2 := by
  generalize hx : Memory.device.answer (.read offset n) m' = x
  obtain ⟨reply, e'⟩ := x
  obtain ⟨e, he, h⟩ := h.answer (within_read hr) hx
  rw [readBack, readBack, he, hx]
  cases reply with
  | ok bytes => exact ⟨rfl, h⟩
  | error e => cases e <;> exact ⟨rfl, h⟩

theorem verify_agree (h : Agree (g.Owns l.range) m m') :
    (verify Memory.device c g l m).1 = (verify Memory.device c g l m').1 ∧
      Agree (g.Owns l.range) (verify Memory.device c g l m).2
        (verify Memory.device c g l m').2 := by
  cases hl : l.anyWritten with
  | false =>
    rw [verify_unwritten hl, verify_unwritten hl]
    exact ⟨rfl, h⟩
  | true =>
    cases hr : g.rangeBytes l.range with
    | error f =>
      rw [verify, verify, if_pos hl, if_pos hl, hr]
      exact ⟨rfl, h⟩
    | ok p =>
      obtain ⟨offset, n⟩ := p
      generalize hx : Memory.device.answer (.invalidate offset n) m' = x
      obtain ⟨reply, e'⟩ := x
      obtain ⟨e, he, h⟩ := h.answer (within_invalidate offset n) hx
      by_cases hf : ∃ f, reply = .error (.fault f)
      · obtain ⟨f, rfl⟩ := hf
        rw [verify_fault hl hr hx, verify_fault hl hr he]
        exact ⟨rfl, h⟩
      · have hf (f : Fault) : reply ≠ .error (.fault f) := fun h => hf ⟨f, h⟩
        rw [verify_eq_readBack hl hr hx hf, verify_eq_readBack hl hr he hf]
        exact readBack_agree hr h

theorem readBack_keeps (offset n : Nat) (hm : m.Sound) :
    Agree (fun _ => True) (readBack Memory.device c g l offset n m).2 m := by
  generalize hx : Memory.device.answer (.read offset n) m = x
  obtain ⟨reply, e⟩ := x
  have hkeeps : Agree (fun _ => ¬ False) e m := hm.keeps (fun _ ht => ht) hx
  have h : Agree (fun _ => True) e m := hkeeps.mono fun _ _ => not_false
  rw [readBack, hx]
  cases reply with
  | ok bytes => exact h
  | error e => cases e <;> exact h

theorem verify_keeps (hm : m.Sound) :
    Agree (fun _ => True) (verify Memory.device c g l m).2 m := by
  cases hl : l.anyWritten with
  | false =>
    rw [verify_unwritten hl]
    exact .refl _ hm
  | true =>
    cases hr : g.rangeBytes l.range with
    | error f =>
      rw [verify, if_pos hl, hr]
      exact .refl _ hm
    | ok p =>
      obtain ⟨offset, n⟩ := p
      generalize hx : Memory.device.answer (.invalidate offset n) m = x
      obtain ⟨reply, e⟩ := x
      have hkeeps : Agree (fun _ => ¬ False) e m := hm.keeps (fun _ ht => ht) hx
      have h : Agree (fun _ => True) e m := hkeeps.mono fun _ _ => not_false
      by_cases hf : ∃ f, reply = .error (.fault f)
      · obtain ⟨f, rfl⟩ := hf
        rw [verify_fault hl hr hx]
        exact h
      · rw [verify_eq_readBack hl hr hx fun f h => hf ⟨f, h⟩]
        exact (readBack_keeps offset n h.left).trans h

end Outcome

end Readback
