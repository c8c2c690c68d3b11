import Mathlib.Algebra.GroupWithZero.Nat
import Readback.Proofs.Run.Custody
import Readback.Proofs.Worker.Act

namespace Readback

namespace Act

def total (x : Counter) (acts : List (Nat × Act)) : Nat :=
  (acts.map fun a => a.2.adds x).sum

def counted (k : Nat) (acts : List (Nat × Act)) : Nat :=
  acts.countP fun a => a.1 = k ∧ a.2.counts

theorem total_append (x : Counter) (acts acts' : List (Nat × Act)) :
    total x (acts ++ acts') = total x acts + total x acts' := by
  rw [total, List.map_append, List.sum_append]
  rfl

theorem counted_append (k : Nat) (acts acts' : List (Nat × Act)) :
    counted k (acts ++ acts') = counted k acts + counted k acts' :=
  List.countP_append

end Act

namespace Run

variable {σ : Type} {dev : Device σ} {r : Run σ} {now : Instant} {i k : Nat} {w v : Worker}
  {t : Worker.Turn σ}

def act? (r : Run σ) : Move → Option (Nat × Act)
  | .step i _ => r.workers[i]?.bind fun w => (w.act? r.job r.shared).map (i, ·)
  | .interrupt => none

def trace (dev : Device σ) : Run σ → List Move → List (Nat × Act)
  | _, [] => []
  | r, m :: rest => (r.act? m).toList ++ trace dev (r.move dev m) rest

theorem trace_append (r : Run σ) (before after : List Move) :
    r.trace dev (before ++ after) = r.trace dev before ++ (r.play dev before).trace dev after := by
  induction before generalizing r with
  | nil => rfl
  | cons m rest ih =>
    rw [List.cons_append, trace, ih, trace, List.append_assoc]
    rfl

theorem act?_step (hw : r.workers[i]? = some w) :
    r.act? (.step i now) = (w.act? r.job r.shared).map (i, ·) := by
  rw [act?, hw]
  rfl

theorem act?_of_none (h : r.workers[i]? = none) : r.act? (.step i now) = none := by
  rw [act?, h]
  rfl

/-- What holds after any move, if it holds before: a move is a step of a worker that is there, or
changes nothing but the stop flag. -/
theorem play_induction {P : Run σ → Prop}
    (hstep : ∀ {r : Run σ} {i : Nat} {now : Instant} {w : Worker} {t : Worker.Turn σ}, P r →
      r.workers[i]? = some w → w.Transition dev r.job now r.shared r.device t → P (r.after i w t))
    (hinterrupt : ∀ {r : Run σ}, P r → P r.interrupt) (h : P r) (moves : List Move) :
    P (r.play dev moves) := by
  induction moves generalizing r with
  | nil => exact h
  | cons m rest ih =>
    apply ih
    cases m with
    | step i now => exact step_induction h fun w hw t ht _ => hstep h hw ht
    | interrupt => exact hinterrupt h

theorem move_job (r : Run σ) (dev : Device σ) (m : Move) : (r.move dev m).job = r.job := by
  cases m with
  | step i now => exact step_job r dev now i
  | interrupt => rfl

theorem move_size (r : Run σ) (dev : Device σ) (m : Move) :
    (r.move dev m).workers.size = r.workers.size := by
  cases m with
  | interrupt => rfl
  | step i now =>
    exact step_induction (P := fun s => s.workers.size = r.workers.size) rfl
      fun w hw t ht _ => Array.size_setIfInBounds

theorem play_size (r : Run σ) (dev : Device σ) (moves : List Move) :
    (r.play dev moves).workers.size = r.workers.size := by
  induction moves generalizing r with
  | nil => rfl
  | cons m rest ih => exact (ih _).trans (move_size r dev m)

theorem play_job (r : Run σ) (dev : Device σ) (moves : List Move) :
    (r.play dev moves).job = r.job := by
  induction moves generalizing r with
  | nil => rfl
  | cons m rest ih => exact (ih _).trans (move_job r dev m)

theorem exists_move_of_trace {moves : List Move} {pre post : List (Nat × Act)} {a : Nat × Act}
    (h : r.trace dev moves = pre ++ a :: post) :
    ∃ before m after, moves = before ++ m :: after ∧ r.trace dev before = pre ∧
      (r.play dev before).act? m = some a := by
  induction moves generalizing r pre with
  | nil => cases pre <;> cases h
  | cons m rest ih =>
    rw [trace] at h
    cases ha : r.act? m with
    | none =>
      rw [ha] at h
      obtain ⟨before, m', after, rfl, hpre, hact⟩ := ih h
      refine ⟨m :: before, m', after, rfl, ?_, hact⟩
      rw [trace, ha]
      exact hpre
    | some b =>
      rw [ha] at h
      cases pre with
      | nil =>
        cases h
        exact ⟨[], m, rest, rfl, rfl, ha⟩
      | cons c pre =>
        obtain ⟨rfl, hrest⟩ := List.cons.inj h
        obtain ⟨before, m', after, rfl, hpre, hact⟩ := ih hrest
        refine ⟨m :: before, m', after, rfl, ?_, hact⟩
        rw [trace, ha, hpre]
        rfl

theorem exists_of_act? {m : Move} {a : Act} (h : r.act? m = some (i, a)) :
    ∃ now w, m = .step i now ∧ r.workers[i]? = some w ∧ w.Does r.job r.shared a := by
  cases m with
  | interrupt => cases h
  | step k now =>
    cases hw : r.workers[k]? with
    | none =>
      rw [act?_of_none hw] at h
      cases h
    | some w =>
      rw [act?_step hw] at h
      obtain ⟨b, hb, he⟩ := Option.map_eq_some_iff.mp h
      cases he
      exact ⟨now, w, rfl, hw, Worker.does_of_act? hb⟩

section Notes

variable {α : Type} {f : Run σ → Instant → Worker → Option α} {done : List (Nat × α)}

/-- What `f` tells of a move, and of which worker. -/
def noted? (f : Run σ → Instant → Worker → Option α) (r : Run σ) : Move → Option (Nat × α)
  | .step i now => r.workers[i]?.bind fun w => (f r now w).map (i, ·)
  | .interrupt => none

def notes (f : Run σ → Instant → Worker → Option α) (dev : Device σ) :
    Run σ → List Move → List (Nat × α)
  | _, [] => []
  | r, m :: rest => (r.noted? f m).toList ++ notes f dev (r.move dev m) rest

/-- What holds after some moves of all that is told of them, if it holds before. -/
theorem notes_induction {P : List (Nat × α) → Run σ → Prop} {moves : List Move}
    (hstep : ∀ {done r i w now}, P done r → r.workers[i]? = some w →
      P (done ++ ((f r now w).map (i, ·)).toList)
        (r.after i w (w.step dev r.job now r.shared r.device)))
    (hinterrupt : .interrupt ∈ moves → ∀ {done r}, P done r → P done r.interrupt)
    (h : P done r) : P (done ++ r.notes f dev moves) (r.play dev moves) := by
  induction moves generalizing r done with
  | nil => rwa [notes, List.append_nil]
  | cons m rest ih =>
    rw [notes, ← List.append_assoc]
    apply ih fun hm => hinterrupt (List.mem_cons_of_mem _ hm)
    cases m with
    | interrupt =>
      rw [noted?, Option.toList_none, List.append_nil]
      exact hinterrupt List.mem_cons_self h
    | step i now =>
      cases hw : r.workers[i]? with
      | none =>
        rw [noted?, hw, Option.bind_none, Option.toList_none, List.append_nil, move, step_of_none hw]
        exact h
      | some w =>
        rw [noted?, hw, Option.bind_some, move, step_eq hw]
        exact hstep h hw

theorem trace_eq_notes (r : Run σ) (dev : Device σ) (moves : List Move) :
    r.trace dev moves = r.notes (fun r _ w => w.act? r.job r.shared) dev moves := by
  induction moves generalizing r with
  | nil => rfl
  | cons m rest ih =>
    rw [trace, notes, ih]
    cases m <;> rfl

/-- What holds after some moves of all that is done in them, if it holds before. -/
theorem trace_induction {P : List (Nat × Act) → Run σ → Prop} {acts : List (Nat × Act)}
    (hstep : ∀ {acts r i w now}, P acts r → r.workers[i]? = some w →
      P (acts ++ ((w.act? r.job r.shared).map (i, ·)).toList)
        (r.after i w (w.step dev r.job now r.shared r.device)))
    (hinterrupt : ∀ {acts r}, P acts r → P acts r.interrupt) (h : P acts r) (moves : List Move) :
    P (acts ++ r.trace dev moves) (r.play dev moves) := by
  rw [trace_eq_notes]
  exact notes_induction hstep (fun _ _ _ => hinterrupt) h

end Notes

def sum (f : Worker → Nat) (r : Run σ) : Nat :=
  (r.workers.toList.map f).sum

theorem sum_set {f : Worker → Nat} {ws : List Worker} (h : ws[i]? = some w) (v : Worker) :
    ((ws.set i v).map f).sum + f w = (ws.map f).sum + f v := by
  induction ws generalizing i with
  | nil => cases h
  | cons u rest ih =>
    cases i with
    | zero =>
      obtain rfl : u = w := by simpa using h
      simp only [List.set_cons_zero, List.map_cons, List.sum_cons]
      omega
    | succ i =>
      have hrest := ih (i := i) (by simpa using h)
      simp only [List.set_cons_succ, List.map_cons, List.sum_cons]
      omega

theorem sum_after {f : Worker → Nat} (hw : r.workers[i]? = some w) :
    (r.after i w t).sum f + f w = r.sum f + f t.worker := by
  have hw' : r.workers.toList[i]? = some w := by simpa using hw
  have h := sum_set (f := f) hw' t.worker
  simpa only [sum, after, Array.toList_setIfInBounds] using h

theorem sum_eq_zero {f : Worker → Nat}
    (h : ∀ (k : Nat) (v : Worker), r.workers[k]? = some v → f v = 0) : r.sum f = 0 := by
  have hws : ∀ v ∈ r.workers.toList, f v = 0 := by
    intro v hv
    obtain ⟨k, hk⟩ := List.getElem?_of_mem hv
    exact h k v (by rwa [Array.getElem?_toList] at hk)
  rw [sum, List.map_congr_left hws, List.map_const']
  exact List.sum_replicate_nat.trans (Nat.mul_zero _)

/-- The counters are wide enough for all that is added to them. -/
def NoWrap (dev : Device σ) (r : Run σ) (moves : List Move) : Prop :=
  ∀ x, (r.shared.stats.get x).toNat + Act.total x (r.trace dev moves) < Word.limit

theorem total_turn (w : Worker) (i : Nat) (j : Job) (s : Shared) (x : Counter) :
    Act.total x ((w.act? j s).map (i, ·)).toList = w.phase.adding x := by
  rw [← Worker.act?_adds (j := j) (s := s)]
  cases w.act? j s <;> rfl

theorem total_step (hw : r.workers[i]? = some w) (x : Counter) :
    Act.total x (r.act? (.step i now)).toList = w.phase.adding x := by
  rw [act?_step hw]
  exact total_turn w i r.job r.shared x

theorem get_stats_move (r : Run σ) (dev : Device σ) (m : Move) (x : Counter) :
    (r.move dev m).shared.stats.get x =
      r.shared.stats.get x + .ofNat (Act.total x (r.act? m).toList) := by
  cases m with
  | interrupt => exact (UInt64.add_zero _).symm
  | step i now =>
    cases hw : r.workers[i]? with
    | none =>
      rw [act?_of_none hw, move, step_of_none hw]
      exact (UInt64.add_zero _).symm
    | some w =>
      rw [total_step hw, move, step_eq hw]
      exact Worker.step_transition.get_stats x

/-- The counters hold all that was added to them, but for what wrapped around. -/
theorem get_stats_play (r : Run σ) (dev : Device σ) (moves : List Move) (x : Counter) :
    (r.play dev moves).shared.stats.get x =
      r.shared.stats.get x + .ofNat (Act.total x (r.trace dev moves)) := by
  induction moves generalizing r with
  | nil => exact (UInt64.add_zero _).symm
  | cons m rest ih =>
    rw [trace, Act.total_append, UInt64.ofNat_add, ← UInt64.add_assoc, ← get_stats_move]
    exact ih _

theorem toNat_stats_move (m : Move) {x : Counter}
    (h : (r.shared.stats.get x).toNat + Act.total x (r.act? m).toList < Word.limit) :
    ((r.move dev m).shared.stats.get x).toNat =
      (r.shared.stats.get x).toNat + Act.total x (r.act? m).toList := by
  rw [get_stats_move, UInt64.toNat_add, UInt64.toNat_ofNat', Nat.add_mod_mod]
  exact Nat.mod_eq_of_lt h

theorem NoWrap.move {m : Move} {rest : List Move} (h : r.NoWrap dev (m :: rest)) (x : Counter) :
    ((r.move dev m).shared.stats.get x).toNat =
      (r.shared.stats.get x).toNat + Act.total x (r.act? m).toList := by
  apply toNat_stats_move
  have hx := h x
  rw [trace, Act.total_append] at hx
  omega

theorem NoWrap.tail {m : Move} {rest : List Move} (h : r.NoWrap dev (m :: rest)) :
    (r.move dev m).NoWrap dev rest := by
  intro x
  have hx := h x
  rw [trace, Act.total_append] at hx
  rw [h.move]
  omega

/-- The counters hold all that was added to them. -/
theorem NoWrap.play {moves : List Move} (h : r.NoWrap dev moves) (x : Counter) :
    ((r.play dev moves).shared.stats.get x).toNat =
      (r.shared.stats.get x).toNat + Act.total x (r.trace dev moves) := by
  rw [get_stats_play, UInt64.toNat_add, UInt64.toNat_ofNat', Nat.add_mod_mod]
  exact Nat.mod_eq_of_lt (h x)

theorem NoWrap.before {before after : List Move} (h : r.NoWrap dev (before ++ after)) :
    r.NoWrap dev before := by
  intro x
  have hx := h x
  rw [trace_append, Act.total_append] at hx
  omega

theorem NoWrap.after {before after : List Move} (h : r.NoWrap dev (before ++ after)) :
    (r.play dev before).NoWrap dev after := by
  intro x
  have hx := h x
  rw [trace_append, Act.total_append] at hx
  rw [h.before.play]
  omega

end Run

end Readback
