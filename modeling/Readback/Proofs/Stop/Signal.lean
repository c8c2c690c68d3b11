import Readback.Stop

namespace Readback.Stop

/-- What one of the parties that share a signal does at once.  To raise it with a reason takes a
caller two steps, and others may come between them. -/
inductive Step
  | give (caller : Nat) (r : Reason)
  | raise (caller : Nat)
  /-- The flag is raised from outside. -/
  | interrupt
  deriving DecidableEq

def Step.reason? : Step → Option Reason
  | .give _ r => some r
  | _ => none

def firstGiven (steps : List Step) : Option Reason :=
  steps.findSome? Step.reason?

/-- What `reason` answers if it finds the given reason as in `s` and the flag as in `later`. -/
def Signal.reasonAcross (s later : Signal) : Option Reason :=
  s.given.or (if later.raised then some .signalled else none)

/-- A signal in use, and the callers that gave a reason and are about to raise the flag. -/
structure Race where
  signal : Signal
  between : List Nat

namespace Race

def new (up : Bool) : Race :=
  ⟨.make up, []⟩

/-- A step that is not the next of its caller does nothing. -/
def step (x : Race) : Step → Race
  | .give caller r =>
    if caller ∈ x.between then x else ⟨x.signal.give r, caller :: x.between⟩
  | .raise caller =>
    if caller ∈ x.between then ⟨x.signal.setFlag true, x.between.erase caller⟩ else x
  | .interrupt => { x with signal := x.signal.setFlag true }

def play (x : Race) (steps : List Step) : Race :=
  steps.foldl step x

/-- Whoever is about to raise the flag gave a reason before. -/
def Ordered (x : Race) : Prop :=
  ∀ caller ∈ x.between, x.signal.given.isSome

theorem ordered_new (up : Bool) : (new up).Ordered :=
  nofun

/-- Only the first reason given is kept. -/
theorem Ordered.given_step {x : Race} (hx : x.Ordered) (s : Step) :
    (x.step s).signal.given = x.signal.given.or s.reason? := by
  cases s with
  | give caller r =>
    rw [step]
    split
    · rename_i hc
      exact (Option.or_of_isSome (hx caller hc)).symm
    · rfl
  | raise caller =>
    rw [step]
    split
    · exact Option.or_none.symm
    · exact Option.or_none.symm
  | interrupt => exact Option.or_none.symm

theorem Ordered.step {x : Race} (hx : x.Ordered) (s : Step) : (x.step s).Ordered := by
  intro c hc
  rw [hx.given_step]
  cases s with
  | give caller r =>
    cases x.signal.given with
    | none => rfl
    | some first => rfl
  | raise caller =>
    simp only [Step.reason?, Option.or_none]
    rw [Race.step] at hc
    split at hc
    · exact hx c (List.mem_of_mem_erase hc)
    · exact hx c hc
  | interrupt =>
    simp only [Step.reason?, Option.or_none]
    exact hx c hc

theorem Ordered.play {x : Race} (hx : x.Ordered) (steps : List Step) : (x.play steps).Ordered := by
  induction steps generalizing x with
  | nil => exact hx
  | cons s rest ih => exact ih (hx.step s)

theorem Ordered.given_play {x : Race} (hx : x.Ordered) (steps : List Step) :
    (x.play steps).signal.given = x.signal.given.or (firstGiven steps) := by
  induction steps generalizing x with
  | nil => exact Option.or_none.symm
  | cons s rest ih =>
    refine (ih (hx.step s)).trans ?_
    rw [hx.given_step, Option.or_assoc, firstGiven, firstGiven, List.findSome?_cons]
    cases s.reason? with
    | none => rfl
    | some r => rfl

theorem raised_step {x : Race} (h : x.signal.raised = true) (s : Step) :
    (x.step s).signal.raised = true := by
  cases s with
  | give caller r =>
    rw [step]
    split
    · exact h
    · exact h
  | raise caller =>
    rw [step]
    split
    · rfl
    · exact h
  | interrupt => rfl

theorem raised_play {x : Race} (h : x.signal.raised = true) (steps : List Step) :
    (x.play steps).signal.raised = true := by
  induction steps generalizing x with
  | nil => exact h
  | cons s rest ih => exact ih (raised_step h s)

theorem Ordered.outside_step {x : Race} (hx : x.Ordered) {s : Step}
    (hr : (x.step s).signal.raised = true) (hg : (x.step s).signal.given = none) :
    x.signal.raised = true ∨ s = .interrupt := by
  cases s with
  | give caller r =>
    rw [Race.step] at hr
    split at hr
    · exact .inl hr
    · exact .inl hr
  | raise caller =>
    rw [Race.step] at hr hg
    split at hr
    · rename_i hc
      rw [if_pos hc] at hg
      have hs := hx caller hc
      rw [show x.signal.given = none from hg] at hs
      cases hs
    · exact .inl hr
  | interrupt => exact .inr rfl

theorem Ordered.outside {x : Race} (hx : x.Ordered) {steps : List Step}
    (hr : (x.play steps).signal.raised = true) (hg : (x.play steps).signal.given = none) :
    x.signal.raised = true ∨ .interrupt ∈ steps := by
  induction steps generalizing x with
  | nil => exact .inl hr
  | cons s rest ih =>
    rcases ih (hx.step s) hr hg with hs | hm
    · have hnone : (x.step s).signal.given = none := by
        have := (hx.step s).given_play rest
        rw [show ((x.step s).play rest).signal.given = none from hg] at this
        exact (Option.or_eq_none_iff.mp this.symm).1
      rcases hx.outside_step hs hnone with hup | rfl
      · exact .inl hup
      · exact .inr List.mem_cons_self
    · exact .inr (List.mem_cons_of_mem _ hm)

theorem reason_of_raised {s : Signal} (h : s.raised = true) :
    s.reason = s.given.or (some .signalled) := by
  rw [Signal.reason, if_pos h]

end Race

/-- Once the flag is up there is a reason.  One that was given stays; a flag that went up without
one went up from outside, and then the reason is `signalled` until the first one is given. -/
theorem reason_settles (up : Bool) (before later : List Step)
    (hup : ((Race.new up).play before).signal.raised = true) :
    let x := (Race.new up).play before
    let s := x.signal
    let s' := (x.play later).signal
    s'.raised = true ∧ s.reasonAcross s' = s.reason ∧
      ((∃ r, firstGiven before = some r ∧ s.reason = some r ∧ s'.reason = some r) ∨
        (firstGiven before = none ∧ (up = true ∨ .interrupt ∈ before) ∧
          s.reason = some .signalled ∧
          s'.reason = (firstGiven later).or (some .signalled))) := by
  intro x s s'
  have hx : x.Ordered := (Race.ordered_new up).play before
  have hup' : s'.raised = true := Race.raised_play hup later
  have hgiven : s.given = firstGiven before := (Race.ordered_new up).given_play before
  have hgiven' : s'.given = s.given.or (firstGiven later) := hx.given_play later
  have hreason : s.reason = s.given.or (some .signalled) := Race.reason_of_raised hup
  have hreason' : s'.reason = s'.given.or (some .signalled) := Race.reason_of_raised hup'
  refine ⟨hup', ?_, ?_⟩
  · rw [Signal.reasonAcross, if_pos hup', hreason]
  · rw [hgiven] at hgiven' hreason
    cases hf : firstGiven before with
    | some r =>
      rw [hf] at hgiven' hreason
      refine .inl ⟨r, rfl, hreason, ?_⟩
      rw [hreason', hgiven']
      rfl
    | none =>
      rw [hf] at hgiven' hreason
      refine .inr ⟨rfl, ?_, hreason, ?_⟩
      · exact (Race.ordered_new up).outside hup (hgiven.trans hf)
      · rw [hreason', hgiven', Option.none_or]

/-- Two callers between whose steps the flag is also raised from outside. -/
theorem reason_settles_of_two_callers :
    let before : List Step := [.give 0 .deadline, .give 1 .failure, .raise 1]
    let later : List Step := [.interrupt, .raise 0, .give 1 .iterationBudget, .raise 1]
    let x := (Race.new false).play before
    x.signal.raised = true ∧ x.signal.reason = some .deadline ∧
      (x.play later).signal.reason = some .deadline := by
  intro before later x
  have hup : x.signal.raised = true := rfl
  obtain ⟨-, -, ⟨r, hf, hr, hr'⟩ | ⟨hf, -⟩⟩ := reason_settles false before later hup
  · cases hf
    exact ⟨hup, hr, hr'⟩
  · cases hf

/-- A caller that was already at work when the flag went up from outside changes the reason. -/
theorem reason_changes_after_interrupt :
    let x := (Race.new false).play [.interrupt]
    let y := x.play [.give 0 .deadline, .raise 0]
    x.signal.raised = true ∧ x.signal.reason = some .signalled ∧
      y.signal.reason = some .deadline := by
  decide

end Readback.Stop
