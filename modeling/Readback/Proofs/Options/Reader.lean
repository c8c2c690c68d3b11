import Readback.Options.Reader
import Readback.Proofs.Except

namespace Readback.Options

variable {P : Options → Prop} {o o' : Options} {p p' : Progress} {f : Flag} {value : String}

/-- What stays true whenever a flag is given that was not given before. -/
def Kept (P : Options → Prop) : Prop :=
  ∀ {o o' : Options} {f : Flag} {value : String},
    P o → o.has f = false → o.set f value = .ok o' → P o'

theorem Kept.give (hP : Kept P) (ho : P o) (h : o.give f value = .ok o') : P o' := by
  rw [Options.give] at h
  split at h
  · cases h
  · exact hP ho (eq_false_of_ne_true ‹_›) h

namespace Progress

theorem settle_keeps (hP : Kept P) (hp : P p.options) (h : p.settle = .ok o) : P o := by
  unfold settle at h
  split at h
  · cases h
    exact hp
  · cases h
  · exact hP.give hp h

theorem refuse_ne_ok {α : Type} (p : Progress) (r : Refusal) (x : α) : p.refuse r ≠ .ok x := by
  unfold refuse
  split <;> nofun

theorem attach_keeps (hP : Kept P) (hp : P p.options) (h : p.attach f value = .ok p') :
    P p'.options := by
  obtain ⟨o, ho, h⟩ := bind_eq_ok h
  obtain ⟨o', ho', h⟩ := bind_eq_ok h
  cases h
  exact hP.give (settle_keeps hP hp ho) ho'

theorem await_keeps (hP : Kept P) (hp : P p.options) (h : p.await f = .ok p') : P p'.options := by
  obtain ⟨o, ho, h⟩ := bind_eq_ok h
  cases h
  exact settle_keeps hP hp ho

theorem long_keeps (hP : Kept P) (hp : P p.options) {s : List Char} (h : p.long s = .ok p') :
    P p'.options := by
  simp only [long] at h
  split at h
  · exact absurd h (refuse_ne_ok _ _ _)
  · split at h
    · exact absurd h (refuse_ne_ok _ _ _)
    · exact attach_keeps hP hp h
  · split at h
    · exact attach_keeps hP hp (mapError_eq_ok h)
    · exact await_keeps hP hp h

theorem letters_keeps (hP : Kept P) (hp : P p.options) {s : List Char}
    (h : p.letters s = .ok p') : P p'.options := by
  induction s generalizing p with
  | nil =>
    cases h
    exact hp
  | cons c rest ih =>
    rw [letters] at h
    split at h
    · exact absurd h (refuse_ne_ok _ _ _)
    split at h
    · obtain ⟨q, hq, h⟩ := bind_eq_ok h
      exact ih (attach_keeps hP hp hq) h
    split at h
    · exact await_keeps hP hp h
    · exact attach_keeps hP hp h
    · exact attach_keeps hP hp h

theorem argument_keeps (hP : Kept P) (hp : P p.options) {s : String}
    (h : p.argument s = .ok p') : P p'.options := by
  unfold argument at h
  split at h
  · exact long_keeps hP hp h
  · exact letters_keeps hP hp h
  · unfold plain at h
    split at h
    · cases h
      exact hp
    · exact absurd h (refuse_ne_ok _ _ _)

end Progress

theorem Kept.readAll (hP : Kept P) (hp : P p.options) {arguments : List String}
    (h : readAll p arguments = .ok o) : P o := by
  induction arguments generalizing p with
  | nil => exact Progress.settle_keeps hP hp h
  | cons s rest ih =>
    unfold Options.readAll at h
    split at h
    · split at h
      · exact Progress.settle_keeps hP hp h
      · exact absurd h (Progress.refuse_ne_ok _ _ _)
    · obtain ⟨q, hq, h⟩ := bind_eq_ok h
      exact ih (Progress.argument_keeps hP hp hq) h

/-- What holds when no flag was given, and stays true with each flag, holds of every command line
that is followed. -/
theorem Kept.read (hP : Kept P) (hnone : P none) {arguments : List String}
    (h : read arguments = .ok o) : P o :=
  hP.readAll hnone h

end Readback.Options
