import Readback.Config
import Readback.Proofs.Except

namespace Readback

namespace Stats

/-- No counter is behind where it was. -/
def Le (s s' : Stats) : Prop :=
  ∀ x, (s.get x).toNat ≤ (s'.get x).toNat

theorem Le.refl (s : Stats) : s.Le s :=
  fun _ => Nat.le_refl _

theorem zero_le (s : Stats) : zero.Le s := by
  intro x
  cases x <;> exact Nat.zero_le _

theorem Le.trans {s s' s'' : Stats} (h : s.Le s') (h' : s'.Le s'') : s.Le s'' :=
  fun x => Nat.le_trans (h x) (h' x)

theorem Le.set {s s' : Stats} (h : s.Le s') (c : Counter) : (s.set c (s'.get c)).Le s' := by
  intro x
  by_cases hx : x = c
  · exact Nat.le_of_eq (by rw [hx, get_set_self])
  · rw [get_set_of_ne s hx]
    exact h x

end Stats

namespace Stop.Policy

variable {p : Policy} {s s' : Stats} {now now' : Instant} {reason : Reason}

/-- The condition for which a reason to stop stands is met. -/
def Meets (p : Policy) (s : Stats) (now : Instant) : Reason → Prop
  | .failure => p.stopOnFailure = true ∧ 0 < s.mismatches
  | .iterationBudget => p.maxIterations.any (· ≤ s.iterations) = true
  | .fullCoverage => p.untilVerified.any (· ≤ s.verified) = true
  | .deadline => p.deadline.any (·.nanos ≤ now.nanos) = true
  | .signalled => False
  | .aborted => False

theorem meets_of_evaluate (h : p.evaluate s now = some reason) : p.Meets s now reason := by
  unfold evaluate at h
  split at h
  · cases h
    assumption
  split at h
  · cases h
    assumption
  split at h
  · cases h
    assumption
  split at h
  · cases h
    assumption
  · cases h

theorem Meets.evaluate (h : p.Meets s now reason) : p.evaluate s now ≠ none := by
  intro he
  unfold Policy.evaluate at he
  split at he
  · cases he
  split at he
  · cases he
  split at he
  · cases he
  split at he
  · cases he
  cases reason <;> contradiction

theorem any_mono {α : Type} {o : Option α} {f g : α → Bool} (h : o.any f = true)
    (hfg : ∀ a, f a = true → g a = true) : o.any g = true := by
  cases o with
  | none => cases h
  | some a => exact hfg a h

theorem Meets.mono (h : p.Meets s now reason) (hs : s.Le s') (hnow : now.nanos ≤ now'.nanos) :
    p.Meets s' now' reason := by
  have le (x : Counter) : s.get x ≤ s'.get x := UInt64.le_iff_toNat_le.mpr (hs x)
  cases reason with
  | failure => exact ⟨h.1, UInt64.lt_of_lt_of_le h.2 (le .mismatches)⟩
  | iterationBudget =>
    refine any_mono h fun n hn => decide_eq_true ?_
    exact UInt64.le_trans (of_decide_eq_true hn) (le .iterations)
  | fullCoverage =>
    refine any_mono h fun n hn => decide_eq_true ?_
    exact UInt64.le_trans (of_decide_eq_true hn) (le .verified)
  | deadline =>
    refine any_mono h fun t ht => decide_eq_true ?_
    exact Int.le_trans (of_decide_eq_true ht) hnow
  | signalled => exact h
  | aborted => exact h

/-- Once there is a reason to stop, there is one ever after. -/
theorem evaluate_mono (h : p.evaluate s now ≠ none) (hs : s.Le s')
    (hnow : now.nanos ≤ now'.nanos) : p.evaluate s' now' ≠ none := by
  obtain ⟨reason, hreason⟩ := Option.ne_none_iff_exists'.mp h
  exact ((meets_of_evaluate hreason).mono hs hnow).evaluate

end Stop.Policy

def Stop.Reason.counter? : Stop.Reason → Option Counter
  | .iterationBudget => some .iterations
  | .fullCoverage => some .verified
  | .failure => some .mismatches
  | .deadline => none
  | .signalled => none
  | .aborted => none

/-- A flag that is raised without a reason was raised from outside; any other reason was given. -/
theorem Stop.Signal.given_of_reason {s : Stop.Signal} {reason : Stop.Reason}
    (h : s.reason = some reason) (hr : reason ≠ .signalled) : s.given = some reason := by
  unfold Stop.Signal.reason at h
  cases hg : s.given with
  | none =>
    rw [hg, Option.none_or] at h
    split at h
    · cases h
      exact absurd rfl hr
    · cases h
  | some first =>
    rw [hg] at h
    exact h

theorem Instant.add_eq {t later : Instant} {d : Duration} (h : t.add d = .ok later) :
    later.nanos = t.nanos + d.nanos := by
  by_cases hs : (⟨t.nanos + d.nanos⟩ : Instant).shown = true
  · rw [add, if_pos hs] at h
    cases h
    rfl
  · rw [add, if_neg hs] at h
    cases h

theorem Instant.shown_iff {t : Instant} :
    t.shown = true ↔ -(range * Duration.second) ≤ t.nanos ∧ t.nanos < range * Duration.second := by
  rw [shown, Bool.and_eq_true, decide_eq_true_iff, decide_eq_true_iff]
  simp only [range, Duration.second]
  omega

theorem Instant.add_of_lt {t : Instant} {d : Duration} (ht : t.shown = true)
    (h : t.nanos + d.nanos < range * Duration.second) : t.add d = .ok ⟨t.nanos + d.nanos⟩ := by
  obtain ⟨hlow, -⟩ := shown_iff.mp ht
  exact if_pos (shown_iff.mpr ⟨by simp only; omega, h⟩)

theorem Instant.add_of_le {t : Instant} {d : Duration}
    (h : range * Duration.second ≤ t.nanos + d.nanos) : t.add d = .error .overflow :=
  if_neg fun hs => Int.not_lt.mpr h (shown_iff.mp hs).2

namespace Config

variable {c : Config} {start now : Instant} {nBlocks : Nat} {p : Stop.Policy} {s s' : Stats}
  {x : Counter}

def threshold (c : Config) (nBlocks : Nat) : Counter → Option Nat
  | .iterations => c.count.map UInt64.toNat
  | .verified => if c.stopAtFull then some nBlocks else none
  | .mismatches => if c.stopOnFailure then some 1 else none
  | _ => none

/-- The condition to stop that speaks of a counter is met. -/
def Met (c : Config) (nBlocks : Nat) (x : Counter) (s : Stats) : Prop :=
  ∃ n, c.threshold nBlocks x = some n ∧ n ≤ (s.get x).toNat

instance (c : Config) (nBlocks : Nat) (x : Counter) (s : Stats) :
    Decidable (c.Met nBlocks x s) :=
  match h : c.threshold nBlocks x with
  | none => isFalse fun ⟨_, hn, _⟩ => nomatch h.symm.trans hn
  | some n =>
    decidable_of_iff (n ≤ (s.get x).toNat)
      ⟨fun hle => ⟨n, h, hle⟩, fun ⟨_, hm, hle⟩ => Option.some.inj (hm.symm.trans h) ▸ hle⟩

theorem Met.mono (h : c.Met nBlocks x s) (hs : s.Le s') : c.Met nBlocks x s' := by
  obtain ⟨n, hn, hle⟩ := h
  exact ⟨n, hn, Nat.le_trans hle (hs x)⟩

theorem Met.count_le (h : c.Met nBlocks .iterations s) :
    ∃ n, c.count = some n ∧ n ≤ s.iterations := by
  obtain ⟨m, hm, hle⟩ := h
  obtain ⟨n, hn, rfl⟩ := Option.map_eq_some_iff.mp hm
  exact ⟨n, hn, UInt64.le_iff_toNat_le.mpr hle⟩

theorem Met.nBlocks_le (h : c.Met nBlocks .verified s) :
    c.stopAtFull = true ∧ nBlocks ≤ s.verified.toNat := by
  obtain ⟨m, hm, hle⟩ := h
  rw [threshold] at hm
  obtain ⟨hfull, he⟩ := Option.ite_none_right_eq_some.mp hm
  cases he
  exact ⟨hfull, hle⟩

theorem Met.mismatches_pos (h : c.Met nBlocks .mismatches s) :
    c.stopOnFailure = true ∧ 0 < s.mismatches := by
  obtain ⟨m, hm, hle⟩ := h
  rw [threshold] at hm
  obtain ⟨hfailure, he⟩ := Option.ite_none_right_eq_some.mp hm
  cases he
  exact ⟨hfailure, UInt64.lt_iff_toNat_lt.mpr hle⟩

/-- If the reason speaks of a counter, its condition is met. -/
def Justifies (c : Config) (nBlocks : Nat) (s : Stats) (reason : Stop.Reason) : Prop :=
  ∀ x, reason.counter? = some x → c.Met nBlocks x s

theorem Justifies.mono {reason : Stop.Reason} (h : c.Justifies nBlocks s reason) (hs : s.Le s') :
    c.Justifies nBlocks s' reason :=
  fun x hx => (h x hx).mono hs

theorem policy_ok (h : c.policy start nBlocks = .ok p) :
    p.maxIterations = c.count ∧
      p.untilVerified = (if c.stopAtFull then some nBlocks.toUInt64 else none) ∧
      p.stopOnFailure = c.stopOnFailure := by
  obtain ⟨deadline, -, h⟩ := bind_eq_ok h
  cases h
  exact ⟨rfl, rfl, rfl⟩

theorem exists_policy (h : ∀ t, c.duration = some t → ∃ later, start.add t = .ok later)
    (nBlocks : Nat) : ∃ p, c.policy start nBlocks = .ok p := by
  unfold policy
  cases hd : c.duration with
  | none => exact ⟨_, rfl⟩
  | some t =>
    obtain ⟨later, hlater⟩ := h t hd
    exact ⟨_, by simp only [Option.mapM_some, hlater, bind, Except.bind]; rfl⟩

theorem iterations_iff (hp : c.policy start nBlocks = .ok p) :
    p.maxIterations.any (· ≤ s.iterations) = true ↔ c.Met nBlocks .iterations s := by
  rw [(policy_ok hp).1, Met, threshold]
  cases c.count with
  | none => exact ⟨nofun, fun ⟨n, hn, _⟩ => nomatch hn⟩
  | some m =>
    rw [Option.any_some, decide_eq_true_iff, UInt64.le_iff_toNat_le, Option.map_some]
    constructor
    · intro hle
      exact ⟨m.toNat, rfl, hle⟩
    · rintro ⟨n, hn, hle⟩
      exact Option.some.inj hn ▸ hle

theorem verified_iff (hp : c.policy start nBlocks = .ok p) (hn : nBlocks < Word.limit) :
    p.untilVerified.any (· ≤ s.verified) = true ↔ c.Met nBlocks .verified s := by
  rw [(policy_ok hp).2.1, Met, threshold]
  cases c.stopAtFull with
  | false => exact ⟨nofun, fun ⟨n, hn, _⟩ => nomatch hn⟩
  | true =>
    have hfit : nBlocks.toUInt64.toNat = nBlocks := by
      rw [Nat.toUInt64_eq, UInt64.toNat_ofNat']
      exact Nat.mod_eq_of_lt hn
    rw [if_pos rfl, if_pos rfl, Option.any_some, decide_eq_true_iff, UInt64.le_iff_toNat_le, hfit]
    constructor
    · intro hle
      exact ⟨nBlocks, rfl, hle⟩
    · rintro ⟨n, hn, hle⟩
      exact Option.some.inj hn ▸ hle

theorem mismatches_iff (hp : c.policy start nBlocks = .ok p) :
    p.stopOnFailure = true ∧ 0 < s.mismatches ↔ c.Met nBlocks .mismatches s := by
  rw [(policy_ok hp).2.2, Met, threshold]
  cases c.stopOnFailure with
  | false => exact ⟨nofun, fun ⟨n, hn, _⟩ => nomatch hn⟩
  | true =>
    rw [if_pos rfl, UInt64.lt_iff_toNat_lt]
    constructor
    · rintro ⟨-, hpos⟩
      exact ⟨1, rfl, hpos⟩
    · rintro ⟨n, hn, hle⟩
      obtain rfl : 1 = n := Option.some.inj hn
      exact ⟨rfl, hle⟩

theorem Met.evaluate (h : c.Met nBlocks x s) (hp : c.policy start nBlocks = .ok p)
    (hn : nBlocks < Word.limit) : p.evaluate s now ≠ none := by
  cases x with
  | iterations =>
    have hmeets : p.Meets s now .iterationBudget := (iterations_iff hp).mpr h
    exact hmeets.evaluate
  | verified =>
    have hmeets : p.Meets s now .fullCoverage := (verified_iff hp hn).mpr h
    exact hmeets.evaluate
  | mismatches =>
    have hmeets : p.Meets s now .failure := (mismatches_iff hp).mpr h
    exact hmeets.evaluate
  | _ =>
    obtain ⟨n, ht, -⟩ := h
    cases ht

theorem justifies_of_evaluate {reason : Stop.Reason} (h : p.evaluate s now = some reason)
    (hp : c.policy start nBlocks = .ok p) (hn : nBlocks < Word.limit) :
    c.Justifies nBlocks s reason := by
  have hmeets := Stop.Policy.meets_of_evaluate h
  intro x hx
  cases reason with
  | iterationBudget =>
    cases hx
    exact (iterations_iff hp).mp hmeets
  | fullCoverage =>
    cases hx
    exact (verified_iff hp hn).mp hmeets
  | failure =>
    cases hx
    exact (mismatches_iff hp).mp hmeets
  | _ => cases hx

theorem evaluate_ne_aborted : p.evaluate s now ≠ some .aborted :=
  fun h => Stop.Policy.meets_of_evaluate h

theorem evaluate_ne_signalled : p.evaluate s now ≠ some .signalled :=
  fun h => Stop.Policy.meets_of_evaluate h

theorem elapsed_of_evaluate (h : p.evaluate s now = some .deadline)
    (hp : c.policy start nBlocks = .ok p) :
    ∃ t, c.duration = some t ∧ start.nanos + t.nanos ≤ now.nanos := by
  have hmeets := Stop.Policy.meets_of_evaluate h
  obtain ⟨deadline, hd, hp⟩ := bind_eq_ok hp
  cases hp
  cases ht : c.duration with
  | none =>
    rw [ht] at hd
    cases hd
    cases hmeets
  | some t =>
    rw [ht, Option.mapM_some] at hd
    obtain ⟨later, hlater, hd⟩ := bind_eq_ok hd
    cases hd
    refine ⟨t, rfl, ?_⟩
    rw [← Instant.add_eq hlater]
    exact of_decide_eq_true hmeets

end Config

end Readback
