import Readback.RangeLock

namespace Readback.StateTable

/-- A table for `n` blocks: a state for each, and bits for at least as many. -/
structure Sized (n : Nat) (t : StateTable) : Prop where
  states : t.states.size = n
  words : t.words.size = (n + 63) / 64

def stateAt (t : StateTable) (block : Nat) : BlockState :=
  t.states.getD block none

theorem sized_of_make {n : Nat} {t : StateTable} (h : make n = .ok t) : t.Sized n := by
  unfold make at h
  split at h
  · cases h
    exact ⟨Array.size_replicate, Array.size_replicate⟩
  · cases h

theorem le_maxSize_of_make {n : Nat} {t : StateTable} (h : make n = .ok t) : n ≤ maxSize := by
  unfold make at h
  split at h
  · assumption
  · cases h

theorem stateAt_of_make {n : Nat} {t : StateTable} (h : make n = .ok t) (b : Nat) :
    t.stateAt b = none := by
  unfold make at h
  split at h
  · cases h
    simp only [stateAt, Array.getD_eq_getD_getElem?, Array.getElem?_replicate]
    split <;> rfl
  · cases h

theorem get_eq {t : StateTable} {b : Nat} (h : b < t.states.size) :
    t.get b = .ok (t.stateAt b) := by
  simp [get, stateAt, h]

theorem stateAt_of_get {t : StateTable} {b : Nat} {s : BlockState} (h : t.get b = .ok s) :
    t.stateAt b = s := by
  unfold get at h
  split at h
  · rename_i hb
    exact Except.ok.inj ((get_eq hb).symm.trans ((dif_pos hb).trans h))
  · cases h

theorem set_eq {t : StateTable} {b : Nat} (h : b < t.states.size) (s : BlockState) :
    t.set b s = .ok { t with states := t.states.set b s } :=
  dif_pos h

theorem stateAt_set {t : StateTable} {b : Nat} (h : b < t.states.size) (s : BlockState)
    (b' : Nat) :
    stateAt { t with states := t.states.set b s } b' = if b' = b then s else t.stateAt b' := by
  simp only [stateAt, Array.getD_eq_getD_getElem?, Array.getElem?_set, eq_comm (a := b)]
  split <;> rfl

/-- Storing the states of neighbouring blocks changes those blocks and nothing else. -/
theorem storeStates_range' {n : Nat} (states : List BlockState) {t : StateTable} {start : Nat}
    (ht : t.Sized n) (h : start + states.length ≤ n) :
    ∃ t', RangeLock.storeStates t ((List.range' start states.length).zip states) = .ok t' ∧
      t'.Sized n ∧ ∀ b, t'.stateAt b =
        if start ≤ b ∧ b < start + states.length then states.getD (b - start) none
        else t.stateAt b := by
  induction states generalizing t start with
  | nil =>
    refine ⟨t, rfl, ht, fun b => ?_⟩
    rw [if_neg (by simp only [List.length_nil]; omega)]
  | cons s rest ih =>
    rw [List.length_cons] at h
    have hs : start < t.states.size := by rw [ht.states]; omega
    have ht₁ : Sized n { t with states := t.states.set start s } :=
      ⟨by simpa using ht.states, ht.words⟩
    obtain ⟨t', he, ht', hst⟩ := ih ht₁ (show start + 1 + rest.length ≤ n by omega)
    refine ⟨t', ?_, ht', fun b => ?_⟩
    · simp only [List.length_cons, List.range'_succ, List.zip_cons_cons, RangeLock.storeStates,
        List.foldlM_cons, set_eq hs]
      exact he
    · rw [hst, stateAt_set hs]
      simp only [List.length_cons]
      by_cases hb : b = start
      · subst hb
        rw [if_neg (by omega), if_pos rfl, if_pos (by omega), Nat.sub_self]
        rfl
      · rw [if_neg hb]
        by_cases hin : start + 1 ≤ b ∧ b < start + 1 + rest.length
        · have hsub : b - start = b - (start + 1) + 1 := by omega
          rw [if_pos hin, if_pos (by omega), hsub, List.getD_cons_succ]
        · rw [if_neg hin, if_neg (by omega)]

theorem mark_ok {n : Nat} {t : StateTable} {b : Nat} (ht : t.Sized n) (hb : b < n) :
    ∃ first t', t.mark b = .ok (first, t') ∧ t'.Sized n ∧ t'.states = t.states := by
  have hw : b / 64 < t.words.size := by rw [ht.words]; omega
  unfold mark
  rw [dif_pos hw]
  dsimp only
  split
  · exact ⟨_, _, rfl, ht, rfl⟩
  · exact ⟨_, _, rfl, ⟨ht.states, by simpa using ht.words⟩, rfl⟩

theorem markAll_ok {n : Nat} (blocks : List Nat) {t : StateTable} (ht : t.Sized n)
    (hb : ∀ b ∈ blocks, b < n) :
    ∃ newly t', RangeLock.markAll t blocks = .ok (newly, t') ∧ t'.Sized n ∧
      t'.states = t.states := by
  induction blocks generalizing t with
  | nil => exact ⟨0, t, rfl, ht, rfl⟩
  | cons b rest ih =>
    obtain ⟨first, t₁, h₁, ht₁, hs₁⟩ := mark_ok ht (hb b List.mem_cons_self)
    obtain ⟨m, t₂, h₂, ht₂, hs₂⟩ := ih ht₁ fun b' h' => hb b' (List.mem_cons_of_mem _ h')
    refine ⟨(if first then 1 else 0) + m, t₂, ?_, ht₂, hs₂.trans hs₁⟩
    rw [RangeLock.markAll, h₁]
    simp only [bind, Except.bind, h₂]
    rfl

end Readback.StateTable
