import Mathlib.Data.List.Nodup
import Mathlib.Data.List.TakeWhile
import Mathlib.Tactic.ByContra
import Readback.RangeLock.Active

namespace Readback.Active

/-- The ranges are not empty, end within `n` blocks, and each ends before the next one starts. -/
structure Sound (n : Nat) (a : Active) : Prop where
  proper : ∀ r ∈ a, r.start < r.stop ∧ r.stop ≤ n
  apart : a.Pairwise fun r s => r.stop ≤ s.start

theorem Sound.nil (n : Nat) : Sound n [] :=
  ⟨nofun, .nil⟩

theorem Sound.tail {n : Nat} {s : BlockRange} {a : Active} (h : Sound n (s :: a)) : Sound n a :=
  ⟨fun r hr => h.proper r (List.mem_cons_of_mem _ hr), h.apart.of_cons⟩

theorem Sound.stop_le_start {n : Nat} {r s : BlockRange} {a : Active} (h : Sound n (s :: a))
    (hr : r ∈ a) : s.stop ≤ r.start :=
  List.rel_of_pairwise_cons h.apart hr

theorem Sound.eq_of_mem {n : Nat} {r s : BlockRange} {a : Active} (h : Sound n a) (hr : r ∈ a)
    (hs : s ∈ a) {b : Nat} (hbr : b ∈ r.blocks) (hbs : b ∈ s.blocks) : r = s := by
  induction a with
  | nil => cases hr
  | cons t rest ih =>
    rw [BlockRange.mem_blocks] at hbr hbs
    rcases List.mem_cons.mp hr with rfl | hr' <;> rcases List.mem_cons.mp hs with rfl | hs'
    · rfl
    · have := h.stop_le_start hs'
      omega
    · have := h.stop_le_start hr'
      omega
    · exact ih h.tail hr' hs'

theorem Sound.disjoint {n : Nat} {a : Active} (h : Sound n a) :
    a.Pairwise fun r s => r.blocks.Disjoint s.blocks := by
  refine h.apart.imp fun {r s} hrs b hbr hbs => ?_
  rw [BlockRange.mem_blocks] at hbr hbs
  omega

theorem Sound.nodup {n : Nat} {a : Active} (h : Sound n a) : a.Nodup := by
  refine h.apart.imp_of_mem fun {r s} hr _ hrs he => ?_
  have := h.proper r hr
  subst he
  omega

/-- Each range starts after the one before it. -/
def Sorted (a : Active) : Prop :=
  a.Pairwise fun r s => r.start < s.start

theorem Sound.sorted {n : Nat} {a : Active} (h : Sound n a) : Sorted a := by
  refine h.apart.imp_of_mem fun {r s} hr _ hrs => ?_
  exact Nat.lt_of_lt_of_le (h.proper r hr).1 hrs

theorem Sorted.eq_of_start_eq {r s : BlockRange} {a : Active} (h : Sorted a) (hr : r ∈ a)
    (hs : s ∈ a) (he : r.start = s.start) : r = s := by
  induction a with
  | nil => cases hr
  | cons t rest ih =>
    obtain ⟨hall, hrest⟩ := List.pairwise_cons.mp h
    rcases List.mem_cons.mp hr with rfl | hr' <;> rcases List.mem_cons.mp hs with rfl | hs'
    · rfl
    · exact absurd he (Nat.ne_of_lt (hall s hs'))
    · exact absurd he.symm (Nat.ne_of_lt (hall r hr'))
    · exact ih hrest hr' hs'

theorem Sorted.startingAt?_eq_some {a : Active} {r : BlockRange} (h : Sorted a) :
    startingAt? r.start a = some r ↔ r ∈ a := by
  constructor
  · exact List.mem_of_find?_eq_some
  · intro hr
    cases hf : startingAt? r.start a with
    | none =>
      have := List.find?_eq_none.mp hf r hr
      simp at this
    | some s =>
      have he : s.start = r.start := by simpa using List.find?_some hf
      rw [h.eq_of_start_eq (List.mem_of_find?_eq_some hf) hr he]

theorem Sorted.erase {a : Active} (h : Sorted a) (start : Nat) : Sorted (Active.erase start a) :=
  h.filter _

theorem lastBefore?_cons (stop : Nat) (s : BlockRange) (a : Active) :
    lastBefore? stop (s :: a) =
      if s.start < stop then some ((lastBefore? stop a).getD s) else none := by
  by_cases hs : s.start < stop
  · simp only [lastBefore?, hs, decide_true, List.takeWhile_cons_of_pos, if_true,
      List.getLast?_cons]
  · simp [lastBefore?, hs]

theorem mem_of_lastBefore? {stop : Nat} {a : Active} {r : BlockRange}
    (h : lastBefore? stop a = some r) : r ∈ a :=
  (List.takeWhile_sublist _).mem (List.mem_of_getLast? h)

theorem overlaps_cons (r s : BlockRange) (a : Active) :
    overlaps (s :: a) r =
      (decide (s.start < r.stop) && decide (r.start < ((lastBefore? r.stop a).getD s).stop)) := by
  rw [overlaps, lastBefore?_cons]
  split <;> simp [*]

theorem exists_of_overlaps {a : Active} {r : BlockRange} (h : overlaps a r = true) :
    ∃ s ∈ a, s.overlaps r = true := by
  obtain ⟨t, ht, hstop⟩ := (Option.any_eq_true _ _).mp h
  have hstart := List.mem_takeWhile_imp (List.mem_of_getLast? ht)
  exact ⟨t, mem_of_lastBefore? ht, Bool.and_eq_true_iff.mpr ⟨hstart, hstop⟩⟩

theorem overlaps_of_clear {a : Active} {r : BlockRange} (h : ∀ s ∈ a, s.overlaps r = false) :
    overlaps a r = false := by
  by_contra ho
  obtain ⟨s, hs, hr⟩ := exists_of_overlaps ((Bool.not_eq_false _).mp ho)
  exact Bool.false_ne_true ((h s hs).symm.trans hr)

/-- Looking at one neighbour is enough: it overlaps a range whenever any active range does. -/
theorem Sound.overlaps_iff {n : Nat} {a : Active} (h : Sound n a) (r : BlockRange) :
    overlaps a r = true ↔ ∃ s ∈ a, s.overlaps r = true := by
  induction a with
  | nil => simp [overlaps, lastBefore?]
  | cons s rest ih =>
    have ih := ih h.tail
    simp only [overlaps_cons, List.mem_cons, exists_eq_or_imp, ← ih]
    simp only [BlockRange.overlaps, overlaps, Bool.and_eq_true, decide_eq_true_eq]
    cases hl : lastBefore? r.stop rest with
    | none => simp
    | some t =>
      have ht := mem_of_lastBefore? hl
      have hst := h.stop_le_start ht
      have hs := h.proper s List.mem_cons_self
      have hp := h.proper t (List.mem_cons_of_mem _ ht)
      have hlt : t.start < r.stop := by
        have hm := List.mem_of_getLast? hl
        simpa using List.mem_takeWhile_imp hm
      simp only [Option.getD_some, Option.any_some, decide_eq_true_eq]
      omega

theorem Sound.not_overlaps {n : Nat} {a : Active} {r s : BlockRange} (h : Sound n a)
    (ho : overlaps a r = false) (hs : s ∈ a) : r.stop ≤ s.start ∨ s.stop ≤ r.start := by
  by_contra hn
  have ht : s.overlaps r = true := by
    simp only [BlockRange.overlaps, Bool.and_eq_true, decide_eq_true_eq]
    omega
  have := (h.overlaps_iff r).mpr ⟨s, hs, ht⟩
  simp [ho] at this

theorem mem_of_mem_insert {r s : BlockRange} {a : Active} (h : s ∈ insert r a) :
    s = r ∨ s ∈ a := by
  induction a with
  | nil => simpa [insert] using h
  | cons t rest ih =>
    simp only [insert] at h
    split at h
    · simpa using h
    split at h
    · rcases List.mem_cons.mp h with rfl | hs
      · exact .inl rfl
      · exact .inr (List.mem_cons_of_mem _ hs)
    · rcases List.mem_cons.mp h with rfl | hs
      · exact .inr List.mem_cons_self
      · exact (ih hs).imp_right (List.mem_cons_of_mem _)

theorem mem_insert_self (r : BlockRange) (a : Active) : r ∈ insert r a := by
  induction a with
  | nil => exact List.mem_cons_self
  | cons t rest ih =>
    rw [insert]
    split
    · exact List.mem_cons_self
    split
    · exact List.mem_cons_self
    · exact List.mem_cons_of_mem _ ih

theorem Sorted.insert {a : Active} (h : Sorted a) (r : BlockRange) :
    Sorted (Active.insert r a) := by
  induction a with
  | nil => exact List.pairwise_singleton _ _
  | cons t rest ih =>
    obtain ⟨hall, hrest⟩ := List.pairwise_cons.mp h
    rw [Active.insert]
    by_cases hlt : r.start < t.start
    · rw [if_pos hlt]
      refine .cons (fun s hs => ?_) h
      rcases List.mem_cons.mp hs with rfl | hs
      · exact hlt
      · exact Nat.lt_trans hlt (hall s hs)
    rw [if_neg hlt]
    by_cases he : r.start = t.start
    · rw [if_pos he]
      exact .cons (fun s hs => he ▸ hall s hs) hrest
    · rw [if_neg he]
      refine .cons (fun s hs => ?_) (ih hrest)
      rcases mem_of_mem_insert hs with rfl | hs
      · omega
      · exact hall s hs

theorem insert_perm {r : BlockRange} {a : Active} (h : ∀ s ∈ a, s.start ≠ r.start) :
    (insert r a).Perm (r :: a) := by
  induction a with
  | nil => exact .refl _
  | cons t rest ih =>
    have ht : r.start ≠ t.start := (h t List.mem_cons_self).symm
    simp only [insert, if_neg ht]
    split
    · exact .refl _
    · exact ((ih fun s hs => h s (List.mem_cons_of_mem _ hs)).cons t).trans (.swap r t rest)

theorem Sound.start_ne {n : Nat} {a : Active} {r s : BlockRange} (h : Sound n a)
    (hr : r.start < r.stop) (ho : overlaps a r = false) (hs : s ∈ a) : s.start ≠ r.start := by
  have hd := h.not_overlaps ho hs
  have hp := h.proper s hs
  omega

theorem Sound.insert {n : Nat} {a : Active} {r : BlockRange} (h : Sound n a)
    (hr : r.start < r.stop) (hn : r.stop ≤ n) (ho : overlaps a r = false) :
    Sound n (insert r a) := by
  refine ⟨fun s hs => ?_, ?_⟩
  · rcases mem_of_mem_insert hs with rfl | hs
    · exact ⟨hr, hn⟩
    · exact h.proper s hs
  · have hd (s : BlockRange) (hs : s ∈ a) := h.not_overlaps ho hs
    clear ho
    induction a with
    | nil => exact List.pairwise_singleton _ _
    | cons t rest ih =>
      have hdt := hd t List.mem_cons_self
      have hpt := h.proper t List.mem_cons_self
      simp only [Active.insert]
      split
      · refine .cons (fun s hs => ?_) h.apart
        rcases List.mem_cons.mp hs with rfl | hs
        · omega
        · have := h.stop_le_start hs
          omega
      split
      · omega
      · refine .cons (fun s hs => ?_) (ih h.tail fun s hs => hd s (List.mem_cons_of_mem _ hs))
        rcases mem_of_mem_insert hs with rfl | hs
        · omega
        · exact h.stop_le_start hs

theorem Sound.erase {n : Nat} {a : Active} (h : Sound n a) (start : Nat) :
    Sound n (Active.erase start a) :=
  ⟨fun r hr => h.proper r ((List.mem_filter.mp hr).1), h.apart.filter _⟩

theorem Sorted.perm_erase {a : Active} {r : BlockRange} (h : Sorted a) (hr : r ∈ a) :
    a.Perm (r :: Active.erase r.start a) := by
  induction a with
  | nil => cases hr
  | cons s rest ih =>
    obtain ⟨hall, hrest⟩ := List.pairwise_cons.mp h
    rcases List.mem_cons.mp hr with rfl | hr
    · have hkeep : Active.erase r.start rest = rest := by
        apply List.filter_eq_self.mpr
        intro t ht
        exact decide_eq_true (Nat.ne_of_gt (hall t ht))
      have hself : Active.erase r.start (r :: rest) = Active.erase r.start rest := by
        simp [Active.erase]
      rw [hself, hkeep]
    · have hne : s.start ≠ r.start := Nat.ne_of_lt (hall r hr)
      have hcons : Active.erase r.start (s :: rest) = s :: Active.erase r.start rest := by
        simp [Active.erase, hne]
      rw [hcons]
      exact ((ih hrest hr).cons s).trans (.swap r s _)

theorem mem_erase {start : Nat} {a : Active} {s : BlockRange} :
    s ∈ erase start a ↔ s ∈ a ∧ s.start ≠ start := by
  simp [erase]

theorem Sound.collision?_eq_none {n : Nat} {a : Active} (h : Sound n a) : collision? a = none := by
  induction a with
  | nil => rfl
  | cons r rest ih =>
    cases rest with
    | nil => rfl
    | cons s rest =>
      have hrs : ¬ s.start < r.stop := Nat.not_lt_of_ge (h.stop_le_start List.mem_cons_self)
      rw [collision?, if_neg hrs]
      exact ih h.tail

end Readback.Active
