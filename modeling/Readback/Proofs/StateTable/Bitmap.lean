import Readback.Proofs.StateTable.Coverage

namespace Readback.StateTable

variable {n b : Nat} {t t' : StateTable} {S : Finset Nat} {first : Bool}

/-- What changes a table: a block is marked, or gets a state. -/
inductive Operation
  | mark (block : Nat)
  | set (block : Nat) (s : BlockState)
  deriving DecidableEq

def Operation.marked? : Operation → Option Nat
  | mark block => some block
  | set .. => none

def marks (ops : List Operation) : List Nat :=
  ops.filterMap Operation.marked?

/-- The table after an operation, which changes nothing where the table has no such block. -/
def after (t : StateTable) : Operation → StateTable
  | .mark block => (t.mark block).toOption.elim t Prod.snd
  | .set block s => (t.set block s).toOption.getD t

def ones (t : StateTable) : Nat :=
  (t.words.toList.map fun w => (List.range 64).countP w.toNat.testBit).sum

instance (t : StateTable) (b : Nat) : Decidable (t.Marked b) :=
  inferInstanceAs (Decidable (_ = true))

theorem mem_marks {ops : List Operation} : b ∈ marks ops ↔ .mark b ∈ ops := by
  refine List.mem_filterMap.trans ⟨?_, fun h => ⟨_, h, rfl⟩⟩
  rintro ⟨o, ho, hb⟩
  cases o with
  | mark block =>
    cases hb
    exact ho
  | set block s => cases hb

theorem sum_countP (ws : List UInt64) :
    (ws.map fun w => (List.range 64).countP w.toNat.testBit).sum =
      (List.range (64 * ws.length)).countP fun b =>
        (ws.getD (b / 64) 0).toNat.testBit (b % 64) := by
  induction ws with
  | nil => rfl
  | cons w rest ih =>
    have hlength : 64 * (w :: rest).length = 64 + 64 * rest.length := by
      rw [List.length_cons]
      omega
    have hfirst : (List.range 64).countP w.toNat.testBit = (List.range 64).countP fun b =>
        ((w :: rest).getD (b / 64) 0).toNat.testBit (b % 64) := by
      refine List.countP_congr fun b hb => ?_
      have hlt := List.mem_range.mp hb
      rw [Nat.div_eq_of_lt hlt, Nat.mod_eq_of_lt hlt, List.getD_cons_zero]
    rw [hlength, List.range_add, List.countP_append, List.countP_map, List.map_cons, List.sum_cons,
      ih, hfirst]
    refine congrArg _ (List.countP_congr fun b _ => ?_)
    rw [Function.comp_apply, Nat.add_div_left _ (by decide), Nat.add_mod_left, List.getD_cons_succ]

theorem Covers.ones_eq (h : t.Covers S) (hS : ∀ b ∈ S, b < 64 * t.words.size) :
    t.ones = S.card := by
  have hmarked (b : Nat) :
      t.Marked b ↔ (t.words.toList.getD (b / 64) 0).toNat.testBit (b % 64) := by
    rw [Marked, Array.getD_eq_getD_getElem?, List.getD_eq_getElem?_getD, Array.getElem?_toList]
  have hset : S = ((List.range (64 * t.words.size)).filter fun b =>
      (t.words.toList.getD (b / 64) 0).toNat.testBit (b % 64)).toFinset := by
    ext b
    rw [List.mem_toFinset, List.mem_filter, List.mem_range, ← hmarked, h.marked]
    exact ⟨fun hb => ⟨hS b hb, hb⟩, And.right⟩
  rw [ones, sum_countP, Array.length_toList, hset,
    List.toFinset_card_of_nodup (List.nodup_range.filter _), List.countP_eq_length_filter]

/-- A table of `n` blocks of which those in a set are marked. -/
structure Marks (n : Nat) (t : StateTable) (S : Finset Nat) : Prop where
  sized : t.Sized n
  covers : t.Covers S
  within : ∀ b ∈ S, b < n

theorem Marks.ones_eq (h : Marks n t S) : t.ones = S.card := by
  refine h.covers.ones_eq fun b hb => ?_
  have hlt := h.within b hb
  rw [h.sized.words]
  omega

theorem Marks.card_le (h : Marks n t S) : S.card ≤ n :=
  (Finset.card_le_card fun b hb => Finset.mem_range.mpr (h.within b hb)).trans_eq
    (Finset.card_range n)

theorem isCovered_eq (t : StateTable) (b : Nat) :
    t.isCovered b = if b / 64 < t.words.size then .ok (decide (t.Marked b))
      else .error .outOfBounds := by
  rw [isCovered]
  by_cases h : b / 64 < t.words.size
  · rw [dif_pos h, if_pos h, decide_eq_decide.mpr (marked_of_getElem h)]
  · rw [dif_neg h, if_neg h]

theorem Marks.isCovered (h : Marks n t S) (hb : b < n) : t.isCovered b = .ok (decide (b ∈ S)) := by
  have hword : b / 64 < t.words.size := by
    rw [h.sized.words]
    omega
  rw [isCovered_eq, if_pos hword, decide_eq_decide.mpr (h.covers.marked b)]

theorem Marks.mark (h : Marks n t S) (hb : b < n) :
    ∃ t', t.mark b = .ok (decide (b ∉ S), t') ∧ Marks n t' (insert b S) ∧
      ∀ b' ≠ b, t'.isCovered b' = t.isCovered b' := by
  obtain ⟨first, t', hm, hsized, hstates⟩ := mark_ok h.sized hb
  obtain ⟨hcovers, hcard⟩ := h.covers.mark hm
  have hfirst : first = decide (b ∉ S) := by
    by_cases hmem : b ∈ S
    · rw [Finset.insert_eq_of_mem hmem] at hcard
      cases first with
      | false => exact (decide_eq_false (not_not_intro hmem)).symm
      | true => exact absurd hcard (by simp)
    · rw [Finset.card_insert_of_notMem hmem] at hcard
      cases first with
      | false => exact absurd hcard (by simp)
      | true => exact (decide_eq_true hmem).symm
  refine ⟨t', hfirst ▸ hm, ⟨hsized, hcovers, ?_⟩, fun b' hne => ?_⟩
  · exact Finset.forall_mem_insert _ _ _ |>.mpr ⟨hb, h.within⟩
  · have hmarked : t'.Marked b' ↔ t.Marked b' := by
      rw [hcovers.marked, h.covers.marked, Finset.mem_insert, or_iff_right hne]
    rw [isCovered_eq, isCovered_eq, hsized.words, h.sized.words, decide_eq_decide.mpr hmarked]

theorem Marks.set (h : Marks n t S) (b : Nat) (s : BlockState) :
    Marks n (t.after (.set b s)) S := by
  by_cases hb : b < t.states.size
  · have hafter : t.after (.set b s) = { t with states := t.states.set b s } := by
      rw [after, set_eq hb]
      rfl
    rw [hafter]
    exact ⟨⟨(Array.size_set hb).trans h.sized.states, h.sized.words⟩,
      ⟨h.covers.count, h.covers.marked⟩, h.within⟩
  · have hafter : t.after (.set b s) = t := by
      rw [after, StateTable.set, dif_neg hb]
      rfl
    rwa [hafter]

theorem Marks.after (h : Marks n t S) {o : Operation} (ho : ∀ b, o = .mark b → b < n) :
    Marks n (t.after o) (S ∪ (marks [o]).toFinset) := by
  cases o with
  | mark b =>
    obtain ⟨t', hm, ht', -⟩ := h.mark (ho b rfl)
    have hafter : t.after (.mark b) = t' := by
      rw [StateTable.after, hm]
      rfl
    have hunion : S ∪ (marks [.mark b]).toFinset = insert b S :=
      (Finset.union_singleton b S)
    rwa [hafter, hunion]
  | set b s =>
    have hunion : S ∪ (marks [.set b s]).toFinset = S := Finset.union_empty S
    rw [hunion]
    exact h.set b s

theorem Marks.foldl (h : Marks n t S) {ops : List Operation} (ho : ∀ b, .mark b ∈ ops → b < n) :
    Marks n (ops.foldl StateTable.after t) (S ∪ (marks ops).toFinset) := by
  induction ops generalizing t S with
  | nil =>
    rw [marks, List.filterMap_nil, List.toFinset_nil, Finset.union_empty]
    exact h
  | cons o rest ih =>
    have hfirst := h.after (o := o) fun b he => ho b (he ▸ List.mem_cons_self)
    have hrest := ih hfirst fun b hb => ho b (List.mem_cons_of_mem _ hb)
    have hsplit : marks (o :: rest) = marks [o] ++ marks rest :=
      List.filterMap_append (l := [o])
    rw [hsplit, List.toFinset_append, ← Finset.union_assoc]
    exact hrest

/-- The marks of a table are a set.  Whatever blocks of it have been marked and whatever states have
been set, a block is covered if it has been marked, it is new if it has not, marking it changes
nothing for the others, and the count kept is that of the blocks marked and of the bits set. -/
theorem coverage_is_set (n : Nat) {ops : List Operation} (ho : ∀ b, .mark b ∈ ops → b < n) :
    (maxSize < n ∧ make n = .error .overflow) ∨
      ∃ t₀, make n = .ok t₀ ∧
        let t := ops.foldl after t₀
        (∀ b < n, t.isCovered b = .ok (decide (.mark b ∈ ops))) ∧
          (∀ b < n, ∃ t', t.mark b = .ok (decide (.mark b ∉ ops), t') ∧
            t'.isCovered b = .ok true ∧ ∀ b' ≠ b, t'.isCovered b' = t.isCovered b') ∧
          t.coveredCount = (marks ops).toFinset.card ∧ t.coveredCount = t.ones ∧
          t.coveredCount ≤ n := by
  by_cases hn : n ≤ maxSize
  · obtain ⟨t₀, hmake⟩ : ∃ t₀, make n = .ok t₀ := ⟨_, if_pos hn⟩
    refine .inr ⟨t₀, hmake, ?_⟩
    intro t
    have hnew : Marks n t₀ ∅ := ⟨sized_of_make hmake, covers_of_make hmake, nofun⟩
    have h : Marks n t (marks ops).toFinset :=
      Finset.empty_union (marks ops).toFinset ▸ hnew.foldl ho
    have hmem (b : Nat) : b ∈ (marks ops).toFinset ↔ .mark b ∈ ops :=
      List.mem_toFinset.trans mem_marks
    refine ⟨fun b hb => ?_, fun b hb => ?_, h.covers.count, ?_, ?_⟩
    · rw [h.isCovered hb, decide_eq_decide.mpr (hmem b)]
    · obtain ⟨t', hm, ht', hothers⟩ := h.mark hb
      rw [decide_eq_decide.mpr (not_congr (hmem b))] at hm
      refine ⟨t', hm, ?_, hothers⟩
      rw [ht'.isCovered hb, decide_eq_true (Finset.mem_insert_self _ _)]
    · rw [h.ones_eq, h.covers.count]
    · rw [h.covers.count]
      exact h.card_le
  · exact .inl ⟨Nat.lt_of_not_le hn, if_neg hn⟩

/-- One block is marked twice, and a state is set for a block that is not there. -/
theorem coverage_is_set_of_seventy :
    let ops : List Operation :=
      [.mark 69, .set 3 (some .trimmed), .mark 0, .set 100 none, .mark 69]
    (∀ b, .mark b ∈ ops → b < 70) ∧ ∃ t₀, make 70 = .ok t₀ ∧
      let t := ops.foldl after t₀
      t.coveredCount = 2 ∧ t.ones = 2 ∧ t.isCovered 69 = .ok true ∧ t.isCovered 5 = .ok false ∧
        (∃ t', t.mark 0 = .ok (false, t')) ∧
        ∃ t', t.mark 5 = .ok (true, t') ∧ t'.isCovered 69 = .ok true := by
  intro ops
  have ho : ∀ b, .mark b ∈ ops → b < 70 := by
    intro b hb
    simp only [ops, List.mem_cons, reduceCtorEq, false_or, or_false, List.not_mem_nil,
      Operation.mark.injEq] at hb
    omega
  obtain ⟨hlarge, -⟩ | ⟨t₀, hmake, hcovered, hmark, hcount, hones, -⟩ := coverage_is_set 70 ho
  · exact absurd hlarge (by decide)
  have htwo : (marks ops).toFinset.card = 2 := by decide
  obtain ⟨t', hzero, -, -⟩ := hmark 0 (by decide)
  obtain ⟨t'', hfive, -, hothers⟩ := hmark 5 (by decide)
  exact ⟨ho, t₀, hmake, hcount.trans htwo, hones.symm.trans (hcount.trans htwo),
    hcovered 69 (by decide), hcovered 5 (by decide), ⟨t', hzero⟩,
    t'', hfive, (hothers 69 (by decide)).trans (hcovered 69 (by decide))⟩

end Readback.StateTable
