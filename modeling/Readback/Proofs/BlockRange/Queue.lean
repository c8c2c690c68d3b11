import Mathlib.Data.List.DropRight
import Mathlib.Data.List.Perm.Subperm
import Readback.BlockRange.Cursor

namespace Readback.BlockRange.Cursor

variable {c : Cursor} {blocks : List Nat}

inductive Call
  | front
  | back
  | nth (n : Nat)
  | nthBack (n : Nat)
  | length
  | sizeHint
  deriving DecidableEq

inductive Answer
  | block (b : Option Nat)
  | length (n : Nat)
  | sizeHint (low : Nat) (high : Option Nat)
  deriving DecidableEq

def Answer.block? : Answer → Option Nat
  | block b => b
  | _ => none

def ask (c : Cursor) : Call → Except Fault (Answer × Cursor)
  | .front => c.front.map (Prod.map .block id)
  | .back => c.back.map (Prod.map .block id)
  | .nth n => (c.nth n).map (Prod.map .block id)
  | .nthBack n => (c.nthBack n).map (Prod.map .block id)
  | .length => c.length.map fun n => (.length n, c)
  | .sizeHint => c.sizeHint.map fun (low, high) => (.sizeHint low high, c)

def play (c : Cursor) : List Call → Except Fault (List Answer × Cursor)
  | [] => .ok ([], c)
  | q :: calls => do
    let (a, c) ← c.ask q
    let (others, c) ← c.play calls
    return (a :: others, c)

/-- One step after another, up to the one that yields nothing. -/
inductive Drains (step : Cursor → Except Fault (Option Nat × Cursor)) : Cursor → List Nat → Prop
  | done {c rest : Cursor} (h : step c = .ok (none, rest)) : Drains step c []
  | more {c rest : Cursor} {b : Nat} {blocks : List Nat} (h : step c = .ok (some b, rest))
      (hr : Drains step rest blocks) : Drains step c (b :: blocks)

def Call.answer (blocks : List Nat) : Call → Answer
  | front => .block blocks.head?
  | back => .block blocks.getLast?
  | nth n => .block blocks[n]?
  | nthBack n => .block blocks.reverse[n]?
  | length => .length blocks.length
  | sizeHint => .sizeHint blocks.length (some blocks.length)

/-- What is left of a list without the block that is answered and those that are skipped. -/
def Call.rest (blocks : List Nat) : Call → List Nat
  | front => blocks.tail
  | back => blocks.dropLast
  | nth n => blocks.drop (n + 1)
  | nthBack n => blocks.rdrop (n + 1)
  | length => blocks
  | sizeHint => blocks

def answers (blocks : List Nat) : List Call → List Answer
  | [] => []
  | q :: calls => q.answer blocks :: answers (q.rest blocks) calls

def left (blocks : List Nat) (calls : List Call) : List Nat :=
  calls.foldl Call.rest blocks

def yielded (as : List Answer) : List Nat :=
  as.filterMap Answer.block?

theorem yielded_cons (a : Answer) (as : List Answer) :
    yielded (a :: as) = a.block?.toList ++ yielded as := by
  rw [yielded, yielded, List.filterMap_cons]
  cases a.block? <;> rfl

theorem subperm_drop (blocks : List Nat) (n : Nat) :
    (blocks[n]?.toList ++ blocks.drop (n + 1)).Subperm blocks := by
  by_cases hn : n < blocks.length
  · rw [List.getElem?_eq_getElem hn, Option.toList_some, List.singleton_append,
      ← List.drop_eq_getElem_cons hn]
    exact (List.drop_sublist n blocks).subperm
  · rw [List.getElem?_eq_none (by omega), List.drop_eq_nil_of_le (by omega)]
    exact List.nil_subperm

theorem subperm_rdrop (blocks : List Nat) (n : Nat) :
    (blocks.reverse[n]?.toList ++ blocks.rdrop (n + 1)).Subperm blocks := by
  have hrest : (blocks.rdrop (n + 1)).Perm (blocks.reverse.drop (n + 1)) := by
    rw [List.rdrop_eq_reverse_drop_reverse]
    exact List.reverse_perm _
  exact (hrest.append_left _).subperm.trans
    ((subperm_drop blocks.reverse n).trans (List.reverse_perm blocks).subperm)

/-- No call takes a block twice. -/
theorem Call.subperm (q : Call) (blocks : List Nat) :
    ((q.answer blocks).block?.toList ++ q.rest blocks).Subperm blocks := by
  cases q with
  | front =>
    have h := subperm_drop blocks 0
    rwa [← List.head?_eq_getElem?, List.drop_one] at h
  | back =>
    have h := subperm_rdrop blocks 0
    rwa [← List.head?_eq_getElem?, List.head?_reverse, List.rdrop, ← List.dropLast_eq_take] at h
  | nth n => exact subperm_drop blocks n
  | nthBack n => exact subperm_rdrop blocks n
  | length => exact .refl _
  | sizeHint => exact .refl _

theorem subperm_left (blocks : List Nat) (calls : List Call) :
    (yielded (answers blocks calls) ++ left blocks calls).Subperm blocks := by
  induction calls generalizing blocks with
  | nil => exact .refl _
  | cons q calls ih =>
    -- the other calls share what this one leaves, in which the block that it takes is missing
    rw [answers, yielded_cons, List.append_assoc]
    exact ((List.subperm_append_left _).mpr (ih _)).trans (q.subperm blocks)

theorem nodup_yielded (h : blocks.Nodup) (calls : List Call) :
    (yielded (answers blocks calls) ++ left blocks calls).Nodup := by
  obtain ⟨taken, hperm, hsub⟩ := subperm_left blocks calls
  exact hperm.nodup_iff.mp (h.sublist hsub)

theorem Call.rest_nil (q : Call) : q.rest [] = [] := by
  cases q <;> simp [rest]

theorem left_nil (calls : List Call) : left [] calls = [] := by
  induction calls with
  | nil => rfl
  | cons q calls ih => rwa [left, List.foldl_cons, q.rest_nil]

theorem Call.rest_eq_nil {q : Call} (h : q.answer blocks = .block none) : q.rest blocks = [] := by
  cases q with
  | front =>
    cases List.head?_eq_none_iff.mp (Answer.block.inj h)
    rfl
  | back =>
    cases List.getLast?_eq_none_iff.mp (Answer.block.inj h)
    rfl
  | nth n =>
    have hlen := List.getElem?_eq_none_iff.mp (Answer.block.inj h)
    exact List.drop_eq_nil_of_le (by omega)
  | nthBack n =>
    have hlen := List.getElem?_eq_none_iff.mp (Answer.block.inj h)
    rw [rest, List.rdrop_eq_reverse_drop_reverse, List.drop_eq_nil_of_le (by omega),
      List.reverse_nil]
  | length => cases h
  | sizeHint => cases h

theorem left_eq_nil {calls : List Call} (h : .block none ∈ answers blocks calls) :
    left blocks calls = [] := by
  induction calls generalizing blocks with
  | nil => cases h
  | cons q calls ih =>
    rcases List.mem_cons.mp h with h | h
    · rw [left, List.foldl_cons, Call.rest_eq_nil h.symm]
      exact left_nil calls
    · exact ih h

/-- These blocks are still to come, and all that is computed of them fits in words. -/
structure Yields (c : Cursor) (blocks : List Nat) : Prop where
  next_le : c.next ≤ c.stop
  lt_limit : c.stop < Word.limit
  toList : c.toList = blocks

theorem toList_eq_cons (h : c.next < c.stop) :
    c.toList = c.next :: toList { c with next := c.next + 1 } := by
  have hlen : c.stop - c.next = c.stop - (c.next + 1) + 1 := by omega
  rw [toList, hlen, List.range'_succ, toList]

theorem toList_eq_concat (h : c.next < c.stop) :
    c.toList = toList { c with stop := c.stop - 1 } ++ [c.stop - 1] := by
  have hlen : c.stop - c.next = c.stop - 1 - c.next + 1 := by omega
  have hlast : c.next + (c.stop - 1 - c.next) = c.stop - 1 := by omega
  rw [toList, hlen, List.range'_1_concat, hlast, toList]

theorem toList_eq_nil (h : ¬ c.next < c.stop) : c.toList = [] := by
  rw [toList, Nat.sub_eq_zero_of_le (Nat.le_of_not_lt h), List.range'_zero]

theorem Yields.front (h : c.Yields blocks) :
    ∃ c', c.front = .ok (blocks.head?, c') ∧ c'.Yields blocks.tail := by
  obtain ⟨hle, hlt, rfl⟩ := h
  by_cases hn : c.next < c.stop
  · have hadd : Word.add c.next 1 = .ok (c.next + 1) := Word.add_of_lt (by omega)
    rw [toList_eq_cons hn, Cursor.front, if_pos hn, hadd]
    exact ⟨_, rfl, hn, hlt, rfl⟩
  · rw [toList_eq_nil hn, Cursor.front, if_neg hn]
    exact ⟨c, rfl, hle, hlt, toList_eq_nil hn⟩

theorem Yields.back (h : c.Yields blocks) :
    ∃ c', c.back = .ok (blocks.getLast?, c') ∧ c'.Yields blocks.dropLast := by
  obtain ⟨hle, hlt, rfl⟩ := h
  by_cases hn : c.next < c.stop
  · have hsub : Word.sub c.stop 1 = .ok (c.stop - 1) := Word.sub_of_le (by omega)
    rw [toList_eq_concat hn, Cursor.back, if_pos hn, hsub, List.getLast?_concat,
      List.dropLast_concat]
    exact ⟨_, rfl, Nat.le_sub_one_of_lt hn, Nat.lt_of_le_of_lt (Nat.sub_le _ _) hlt, rfl⟩
  · rw [toList_eq_nil hn, Cursor.back, if_neg hn]
    exact ⟨c, rfl, hle, hlt, toList_eq_nil hn⟩

theorem last?_eq (c : Cursor) : c.last? = c.back.map Prod.fst := by
  rw [Cursor.last?, Cursor.back]
  split
  · cases Word.sub c.stop 1 <;> rfl
  · rfl

theorem Yields.last? (h : c.Yields blocks) : c.last? = .ok blocks.getLast? := by
  obtain ⟨c', hc, -⟩ := h.back
  rw [last?_eq, hc]
  rfl

theorem Yields.length (h : c.Yields blocks) : c.length = .ok blocks.length := by
  rw [Cursor.length, Word.sub_of_le h.next_le, ← h.toList, Cursor.toList, List.length_range']

theorem Yields.sizeHint (h : c.Yields blocks) :
    c.sizeHint = .ok (blocks.length, some blocks.length) := by
  rw [Cursor.sizeHint, h.length]
  rfl

theorem Yields.ended (h : c.Yields []) : c.front = .ok (none, c) ∧ c.back = .ok (none, c) := by
  have hn : ¬ c.next < c.stop := by
    intro hn
    have hnil := h.toList
    rw [toList_eq_cons hn] at hnil
    cases hnil
  rw [Cursor.front, Cursor.back, if_neg hn, if_neg hn]
  exact ⟨rfl, rfl⟩

/-- A step takes the first of the blocks that are to come in some order. -/
def Consumes (step : Cursor → Except Fault (Option Nat × Cursor))
    (Comes : Cursor → List Nat → Prop) : Prop :=
  ∀ c blocks, Comes c blocks →
    ∃ c', step c = .ok (blocks.head?, c') ∧ Comes c' blocks.tail

theorem consumes_front : Consumes front Yields :=
  fun _ _ h => h.front

theorem consumes_back : Consumes back fun c blocks => c.Yields blocks.reverse := by
  intro c blocks h
  -- from the back the blocks come in reverse, so the first of them is the last of the walk
  obtain ⟨c', hc, h'⟩ := Yields.back h
  rw [List.getLast?_reverse] at hc
  rw [List.dropLast_reverse] at h'
  exact ⟨c', hc, h'⟩

namespace Consumes

variable {step : Cursor → Except Fault (Option Nat × Cursor)} {Comes : Cursor → List Nat → Prop}

theorem skip (hs : Consumes step Comes) (h : Comes c blocks) (n : Nat) :
    ∃ c', c.skip step n = .ok (blocks[n]?, c') ∧ Comes c' (blocks.drop (n + 1)) := by
  induction n generalizing c blocks with
  | zero =>
    rw [← List.head?_eq_getElem?, List.drop_one]
    exact hs c blocks h
  | succ n ih =>
    obtain ⟨c', hc, h'⟩ := hs c blocks h
    rw [Cursor.skip, hc]
    cases blocks with
    -- skipping stops where the walk ends, and an empty list stays empty however much is dropped
    | nil => exact ⟨c', rfl, h'⟩
    | cons b blocks => exact ih h'

theorem drains (hs : Consumes step Comes) (h : Comes c blocks) : Drains step c blocks := by
  induction blocks generalizing c with
  | nil =>
    obtain ⟨c', hc, -⟩ := hs c [] h
    exact .done hc
  | cons b blocks ih =>
    obtain ⟨c', hc, h'⟩ := hs c (b :: blocks) h
    exact .more hc (ih h')

end Consumes

theorem Yields.nth (h : c.Yields blocks) (n : Nat) :
    ∃ c', c.nth n = .ok (blocks[n]?, c') ∧ c'.Yields (blocks.drop (n + 1)) :=
  consumes_front.skip h n

theorem Yields.nthBack (h : c.Yields blocks) (n : Nat) :
    ∃ c', c.nthBack n = .ok (blocks.reverse[n]?, c') ∧ c'.Yields (blocks.rdrop (n + 1)) := by
  rw [List.rdrop_eq_reverse_drop_reverse]
  rw [← blocks.reverse_reverse] at h
  exact consumes_back.skip h n

theorem Yields.ask (h : c.Yields blocks) (q : Call) :
    ∃ c', c.ask q = .ok (q.answer blocks, c') ∧ c'.Yields (q.rest blocks) := by
  cases q with
  | front =>
    obtain ⟨c', hc, h'⟩ := h.front
    exact ⟨c', congrArg (Except.map _) hc, h'⟩
  | back =>
    obtain ⟨c', hc, h'⟩ := h.back
    exact ⟨c', congrArg (Except.map _) hc, h'⟩
  | nth n =>
    obtain ⟨c', hc, h'⟩ := h.nth n
    exact ⟨c', congrArg (Except.map _) hc, h'⟩
  | nthBack n =>
    obtain ⟨c', hc, h'⟩ := h.nthBack n
    exact ⟨c', congrArg (Except.map _) hc, h'⟩
  | length => exact ⟨c, congrArg (Except.map _) h.length, h⟩
  | sizeHint => exact ⟨c, congrArg (Except.map _) h.sizeHint, h⟩

theorem Yields.play (h : c.Yields blocks) (calls : List Call) :
    ∃ c', c.play calls = .ok (answers blocks calls, c') ∧ c'.Yields (left blocks calls) := by
  induction calls generalizing c blocks with
  | nil => exact ⟨c, rfl, h⟩
  | cons q calls ih =>
    obtain ⟨c₁, hc₁, h₁⟩ := h.ask q
    obtain ⟨c₂, hc₂, h₂⟩ := ih h₁
    rw [Cursor.play, hc₁]
    refine ⟨c₂, ?_, h₂⟩
    show (c₁.play calls >>= _) = _
    rw [hc₂]
    rfl

theorem yields_cursor {start stop : Nat} (h : start < stop) (hstop : stop < Word.limit) :
    (BlockRange.cursor ⟨start, stop⟩).Yields (List.range' start (stop - start)) :=
  ⟨Nat.le_of_lt h, hstop, rfl⟩

/-- A walk over a range of blocks is their list, consumed from both ends.  Whatever is asked of it,
nothing overflows, each answer is that of the list, and no block that was yielded comes again.  How
many are left, and which is the last of them, is told without going there as it is found by going
there.  After an answer that there is no block, there is none at either end. -/
theorem refines_queue {start stop : Nat} (h : start < stop) (hstop : stop < Word.limit)
    (calls : List Call) :
    let blocks := List.range' start (stop - start)
    let rest := left blocks calls
    ∃ r c, make start stop = .ok r ∧ r.cursor.play calls = .ok (answers blocks calls, c) ∧
      (yielded (answers blocks calls) ++ rest).Nodup ∧
      c.length = .ok rest.length ∧ c.sizeHint = .ok (rest.length, some rest.length) ∧
      Drains front c rest ∧ Drains back c rest.reverse ∧
      c.count = .ok rest.length ∧ c.last? = .ok rest.getLast? ∧
      (.block none ∈ answers blocks calls → c.front = .ok (none, c) ∧ c.back = .ok (none, c)) := by
  intro blocks rest
  obtain ⟨c, hplay, hc⟩ := (yields_cursor h hstop).play calls
  have hreverse : c.Yields rest.reverse.reverse := by rwa [rest.reverse_reverse]
  refine ⟨_, c, make_of_lt h, hplay, nodup_yielded List.nodup_range' calls, hc.length, hc.sizeHint,
    consumes_front.drains hc, consumes_back.drains hreverse, hc.length, hc.last?, fun hnone => ?_⟩
  rw [left_eq_nil hnone] at hc
  exact hc.ended

/-- The range ends at the greatest number that fits in a word, and is used up by a call that skips
more than is left. -/
theorem refines_queue_of_greatest :
    let calls : List Call := [.nth 1, .sizeHint, .back, .length, .nthBack 2]
    18446744073709551610 < 18446744073709551615 ∧ 18446744073709551615 < Word.limit ∧
      ∃ r c, make 18446744073709551610 18446744073709551615 = .ok r ∧
        r.cursor.play calls = .ok ([.block (some 18446744073709551611), .sizeHint 3 (some 3),
          .block (some 18446744073709551614), .length 2, .block none], c) ∧
        Drains front c [] ∧ c.count = .ok 0 ∧ c.last? = .ok none ∧
        c.front = .ok (none, c) ∧ c.back = .ok (none, c) := by
  intro calls
  have h : 18446744073709551610 < 18446744073709551615 := by decide
  have hstop : 18446744073709551615 < Word.limit := by decide
  obtain ⟨r, c, hmake, hplay, -, -, -, hdrains, -, hcount, hlast, hended⟩ :=
    refines_queue h hstop calls
  exact ⟨h, hstop, r, c, hmake, hplay, hdrains, hcount, hlast, hended (by decide)⟩

end Readback.BlockRange.Cursor
