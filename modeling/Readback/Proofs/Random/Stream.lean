import Mathlib.Data.Finset.Card
import Mathlib.Data.Finset.Range
import Mathlib.Dynamics.PeriodicPts.Defs
import Readback.Random.Source

namespace Readback

namespace KeyStream

def advance (k : KeyStream) : KeyStream :=
  k.next.2

theorem advance_cons (key : ChaCha8.Key) (c : UInt64) (w : UInt32) (ws : List UInt32) :
    advance ⟨key, c, w :: ws⟩ = ⟨key, c, ws⟩ :=
  rfl

theorem advance_nil (key : ChaCha8.Key) (c : UInt64) :
    advance ⟨key, c, []⟩ = ⟨key, c + 1, (ChaCha8.block key c).toList.tail⟩ :=
  rfl

theorem advance_pending (key : ChaCha8.Key) (c : UInt64) {ws : List UInt32} {n : Nat}
    (h : n ≤ ws.length) : advance^[n] ⟨key, c, ws⟩ = ⟨key, c, ws.drop n⟩ := by
  induction n generalizing ws with
  | zero => rfl
  | succ n ih =>
    cases ws with
    | nil => cases h
    | cons w ws =>
      rw [Function.iterate_succ_apply, advance_cons, ih (Nat.le_of_succ_le_succ h),
        List.drop_succ_cons]

theorem length_tail_block (key : ChaCha8.Key) (c : UInt64) :
    (ChaCha8.block key c).toList.tail.length = 15 := by
  rw [List.length_tail, Vector.length_toList]

theorem advance_block (key : ChaCha8.Key) (c : UInt64) :
    advance^[16] ⟨key, c, []⟩ = ⟨key, c + 1, []⟩ := by
  have hlen := length_tail_block key c
  rw [Function.iterate_succ_apply, advance_nil,
    advance_pending key (c + 1) (Nat.le_of_eq hlen.symm), List.drop_eq_nil_of_le (Nat.le_of_eq hlen)]

theorem advance_blocks (key : ChaCha8.Key) (c : UInt64) (n : Nat) :
    advance^[16 * n] ⟨key, c, []⟩ = ⟨key, c + UInt64.ofNat n, []⟩ := by
  induction n generalizing c with
  | zero => simp
  | succ n ih =>
    rw [Nat.mul_succ, Function.iterate_add_apply, advance_block, ih]
    congr 1
    rw [UInt64.ofNat_add, UInt64.add_assoc, UInt64.add_comm 1]
    rfl

def period : Nat := 16 * 2 ^ 64

theorem advance_period (key : ChaCha8.Key) : advance^[period] (ofKey key) = ofKey key := by
  have hturn : UInt64.ofNat (2 ^ 64) = 0 := rfl
  rw [ofKey, period, advance_blocks, hturn, UInt64.add_zero]

theorem isPeriodicPt (key : ChaCha8.Key) (n : Nat) :
    Function.IsPeriodicPt advance period (advance^[n] (ofKey key)) :=
  Function.IsPeriodicPt.apply_iterate (advance_period key) n

end KeyStream

namespace Source

def skip : Source → Source
  | .stream k => .stream k.advance
  | .words ws => .words ws.tail

theorem eq_skip_of_next {s s' : Source} {w : UInt32} (h : s.next = some (w, s')) :
    s' = s.skip := by
  cases s with
  | stream k =>
    cases h
    rfl
  | words ws =>
    cases ws with
    | nil => cases h
    | cons w ws =>
      cases h
      rfl

theorem iterate_skip_stream (n : Nat) (k : KeyStream) :
    skip^[n] (.stream k) = .stream (KeyStream.advance^[n] k) := by
  induction n generalizing k with
  | zero => rfl
  | succ n ih => exact ih k.advance

theorem iterate_skip_words (n : Nat) (ws : List UInt32) :
    skip^[n] (.words ws) = .words (ws.drop n) := by
  induction n generalizing ws with
  | zero => rfl
  | succ n ih =>
    rw [Function.iterate_succ_apply, skip, ih, List.drop_tail]

/-- A list of words, or a key stream that has got anywhere from its start. -/
def Sound : Source → Prop
  | .stream k => ∃ key n, k = KeyStream.advance^[n] (.ofKey key)
  | .words _ => True

theorem sound_ofSeed (seed : UInt64) : (ofSeed seed).Sound :=
  ⟨_, 0, rfl⟩

theorem Sound.skip_iterate {s : Source} (hs : s.Sound) (n : Nat) : (skip^[n] s).Sound := by
  cases s with
  | stream k =>
    obtain ⟨key, i, rfl⟩ := hs
    rw [iterate_skip_stream, ← Function.iterate_add_apply]
    exact ⟨key, n + i, rfl⟩
  | words ws =>
    rw [iterate_skip_words]
    trivial

/-- The source and what is left of it after each of its words. -/
def orbit (s : Source) : Finset Source :=
  (Finset.range s.supply).image fun n => skip^[n] s

theorem card_orbit_le (s : Source) : s.orbit.card ≤ s.supply :=
  Finset.card_image_le.trans_eq (Finset.card_range _)

theorem supply_stream (k : KeyStream) : (Source.stream k).supply = KeyStream.period :=
  rfl

theorem Sound.mem_orbit {s : Source} (hs : s.Sound) {n : Nat} (hn : (skip^[n] s).next ≠ none) :
    skip^[n] s ∈ s.orbit := by
  cases s with
  | stream k =>
    obtain ⟨key, i, rfl⟩ := hs
    have hback := (KeyStream.isPeriodicPt key i).iterate_mod_apply n
    have hlt : n % KeyStream.period < KeyStream.period := Nat.mod_lt _ (by decide)
    rw [orbit, supply_stream, Finset.mem_image]
    refine ⟨_, Finset.mem_range.mpr hlt, ?_⟩
    rw [iterate_skip_stream, iterate_skip_stream, hback]
  | words ws =>
    rw [iterate_skip_words] at hn
    have hlt : n < ws.length := by
      by_contra hle
      rw [List.drop_eq_nil_of_le (Nat.le_of_not_lt hle)] at hn
      exact hn rfl
    exact Finset.mem_image_of_mem _ (Finset.mem_range.mpr hlt)

variable {β : Type} {R : Source → β → Source → Prop} {P : β → Prop} {s s' s₁ s₂ : Source}
  {b c : β} {m n : Nat}

/-- Some words of the source, at least one, have been taken. -/
def Takes (s s' : Source) : Prop :=
  s.next ≠ none ∧ ∃ n, s' = skip^[n] s

theorem takes_of_next {w : UInt32} (h : s.next = some (w, s')) : s.Takes s' :=
  ⟨by rw [h]; exact Option.some_ne_none _, 1, eq_skip_of_next h⟩

theorem Takes.trans (h₁ : s.Takes s₁) (h₂ : s₁.Takes s₂) : s.Takes s₂ := by
  obtain ⟨hn, i, rfl⟩ := h₁
  obtain ⟨-, j, rfl⟩ := h₂
  exact ⟨hn, j + i, (Function.iterate_add_apply skip j i s).symm⟩

theorem Sound.of_takes (hs : s.Sound) (h : s.Takes s') : s'.Sound := by
  obtain ⟨-, n, rfl⟩ := h
  exact hs.skip_iterate n

/-- A way to take values from a source, which alone decides what comes and what is left. -/
structure Drawing (R : Source → β → Source → Prop) : Prop where
  unique {s s₁ s₂ : Source} {b c : β} : R s b s₁ → R s c s₂ → b = c ∧ s₁ = s₂
  takes {s s' : Source} {b : β} : R s b s' → s.Takes s'

/-- The first value with a property, after a number of values without it. -/
inductive First (R : Source → β → Source → Prop) (P : β → Prop) :
    Nat → Source → β → Source → Prop
  | here {s s' : Source} {b : β} (h : R s b s') (hb : P b) : First R P 0 s b s'
  | later {m : Nat} {s s₁ s' : Source} {b c : β} (h : R s c s₁) (hc : ¬ P c)
      (hr : First R P m s₁ b s') : First R P (m + 1) s b s'

theorem First.prop (h : First R P m s b s') : P b := by
  induction h with
  | here _ hb => exact hb
  | later _ _ _ ih => exact ih

theorem First.imp {Q : β → Prop} (hPQ : ∀ {s b s'}, R s b s' → (P b ↔ Q b))
    (h : First R P m s b s') : First R Q m s b s' := by
  induction h with
  | here h hb => exact .here h ((hPQ h).mp hb)
  | later h hc _ ih => exact .later h (fun hq => hc ((hPQ h).mpr hq)) ih

theorem First.congr {Q : β → Prop} (hPQ : ∀ {s b s'}, R s b s' → (P b ↔ Q b)) :
    First R P m s b s' ↔ First R Q m s b s' :=
  ⟨First.imp hPQ, First.imp fun h => (hPQ h).symm⟩

theorem First.exists_drawn (h : First R P m s b s') : ∃ t, R t b s' := by
  induction h with
  | here h _ => exact ⟨_, h⟩
  | later _ _ _ ih => exact ih

theorem First.takes (hR : Drawing R) (h : First R P m s b s') : s.Takes s' := by
  induction h with
  | here h => exact hR.takes h
  | later h _ _ ih => exact (hR.takes h).trans ih

theorem First.unique (hR : Drawing R) (h₁ : First R P m s b s₁) (h₂ : First R P n s c s₂) :
    m = n ∧ b = c ∧ s₁ = s₂ := by
  induction h₁ generalizing n with
  | here h hb =>
    cases h₂ with
    | here h' => exact ⟨rfl, hR.unique h h'⟩
    | later h' hc =>
      obtain ⟨rfl, -⟩ := hR.unique h h'
      exact absurd hb hc
  | later h hc _ ih =>
    cases h₂ with
    | here h' hb =>
      obtain ⟨rfl, -⟩ := hR.unique h h'
      exact absurd hb hc
    | later h' _ hr =>
      obtain ⟨-, rfl⟩ := hR.unique h h'
      obtain ⟨rfl, he⟩ := ih hr
      exact ⟨rfl, he⟩

theorem First.drawing (hR : Drawing R) : Drawing fun s b s' => ∃ m, First R P m s b s' where
  unique := fun ⟨_, h₁⟩ ⟨_, h₂⟩ => (h₁.unique hR h₂).2
  takes := fun ⟨_, h⟩ => h.takes hR

theorem First.path (hR : Drawing R) (h : First R P m s b s') : ∃ path : Nat → Source,
    ∀ i ≤ m, (∃ n, path i = skip^[n] s) ∧ First R P (m - i) (path i) b s' := by
  induction h with
  | @here s s' b h hb =>
    refine ⟨fun _ => s, ?_⟩
    intro i hi
    rw [Nat.le_zero.mp hi]
    exact ⟨⟨0, rfl⟩, .here h hb⟩
  | @later m s s₁ s' b c h hc hr ih =>
    obtain ⟨path, hpath⟩ := ih
    obtain ⟨-, j, rfl⟩ := hR.takes h
    refine ⟨fun i => i.casesOn s path, ?_⟩
    intro i hi
    cases i with
    | zero => exact ⟨⟨0, rfl⟩, .later h hc hr⟩
    | succ i =>
      obtain ⟨⟨n, hn⟩, hf⟩ := hpath i (Nat.le_of_succ_le_succ hi)
      rw [← Function.iterate_add_apply] at hn
      exact ⟨⟨n + j, hn⟩, Nat.succ_sub_succ m i ▸ hf⟩

theorem First.lt_supply (hR : Drawing R) (hs : s.Sound) (h : First R P m s b s') :
    m < s.supply := by
  obtain ⟨path, hpath⟩ := h.path hR
  have hmem : Set.MapsTo path (Finset.range (m + 1)) s.orbit := by
    intro i hi
    obtain ⟨⟨n, hn⟩, hf⟩ := hpath i (Nat.le_of_lt_succ (Finset.mem_range.mp hi))
    have hlive := (hf.takes hR).1
    rw [hn] at hlive ⊢
    exact hs.mem_orbit hlive
  have hinj : Set.InjOn path (Finset.range (m + 1)) := by
    intro i hi j hj he
    have hi := Nat.le_of_lt_succ (Finset.mem_range.mp hi)
    have hj := Nat.le_of_lt_succ (Finset.mem_range.mp hj)
    have hfj := (hpath j hj).2
    rw [← he] at hfj
    obtain ⟨hm, -⟩ := (hpath i hi).2.unique hR hfj
    omega
  have hcard := Finset.card_le_card_of_injOn path hmem hinj
  rw [Finset.card_range] at hcard
  exact hcard.trans s.card_orbit_le

end Source

end Readback
