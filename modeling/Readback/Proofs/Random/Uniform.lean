import Readback.Proofs.Random.Stream
import Readback.Random.Uniform

namespace Readback

open Source (First Drawing)

variable {w : Width} {s s' : Source} {range tries low high m v x : Nat}

namespace Width

def Draws (w : Width) (s : Source) (v : Nat) (s' : Source) : Prop :=
  w.draw s = some (v, s')

/-- The low half of the product is in the zone. -/
def Accepts (w : Width) (range v : Nat) : Prop :=
  v * range % 2 ^ w.bits ≤ w.zone range

theorem drawing (w : Width) : Drawing w.Draws where
  unique := by
    intro s s₁ s₂ b c h₁ h₂
    cases h₁.symm.trans h₂
    exact ⟨rfl, rfl⟩
  takes := by
    intro s s' b h
    cases w with
    | word32 =>
      obtain ⟨⟨x, s₁⟩, hx, he⟩ := Option.map_eq_some_iff.mp h
      cases he
      exact Source.takes_of_next hx
    | word64 =>
      obtain ⟨⟨x, s₂⟩, hx, he⟩ := Option.map_eq_some_iff.mp h
      cases he
      simp only [Source.next64, Option.bind_eq_bind, Option.bind_eq_some_iff, Prod.exists] at hx
      obtain ⟨lo, s₁, hlo, hi, s₂, hhi, he⟩ := hx
      cases he
      exact (Source.takes_of_next hlo).trans (Source.takes_of_next hhi)

theorem Draws.lt (h : w.Draws s v s') : v < 2 ^ w.bits := by
  cases w with
  | word32 =>
    obtain ⟨⟨x, _⟩, -, he⟩ := Option.map_eq_some_iff.mp h
    cases he
    exact x.toNat_lt
  | word64 =>
    obtain ⟨⟨x, _⟩, -, he⟩ := Option.map_eq_some_iff.mp h
    cases he
    exact x.toNat_lt

theorem le_zone (hx : x < range) : x ≤ w.zone range := by
  have hscale : range ≤ range * 2 ^ (w.bits - 1 - range.log2) :=
    Nat.le_mul_of_pos_right range (Nat.two_pow_pos _)
  rw [zone]
  omega

theorem exists_mul_eq (hr : 0 < range) (y : Nat) : ∃ v d, v * range = y + d ∧ d < range := by
  have hdiv := Nat.div_add_mod (y + (range - 1)) range
  have hmod := Nat.mod_lt (y + (range - 1)) hr
  refine ⟨(y + (range - 1)) / range, range - 1 - (y + (range - 1)) % range, ?_, by omega⟩
  rw [Nat.mul_comm]
  omega

/-- The least draw whose product reaches `x * 2 ^ bits` exceeds it by less than `range`, and so much
is in the zone of every range. -/
theorem exists_accepted (hr : range ≤ 2 ^ w.bits) (hx : x < range) :
    ∃ v < 2 ^ w.bits, w.Accepts range v ∧ v * range / 2 ^ w.bits = x := by
  have hpos : 0 < 2 ^ w.bits := Nat.two_pow_pos _
  obtain ⟨v, d, hd, hdr⟩ := exists_mul_eq (Nat.zero_lt_of_lt hx) (2 ^ w.bits * x)
  have hdw : d < 2 ^ w.bits := Nat.lt_of_lt_of_le hdr hr
  have hhigh : v * range / 2 ^ w.bits = x := by
    rw [hd, Nat.mul_add_div hpos, Nat.div_eq_of_lt hdw, Nat.add_zero]
  have hlow : v * range % 2 ^ w.bits = d := by
    rw [hd, Nat.mul_add_mod, Nat.mod_eq_of_lt hdw]
  have hprod : v * range < 2 ^ w.bits * range := by
    rw [Nat.mul_comm (2 ^ w.bits)]
    exact (Nat.div_lt_iff_lt_mul hpos).mp (hhigh.trans_lt hx)
  refine ⟨v, Nat.lt_of_mul_lt_mul_right hprod, ?_, hhigh⟩
  rw [Accepts, hlow]
  exact le_zone hdr

def words64 (v : Nat) : List UInt32 :=
  [UInt32.ofNat v, UInt32.ofNat (v / 2 ^ 32)]

theorem draws_words64 (hv : v < 2 ^ 64) (rest : List UInt32) :
    word64.Draws (.words (words64 v ++ rest)) v (.words rest) := by
  have hlow : v % 2 ^ 32 < 2 ^ 32 := Nat.mod_lt _ (by decide)
  have hhigh : v / 2 ^ 32 < 2 ^ 32 := Nat.div_lt_of_lt_mul hv
  have hfit : 2 ^ 32 * (v / 2 ^ 32) < 2 ^ 64 := Nat.lt_of_le_of_lt (Nat.mul_div_le v _) hv
  have hplace : (32 : UInt64).toNat % 64 = 32 := rfl
  have hval : ((UInt32.ofNat v).toUInt64 |||
      (UInt32.ofNat (v / 2 ^ 32)).toUInt64 <<< 32).toNat = v := by
    rw [UInt64.toNat_or, UInt64.toNat_shiftLeft, UInt32.toNat_toUInt64, UInt32.toNat_toUInt64,
      UInt32.toNat_ofNat', UInt32.toNat_ofNat', Nat.mod_eq_of_lt hhigh, hplace, Nat.shiftLeft_eq,
      Nat.mul_comm _ (2 ^ 32), Nat.mod_eq_of_lt hfit, Nat.or_comm,
      ← Nat.two_pow_add_eq_or_of_lt hlow, Nat.div_add_mod]
  have hdraw : word64.draw (.words (words64 v ++ rest)) =
      some (((UInt32.ofNat v).toUInt64 |||
        (UInt32.ofNat (v / 2 ^ 32)).toUInt64 <<< 32).toNat, .words rest) := rfl
  rw [Draws, hdraw, hval]

end Width

namespace Source

theorem First.below_eq (h : First w.Draws (w.Accepts range) m s v s') (hm : m < tries) :
    s.below w range tries = some (v * range / 2 ^ w.bits, s') := by
  induction h generalizing tries with
  | here h hb =>
    obtain ⟨tries, rfl⟩ := Nat.exists_eq_succ_of_ne_zero (Nat.ne_of_gt hm)
    rw [Width.Draws] at h
    rw [Width.Accepts] at hb
    simp only [Source.below, h, Option.bind_eq_bind, Option.bind_some, if_pos hb]
    rfl
  | later h hc _ ih =>
    obtain ⟨tries, rfl⟩ := Nat.exists_eq_succ_of_ne_zero (Nat.ne_zero_of_lt hm)
    rw [Width.Draws] at h
    rw [Width.Accepts] at hc
    simp only [Source.below, h, Option.bind_eq_bind, Option.bind_some, if_neg hc]
    exact ih (Nat.lt_of_succ_lt_succ hm)

theorem exists_first_of_below (h : s.below w range tries = some (x, s')) :
    ∃ m v, First w.Draws (w.Accepts range) m s v s' ∧ x = v * range / 2 ^ w.bits := by
  induction tries generalizing s with
  | zero => cases h
  | succ tries ih =>
    simp only [Source.below, Option.bind_eq_bind, Option.bind_eq_some_iff, Prod.exists] at h
    obtain ⟨v, s₁, hd, h⟩ := h
    split at h
    · rename_i ha
      cases h
      exact ⟨0, v, .here hd ha, rfl⟩
    · rename_i ha
      obtain ⟨m, u, hf, he⟩ := ih h
      exact ⟨m + 1, u, .later hd ha hf, he⟩

theorem First.quotient_lt (hr : 0 < range) (h : First w.Draws (w.Accepts range) m s v s') :
    v * range / 2 ^ w.bits < range := by
  obtain ⟨t, hd⟩ := h.exists_drawn
  rw [Nat.div_lt_iff_lt_mul (Nat.two_pow_pos _), Nat.mul_comm range]
  exact Nat.mul_lt_mul_of_pos_right hd.lt hr

/-- A number from `low` to `high` by the first draw that is accepted, however late it comes. -/
def Picks (w : Width) (low high : Nat) (s : Source) (x : Nat) (s' : Source) : Prop :=
  ∃ v, (∃ m, First w.Draws (w.Accepts (high + 1 - low)) m s v s') ∧
    x = low + v * (high + 1 - low) / 2 ^ w.bits

theorem drawing_picks (w : Width) (low high : Nat) : Drawing (Picks w low high) where
  unique := by
    rintro s s₁ s₂ b c ⟨v, h₁, rfl⟩ ⟨u, h₂, rfl⟩
    obtain ⟨rfl, rfl⟩ := (First.drawing w.drawing).unique h₁ h₂
    exact ⟨rfl, rfl⟩
  takes := fun ⟨_, h, _⟩ => (First.drawing w.drawing).takes h

theorem Picks.mem (h : Picks w low high s x s') (hlh : low ≤ high) : low ≤ x ∧ x ≤ high := by
  obtain ⟨v, ⟨m, hf⟩, rfl⟩ := h
  have hlt := hf.quotient_lt (by omega)
  generalize v * (high + 1 - low) / 2 ^ w.bits = q at hlt
  omega

theorem picks_of_between (h : s.between w low high = some (x, s')) : Picks w low high s x s' := by
  obtain ⟨⟨y, _⟩, hy, he⟩ := Option.map_eq_some_iff.mp h
  cases he
  obtain ⟨m, v, hf, rfl⟩ := exists_first_of_below hy
  exact ⟨v, ⟨m, hf⟩, rfl⟩

theorem between_mem (hlh : low ≤ high) (h : s.between w low high = some (x, s')) :
    low ≤ x ∧ x ≤ high :=
  (picks_of_between h).mem hlh

theorem Sound.between_iff (hs : s.Sound) :
    s.between w low high = some (x, s') ↔ Picks w low high s x s' := by
  constructor
  · exact picks_of_between
  · rintro ⟨v, ⟨m, hf⟩, rfl⟩
    rw [between, hf.below_eq (hf.lt_supply w.drawing hs)]
    rfl

/-- Every number from `low` to `high` can come. -/
theorem exists_picks (hx : low ≤ x) (hxh : x ≤ high) (hh : high < 2 ^ 64) :
    ∃ ws : List UInt32, ∀ rest,
      Picks .word64 low high (.words (ws ++ rest)) x (.words rest) := by
  have hrange : high + 1 - low ≤ 2 ^ Width.word64.bits := by
    simp only [Width.bits]
    omega
  have hlt : x - low < high + 1 - low := by omega
  obtain ⟨v, hv, ha, hq⟩ := Width.exists_accepted hrange hlt
  refine ⟨Width.words64 v, ?_⟩
  intro rest
  exact ⟨v, ⟨0, .here (Width.draws_words64 hv rest) ha⟩, by omega⟩

end Source

end Readback
