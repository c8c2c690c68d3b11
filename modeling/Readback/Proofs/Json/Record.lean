import Mathlib.Data.List.Nodup
import Readback.Json.Summary
import Readback.Proofs.Json.Document

namespace Readback

namespace Numeral

theorem sound_ofNat (n : Nat) : (ofNat n).Sound :=
  Nat.zero_lt_one

theorem sound_ofDecimal (style : Decimal.Style) (negative : Bool) (d : Nat) (e : Int) :
    (ofDecimal style negative d e).Sound := by
  simp only [ofDecimal]
  split
  · exact Nat.zero_lt_of_lt (by decide : 1 < 10)
  split
  · exact Nat.mod_lt _ (Nat.pow_pos (by decide))
  · exact Nat.mod_lt _ (Nat.pow_pos (by decide))

theorem sound_of_ofBinary? {style : Decimal.Style} {b : Binary} {n : Numeral}
    (h : ofBinary? style b = some n) : n.Sound := by
  unfold ofBinary? at h
  split at h
  · cases h
    exact Nat.zero_lt_of_lt (by decide : 1 < 10)
  · cases h
    exact sound_ofDecimal _ _ _ _
  · cases h

end Numeral

namespace Json

theorem sound_nat (n : Nat) : (nat n).Sound :=
  Numeral.sound_ofNat n

theorem sound_uint64 (n : UInt64) : (uint64 n).Sound :=
  sound_nat n.toNat

theorem sound_text (s : String) : (text s).Sound :=
  rfl

theorem sound_elim_number {n : Option Numeral} (h : ∀ m, n = some m → m.Sound) :
    (n.elim null number).Sound := by
  cases n with
  | none => trivial
  | some n => exact h n rfl

theorem sound_ofFloat (x : Float) : (ofFloat x).Sound :=
  sound_elim_number fun _ => Numeral.sound_of_ofBinary?

theorem sound_ofFloat32 (x : Float32) : (ofFloat32 x).Sound :=
  sound_elim_number fun _ => Numeral.sound_of_ofBinary?

theorem sound_optional {α : Type} {item : α → Json} (h : ∀ x, (item x).Sound) (x : Option α) :
    (Json.optional item x).Sound := by
  cases x with
  | none => trivial
  | some x => exact h x

theorem soundItems_iff {vs : List Json} : SoundItems vs ↔ ∀ v ∈ vs, v.Sound := by
  induction vs with
  | nil => exact ⟨nofun, fun _ => trivial⟩
  | cons v vs ih => rw [SoundItems, ih, List.forall_mem_cons]

theorem sound_record {fields : List (String × Json)} (h : ∀ p ∈ fields, p.2.Sound) :
    (record fields).Sound := by
  rw [record, Sound]
  induction fields with
  | nil => trivial
  | cons p fields ih =>
    exact ⟨rfl, h p List.mem_cons_self, ih fun q hq => h q (List.mem_cons_of_mem _ hq)⟩

theorem nat?_nat {n limit : Nat} (h : n < limit) : (nat n).nat? limit = some n :=
  if_pos ⟨rfl, Bool.false_ne_true, h⟩

theorem uint64?_uint64 (n : UInt64) : (uint64 n).uint64? = some n := by
  have hn : n.toNat < Word.limit := n.toNat_lt
  rw [uint64, uint64?, nat?_nat hn, Option.map_some]
  exact congrArg some UInt64.ofNat_toNat

theorem uint8?_nat (n : UInt8) : (nat n.toNat).uint8? = some n := by
  have hn : n.toNat < 256 := n.toNat_lt
  rw [uint8?, nat?_nat hn, Option.map_some]
  exact congrArg some UInt8.ofNat_toNat

theorem optional?_optional {α : Type} {item : α → Json} {item? : Json → Option α} (x : Option α)
    (h : ∀ x, item? (item x) = some x) (hnull : ∀ x, item x ≠ null) :
    Json.optional? item? (Json.optional item x) = some x := by
  cases x with
  | none => rfl
  | some x =>
    show Json.optional? item? (item x) = some (some x)
    rw [Json.optional?]
    · rw [h]
      rfl
    · exact hnull x

theorem lookup_of_mem {fields : List (String × Json)} (h : (fields.map Prod.fst).Nodup)
    {p : String × Json} (hp : p ∈ fields) : fields.lookup p.1 = some p.2 := by
  induction fields with
  | nil => cases hp
  | cons q fields ih =>
    obtain ⟨hq, hrest⟩ := List.nodup_cons.mp h
    rcases List.mem_cons.mp hp with rfl | hp
    · rw [List.lookup_cons, beq_self_eq_true]
    · have hne : (p.1 == q.1) = false := by
        rw [beq_eq_false_iff_ne]
        exact fun he => hq (he ▸ List.mem_map_of_mem hp)
      rw [List.lookup_cons, hne]
      exact ih hrest hp

theorem members?_record {fields : List (String × Json)} {names : List String}
    (hnames : fields.map Prod.fst = names) (h : names.Nodup) :
    (record fields).members? names = some (fields.map fun p => some p.2) := by
  subst hnames
  have hnamed : (fields.map fun p => (some p.1, p.2)).mapM
      (fun p => p.1.map fun k => (k, p.2)) = some fields := by
    clear h
    induction fields with
    | nil => rfl
    | cons p fields ih => rw [List.map_cons, List.mapM_cons, ih]; rfl
  have hcount : ((fields.map Prod.fst).all fun n => fields.countP (·.1 = n) ≤ 1) = true := by
    simp only [List.all_eq_true, decide_eq_true_eq]
    intro n _
    have hle := List.nodup_iff_count_le_one.mp h n
    rw [List.count, List.countP_map] at hle
    exact hle
  rw [record, members?]
  change ((fields.map fun p => (some p.1, p.2)).mapM fun p => p.1.map fun k => (k, p.2)) >>= _ = _
  simp only [hnamed, bind, Option.bind, hcount, if_true, List.map_map]
  exact congrArg some (List.map_congr_left fun p hp => lookup_of_mem h hp)

end Json

end Readback
