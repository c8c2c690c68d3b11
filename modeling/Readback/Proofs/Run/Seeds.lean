import Mathlib.Data.List.Nodup
import Readback.Device.Memory
import Readback.Proofs.Run.Start

namespace Readback

variable {seed : UInt64}

namespace Worker

variable {i k : Nat}

theorem stride_mul_inverse : stride * 0xF1DE83E19937733D = 1 := by
  decide

theorem mul_stride_inj {a b : UInt64} (h : a * stride = b * stride) : a = b :=
  calc
    a = a * (stride * 0xF1DE83E19937733D) := by rw [stride_mul_inverse, UInt64.mul_one]
    _ = b * (stride * 0xF1DE83E19937733D) := by rw [← UInt64.mul_assoc, h, UInt64.mul_assoc]
    _ = b := by rw [stride_mul_inverse, UInt64.mul_one]

theorem toUInt64_inj (hi : i < Word.limit) (hk : k < Word.limit) (h : i.toUInt64 = k.toUInt64) :
    i = k :=
  calc
    i = i.toUInt64.toNat := (UInt64.toNat_ofNat_of_lt' hi).symm
    _ = k.toUInt64.toNat := by rw [h]
    _ = k := UInt64.toNat_ofNat_of_lt' hk

theorem seedFor_inj (hi : i < Word.limit) (hk : k < Word.limit)
    (h : seedFor seed i = seedFor seed k) : i = k := by
  have hproduct : i.toUInt64 * stride = k.toUInt64 * stride := (UInt64.xor_right_inj seed).mp h
  exact toUInt64_inj hi hk (mul_stride_inj hproduct)

theorem seedFor_zero : seedFor seed 0 = seed :=
  UInt64.xor_zero

theorem toNat_seedFor (seed : UInt64) (id : Nat) :
    (seedFor seed id).toNat = seed.toNat ^^^ (id * 0x9E3779B97F4A7C15 % Word.limit) := by
  have hid : id.toUInt64.toNat = id % Word.limit := UInt64.toNat_ofNat'
  have hstride : stride.toNat = 0x9E3779B97F4A7C15 := rfl
  rw [seedFor, UInt64.toNat_xor, UInt64.toNat_mul, hid, hstride]
  exact congrArg _ (Nat.mod_mul_mod _ _ _)

theorem source_of_make {j : Job} {id : Nat} {entropy : Source} {w : Worker}
    (hj : j.config.seed = some seed) (h : make j id entropy = .ok w) :
    w.source = .ofSeed (seedFor seed id) := by
  rw [make_ok h]
  show sourceFor j.config id entropy = _
  rw [sourceFor, hj]

end Worker

namespace Run

variable {σ : Type} {dev : Device σ} {d : σ} {c : Config} {setting : Setting} {events : List Event}
  {r : Run σ}

theorem nodup_seeds (seed workers : UInt64) :
    ((List.range workers.toNat).map (Worker.seedFor seed)).Nodup := by
  refine List.nodup_range.map_on fun i hi k hk h => ?_
  have hlt {id : Nat} (hid : id ∈ List.range workers.toNat) : id < Word.limit :=
    Nat.lt_trans (List.mem_range.mp hid) workers.toNat_lt
  exact Worker.seedFor_inj (hlt hi) (hlt hk) h

theorem Started.sources (h : Started dev d c setting events r) (hc : c.seed = some seed) :
    r.workers.toList.map Worker.source =
      ((List.range c.workers.toNat).map (Worker.seedFor seed)).map Source.ofSeed := by
  have hj : r.job.config.seed = some seed := by rw [h.config, hc]
  apply List.ext_getElem
  · simp only [List.length_map, List.length_range, Array.length_toList, h.size]
  · intro n hn _
    rw [List.length_map, Array.length_toList] at hn
    simp only [List.getElem_map, Array.getElem_toList, List.getElem_range]
    exact Worker.source_of_make hj (h.made (Array.getElem?_eq_getElem hn))

/-- No two workers of a run with a seed start from the same one.  Each has a seed of its own, which
the number of the worker decides, and the first has that of the run. -/
theorem seeds_distinct (seed : UInt64) :
    (∀ id, (Worker.seedFor seed id).toNat =
        seed.toNat ^^^ (id * 0x9E3779B97F4A7C15 % Word.limit)) ∧
      Worker.seedFor seed 0 = seed ∧
      (∀ i < Word.limit, ∀ k < Word.limit, i ≠ k →
        Worker.seedFor seed i ≠ Worker.seedFor seed k) ∧
      (∀ (j : Job) id entropy w, j.config.seed = some seed → Worker.make j id entropy = .ok w →
        w.source = .ofSeed (Worker.seedFor seed id)) ∧
      ∀ {σ : Type} (dev : Device σ) d c setting events r, c.seed = some seed →
        start dev d c setting = (events, .ok r) →
          ∃ seeds : List UInt64, seeds.length = c.workers.toNat ∧ seeds.Nodup ∧
            seeds.head? = some seed ∧
            r.workers.toList.map Worker.source = seeds.map Source.ofSeed := by
  refine ⟨Worker.toNat_seedFor seed, Worker.seedFor_zero,
    fun i hi k hk hne h => hne (Worker.seedFor_inj hi hk h),
    fun j id entropy w => Worker.source_of_make, ?_⟩
  intro σ dev d c setting events r hc h
  have hs := started_of_start h
  have hworkers : c.workers.toNat ≠ 0 := fun hz => hs.valid.workers (UInt64.toNat_inj.mp hz)
  refine ⟨_, ?_, nodup_seeds seed c.workers, ?_, hs.sources hc⟩
  · rw [List.length_map, List.length_range]
  · rw [List.head?_map, List.head?_range, if_neg hworkers, Option.map_some, Worker.seedFor_zero]

/-- The run has the two workers of the standard configuration, and the numbers compared are the
first past the reporter's and the greatest. -/
theorem seeds_distinct_of_two_workers :
    let c : Config := { Config.standard with blockSize := 512, seed := some 7 }
    let d : Memory := ⟨.zeroes 8192, false, false, false, false, 0, 0, 0⟩
    let setting : Setting := ⟨false, 0, ⟨0⟩, fun _ => .words []⟩
    1 < Word.limit ∧ 18446744073709551615 < Word.limit ∧
      Worker.seedFor 7 1 ≠ Worker.seedFor 7 18446744073709551615 ∧
      ∃ events r, start Memory.device d c setting = (events, .ok r) ∧
        (∃ w, Worker.make r.job 18446744073709551615 (.words []) = .ok w ∧
          w.source = .ofSeed (Worker.seedFor 7 18446744073709551615)) ∧
        ∃ seeds : List UInt64, seeds.length = 2 ∧ seeds.Nodup ∧ seeds.head? = some 7 ∧
          r.workers.toList.map Worker.source = seeds.map Source.ofSeed := by
  intro c d setting
  have hone : 1 < Word.limit := by decide
  have hgreatest : 18446744073709551615 < Word.limit := by decide
  have hv : c.validate = .ok () := by decide +kernel
  have hsize : Memory.device.size d = .ok 8192 := rfl
  obtain ⟨events, r, h⟩ : ∃ events r, start Memory.device d c setting = (events, .ok r) :=
    exists_start hv hsize (by decide) (by decide) (by decide) rfl
  obtain ⟨-, -, hne, hmade, hstarted⟩ := seeds_distinct 7
  have hs := started_of_start h
  have hj : r.job.config.seed = some 7 := by rw [hs.config]
  obtain ⟨w, hw⟩ := exists_make hs.job.blockSize 18446744073709551615 (.words [])
  exact ⟨hone, hgreatest, hne _ hone _ hgreatest (by decide), events, r, h,
    ⟨w, hw, hmade _ _ _ _ hj hw⟩, hstarted _ _ _ _ _ _ rfl h⟩

end Run

end Readback
