import Mathlib.Data.List.Perm.Subperm
import Mathlib.Tactic.Choose
import Readback.Proofs.Worker.Batch

namespace Readback

namespace BlockRange

/-- The ranges hold blocks and are in order, and at least one block lies between any two. -/
structure Gapped (rs : List BlockRange) : Prop where
  proper : ∀ r ∈ rs, r.start < r.stop
  apart : rs.Pairwise fun r s => r.stop < s.start

theorem Gapped.nil : Gapped [] :=
  ⟨nofun, .nil⟩

theorem Gapped.cons {r : BlockRange} {rs : List BlockRange} (h : Gapped rs)
    (hr : r.start < r.stop) (hrs : ∀ s ∈ rs, r.stop < s.start) : Gapped (r :: rs) :=
  ⟨List.forall_mem_cons.mpr ⟨hr, h.proper⟩, .cons hrs h.apart⟩

theorem Gapped.tail {r : BlockRange} {rs : List BlockRange} (h : Gapped (r :: rs)) : Gapped rs :=
  ⟨fun s hs => h.proper s (List.mem_cons_of_mem _ hs), h.apart.of_cons⟩

theorem Gapped.stop_not_mem {rs : List BlockRange} (h : Gapped rs) {r s : BlockRange}
    (hr : r ∈ rs) (hs : s ∈ rs) : r.stop ∉ s.blocks := by
  rw [mem_blocks]
  induction rs with
  | nil => cases hr
  | cons q rest ih =>
    have hall (t : BlockRange) (ht : t ∈ rest) : q.stop < t.start :=
      List.rel_of_pairwise_cons h.apart ht
    rcases List.mem_cons.mp hr with rfl | hr' <;> rcases List.mem_cons.mp hs with rfl | hs'
    · omega
    · have := hall s hs'
      omega
    · have := hall r hr'
      have := h.proper r hr
      omega
    · exact ih h.tail hr' hs'

/-- No fewer ranges have the same blocks: one that took in the starts of two of the given ranges
would take in the block after the first of them as well. -/
theorem Gapped.length_le {rs ss : List BlockRange} (h : Gapped rs)
    (hsame : ∀ b, (∃ s ∈ ss, b ∈ s.blocks) ↔ ∃ r ∈ rs, b ∈ r.blocks) :
    rs.length ≤ ss.length := by
  have hcover : ∀ r ∈ rs, ∃ s ∈ ss, r.start ∈ s.blocks := by
    intro r hr
    exact (hsame r.start).mpr ⟨r, hr, mem_blocks.mpr ⟨Nat.le_refl _, h.proper r hr⟩⟩
  have : Nonempty BlockRange := ⟨⟨0, 0⟩⟩
  choose! f hmem hstart using hcover
  have hnodup : (rs.map f).Nodup := by
    rw [List.Nodup, List.pairwise_map]
    apply h.apart.imp_of_mem
    intro r s hr hs hrs he
    have hfirst := mem_blocks.mp (hstart r hr)
    have hsecond := mem_blocks.mp (he ▸ hstart s hs)
    have hproper := h.proper r hr
    have hgap : r.stop ∈ (f r).blocks := mem_blocks.mpr ⟨by omega, by omega⟩
    obtain ⟨q, hq, hb⟩ := (hsame r.stop).mp ⟨f r, hmem r hr, hgap⟩
    exact h.stop_not_mem hr hq hb
  have hsub : rs.map f ⊆ ss := by
    intro s hs
    obtain ⟨r, hr, rfl⟩ := List.mem_map.mp hs
    exact hmem r hr
  calc rs.length = (rs.map f).length := (List.length_map f).symm
    _ ≤ ss.length := (List.subperm_of_subset hnodup hsub).length_le

end BlockRange

namespace Worker

theorem gapped_openRuns {a stop : Nat} {start? : Option Nat} {l : List (Nat × Tag)}
    (hl : l.map Prod.fst = BlockRange.blocks ⟨a, stop⟩) (ho : Opened start? a stop) :
    BlockRange.Gapped (openRuns stop start? l) := by
  fun_induction openRuns stop start? l generalizing a with
  | case1 => exact .nil
  | case2 start =>
    obtain ⟨hlt, hle⟩ := ho start rfl
    exact .cons .nil (Nat.lt_of_lt_of_le hlt hle) fun _ hs => absurd hs List.not_mem_nil
  | case3 block rest ih =>
    obtain ⟨rfl, hlt, hrest⟩ := BlockRange.eq_of_blocks_eq_cons hl.symm
    exact ih hrest (.trimmed hlt)
  | case4 start block rest ih =>
    obtain ⟨rfl, hlt, hrest⟩ := BlockRange.eq_of_blocks_eq_cons hl.symm
    exact ih hrest (ho.next hlt)
  | case5 start block t rest ht ih =>
    obtain ⟨rfl, hlt, hrest⟩ := BlockRange.eq_of_blocks_eq_cons hl.symm
    exact .cons (ih hrest .none) (ho start rfl).1 fun s hs =>
      (start_of_mem_openRuns hrest .none hs).1
  | case6 p rest ht ih =>
    obtain ⟨-, -, hrest⟩ := BlockRange.eq_of_blocks_eq_cons hl.symm
    exact ih hrest .none

variable {r : BlockRange} {tags : List Tag}

theorem mem_zip_blocks (h : tags.length = r.blocks.length) {b : Nat} {t : Tag} :
    (b, t) ∈ r.blocks.zip tags ↔ r.start ≤ b ∧ tags[b - r.start]? = some t := by
  rw [List.mem_iff_getElem?]
  constructor
  · rintro ⟨i, hi⟩
    obtain ⟨hb, ht⟩ := List.getElem?_zip_eq_some.mp hi
    obtain ⟨-, rfl⟩ := BlockRange.getElem?_blocks.mp hb
    exact ⟨Nat.le_add_right _ _, by rwa [Nat.add_sub_cancel_left]⟩
  · rintro ⟨hb, ht⟩
    obtain ⟨hi, -⟩ := List.getElem?_eq_some_iff.mp ht
    rw [h, BlockRange.length_blocks] at hi
    exact ⟨b - r.start, List.getElem?_zip_eq_some.mpr
      ⟨BlockRange.getElem?_blocks.mpr ⟨hi, by omega⟩, ht⟩⟩

/-- The runs are the longest there are: they are blocks of the range, in order and with a gap after
each, and together they are the trimmed blocks, each once; and no fewer ranges have the same
blocks. -/
theorem trimmedRuns_maximal (h : tags.length = r.blocks.length) :
    let runs := trimmedRuns r tags
    (∀ run ∈ runs, run.start < run.stop ∧ r.start ≤ run.start ∧ run.stop ≤ r.stop) ∧
      runs.Pairwise (fun a b => a.stop < b.start) ∧
      (∀ b, (∃ run ∈ runs, b ∈ run.blocks) ↔
        r.start ≤ b ∧ tags[b - r.start]? = some .trimmed) ∧
      (runs.flatMap BlockRange.blocks).Pairwise (· < ·) ∧
      ∀ ranges : List BlockRange, (∀ b, (∃ s ∈ ranges, b ∈ s.blocks) ↔
        r.start ≤ b ∧ tags[b - r.start]? = some .trimmed) → runs.length ≤ ranges.length := by
  intro runs
  have hlen : tags.length = r.stop - r.start := by rw [h, BlockRange.length_blocks]
  have hflat : runs.flatMap BlockRange.blocks = trimmedBlocks (r.blocks.zip tags) :=
    flatMap_trimmedRuns hlen
  have hg : BlockRange.Gapped runs := gapped_openRuns (map_zip_blocks hlen) .none
  have hblocks (b : Nat) : (∃ run ∈ runs, b ∈ run.blocks) ↔
      r.start ≤ b ∧ tags[b - r.start]? = some .trimmed := by
    rw [← List.mem_flatMap, hflat, mem_trimmedBlocks, mem_zip_blocks h]
  refine ⟨?_, hg.apart, hblocks, ?_, ?_⟩
  · intro run hrun
    exact ⟨hg.proper run hrun, trimmedRuns_within hlen hrun⟩
  · have hsub : (trimmedBlocks (r.blocks.zip tags)).Sublist r.blocks := by
      conv_rhs => rw [← map_zip_blocks hlen]
      exact List.filter_sublist.map _
    rw [hflat]
    exact (List.pairwise_lt_range' 1).sublist hsub
  · intro ranges hranges
    apply hg.length_le
    intro b
    rw [hranges, hblocks]

/-- Trimmed blocks at both ends, and two that are parted by one other block. -/
theorem trimmedRuns_maximal_of_six :
    let r : BlockRange := ⟨3, 9⟩
    let tags : List Tag := [.trimmed, .trimmed, .duplicate, .trimmed, .unique 1, .trimmed]
    tags.length = r.blocks.length ∧
      trimmedRuns r tags = [⟨3, 5⟩, ⟨6, 7⟩, ⟨8, 9⟩] ∧
      ∀ ranges : List BlockRange, (∀ b, (∃ s ∈ ranges, b ∈ s.blocks) ↔
        r.start ≤ b ∧ tags[b - r.start]? = some .trimmed) → 3 ≤ ranges.length := by
  intro r tags
  have h : tags.length = r.blocks.length := by decide
  exact ⟨h, by decide, (trimmedRuns_maximal h).2.2.2.2⟩

end Worker

end Readback
