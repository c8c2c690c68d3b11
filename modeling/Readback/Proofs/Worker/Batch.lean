import Mathlib.Data.List.Forall2
import Readback.Proofs.Content
import Readback.Proofs.Worker.Transition

namespace Readback

variable {j : Job}

/-- The content that goes with a block and its tag. -/
def Job.Makes (j : Job) (p : Nat × Tag) (bytes : ByteArray) : Prop :=
  ∃ offset, j.geometry.byteOffset p.1 = .ok offset ∧ j.content.block offset p.2 = .ok bytes

theorem Job.Makes.size {p : Nat × Tag} {bytes : ByteArray} (h : j.Makes p bytes) :
    bytes.size = j.content.blockSize := by
  obtain ⟨offset, -, hb⟩ := h
  exact Content.size_block hb

namespace Worker

theorem compose_spec {blocks : List Nat} {s s' : Source} {made : List (Tag × ByteArray)}
    (h : compose j blocks s = .ok (made, s')) :
    made.length = blocks.length ∧
      List.Forall₂ j.Makes (blocks.zip (made.map Prod.fst)) (made.map Prod.snd) := by
  induction blocks generalizing s made with
  | nil =>
    cases h
    exact ⟨rfl, .nil⟩
  | cons block rest ih =>
    unfold compose at h
    cases ht : Tag.pick j.config.uniquePct.toNat j.config.trimPct.toNat s with
    | none =>
      rw [ht] at h
      cases h
    | some p =>
      rw [ht] at h
      obtain ⟨offset, ho, h⟩ := bind_eq_ok h
      obtain ⟨bytes, hb, h⟩ := bind_eq_ok h
      obtain ⟨⟨others, s₂⟩, hc, h⟩ := bind_eq_ok h
      cases h
      obtain ⟨hl, hf⟩ := ih hc
      exact ⟨congrArg (· + 1) hl, .cons ⟨offset, ho, hb⟩ hf⟩

def trimmedBlocks (l : List (Nat × Tag)) : List Nat :=
  (l.filter (·.2 = .trimmed)).map Prod.fst

theorem mem_trimmedBlocks {l : List (Nat × Tag)} {b : Nat} :
    b ∈ trimmedBlocks l ↔ (b, Tag.trimmed) ∈ l := by
  simp [trimmedBlocks]

theorem trimmedBlocks_trimmed (b : Nat) (l : List (Nat × Tag)) :
    trimmedBlocks ((b, .trimmed) :: l) = b :: trimmedBlocks l := by
  simp [trimmedBlocks]

theorem trimmedBlocks_of_ne {b : Nat} {t : Tag} (h : t = .trimmed → False)
    (l : List (Nat × Tag)) : trimmedBlocks ((b, t) :: l) = trimmedBlocks l := by
  simp only [trimmedBlocks, List.filter_cons, decide_eq_true_eq]
  rw [if_neg h]

section Runs

variable {a stop : Nat} {start? : Option Nat} {l : List (Nat × Tag)} {run : BlockRange}

/-- The run that is open, if there is one, starts before block `a`, which is not past the end. -/
def Opened (start? : Option Nat) (a stop : Nat) : Prop :=
  ∀ s ∈ start?, s < a ∧ a ≤ stop

theorem Opened.none : Opened none a stop :=
  nofun

theorem Opened.trimmed (h : a < stop) : Opened (some a) (a + 1) stop := by
  rintro s ⟨⟩
  exact ⟨Nat.lt_succ_self a, h⟩

theorem Opened.next {s : Nat} (ho : Opened (some s) a stop) (h : a < stop) :
    Opened (some s) (a + 1) stop := by
  rintro s ⟨⟩
  exact ⟨Nat.lt_succ_of_lt (ho s rfl).1, h⟩

theorem start_of_mem_openRuns (hl : l.map Prod.fst = BlockRange.blocks ⟨a, stop⟩)
    (ho : Opened start? a stop) (hr : run ∈ openRuns stop start? l) :
    start?.getD a ≤ run.start ∧ run.start < run.stop := by
  fun_induction openRuns stop start? l generalizing a with
  | case1 => cases hr
  | case2 start =>
    obtain ⟨hlt, hle⟩ := ho start rfl
    rcases List.mem_singleton.mp hr with rfl
    exact ⟨Nat.le_refl _, Nat.lt_of_lt_of_le hlt hle⟩
  | case3 block rest ih =>
    obtain ⟨rfl, hlt, hrest⟩ := BlockRange.eq_of_blocks_eq_cons hl.symm
    have hnext := ih hrest (.trimmed hlt) hr
    exact hnext
  | case4 start block rest ih =>
    obtain ⟨rfl, hlt, hrest⟩ := BlockRange.eq_of_blocks_eq_cons hl.symm
    have hnext := ih hrest (ho.next hlt) hr
    exact hnext
  | case5 start block t rest ht ih =>
    obtain ⟨rfl, hlt, hrest⟩ := BlockRange.eq_of_blocks_eq_cons hl.symm
    obtain ⟨hs, -⟩ := ho start rfl
    rcases List.mem_cons.mp hr with rfl | hr
    · exact ⟨Nat.le_refl _, hs⟩
    · obtain ⟨hnext, hrun⟩ := ih hrest .none hr
      exact ⟨Nat.le_trans (Nat.le_of_lt (Nat.lt_succ_of_lt hs)) hnext, hrun⟩
  | case6 p rest ht ih =>
    obtain ⟨-, hlt, hrest⟩ := BlockRange.eq_of_blocks_eq_cons hl.symm
    obtain ⟨hnext, hrun⟩ := ih hrest .none hr
    exact ⟨Nat.le_of_succ_le hnext, hrun⟩

/-- The runs put together are the blocks of the open one and the trimmed blocks that follow, each
once. -/
theorem flatMap_openRuns (hl : l.map Prod.fst = BlockRange.blocks ⟨a, stop⟩)
    (ho : Opened start? a stop) : (openRuns stop start? l).flatMap BlockRange.blocks =
      (start?.elim [] fun s => BlockRange.blocks ⟨s, a⟩) ++ trimmedBlocks l := by
  fun_induction openRuns stop start? l generalizing a with
  | case1 => rfl
  | case2 start =>
    obtain ⟨-, hle⟩ := ho start rfl
    have hlen := congrArg List.length hl
    rw [BlockRange.length_blocks, List.length_map, List.length_nil] at hlen
    obtain rfl : a = stop := Nat.le_antisymm hle (Nat.le_of_sub_eq_zero hlen.symm)
    simp [trimmedBlocks]
  | case3 block rest ih =>
    obtain ⟨rfl, hlt, hrest⟩ := BlockRange.eq_of_blocks_eq_cons hl.symm
    rw [ih hrest (.trimmed hlt), trimmedBlocks_trimmed]
    simp [BlockRange.blocks]
  | case4 start block rest ih =>
    obtain ⟨rfl, hlt, hrest⟩ := BlockRange.eq_of_blocks_eq_cons hl.symm
    obtain ⟨hs, -⟩ := ho start rfl
    rw [ih hrest (ho.next hlt), trimmedBlocks_trimmed]
    simp [BlockRange.blocks_concat (Nat.le_of_lt hs)]
  | case5 start block t rest ht ih =>
    obtain ⟨rfl, hlt, hrest⟩ := BlockRange.eq_of_blocks_eq_cons hl.symm
    rw [List.flatMap_cons, ih hrest .none, trimmedBlocks_of_ne ht]
    rfl
  | case6 p rest ht ih =>
    obtain ⟨-, hlt, hrest⟩ := BlockRange.eq_of_blocks_eq_cons hl.symm
    rw [ih hrest .none, trimmedBlocks_of_ne fun he => ht p.1 (Prod.ext rfl he)]
    rfl

end Runs

variable {r run : BlockRange} {tags : List Tag}

theorem map_zip_blocks (h : tags.length = r.stop - r.start) :
    (r.blocks.zip tags).map Prod.fst = r.blocks := by
  apply List.map_fst_zip
  exact Nat.le_of_eq ((BlockRange.length_blocks r).trans h.symm)

theorem flatMap_trimmedRuns (h : tags.length = r.stop - r.start) :
    (trimmedRuns r tags).flatMap BlockRange.blocks = trimmedBlocks (r.blocks.zip tags) :=
  flatMap_openRuns (map_zip_blocks h) .none

theorem mem_of_trimmedRuns (h : tags.length = r.stop - r.start) (hrun : run ∈ trimmedRuns r tags) :
    run.start < run.stop ∧ ∀ b ∈ run.blocks, (b, Tag.trimmed) ∈ r.blocks.zip tags := by
  refine ⟨(start_of_mem_openRuns (map_zip_blocks h) .none hrun).2, fun b hb => ?_⟩
  rw [← mem_trimmedBlocks, ← flatMap_trimmedRuns h]
  exact List.mem_flatMap.mpr ⟨run, hrun, hb⟩

theorem trimmedRuns_within (h : tags.length = r.stop - r.start) (hrun : run ∈ trimmedRuns r tags) :
    r.start ≤ run.start ∧ run.stop ≤ r.stop := by
  obtain ⟨hlt, hb⟩ := mem_of_trimmedRuns h hrun
  have hin (block : Nat) (h : block ∈ run.blocks) : block ∈ r.blocks :=
    (List.of_mem_zip (hb block h)).1
  have hfirst := BlockRange.mem_blocks.mp (hin run.start (BlockRange.mem_blocks.mpr (by omega)))
  have hlast := BlockRange.mem_blocks.mp (hin (run.stop - 1) (BlockRange.mem_blocks.mpr (by omega)))
  omega

end Worker

/-- There is a tag for each block of the range, the data is the content that goes with them, and
only blocks of the range were verified. -/
structure Batch.Composed (j : Job) (b : Batch) : Prop where
  length : b.tags.length = b.range.stop - b.range.start
  content : ∃ parts, b.data = Bytes.concat parts ∧
    List.Forall₂ j.Makes (b.range.blocks.zip b.tags) parts
  verified : ∀ block ∈ b.outcome.verifiedBlocks, block ∈ b.range.blocks

namespace Batch

def tagged (b : Batch) : List (Nat × Tag) :=
  b.range.blocks.zip b.tags

theorem Composed.of_compose {l : Lease} {o : Outcome} {s s' : Source}
    {made : List (Tag × ByteArray)} (h : Worker.compose j l.range.blocks s = .ok (made, s'))
    (hv : ∀ block ∈ o.verifiedBlocks, block ∈ l.range.blocks) :
    Composed j ⟨l, o, made.map Prod.fst, Bytes.concat (made.map Prod.snd)⟩ := by
  obtain ⟨hl, hf⟩ := Worker.compose_spec h
  refine ⟨?_, ⟨_, rfl, hf⟩, hv⟩
  simp only [List.length_map, hl, range, BlockRange.blocks, List.length_range']

variable {b : Batch} {run : BlockRange}

theorem Composed.mem_run (h : b.Composed j) (hrun : run ∈ Worker.trimmedRuns b.range b.tags) :
    run.start < run.stop ∧ ∀ block ∈ run.blocks, (block, Tag.trimmed) ∈ b.tagged :=
  Worker.mem_of_trimmedRuns h.length hrun

theorem Composed.run_within (h : b.Composed j) (hrun : run ∈ Worker.trimmedRuns b.range b.tags) :
    b.range.start ≤ run.start ∧ run.stop ≤ b.range.stop :=
  Worker.trimmedRuns_within h.length hrun

theorem Composed.length_tagged (h : b.Composed j) :
    b.tagged.length = b.range.stop - b.range.start := by
  simp only [tagged, List.length_zip, BlockRange.blocks, List.length_range', h.length, Nat.min_self]

theorem tagged_eq {k : Nat} {p : Nat × Tag} (h : b.tagged[k]? = some p) :
    p.1 = b.range.start + k ∧ k < b.range.stop - b.range.start := by
  obtain ⟨hb, -⟩ := List.getElem?_zip_eq_some.mp h
  obtain ⟨hk, hb⟩ := List.getElem?_eq_some_iff.mp hb
  simp only [BlockRange.blocks, List.length_range'] at hk
  simp only [BlockRange.blocks, List.getElem_range'] at hb
  exact ⟨by omega, hk⟩

theorem Composed.exists_tagged (h : b.Composed j) {block : Nat} (hb : block ∈ b.range.blocks) :
    ∃ t, b.tagged[block - b.range.start]? = some (block, t) := by
  rw [BlockRange.mem_blocks] at hb
  have hk : block - b.range.start < b.tagged.length := by
    rw [h.length_tagged]
    omega
  have hp := List.getElem?_eq_getElem hk
  have he := (tagged_eq hp).1
  refine ⟨(b.tagged[block - b.range.start]).2, hp.trans ?_⟩
  rw [Option.some_inj]
  exact Prod.ext (by omega) rfl

theorem size_of_makes {l : List (Nat × Tag)} {parts : List ByteArray}
    (h : List.Forall₂ j.Makes l parts) : ∀ p ∈ parts, p.size = j.content.blockSize := by
  intro p hp
  obtain ⟨k, hk, rfl⟩ := List.getElem_of_mem hp
  exact (h.get (h.length_eq ▸ hk) hk).size

theorem Composed.size_data (h : b.Composed j) :
    b.data.size = (b.range.stop - b.range.start) * j.content.blockSize := by
  obtain ⟨parts, hd, hf⟩ := h.content
  rw [hd, Bytes.size_concat (size_of_makes hf), ← hf.length_eq]
  exact congrArg (· * _) h.length_tagged

theorem Composed.byteAt_data (h : b.Composed j) {k : Nat} {p : Nat × Tag}
    (hp : b.tagged[k]? = some p) :
    ∃ bytes, j.Makes p bytes ∧ ∀ i < j.content.blockSize,
      Bytes.byteAt b.data (k * j.content.blockSize + i) = Bytes.byteAt bytes i := by
  obtain ⟨parts, hd, hf⟩ := h.content
  obtain ⟨hk, rfl⟩ := List.getElem?_eq_some_iff.mp hp
  have hk' : k < parts.length := hf.length_eq ▸ hk
  refine ⟨parts[k], hf.get hk hk', fun i hi => ?_⟩
  rw [hd]
  exact Bytes.byteAt_concat (size_of_makes hf) (List.getElem?_eq_getElem hk') hi

end Batch

end Readback
