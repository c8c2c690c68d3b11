import Mathlib.Data.List.Pairwise
import Readback.Proofs.Outcome
import Readback.Proofs.Outcome.Compare

namespace Readback

/-- The block in the `i`-th place of a lease was last written with `tag`, and so holds `content`. -/
structure Lease.Wrote (l : Lease) (c : Content) (g : Geometry) (i block : Nat) (tag : Tag)
    (offset : Nat) (content : ByteArray) : Prop where
  place : l.range.blocks[i]? = some block
  state : l.prior[i]? = some (some tag)
  begins : g.byteOffset block = .ok offset
  made : c.block offset tag = .ok content

namespace Outcome

def bytesAt (c : Content) (bytes : ByteArray) (i : Nat) : ByteArray :=
  Bytes.slice bytes (i * c.blockSize) c.blockSize

/-- What an outcome says is exactly what the bytes that were read show. -/
structure Exact (c : Content) (g : Geometry) (l : Lease) (bytes : ByteArray) (o : Outcome) :
    Prop where
  readError : o.readError = none
  /-- A block verified exactly if it was written and holds its content. -/
  verified_iff : ∀ b, b ∈ o.verifiedBlocks ↔
    ∃ i tag offset, l.Wrote c g i b tag offset (bytesAt c bytes i)
  /-- A block is a mismatch exactly if it was written and holds something else. -/
  mismatch_iff : ∀ b, b ∈ o.mismatches.map Mismatch.block ↔
    ∃ i tag offset content, l.Wrote c g i b tag offset content ∧ content ≠ bytesAt c bytes i
  /-- A block is skipped exactly if it was not written. -/
  skipped_iff : ∀ i b : Nat, l.range.blocks[i]? = some b →
    (b ∉ o.verifiedBlocks ∧ b ∉ o.mismatches.map Mismatch.block ↔ l.prior[i]? = some none)
  shows : ∀ m ∈ o.mismatches, ∃ i tag offset content, l.Wrote c g i m.block tag offset content ∧
    m.Shows m.block offset tag content (bytesAt c bytes i)
  verified_sorted : o.verifiedBlocks.Pairwise (· < ·)
  mismatches_sorted : (o.mismatches.map Mismatch.block).Pairwise (· < ·)
  skipped : o.skipped = l.prior.countP Option.isNone
  verified : o.verified = o.verifiedBlocks.length
  total : o.skipped + o.verified + o.mismatches.length = l.range.stop - l.range.start
  verifiedDuplicate : o.verifiedDuplicate =
    o.verifiedBlocks.countP fun b => l.prior[b - l.range.start]? = some (some .duplicate)
  verifiedTrimmed : o.verifiedTrimmed =
    o.verifiedBlocks.countP fun b => l.prior[b - l.range.start]? = some (some .trimmed)

/-- What the comparison of a block comes to, given what was found in its place. -/
inductive Judged (c : Content) (g : Geometry) (actual : ByteArray) (block : Nat) :
    BlockState → Verdict → Prop
  | skipped : Judged c g actual block none .skipped
  | matched {offset : Nat} {tag : Tag} (ho : g.byteOffset block = .ok offset)
      (hc : c.block offset tag = .ok actual) :
      Judged c g actual block (some tag) (.matched block tag)
  | differs {offset : Nat} {tag : Tag} {content : ByteArray} {m : Mismatch}
      (ho : g.byteOffset block = .ok offset) (hc : c.block offset tag = .ok content)
      (hne : content ≠ actual) (hm : m.Shows block offset tag content actual) :
      Judged c g actual block (some tag) (.differs m)

section Judge

variable {c : Content} {g : Geometry} {bytes : ByteArray}

theorem judged {actual : ByteArray} {block : Nat} {prior : BlockState} {v : Verdict}
    (ha : actual.size = c.blockSize) (h : judge c g actual block prior = .ok v) :
    Judged c g actual block prior v := by
  cases prior with
  | none =>
    cases h
    exact .skipped
  | some tag =>
    obtain ⟨offset, ho, h⟩ := bind_eq_ok h
    obtain ⟨content, hc, h⟩ := bind_eq_ok h
    cases h
    by_cases he : content = actual
    · rw [← he] at ha ⊢
      rw [compare_self]
      exact .matched ho hc
    · obtain ⟨m, hm, hs⟩ := compare_of_ne ((Content.size_block hc).trans ha.symm) he
      rw [hm]
      exact .differs ho hc he hs

theorem judgeAll_place {i : Nat} {blocks : List (Nat × BlockState)} {vs : List Verdict}
    (h : judgeAll c g bytes i blocks = .ok vs)
    (hb : (i + blocks.length) * c.blockSize ≤ bytes.size) {k block : Nat} {prior : BlockState}
    (hk : blocks[k]? = some (block, prior)) :
    ∃ v, vs[k]? = some v ∧ Judged c g (bytesAt c bytes (i + k)) block prior v := by
  induction blocks generalizing i k vs with
  | nil => cases hk
  | cons p rest ih =>
    obtain ⟨v, hj, h⟩ := bind_eq_ok h
    obtain ⟨us, hr, h⟩ := bind_eq_ok h
    cases h
    rw [List.length_cons, ← Nat.add_assoc, Nat.add_right_comm] at hb
    cases k with
    | zero =>
      cases hk
      refine ⟨v, rfl, judged ?_ hj⟩
      apply Bytes.size_slice
      rw [← Nat.succ_mul]
      exact Nat.le_trans (Nat.mul_le_mul_right _ (Nat.le_add_right _ _)) hb
    | succ k =>
      have hplace := ih hr hb hk
      rwa [Nat.add_right_comm, Nat.add_assoc] at hplace

theorem judgeAll_skipped {i : Nat} {blocks : List (Nat × BlockState)} {vs : List Verdict}
    (h : judgeAll c g bytes i blocks = .ok vs) :
    vs.countP Verdict.isSkipped = (blocks.map Prod.snd).countP Option.isNone := by
  induction blocks generalizing i vs with
  | nil =>
    cases h
    rfl
  | cons p rest ih =>
    obtain ⟨block, prior⟩ := p
    obtain ⟨v, hj, h⟩ := bind_eq_ok h
    obtain ⟨us, hr, h⟩ := bind_eq_ok h
    cases h
    rw [List.map_cons, List.countP_cons, List.countP_cons, ih hr]
    cases prior with
    | none =>
      cases hj
      rfl
    | some tag =>
      obtain ⟨offset, -, hj⟩ := bind_eq_ok hj
      obtain ⟨content, -, hj⟩ := bind_eq_ok hj
      cases hj
      unfold compare
      split <;> rfl

theorem judgeAll_sublist {f : Verdict → Option Nat}
    (hf : ∀ {actual block prior v b}, judge c g actual block prior = .ok v → f v = some b →
      b = block)
    {i : Nat} {blocks : List (Nat × BlockState)} {vs : List Verdict}
    (h : judgeAll c g bytes i blocks = .ok vs) :
    (vs.filterMap f).Sublist (blocks.map Prod.fst) := by
  induction blocks generalizing i vs with
  | nil =>
    cases h
    exact .slnil
  | cons p rest ih =>
    obtain ⟨v, hj, h⟩ := bind_eq_ok h
    obtain ⟨us, hr, h⟩ := bind_eq_ok h
    cases h
    rw [List.filterMap_cons, List.map_cons]
    cases hb : f v with
    | none => exact (ih hr).cons _
    | some b =>
      rw [hf hj hb]
      exact (ih hr).cons_cons _

theorem matched_of_judge {actual : ByteArray} {block b : Nat} {prior : BlockState} {v : Verdict}
    (h : judge c g actual block prior = .ok v) (hb : v.matched?.map Prod.fst = some b) :
    b = block := by
  cases prior with
  | none =>
    cases h
    cases hb
  | some tag =>
    obtain ⟨offset, -, h⟩ := bind_eq_ok h
    obtain ⟨content, -, h⟩ := bind_eq_ok h
    cases h
    obtain ⟨p, hp, rfl⟩ := Option.map_eq_some_iff.mp hb
    rw [matched?_compare hp]

theorem mismatch_of_judge {actual : ByteArray} {block b : Nat} {prior : BlockState} {v : Verdict}
    (h : judge c g actual block prior = .ok v) (hb : v.mismatch?.map Mismatch.block = some b) :
    b = block := by
  cases prior with
  | none =>
    cases h
    cases hb
  | some tag =>
    obtain ⟨offset, -, h⟩ := bind_eq_ok h
    obtain ⟨content, -, h⟩ := bind_eq_ok h
    cases h
    obtain ⟨m, hm, rfl⟩ := Option.map_eq_some_iff.mp hb
    rw [(mismatch?_compare hm).2]

end Judge

section Exact

variable {c : Content} {g : Geometry} {l : Lease} {bytes : ByteArray} {vs : List Verdict}

/-- The verdicts on the blocks of a lease, each in its place. -/
structure Placed (c : Content) (g : Geometry) (l : Lease) (bytes : ByteArray)
    (vs : List Verdict) : Prop where
  verdict : ∀ i block prior, l.range.blocks[i]? = some block → l.prior[i]? = some prior →
    ∃ v, vs[i]? = some v ∧ Judged c g (bytesAt c bytes i) block prior v
  length : vs.length = l.range.blocks.length
  prior : l.prior.length = l.range.blocks.length

theorem placed_of_judgeAll (hp : l.prior.length = l.range.blocks.length)
    (hb : l.range.blocks.length * c.blockSize ≤ bytes.size)
    (h : judgeAll c g bytes 0 (l.range.blocks.zip l.prior) = .ok vs) : Placed c g l bytes vs := by
  have hzip : (l.range.blocks.zip l.prior).length = l.range.blocks.length := by
    rw [List.length_zip, hp, Nat.min_self]
  refine ⟨?_, (length_judgeAll h).trans hzip, hp⟩
  intro i block prior hi hpi
  have hk : (l.range.blocks.zip l.prior)[i]? = some (block, prior) :=
    List.getElem?_zip_eq_some.mpr ⟨hi, hpi⟩
  have hb' : (0 + (l.range.blocks.zip l.prior).length) * c.blockSize ≤ bytes.size := by
    rw [Nat.zero_add, hzip]
    exact hb
  have hplace := judgeAll_place h hb' hk
  rwa [Nat.zero_add] at hplace

theorem Placed.exists_judged (hvs : Placed c g l bytes vs) {v : Verdict} (hv : v ∈ vs) :
    ∃ i block prior, l.range.blocks[i]? = some block ∧ l.prior[i]? = some prior ∧
      Judged c g (bytesAt c bytes i) block prior v := by
  obtain ⟨i, hi⟩ := List.mem_iff_getElem?.mp hv
  obtain ⟨hlt, -⟩ := List.getElem?_eq_some_iff.mp hi
  rw [hvs.length] at hlt
  have hblock := List.getElem?_eq_getElem hlt
  have hprior := List.getElem?_eq_getElem (hvs.prior ▸ hlt)
  obtain ⟨v', hv', hj⟩ := hvs.verdict i _ _ hblock hprior
  rw [hi] at hv'
  cases hv'
  exact ⟨i, _, _, hblock, hprior, hj⟩

theorem Placed.matched_iff (hvs : Placed c g l bytes vs) {b : Nat} {tag : Tag} :
    (b, tag) ∈ vs.filterMap Verdict.matched? ↔
      ∃ i offset, l.Wrote c g i b tag offset (bytesAt c bytes i) := by
  rw [List.mem_filterMap]
  constructor
  · rintro ⟨v, hv, he⟩
    obtain ⟨i, block, prior, hi, hp, hj⟩ := hvs.exists_judged hv
    cases hj with
    | skipped => cases he
    | matched ho hc =>
      cases he
      exact ⟨i, _, hi, hp, ho, hc⟩
    | differs ho hc hne hm => cases he
  · rintro ⟨i, offset, hw⟩
    obtain ⟨v, hv, hj⟩ := hvs.verdict i _ _ hw.place hw.state
    refine ⟨v, List.mem_of_getElem? hv, ?_⟩
    cases hj with
    | matched ho hc => rfl
    | differs ho hc hne hm =>
      cases ho.symm.trans hw.begins
      cases hc.symm.trans hw.made
      exact absurd rfl hne

theorem Placed.shows (hvs : Placed c g l bytes vs) {m : Mismatch}
    (hm : m ∈ vs.filterMap Verdict.mismatch?) :
    ∃ i tag offset content, l.Wrote c g i m.block tag offset content ∧
      content ≠ bytesAt c bytes i ∧ m.Shows m.block offset tag content (bytesAt c bytes i) := by
  obtain ⟨v, hv, he⟩ := List.mem_filterMap.mp hm
  obtain ⟨i, block, prior, hi, hp, hj⟩ := hvs.exists_judged hv
  cases hj with
  | skipped => cases he
  | matched ho hc => cases he
  | differs ho hc hne hs =>
    cases he
    obtain rfl := hs.block
    exact ⟨i, _, _, _, ⟨hi, hp, ho, hc⟩, hne, hs⟩

theorem Placed.mismatch_iff (hvs : Placed c g l bytes vs) {b : Nat} :
    b ∈ (vs.filterMap Verdict.mismatch?).map Mismatch.block ↔
      ∃ i tag offset content, l.Wrote c g i b tag offset content ∧
        content ≠ bytesAt c bytes i := by
  rw [List.mem_map]
  constructor
  · rintro ⟨m, hm, rfl⟩
    obtain ⟨i, tag, offset, content, hw, hne, -⟩ := hvs.shows hm
    exact ⟨i, tag, offset, content, hw, hne⟩
  · rintro ⟨i, tag, offset, content, hw, hne⟩
    obtain ⟨v, hv, hj⟩ := hvs.verdict i _ _ hw.place hw.state
    cases hj with
    | matched ho hc =>
      cases ho.symm.trans hw.begins
      cases hc.symm.trans hw.made
      exact absurd rfl hne
    | differs ho hc hne hs =>
      exact ⟨_, List.mem_filterMap.mpr ⟨_, List.mem_of_getElem? hv, rfl⟩, hs.block⟩

theorem prior_of_wrote {i i' b offset : Nat} {tag : Tag} {content : ByteArray}
    (hi : l.range.blocks[i]? = some b) (hw : l.Wrote c g i' b tag offset content) :
    l.prior[i]? = some (some tag) := by
  have h₁ := BlockRange.getElem?_blocks.mp hi
  have h₂ := BlockRange.getElem?_blocks.mp hw.place
  have he : i = i' := by omega
  rw [he]
  exact hw.state

theorem Placed.skipped_iff (hvs : Placed c g l bytes vs) {i b : Nat}
    (hi : l.range.blocks[i]? = some b) :
    b ∉ (ofVerdicts vs).verifiedBlocks ∧
        b ∉ (vs.filterMap Verdict.mismatch?).map Mismatch.block ↔
      l.prior[i]? = some none := by
  have hver : b ∈ (ofVerdicts vs).verifiedBlocks ↔
      ∃ tag, (b, tag) ∈ vs.filterMap Verdict.matched? := by
    simp [ofVerdicts]
  constructor
  · rintro ⟨hv, hm⟩
    obtain ⟨hlt, -⟩ := List.getElem?_eq_some_iff.mp hi
    obtain ⟨prior, hprior⟩ : ∃ prior, l.prior[i]? = some prior :=
      ⟨_, List.getElem?_eq_getElem (hvs.prior ▸ hlt)⟩
    obtain ⟨v, -, hj⟩ := hvs.verdict i _ _ hi hprior
    cases hj with
    | skipped => exact hprior
    | matched ho hc =>
      exact absurd (hver.mpr ⟨_, hvs.matched_iff.mpr ⟨i, _, hi, hprior, ho, hc⟩⟩) hv
    | differs ho hc hne hs =>
      exact absurd (hvs.mismatch_iff.mpr ⟨i, _, _, _, ⟨hi, hprior, ho, hc⟩, hne⟩) hm
  · intro hnone
    constructor
    · intro hv
      obtain ⟨tag, hm⟩ := hver.mp hv
      obtain ⟨i', offset, hw⟩ := hvs.matched_iff.mp hm
      rw [prior_of_wrote hi hw] at hnone
      cases hnone
    · intro hm
      obtain ⟨i', tag, offset, content, hw, -⟩ := hvs.mismatch_iff.mp hm
      rw [prior_of_wrote hi hw] at hnone
      cases hnone

theorem Placed.countP_kind (hvs : Placed c g l bytes vs) (tag : Tag) :
    (vs.filterMap Verdict.matched?).countP (·.2 = tag) =
      ((vs.filterMap Verdict.matched?).map Prod.fst).countP fun b =>
        l.prior[b - l.range.start]? = some (some tag) := by
  rw [List.countP_map]
  apply List.countP_congr
  rintro ⟨b, tag'⟩ hm
  obtain ⟨i, offset, hw⟩ := hvs.matched_iff.mp hm
  have hb := (BlockRange.getElem?_blocks.mp hw.place).2
  have hsub : b - l.range.start = i := by omega
  simp [hsub, hw.state]

theorem ofBytes_exact {o : Outcome} (hp : l.prior.length = l.range.blocks.length)
    (hb : l.range.blocks.length * c.blockSize ≤ bytes.size) (h : ofBytes c g l bytes = .ok o) :
    o.Exact c g l bytes := by
  obtain ⟨vs, hj, rfl⟩ := map_eq_ok h
  have hvs := placed_of_judgeAll hp hb hj
  have hfst : (l.range.blocks.zip l.prior).map Prod.fst = l.range.blocks :=
    List.map_fst_zip (Nat.le_of_eq hp.symm)
  have hsnd : (l.range.blocks.zip l.prior).map Prod.snd = l.prior :=
    List.map_snd_zip (Nat.le_of_eq hp)
  have hsorted : l.range.blocks.Pairwise (· < ·) := List.pairwise_lt_range'
  have hskipped : vs.countP Verdict.isSkipped = l.prior.countP Option.isNone := by
    rw [judgeAll_skipped hj, hsnd]
  refine ⟨rfl, ?_, ?_, ?_, ?_, ?_, ?_, hskipped, (List.length_map _).symm, ?_, ?_, ?_⟩
  · intro b
    simp only [ofVerdicts, List.mem_map, Prod.exists, exists_and_right, exists_eq_right,
      hvs.matched_iff]
    constructor
    · rintro ⟨tag, i, offset, hw⟩
      exact ⟨i, tag, offset, hw⟩
    · rintro ⟨i, tag, offset, hw⟩
      exact ⟨tag, i, offset, hw⟩
  · exact fun b => hvs.mismatch_iff
  · exact fun i b hi => hvs.skipped_iff hi
  · intro m hm
    obtain ⟨i, tag, offset, content, hw, -, hs⟩ := hvs.shows hm
    exact ⟨i, tag, offset, content, hw, hs⟩
  · have hsub := judgeAll_sublist matched_of_judge hj
    rw [hfst] at hsub
    simp only [ofVerdicts, List.map_filterMap]
    exact hsorted.sublist hsub
  · have hsub := judgeAll_sublist mismatch_of_judge hj
    rw [hfst] at hsub
    simp only [ofVerdicts, List.map_filterMap]
    exact hsorted.sublist hsub
  · show vs.countP Verdict.isSkipped + _ + _ = _
    rw [ofVerdicts, length_verdicts, hvs.length, BlockRange.length_blocks]
  · exact hvs.countP_kind .duplicate
  · exact hvs.countP_kind .trimmed

end Exact

end Outcome

end Readback
