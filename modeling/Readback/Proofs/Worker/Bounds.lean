import Readback.Proofs.Worker.Safety

namespace Readback

/-- The bytes of a range can be told and end within the device, and no number on the way is too
large. -/
structure Geometry.Reaches (g : Geometry) (r : BlockRange) : Prop where
  proper : BlockRange.make r.start r.stop = .ok r
  bytes : ∃ offset n stop, g.byteOffset r.start = .ok offset ∧ g.rangeBytes r = .ok (offset, n) ∧
    Word.add offset n = .ok stop ∧ stop ≤ g.devSize

/-- A lease reaches no further than the device, and has a state and room in a buffer of its length
for each of its blocks. -/
structure Lease.Bounded (g : Geometry) (l : Lease) : Prop where
  reaches : g.Reaches l.range
  prior : l.prior.length = l.range.blocks.length
  room : ∀ offset n, g.rangeBytes l.range = .ok (offset, n) →
    ∀ i < l.range.blocks.length, (i + 1) * g.blockSize ≤ n

/-- What is found out about some blocks is no more than there are, and the excerpts of one that
differs lie within it. -/
structure Outcome.Bounded (blockSize blocks : Nat) (o : Outcome) : Prop where
  count : o.skipped + o.verified + o.mismatches.length ≤ blocks
  excerpts : ∀ m ∈ o.mismatches, m.firstDiff < blockSize ∧
    m.expected.size = min previewLength (blockSize - m.firstDiff) ∧
    m.actual.size = m.expected.size

/-- A batch has a tag for each block and as much data as its lease has bytes, each chunk of which is
as long as content is made, and its runs of trimmed blocks are parts of its lease. -/
structure Batch.Bounded (j : Job) (b : Batch) : Prop where
  data : ∃ offset, j.geometry.rangeBytes b.range = .ok (offset, b.data.size)
  tags : b.tags.length = b.range.blocks.length
  chunks : ∀ buffer : ByteArray, buffer.size = b.data.size → ∀ i block tag,
    b.tagged[i]? = some (block, tag) → ∃ offset bytes,
      j.geometry.byteOffset block = .ok offset ∧
      j.content.fill offset tag
        (Bytes.slice buffer (i * j.content.blockSize) j.content.blockSize) = .ok bytes
  runs : ∀ run ∈ Worker.trimmedRuns b.range b.tags, j.geometry.Reaches run ∧
    b.range.start ≤ run.start ∧ run.stop ≤ b.range.stop
  outcome : b.outcome.Bounded j.content.blockSize b.range.blocks.length

theorem Geometry.reaches {g : Geometry} (hg : g.nBlocks * g.blockSize ≤ g.devSize)
    (hsize : g.devSize < Word.limit) {r : BlockRange} (hr : r.start < r.stop)
    (hstop : r.stop ≤ g.nBlocks) : g.Reaches r := by
  have hend : r.stop * g.blockSize ≤ g.devSize :=
    Nat.le_trans (Nat.mul_le_mul_right _ hstop) hg
  have hadd := add_length_mul (Nat.le_of_lt hr) g.blockSize
  refine ⟨BlockRange.make_of_lt hr, _, _, r.stop * g.blockSize, Word.mul_of_lt ?_,
    rangeBytes_of_lt (Nat.le_of_lt hr) (by omega), ?_, hend⟩
  · omega
  · rw [Word.add_of_lt (by omega), hadd]

theorem Content.exists_fill {c : Content} {out : ByteArray} (h : out.size = c.blockSize)
    (offset : Nat) (t : Tag) : ∃ bytes, c.fill offset t out = .ok bytes := by
  cases t <;> simp [fill, h]

namespace Outcome

variable {c : Content} {g : Geometry} {l : Lease} {o : Outcome}

theorem size_excerpt {bytes : ByteArray} {n i : Nat} (h : bytes.size = n) :
    (Bytes.slice bytes i previewLength).size = min previewLength (n - i) := by
  simp only [Bytes.slice, ByteArray.size_extract, h]
  omega

theorem judge_excerpts {actual : ByteArray} {block : Nat} {prior : BlockState} {v : Verdict}
    {m : Mismatch} (ha : actual.size = c.blockSize) (h : judge c g actual block prior = .ok v)
    (hm : v.mismatch? = some m) : m.firstDiff < c.blockSize ∧
      m.expected.size = min previewLength (c.blockSize - m.firstDiff) ∧
      m.actual.size = m.expected.size := by
  unfold judge at h
  cases prior with
  | none =>
    cases h
    cases hm
  | some tag =>
    obtain ⟨offset, -, h⟩ := bind_eq_ok h
    obtain ⟨expected, he, h⟩ := bind_eq_ok h
    cases h
    obtain ⟨hi, hm⟩ := mismatch?_compare hm
    have hs := Content.size_block he
    have hlt := (differsFrom_eq_some hi).1
    rw [hs, ha, Nat.min_self, Nat.zero_add] at hlt
    rw [hm]
    exact ⟨hlt, size_excerpt hs, (size_excerpt ha).trans (size_excerpt hs).symm⟩

theorem judgeAll_excerpts {bytes : ByteArray} {i : Nat} {blocks : List (Nat × BlockState)}
    {vs : List Verdict} (hb : (i + blocks.length) * c.blockSize ≤ bytes.size)
    (h : judgeAll c g bytes i blocks = .ok vs) :
    ∀ m ∈ vs.filterMap Verdict.mismatch?, m.firstDiff < c.blockSize ∧
      m.expected.size = min previewLength (c.blockSize - m.firstDiff) ∧
      m.actual.size = m.expected.size := by
  induction blocks generalizing i vs with
  | nil =>
    cases h
    nofun
  | cons p rest ih =>
    obtain ⟨v, hj, h⟩ := bind_eq_ok h
    obtain ⟨us, hr, h⟩ := bind_eq_ok h
    cases h
    rw [List.length_cons, ← Nat.add_assoc, Nat.add_right_comm] at hb
    have hslice : (Bytes.slice bytes (i * c.blockSize) c.blockSize).size = c.blockSize := by
      apply Bytes.size_slice
      have hle := Nat.mul_le_mul_right c.blockSize (Nat.le_add_right (i + 1) rest.length)
      rw [Nat.succ_mul] at hle
      omega
    intro m hm
    obtain ⟨u, hu, he⟩ := List.mem_filterMap.mp hm
    rcases List.mem_cons.mp hu with rfl | hu
    · exact judge_excerpts hslice hj he
    · exact ih hb hr m (List.mem_filterMap.mpr ⟨u, hu, he⟩)

theorem ofBytes_bounded {bytes : ByteArray}
    (hb : bytes.size = l.range.blocks.length * c.blockSize) (h : ofBytes c g l bytes = .ok o) :
    o.Bounded c.blockSize l.range.blocks.length := by
  obtain ⟨vs, hj, rfl⟩ := map_eq_ok h
  have hzip : (l.range.blocks.zip l.prior).length ≤ l.range.blocks.length := by
    rw [List.length_zip]
    exact Nat.min_le_left _ _
  refine ⟨?_, judgeAll_excerpts ?_ hj⟩
  · show vs.countP Verdict.isSkipped + _ + _ ≤ _
    rw [ofVerdicts, length_verdicts, length_judgeAll hj]
    exact hzip
  · rw [hb, Nat.zero_add]
    exact Nat.mul_le_mul_right _ hzip

end Outcome

namespace Worker

variable {σ : Type} {dev : Device σ} {j : Job} {now : Instant} {w : Worker} {s : Shared} {d : σ}
  {t : Turn σ}

theorem Finds.bounded {l : Lease} {o : Outcome} (h : Finds j w s l o)
    (hs : j.content.blockSize = j.geometry.blockSize)
    (hl : w.phase = .reading l → l.prior.length = l.range.blocks.length) :
    o.Bounded j.content.blockSize l.range.blocks.length := by
  cases h with
  | untouched hp h hn =>
    obtain ⟨rfl, -⟩ := Word.eq_of_sub hn
    refine ⟨Nat.le_of_eq ?_, List.forall_mem_nil _⟩
    rw [BlockRange.length_blocks]
    rfl
  | unread hp =>
    refine ⟨?_, List.forall_mem_nil _⟩
    rw [← hl hp]
    exact List.countP_le_length
  | compared hp hr ho =>
    rename_i offset n bytes
    apply Outcome.ofBytes_bounded _ ho
    rw [bytes.2, (Geometry.rangeBytes_eq hr).2.1, BlockRange.length_blocks, hs]

end Worker

theorem Phase.composed_of_batch? {j : Job} {p : Phase} {b : Batch} (hb : p.batch? = some b)
    (hp : p.Formed j) : p.lease? = some b.lease ∧ b.Composed j := by
  cases p with
  | writing b' =>
    cases hb
    exact ⟨rfl, hp⟩
  | discarding b' run rest =>
    cases hb
    exact ⟨rfl, hp.1⟩
  | flushing b' =>
    cases hb
    exact ⟨rfl, hp⟩
  | dropping b' =>
    cases hb
    exact ⟨rfl, hp⟩
  | releasing b' written =>
    cases hb
    exact ⟨rfl, hp⟩
  | _ => cases hb

theorem Batch.Composed.bounded {j : Job} {b : Batch} (hb : b.Composed j)
    (hs : j.content.blockSize = j.geometry.blockSize)
    (hr : ∀ a : BlockRange, a.start < a.stop → a.stop ≤ b.range.stop → j.geometry.Reaches a)
    (hlt : b.range.start < b.range.stop)
    (ho : b.outcome.Bounded j.content.blockSize b.range.blocks.length) : b.Bounded j := by
  refine ⟨?_, ?_, fun buffer hbuffer i block tag hi => ?_, fun run hrun => ?_, ho⟩
  · obtain ⟨offset, n, stop, -, hn, -⟩ := (hr b.range hlt (Nat.le_refl _)).bytes
    refine ⟨offset, ?_⟩
    rw [hn, hb.size_data, hs, (Geometry.rangeBytes_eq hn).2.1]
  · rw [hb.length, BlockRange.length_blocks]
  · obtain ⟨bytes, ⟨offset, hoffset, -⟩, -⟩ := hb.byteAt_data hi
    have hslice : (Bytes.slice buffer (i * j.content.blockSize) j.content.blockSize).size =
        j.content.blockSize := by
      apply Bytes.size_slice
      rw [hbuffer, hb.size_data, ← Nat.succ_mul]
      exact Nat.mul_le_mul_right _ (Batch.tagged_eq hi).2
    obtain ⟨made, hmade⟩ := Content.exists_fill hslice offset tag
    exact ⟨offset, made, hoffset, hmade⟩
  · obtain ⟨hrun', -⟩ := hb.mem_run hrun
    obtain ⟨hstart, hstop⟩ := hb.run_within hrun
    exact ⟨hr run hrun' hstop, hstart, hstop⟩

end Readback
