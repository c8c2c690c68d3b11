import Readback.Device.Memory
import Readback.Proofs.Outcome.Exact
import Readback.Proofs.RangeLock.Claim
import Readback.Verifier

namespace Readback

theorem Lease.start_lt_stop {l : Lease} (hl : l.anyWritten = true)
    (hp : l.prior.length = l.range.blocks.length) : l.range.start < l.range.stop := by
  obtain ⟨s, hs, -⟩ := List.any_eq_true.mp hl
  have hpos := List.length_pos_of_mem hs
  rw [hp, BlockRange.length_blocks] at hpos
  omega

namespace Verifier

/-- Content is made for blocks of the size that the geometry has, and the buffer for it has room for
one of them.  Nothing is said of what lies in the buffers. -/
structure Sound (v : Verifier) : Prop where
  blockSize : v.content.blockSize = v.geometry.blockSize
  expected : v.expected.size = v.content.blockSize

theorem sound_of_make {c : Content} {g : Geometry} {v : Verifier} (h : make c g = .ok v) :
    v.Sound ∧ v.content = c ∧ v.geometry = g := by
  unfold make at h
  split at h
  · cases h
  split at h
  · cases h
    exact ⟨⟨Decidable.not_not.mp ‹_›, Bytes.size_zeroes _⟩, rfl, rfl⟩
  · cases h

/-- Nothing but what lies in the buffers differs. -/
structure Alike (v v' : Verifier) : Prop where
  content : v'.content = v.content
  geometry : v'.geometry = v.geometry
  expected : v'.expected.size = v.expected.size

theorem Alike.refl (v : Verifier) : v.Alike v :=
  ⟨rfl, rfl, rfl⟩

theorem Alike.sound {v v' : Verifier} (h : v.Alike v') (hv : v.Sound) : v'.Sound := by
  refine ⟨?_, ?_⟩
  · rw [h.content, h.geometry]
    exact hv.blockSize
  · rw [h.expected, h.content]
    exact hv.expected

theorem alike_resize (v : Verifier) (n : Nat) : v.Alike (v.resize n) :=
  ⟨rfl, rfl, rfl⟩

theorem alike_load (v : Verifier) (n : Nat) (bytes : ByteArray) :
    v.Alike ((v.resize n).load bytes) :=
  ⟨rfl, rfl, rfl⟩

section Judge

variable {v : Verifier}

theorem Sound.judge (hv : v.Sound) (hc : v.content.blockSize < Bytes.limit) {i : Nat}
    (hi : (i + 1) * v.content.blockSize ≤ v.found.size) (block : Nat) (prior : BlockState) :
    ∃ expected, expected.size = v.content.blockSize ∧ v.judge i block prior =
      (Outcome.judge v.content v.geometry
        (Bytes.slice v.found (i * v.content.blockSize) v.content.blockSize) block prior).map
        (·, { v with expected }) := by
  cases prior with
  | none => exact ⟨v.expected, hv.expected, rfl⟩
  | some tag =>
    cases ho : v.geometry.byteOffset block with
    | error f =>
      refine ⟨v.expected, hv.expected, ?_⟩
      simp only [Verifier.judge, Outcome.judge, ho, bind, Except.bind, Except.map]
    | ok offset =>
      obtain ⟨content, hcontent⟩ := Content.exists_block hc offset tag
      have hfill : v.content.fill offset tag v.expected = .ok content :=
        (Content.fill_eq_block hc hv.expected offset tag).trans hcontent
      refine ⟨content, Content.size_block hcontent, ?_⟩
      simp only [Verifier.judge, Outcome.judge, ho, hfill, hcontent, bind, Except.bind,
        Except.map, if_neg (Nat.not_lt_of_ge hi)]
      rfl

theorem Sound.judgeAll (hv : v.Sound) (hc : v.content.blockSize < Bytes.limit) {i : Nat}
    {blocks : List (Nat × BlockState)}
    (hi : (i + blocks.length) * v.content.blockSize ≤ v.found.size) :
    ∃ expected, expected.size = v.content.blockSize ∧ v.judgeAll i blocks =
      (Outcome.judgeAll v.content v.geometry v.found i blocks).map (·, { v with expected }) := by
  induction blocks generalizing v i with
  | nil => exact ⟨v.expected, hv.expected, rfl⟩
  | cons p rest ih =>
    obtain ⟨block, prior⟩ := p
    rw [List.length_cons, ← Nat.add_assoc, Nat.add_right_comm] at hi
    have hfirst : (i + 1) * v.content.blockSize ≤ v.found.size :=
      Nat.le_trans (Nat.mul_le_mul_right _ (Nat.le_add_right _ _)) hi
    obtain ⟨expected, hs, hj⟩ := hv.judge hc hfirst block prior
    have hsound : Sound { v with expected } := ⟨hv.blockSize, hs⟩
    obtain ⟨expected', hs', hr⟩ := ih hsound hc hi
    refine ⟨expected', hs', ?_⟩
    rw [Verifier.judgeAll, Outcome.judgeAll, hj]
    generalize Outcome.judge v.content v.geometry _ block prior = first
    cases first with
    | error f => rfl
    | ok verdict =>
      simp only [Except.map, bind, Except.bind, hr]
      cases Outcome.judgeAll v.content v.geometry v.found (i + 1) rest with
      | error f => rfl
      | ok verdicts => rfl

end Judge

section Verify

variable {σ : Type} {dev : Device σ} {l : Lease} {v : Verifier} {d d₁ d₂ : σ} {offset n : Nat}

theorem found_load (v : Verifier) {bytes : ByteArray} (h : bytes.size = n) :
    ((v.resize n).load bytes).found = bytes :=
  Bytes.overwrite_window v.found h

theorem Sound.compare (hv : v.Sound) (hc : v.content.blockSize < Bytes.limit)
    (hr : v.geometry.rangeBytes l.range = .ok (offset, n)) {bytes : ByteArray}
    (hb : bytes.size = n) :
    ∃ v', v.Alike v' ∧ ((v.resize n).load bytes).judgeAll 0 (l.range.blocks.zip l.prior) =
      (Outcome.judgeAll v.content v.geometry bytes 0 (l.range.blocks.zip l.prior)).map (·, v') := by
  have hfound := v.found_load hb
  have hsound := (v.alike_load n bytes).sound hv
  have hlen : (l.range.blocks.zip l.prior).length ≤ l.range.stop - l.range.start := by
    rw [List.length_zip, BlockRange.length_blocks]
    exact Nat.min_le_left _ _
  have hroom : (0 + (l.range.blocks.zip l.prior).length) * v.content.blockSize ≤
      ((v.resize n).load bytes).found.size := by
    rw [hfound, Nat.zero_add, hb, (Geometry.rangeBytes_eq hr).2.1, ← hv.blockSize]
    exact Nat.mul_le_mul_right _ hlen
  obtain ⟨expected, hs, hj⟩ := hsound.judgeAll hc hroom
  rw [hfound] at hj
  exact ⟨⟨v.content, v.geometry, bytes, expected⟩, ⟨rfl, rfl, hs.trans hv.expected.symm⟩, hj⟩

theorem verify_unwritten (hl : l.anyWritten = false) :
    v.verify dev l d = ((l.range.length.map Outcome.untouched).mapError .fault, v, d) := by
  rw [verify, hl]
  rfl

theorem verify_fault (hl : l.anyWritten = true)
    (hr : v.geometry.rangeBytes l.range = .ok (offset, n)) {f : Fault}
    (hi : dev.answer (.invalidate offset n) d = (.error (.fault f), d₁)) :
    v.verify dev l d = (.error (.fault f), v, d₁) := by
  rw [verify, if_pos hl, hr]
  dsimp only
  rw [hi]

theorem verify_invalidated (hl : l.anyWritten = true)
    (hr : v.geometry.rangeBytes l.range = .ok (offset, n))
    {reply : Except Failure (Request.Reply (.invalidate offset n))}
    (hi : dev.answer (.invalidate offset n) d = (reply, d₁))
    (hf : ∀ f, reply ≠ .error (.fault f)) :
    v.verify dev l d = match dev.answer (.read offset n) d₁ with
      | (.error (.fault f), d) => (.error (.fault f), v.resize n, d)
      | (.error (.error e), d) => (.ok (.unread l e), v.resize n, d)
      | (.ok bytes, d) =>
        match ((v.resize n).load bytes.1).judgeAll 0 (l.range.blocks.zip l.prior) with
        | .error f => (.error (.fault f), (v.resize n).load bytes.1, d)
        | .ok (verdicts, v) => (.ok (.ofVerdicts verdicts), v, d) := by
  rw [verify, if_pos hl, hr]
  dsimp only
  rw [hi]
  match reply with
  | .error (.fault f) => exact absurd rfl (hf f)
  | .error (.error e) => rfl
  | .ok _ => rfl

/-- Verification in buffers comes to what it comes to without. -/
theorem Sound.verify (hv : v.Sound) (hc : v.content.blockSize < Bytes.limit) (dev : Device σ)
    (l : Lease) (d : σ) :
    ∃ v', v.Alike v' ∧ v.verify dev l d =
      ((Outcome.verify dev v.content v.geometry l d).1, v',
        (Outcome.verify dev v.content v.geometry l d).2) := by
  cases hl : l.anyWritten with
  | false =>
    refine ⟨v, .refl v, ?_⟩
    rw [verify_unwritten hl, Outcome.verify_unwritten hl]
  | true =>
    cases hr : v.geometry.rangeBytes l.range with
    | error f =>
      refine ⟨v, .refl v, ?_⟩
      rw [Verifier.verify, Outcome.verify, if_pos hl, if_pos hl, hr]
    | ok p =>
      obtain ⟨offset, n⟩ := p
      cases hi : dev.answer (.invalidate offset n) d with
      | mk reply d₁ =>
        by_cases hf : ∃ f, reply = .error (.fault f)
        · obtain ⟨f, rfl⟩ := hf
          refine ⟨v, .refl v, ?_⟩
          rw [verify_fault hl hr hi, Outcome.verify_fault hl hr hi]
        have hf := not_exists.mp hf
        rw [verify_invalidated hl hr hi hf, Outcome.verify_eq_readBack hl hr hi hf,
          Outcome.readBack]
        cases dev.answer (.read offset n) d₁ with
        | mk reply d₂ =>
          cases reply with
          | error e => cases e <;> exact ⟨v.resize n, v.alike_resize n, rfl⟩
          | ok bytes =>
            obtain ⟨v', hs, hj⟩ := hv.compare hc hr bytes.2
            dsimp only
            rw [hj, Outcome.ofBytes]
            cases Outcome.judgeAll v.content v.geometry bytes.1 0 (l.range.blocks.zip l.prior) with
            | error f => exact ⟨(v.resize n).load bytes.1, v.alike_load n bytes.1, rfl⟩
            | ok verdicts => exact ⟨v', hs, rfl⟩

end Verify

/-- Verification is exact.  A lease of which no block was written is skipped without asking the
device; one that cannot be read has nothing compared; and otherwise the outcome says exactly what
the bytes that were read show.  What earlier leases left in the buffers makes no difference. -/
theorem verify_exact {σ : Type} {size blockSize m : Nat} {g : Geometry} {k : RangeLock}
    (hsize : size < Word.limit) (hg : Geometry.make size blockSize = .ok g)
    (hk : RangeLock.make g.nBlocks m = .ok k) (calls : List RangeLock.Call) {t : Nat} {l : Lease}
    (hl : .granted t l ∈ ((RangeLock.History.new k).play calls).log)
    {v : Verifier} (hv : v.Sound) (hvg : v.geometry = g) (dev : Device σ) (d : σ) :
    (l.anyWritten = false → l.range.start ≤ l.range.stop →
        v.verify dev l d = (.ok (.untouched (l.range.stop - l.range.start)), v, d)) ∧
      (l.anyWritten = true → ∃ offset n, g.rangeBytes l.range = .ok (offset, n) ∧
        ∀ reply d₁, dev.answer (.invalidate offset n) d = (reply, d₁) →
          (∀ f, reply ≠ .error (.fault f)) →
          (∀ e d₂, dev.answer (.read offset n) d₁ = (.error (.error e), d₂) →
            ∃ v', v.Alike v' ∧ v.verify dev l d =
              (.ok { skipped := l.prior.countP Option.isNone, verified := 0
                     verifiedDuplicate := 0, verifiedTrimmed := 0, verifiedBlocks := []
                     mismatches := [], readError := some e }, v', d₂)) ∧
          ∀ bytes d₂, dev.answer (.read offset n) d₁ = (.ok bytes, d₂) →
            ∃ o v', v.Alike v' ∧ v.verify dev l d = (.ok o, v', d₂) ∧
              o.Exact v.content g l bytes.1) := by
  subst hvg
  have hshaped := (RangeLock.History.shaped_new hk).play calls
  have hp := hshaped.prior t l hl
  have hstop := hshaped.within t l hl
  refine ⟨fun hw hle => ?_, fun hw => ?_⟩
  · have hlen : l.range.length = .ok (l.range.stop - l.range.start) := Word.sub_of_le hle
    rw [verify_unwritten hw, hlen]
    rfl
  have hlt := l.start_lt_stop hw hp
  have hc : v.content.blockSize < Bytes.limit := by
    rw [hv.blockSize]
    exact Geometry.blockSize_lt_limit hg
  have hlim (b : Nat) (hb : b ∈ l.range.blocks) : b * v.geometry.blockSize < Word.limit :=
    Geometry.mul_lt_limit hg hsize
      (Nat.le_trans (Nat.le_of_lt (BlockRange.mem_blocks.mp hb).2) hstop)
  have hr := Geometry.rangeBytes_of_lt (Nat.le_of_lt hlt) (Geometry.mul_lt_limit hg hsize hstop)
  obtain ⟨v', hs, hverify⟩ := hv.verify hc dev l d
  refine ⟨_, _, hr, fun reply d₁ hi hf => ?_⟩
  rw [hverify, Outcome.verify_eq_readBack hw hr hi hf]
  refine ⟨fun e d₂ hd => ?_, fun bytes d₂ hd => ?_⟩
  · rw [Outcome.readBack_error hd]
    exact ⟨v', hs, rfl⟩
  · have hsize : l.range.blocks.length * v.content.blockSize = bytes.1.size := by
      rw [bytes.2, BlockRange.length_blocks, hv.blockSize]
    obtain ⟨o, ho⟩ := Outcome.exists_ofBytes hc hlim bytes.1
    rw [Outcome.readBack_ok hd ho]
    exact ⟨o, v', hs, rfl, Outcome.ofBytes_exact hp (Nat.le_of_eq hsize) ho⟩

/-- Two of four blocks were written, the buffers are stale, and the first byte of what is read comes
back inverted. -/
theorem verify_exact_of_inverted :
    let g : Geometry := ⟨2048, 512, 4⟩
    let k : RangeLock := ⟨4, 4, [], ⟨#[none, none, none, none], #[0], 0⟩, by decide, by decide⟩
    let states : List BlockState := [some .trimmed, none, some .trimmed, none]
    let calls : List RangeLock.Call := [.claim ⟨0, 4⟩, .release 0 states [], .claim ⟨0, 4⟩]
    let l : Lease := ⟨⟨0, 4⟩, states⟩
    let v : Verifier := ⟨⟨512, 7, .hash, by decide⟩, g, ⟨#[1, 2, 3]⟩, Bytes.filled 512 9⟩
    let d : Memory := ⟨.zeroes 2048, false, false, true, true, 0, 0, 0⟩
    Geometry.make 2048 512 = .ok g ∧ RangeLock.make 4 4 = .ok k ∧
      .granted 1 l ∈ ((RangeLock.History.new k).play calls).log ∧ v.Sound ∧
      l.anyWritten = true ∧ ∃ bytes o v' d', v.verify Memory.device l d = (.ok o, v', d') ∧
        v.Alike v' ∧ o.Exact v.content g l bytes ∧ o.skipped = 2 ∧
        o.verified + o.mismatches.length = 2 := by
  intro g k states calls l v d
  have hg : Geometry.make 2048 512 = .ok g := rfl
  have hk : RangeLock.make 4 4 = .ok k := rfl
  have hl : .granted 1 l ∈ ((RangeLock.History.new k).play calls).log := by
    have hlog : ((RangeLock.History.new k).play calls).log =
        [.granted 1 l, .returned 0 ⟨⟨0, 4⟩, [none, none, none, none]⟩ states,
          .granted 0 ⟨⟨0, 4⟩, [none, none, none, none]⟩] := by
      cbv
    rw [hlog]
    exact List.mem_cons_self
  have hv : v.Sound := ⟨rfl, by simp [v, Bytes.filled, ByteArray.size]⟩
  obtain ⟨offset, n, hr, hverify⟩ :=
    (verify_exact (by decide) hg hk calls hl hv rfl Memory.device d).2 rfl
  obtain ⟨hoffset, hn, -⟩ := Geometry.rangeBytes_eq hr
  obtain rfl : offset = 0 := hoffset.trans (Nat.zero_mul _)
  obtain rfl : n = 2048 := hn.trans (show (4 - 0) * 512 = 2048 by decide)
  have hi : Memory.device.answer (.invalidate 0 2048) d =
      (.ok (), { d with invalidations := 1 }) := rfl
  have hread : (Memory.invertFirst (Bytes.zeroes 2048)).size = 2048 := by
    rw [Memory.size_invertFirst, Bytes.size_zeroes]
  have hd : Memory.device.answer (.read 0 2048) { d with invalidations := 1 } =
      (.ok ⟨_, hread⟩, { d with invalidations := 1 }) := rfl
  obtain ⟨o, v', ha, ho, he⟩ := (hverify _ _ hi fun _ h => by cases h).2 _ _ hd
  have hskipped : o.skipped = 2 := he.skipped
  have htotal : o.skipped + o.verified + o.mismatches.length = 4 := he.total
  exact ⟨hg, hk, hl, hv, rfl, _, o, v', _, ho, ha, he, hskipped, by omega⟩

end Verifier

end Readback
