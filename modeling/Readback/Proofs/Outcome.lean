import Readback.Proofs.Worker.Serial

namespace Readback

/-- An outcome counts its verified blocks, by kind no more than there are, and together with the
mismatches no more than there are blocks in the range. -/
structure Outcome.Accounts (r : BlockRange) (o : Outcome) : Prop where
  verified : o.verified = o.verifiedBlocks.length
  kinds : o.verifiedDuplicate + o.verifiedTrimmed ≤ o.verified
  compared : o.verified + o.mismatches.length ≤ r.stop - r.start

namespace Outcome

variable {c : Content} {g : Geometry} {r : BlockRange} {l : Lease} {o : Outcome}

theorem length_verdicts (vs : List Verdict) :
    vs.countP Verdict.isSkipped + (vs.filterMap Verdict.matched?).length +
      (vs.filterMap Verdict.mismatch?).length = vs.length := by
  induction vs with
  | nil => rfl
  | cons v rest ih =>
    simp only [List.countP_cons, List.filterMap_cons, List.length_cons]
    cases v with
    | skipped =>
      simp only [Verdict.isSkipped, Verdict.matched?, Verdict.mismatch?, if_pos]
      omega
    | matched block tag =>
      simp only [Verdict.isSkipped, Verdict.matched?, Verdict.mismatch?, List.length_cons,
        Bool.false_eq_true, if_false]
      omega
    | differs m =>
      simp only [Verdict.isSkipped, Verdict.matched?, Verdict.mismatch?, List.length_cons,
        Bool.false_eq_true, if_false]
      omega

theorem length_matched_add_mismatches_le (vs : List Verdict) :
    (vs.filterMap Verdict.matched?).length + (vs.filterMap Verdict.mismatch?).length ≤
      vs.length := by
  have h := length_verdicts vs
  omega

theorem countP_kinds_le (matched : List (Nat × Tag)) :
    matched.countP (·.2 = .duplicate) + matched.countP (·.2 = .trimmed) ≤ matched.length := by
  induction matched with
  | nil => exact Nat.le_refl 0
  | cons p rest ih =>
    obtain ⟨block, tag⟩ := p
    cases tag <;> simp <;> omega

theorem ofVerdicts_accounts {vs : List Verdict} (h : vs.length ≤ r.stop - r.start) :
    (ofVerdicts vs).Accounts r :=
  ⟨(List.length_map Prod.fst).symm, countP_kinds_le _,
    Nat.le_trans (length_matched_add_mismatches_le vs) h⟩

theorem untouched_accounts (n : Nat) : (untouched n).Accounts r :=
  ⟨rfl, Nat.le_refl 0, Nat.zero_le _⟩

theorem unread_accounts (e : Error) : (unread l e).Accounts r :=
  ⟨rfl, Nat.le_refl 0, Nat.zero_le _⟩

theorem ofBytes_accounts {bytes : ByteArray} (h : ofBytes c g l bytes = .ok o) :
    o.Accounts l.range := by
  obtain ⟨vs, hj, rfl⟩ := map_eq_ok h
  apply ofVerdicts_accounts
  rw [length_judgeAll hj, List.length_zip, BlockRange.length_blocks]
  exact Nat.min_le_left _ _

theorem exists_judge (hc : c.blockSize < Bytes.limit) {block : Nat}
    (hb : block * g.blockSize < Word.limit) (actual : ByteArray) (prior : BlockState) :
    ∃ v, judge c g actual block prior = .ok v := by
  cases prior with
  | none => exact ⟨_, rfl⟩
  | some tag =>
    have ho : g.byteOffset block = .ok (block * g.blockSize) := Word.mul_of_lt hb
    obtain ⟨bytes, hbytes⟩ := Content.exists_block hc (block * g.blockSize) tag
    exact ⟨_, by simp only [judge, ho, hbytes, bind, Except.bind]; rfl⟩

theorem exists_judgeAll (hc : c.blockSize < Bytes.limit) (bytes : ByteArray)
    {blocks : List (Nat × BlockState)} (hb : ∀ p ∈ blocks, p.1 * g.blockSize < Word.limit)
    (i : Nat) : ∃ vs, judgeAll c g bytes i blocks = .ok vs := by
  induction blocks generalizing i with
  | nil => exact ⟨[], rfl⟩
  | cons p rest ih =>
    obtain ⟨hp, hrest⟩ := List.forall_mem_cons.mp hb
    obtain ⟨v, hv⟩ := exists_judge hc hp (Bytes.slice bytes (i * c.blockSize) c.blockSize) p.2
    obtain ⟨vs, hvs⟩ := ih hrest (i + 1)
    exact ⟨v :: vs, by simp only [judgeAll, hv, hvs, bind, Except.bind]; rfl⟩

theorem exists_ofBytes (hc : c.blockSize < Bytes.limit)
    (hb : ∀ b ∈ l.range.blocks, b * g.blockSize < Word.limit) (bytes : ByteArray) :
    ∃ o, ofBytes c g l bytes = .ok o := by
  have hzip : ∀ p ∈ l.range.blocks.zip l.prior, p.1 * g.blockSize < Word.limit :=
    fun p hp => hb p.1 (List.of_mem_zip hp).1
  obtain ⟨vs, hvs⟩ := exists_judgeAll hc bytes hzip 0
  exact ⟨ofVerdicts vs, by rw [ofBytes, hvs]; rfl⟩

end Outcome

end Readback
