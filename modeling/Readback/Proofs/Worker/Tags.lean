import Readback.Proofs.Worker.Safety

namespace Readback

/-- The tag is one that can be drawn with these percentages. -/
def Tag.Drawn (uniquePct trimPct : Nat) : Tag → Prop
  | .unique _ => 0 < uniquePct
  | .duplicate => uniquePct + trimPct < 100
  | .trimmed => 0 < trimPct

theorem Tag.drawn_of_pick {uniquePct trimPct : Nat} {s s' : Source} {tag : Tag}
    (h : pick uniquePct trimPct s = some (tag, s')) : tag.Drawn uniquePct trimPct := by
  obtain ⟨⟨percent, s₁⟩, hd, h⟩ := Option.bind_eq_some_iff.mp h
  obtain ⟨-, hpercent⟩ := Source.between_mem (Nat.zero_le 99) hd
  dsimp only at h
  split at h
  · obtain ⟨p, -, h⟩ := Option.bind_eq_some_iff.mp h
    cases h
    show 0 < uniquePct
    omega
  split at h
  · cases h
    show 0 < trimPct
    omega
  · cases h
    show uniquePct + trimPct < 100
    omega

/-- Of the kinds that `P` leaves out, an outcome counts no block. -/
structure Outcome.Keeps (P : Tag → Prop) (o : Outcome) : Prop where
  duplicate : ¬ P .duplicate → o.verifiedDuplicate = 0
  trimmed : ¬ P .trimmed → o.verifiedTrimmed = 0
  unique : (∀ n, ¬ P (.unique n)) → o.verified = o.verifiedDuplicate + o.verifiedTrimmed

/-- The batch that is at hand has tags that `P` allows, and so has what was verified for it. -/
def Phase.Tagged (P : Tag → Prop) (p : Phase) : Prop :=
  ∀ b, p.batch? = some b → (∀ tag ∈ b.tags, P tag) ∧ b.outcome.Keeps P

variable {P : Tag → Prop}

namespace Outcome

variable {c : Content} {g : Geometry} {l : Lease} {o : Outcome}

theorem countP_kinds_eq {matched : List (Nat × Tag)} (h : ∀ p ∈ matched, ∀ n, p.2 ≠ .unique n) :
    matched.length = matched.countP (·.2 = .duplicate) + matched.countP (·.2 = .trimmed) := by
  induction matched with
  | nil => rfl
  | cons p rest ih =>
    obtain ⟨hp, hrest⟩ := List.forall_mem_cons.mp h
    have hlength := ih hrest
    obtain ⟨block, tag⟩ := p
    cases tag with
    | unique n => exact absurd rfl (hp n)
    | duplicate => simp; omega
    | trimmed => simp; omega

theorem ofVerdicts_keeps {vs : List Verdict} (h : ∀ p ∈ vs.filterMap Verdict.matched?, P p.2) :
    (ofVerdicts vs).Keeps P := by
  have hnone {tag : Tag} (ht : ¬ P tag) :
      (vs.filterMap Verdict.matched?).countP (·.2 = tag) = 0 := by
    rw [List.countP_eq_zero]
    exact fun p hp he => ht (of_decide_eq_true he ▸ h p hp)
  exact ⟨hnone, hnone, fun hu => countP_kinds_eq fun p hp n he => hu n (he ▸ h p hp)⟩

theorem judge_tag {actual : ByteArray} {block : Nat} {prior : BlockState} {v : Verdict}
    (h : judge c g actual block prior = .ok v) {p : Nat × Tag} (hv : v.matched? = some p) :
    prior = some p.2 := by
  unfold judge at h
  cases prior with
  | none =>
    cases h
    cases hv
  | some tag =>
    obtain ⟨offset, -, h⟩ := bind_eq_ok h
    obtain ⟨expected, -, h⟩ := bind_eq_ok h
    cases h
    rw [matched?_compare hv]

theorem judgeAll_tags {bytes : ByteArray} {i : Nat} {blocks : List (Nat × BlockState)}
    {vs : List Verdict} (h : judgeAll c g bytes i blocks = .ok vs) {p : Nat × Tag}
    (hp : p ∈ vs.filterMap Verdict.matched?) : some p.2 ∈ blocks.map Prod.snd := by
  induction blocks generalizing i vs with
  | nil =>
    cases h
    cases hp
  | cons q rest ih =>
    obtain ⟨block, prior⟩ := q
    obtain ⟨v, hj, h⟩ := bind_eq_ok h
    obtain ⟨us, hr, h⟩ := bind_eq_ok h
    cases h
    obtain ⟨u, hu, he⟩ := List.mem_filterMap.mp hp
    rcases List.mem_cons.mp hu with rfl | hu
    · rw [← judge_tag hj he]
      exact List.mem_cons_self
    · exact List.mem_cons_of_mem _ (ih hr (List.mem_filterMap.mpr ⟨u, hu, he⟩))

theorem ofBytes_keeps {bytes : ByteArray} (h : ofBytes c g l bytes = .ok o)
    (hl : ∀ tag, some tag ∈ l.prior → P tag) : o.Keeps P := by
  obtain ⟨vs, hj, rfl⟩ := map_eq_ok h
  refine ofVerdicts_keeps fun p hp => hl p.2 ?_
  obtain ⟨q, hq, he⟩ := List.mem_map.mp (judgeAll_tags hj hp)
  rw [← he]
  exact (List.of_mem_zip hq).2

theorem untouched_keeps (n : Nat) : (untouched n).Keeps P :=
  ⟨fun _ => rfl, fun _ => rfl, fun _ => rfl⟩

theorem unread_keeps (e : Error) : (unread l e).Keeps P :=
  ⟨fun _ => rfl, fun _ => rfl, fun _ => rfl⟩

end Outcome

namespace Worker

variable {σ : Type} {dev : Device σ} {j : Job} {now : Instant} {w : Worker} {s : Shared} {d : σ}
  {t : Turn σ}

theorem compose_drawn {blocks : List Nat} {source source' : Source}
    {made : List (Tag × ByteArray)} (h : compose j blocks source = .ok (made, source')) :
    ∀ tag ∈ made.map Prod.fst, tag.Drawn j.config.uniquePct.toNat j.config.trimPct.toNat := by
  induction blocks generalizing source made with
  | nil =>
    cases h
    nofun
  | cons block rest ih =>
    unfold compose at h
    cases ht : Tag.pick j.config.uniquePct.toNat j.config.trimPct.toNat source with
    | none =>
      rw [ht] at h
      cases h
    | some p =>
      rw [ht] at h
      obtain ⟨offset, -, h⟩ := bind_eq_ok h
      obtain ⟨bytes, -, h⟩ := bind_eq_ok h
      obtain ⟨⟨others, s₂⟩, hc, h⟩ := bind_eq_ok h
      cases h
      exact List.forall_mem_cons.mpr ⟨Tag.drawn_of_pick ht, ih hc⟩

theorem mem_tags_of_newStates {b : Batch} {written : Bool} {tag : Tag}
    (h : some tag ∈ newStates b written) : tag ∈ b.tags := by
  obtain ⟨u, hu, he⟩ := List.mem_map.mp h
  cases written with
  | true =>
    cases he
    exact hu
  | false => cases he

theorem Finds.keeps {l : Lease} {o : Outcome} (h : Finds j w s l o)
    (hl : w.phase = .reading l → ∀ tag, some tag ∈ l.prior → P tag) : o.Keeps P := by
  cases h with
  | untouched hp h hn => exact Outcome.untouched_keeps _
  | unread hp => exact Outcome.unread_keeps _
  | compared hp hr ho => exact Outcome.ofBytes_keeps ho (hl hp)

/-- A step leaves the batch at hand as it is, or makes one whose tags are drawn and whose outcome
tells of the states before. -/
theorem Transition.tagged (h : Transition dev j now w s d t)
    (hP : ∀ tag : Tag, tag.Drawn j.config.uniquePct.toNat j.config.trimPct.toNat → P tag)
    (hl : ∀ l, w.phase.lease? = some l → ∀ tag, some tag ∈ l.prior → P tag)
    (hw : w.phase.Tagged P) : t.worker.phase.Tagged P := by
  intro b hb
  rcases h.batch hb with hb | hb
  · exact hw b hb
  · obtain ⟨source, source', blocks, hc, htags, -⟩ := hb.composed
    refine ⟨fun tag htag => hP tag (compose_drawn hc tag (htags ▸ htag)), ?_⟩
    exact hb.found.keeps fun hp => hl b.lease (by rw [hp]; rfl)

end Worker

end Readback
