import Readback.Proofs.Worker.Custody

namespace Readback

variable {σ : Type} {dev : Device σ} {j : Job} {now : Instant} {w : Worker} {s : Shared} {d : σ}
  {t : Worker.Turn σ} {c : Content} {g : Geometry} {before after : Nat → UInt8}

/-- The blocks of a lease hold what the lease says of them. -/
def Lease.Known (c : Content) (g : Geometry) (byte : Nat → UInt8) (l : Lease) : Prop :=
  ∀ b t, (b, some t) ∈ l.range.blocks.zip l.prior → c.Holds g byte b t

/-- The blocks of a batch hold the content that goes with their new tags. -/
def Batch.Stored (c : Content) (g : Geometry) (byte : Nat → UInt8) (b : Batch) : Prop :=
  ∀ p ∈ b.tagged, c.Holds g byte p.1 p.2

/-- The blocks under no lease hold what the table says of them. -/
def RangeLock.Kept (c : Content) (g : Geometry) (byte : Nat → UInt8) (k : RangeLock) : Prop :=
  ∀ b t, k.table.stateAt b = some t → (∀ r ∈ k.active, b ∉ r.blocks) → c.Holds g byte b t

/-- What is said of a comparison, if it found nothing wrong. -/
def Event.Clean : Event → Prop
  | .compared _ o => o.mismatches = []
  | .mismatch _ => False
  | .muted => False
  | _ => True

/-- No mismatch was found in what led to a phase, and the device holds what it should in the blocks
under the lease of the phase. -/
def Phase.Clean (c : Content) (g : Geometry) (byte : Nat → UInt8) : Phase → Prop
  | .invalidating l => l.Known c g byte
  | .reading l => l.Known c g byte
  | .writing b => b.outcome.mismatches = []
  | .discarding b _ _ => b.outcome.mismatches = [] ∧ b.Stored c g byte
  | .flushing b => b.outcome.mismatches = [] ∧ b.Stored c g byte
  | .dropping b => b.outcome.mismatches = [] ∧ b.Stored c g byte
  | .releasing b written => b.outcome.mismatches = [] ∧ (written = true → b.Stored c g byte)
  | .recording n v rest => ∀ p ∈ (n, v) :: rest, p.1 ≠ .mismatches
  | .sampling _ seen _ => seen.mismatches = 0
  | .checking seen _ => seen.mismatches = 0
  | .judging seen => seen.mismatches = 0
  | .giving reason _ => reason ≠ .failure
  | _ => True

theorem Batch.mem_blocks_of_tagged {b : Batch} {p : Nat × Tag} (h : p ∈ b.tagged) :
    p.1 ∈ b.range.blocks :=
  (List.of_mem_zip h).1

/-- What is known of the blocks of one lease stays true while only blocks of another change. -/
theorem Phase.Clean.frame {p : Phase} {r : BlockRange} (h : p.Clean c g before)
    (hs : c.blockSize = g.blockSize)
    (hd : ∀ l, p.lease? = some l → ∀ b ∈ l.range.blocks, b ∉ r.blocks)
    (hf : ∀ i, ¬ g.Owns r i → after i = before i) : p.Clean c g after := by
  have known {l : Lease} (hl : p.lease? = some l) (hk : l.Known c g before) :
      l.Known c g after := fun b t hb =>
    (hk b t hb).frame hs (hd l hl b (List.of_mem_zip hb).1) hf
  have stored {b : Batch} (hl : p.lease? = some b.lease) (hk : b.Stored c g before) :
      b.Stored c g after := fun q hq =>
    (hk q hq).frame hs (hd _ hl _ (Batch.mem_blocks_of_tagged hq)) hf
  cases p with
  | invalidating l => exact known rfl h
  | reading l => exact known rfl h
  | discarding b run rest => exact ⟨h.1, stored rfl h.2⟩
  | flushing b => exact ⟨h.1, stored rfl h.2⟩
  | dropping b => exact ⟨h.1, stored rfl h.2⟩
  | releasing b written => exact ⟨h.1, fun hw => stored rfl (h.2 hw)⟩
  | _ => exact h

namespace Batch

variable {b : Batch}

theorem Composed.stored (hb : b.Composed j) (hs : j.content.blockSize = j.geometry.blockSize)
    {offset n : Nat} (hr : j.geometry.rangeBytes b.range = .ok (offset, n))
    (ha : ∀ i, after i = Request.effect before (.write offset b.data) i) :
    b.Stored j.content j.geometry after := by
  intro p hp
  obtain ⟨k, hk⟩ := List.getElem?_of_mem hp
  obtain ⟨hstart, hlt⟩ := tagged_eq hk
  obtain ⟨bytes, ⟨first, ho, hc⟩, hbytes⟩ := hb.byteAt_data hk
  refine ⟨first, bytes, ho, hc, fun i hi => ?_⟩
  obtain ⟨rfl, -, -⟩ := Geometry.rangeBytes_eq hr
  have hfirst : first = b.range.start * j.geometry.blockSize + k * j.content.blockSize := by
    rw [Geometry.byteOffset_eq ho, hstart, Nat.add_mul, hs]
  have hin : k * j.content.blockSize + i < b.data.size := by
    have hle : (k + 1) * j.content.blockSize ≤ b.data.size := by
      rw [hb.size_data]
      exact Nat.mul_le_mul_right _ hlt
    rw [Nat.succ_mul] at hle
    omega
  have hsub : first + i - b.range.start * j.geometry.blockSize = k * j.content.blockSize + i := by
    omega
  rw [ha, Request.effect, if_pos (by omega), hsub, hbytes i hi]

theorem Stored.discard (hb : b.Stored j.content j.geometry before)
    (hs : j.content.blockSize = j.geometry.blockSize) {run : BlockRange}
    (hlen : b.tags.length = b.range.stop - b.range.start)
    (hrun : run ∈ Worker.trimmedRuns b.range b.tags) {offset n : Nat}
    (hr : j.geometry.rangeBytes run = .ok (offset, n))
    (ha : ∀ i, after i = Request.effect before (.discard offset n) i) : after = before := by
  funext i
  rw [ha, Request.effect]
  split
  · rename_i hi
    obtain ⟨rfl, rfl, hle⟩ := Geometry.rangeBytes_eq hr
    rw [Geometry.add_length_mul hle] at hi
    have hpos : 0 < j.geometry.blockSize := hs ▸ j.content.blockSize_pos
    obtain ⟨block, k, hblock, hk, rfl⟩ := Geometry.Owns.exists_block hpos hi
    obtain ⟨first, bytes, ho, hc, hbytes⟩ :=
      hb _ ((Worker.mem_of_trimmedRuns hlen hrun).2 block hblock)
    rw [← Geometry.byteOffset_eq ho, hbytes k (hs ▸ hk), Content.byteAt_trimmed hc]
  · rfl

end Batch

namespace Outcome

theorem judge_of_holds {actual : ByteArray} {block : Nat} {tag : Tag}
    (h : c.Holds g before block tag) (hs : actual.size = c.blockSize)
    (ha : ∀ i < c.blockSize, Bytes.byteAt actual i = before (block * g.blockSize + i)) :
    judge c g actual block (some tag) = .ok (.matched block tag) := by
  obtain ⟨offset, expected, ho, hc, hbytes⟩ := h
  have hsize := Content.size_block hc
  have hnone : firstDifference expected actual = none := by
    apply Bytes.firstDifference_eq_none (hsize.trans hs.symm)
    intro i hi
    rw [ha i (hsize ▸ hi), ← Geometry.byteOffset_eq ho, hbytes i (hsize ▸ hi)]
  simp only [judge, ho, hc, bind, Except.bind, compare, hnone]
  rfl

theorem judgeAll_clean {bytes : ByteArray} {i : Nat} {l : List (Nat × BlockState)}
    {vs : List Verdict} (h : judgeAll c g bytes i l = .ok vs)
    (hsize : (i + l.length) * c.blockSize ≤ bytes.size)
    (hb : ∀ k block tag, l[k]? = some (block, some tag) → c.Holds g before block tag ∧
      ∀ x < c.blockSize,
        Bytes.byteAt bytes ((i + k) * c.blockSize + x) = before (block * g.blockSize + x)) :
    vs.filterMap Verdict.mismatch? = [] := by
  induction l generalizing i vs with
  | nil =>
    cases h
    rfl
  | cons q rest ih =>
    obtain ⟨block, prior⟩ := q
    have hroom : i * c.blockSize + c.blockSize ≤ bytes.size := by
      rw [← Nat.succ_mul]
      exact Nat.le_trans (Nat.mul_le_mul_right _ (by simp only [List.length_cons]; omega)) hsize
    obtain ⟨v, hj, h⟩ := bind_eq_ok h
    obtain ⟨us, hr, h⟩ := bind_eq_ok h
    cases h
    have hv : v.mismatch? = none := by
      cases prior with
      | none =>
        cases hj
        rfl
      | some tag =>
        obtain ⟨hh, hx⟩ := hb 0 block tag rfl
        rw [judge_of_holds hh (Bytes.size_slice hroom) fun x hlt => by
          rw [Bytes.byteAt_slice, if_pos hlt]
          exact hx x hlt] at hj
        cases hj
        rfl
    have hrest : us.filterMap Verdict.mismatch? = [] := by
      refine ih hr ?_ fun k block tag hk => ?_
      · rw [List.length_cons] at hsize
        rwa [Nat.add_assoc, Nat.add_comm 1]
      · have := hb (k + 1) block tag hk
        rwa [show i + 1 + k = i + (k + 1) by omega]
    rw [List.filterMap_cons, hv]
    exact hrest

/-- Reading back a lease whose blocks hold what they should finds no mismatch. -/
theorem ofBytes_clean {l : Lease} {offset n : Nat} {bytes : ByteArray} {o : Outcome}
    (hs : c.blockSize = g.blockSize) (hl : l.Known c g before)
    (hr : g.rangeBytes l.range = .ok (offset, n)) (hn : bytes.size = n)
    (hb : ∀ i < n, Bytes.byteAt bytes i = before (offset + i))
    (h : ofBytes c g l bytes = .ok o) : o.mismatches = [] := by
  obtain ⟨vs, hj, rfl⟩ := map_eq_ok h
  obtain ⟨rfl, rfl, hle⟩ := Geometry.rangeBytes_eq hr
  have hlen : (l.range.blocks.zip l.prior).length ≤ l.range.stop - l.range.start := by
    simp only [List.length_zip, BlockRange.blocks, List.length_range']
    omega
  refine judgeAll_clean hj ?_ fun k block tag hk => ⟨hl block tag (List.mem_of_getElem? hk), ?_⟩
  · rw [hn, Nat.zero_add, hs]
    exact Nat.mul_le_mul_right _ hlen
  · intro x hx
    obtain ⟨hblock, -⟩ := List.getElem?_zip_eq_some.mp hk
    obtain ⟨hlt, hblock⟩ := List.getElem?_eq_some_iff.mp hblock
    simp only [BlockRange.blocks, List.length_range'] at hlt
    simp only [BlockRange.blocks, List.getElem_range'] at hblock
    have hin : k * g.blockSize + x < (l.range.stop - l.range.start) * g.blockSize := by
      have hle : (k + 1) * g.blockSize ≤ (l.range.stop - l.range.start) * g.blockSize :=
        Nat.mul_le_mul_right _ hlt
      rw [Nat.succ_mul] at hle
      omega
    rw [Nat.zero_add, hs, hb _ hin]
    congr 1
    rw [← hblock, Nat.one_mul, Nat.add_mul]
    omega

end Outcome

namespace RangeLock

variable {k k' : RangeLock}

/-- What the table says of the blocks of a lease that is granted is what the device holds. -/
theorem Kept.known {l : Lease} (h : k.Kept c g before) (hk : k.Sound)
    (hg : k.Granted l k') : l.Known c g before := by
  intro b t hb
  rw [hg.prior, priorOf] at hb
  obtain ⟨i, hi⟩ := List.getElem?_of_mem hb
  obtain ⟨hblock, hstate⟩ := List.getElem?_zip_eq_some.mp hi
  rw [List.getElem?_map, hblock, Option.map_some, Option.some_inj] at hstate
  exact h b t hstate fun r hr => hg.disjoint hk (List.mem_of_getElem? hblock) hr

theorem Kept.granted {l : Lease} (h : k.Kept c g before) (hk : k.Sound) (hg : k.Granted l k') :
    k'.Kept c g before := by
  intro b t hb hfree
  rw [hg.stateAt] at hb
  exact h b t hb fun r hr => hfree r ((hg.mem hk).mpr (.inr hr))

/-- A release keeps the table true if the blocks hold what is released, unless that is nothing. -/
theorem Kept.released {b : Batch} {written : Bool} (h : k.Kept c g before) (hk : k.Sound)
    (hb : b.Composed j) (hr : k.Released b.lease (Worker.newStates b written) k')
    (hs : written = true → b.Stored c g before) : k'.Kept c g before := by
  intro block tag hblock hfree
  rw [hr.stateAt] at hblock
  by_cases hin : block ∈ b.lease.range.blocks
  · obtain ⟨new, hnew⟩ := hb.exists_tagged hin
    have htag : b.tags[block - b.lease.range.start]? = some new :=
      (List.getElem?_zip_eq_some.mp hnew).2
    rw [if_pos hin, Worker.newStates, List.getD_eq_getElem?_getD, List.getElem?_map, htag] at hblock
    cases written with
    | false => cases hblock
    | true =>
      cases hblock
      exact hs rfl _ (List.mem_of_getElem? hnew)
  · rw [if_neg hin] at hblock
    apply h block tag hblock
    intro s hs hbs
    have hne : s ≠ b.lease.range := fun he => hin (he ▸ hbs)
    exact hfree s ((hr.mem_active hk).mpr ⟨hs, hne⟩) hbs

end RangeLock

namespace Worker

/-- The device does and answers what it may in whatever the worker asks of it next. -/
def Served (dev : Device σ) (byte : σ → Nat → UInt8) (j : Job) (w : Worker) (d : σ) : Prop :=
  ∀ l q, w.phase.Asks j.geometry l q →
    q.MayAnswer (j.geometry.Owns l.range) (byte d) (byte (dev.answer q d).2) (dev.answer q d).1

/-- Nothing that a step leaves behind tells of a mismatch. -/
structure Turn.Clean (j : Job) (byte : σ → Nat → UInt8) (t : Turn σ) : Prop where
  phase : t.worker.phase.Clean j.content j.geometry (byte t.device)
  mismatches : t.shared.stats.mismatches = 0
  reason : t.shared.stop.given ≠ some .failure
  events : ∀ e ∈ t.events, e.Clean

theorem recordNext_clean {additions : List (Counter × UInt64)}
    (h : ∀ p ∈ additions, p.1 ≠ .mismatches) : (recordNext additions).Clean c g before := by
  cases additions with
  | nil => trivial
  | cons p rest => exact h

theorem discardNext_clean {b : Batch} (runs : List BlockRange)
    (h : b.outcome.mismatches = [] ∧ b.Stored c g before) :
    (discardNext b runs).Clean c g before := by
  cases runs <;> exact h

theorem additions_clean {b : Batch} (h : b.outcome.mismatches = []) (written : Bool)
    (n bytes newly : Nat) (failed : Bool) :
    ∀ p ∈ (recordOf b written n bytes newly).seen ++ Record.closing failed,
      p.1 ≠ .mismatches := by
  intro p hp he
  rcases List.mem_append.mp hp with hp | hp
  · obtain ⟨hp, hne⟩ := List.mem_filter.mp hp
    simp only [Record.amounts, recordOf, h, List.mem_cons, List.not_mem_nil, or_false] at hp
    rcases hp with rfl | rfl | rfl | rfl | rfl | rfl | rfl | rfl | rfl
    case inr.inr.inr.inr.inr.inr.inr.inr => exact of_decide_eq_true hne rfl
    all_goals cases he
  · cases failed with
    | true =>
      simp only [Record.closing, if_true, List.mem_cons, List.not_mem_nil, or_false] at hp
      rcases hp with rfl | rfl <;> cases he
    | false =>
      simp only [Record.closing, if_false, Bool.false_eq_true, List.mem_singleton] at hp
      subst hp
      cases he

theorem mismatches_add {s : Stats} {n : Counter} (v : UInt64) (h : n ≠ .mismatches) :
    (s.add n v).mismatches = s.mismatches :=
  s.get_set_of_ne h.symm _

theorem mismatches_sample {seen stats : Stats} (n : Counter) (h : seen.mismatches = 0)
    (hs : stats.mismatches = 0) : (seen.set n (stats.get n)).mismatches = 0 := by
  by_cases hn : n = .mismatches
  · subst hn
    exact hs
  · exact (seen.get_set_of_ne (fun he => hn he.symm) _).trans h

theorem evaluate_ne_failure {p : Stop.Policy} {seen : Stats} {reason : Stop.Reason}
    (h : p.evaluate seen now = some reason) (hs : seen.mismatches = 0) : reason ≠ .failure := by
  rintro rfl
  unfold Stop.Policy.evaluate at h
  split at h
  · rename_i hf
    rw [hs] at hf
    exact absurd hf.2 (by decide)
  · split at h
    · cases h
    split at h
    · cases h
    split at h <;> cases h

theorem give_ne_failure {s : Stop.Signal} {reason : Stop.Reason} (h : s.given ≠ some .failure)
    (hr : reason ≠ .failure) : (s.give reason).given ≠ some .failure := by
  cases hg : s.given with
  | none =>
    simp only [Stop.Signal.give, hg, Option.none_or, ne_eq, Option.some_inj]
    exact hr
  | some first =>
    simp only [Stop.Signal.give, hg, Option.some_or]
    exact hg ▸ h

theorem logOutcome_clean {o : Outcome} (h : o.mismatches = []) (r : BlockRange) :
    ∀ e ∈ (w.logOutcome r o).1, e.Clean := by
  simp only [logOutcome, h, describe, List.append_nil, List.forall_mem_cons]
  refine ⟨h, fun e he => ?_⟩
  cases hr : o.readError with
  | none => simp [hr] at he
  | some x =>
    simp only [hr, Option.map_some, Option.toList_some, List.mem_singleton] at he
    rw [he]
    trivial

theorem Prepared.clean {byte : σ → Nat → UInt8} {l : Lease} {o : Outcome}
    (h : Prepared j w s d l o t) (ho : o.mismatches = []) (hs : s.stats.mismatches = 0)
    (hr : s.stop.given ≠ some .failure) : t.Clean j byte := by
  cases h with
  | ready h => exact ⟨ho, hs, hr, logOutcome_clean ho _⟩
  | fault h => exact ⟨trivial, hs, hr, logOutcome_clean ho _⟩

/-- A device that does what it may gives no step cause to tell of a mismatch. -/
theorem Transition.clean {byte : σ → Nat → UInt8} (h : Transition dev j now w s d t)
    (hd : w.Served dev byte j d) (hj : j.Sound) (hk : s.lock.Sound) (hf : w.phase.Formed j)
    (hw : w.phase.Clean j.content j.geometry (byte d))
    (hl : s.lock.Kept j.content j.geometry (byte d)) (hs : s.stats.mismatches = 0)
    (hr : s.stop.given ≠ some .failure) : t.Clean j byte := by
  have silent : ∀ e ∈ ([] : List Event), e.Clean := nofun
  have asked {l : Lease} {q : Request} {reply : Except Failure q.Reply} {d' : σ}
      (hq : w.phase.Asks j.geometry l q) (h : dev.answer q d = (reply, d')) :
      q.MayAnswer (j.geometry.Owns l.range) (byte d) (byte d') reply := by
    have := hd l q hq
    rwa [h] at this
  cases h with
  | stop hp hraised => exact ⟨trivial, hs, hr, by simp [Event.Clean]⟩
  | enter hp hraised => exact ⟨trivial, hs, hr, silent⟩
  | retry hp h => exact ⟨hw, hs, hr, silent⟩
  | grant hp h hu =>
    exact ⟨hl.known hk (granted_of_tryCandidates hk h), hs, hr, silent⟩
  | grantUnwritten hp h hu hn ht => exact ht.clean rfl hs hr
  | invalidate hp hrange h hfault =>
    have ha := asked (by rw [hp]; exact .invalidate hrange) h
    rw [hp] at hw
    exact ⟨ha.invalidated hfault ▸ hw, hs, hr, silent⟩
  | unread hp hrange h ht => exact ht.clean rfl hs hr
  | @compare l offset n bytes d' o t hp hrange h ho ht =>
    have ha := asked (by rw [hp]; exact .read hrange) h
    rw [hp] at hw
    cases ha with
    | done hb hgives =>
      exact ht.clean (Outcome.ofBytes_clean hj.blockSize hw hrange bytes.2 hgives ho) hs hr
  | write hp hrange h =>
    have ha := asked (by rw [hp]; exact .write hrange) h
    rw [hp] at hw hf
    cases ha with
    | done hb hgives =>
      exact ⟨discardNext_clean _ ⟨hw, hf.stored hj.blockSize hrange hb⟩, hs, hr, silent⟩
  | writeFailed hp hrange h =>
    rw [hp] at hw
    exact ⟨⟨hw, nofun⟩, hs, hr, by simp [giveUp, Event.Clean]⟩
  | discard hp hrange h =>
    have ha := asked (by rw [hp]; exact .discard hrange) h
    rw [hp] at hw hf
    cases ha with
    | done hb hgives =>
      have hsame := hw.2.discard hj.blockSize hf.1.length (hf.2 _ List.mem_cons_self) hrange hb
      exact ⟨discardNext_clean _ (hsame ▸ hw), hs, hr, silent⟩
  | noDiscard hp hrange h he =>
    have ha := asked (by rw [hp]; exact .discard hrange) h
    rw [hp] at hw
    refine ⟨ha.spared he ▸ hw, hs, hr, fun e hm => ?_⟩
    dsimp only at hm
    split at hm
    · cases hm
    · rw [List.mem_singleton.mp hm]
      trivial
  | discardFailed hp hrange h he =>
    rw [hp] at hw
    exact ⟨⟨hw.1, nofun⟩, hs, hr, by simp [giveUp, Event.Clean]⟩
  | flush hp h =>
    have ha := asked (by rw [hp]; exact .flush) h
    rw [hp] at hw
    exact ⟨ha.untouched (fun _ => not_false) ▸ hw, hs, hr, silent⟩
  | flushFailed hp h =>
    rw [hp] at hw
    exact ⟨⟨hw.1, nofun⟩, hs, hr, by simp [giveUp, Event.Clean]⟩
  | drop hp hrange h hfault =>
    have ha := asked (by rw [hp]; exact .drop hrange) h
    rw [hp] at hw
    refine ⟨?_, hs, hr, silent⟩
    exact ⟨hw.1, fun _ => ha.invalidated hfault ▸ hw.2⟩
  | release hp h hrange hn hfailed =>
    rw [hp] at hw
    exact ⟨recordNext_clean (additions_clean hw.1 _ _ _ _ _), hs, hr, silent⟩
  | refuse hp h => exact ⟨nofun, hs, hr, by simp [Event.Clean]⟩
  | record hp =>
    rw [hp] at hw
    obtain ⟨hne, hrest⟩ := List.forall_mem_cons.mp hw
    exact ⟨recordNext_clean hrest, (mismatches_add _ hne).trans hs, hr, silent⟩
  | due hp hdue => exact ⟨rfl, hs, hr, silent⟩
  | early hp hdue => exact ⟨rfl, hs, hr, silent⟩
  | sample hp =>
    rw [hp] at hw
    exact ⟨mismatches_sample _ hw hs, hs, hr, silent⟩
  | report hp hreporter => exact ⟨rfl, hs, hr, silent⟩
  | silent hp hreporter => exact ⟨rfl, hs, hr, silent⟩
  | check hp =>
    rw [hp] at hw
    exact ⟨mismatches_sample _ hw hs, hs, hr, silent⟩
  | checked hp =>
    rw [hp] at hw
    exact ⟨hw, hs, hr, silent⟩
  | judge hp hreason =>
    rw [hp] at hw
    exact ⟨evaluate_ne_failure hreason hw, hs, hr, silent⟩
  | pass hp hreason => exact ⟨trivial, hs, hr, silent⟩
  | give hp =>
    rw [hp] at hw
    exact ⟨trivial, hs, give_ne_failure hr hw, silent⟩
  | raise hp => exact ⟨trivial, hs, hr, silent⟩
  | abort hp => exact ⟨trivial, hs, hr, silent⟩
  | idle hp => exact ⟨hw, hs, hr, silent⟩
  | crash hd hf => exact ⟨trivial, hs, hr, silent⟩
  | crashGranted hp h hl => exact ⟨trivial, hs, hr, silent⟩
  | crashRecorded hp h hf => exact ⟨trivial, hs, hr, silent⟩

end Worker

end Readback
