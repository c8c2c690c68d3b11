import Readback.Proofs.Device.Durability
import Readback.Proofs.Worker.Act
import Readback.Proofs.Worker.Integrity

namespace Readback

/-- What a worker does with the lock or the device, and how the device answers. -/
inductive Deed
  | granted (l : Lease)
  | called (l : Lease) (c : Call)
  | released (x : Completed)

namespace Deed

variable {g : Geometry} {i k : Nat} {h : List (Nat × Deed)} {l : Lease} {cs : List Call}

def Leaves (g : Geometry) (x y : Contents) : Option Deed → Prop
  | some (.called l c) => c.Leaves (g.Owns l.range) x y
  | _ => y = x

/-- What a device may hold after some deeds. -/
def Leads (g : Geometry) : List (Nat × Deed) → Contents → Contents → Prop
  | [], x, y => y = x
  | a :: rest, x, y => ∃ z, Leaves g x z (some a.2) ∧ Leads g rest z y

def call? (k : Nat) : Nat × Deed → Option Call
  | (i, .called _ c) => if i = k then some c else none
  | _ => none

/-- A worker was granted a lease, and then no other, and has made some calls since. -/
def Since (k : Nat) (h : List (Nat × Deed)) (l : Lease) (cs : List Call) : Prop :=
  ∃ before after, h = before ++ (k, .granted l) :: after ∧ (∀ m, (k, .granted m) ∉ after) ∧
    after.filterMap (call? k) = cs

theorem leads_concat {a : Option Deed} {x y : Contents}
    (hl : Leads g (h ++ (a.map (i, ·)).toList) x y) :
    ∃ z, Leads g h x z ∧ Leaves g z y a := by
  induction h generalizing x with
  | nil =>
    cases a with
    | none => exact ⟨x, rfl, hl⟩
    | some a =>
      obtain ⟨z, hz, rfl⟩ := hl
      exact ⟨x, rfl, hz⟩
  | cons first rest ih =>
    obtain ⟨z, hz, hrest⟩ := hl
    obtain ⟨u, hu, ha⟩ := ih hrest
    exact ⟨u, ⟨z, hz, hu⟩, ha⟩

theorem exists_leads (g : Geometry) (h : List (Nat × Deed)) (x : Contents) :
    ∃ y, Leads g h x y := by
  induction h generalizing x with
  | nil => exact ⟨x, rfl⟩
  | cons a rest ih =>
    obtain ⟨z, hz⟩ : ∃ z, Leaves g x z (some a.2) := by
      cases a.2 with
      | called l c => exact Call.Leaves.exists_leaves _ c x
      | granted l => exact ⟨x, rfl⟩
      | released c => exact ⟨x, rfl⟩
    obtain ⟨y, hy⟩ := ih z
    exact ⟨y, z, hz, hy⟩

theorem since_granted (k : Nat) (h : List (Nat × Deed)) (l : Lease) :
    Since k (h ++ [(k, .granted l)]) l [] :=
  ⟨h, [], rfl, nofun, rfl⟩

theorem Since.concat (hs : Since k h l cs) {a : Nat × Deed} (ha : ∀ m, (k, .granted m) ≠ a) :
    Since k (h ++ [a]) l (cs ++ (call? k a).toList) := by
  obtain ⟨before, after, rfl, hm, rfl⟩ := hs
  refine ⟨before, after ++ [a], ?_, fun m hn => ?_, ?_⟩
  · rw [List.append_assoc, List.cons_append]
  · rcases List.mem_append.mp hn with hn | hn
    · exact hm m hn
    · exact ha m (List.mem_singleton.mp hn)
  · rw [List.filterMap_append]
    cases hc : call? k a with
    | none => rw [List.filterMap_cons_none hc]; rfl
    | some c => rw [List.filterMap_cons_some hc]; rfl

theorem Since.called (hs : Since k h l cs) (m : Lease) (c : Call) :
    Since k (h ++ [(k, .called m c)]) l (cs ++ [c]) := by
  have hconcat := hs.concat (a := (k, .called m c)) nofun
  rwa [call?, if_pos rfl] at hconcat

theorem Since.other (hs : Since k h l cs) (hi : i ≠ k) (a : Deed) :
    Since k (h ++ [(i, a)]) l cs := by
  have hnone : call? k (i, a) = none := by
    cases a with
    | called m c => exact if_neg hi
    | granted m => rfl
    | released x => rfl
  have hconcat := hs.concat (a := (i, a)) fun m he => hi (congrArg Prod.fst he).symm
  rwa [hnone, Option.toList_none, List.append_nil] at hconcat

end Deed

namespace Batch

variable {g : Geometry} {b : Batch} {cs : List Call} {c : Call}

/-- A discard of blocks that are tagged as trimmed, which went well or is not supported. -/
def Trims (g : Geometry) (b : Batch) (c : Call) : Prop :=
  ∃ run offset n, c.request = .discard offset n ∧ g.rangeBytes run = .ok (offset, n) ∧
    run.start < run.stop ∧ (∀ block ∈ run.blocks, (block, Tag.trimmed) ∈ b.tagged) ∧
    (c.result = .ok () ∨ ∃ e : Error, c.result = .error (.error e) ∧ e.kind = .unsupported)

/-- The calls end with one write of the whole lease and discards of trimmed blocks, and change
nothing before. -/
def Written (g : Geometry) (b : Batch) (cs : List Call) : Prop :=
  ∃ early trims offset n, cs = early ++ ⟨.write offset b.data, .ok ()⟩ :: trims ∧
    g.rangeBytes b.range = .ok (offset, n) ∧ (∀ c ∈ early, ¬ c.request.Modifies) ∧
    ∀ c ∈ trims, b.Trims g c

/-- After that, the device was flushed, and not changed again. -/
def Sealed (g : Geometry) (b : Batch) (cs : List Call) : Prop :=
  ∃ wrote late, cs = wrote ++ ⟨.flush, .ok ()⟩ :: late ∧ b.Written g wrote ∧
    ∀ c ∈ late, ¬ c.request.Modifies

theorem Written.trim (h : b.Written g cs) (hc : b.Trims g c) : b.Written g (cs ++ [c]) := by
  obtain ⟨early, trims, offset, n, rfl, hr, hearly, htrims⟩ := h
  refine ⟨early, trims ++ [c], offset, n, ?_, hr, hearly, ?_⟩
  · rw [List.append_assoc, List.cons_append]
  · exact List.forall_mem_append.mpr ⟨htrims, List.forall_mem_singleton.mpr hc⟩

theorem Sealed.spare (h : b.Sealed g cs) (hc : ¬ c.request.Modifies) : b.Sealed g (cs ++ [c]) := by
  obtain ⟨wrote, late, rfl, hw, hlate⟩ := h
  refine ⟨wrote, late ++ [c], ?_, hw, ?_⟩
  · rw [List.append_assoc, List.cons_append]
  · exact List.forall_mem_append.mpr ⟨hlate, List.forall_mem_singleton.mpr hc⟩

end Batch

/-- What the calls under a lease were, up to a phase. -/
def Phase.Sealing (g : Geometry) (cs : List Call) : Phase → Prop
  | .discarding b _ _ => b.Written g cs
  | .flushing b => b.Written g cs
  | .dropping b => b.Sealed g cs
  | .releasing b written => written = true → b.Sealed g cs
  | _ => ∀ c ∈ cs, ¬ c.request.Modifies

/-- The lease of a phase was the last that the worker was granted, and the calls since are what leads
to the phase. -/
def Phase.Tracked (g : Geometry) (k : Nat) (h : List (Nat × Deed)) (p : Phase) : Prop :=
  ∀ l, p.lease? = some l → ∃ cs, Deed.Since k h l cs ∧ p.Sealing g cs

/-- A batch that is written is on the device, and after the flush it is durable. -/
def Phase.Firm (c : Content) (g : Geometry) (x : Contents) : Phase → Prop
  | .discarding b _ _ => b.Stored c g x.live
  | .flushing b => b.Stored c g x.live
  | .dropping b => b.Stored c g x.live ∧ b.Stored c g x.durable
  | .releasing b written => written = true → b.Stored c g x.live ∧ b.Stored c g x.durable
  | _ => True

theorem Phase.Firm.leaves {c : Content} {g : Geometry} {x y : Contents} {p : Phase}
    {r : BlockRange} {call : Call} (h : p.Firm c g x) (hc : call.Leaves (g.Owns r) x y)
    (hq : call.request.Within (g.Owns r)) (hs : c.blockSize = g.blockSize)
    (hd : ∀ l, p.lease? = some l → ∀ b ∈ l.range.blocks, b ∉ r.blocks) : p.Firm c g y := by
  have live {b : Batch} (hl : p.lease? = some b.lease) (hb : b.Stored c g x.live) :
      b.Stored c g y.live := fun q hm =>
    hc.holds hq hs (hd _ hl _ (Batch.mem_blocks_of_tagged hm)) (hb q hm)
  have both {b : Batch} (hl : p.lease? = some b.lease)
      (hb : b.Stored c g x.live ∧ b.Stored c g x.durable) :
      b.Stored c g y.live ∧ b.Stored c g y.durable := by
    have keeps (q : Nat × Tag) (hm : q ∈ b.tagged) : c.Keeps g y q.1 q.2 :=
      hc.keeps hq hs (hd _ hl _ (Batch.mem_blocks_of_tagged hm)) ⟨hb.1 q hm, hb.2 q hm⟩
    exact ⟨fun q hm => (keeps q hm).1, fun q hm => (keeps q hm).2⟩
  cases p with
  | discarding b run rest => exact live rfl h
  | flushing b => exact live rfl h
  | dropping b => exact both rfl h
  | releasing b written => exact fun hw => both rfl (h hw)
  | _ => trivial

namespace Worker

variable {σ : Type} {dev : Device σ} {j : Job} {now : Instant} {w : Worker} {s : Shared} {d : σ}
  {t : Turn σ} {x y : Contents} {l : Lease}

def deed? (dev : Device σ) (j : Job) (w : Worker) (s : Shared) (d : σ) : Option Deed :=
  match w.act? j s with
  | some (.granted l) => some (.granted l)
  | some (.asked q) => w.phase.lease?.map fun l => .called l ⟨q, (dev.answer q d).1.map fun _ => ()⟩
  | some (.completed x) => some (.released x)
  | _ => none

theorem deed?_asks {q : Request} {reply : Except Failure q.Reply} {d' : σ}
    (ha : w.phase.Asks j.geometry l q) (h : dev.answer q d = (reply, d')) :
    w.deed? dev j s d = some (.called l ⟨q, reply.map fun _ => ()⟩) := by
  simp only [deed?, Does.act? (.ask ha.call?), ha.lease, Option.map_some, h]

theorem deed?_grant {lock : RangeLock} {source : Source} (hp : w.phase = .acquiring)
    (h : s.lock.tryCandidates RangeLock.attempts w.source = .ok (some (l, lock), source)) :
    w.deed? dev j s d = some (.granted l) := by
  simp only [deed?, Does.act? (.grant hp h)]

inductive Doing (dev : Device σ) (j : Job) (w : Worker) (s : Shared) (d : σ) : Deed → Prop
  | grant {l : Lease} {lock : RangeLock} {source : Source} (hp : w.phase = .acquiring)
      (h : s.lock.tryCandidates RangeLock.attempts w.source = .ok (some (l, lock), source)) :
      Doing dev j w s d (.granted l)
  | call {l : Lease} {q : Request} (ha : w.phase.Asks j.geometry l q) :
      Doing dev j w s d (.called l ⟨q, (dev.answer q d).1.map fun _ => ()⟩)
  | release {b : Batch} {written : Bool} {newly : Nat} {lock : RangeLock}
      (hp : w.phase = .releasing b written)
      (h : s.lock.release b.lease (newStates b written) b.outcome.verifiedBlocks =
        .ok (newly, lock)) : Doing dev j w s d (.released ⟨b, written, newly⟩)

theorem doing_of_deed? {a : Deed} (h : w.deed? dev j s d = some a) : Doing dev j w s d a := by
  cases ha : w.act? j s with
  | none =>
    rw [deed?, ha] at h
    cases h
  | some act =>
    rw [deed?, ha] at h
    cases does_of_act? ha with
    | grant hp hg =>
      cases h
      exact .grant hp hg
    | ask hq =>
      obtain ⟨l, hl⟩ := Phase.asks_of_call? hq
      rw [hl.lease] at h
      cases h
      exact .call hl
    | complete hp hr =>
      cases h
      exact .release hp hr
    | add hp => cases h

theorem leaves_of_quiet (hw : w.phase.call? j.geometry = none)
    (h : Deed.Leaves j.geometry x y (w.deed? dev j s d)) : y = x := by
  cases ha : w.deed? dev j s d with
  | none =>
    rw [ha] at h
    exact h
  | some a =>
    rw [ha] at h
    cases doing_of_deed? ha with
    | grant hp hg => exact h
    | call hq =>
      rw [hq.call?] at hw
      cases hw
    | release hp hr => exact h

theorem call?_of_ended {g : Geometry} (h : w.ended = true) : w.phase.call? g = none := by
  rcases phase_of_ended h with ⟨result, hp⟩ | ⟨f, hp⟩ <;> rw [hp] <;> rfl

theorem lease?_of_ended (h : w.ended = true) : w.phase.lease? = none := by
  rcases phase_of_ended h with ⟨result, hp⟩ | ⟨f, hp⟩ <;> rw [hp] <;> rfl

theorem discardNext_firm {b : Batch} (runs : List BlockRange)
    (h : b.Stored j.content j.geometry x.live) :
    (discardNext b runs).Firm j.content j.geometry x := by
  cases runs <;> exact h

theorem recordNext_firm (additions : List (Counter × UInt64)) :
    (recordNext additions).Firm j.content j.geometry x := by
  cases additions <;> trivial

theorem Prepared.firm {o : Outcome} (h : Prepared j w s d l o t) :
    t.worker.phase.Firm j.content j.geometry x := by
  cases h <;> trivial

/-- What a worker has written stays on the device, and is durable after its flush. -/
theorem Transition.firm (h : Transition dev j now w s d t)
    (hx : Deed.Leaves j.geometry x y (w.deed? dev j s d)) (hj : j.Sound) (hf : w.phase.Formed j)
    (hw : w.phase.Firm j.content j.geometry x) :
    t.worker.phase.Firm j.content j.geometry y := by
  have asked {l : Lease} {q : Request} {reply : Except Failure q.Reply} {d' : σ}
      (hq : w.phase.Asks j.geometry l q) (h : dev.answer q d = (reply, d')) :
      Call.Leaves (j.geometry.Owns l.range) ⟨q, reply.map fun _ => ()⟩ x y := by
    rwa [deed?_asks hq h] at hx
  cases h with
  | grantUnwritten hp h hu hn ht => exact ht.firm
  | unread hp hr h ht => exact ht.firm
  | compare hp hr h ho ht => exact ht.firm
  | write hp hr h =>
    have ha := asked (by rw [hp]; exact .write hr) h
    rw [hp] at hf
    exact discardNext_firm _ (hf.stored hj.blockSize hr ha.of_ok)
  | discard hp hr h =>
    have ha := asked (by rw [hp]; exact .discard hr) h
    rw [hp] at hf hw
    have hsame := Batch.Stored.discard hw hj.blockSize hf.1.length (hf.2 _ List.mem_cons_self) hr ha.of_ok
    exact discardNext_firm _ (hsame ▸ hw)
  | noDiscard hp hr h he =>
    have ha := asked (by rw [hp]; exact .discard hr) h
    rw [hp] at hw
    exact ha.of_harmless he ▸ hw
  | flush hp h =>
    obtain ⟨hl, hd⟩ := (asked (by rw [hp]; exact .flush) h).of_flush
    rw [hp] at hw
    exact ⟨hl ▸ hw, hd ▸ hw⟩
  -- The last call before the release is a hint, so it makes no difference whether it fails.
  | drop hp hr h hfault =>
    have ha := asked (by rw [hp]; exact .drop hr) h
    rw [hp] at hw
    exact fun _ => ha.of_invalidate ▸ hw
  | writeFailed hp hr h => exact nofun
  | discardFailed hp hr h he => exact nofun
  | flushFailed hp h => exact nofun
  | release hp h hr hn hfailed => exact recordNext_firm _
  | record hp => exact recordNext_firm _
  | retry hp h =>
    rw [leaves_of_quiet (by rw [hp]; rfl) hx]
    exact hw
  | idle hp =>
    rw [leaves_of_quiet (call?_of_ended hp) hx]
    exact hw
  | _ => trivial

theorem discardNext_sealing {g : Geometry} {b : Batch} {cs : List Call} (runs : List BlockRange)
    (h : b.Written g cs) : (discardNext b runs).Sealing g cs := by
  cases runs <;> exact h

theorem Prepared.sealing {g : Geometry} {o : Outcome} {cs : List Call}
    (h : Prepared j w s d l o t) (hcs : ∀ c ∈ cs, ¬ c.request.Modifies) :
    t.worker.phase.Sealing g cs := by
  cases h <;> exact hcs

theorem tracked_of_lease_free {g : Geometry} {k : Nat} {h : List (Nat × Deed)} {p : Phase}
    (hp : p.lease? = none) : p.Tracked g k h := by
  intro l hl
  rw [hp] at hl
  cases hl

/-- A worker makes the calls under its lease in order: it writes once, discards what is trimmed,
flushes, and changes nothing after that. -/
theorem Transition.tracked {k : Nat} {done : List (Nat × Deed)} (h : Transition dev j now w s d t)
    (hf : w.phase.Formed j) (hw : w.phase.Tracked j.geometry k done) :
    t.worker.phase.Tracked j.geometry k
      (done ++ ((w.deed? dev j s d).map (k, ·)).toList) := by
  have asked {l : Lease} {q : Request} {reply : Except Failure q.Reply} {d' : σ} {p : Phase}
      (hq : w.phase.Asks j.geometry l q) (h : dev.answer q d = (reply, d'))
      (hl : ∀ m, p.lease? = some m → m = l)
      (hp : ∀ cs, w.phase.Sealing j.geometry cs →
        p.Sealing j.geometry (cs ++ [⟨q, reply.map fun _ => ()⟩])) :
      p.Tracked j.geometry k (done ++ ((w.deed? dev j s d).map (k, ·)).toList) := by
    intro m hm
    obtain ⟨cs, hsince, hcs⟩ := hw l hq.lease
    rw [deed?_asks hq h, hl m hm]
    exact ⟨_, hsince.called l _, hp cs hcs⟩
  have spared {last : Call} {cs : List Call} (hcs : ∀ c ∈ cs, ¬ c.request.Modifies)
      (hlast : ¬ last.request.Modifies) : ∀ c ∈ cs ++ [last], ¬ c.request.Modifies :=
    List.forall_mem_append.mpr ⟨hcs, List.forall_mem_singleton.mpr hlast⟩
  cases h with
  | @grant l lock source hp h hu =>
    intro m hm
    cases hm
    rw [deed?_grant hp h]
    exact ⟨[], Deed.since_granted k done l, nofun⟩
  | @grantUnwritten l lock source n t hp h hu hn ht =>
    intro m hm
    rw [deed?_grant hp h, ht.lease.2.2 m hm]
    exact ⟨[], Deed.since_granted k done l, ht.sealing nofun⟩
  | invalidate hp hr h hfault =>
    refine asked (by rw [hp]; exact .invalidate hr) h (fun m hm => (Option.some.inj hm).symm) ?_
    rw [hp]
    exact fun cs hcs => spared hcs (by exact not_false)
  | unread hp hr h ht =>
    refine asked (by rw [hp]; exact .read hr) h ht.lease.2.2 ?_
    rw [hp]
    exact fun cs hcs => ht.sealing (spared hcs (by exact not_false))
  | compare hp hr h ho ht =>
    refine asked (by rw [hp]; exact .read hr) h ht.lease.2.2 ?_
    rw [hp]
    exact fun cs hcs => ht.sealing (spared hcs (by exact not_false))
  | write hp hr h =>
    refine asked (by rw [hp]; exact .write hr) h (fun m hm => ?_) ?_
    · exact (Option.some.inj ((discardNext_lease? _ _).symm.trans hm)).symm
    rw [hp]
    exact fun cs hcs => discardNext_sealing _ ⟨cs, [], _, _, rfl, hr, hcs, nofun⟩
  | writeFailed hp hr h =>
    exact asked (by rw [hp]; exact .write hr) h (fun m hm => (Option.some.inj hm).symm) nofun
  | discard hp hr h =>
    refine asked (by rw [hp]; exact .discard hr) h (fun m hm => ?_) ?_
    · exact (Option.some.inj ((discardNext_lease? _ _).symm.trans hm)).symm
    rw [hp] at hf ⊢
    obtain ⟨hlt, hblocks⟩ := hf.1.mem_run (hf.2 _ List.mem_cons_self)
    exact fun cs hcs =>
      discardNext_sealing _ (Batch.Written.trim hcs ⟨_, _, _, rfl, hr, hlt, hblocks, .inl rfl⟩)
  | noDiscard hp hr h he =>
    refine asked (by rw [hp]; exact .discard hr) h (fun m hm => (Option.some.inj hm).symm) ?_
    rw [hp] at hf ⊢
    obtain ⟨hlt, hblocks⟩ := hf.1.mem_run (hf.2 _ List.mem_cons_self)
    exact fun cs hcs =>
      Batch.Written.trim hcs ⟨_, _, _, rfl, hr, hlt, hblocks, .inr ⟨_, rfl, he⟩⟩
  | discardFailed hp hr h he =>
    exact asked (by rw [hp]; exact .discard hr) h (fun m hm => (Option.some.inj hm).symm) nofun
  | flush hp h =>
    refine asked (by rw [hp]; exact .flush) h (fun m hm => (Option.some.inj hm).symm) ?_
    rw [hp]
    exact fun cs hcs => ⟨cs, [], rfl, hcs, nofun⟩
  | flushFailed hp h =>
    exact asked (by rw [hp]; exact .flush) h (fun m hm => (Option.some.inj hm).symm) nofun
  | drop hp hr h hfault =>
    refine asked (by rw [hp]; exact .drop hr) h (fun m hm => (Option.some.inj hm).symm) ?_
    rw [hp]
    exact fun cs hcs _ => Batch.Sealed.spare hcs not_false
  | release hp h hr hn hfailed => exact tracked_of_lease_free (recordNext_lease? _)
  | record hp => exact tracked_of_lease_free (recordNext_lease? _)
  | retry hp h => exact tracked_of_lease_free (by simp only [Turn.quiet, hp]; rfl)
  | idle hp => exact tracked_of_lease_free (lease?_of_ended hp)
  | _ => exact tracked_of_lease_free rfl

end Worker

end Readback
