import Readback.Proofs.Device.Contract
import Readback.Proofs.Outcome.Compare
import Readback.Proofs.RangeLock.Lock
import Readback.Proofs.Worker.Batch

namespace Readback

variable {σ : Type} {dev : Device σ} {j : Job} {now : Instant} {w : Worker} {s : Shared} {d : σ}
  {t : Worker.Turn σ}

/-- The blocks of a job are of one size, and small enough to be made in memory. -/
structure Job.Sound (j : Job) : Prop where
  blockSize : j.content.blockSize = j.geometry.blockSize
  small : j.content.blockSize < Bytes.limit
  nBlocks : 0 < j.geometry.nBlocks

/-- The batch of a phase is well composed, and only runs of its trimmed blocks are discarded. -/
def Phase.Formed (j : Job) : Phase → Prop
  | .writing b => b.Composed j
  | .discarding b run rest => b.Composed j ∧ ∀ r ∈ run :: rest, r ∈ Worker.trimmedRuns b.range b.tags
  | .flushing b => b.Composed j
  | .dropping b => b.Composed j
  | .releasing b _ => b.Composed j
  | _ => True

/-- How one step moves a lease: not at all, out of the lock, or back into it. -/
inductive Phase.Handles (k : RangeLock) (p p' : Phase) (k' : RangeLock) : Prop
  | keep (hk : k' = k) (hl : ∀ l, p'.lease? = some l → p.lease? = some l)
  | grant {l : Lease} (hp : p = .acquiring) (hg : k.Granted l k')
      (hl : ∀ m, p'.lease? = some m → m = l)
  | release {b : Batch} {written : Bool} {newly : Nat} (hp : p = .releasing b written)
      (h : k.release b.lease (Worker.newStates b written) b.outcome.verifiedBlocks =
        .ok (newly, k'))
      (hr : k.Released b.lease (Worker.newStates b written) k') (hl : p'.lease? = none)

namespace Worker

theorem recordNext_lease? (additions : List (Counter × UInt64)) :
    (recordNext additions).lease? = none := by
  cases additions <;> rfl

theorem recordNext_formed (additions : List (Counter × UInt64)) :
    (recordNext additions).Formed j := by
  cases additions <;> trivial

theorem discardNext_lease? (b : Batch) (runs : List BlockRange) :
    (discardNext b runs).lease? = some b.lease := by
  cases runs <;> rfl

theorem discardNext_formed {b : Batch} {runs : List BlockRange} (hb : b.Composed j)
    (hr : ∀ r ∈ runs, r ∈ trimmedRuns b.range b.tags) : (discardNext b runs).Formed j := by
  cases runs with
  | nil => exact hb
  | cons run rest => exact ⟨hb, hr⟩

theorem Prepared.formed {l : Lease} {o : Outcome} (h : Prepared j w s d l o t)
    (ho : ∀ b ∈ o.verifiedBlocks, b ∈ l.range.blocks) : t.worker.phase.Formed j := by
  cases h with
  | ready h => exact Batch.Composed.of_compose h ho
  | fault h => trivial

theorem judge_block {c : Content} {g : Geometry} {actual : ByteArray} {block : Nat}
    {prior : BlockState} {v : Verdict} (h : Outcome.judge c g actual block prior = .ok v)
    {p : Nat × Tag} (hv : v.matched? = some p) : p.1 = block := by
  unfold Outcome.judge at h
  cases prior with
  | none =>
    cases h
    cases hv
  | some tag =>
    obtain ⟨offset, -, h⟩ := bind_eq_ok h
    obtain ⟨expected, -, h⟩ := bind_eq_ok h
    cases h
    rw [Outcome.matched?_compare hv]

theorem judgeAll_blocks {c : Content} {g : Geometry} {bytes : ByteArray} {i : Nat}
    {l : List (Nat × BlockState)} {vs : List Verdict}
    (h : Outcome.judgeAll c g bytes i l = .ok vs) {p : Nat × Tag}
    (hp : p ∈ vs.filterMap Verdict.matched?) : p.1 ∈ l.map Prod.fst := by
  induction l generalizing i vs with
  | nil =>
    cases h
    cases hp
  | cons q rest ih =>
    obtain ⟨block, prior⟩ := q
    obtain ⟨v, hj, h⟩ := bind_eq_ok h
    obtain ⟨us, hr, h⟩ := bind_eq_ok h
    cases h
    obtain ⟨u, hu, he⟩ := List.mem_filterMap.mp hp
    rcases List.mem_cons.mp hu with rfl | hu
    · rw [judge_block hj he]
      exact List.mem_cons_self
    · exact List.mem_cons_of_mem _ (ih hr (List.mem_filterMap.mpr ⟨u, hu, he⟩))

theorem ofBytes_verified {c : Content} {g : Geometry} {l : Lease} {bytes : ByteArray} {o : Outcome}
    (h : Outcome.ofBytes c g l bytes = .ok o) : ∀ b ∈ o.verifiedBlocks, b ∈ l.range.blocks := by
  intro b hb
  obtain ⟨vs, hj, rfl⟩ := map_eq_ok h
  obtain ⟨p, hp, rfl⟩ := List.mem_map.mp hb
  obtain ⟨q, hq, he⟩ := List.mem_map.mp (judgeAll_blocks hj hp)
  rw [← he]
  exact (List.of_mem_zip hq).1

theorem Transition.formed (h : Transition dev j now w s d t) (hw : w.phase.Formed j) :
    t.worker.phase.Formed j := by
  cases h with
  | grantUnwritten hp h hu hn ht => exact ht.formed nofun
  | unread hp hr h ht => exact ht.formed nofun
  | compare hp hr h ho ht => exact ht.formed (ofBytes_verified ho)
  | write hp hr h =>
    rw [hp] at hw
    exact discardNext_formed hw fun _ h => h
  | writeFailed hp hr h =>
    rw [hp] at hw
    exact hw
  | discard hp hr h =>
    rw [hp] at hw
    exact discardNext_formed hw.1 fun r hr => hw.2 r (List.mem_cons_of_mem _ hr)
  | noDiscard hp hr h he =>
    rw [hp] at hw
    exact hw.1
  | discardFailed hp hr h he =>
    rw [hp] at hw
    exact hw.1
  | flush hp h =>
    rw [hp] at hw
    exact hw
  | flushFailed hp h =>
    rw [hp] at hw
    exact hw
  | drop hp hr h hf =>
    rw [hp] at hw
    exact hw
  | release hp h hr hn hf => exact recordNext_formed _
  | record hp => exact recordNext_formed _
  | idle hp => exact hw
  | retry hp h =>
    show w.phase.Formed j
    exact hw
  | _ => trivial

theorem Prepared.lease {l : Lease} {o : Outcome} (h : Prepared j w s d l o t) :
    t.shared = s ∧ t.device = d ∧ ∀ m, t.worker.phase.lease? = some m → m = l := by
  cases h with
  | ready h => exact ⟨rfl, rfl, fun m hm => (Option.some.inj hm).symm⟩
  | fault h => exact ⟨rfl, rfl, nofun⟩

theorem Prepared.keeps {l : Lease} {o : Outcome} (h : Prepared j w s d l o t)
    (hl : w.phase.lease? = some l) : w.phase.Handles s.lock t.worker.phase t.shared.lock := by
  obtain ⟨hs, -, hm⟩ := h.lease
  exact .keep (congrArg Shared.lock hs) fun m h => hm m h ▸ hl

theorem Prepared.grants {l : Lease} {k : RangeLock} {o : Outcome} {p : Phase}
    (h : Prepared j w s d l o t) (hk : k.Granted l s.lock) (hp : p = .acquiring) :
    p.Handles k t.worker.phase t.shared.lock := by
  obtain ⟨hs, -, hm⟩ := h.lease
  exact .grant hp (hs ▸ hk) hm

theorem granted_of_tryCandidates {k k' : RangeLock} {l : Lease} {source source' : Source}
    (hk : k.Sound)
    (h : k.tryCandidates RangeLock.attempts source = .ok (some (l, k'), source')) :
    k.Granted l k' := by
  rcases hk.tryCandidates RangeLock.attempts source with he | ⟨s', he⟩ | ⟨l', k'', s', he, hg⟩
  · rw [h] at he
    cases he
  · rw [h] at he
    cases he
  · rw [h] at he
    cases he
    exact hg

/-- A step leaves the lock alone, or grants a lease to a worker that had none, or takes the lease
of the worker back. -/
theorem Transition.handles (h : Transition dev j now w s d t) (hk : s.lock.Sound)
    (hl : ∀ l, w.phase.lease? = some l → l.range ∈ s.lock.active) :
    w.phase.Handles s.lock t.worker.phase t.shared.lock := by
  cases h with
  | stop hp hr => exact .keep rfl nofun
  | enter hp hr => exact .keep rfl nofun
  | retry hp h => exact .keep rfl fun l h => h
  | grant hp h hw =>
    exact .grant hp (granted_of_tryCandidates hk h) fun m hm => (Option.some.inj hm).symm
  | grantUnwritten hp h hw hn ht => exact ht.grants (granted_of_tryCandidates hk h) hp
  | invalidate hp hr h hf => exact .keep rfl (by rw [hp]; exact fun m hm => hm)
  | unread hp hr h ht => exact ht.keeps (by rw [hp]; rfl)
  | compare hp hr h ho ht => exact ht.keeps (by rw [hp]; rfl)
  | write hp hr h =>
    rw [hp]
    exact .keep rfl fun m hm => (discardNext_lease? _ _).symm.trans hm
  | writeFailed hp hr h => exact .keep rfl (by rw [hp]; exact fun m hm => hm)
  | discard hp hr h =>
    rw [hp]
    exact .keep rfl fun m hm => (discardNext_lease? _ _).symm.trans hm
  | noDiscard hp hr h he => exact .keep rfl (by rw [hp]; exact fun m hm => hm)
  | discardFailed hp hr h he => exact .keep rfl (by rw [hp]; exact fun m hm => hm)
  | flush hp h => exact .keep rfl (by rw [hp]; exact fun m hm => hm)
  | flushFailed hp h => exact .keep rfl (by rw [hp]; exact fun m hm => hm)
  | drop hp hr h hf => exact .keep rfl (by rw [hp]; exact fun m hm => hm)
  | @release b written newly lock offset bytes n failed hp h hr hn hf =>
    have hm := hl b.lease (by rw [hp]; rfl)
    exact .release hp h (hk.released (hk.active.proper _ hm).1 h) (recordNext_lease? _)
  | refuse hp h => exact .keep rfl nofun
  | record hp =>
    exact .keep rfl fun m hm => absurd ((recordNext_lease? _).symm.trans hm) nofun
  | due hp hd => exact .keep rfl nofun
  | early hp hd => exact .keep rfl nofun
  | sample hp => exact .keep rfl nofun
  | report hp hr => exact .keep rfl nofun
  | silent hp hr => exact .keep rfl nofun
  | check hp => exact .keep rfl nofun
  | checked hp => exact .keep rfl nofun
  | judge hp hr => exact .keep rfl nofun
  | pass hp hr => exact .keep rfl nofun
  | give hp => exact .keep rfl nofun
  | raise hp => exact .keep rfl nofun
  | abort hp => exact .keep rfl nofun
  | idle hp => exact .keep rfl fun l h => h
  | crash hd hf => exact .keep rfl nofun
  | crashGranted hp h hl => exact .grant hp (granted_of_tryCandidates hk h) nofun
  | @crashRecorded b written newly lock f hp h hf =>
    have hm := hl b.lease (by rw [hp]; rfl)
    exact .release hp h (hk.released (hk.active.proper _ hm).1 h) rfl

theorem Transition.answered (h : Transition dev j now w s d t) : Answered dev j w d t.device := by
  cases h with
  | grantUnwritten hp h hw hn ht => exact .inl ht.lease.2.1
  | invalidate hp hr h hf => exact .inr ⟨_, _, _, by rw [hp]; exact .invalidate hr, h⟩
  | unread hp hr h ht =>
    exact .inr ⟨_, _, _, by rw [hp]; exact .read hr, h.trans (by rw [ht.lease.2.1])⟩
  | compare hp hr h ho ht =>
    exact .inr ⟨_, _, _, by rw [hp]; exact .read hr, h.trans (by rw [ht.lease.2.1])⟩
  | write hp hr h => exact .inr ⟨_, _, _, by rw [hp]; exact .write hr, h⟩
  | writeFailed hp hr h => exact .inr ⟨_, _, _, by rw [hp]; exact .write hr, h⟩
  | discard hp hr h => exact .inr ⟨_, _, _, by rw [hp]; exact .discard hr, h⟩
  | noDiscard hp hr h he => exact .inr ⟨_, _, _, by rw [hp]; exact .discard hr, h⟩
  | discardFailed hp hr h he => exact .inr ⟨_, _, _, by rw [hp]; exact .discard hr, h⟩
  | flush hp h => exact .inr ⟨_, _, _, by rw [hp]; exact .flush, h⟩
  | flushFailed hp h => exact .inr ⟨_, _, _, by rw [hp]; exact .flush, h⟩
  | drop hp hr h hf => exact .inr ⟨_, _, _, by rw [hp]; exact .drop hr, h⟩
  | crash hd hf => exact hd
  | _ => exact .inl rfl

/-- What holds of a device in whatever way it answers holds of it after a step. -/
theorem Transition.device_induction {P : σ → Prop} (h : Transition dev j now w s d t) (hd : P d)
    (ha : ∀ q reply d', dev.answer q d = (reply, d') → P d') : P t.device := by
  rcases h.answered with he | ⟨l, q, reply, -, he⟩
  · rw [he]
    exact hd
  · exact ha q reply _ he

end Worker

/-- A worker asks the device about bytes of its own lease only. -/
theorem Phase.Asks.within {p : Phase} {l : Lease} {q : Request} (h : p.Asks j.geometry l q)
    (hf : p.Formed j) (hs : j.content.blockSize = j.geometry.blockSize) :
    q.Within (j.geometry.Owns l.range) := by
  cases h with
  | invalidate hr => exact fun i hi => hi.elim
  | read hr =>
    intro i hi
    obtain ⟨rfl, rfl, hle⟩ := Geometry.rangeBytes_eq hr
    have hadd := Geometry.add_length_mul hle j.geometry.blockSize
    exact ⟨Nat.le_add_right _ _, by omega⟩
  | @write b offset n hr =>
    intro i hi
    obtain ⟨rfl, -, hle⟩ := Geometry.rangeBytes_eq hr
    have hadd := Geometry.add_length_mul hle j.geometry.blockSize
    obtain ⟨h₁, h₂⟩ := hi
    rw [Batch.Composed.size_data hf, hs, hadd] at h₂
    exact ⟨h₁, h₂⟩
  | @discard b run rest offset n hr =>
    intro i hi
    obtain ⟨rfl, rfl, hle⟩ := Geometry.rangeBytes_eq hr
    have hadd := Geometry.add_length_mul hle j.geometry.blockSize
    obtain ⟨h₁, h₂⟩ := hi
    rw [hadd] at h₂
    obtain ⟨hstart, hstop⟩ := hf.1.run_within (hf.2 run List.mem_cons_self)
    exact ⟨Nat.le_trans (Nat.mul_le_mul_right _ hstart) h₁,
      Nat.lt_of_lt_of_le h₂ (Nat.mul_le_mul_right _ hstop)⟩
  | flush => exact fun i hi => hi.elim
  | drop hr => exact fun i hi => hi.elim

end Readback
