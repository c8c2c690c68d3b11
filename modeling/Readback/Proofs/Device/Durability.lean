import Readback.Proofs.Content
import Readback.Proofs.Device.Contract

namespace Readback

structure Call where
  request : Request
  result : Except Failure Unit

/-- What a device holds in each byte, and what it would hold after a crash. -/
@[ext]
structure Contents where
  live : Nat → UInt8
  durable : Nat → UInt8

namespace Request

def Modifies : Request → Prop
  | .write .. => True
  | .discard .. => True
  | _ => False

/-- The failures that leave every byte alone: of what is a hint only, and of a discard that the
device cannot do. -/
def Harmless : Request → Failure → Prop
  | .invalidate .., _ => True
  | .discard .., .error e => e.kind = .unsupported
  | _, _ => False

end Request

/-- What a call may leave behind, if `own` are the bytes of the lease that it is made under: after a
flush all is durable that the device holds, what is written or discarded may not be durable before,
and a failure may spoil the bytes of the lease. -/
inductive Call.Leaves (own : Nat → Prop) (c : Call) (x y : Contents) : Prop
  | flushed (hc : c = ⟨.flush, .ok ()⟩) (hl : y.live = x.live) (hd : y.durable = x.live)
  | done (hc : c.result = .ok ()) (hq : c.request ≠ .flush)
      (hl : ∀ i, y.live i = c.request.effect x.live i)
      (hd : ∀ i, ¬ c.request.Touches i → y.durable i = x.durable i)
  | spared {f : Failure} (hc : c.result = .error f) (hf : c.request.Harmless f) (hx : y = x)
  | spoilt {f : Failure} (hc : c.result = .error f) (hf : ¬ c.request.Harmless f)
      (hl : ∀ i, ¬ own i → y.live i = x.live i) (hd : ∀ i, ¬ own i → y.durable i = x.durable i)

/-- The content of a block is there, and would be there after a crash. -/
def Content.Keeps (c : Content) (g : Geometry) (x : Contents) (b : Nat) (t : Tag) : Prop :=
  c.Holds g x.live b t ∧ c.Holds g x.durable b t

namespace Call.Leaves

variable {own : Nat → Prop} {c : Call} {q : Request} {f : Failure} {x y : Contents}

theorem exists_leaves (own : Nat → Prop) (c : Call) (x : Contents) : ∃ y, c.Leaves own x y := by
  obtain ⟨q, result⟩ := c
  cases result with
  | error f =>
    by_cases hf : q.Harmless f
    · exact ⟨x, .spared rfl hf rfl⟩
    · exact ⟨x, .spoilt rfl hf (fun _ _ => rfl) fun _ _ => rfl⟩
  | ok u =>
    by_cases hq : q = .flush
    · exact ⟨⟨x.live, x.live⟩, .flushed (by rw [hq]) rfl rfl⟩
    · exact ⟨⟨q.effect x.live, x.durable⟩, .done rfl hq (fun _ => rfl) fun _ _ => rfl⟩

theorem of_ok (h : Leaves own ⟨q, .ok ()⟩ x y) : ∀ i, y.live i = q.effect x.live i := by
  cases h with
  | flushed hc hl hd =>
    cases hc
    exact fun i => congrFun hl i
  | done hc hq hl hd => exact hl
  | spared hc hf hx => cases hc
  | spoilt hc hf hl hd => cases hc

theorem of_flush (h : Leaves own ⟨.flush, .ok ()⟩ x y) : y.live = x.live ∧ y.durable = x.live := by
  cases h with
  | flushed hc hl hd => exact ⟨hl, hd⟩
  | done hc hq hl hd => exact absurd rfl hq
  | spared hc hf hx => cases hc
  | spoilt hc hf hl hd => cases hc

theorem of_harmless (h : Leaves own ⟨q, .error f⟩ x y) (hf : q.Harmless f) : y = x := by
  cases h with
  | flushed hc hl hd => cases hc
  | done hc hq hl hd => cases hc
  | spared hc hf' hx => exact hx
  | spoilt hc hf' hl hd =>
    cases hc
    exact absurd hf hf'

theorem of_invalidate {offset n : Nat} {result : Except Failure Unit}
    (h : Leaves own ⟨.invalidate offset n, result⟩ x y) : y = x := by
  cases result with
  | error f => exact h.of_harmless trivial
  | ok u =>
    cases h with
    | flushed hc hl hd => cases hc
    | done hc hq hl hd => exact Contents.ext (funext hl) (funext fun i => hd i not_false)
    | spared hc hf hx => cases hc
    | spoilt hc hf hl hd => cases hc

theorem live_eq (h : c.Leaves own x y) (hq : c.request.Within own) {i : Nat} (hi : ¬ own i) :
    y.live i = x.live i := by
  cases h with
  | flushed hc hl hd => exact congrFun hl i
  | done hc hne hl hd => exact (hl i).trans (Request.effect_of_not_touches fun ht => hi (hq.touches ht))
  | spared hc hf hx => rw [hx]
  | spoilt hc hf hl hd => exact hl i hi

theorem durable_eq (h : c.Leaves own x y) (hq : c.request.Within own) :
    (∀ i, ¬ own i → y.durable i = x.durable i) ∨ y.durable = x.live := by
  cases h with
  | flushed hc hl hd => exact .inr hd
  | done hc hne hl hd => exact .inl fun i hi => hd i fun ht => hi (hq.touches ht)
  | spared hc hf hx => exact .inl fun i _ => by rw [hx]
  | spoilt hc hf hl hd => exact .inl hd

variable {k : Content} {g : Geometry} {r : BlockRange} {b : Nat} {t : Tag}

theorem holds (h : c.Leaves (g.Owns r) x y) (hq : c.request.Within (g.Owns r))
    (hs : k.blockSize = g.blockSize) (hb : b ∉ r.blocks) (hx : k.Holds g x.live b t) :
    k.Holds g y.live b t :=
  hx.frame hs hb fun _ hi => h.live_eq hq hi

/-- A block keeps its content while calls are made under leases of other blocks. -/
theorem keeps (h : c.Leaves (g.Owns r) x y) (hq : c.request.Within (g.Owns r))
    (hs : k.blockSize = g.blockSize) (hb : b ∉ r.blocks) (hx : k.Keeps g x b t) :
    k.Keeps g y b t := by
  refine ⟨h.holds hq hs hb hx.1, ?_⟩
  rcases h.durable_eq hq with hd | hd
  · exact hx.2.frame hs hb hd
  · rw [hd]
    exact hx.1

end Call.Leaves

end Readback
