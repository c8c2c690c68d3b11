import Readback.Bytes
import Readback.Device

namespace Readback.Request

def Touches : Request → Nat → Prop
  | .write offset data, i => offset ≤ i ∧ i < offset + data.size
  | .discard offset n, i => offset ≤ i ∧ i < offset + n
  | _, _ => False

def Spans : Request → Nat → Prop
  | .read offset n, i => offset ≤ i ∧ i < offset + n
  | .write offset data, i => offset ≤ i ∧ i < offset + data.size
  | .invalidate offset n, i => offset ≤ i ∧ i < offset + n
  | .discard offset n, i => offset ≤ i ∧ i < offset + n
  | .flush, _ => False

def Fits (size : Nat) : Request → Prop
  | .read offset n => offset + n ≤ size
  | .write offset data => offset + data.size ≤ size
  | .invalidate offset n => offset + n ≤ size
  | .discard offset n => offset + n ≤ size
  | .flush => True

/-- The bytes that a request is to change or to give are among those in `own`. -/
def Within (own : Nat → Prop) : Request → Prop
  | .read offset n => ∀ i < n, own (offset + i)
  | q => ∀ i, q.Touches i → own i

/-- What a request that succeeds leaves in each byte. -/
def effect (before : Nat → UInt8) : Request → Nat → UInt8
  | .write offset data, i =>
    if offset ≤ i ∧ i < offset + data.size then Bytes.byteAt data (i - offset) else before i
  | .discard offset n, i => if offset ≤ i ∧ i < offset + n then 0 else before i
  | _, i => before i

def Gives (before : Nat → UInt8) : (q : Request) → q.Reply → Prop
  | .read offset n, bytes => ∀ i < n, Bytes.byteAt bytes.1 i = before (offset + i)
  | .write .., _ => True
  | .invalidate .., _ => True
  | .discard .., _ => True
  | .flush, _ => True

/-- Whether a request that fails with an error leaves every byte alone. -/
def Spares : Request → Error → Prop
  | .read .., _ => True
  | .invalidate .., _ => True
  | .discard .., e => e.kind = .unsupported
  | .write .., _ => False
  | .flush, _ => False

/-- What a device may answer and do to its bytes, if `own` are those that a failure may spoil. -/
inductive MayAnswer (own : Nat → Prop) (before after : Nat → UInt8) (q : Request) :
    Except Failure q.Reply → Prop
  | done {reply : q.Reply} (hb : ∀ i, after i = q.effect before i) (hr : q.Gives before reply) :
      MayAnswer own before after q (.ok reply)
  | failed {e : Error} (hb : ∀ i, (own i → q.Spares e) → after i = before i) :
      MayAnswer own before after q (.error (.error e))
  | broke {f : Fault} (hb : ∀ i, ¬ own i → after i = before i) :
      MayAnswer own before after q (.error (.fault f))

variable {own : Nat → Prop} {before after : Nat → UInt8} {q : Request}

theorem Touches.spans {i : Nat} (h : q.Touches i) : q.Spans i := by
  cases q with
  | write offset data => exact h
  | discard offset n => exact h
  | _ => exact h.elim

theorem Within.touches (h : q.Within own) {i : Nat} (hi : q.Touches i) : own i := by
  cases q with
  | read offset n => exact hi.elim
  | _ => exact h i hi

theorem effect_of_not_touches {i : Nat} (h : ¬ q.Touches i) : q.effect before i = before i := by
  cases q with
  | write offset data => exact if_neg h
  | discard offset n => exact if_neg h
  | read offset n => rfl
  | invalidate offset n => rfl
  | flush => rfl

/-- Whatever the answer is, only bytes that may be spoilt or are to be changed do change. -/
theorem MayAnswer.frame {reply : Except Failure q.Reply} (h : q.MayAnswer own before after reply)
    (hq : q.Within own) {i : Nat} (hi : ¬ own i) : after i = before i := by
  cases h with
  | done hb hr => exact (hb i).trans (effect_of_not_touches fun ht => hi (hq.touches ht))
  | failed hb => exact hb i fun ho => absurd ho hi
  | broke hb => exact hb i hi

theorem MayAnswer.spared {e : Error} (h : q.MayAnswer own before after (.error (.error e)))
    (he : q.Spares e) : after = before := by
  cases h with
  | failed hb => exact funext fun i => hb i fun _ => he

theorem MayAnswer.untouched {reply : q.Reply} (h : q.MayAnswer own before after (.ok reply))
    (hq : ∀ i, ¬ q.Touches i) : after = before := by
  cases h with
  | done hb hr => exact funext fun i => (hb i).trans (effect_of_not_touches (hq i))

theorem MayAnswer.invalidated {offset n : Nat}
    {reply : Except Failure (Reply (.invalidate offset n))}
    (h : (Request.invalidate offset n).MayAnswer own before after reply)
    (hf : ∀ f, reply ≠ .error (.fault f)) : after = before := by
  cases h with
  | done hb hr => exact funext hb
  | failed hb => exact funext fun i => hb i fun _ => trivial
  | broke hb => exact absurd rfl (hf _)

end Readback.Request
