import Readback.Device.Memory
import Readback.Proofs.Device.Contract
import Readback.Proofs.Extent

namespace Readback.Memory

def byte (m : Memory) (i : Nat) : UInt8 :=
  m.content.pages.byteAt i

/-- Pages are of full size, and there is one for every byte of the device. -/
structure Sound (m : Memory) : Prop where
  pages : m.content.pages.Sound
  room : m.size ≤ Pages.span 51

theorem sound_of_make {n : Nat} {m : Memory} (h : make n = .ok m) : m.Sound := by
  unfold make at h
  split at h
  · rename_i hn
    cases h
    exact ⟨trivial, Nat.le_of_lt hn⟩
  · cases h

theorem byteAt_bytes {m : Memory} {i : Nat} (h : i < m.size) :
    Bytes.byteAt m.bytes i = m.byte i := by
  have h : i < m.content.size := h
  rw [bytes, Extent.toBytes, Extent.read, Pages.byteAt_read, if_pos h, Nat.zero_add]
  rfl

theorem size_bytes (m : Memory) : m.bytes.size = m.size :=
  m.content.size_read 0 m.content.size

theorem ext_bytes {m : Memory} {bytes : ByteArray} (hs : bytes.size = m.size)
    (hb : ∀ i < m.size, m.byte i = Bytes.byteAt bytes i) : m.bytes = bytes := by
  refine Bytes.ext_byteAt (m.size_bytes.trans hs.symm) fun i hi => ?_
  rw [size_bytes] at hi
  rw [byteAt_bytes hi, hb i hi]

theorem byteAt_stored (m : Memory) (offset n i : Nat) :
    Bytes.byteAt (m.content.read offset n) i = if i < n then m.byte (offset + i) else 0 :=
  Pages.byteAt_read _ _ _ _

theorem byteAt_invertFirst {bytes : ByteArray} {i : Nat} (hi : i < bytes.size) :
    Bytes.byteAt (invertFirst bytes) i =
      if i = 0 then ~~~ Bytes.byteAt bytes i else Bytes.byteAt bytes i := by
  have h0 : 0 < bytes.size := Nat.zero_lt_of_lt hi
  have hi' : i < bytes.data.size := hi
  rw [invertFirst, dif_pos h0, Bytes.byteAt_eq, Bytes.byteAt_eq_getElem hi]
  simp only [ByteArray.set, Array.getElem?_set, Array.getElem?_eq_getElem hi']
  by_cases h : i = 0
  · subst h
    rfl
  · rw [if_neg (Ne.symm h), if_neg h]
    rfl

theorem size_invert (bytes : ByteArray) : (invert bytes).size = bytes.size := by
  simp only [invert, ByteArray.size, Array.size_map]

theorem answer_ne_fault (q : Request) (m : Memory) (f : Fault) (m' : Memory) :
    device.answer q m ≠ (.error (.fault f), m') := by
  have hkeep (x : Except Error Memory) : m.orKeep x ≠ (.error (.fault f), m') := by
    cases x <;> simp [orKeep]
  cases q with
  | read offset n =>
    show ((m.read offset n).mapError Failure.error, m) ≠ _
    cases m.read offset n with
    | ok bytes => nofun
    | error e => nofun
  | write offset data => exact hkeep _
  | invalidate offset n => exact hkeep _
  | discard offset n => exact hkeep _
  | flush => exact hkeep _

structure Alike (m m' : Memory) : Prop where
  size : m.size = m'.size
  failReads : m.failReads = m'.failReads
  failWrites : m.failWrites = m'.failWrites
  corruptReads : m.corruptReads = m'.corruptReads
  discardUnsupported : m.discardUnsupported = m'.discardUnsupported

theorem Alike.refl (m : Memory) : m.Alike m :=
  ⟨rfl, rfl, rfl, rfl, rfl⟩

theorem Alike.symm {m m' : Memory} (h : m.Alike m') : m'.Alike m :=
  ⟨h.size.symm, h.failReads.symm, h.failWrites.symm, h.corruptReads.symm,
    h.discardUnsupported.symm⟩

theorem Alike.trans {m m' m'' : Memory} (h : m.Alike m') (h' : m'.Alike m'') : m.Alike m'' :=
  ⟨h.size.trans h'.size, h.failReads.trans h'.failReads, h.failWrites.trans h'.failWrites,
    h.corruptReads.trans h'.corruptReads, h.discardUnsupported.trans h'.discardUnsupported⟩

def on (m : Memory) : Switch → Bool
  | .failReads => m.failReads
  | .failWrites => m.failWrites
  | .corruptReads => m.corruptReads
  | .discardUnsupported => m.discardUnsupported

theorem on_set (m : Memory) (s : Switch) (b : Bool) :
    (m.set s b).on = fun s' => if s' = s then b else m.on s' := by
  funext s'
  cases s <;> cases s' <;> rfl

theorem Alike.on {m m' : Memory} (h : m.Alike m') : m.on = m'.on := by
  funext s
  cases s with
  | failReads => exact h.failReads
  | failWrites => exact h.failWrites
  | corruptReads => exact h.corruptReads
  | discardUnsupported => exact h.discardUnsupported

def Switch.Allow (on : Switch → Bool) : Request → Prop
  | .read .. => on .failReads = false
  | .write .. => on .failWrites = false
  | .invalidate .. => True
  | .discard .. => on .discardUnsupported = false
  | .flush => on .failWrites = false

variable {m m' : Memory} {q : Request}

theorem Sound.lt_limit (hm : m.Sound) : m.size < Word.limit :=
  Nat.lt_of_le_of_lt hm.room (by decide)

theorem Sound.spans_iff (hm : m.Sound) {offset n : Nat} :
    m.spans offset n = true ↔ offset + n ≤ m.size := by
  unfold spans Word.add
  by_cases h : offset + n < Word.limit
  · rw [if_pos h]
    exact decide_eq_true_iff
  · rw [if_neg h]
    exact iff_of_false nofun fun hle => h (Nat.lt_of_le_of_lt hle hm.lt_limit)

/-- A request is refused for a reason, or has its effect. -/
inductive Answers (m : Memory) (q : Request) : Except Failure q.Reply × Memory → Prop
  | refused (e : Error) (hn : ¬ (Switch.Allow m.on q ∧ q.Fits m.size)) :
      Answers m q (.error (.error e), m)
  | done {reply : q.Reply} {m' : Memory} (hs : m'.Sound) (ha : m'.Alike m)
      (hb : ∀ i, m'.byte i = q.effect m.byte i)
      (hg : m.corruptReads = false → q.Gives m.byte reply)
      (hq : Switch.Allow m.on q ∧ q.Fits m.size) : Answers m q (.ok reply, m')

theorem Sound.answers (hm : m.Sound) (q : Request) : m.Answers q (m.answer q) := by
  cases q with
  | read offset n =>
    have hgives : Request.Gives m.byte (.read offset n) ⟨_, m.content.size_read offset n⟩ :=
      fun i hi => (byteAt_stored m offset n i).trans (if_pos hi)
    simp only [Memory.answer, Memory.read]
    split
    · rename_i hs
      exact .refused _ fun hq => absurd (hs.symm.trans hq.1) nofun
    split
    · rename_i hs hin
      have hq := And.intro (eq_false_of_ne_true hs) (hm.spans_iff.mp hin)
      cases hc : m.corruptReads with
      | true =>
        exact .done hm (.refl m) (fun i => rfl) (fun hn => absurd (hc.symm.trans hn) nofun) hq
      | false => exact .done hm (.refl m) (fun i => rfl) (fun _ => hgives) hq
    · rename_i hs hn
      exact .refused _ fun hq => hn (hm.spans_iff.mpr hq.2)
  | write offset data =>
    simp only [Memory.answer, Memory.write]
    split
    · rename_i hs
      exact .refused _ fun hq => absurd (hs.symm.trans hq.1) nofun
    split
    · rename_i hs hin
      have hin := hm.spans_iff.mp hin
      exact .done ⟨hm.pages.write _ _, hm.room⟩ ⟨rfl, rfl, rfl, rfl, rfl⟩
        (hm.pages.byteAt_write (Nat.le_trans hin hm.room)) (fun _ => trivial)
        ⟨eq_false_of_ne_true hs, hin⟩
    · rename_i hs hn
      exact .refused _ fun hq => hn (hm.spans_iff.mpr hq.2)
  | invalidate offset n =>
    simp only [Memory.answer, Memory.invalidate]
    split
    · rename_i hin
      exact .done ⟨hm.pages, hm.room⟩ ⟨rfl, rfl, rfl, rfl, rfl⟩ (fun i => rfl) (fun _ => trivial)
        ⟨trivial, hm.spans_iff.mp hin⟩
    · rename_i hn
      exact .refused _ fun hq => hn (hm.spans_iff.mpr hq.2)
  | discard offset n =>
    simp only [Memory.answer, Memory.discard]
    split
    · rename_i hs
      exact .refused _ fun hq => absurd (hs.symm.trans hq.1) nofun
    split
    · rename_i hs hin
      have hin := hm.spans_iff.mp hin
      exact .done ⟨hm.pages.clear _ _, hm.room⟩ ⟨rfl, rfl, rfl, rfl, rfl⟩
        (hm.pages.byteAt_clear (Nat.le_trans hin hm.room)) (fun _ => trivial)
        ⟨eq_false_of_ne_true hs, hin⟩
    · rename_i hs hn
      exact .refused _ fun hq => hn (hm.spans_iff.mpr hq.2)
  | flush =>
    simp only [Memory.answer, Memory.flush]
    split
    · rename_i hs
      exact .refused _ fun hq => absurd (hs.symm.trans hq.1) nofun
    · rename_i hs
      exact .done ⟨hm.pages, hm.room⟩ ⟨rfl, rfl, rfl, rfl, rfl⟩ (fun i => rfl) (fun _ => trivial)
        ⟨eq_false_of_ne_true hs, trivial⟩

theorem Sound.answer (hm : m.Sound) (q : Request) : (m.answer q).2.Sound := by
  have h := hm.answers q
  generalize m.answer q = x at h
  cases h with
  | refused e => exact hm
  | done hs ha hb hg => exact hs

theorem Sound.alike_answer (hm : m.Sound) (q : Request) : (m.answer q).2.Alike m := by
  have h := hm.answers q
  generalize m.answer q = x at h
  cases h with
  | refused e => exact .refl m
  | done hs ha hb hg => exact ha

theorem Sound.byte_answer (hm : m.Sound) {i : Nat} (hi : ¬ q.Touches i) :
    (m.answer q).2.byte i = m.byte i := by
  have h := hm.answers q
  generalize m.answer q = x at h
  cases h with
  | refused e => rfl
  | done hs ha hb hg => exact (hb i).trans (Request.effect_of_not_touches hi)

theorem Sound.mayAnswer (hm : m.Sound) (hc : m.corruptReads = false) (own : Nat → Prop)
    (q : Request) : q.MayAnswer own m.byte (m.answer q).2.byte (m.answer q).1 := by
  have h := hm.answers q
  generalize m.answer q = x at h
  cases h with
  | refused e => exact .failed fun i _ => rfl
  | done hs ha hb hg => exact .done hb (hg hc)

variable {own : Nat → Prop}

theorem Alike.spans (h : m.Alike m') : m.spans = m'.spans := by
  funext offset n
  rw [Memory.spans, Memory.spans, h.size]

theorem Alike.read (h : m.Alike m') {offset n : Nat}
    (hb : ∀ i < n, m.byte (offset + i) = m'.byte (offset + i)) :
    m.read offset n = m'.read offset n := by
  have hpast : m.pastEnd offset n = m'.pastEnd offset n := by
    rw [pastEnd, pastEnd, h.size]
  have hstored : m.content.read offset n = m'.content.read offset n := by
    refine Bytes.ext_byteAt ?_ fun i hi => ?_
    · rw [Extent.size_read, Extent.size_read]
    · rw [Extent.size_read] at hi
      rw [byteAt_stored, byteAt_stored, if_pos hi, if_pos hi, hb i hi]
  simp only [Memory.read, h.failReads, h.spans, h.corruptReads, hpast, hstored]

/-- Two devices with the same switches and the same bytes in `own`. -/
structure Agree (own : Nat → Prop) (m m' : Memory) : Prop where
  left : m.Sound
  right : m'.Sound
  alike : m.Alike m'
  bytes : ∀ i, own i → m.byte i = m'.byte i

theorem Agree.refl (own : Nat → Prop) (hm : m.Sound) : Agree own m m :=
  ⟨hm, hm, .refl m, fun _ _ => rfl⟩

theorem Agree.symm (h : Agree own m m') : Agree own m' m :=
  ⟨h.right, h.left, h.alike.symm, fun i hi => (h.bytes i hi).symm⟩

theorem Agree.trans {m'' : Memory} (h : Agree own m m') (h' : Agree own m' m'') :
    Agree own m m'' :=
  ⟨h.left, h'.right, h.alike.trans h'.alike, fun i hi => (h.bytes i hi).trans (h'.bytes i hi)⟩

theorem Agree.mono {own' : Nat → Prop} (h : Agree own m m') (hown : ∀ i, own' i → own i) :
    Agree own' m m' :=
  ⟨h.left, h.right, h.alike, fun i hi => h.bytes i (hown i hi)⟩

theorem Agree.union {own' : Nat → Prop} (h : Agree own m m') (h' : Agree own' m m') :
    Agree (fun i => own i ∨ own' i) m m' :=
  ⟨h.left, h.right, h.alike, fun i hi => hi.elim (h.bytes i) (h'.bytes i)⟩

theorem Agree.reply (h : Agree own m m') (hq : q.Within own) :
    (m.answer q).1 = (m'.answer q).1 := by
  have hpast (offset n : Nat) : m.pastEnd offset n = m'.pastEnd offset n := by
    rw [pastEnd, pastEnd, h.alike.size]
  cases q with
  | read offset n =>
    simp only [Memory.answer, h.alike.read fun i hi => h.bytes _ (hq i hi)]
  | write offset data =>
    simp only [Memory.answer, Memory.write, h.alike.failWrites, h.alike.spans, hpast]
    split
    · rfl
    · split <;> rfl
  | invalidate offset n =>
    simp only [Memory.answer, Memory.invalidate, h.alike.spans, hpast]
    split <;> rfl
  | discard offset n =>
    simp only [Memory.answer, Memory.discard, h.alike.discardUnsupported, h.alike.spans, hpast]
    split
    · rfl
    · split <;> rfl
  | flush =>
    simp only [Memory.answer, Memory.flush, h.alike.failWrites]
    split <;> rfl

/-- Devices that agree on the bytes that a request is about answer it alike, and still agree on
these bytes afterwards. -/
theorem Agree.answer (h : Agree own m m') (hq : q.Within own) {reply : Except Failure q.Reply}
    {e' : Memory} (he : device.answer q m' = (reply, e')) :
    ∃ e, device.answer q m = (reply, e) ∧ Agree own e e' := by
  have he : m'.answer q = (reply, e') := he
  have hreply := h.reply hq
  have hs := h.left.answer q
  have hs' := h.right.answer q
  have hk := h.left.alike_answer q
  have hk' := h.right.alike_answer q
  rw [he] at hreply hs' hk'
  refine ⟨(m.answer q).2, Prod.ext hreply rfl, hs, hs', hk.trans (h.alike.trans hk'.symm),
    fun i hi => ?_⟩
  have heffect : q.effect m.byte i = q.effect m'.byte i := by
    cases q <;> simp only [Request.effect, h.bytes i hi]
  have ha := h.left.answers q
  have ha' := h.right.answers q
  rw [he] at ha'
  generalize m.answer q = x at ha hreply
  cases ha with
  | refused e =>
    cases hreply
    cases ha' with
    | refused e' => exact h.bytes i hi
  | done hs hk hd hg =>
    cases hreply
    cases ha' with
    | done hs' hk' hd' hg' => exact (hd i).trans (heffect.trans (hd' i).symm)

theorem Sound.keeps (hm : m.Sound) (hq : ∀ i, q.Touches i → own i) {reply : Except Failure q.Reply}
    {e : Memory} (he : device.answer q m = (reply, e)) : Agree (fun i => ¬ own i) e m := by
  have he : m.answer q = (reply, e) := he
  have hs := hm.answer q
  have hk := hm.alike_answer q
  rw [he] at hs hk
  refine ⟨hs, hm, hk, fun i hi => ?_⟩
  have hb := hm.byte_answer fun ht => hi (hq i ht)
  rwa [he] at hb

end Readback.Memory
