import Readback.Proofs.Device.Memory
import Readback.Proofs.Except

namespace Readback.Memory

/-- What can be done to a device in memory. -/
inductive Operation
  | ask (q : Request)
  /-- Bytes go bad behind the back of whoever wrote them. -/
  | corrupt (offset n : Nat)
  | set (s : Switch) (on : Bool)

namespace Operation

def Reply : Operation → Type
  | ask q => q.Reply
  | _ => Unit

/-- What an operation that succeeds makes of a plain array. -/
def apply (bytes : ByteArray) : Operation → ByteArray
  | ask (.write offset data) => Bytes.overwrite bytes offset data
  | ask (.discard offset n) => Bytes.overwrite bytes offset (Bytes.zeroes n)
  | corrupt offset n => Bytes.overwrite bytes offset (invert (Bytes.slice bytes offset n))
  | _ => bytes

def turn (on : Switch → Bool) : Operation → Switch → Bool
  | set s b => fun s' => if s' = s then b else on s'
  | _ => on

/-- No switch is in the way of an operation. -/
def Allowed (on : Switch → Bool) : Operation → Prop
  | ask q => Switch.Allow on q
  | _ => True

/-- A device of this size has all the bytes that an operation names. -/
def Fits (size : Nat) : Operation → Prop
  | ask q => q.Fits size
  | corrupt offset n => offset + n ≤ size
  | set .. => True

/-- A read gives the bytes that are there, but with the first of them inverted when reads are to be
corrupt. -/
def Gives (on : Switch → Bool) (bytes : ByteArray) : (o : Operation) → o.Reply → Prop
  | ask (.read offset n), found => ∀ i < n, Bytes.byteAt found.1 i =
    if i = 0 ∧ on .corruptReads = true then ~~~ Bytes.byteAt bytes offset
    else Bytes.byteAt bytes (offset + i)
  | ask (.write ..), _ => True
  | ask (.invalidate ..), _ => True
  | ask (.discard ..), _ => True
  | ask .flush, _ => True
  | corrupt .., _ => True
  | set .., _ => True

theorem size_apply (bytes : ByteArray) (o : Operation) : (o.apply bytes).size = bytes.size := by
  cases o with
  | ask q =>
    cases q with
    | write offset data => exact Bytes.size_overwrite _ _ _
    | discard offset n => exact Bytes.size_overwrite _ _ _
    | _ => rfl
  | corrupt offset n => exact Bytes.size_overwrite _ _ _
  | set s b => rfl

theorem size_foldl (bytes : ByteArray) (ops : List Operation) :
    (ops.foldl apply bytes).size = bytes.size := by
  induction ops generalizing bytes with
  | nil => rfl
  | cons o ops ih => rw [List.foldl_cons, ih, size_apply]

end Operation

def perform (m : Memory) : (o : Operation) → Except Failure o.Reply × Memory
  | .ask q => m.answer q
  | .corrupt offset n =>
    match m.corrupt offset n with
    | .ok m' => (.ok (), m')
    | .error f => (.error (.fault f), m)
  | .set s on => (.ok (), m.set s on)

variable {m m' : Memory} {o : Operation}

/-- An operation is done whole if its switch and the size of the device allow it, and not at all
otherwise.  Only bytes that are not there to go bad make the device give way. -/
inductive Performs (m : Memory) (o : Operation) : Except Failure o.Reply × Memory → Prop
  | done {reply : o.Reply} {m' : Memory} (hs : m'.Sound) (hb : m'.bytes = o.apply m.bytes)
      (ho : m'.on = o.turn m.on) (hq : o.Allowed m.on ∧ o.Fits m.size) :
      Performs m o (.ok reply, m')
  | refused (e : Error) (ho : o.turn m.on = m.on) (hn : ¬ (o.Allowed m.on ∧ o.Fits m.size)) :
      Performs m o (.error (.error e), m)
  | broke (f : Fault) {offset n : Nat} (hc : o = .corrupt offset n) (hn : ¬ offset + n ≤ m.size) :
      Performs m o (.error (.fault f), m)

theorem bytes_of_effect {q : Request} (hs : m'.size = m.size) (hq : q.Fits m.size)
    (hb : ∀ i, m'.byte i = q.effect m.byte i) : m'.bytes = (Operation.ask q).apply m.bytes := by
  have hsize := (Operation.size_apply m.bytes (.ask q)).trans m.size_bytes
  refine ext_bytes (hsize.trans hs.symm) fun i hi => ?_
  rw [hs] at hi
  have hold := byteAt_bytes hi
  have hlt : i < m.bytes.size := by rwa [size_bytes]
  rw [hb i]
  cases q with
  | write offset data =>
    rw [Operation.apply, Bytes.byteAt_overwrite, hold, Request.effect]
    simp only [hlt, and_true]
  | discard offset n =>
    rw [Operation.apply, Bytes.byteAt_overwrite, hold, Request.effect, Bytes.size_zeroes,
      Bytes.byteAt_zeroes]
    simp only [hlt, and_true]
  | read offset n => exact hold.symm
  | invalidate offset n => exact hold.symm
  | flush => exact hold.symm

theorem stored_eq {offset n : Nat} (h : offset + n ≤ m.size) :
    m.content.read offset n = Bytes.slice m.bytes offset n := by
  have hsize : (Bytes.slice m.bytes offset n).size = n := Bytes.size_slice (by rwa [size_bytes])
  refine Bytes.ext_byteAt ((m.content.size_read offset n).trans hsize.symm) fun i hi => ?_
  rw [Extent.size_read] at hi
  rw [byteAt_stored, Bytes.byteAt_slice, if_pos hi, if_pos hi, byteAt_bytes (by omega)]

theorem Sound.corrupts (hm : m.Sound) {offset n : Nat} (h : offset + n ≤ m.size) :
    ∃ m', m.corrupt offset n = .ok m' ∧ m'.Sound ∧ m'.on = m.on ∧
      m'.bytes = (Operation.corrupt offset n).apply m.bytes := by
  have hword : Word.add offset n = .ok (offset + n) :=
    Word.add_of_lt (Nat.lt_of_le_of_lt h hm.lt_limit)
  have hsize : (invert (Bytes.slice m.bytes offset n)).size = n := by
    rw [size_invert, Bytes.size_slice (by rwa [size_bytes])]
  have hfits : offset + (invert (Bytes.slice m.bytes offset n)).size ≤ m.size := by rwa [hsize]
  refine ⟨{ m with content := m.content.write offset (invert (Bytes.slice m.bytes offset n)) },
    ?_, ⟨hm.pages.write _ _, hm.room⟩, rfl, ?_⟩
  · rw [corrupt, hword, ← stored_eq h]
    exact if_pos h
  -- what is written back is a write like any other
  · exact bytes_of_effect (q := .write offset _) rfl hfits
      (hm.pages.byteAt_write (Nat.le_trans hfits hm.room))

theorem corrupt_breaks {offset n : Nat} (h : ¬ offset + n ≤ m.size) :
    ∃ f, m.corrupt offset n = .error f := by
  rw [corrupt]
  cases hw : Word.add offset n with
  | error f => exact ⟨f, rfl⟩
  | ok stop =>
    cases Word.eq_of_add hw
    exact ⟨.outOfBounds, if_neg h⟩

theorem Sound.performs (hm : m.Sound) (o : Operation) : m.Performs o (m.perform o) := by
  cases o with
  | ask q =>
    have h := hm.answers q
    rw [perform]
    generalize m.answer q = x at h
    cases h with
    | refused e hn => exact .refused e rfl hn
    | done hs ha hb hg hq => exact .done hs (bytes_of_effect ha.size hq.2 hb) ha.on hq
  | corrupt offset n =>
    rw [perform]
    by_cases h : offset + n ≤ m.size
    · obtain ⟨m', hc, hs, ho, hb⟩ := hm.corrupts h
      rw [hc]
      exact .done hs hb ho ⟨trivial, h⟩
    · obtain ⟨f, hc⟩ := corrupt_breaks h
      rw [hc]
      exact .broke f rfl h
  | set s b =>
    have hs : (m.set s b).Sound := by
      cases s <;> exact ⟨hm.pages, hm.room⟩
    have hb : (m.set s b).bytes = m.bytes := by
      cases s <;> rfl
    exact .done hs hb (on_set m s b) ⟨trivial, trivial⟩

theorem Sound.succeeds_iff (hm : m.Sound) :
    (∃ reply m', m.perform o = (.ok reply, m')) ↔ o.Allowed m.on ∧ o.Fits m.size := by
  have h := hm.performs o
  generalize m.perform o = x at h
  cases h with
  | done hs hb ho hq => exact iff_of_true ⟨_, _, rfl⟩ hq
  | refused e ho hn => exact iff_of_false nofun hn
  | broke f hc hn =>
    subst hc
    exact iff_of_false nofun fun hq => hn hq.2

theorem Sound.eq_of_failed (hm : m.Sound) {f : Failure} (h : m.perform o = (.error f, m')) :
    m' = m := by
  have hp := hm.performs o
  rw [h] at hp
  cases hp with
  | refused e ho hn => rfl
  | broke f hc hn => rfl

theorem byteAt_of_read {offset n i : Nat} {bytes : { b : ByteArray // b.size = n }}
    (h : m.read offset n = .ok bytes) (hi : i < n) (hin : offset + n ≤ m.size) :
    Bytes.byteAt bytes.1 i =
      if i = 0 ∧ m.on .corruptReads = true then ~~~ Bytes.byteAt m.bytes offset
      else Bytes.byteAt m.bytes (offset + i) := by
  have hstored : Bytes.byteAt (m.content.read offset n) i = Bytes.byteAt m.bytes (offset + i) := by
    rw [stored_eq hin, Bytes.byteAt_slice, if_pos hi]
  unfold read at h
  split at h
  · cases h
  split at h
  · dsimp only at h
    split at h
    · rename_i hc
      cases h
      have hlen : i < (m.content.read offset n).size := by rwa [Extent.size_read]
      rw [byteAt_invertFirst hlen, hstored]
      by_cases h0 : i = 0
      · rw [if_pos h0, if_pos ⟨h0, hc⟩, h0, Nat.add_zero]
      · rw [if_neg h0, if_neg fun hn => h0 hn.1]
    · rename_i hc
      cases h
      rw [if_neg fun hn => hc hn.2, hstored]
  · cases h

theorem Sound.gives (hm : m.Sound) {reply : o.Reply} (h : m.perform o = (.ok reply, m')) :
    o.Gives m.on m.bytes reply := by
  have hq := (hm.succeeds_iff (o := o)).mp ⟨reply, m', h⟩
  cases o with
  | ask q =>
    cases q with
    | read offset n =>
      have hread : (m.read offset n).mapError Failure.error = .ok reply := congrArg Prod.fst h
      intro i hi
      exact byteAt_of_read (mapError_eq_ok hread) hi hq.2
    | _ => trivial
  | corrupt offset n => trivial
  | set s b => trivial

/-- The operations that succeed, and the device that is left when all have been tried. -/
def play (m : Memory) : List Operation → Except Fault (List Operation × Memory)
  | [] => .ok ([], m)
  | o :: ops =>
    match m.perform o with
    | (.ok _, m') => (m'.play ops).map fun (done, last) => (o :: done, last)
    | (.error (.error _), m') => m'.play ops
    | (.error (.fault f), _) => .error f

/-- What an operation leaves is what it makes of an array, so that all of them together leave what
those that succeed make of it. -/
theorem Sound.play (hm : m.Sound) {ops : List Operation}
    (hc : ∀ offset n, .corrupt offset n ∈ ops → offset + n ≤ m.size) :
    ∃ done m', m.play ops = .ok (done, m') ∧ m'.Sound ∧
      m'.bytes = done.foldl Operation.apply m.bytes ∧ m'.on = ops.foldl Operation.turn m.on := by
  -- no operation changes the size, so what is in range at first stays in range for all that follow
  induction ops generalizing m with
  | nil => exact ⟨[], m, rfl, hm, rfl, rfl⟩
  | cons o ops ih =>
    have h := hm.performs o
    rw [Memory.play]
    generalize m.perform o = x at h
    cases h with
    | @done reply m' hs hb ho hq =>
      have hsize : m'.size = m.size := by
        rw [← size_bytes, hb, Operation.size_apply, size_bytes]
      have hrest : ∀ offset n, .corrupt offset n ∈ ops → offset + n ≤ m'.size := by
        intro offset n hmem
        rw [hsize]
        exact hc offset n (List.mem_cons_of_mem _ hmem)
      obtain ⟨done, last, hplay, hs', hb', ho'⟩ := ih hs hrest
      refine ⟨o :: done, last, ?_, hs', ?_, ?_⟩
      · show (m'.play ops).map _ = _
        rw [hplay]
        rfl
      · rw [hb', hb, List.foldl_cons]
      · rw [ho', ho, List.foldl_cons]
    | refused e ho hn =>
      obtain ⟨done, last, hplay, hs', hb', ho'⟩ :=
        ih hm fun offset n hmem => hc offset n (List.mem_cons_of_mem _ hmem)
      refine ⟨done, last, hplay, hs', hb', ?_⟩
      rw [ho', List.foldl_cons, ho]
    | broke f hcorrupt hn =>
      subst hcorrupt
      exact absurd (hc _ _ List.mem_cons_self) hn

theorem make_blank {n : Nat} (hn : n < Bytes.limit) :
    ∃ m, make n = .ok m ∧ m.Sound ∧ m.size = n ∧ m.bytes = Bytes.zeroes n ∧
      m.on = fun _ => false := by
  have hmake : make n = .ok ⟨.zeroes n, false, false, false, false, 0, 0, 0⟩ := if_pos hn
  refine ⟨_, hmake, sound_of_make hmake, rfl, rfl, ?_⟩
  funext s
  cases s <;> rfl

/-- A device in memory, unless there is no room for one of its size, is a plain array of bytes, of
which all are zero at first and to which the operations that succeed are done.  Whatever came
before, an operation succeeds if and only if its switch and the size of the device allow it; one
that fails changes nothing at all; and a read tells the bytes that are stored, and changes nothing
either. -/
theorem refines_array (n : Nat) {ops : List Operation}
    (hc : ∀ offset count, .corrupt offset count ∈ ops → offset + count ≤ n) :
    (Bytes.limit ≤ n ∧ make n = .error .overflow) ∨
      ∃ m₀ done m, make n = .ok m₀ ∧ m₀.play ops = .ok (done, m) ∧ m.size = n ∧
        m.bytes = done.foldl Operation.apply (Bytes.zeroes n) ∧
        ∀ o : Operation,
          let on := ops.foldl Operation.turn fun _ => false
          ((∃ reply m', m.perform o = (.ok reply, m')) ↔ o.Allowed on ∧ o.Fits n) ∧
            (∀ f m', m.perform o = (.error f, m') → m' = m) ∧
            (∀ reply m', m.perform o = (.ok reply, m') → o.Gives on m.bytes reply) ∧
            ∀ offset count, o = .ask (.read offset count) → (m.perform o).2 = m := by
  rcases Nat.lt_or_ge n Bytes.limit with hn | hn
  · obtain ⟨m₀, hmake, hs₀, hsize₀, hb₀, ho₀⟩ := make_blank hn
    obtain ⟨done, m, hplay, hs, hb, ho⟩ := hs₀.play (hsize₀.symm ▸ hc)
    rw [hb₀] at hb
    rw [ho₀] at ho
    have hsize : m.size = n := by
      rw [← size_bytes, hb, Operation.size_foldl, Bytes.size_zeroes]
    refine .inr ⟨m₀, done, m, hmake, hplay, hsize, hb, fun o => ?_⟩
    dsimp only
    rw [← ho, ← hsize]
    refine ⟨hs.succeeds_iff, fun f m' h => hs.eq_of_failed h, fun reply m' h => hs.gives h, ?_⟩
    rintro offset count rfl
    rfl
  · exact .inl ⟨hn, if_neg (Nat.not_lt_of_ge hn)⟩

/-- The write and the flush that a switch is against fail, and so does the write of which the end
is more than a word can hold. -/
theorem refines_array_of_four :
    let ops : List Operation :=
      [.ask (.write 1 ⟨#[7, 8]⟩), .set .failWrites true, .ask (.write 0 ⟨#[9]⟩), .ask .flush,
        .set .failWrites false, .ask (.write 18446744073709551615 ⟨#[1, 2]⟩), .corrupt 2 2,
        .ask (.discard 1 1), .set .corruptReads true]
    let done : List Operation :=
      [.ask (.write 1 ⟨#[7, 8]⟩), .set .failWrites true, .set .failWrites false, .corrupt 2 2,
        .ask (.discard 1 1), .set .corruptReads true]
    (∀ offset count, .corrupt offset count ∈ ops → offset + count ≤ 4) ∧
      ∃ m₀ m, make 4 = .ok m₀ ∧ m₀.play ops = .ok (done, m) ∧ m.bytes = ⟨#[0, 0, 247, 255]⟩ ∧
        ∃ found : { b : ByteArray // b.size = 2 },
          m.perform (.ask (.read 2 2)) = (.ok found, m) ∧
            Bytes.byteAt found.1 0 = 8 ∧ Bytes.byteAt found.1 1 = 255 := by
  intro ops done
  have hc : ∀ offset count, .corrupt offset count ∈ ops → offset + count ≤ 4 := by
    intro offset count hmem
    simp only [ops, List.mem_cons, reduceCtorEq, false_or, or_false, List.not_mem_nil,
      Operation.corrupt.injEq] at hmem
    omega
  obtain ⟨hlarge, -⟩ | ⟨m₀, tried, m, hmake, hplay, -, hbytes, hnext⟩ := refines_array 4 hc
  · exact absurd hlarge (by decide)
  have htried : tried = done := by
    cases hmake
    exact (Except.ok.inj (congrArg (Except.map Prod.fst) hplay)).symm
  subst htried
  have hall : m.bytes = ⟨#[0, 0, 247, 255]⟩ := hbytes.trans (by decide +kernel)
  obtain ⟨hiff, -, hgives, hkeeps⟩ := hnext (.ask (.read 2 2))
  obtain ⟨found, m', hfound⟩ := hiff.mpr ⟨rfl, Nat.le_refl 4⟩
  have hm' : m' = m := by
    rw [← hkeeps 2 2 rfl, hfound]
  have hbyte := hgives found m' hfound
  subst hm'
  rw [hall] at hbyte
  exact ⟨hc, m₀, m', hmake, hplay, hall, found, hfound, hbyte 0 (by decide), hbyte 1 (by decide)⟩

end Readback.Memory
