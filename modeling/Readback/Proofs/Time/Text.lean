import Readback.Proofs.Except
import Readback.Time.Text

namespace Readback.Duration

/-- A unit that is known by a name of letters. -/
structure TimeUnit.Named (u : TimeUnit) (name : String) : Prop where
  unit : ofName? name = some u
  letters : ∀ c ∈ name.toList, c.isDigit = false ∧ Text.isBlank c = false ∧ isUnitLetter c = true

theorem TimeUnit.named {u : TimeUnit} {name : String} (hunit : ofName? name = some u)
    (hletters : (name.toList.all fun c => !c.isDigit && !Text.isBlank c && isUnitLetter c) = true) :
    u.Named name := by
  refine ⟨hunit, fun c hc => ?_⟩
  have hletter := List.all_eq_true.mp hletters c hc
  simpa only [Bool.and_eq_true, Bool.not_eq_true', and_assoc] using hletter

/-- A number of units, as it stands in the text of a duration. -/
structure Part where
  count : Nat
  unit : TimeUnit
  name : String

namespace Part

/-- The part is one that a text of a duration may have. -/
structure Readable (p : Part) : Prop where
  named : p.unit.Named p.name
  /-- What is less than a second is counted in the unit above before it makes one. -/
  small : p.count * p.unit.parts.2 < second

def text (p : Part) : String :=
  toString p.count ++ p.name

def nanos (p : Part) : Nat :=
  p.count * p.unit.nanos

end Part

theorem isBlank_of_isDigit {c : Char} (h : c.isDigit = true) : Text.isBlank c = false := by
  have hc : 48 ≤ c.toNat ∧ c.toNat ≤ 57 := by
    simpa [Char.isDigit, UInt32.le_iff_toNat_le] using h
  simp only [Text.isBlank, Bool.or_eq_false_iff, Bool.and_eq_false_iff, decide_eq_false_iff_not]
  omega

theorem readWhole_digits {ds : List Char} (hd : ∀ c ∈ ds, c.isDigit = true) (n : Nat)
    (hfit : Nat.ofDigitChars 10 ds n < Word.limit) (s : List Char) :
    readWhole n (ds ++ s) = readWhole (Nat.ofDigitChars 10 ds n) s := by
  induction ds generalizing n with
  | nil => rfl
  | cons c ds ih =>
    rw [Nat.ofDigitChars_cons] at hfit ⊢
    have hstep : 10 * n + digitValue c < Word.limit := by
      rw [Nat.ofDigitChars_eq_ofDigitChars_zero] at hfit
      have hle := Nat.le_mul_of_pos_left (10 * n + (c.toNat - '0'.toNat))
        (Nat.pow_pos (n := ds.length) (by decide : 0 < 10))
      exact Nat.lt_of_le_of_lt (Nat.le_trans hle (Nat.le_add_right _ _)) hfit
    rw [List.cons_append, readWhole, if_pos (hd c List.mem_cons_self), checked, if_pos hstep]
    exact ih (fun c hc => hd c (List.mem_cons_of_mem _ hc)) _ hfit

theorem readUnit_letters {ls : List Char}
    (h : ∀ c ∈ ls, c.isDigit = false ∧ Text.isBlank c = false ∧ isUnitLetter c = true)
    {s rest : List Char} (hs : readUnit s = some ([], rest)) :
    readUnit (ls ++ s) = some (ls, rest) := by
  induction ls with
  | nil => exact hs
  | cons c ls ih =>
    obtain ⟨hd, hb, hl⟩ := h c List.mem_cons_self
    rw [List.cons_append, readUnit, hd, hb, hl, ih fun c hc => h c (List.mem_cons_of_mem _ hc)]
    rfl

theorem exists_toDigits (n : Nat) : ∃ c ds, Nat.toDigits 10 n = c :: ds ∧ c.isDigit = true ∧
    (∀ d ∈ ds, d.isDigit = true) ∧ Nat.ofDigitChars 10 ds (digitValue c) = n := by
  obtain ⟨c, ds, hds⟩ := List.exists_cons_of_ne_nil (Nat.toDigits_ne_nil (n := n) (b := 10))
  have hvalue : Nat.ofDigitChars 10 (Nat.toDigits 10 n) 0 = n := Nat.ofDigitChars_ten_toDigits
  have hdigit : ∀ d ∈ Nat.toDigits 10 n, d.isDigit = true := fun d hd =>
    Nat.isDigit_of_mem_toDigits (by decide) (by decide) hd
  rw [hds] at hvalue hdigit
  rw [Nat.ofDigitChars_cons, Nat.mul_zero, Nat.zero_add] at hvalue
  exact ⟨c, ds, hds, hdigit c List.mem_cons_self,
    fun d hd => hdigit d (List.mem_cons_of_mem _ hd), hvalue⟩

theorem Part.Readable.exists_cons {p : Part} (hp : p.Readable) :
    ∃ c ls, p.name.toList = c :: ls ∧ c.isDigit = false ∧ Text.isBlank c = false ∧
      isUnitLetter c = true := by
  cases hname : p.name.toList with
  | nil =>
    have hempty : p.name = "" := String.toList_eq_nil_iff.mp hname
    have hunit := hp.named.unit
    rw [hempty] at hunit
    cases hunit
  | cons c ls => exact ⟨c, ls, rfl, hp.named.letters c (by rw [hname]; exact List.mem_cons_self)⟩

theorem readAmount_part {p : Part} (hp : p.Readable) (hfit : p.count < Word.limit) {n : Nat}
    {ds : List Char} (hds : ∀ d ∈ ds, d.isDigit = true)
    (hcount : Nat.ofDigitChars 10 ds n = p.count) (s : List Char) :
    readAmount n (ds ++ (p.name.toList ++ s)) = some (⟨p.count, none⟩, p.name.toList ++ s) := by
  obtain ⟨c, ls, hname, hd, hb, hl⟩ := hp.exists_cons
  have hwhole : readWhole n (ds ++ (p.name.toList ++ s)) = some (p.count, p.name.toList ++ s) := by
    rw [readWhole_digits hds n (hcount ▸ hfit), hcount, hname, List.cons_append, readWhole, hd, hb,
      hl]
    rfl
  have hpoint : c ≠ '.' := by
    rintro rfl
    cases hl
  rw [readAmount, hwhole, hname]
  simp only [bind, Option.bind, List.cons_append]
  split
  · rename_i heq
    exact absurd (List.cons.inj heq).1 hpoint
  · rfl

theorem readSpan_part {p : Part} (hp : p.Readable) (hfit : p.count < Word.limit) {n : Nat}
    {ds : List Char} (hds : ∀ d ∈ ds, d.isDigit = true)
    (hcount : Nat.ofDigitChars 10 ds n = p.count) {s rest : List Char}
    (hs : readUnit s = some ([], rest)) :
    readSpan n (ds ++ (p.name.toList ++ s)) = some ((⟨p.count, none⟩, p.unit), rest) := by
  rw [readSpan, readAmount_part hp hfit hds hcount]
  simp only [bind, Option.bind, readUnit_letters hp.named.letters hs, String.ofList_toList,
    hp.named.unit]
  rfl

theorem fits_iff {d : Duration} : d.fits = true ↔ d.nanos / second < Word.limit :=
  decide_eq_true_iff

theorem fits_of_le {d e : Duration} (h : e.fits = true) (hle : d.nanos ≤ e.nanos) :
    d.fits = true :=
  fits_iff.mpr (Nat.lt_of_le_of_lt (Nat.div_le_div_right hle) (fits_iff.mp h))

theorem addParts_of_fits {d : Duration} {s n : Nat} (hn : n < second)
    (h : (⟨d.nanos + (s * second + n)⟩ : Duration).fits = true) :
    addParts d s n = .ok ⟨d.nanos + (s * second + n)⟩ := by
  have hsum : (d.seconds + s) * second + (d.subsecond + n) = d.nanos + (s * second + n) := by
    simp only [seconds, subsecond, second]
    omega
  have hseconds : d.seconds + s < Word.limit := by
    have hfit := fits_iff.mp h
    simp only [seconds, second] at hfit ⊢
    omega
  have hnanos : d.subsecond + n < Word.limit := by
    simp only [subsecond, second, Word.limit] at hn ⊢
    omega
  simp only [addParts, checked, if_pos (show s < Word.limit by omega),
    if_pos (show n < Word.limit by omega), if_pos hseconds, if_pos hnanos, orMalformed, bind,
    Except.bind, hsum, h, if_true]
  rfl

theorem TimeUnit.nanos_eq (u : TimeUnit) : u.nanos = u.parts.1 * Duration.second + u.parts.2 := by
  cases u <;> rfl

theorem Part.Readable.addAmount {p : Part} (hp : p.Readable) {d : Duration}
    (h : (⟨d.nanos + p.nanos⟩ : Duration).fits = true) :
    addAmount d ⟨p.count, none⟩ p.unit = .ok ⟨d.nanos + p.nanos⟩ := by
  have hnanos : p.nanos = p.count * p.unit.parts.1 * second + p.count * p.unit.parts.2 := by
    rw [Part.nanos, TimeUnit.nanos_eq, Nat.mul_add, Nat.mul_assoc]
  rw [hnanos] at h ⊢
  simp only [Duration.addAmount, addParts_of_fits hp.small h]
  rfl

theorem Part.Readable.count_lt {p : Part} (hp : p.Readable)
    (h : (⟨p.nanos⟩ : Duration).fits = true) : p.count < Word.limit := by
  have hsmall := hp.small
  have hfit := fits_iff.mp h
  rw [Part.nanos] at hfit
  cases hu : p.unit <;> rw [hu] at hfit hsmall <;>
    simp only [TimeUnit.nanos, TimeUnit.parts, Duration.second, Word.limit] at hfit hsmall ⊢ <;>
    omega

def charsOf (parts : List Part) : List Char :=
  [' '].intercalate (parts.map fun p => p.text.toList)

/-- What parts amount to if a unit has the given size. -/
def totalOf (size : TimeUnit → Nat) : List Part → Nat
  | [] => 0
  | p :: parts => p.count * size p.unit + totalOf size parts

def total (parts : List Part) : Nat :=
  totalOf TimeUnit.nanos parts

theorem total_cons (p : Part) (parts : List Part) : total (p :: parts) = p.nanos + total parts :=
  rfl

theorem charsOf_cons (p : Part) (parts : List Part) : ∃ s, readUnit s = some ([], charsOf parts) ∧
    (charsOf parts).length ≤ s.length ∧
    charsOf (p :: parts) = Nat.toDigits 10 p.count ++ (p.name.toList ++ s) := by
  have htext : p.text.toList = Nat.toDigits 10 p.count ++ p.name.toList := by
    rw [Part.text, Nat.toString_eq_ofList_toDigits, String.toList_append, String.toList_ofList]
  cases parts with
  | nil =>
    refine ⟨[], rfl, Nat.le_refl 0, ?_⟩
    rw [charsOf, List.map_singleton, List.intercalate_singleton, htext, List.append_nil]
  | cons q parts =>
    refine ⟨' ' :: charsOf (q :: parts), rfl, Nat.le_succ _, ?_⟩
    rw [charsOf, List.map_cons, List.map_cons, List.intercalate_cons_cons, htext, List.append_assoc,
      List.append_assoc]
    rfl

/-- Parts that do not make too much together are read one after another. -/
theorem readSpans_parts {parts : List Part} (hp : ∀ p ∈ parts, p.Readable) {d : Duration}
    (h : (⟨d.nanos + total parts⟩ : Duration).fits = true) {first : Bool}
    (hfirst : first = true → parts ≠ []) {fuel : Nat} (hfuel : parts.length < fuel) :
    readSpans d first fuel (charsOf parts) = .ok ⟨d.nanos + total parts⟩ := by
  -- On the parts; what was read before is in `d`, which grows.
  induction parts generalizing d first fuel with
  | nil =>
    obtain ⟨fuel, rfl⟩ : ∃ k, fuel = k + 1 := ⟨fuel - 1, by simp at hfuel; omega⟩
    cases first with
    | true => exact absurd rfl (hfirst rfl)
    | false => rfl
  | cons p parts ih =>
    obtain ⟨fuel, rfl⟩ : ∃ k, fuel = k + 1 := ⟨fuel - 1, by simp at hfuel; omega⟩
    have hreadable := hp p List.mem_cons_self
    have htotal : d.nanos + total (p :: parts) = d.nanos + p.nanos + total parts := by
      rw [total_cons, Nat.add_assoc]
    rw [htotal] at h ⊢
    obtain ⟨s, hs, -, hchars⟩ := charsOf_cons p parts
    obtain ⟨c, ds, hdigits, hc, hds, hcount⟩ := exists_toDigits p.count
    have hpart : (⟨d.nanos + p.nanos⟩ : Duration).fits = true := fits_of_le h (Nat.le_add_right _ _)
    have hspan := readSpan_part hreadable
      (hreadable.count_lt (fits_of_le hpart (Nat.le_add_left _ _))) hds hcount hs
    have hlong : parts.length < fuel := by
      simp at hfuel
      omega
    have hstarted : false = true → parts ≠ [] := nofun
    have hrest : readSpans ⟨d.nanos + p.nanos⟩ false fuel (charsOf parts) =
        .ok ⟨d.nanos + p.nanos + total parts⟩ :=
      ih (fun q hq => hp q (List.mem_cons_of_mem _ hq)) h hstarted hlong
    rw [hchars, hdigits, List.cons_append, readSpans, List.dropWhile_cons, isBlank_of_isDigit hc]
    simp only [Bool.false_eq_true, if_false, hc, if_true, hspan, orMalformed, bind, Except.bind,
      hreadable.addAmount hpart, hrest]

theorem length_le_charsOf (parts : List Part) : parts.length ≤ (charsOf parts).length := by
  induction parts with
  | nil => exact Nat.zero_le _
  | cons p parts ih =>
    obtain ⟨s, -, hlen, hchars⟩ := charsOf_cons p parts
    have hpos : 0 < (Nat.toDigits 10 p.count).length := Nat.length_toDigits_pos
    rw [hchars, List.length_append, List.length_append, List.length_cons]
    omega

theorem two_le_charsOf {parts : List Part} (hp : ∀ p ∈ parts, p.Readable) (hne : parts ≠ []) :
    2 ≤ (charsOf parts).length := by
  obtain ⟨p, parts, rfl⟩ := List.exists_cons_of_ne_nil hne
  obtain ⟨s, -, -, hchars⟩ := charsOf_cons p parts
  obtain ⟨c, ls, hname, -⟩ := (hp p List.mem_cons_self).exists_cons
  have hpos : 0 < (Nat.toDigits 10 p.count).length := Nat.length_toDigits_pos
  rw [hchars, hname, List.length_append, List.length_append, List.length_cons]
  omega

def Part.plural (count : Nat) (unit : TimeUnit) (name : String) : Part :=
  ⟨count, unit, name ++ if count = 1 then "" else "s"⟩

/-- A duration as numbers of units, the greatest first. -/
def parts (d : Duration) : List Part :=
  let s := d.seconds
  let n := d.subsecond
  let ofYear := s % 31557600
  let ofMonth := ofYear % 2630016
  let ofDay := ofMonth % 86400
  [.plural (s / 31557600) .year "year", .plural (ofYear / 2630016) .month "month",
    .plural (ofMonth / 86400) .day "day", ⟨ofDay / 3600, .hour, "h"⟩,
    ⟨ofDay % 3600 / 60, .minute, "m"⟩, ⟨ofDay % 60, .second, "s"⟩,
    ⟨n / 1000000, .millisecond, "ms"⟩, ⟨n / 1000 % 1000, .microsecond, "us"⟩,
    ⟨n % 1000, .nanosecond, "ns"⟩]

def Part.isZero (p : Part) : Bool :=
  p.count = 0

theorem counted_eq (p : Part) :
    counted p.count p.name = if p.isZero then none else some p.text := by
  simp [counted, Part.isZero, Part.text]

theorem countedPlural_eq (n : Nat) (name : String) :
    countedPlural n name = counted n (name ++ if n = 1 then "" else "s") := by
  rw [countedPlural, counted, String.append_assoc]

theorem text_eq (d : Duration) : d.text = if d.isZero then "0s" else
    String.intercalate " " ((d.parts.filter (!·.isZero)).map Part.text) := by
  have hmap : ∀ l : List Part,
      (l.map fun p => if p.isZero then none else some p.text).filterMap id =
        (l.filter (!·.isZero)).map Part.text := by
    intro l
    induction l with
    | nil => rfl
    | cons p l ih =>
      rw [List.map_cons, List.filterMap_cons, ih, List.filter_cons]
      cases p.isZero <;> rfl
  rw [← hmap]
  simp only [text, parts, Part.plural, List.map_cons, List.map_nil, ← counted_eq, countedPlural_eq]

theorem total_filter (l : List Part) : total (l.filter (!·.isZero)) = total l := by
  induction l with
  | nil => rfl
  | cons p l ih =>
    cases hz : p.isZero with
    | false => rw [List.filter_cons, hz, total_cons, ← ih]; rfl
    | true =>
      have hcount : p.count = 0 := of_decide_eq_true hz
      rw [List.filter_cons, hz, total_cons, Part.nanos, hcount, Nat.zero_mul, Nat.zero_add, ← ih]
      rfl

theorem total_eq (l : List Part) : total l =
    totalOf (fun u => u.parts.1) l * second + totalOf (fun u => u.parts.2) l := by
  induction l with
  | nil => rfl
  | cons p l ih =>
    rw [total_cons, ih, Part.nanos, TimeUnit.nanos_eq, totalOf, totalOf, Nat.mul_add, Nat.add_mul,
      Nat.mul_assoc]
    omega

theorem totalOf_parts (d : Duration) (size : TimeUnit → Nat) :
    totalOf size d.parts =
      d.seconds / 31557600 * size .year + (d.seconds % 31557600 / 2630016 * size .month +
        (d.seconds % 31557600 % 2630016 / 86400 * size .day +
          (d.seconds % 31557600 % 2630016 % 86400 / 3600 * size .hour +
            (d.seconds % 31557600 % 2630016 % 86400 % 3600 / 60 * size .minute +
              (d.seconds % 31557600 % 2630016 % 86400 % 60 * size .second +
                (d.subsecond / 1000000 * size .millisecond +
                  (d.subsecond / 1000 % 1000 * size .microsecond +
                    (d.subsecond % 1000 * size .nanosecond + 0)))))))) := by
  simp only [parts, Part.plural, totalOf]

theorem total_parts (d : Duration) : total d.parts = d.nanos := by
  have hyear : TimeUnit.year.parts = (31557600, 0) := rfl
  have hmonth : TimeUnit.month.parts = (2630016, 0) := rfl
  have hday : TimeUnit.day.parts = (86400, 0) := rfl
  have hhour : TimeUnit.hour.parts = (3600, 0) := rfl
  have hminute : TimeUnit.minute.parts = (60, 0) := rfl
  have hsecond : TimeUnit.second.parts = (1, 0) := rfl
  have hmilli : TimeUnit.millisecond.parts = (0, 1000000) := rfl
  have hmicro : TimeUnit.microsecond.parts = (0, 1000) := rfl
  have hnano : TimeUnit.nanosecond.parts = (0, 1) := rfl
  have hseconds : totalOf (fun u => u.parts.1) d.parts = d.seconds := by
    rw [d.totalOf_parts, hyear, hmonth, hday, hhour, hminute, hsecond, hmilli,
      hmicro, hnano]
    omega
  have hnanos : totalOf (fun u => u.parts.2) d.parts = d.subsecond := by
    rw [d.totalOf_parts, hyear, hmonth, hday, hhour, hminute, hsecond, hmilli,
      hmicro, hnano]
    omega
  rw [total_eq, hseconds, hnanos]
  exact Nat.div_add_mod' d.nanos second

theorem readable_plural {u : TimeUnit} {name : String} (n : Nat) (hu : u.parts.2 = 0)
    (h : ∀ ending ∈ ["", "s"], u.Named (name ++ ending)) : (Part.plural n u name).Readable := by
  have hsmall : n * u.parts.2 < second := by
    rw [hu]
    exact Nat.zero_lt_of_lt (by decide : 1 < second)
  have hending : (if n = 1 then "" else "s") ∈ ["", "s"] := by
    split <;> simp
  exact ⟨h _ hending, hsmall⟩

theorem named_plural : ∀ ending ∈ ["", "s"], TimeUnit.Named .year ("year" ++ ending) ∧
    TimeUnit.Named .month ("month" ++ ending) ∧ TimeUnit.Named .day ("day" ++ ending) := by
  simp only [List.forall_mem_cons]
  refine ⟨⟨?_, ?_, ?_⟩, ⟨?_, ?_, ?_⟩, nofun⟩ <;>
  exact TimeUnit.named (by decide) (by decide)

theorem readable_parts (d : Duration) : ∀ p ∈ d.parts, p.Readable := by
  have hn : d.subsecond < second := Nat.mod_lt _ (by decide)
  have hhour : TimeUnit.Named .hour "h" := TimeUnit.named (by decide) (by decide)
  have hminute : TimeUnit.Named .minute "m" := TimeUnit.named (by decide) (by decide)
  have hsecond : TimeUnit.Named .second "s" := TimeUnit.named (by decide) (by decide)
  have hmilli : TimeUnit.Named .millisecond "ms" := TimeUnit.named (by decide) (by decide)
  have hmicro : TimeUnit.Named .microsecond "us" := TimeUnit.named (by decide) (by decide)
  have hnano : TimeUnit.Named .nanosecond "ns" := TimeUnit.named (by decide) (by decide)
  simp only [parts, List.forall_mem_cons]
  refine ⟨readable_plural _ rfl fun e he => (named_plural e he).1,
    readable_plural _ rfl fun e he => (named_plural e he).2.1,
    readable_plural _ rfl fun e he => (named_plural e he).2.2,
    ⟨hhour, ?_⟩, ⟨hminute, ?_⟩, ⟨hsecond, ?_⟩, ⟨hmilli, ?_⟩, ⟨hmicro, ?_⟩, ⟨hnano, ?_⟩, nofun⟩ <;>
  simp only [TimeUnit.parts, second] at hn ⊢ <;> omega

/-- What is written for a duration is read as the duration, be it as long as can be. -/
theorem parse_text {d : Duration} (h : d.fits = true) : parse d.text = .ok d := by
  rw [text_eq]
  split
  · rename_i hzero
    have hd : d = ⟨0⟩ := by
      cases d
      simpa [isZero] using hzero
    rw [hd]
    rfl
  · rename_i hzero
    have hread : ∀ p ∈ d.parts.filter (!·.isZero), p.Readable := fun p hp =>
      readable_parts d p (List.mem_filter.mp hp).1
    have htotal : total (d.parts.filter (!·.isZero)) = d.nanos := by
      rw [total_filter, total_parts]
    have hne : d.parts.filter (!·.isZero) ≠ [] := by
      intro hnil
      rw [hnil] at htotal
      exact hzero (decide_eq_true htotal.symm)
    generalize d.parts.filter (!·.isZero) = ps at hread htotal hne
    have hchars : (String.intercalate " " (ps.map Part.text)).toList = charsOf ps := by
      rw [String.toList_intercalate, List.map_map]
      rfl
    have hfits : (⟨0 + total ps⟩ : Duration).fits = true := by
      rw [htotal, Nat.zero_add]
      exact h
    have hspans : readSpans ⟨0⟩ true ((charsOf ps).length + 1) (charsOf ps) =
        .ok ⟨0 + total ps⟩ :=
      readSpans_parts hread hfits (fun _ => hne) (Nat.lt_succ_of_le (length_le_charsOf ps))
    have hlong : String.intercalate " " (ps.map Part.text) ≠ "0" := by
      intro he
      have hone := congrArg (fun s => s.toList.length) he
      simp only [hchars] at hone
      exact absurd hone (Nat.ne_of_gt (two_le_charsOf hread hne))
    rw [parse, if_neg hlong, hchars, hspans, htotal, Nat.zero_add]

theorem fits_of_addParts {d e : Duration} {s n : Nat} (h : addParts d s n = .ok e) :
    e.fits = true := by
  obtain ⟨s, -, h⟩ := bind_eq_ok h
  obtain ⟨n, -, h⟩ := bind_eq_ok h
  obtain ⟨n', -, h⟩ := bind_eq_ok h
  obtain ⟨s', -, h⟩ := bind_eq_ok h
  simp only at h
  split at h
  · rename_i hfits
    cases h
    exact hfits
  split at h
  · cases h
  · cases h

theorem fits_of_addAmount {d e : Duration} {a : Amount} {u : TimeUnit}
    (h : addAmount d a u = .ok e) : e.fits = true := by
  obtain ⟨d', hd, h⟩ := bind_eq_ok h
  cases ha : a.fraction with
  | none =>
    rw [ha] at h
    cases h
    exact fits_of_addParts hd
  | some fraction =>
    rw [ha] at h
    obtain ⟨parts, -, h⟩ := bind_eq_ok h
    obtain ⟨s, -, h⟩ := bind_eq_ok h
    obtain ⟨n, -, h⟩ := bind_eq_ok h
    exact fits_of_addParts h

theorem fits_of_readSpans {d e : Duration} {first : Bool} {fuel : Nat} {s : List Char}
    (hd : d.fits = true) (h : readSpans d first fuel s = .ok e) : e.fits = true := by
  induction fuel generalizing d first s with
  | zero => cases h
  | succ fuel ih =>
    rw [readSpans] at h
    split at h
    · split at h
      · cases h
      · cases h
        exact hd
    split at h
    · obtain ⟨span, -, h⟩ := bind_eq_ok h
      obtain ⟨d', hd', h⟩ := bind_eq_ok h
      exact ih (fits_of_addAmount hd') h
    · cases h

theorem fits_of_parse {s : String} {d : Duration} (h : parse s = .ok d) : d.fits = true := by
  rw [parse] at h
  split at h
  · cases h
    rfl
  · exact fits_of_readSpans rfl h

end Readback.Duration
