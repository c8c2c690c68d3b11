import Readback.Json.Printer
import Readback.Json.Reader

namespace Readback

def Numeral.Sound (n : Numeral) : Prop :=
  n.fraction < 10 ^ n.places

namespace Json

open Text (Glyph)

/-- Whether a number goes on with the character. -/
def continues (c : Char) : Bool :=
  c.isDigit || c = '.' || c = 'e' || c = 'E'

/-- No number goes on with what comes next. -/
def Ends (s : List Glyph) : Prop :=
  ∀ c, s.head? = some (some c) → continues c = false

theorem ends_nil : Ends [] :=
  nofun

theorem ends_cons {c : Char} (h : continues c = false) (s : List Glyph) : Ends (some c :: s) := by
  intro c' hc
  cases hc
  exact h

theorem Ends.not_digit {s : List Glyph} (h : Ends s) :
    ∀ g, s.head? = some g → isDigit g = false := by
  intro g hg
  cases g with
  | none => rfl
  | some c =>
    have hc := h c hg
    simp only [continues, Bool.or_eq_false_iff] at hc
    exact hc.1.1.1

theorem digits_append {ds : List Char} (hd : ∀ c ∈ ds, c.isDigit = true) {s : List Glyph}
    (hs : ∀ g, s.head? = some g → isDigit g = false) : digits (ds.map some ++ s) = (ds, s) := by
  have hall : ∀ g ∈ ds.map some, isDigit g = true := by
    intro g hg
    obtain ⟨c, hc, rfl⟩ := List.mem_map.mp hg
    exact hd c hc
  have htake : s.takeWhile isDigit = [] := by
    cases s with
    | nil => rfl
    | cons g t => rw [List.takeWhile_cons, hs g rfl]; rfl
  have hdrop : s.dropWhile isDigit = s := by
    cases s with
    | nil => rfl
    | cons g t => rw [List.dropWhile_cons, hs g rfl]; rfl
  rw [digits, List.takeWhile_append_of_pos hall, List.dropWhile_append_of_pos hall, htake, hdrop,
    List.append_nil, List.filterMap_map]
  simp

theorem isDigit_of_mem_toDigits {n : Nat} {c : Char} (h : c ∈ Nat.toDigits 10 n) :
    c.isDigit = true :=
  Nat.isDigit_of_mem_toDigits (by decide) (by decide) h

theorem head_toDigits {n : Nat} (h : 0 < n) : (Nat.toDigits 10 n).head? ≠ some '0' := by
  induction n using Nat.strongRecOn with
  | ind n ih =>
    rw [Nat.toDigits_eq_if (by decide)]
    by_cases hn : n < 10
    · rw [if_pos hn]
      intro h0
      have hdigit : ∀ k < 10, 0 < k → k.digitChar ≠ '0' := by decide
      exact hdigit n hn h (Option.some.inj h0)
    · rw [if_neg hn, List.head?_append, Option.or_of_isSome
        (List.isSome_head?.mpr Nat.toDigits_ne_nil)]
      exact ih (n / 10) (by omega) (by omega)

theorem wholeDigits_append (n : Nat) {s : List Glyph}
    (hs : ∀ g, s.head? = some g → isDigit g = false) :
    wholeDigits ((Nat.toDigits 10 n).map some ++ s) = some (n, s) := by
  have hvalue : Nat.ofDigitChars 10 (Nat.toDigits 10 n) 0 = n := Nat.ofDigitChars_ten_toDigits
  rw [wholeDigits, digits_append (fun c => isDigit_of_mem_toDigits) hs]
  split
  · rename_i hnil
    exact absurd (congrArg Prod.fst hnil) Nat.toDigits_ne_nil
  · rename_i c ds t hzero
    have hdigits : Nat.toDigits 10 n = '0' :: c :: ds := congrArg Prod.fst hzero
    rcases Nat.eq_zero_or_pos n with rfl | hn
    · cases hdigits
    · exact absurd (by rw [hdigits]; rfl) (head_toDigits hn)
  · rename_i ds t _ _ hds
    cases hds
    rw [hvalue]

end Json

namespace Numeral

def fractionChars (n : Numeral) : List Char :=
  let digits := Nat.toDigits 10 n.fraction
  if n.places = 0 then [] else '.' :: List.replicate (n.places - digits.length) '0' ++ digits

def exponentChars (n : Numeral) : List Char :=
  match n.exponent with
  | none => []
  | some e => 'e' :: (if e < 0 then '-' else '+') :: Nat.toDigits 10 e.natAbs

theorem chars_eq (n : Numeral) :
    n.chars = (if n.negative then ['-'] else []) ++ Nat.toDigits 10 n.whole ++ n.fractionChars
      ++ n.exponentChars :=
  rfl

end Numeral

namespace Json

open Text (Glyph)

theorem fractionDigits_append {n : Numeral} (hn : n.Sound) {s : List Glyph}
    (hs : ∀ g, s.head? = some g → isDigit g = false) (hp : s.head? ≠ some (some '.')) :
    fractionDigits (n.fractionChars.map some ++ s) = some ((n.places, n.fraction), s) := by
  by_cases h0 : n.places = 0
  · have hf : n.fraction = 0 := by
      rw [Numeral.Sound, h0] at hn
      exact Nat.lt_one_iff.mp hn
    have hc : n.fractionChars = [] := if_pos h0
    rw [hc, h0, hf, List.map_nil, List.nil_append, fractionDigits.eq_def]
    split
    · exact absurd rfl hp
    · rfl
  · have hlen : (Nat.toDigits 10 n.fraction).length ≤ n.places :=
      (Nat.length_toDigits_le_iff (by decide) (Nat.pos_of_ne_zero h0)).mpr hn
    let ds := List.replicate (n.places - (Nat.toDigits 10 n.fraction).length) '0'
      ++ Nat.toDigits 10 n.fraction
    have hc : n.fractionChars = '.' :: ds := if_neg h0
    have hds : ∀ c ∈ ds, c.isDigit = true := by
      intro c hc
      rcases List.mem_append.mp hc with hc | hc
      · rw [List.eq_of_mem_replicate hc]
        rfl
      · exact isDigit_of_mem_toDigits hc
    have hlength : ds.length = n.places := by
      simp only [ds, List.length_append, List.length_replicate]
      omega
    have hvalue : Nat.ofDigitChars 10 ds 0 = n.fraction := by
      rw [Nat.ofDigitChars_append, Nat.ofDigitChars_replicate_zero, Nat.mul_zero,
        Nat.ofDigitChars_ten_toDigits]
    rw [hc, List.map_cons, List.cons_append, fractionDigits, digits_append hds hs]
    split
    · rename_i hnil
      have hempty : ds = [] := congrArg Prod.fst hnil
      rw [hempty] at hlength
      exact absurd hlength.symm h0
    · rename_i ds' t _ hds'
      cases hds'
      rw [hlength, hvalue]

theorem exponentDigits_append (n : Numeral) {s : List Glyph} (hs : Ends s) :
    exponentDigits (n.exponentChars.map some ++ s) = some (n.exponent, s) := by
  cases he : n.exponent with
  | none =>
    have hc : n.exponentChars = [] := by rw [Numeral.exponentChars, he]
    rw [hc, List.map_nil, List.nil_append]
    cases s with
    | nil => rfl
    | cons g t =>
      have hg : ¬ (g = some 'e' ∨ g = some 'E') := by
        rintro (rfl | rfl) <;> exact absurd (hs _ rfl) (by decide)
      exact if_neg hg
  | some e =>
    have hc : n.exponentChars =
        'e' :: (if e < 0 then '-' else '+') :: Nat.toDigits 10 e.natAbs := by
      rw [Numeral.exponentChars, he]
    have hdigits : digits ((Nat.toDigits 10 e.natAbs).map some ++ s) =
        (Nat.toDigits 10 e.natAbs, s) :=
      digits_append (fun c => isDigit_of_mem_toDigits) hs.not_digit
    have hsign : exponentSign (some (if e < 0 then '-' else '+') ::
        ((Nat.toDigits 10 e.natAbs).map some ++ s)) =
        (decide (e < 0), (Nat.toDigits 10 e.natAbs).map some ++ s) := by
      by_cases hneg : e < 0
      · rw [if_pos hneg, decide_eq_true hneg]
        rfl
      · rw [if_neg hneg, decide_eq_false hneg]
        rfl
    have hvalue : (if decide (e < 0) = true then -(e.natAbs : Int) else e.natAbs) = e := by
      by_cases hneg : e < 0
      · rw [if_pos (decide_eq_true hneg)]
        omega
      · rw [if_neg (by simpa using hneg)]
        omega
    rw [hc, List.map_cons, List.map_cons, List.cons_append, List.cons_append, exponentDigits,
      if_pos (.inl rfl), hsign]
    simp only [hdigits]
    split
    · rename_i hnil
      exact absurd (congrArg Prod.fst hnil) Nat.toDigits_ne_nil
    · rename_i ds t _ hds
      cases hds
      rw [Nat.ofDigitChars_ten_toDigits, hvalue]

theorem head_exponentChars (n : Numeral) {s : List Glyph} (hs : Ends s) :
    (∀ g, (n.exponentChars.map some ++ s).head? = some g → isDigit g = false) ∧
      (n.exponentChars.map some ++ s).head? ≠ some (some '.') := by
  cases he : n.exponent with
  | none =>
    have hc : n.exponentChars = [] := by rw [Numeral.exponentChars, he]
    rw [hc]
    exact ⟨hs.not_digit, fun hp => absurd (hs _ hp) (by decide)⟩
  | some e =>
    rw [Numeral.exponentChars, he]
    exact ⟨fun g hg => by cases hg; rfl, by simp⟩

theorem head_fractionChars (n : Numeral) {s : List Glyph}
    (hs : ∀ g, s.head? = some g → isDigit g = false) :
    ∀ g, (n.fractionChars.map some ++ s).head? = some g → isDigit g = false := by
  by_cases h0 : n.places = 0
  · have hc : n.fractionChars = [] := if_pos h0
    rw [hc]
    exact hs
  · intro g hg
    rw [Numeral.fractionChars, if_neg h0] at hg
    cases hg
    rfl

theorem unsignedNumeral_append {n : Numeral} (hn : n.Sound) {s : List Glyph} (hs : Ends s) :
    unsignedNumeral n.negative ((Nat.toDigits 10 n.whole).map some ++
      (n.fractionChars.map some ++ (n.exponentChars.map some ++ s))) = some (n, s) := by
  obtain ⟨hdigit, hpoint⟩ := head_exponentChars n hs
  rw [unsignedNumeral, wholeDigits_append _ (head_fractionChars n hdigit)]
  simp only [bind, Option.bind, fractionDigits_append hn hdigit hpoint,
    exponentDigits_append n hs]
  rfl

theorem numeral_append {n : Numeral} (hn : n.Sound) {s : List Glyph} (hs : Ends s) :
    numeral (n.chars.map some ++ s) = some (n, s) := by
  have hread := unsignedNumeral_append hn hs
  simp only [Numeral.chars_eq, List.map_append, List.append_assoc]
  cases hneg : n.negative with
  | true =>
    rw [hneg] at hread
    exact hread
  | false =>
    rw [hneg] at hread
    rw [if_neg Bool.false_ne_true, List.map_nil, List.nil_append, numeral.eq_def]
    split
    -- No digit is a minus sign.
    · rename_i t hminus
      obtain ⟨c, hc, heq⟩ : ∃ c ∈ Nat.toDigits 10 n.whole, some '-' = some c := by
        obtain ⟨c, ds, hds⟩ := List.exists_cons_of_ne_nil
          (Nat.toDigits_ne_nil (n := n.whole) (b := 10))
        rw [hds] at hminus
        exact ⟨c, by simp [hds], (List.cons.inj hminus).1.symm⟩
      cases heq
      exact absurd (isDigit_of_mem_toDigits hc) (by decide)
    · exact hread

theorem head_of_numeral {s : List Glyph} {x : Numeral × List Glyph} (h : numeral s = some x) :
    ∃ g t, s = g :: t ∧ (g = some '-' ∨ isDigit g = true) := by
  cases s with
  | nil => cases h
  | cons g t =>
    refine ⟨g, t, rfl, ?_⟩
    by_cases hminus : g = some '-'
    · exact .inl hminus
    · cases hdigit : isDigit g with
      | true => exact .inr rfl
      | false =>
      have hnone : wholeDigits (g :: t) = none := by
        simp [wholeDigits, digits, hdigit]
      rw [numeral.eq_def] at h
      split at h
      · rename_i heq
        exact absurd (List.cons.inj heq).1 hminus
      · rw [unsignedNumeral, hnone] at h
        cases h

theorem hexValue?_hexDigit : ∀ k < 16, Bytes.hexValue? (Bytes.hexDigit k) = some k := by
  decide

theorem hexUnit_append {n : Nat} (hn : n < 65536) (s : List Glyph) :
    hexUnit ((Bytes.hexNumber 4 n).map some ++ s) = some (n, s) := by
  simp only [Bytes.hexNumber, List.nil_append, List.cons_append, List.map_cons, List.map_nil,
    hexUnit, hexValue?_hexDigit _ (Nat.mod_lt _ (by decide : 0 < 16)), bind, Option.bind, pure]
  congr 2
  omega

theorem hexNumber_plain {n : Nat} {c : Char} (width : Nat) (h : c ∈ Bytes.hexNumber width n) :
    c ≠ '"' ∧ c ≠ '\\' := by
  have hall : ∀ k < 16, Bytes.hexDigit k ≠ '"' ∧ Bytes.hexDigit k ≠ '\\' := by decide
  induction width generalizing n with
  | zero => cases h
  | succ width ih =>
    rcases List.mem_append.mp h with h | h
    · exact ih h
    · rw [List.mem_singleton.mp h]
      exact hall _ (Nat.mod_lt _ (by decide))

theorem upToQuote_cons {c : Char} (hq : c ≠ '"') (hb : c ≠ '\\') (s : List Glyph) :
    upToQuote (some c :: s) = (upToQuote s).map fun (gs, rest) => (some c :: gs, rest) := by
  rw [upToQuote]
  · simpa using hq
  · intro g t h
    cases h
    exact absurd rfl hb

theorem escape_cases (c : Char) :
    (∃ e, escape c = ['\\', e] ∧ ∀ s, unescape (some e :: s) = some (some c, s)) ∨
    (escape c = '\\' :: 'u' :: Bytes.hexNumber 4 c.toNat ∧
      ∀ s, unescape (some 'u' :: ((Bytes.hexNumber 4 c.toNat).map some ++ s)) = some (some c, s)) ∨
    (escape c = [c] ∧ c ≠ '"' ∧ c ≠ '\\' ∧ 32 ≤ c.toNat) := by
  unfold escape
  -- These have an escape of one letter.
  iterate 7
    split
    · subst_vars
      exact .inl ⟨_, rfl, fun _ => rfl⟩
  split
  · rename_i hc
    refine .inr (.inl ⟨rfl, fun s => ?_⟩)
    have hunit := hexUnit_append (n := c.toNat) (by omega) s
    simp only [unescape, hunit, bind, Option.bind, pure]
    rw [if_neg (by omega), if_neg (by omega), Char.ofNat_toNat]
  · exact .inr (.inr ⟨rfl, ‹_›, ‹_›, by omega⟩)

theorem upToQuote_append {cs : List Char} (h : ∀ c ∈ cs, c ≠ '"' ∧ c ≠ '\\') (s : List Glyph) :
    upToQuote (cs.map some ++ s) =
      (upToQuote s).map fun (gs, rest) => (cs.map some ++ gs, rest) := by
  induction cs with
  | nil => simp
  | cons c cs ih =>
    obtain ⟨hq, hb⟩ := h c List.mem_cons_self
    rw [List.map_cons, List.cons_append, upToQuote_cons hq hb,
      ih fun c hc => h c (List.mem_cons_of_mem _ hc), Option.map_map]
    rfl

theorem upToQuote_escape (c : Char) (s : List Glyph) :
    upToQuote ((escape c).map some ++ s) =
      (upToQuote s).map fun (gs, rest) => ((escape c).map some ++ gs, rest) := by
  rcases escape_cases c with ⟨e, he, -⟩ | ⟨he, -⟩ | ⟨he, hq, hb, -⟩
  · rw [he]
    rfl
  · rw [he]
    have hplain := upToQuote_append (fun _ hx => hexNumber_plain (n := c.toNat) 4 hx) s
    simp only [List.map_cons, List.cons_append, upToQuote, hplain, Option.map_map]
    rfl
  · rw [he]
    exact upToQuote_cons hq hb s

theorem upToQuote_quoted (cs : List Char) (s : List Glyph) :
    upToQuote ((cs.flatMap escape).map some ++ some '"' :: s) =
      some ((cs.flatMap escape).map some, s) := by
  induction cs with
  | nil => rfl
  | cons c cs ih =>
    rw [List.flatMap_cons, List.map_append, List.append_assoc, upToQuote_escape, ih]
    rfl

theorem unquote_escape (c : Char) (fuel : Nat) (s : List Glyph) :
    unquote (fuel + 1) ((escape c).map some ++ s) = (unquote fuel s).map (some c :: ·) := by
  rcases escape_cases c with ⟨e, he, hread⟩ | ⟨he, hread⟩ | ⟨he, hq, hb, hc⟩
  · rw [he]
    simp only [List.map_cons, List.map_nil, List.cons_append, List.nil_append, unquote, hread,
      Option.bind_eq_bind, Option.bind_some]
    cases unquote fuel s <;> rfl
  · rw [he]
    simp only [List.map_cons, List.cons_append, unquote, hread, Option.bind_eq_bind,
      Option.bind_some]
    cases unquote fuel s <;> rfl
  · have hplain : ((some c : Glyph).any fun c => decide (c.toNat < 32)) = false :=
      decide_eq_false (Nat.not_lt_of_ge hc)
    rw [he, List.map_singleton, List.singleton_append, unquote]
    · rw [hplain, if_neg Bool.false_ne_true]
    · intro h
      exact absurd (Option.some.inj h) hb

theorem unquote_quoted (cs : List Char) {fuel : Nat} (h : cs.length ≤ fuel) :
    unquote fuel ((cs.flatMap escape).map some) = some (cs.map some) := by
  induction cs generalizing fuel with
  | nil => cases fuel <;> rfl
  | cons c cs ih =>
    obtain ⟨fuel, rfl⟩ : ∃ k, fuel = k + 1 := ⟨fuel - 1, by simp at h; omega⟩
    rw [List.flatMap_cons, List.map_append, unquote_escape, ih (by simpa using h)]
    rfl

theorem mapM_id_map_some (cs : List Char) : (cs.map some).mapM id = some cs := by
  induction cs with
  | nil => rfl
  | cons c cs ih => rw [List.map_cons, List.mapM_cons, ih]; rfl

theorem length_le_flatMap_escape (cs : List Char) : cs.length ≤ (cs.flatMap escape).length := by
  induction cs with
  | nil => exact Nat.le_refl 0
  | cons c cs ih =>
    have hpos : 0 < (escape c).length := by
      rcases escape_cases c with ⟨e, he, -⟩ | ⟨he, -⟩ | ⟨he, -⟩ <;> rw [he] <;> simp
    rw [List.flatMap_cons, List.length_append, List.length_cons]
    omega

theorem textAfterQuote_append (t : String) (s : List Glyph) :
    textAfterQuote ((t.toList.flatMap escape ++ ['"']).map some ++ s) = some (some t, s) := by
  rw [List.map_append, List.append_assoc, List.map_singleton, List.singleton_append, textAfterQuote,
    upToQuote_quoted]
  have hlen : t.toList.length ≤ ((t.toList.flatMap escape).map some).length := by
    rw [List.length_map]
    exact length_le_flatMap_escape _
  have hall : (t.toList.map some).mapM id = some t.toList := mapM_id_map_some t.toList
  simp only [bind, Option.bind, unquote_quoted _ hlen, hall, Option.map_some, String.ofList_toList]
  rfl

end Json

end Readback
