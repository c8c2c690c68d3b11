import Mathlib.Data.List.DropRight
import Readback.Proofs.Json.Token

namespace Readback.Json

open Text (Glyph)

/-- However a text goes on, it starts with the value. -/
def Reads (v : Json) (cs : List Char) : Prop :=
  ∀ fuel s, cs.length < fuel → Ends s → value fuel (cs.map some ++ s) = (v, some s)

/-- The same for a name and its value. -/
inductive ReadsField : Option String × Json → List Char → Prop
  | intro (k : String) (gap : List Char) {cs : List Char} {v : Json}
      (hgap : ∀ c ∈ gap, isBlank (some c) = true) (hv : Reads v cs) :
      ReadsField (some k, v) (quote k ++ ':' :: (gap ++ cs))

theorem continues_of_isBlank {c : Char} (h : isBlank (some c) = true) : continues c = false := by
  simp only [isBlank, Bool.or_eq_true, decide_eq_true_eq] at h
  rcases h with ((rfl | rfl) | rfl) | rfl <;> rfl

theorem skipBlanks_append {b : List Char} (hb : ∀ c ∈ b, isBlank (some c) = true)
    (s : List Glyph) : skipBlanks (b.map some ++ s) = skipBlanks s :=
  List.dropWhile_append_of_pos fun g hg => by
    obtain ⟨c, hc, rfl⟩ := List.mem_map.mp hg
    exact hb c hc

theorem skipBlanks_cons {c : Char} (hc : isBlank (some c) = false) (s : List Glyph) :
    skipBlanks (some c :: s) = some c :: s := by
  rw [skipBlanks, List.dropWhile_cons, hc]
  rfl

theorem skipBlanks_bracket {b : List Char} (hb : ∀ c ∈ b, isBlank (some c) = true) {c : Char}
    (hc : isBlank (some c) = false) (s : List Glyph) :
    skipBlanks (b.map some ++ some c :: s) = some c :: s := by
  rw [skipBlanks_append hb, skipBlanks_cons hc]

theorem skipBlanks_skipBlanks (s : List Glyph) : skipBlanks (skipBlanks s) = skipBlanks s :=
  List.dropWhile_idempotent _ _

theorem ends_blanks {b : List Char} (hb : ∀ c ∈ b, isBlank (some c) = true) {s : List Glyph}
    (hs : Ends s) : Ends (b.map some ++ s) := by
  cases b with
  | nil => exact hs
  | cons c b => exact ends_cons (continues_of_isBlank (hb c List.mem_cons_self)) _

theorem value_congr {s t : List Glyph} (h : skipBlanks s = skipBlanks t) (fuel : Nat) :
    value fuel s = value fuel t := by
  cases fuel with
  | zero => rfl
  | succ fuel => rw [value, value, h]

theorem items_congr {s t : List Glyph} (h : skipBlanks s = skipBlanks t) (fuel : Nat) :
    items fuel s = items fuel t := by
  cases fuel with
  | zero => rfl
  | succ fuel => rw [items, items, value_congr h]

theorem fields_congr {s t : List Glyph} (h : skipBlanks s = skipBlanks t) (fuel : Nat) :
    fields fuel s = fields fuel t := by
  cases fuel with
  | zero => rfl
  | succ fuel =>
    have hname : fieldName s = fieldName t := by rw [fieldName, fieldName, h]
    rw [fields, fields, hname]

theorem Reads.null : Reads .null "null".toList := by
  rintro (_ | fuel) s hfuel hs
  · cases hfuel
  · rfl

theorem Reads.bool (b : Bool) : Reads (.bool b) (if b then "true" else "false").toList := by
  rintro (_ | fuel) s hfuel hs
  · cases hfuel
  · cases b <;> rfl

theorem Reads.string (t : String) : Reads (.string (some t)) (quote t) := by
  rintro (_ | fuel) s hfuel hs
  · cases hfuel
  · have htext := textAfterQuote_append t s
    rw [quote, List.cons_append, List.map_cons, List.cons_append, value,
      skipBlanks_cons (by decide)]
    simp only [htext]

theorem value_of_numeral {s t : List Glyph} {n : Numeral} (h : numeral s = some (n, t))
    (fuel : Nat) : value (fuel + 1) s = (.number n, some t) := by
  obtain ⟨g, r, rfl, hg⟩ := head_of_numeral h
  have hblank : isBlank g = false := by
    rcases hg with rfl | hg
    · rfl
    · cases g with
      | none => rfl
      | some c =>
        cases hc : isBlank (some c) with
        | false => rfl
        | true =>
          have hdigit : c.isDigit = true := hg
          have hends := continues_of_isBlank hc
          rw [continues, hdigit] at hends
          cases hends
  have hskip : skipBlanks (g :: r) = g :: r := by
    rw [skipBlanks, List.dropWhile_cons, hblank]
    rfl
  rw [value, hskip]
  split
  all_goals try
    rename_i heq
    cases heq
    exact absurd hg (by decide)
  rw [h]

theorem Reads.number {n : Numeral} (hn : n.Sound) : Reads (.number n) n.chars := by
  rintro (_ | fuel) s hfuel hs
  · cases hfuel
  · exact value_of_numeral (numeral_append hn hs) fuel

theorem joined_cons (separator item : List Char) {rest : List (List Char)} (h : rest ≠ []) :
    joined separator (item :: rest) = item ++ separator ++ joined separator rest := by
  rw [joined]
  exact h

theorem items_joined {before after : List Char} (hb : ∀ c ∈ before, isBlank (some c) = true)
    (ha : ∀ c ∈ after, isBlank (some c) = true) {vs : List Json} {texts : List (List Char)}
    (h : List.Forall₂ Reads vs texts) (hne : texts ≠ []) {fuel : Nat} (s : List Glyph)
    (hfuel : (joined (',' :: before) texts).length + 1 < fuel) :
    items fuel ((joined (',' :: before) texts ++ after ++ [']']).map some ++ s) =
      (vs, some s) := by
  induction h generalizing fuel with
  | nil => exact absurd rfl hne
  | @cons v text vs texts hv hrest ih =>
    obtain ⟨fuel, rfl⟩ : ∃ k, fuel = k + 1 := ⟨fuel - 1, by omega⟩
    -- The last item stands before the bracket, any other before a comma.
    by_cases hlast : texts = []
    · subst hlast
      cases hrest
      rw [joined] at hfuel ⊢
      have hclose := skipBlanks_bracket ha (by decide : isBlank (some ']') = false) s
      have hends : Ends (after.map some ++ some ']' :: s) :=
        ends_blanks ha (ends_cons (by decide) s)
      have hread := hv fuel _ (by omega) hends
      simp only [List.map_append, List.append_assoc, List.map_cons, List.map_nil,
        List.singleton_append, items, hread, hclose]
    · rw [joined_cons _ _ hlast, List.length_append, List.length_append, List.length_cons] at hfuel
      have hlong : (joined (',' :: before) texts).length + 1 < fuel := by omega
      have hnext := ih hlast hlong
      have hread := hv fuel (some ',' :: (before.map some ++
        ((joined (',' :: before) texts ++ after ++ [']']).map some ++ s))) (by omega)
        (ends_cons (by decide) _)
      rw [joined_cons _ _ hlast]
      simp only [List.map_append, List.append_assoc, List.map_cons, List.map_nil,
        List.cons_append] at hread hnext ⊢
      rw [items, hread]
      simp only [skipBlanks_cons (by decide : isBlank (some ',') = false)]
      rw [items_congr (skipBlanks_append hb _), hnext]

theorem items_closing {s t : List Glyph} (h : skipBlanks s = some ']' :: t) (fuel : Nat) :
    (items fuel s).2 = none := by
  have hvalue : ∀ fuel, value fuel s = (.null, none)
    | 0 => rfl
    | fuel + 1 => by
      rw [value, h]
      rfl
  cases fuel with
  | zero => rfl
  | succ fuel => rw [items, hvalue]

theorem value_array {s t : List Glyph} {vs : List Json} {fuel : Nat}
    (h : items fuel s = (vs, some t)) : value (fuel + 1) (some '[' :: s) = (.array vs, some t) := by
  rw [value, skipBlanks_cons (by decide)]
  simp only
  split
  · have hnone := items_closing ‹_› fuel
    rw [h] at hnone
    cases hnone
  · rw [items_congr (skipBlanks_skipBlanks s), h]

theorem Reads.array {before after : List Char} (hb : ∀ c ∈ before, isBlank (some c) = true)
    (ha : ∀ c ∈ after, isBlank (some c) = true) {vs : List Json} {texts : List (List Char)}
    (h : List.Forall₂ Reads vs texts) (hne : texts ≠ []) :
    Reads (.array vs) ('[' :: before ++ joined (',' :: before) texts ++ after ++ [']']) := by
  rintro (_ | fuel) s hfuel hs
  · cases hfuel
  have hlong : (joined (',' :: before) texts).length + 1 < fuel := by
    simp at hfuel
    omega
  have hitems := items_joined hb ha h hne s hlong
  rw [← items_congr (skipBlanks_append hb _)] at hitems
  have hread := value_array hitems
  simp only [List.map_append, List.append_assoc, List.map_cons, List.map_nil,
    List.cons_append] at hread ⊢
  exact hread

theorem Reads.emptyArray : Reads (.array []) ['[', ']'] := by
  rintro (_ | fuel) s hfuel hs
  · cases hfuel
  · rfl

theorem fieldName_append (k : String) (s : List Glyph) :
    fieldName ((quote k).map some ++ some ':' :: s) = some (some k, s) := by
  have htext := textAfterQuote_append k (some ':' :: s)
  rw [quote, List.cons_append, List.map_cons, List.cons_append, fieldName,
    skipBlanks_cons (by decide)]
  simp only [htext, bind, Option.bind, skipBlanks_cons (by decide : isBlank (some ':') = false)]
  rfl

theorem fields_joined {before after : List Char} (hb : ∀ c ∈ before, isBlank (some c) = true)
    (ha : ∀ c ∈ after, isBlank (some c) = true) {kvs : List (Option String × Json)}
    {texts : List (List Char)} (h : List.Forall₂ ReadsField kvs texts) (hne : texts ≠ [])
    {fuel : Nat} (s : List Glyph) (hfuel : (joined (',' :: before) texts).length + 1 < fuel) :
    fields fuel ((joined (',' :: before) texts ++ after ++ ['}']).map some ++ s) =
      (kvs, some s) := by
  induction h generalizing fuel with
  | nil => exact absurd rfl hne
  | @cons kv text kvs texts hkv hrest ih =>
    obtain ⟨fuel, rfl⟩ : ∃ k, fuel = k + 1 := ⟨fuel - 1, by omega⟩
    obtain ⟨k, gap, hgap, hv⟩ := hkv
    rename_i cs v
    -- The last item stands before the bracket, any other before a comma.
    by_cases hlast : texts = []
    · subst hlast
      cases hrest
      rw [joined] at hfuel ⊢
      have hclose := skipBlanks_bracket ha (by decide : isBlank (some '}') = false) s
      have hends : Ends (after.map some ++ some '}' :: s) :=
        ends_blanks ha (ends_cons (by decide) s)
      have hread := hv fuel _ (by simp at hfuel; omega) hends
      simp only [List.map_append, List.append_assoc, List.map_cons, List.map_nil,
        List.cons_append, List.nil_append, fields, fieldName_append]
      rw [value_congr (skipBlanks_append hgap _), hread]
      simp only [hclose]
    · rw [joined_cons _ _ hlast] at hfuel ⊢
      have hlong : (joined (',' :: before) texts).length + 1 < fuel := by
        simp at hfuel
        omega
      have hnext := ih hlast hlong
      have hread := hv fuel (some ',' :: (before.map some ++
        ((joined (',' :: before) texts ++ after ++ ['}']).map some ++ s)))
        (by simp at hfuel; omega) (ends_cons (by decide) _)
      simp only [List.map_append, List.append_assoc, List.map_cons, List.map_nil,
        List.cons_append] at hread hnext ⊢
      rw [fields, fieldName_append]
      simp only
      rw [value_congr (skipBlanks_append hgap _), hread]
      simp only [skipBlanks_cons (by decide : isBlank (some ',') = false)]
      rw [fields_congr (skipBlanks_append hb _), hnext]

theorem fields_closing {s t : List Glyph} (h : skipBlanks s = some '}' :: t) (fuel : Nat) :
    (fields fuel s).2 = none := by
  have hname : fieldName s = none := by
    rw [fieldName, h]
    rfl
  cases fuel with
  | zero => rfl
  | succ fuel => rw [fields, hname]

theorem value_object {s t : List Glyph} {kvs : List (Option String × Json)} {fuel : Nat}
    (h : fields fuel s = (kvs, some t)) :
    value (fuel + 1) (some '{' :: s) = (.object kvs, some t) := by
  rw [value, skipBlanks_cons (by decide)]
  simp only
  split
  · have hnone := fields_closing ‹_› fuel
    rw [h] at hnone
    cases hnone
  · rw [fields_congr (skipBlanks_skipBlanks s), h]

theorem Reads.object {before after : List Char} (hb : ∀ c ∈ before, isBlank (some c) = true)
    (ha : ∀ c ∈ after, isBlank (some c) = true) {kvs : List (Option String × Json)}
    {texts : List (List Char)} (h : List.Forall₂ ReadsField kvs texts) (hne : texts ≠ []) :
    Reads (.object kvs) ('{' :: before ++ joined (',' :: before) texts ++ after ++ ['}']) := by
  rintro (_ | fuel) s hfuel hs
  · cases hfuel
  have hlong : (joined (',' :: before) texts).length + 1 < fuel := by
    simp at hfuel
    omega
  have hfields := fields_joined hb ha h hne s hlong
  rw [← fields_congr (skipBlanks_append hb _)] at hfields
  have hread := value_object hfields
  simp only [List.map_append, List.append_assoc, List.map_cons, List.map_nil,
    List.cons_append] at hread ⊢
  exact hread

theorem Reads.emptyObject : Reads (.object []) ['{', '}'] := by
  rintro (_ | fuel) s hfuel hs
  · cases hfuel
  · rfl

mutual

/-- There is a text for every part of the document. -/
def Sound : Json → Prop
  | null => True
  | bool _ => True
  | number n => n.Sound
  | string s => s.isSome = true
  | array items => SoundItems items
  | object fields => SoundFields fields

def SoundItems : List Json → Prop
  | [] => True
  | v :: vs => Sound v ∧ SoundItems vs

def SoundFields : List (Option String × Json) → Prop
  | [] => True
  | (k, v) :: rest => k.isSome = true ∧ Sound v ∧ SoundFields rest

end

theorem bracketed_ne_nil {opening closing : Char} {depth : Nat} {texts : List (List Char)}
    (h : texts ≠ []) :
    bracketed opening closing depth texts =
      opening :: newline (depth + 1) ++ joined (',' :: newline (depth + 1)) texts ++ newline depth
        ++ [closing] :=
  if_neg h

theorem isBlank_of_mem_newline (depth : Nat) : ∀ c ∈ newline depth, isBlank (some c) = true := by
  intro c hc
  rcases List.mem_cons.mp hc with rfl | hc
  · rfl
  · rw [List.eq_of_mem_replicate hc]
    rfl

mutual

theorem reads_pretty : ∀ (depth : Nat) (v : Json), v.Sound → Reads v (v.pretty depth)
  | _, null, _ => .null
  | _, bool b, _ => .bool b
  | _, number _, h => .number h
  | _, string (some t), _ => .string t
  | depth, array [], _ => .emptyArray
  | depth, array (v :: vs), h => by
    have hitems := forall₂_prettyItems (depth + 1) (v :: vs) h
    rw [pretty, bracketed_ne_nil (by simp [prettyItems])]
    exact .array (isBlank_of_mem_newline _) (isBlank_of_mem_newline _) hitems
      (by simp [prettyItems])
  | depth, object [], _ => .emptyObject
  | depth, object (kv :: kvs), h => by
    have hfields := forall₂_prettyFields (depth + 1) (kv :: kvs) h
    have hne : prettyFields (depth + 1) (kv :: kvs) ≠ [] := by simp [prettyFields]
    rw [pretty, bracketed_ne_nil hne]
    exact .object (isBlank_of_mem_newline _) (isBlank_of_mem_newline _) hfields hne

theorem forall₂_prettyItems : ∀ (depth : Nat) (vs : List Json), SoundItems vs →
    List.Forall₂ Reads vs (prettyItems depth vs)
  | _, [], _ => .nil
  | depth, v :: vs, h => .cons (reads_pretty depth v h.1) (forall₂_prettyItems depth vs h.2)

theorem forall₂_prettyFields : ∀ (depth : Nat) (kvs : List (Option String × Json)),
    SoundFields kvs → List.Forall₂ ReadsField kvs (prettyFields depth kvs)
  | _, [], _ => .nil
  | depth, (some k, v) :: kvs, h =>
    .cons (.intro k [' '] (List.forall_mem_singleton.mpr rfl) (reads_pretty depth v h.2.1))
      (forall₂_prettyFields depth kvs h.2.2)

end

theorem isBlank_of_mem_nil : ∀ c ∈ ([] : List Char), isBlank (some c) = true :=
  nofun

mutual

theorem reads_compact : ∀ v : Json, v.Sound → Reads v v.compact
  | null, _ => .null
  | bool b, _ => .bool b
  | number _, h => .number h
  | string (some t), _ => .string t
  | array [], _ => .emptyArray
  | array (v :: vs), h => by
    have hitems := forall₂_compactItems (v :: vs) h
    have hread := Reads.array isBlank_of_mem_nil isBlank_of_mem_nil hitems
      (by simp [compactItems])
    simpa [compact] using hread
  | object [], _ => .emptyObject
  | object (kv :: kvs), h => by
    have hfields := forall₂_compactFields (kv :: kvs) h
    have hread := Reads.object isBlank_of_mem_nil isBlank_of_mem_nil hfields
      (by simp [compactFields])
    simpa [compact] using hread

theorem forall₂_compactItems : ∀ vs : List Json, SoundItems vs →
    List.Forall₂ Reads vs (compactItems vs)
  | [], _ => .nil
  | v :: vs, h => .cons (reads_compact v h.1) (forall₂_compactItems vs h.2)

theorem forall₂_compactFields : ∀ kvs : List (Option String × Json), SoundFields kvs →
    List.Forall₂ ReadsField kvs (compactFields kvs)
  | [], _ => .nil
  | (some k, v) :: kvs, h =>
    .cons (.intro k [] nofun (reads_compact v h.2.1))
      (forall₂_compactFields kvs h.2.2)

end

theorem Reads.read {v : Json} {cs : List Char} (h : Reads v cs) {b : List Char}
    (hb : ∀ c ∈ b, isBlank (some c) = true) : read ((cs ++ b).map some) = (v, true) := by
  have hends : Ends (b.map some) := by
    have := ends_blanks hb ends_nil
    rwa [List.append_nil] at this
  have hskip : skipBlanks (b.map some) = [] := by
    have := skipBlanks_append hb []
    rwa [List.append_nil] at this
  have hvalue := h (((cs ++ b).map some).length + 1) (b.map some)
    (by rw [List.length_map, List.length_append]; omega) hends
  rw [← List.map_append] at hvalue
  simp only [Json.read, hvalue, hskip, decide_true]

theorem Reads.decode {v : Json} {cs : List Char} (h : Reads v cs) {b : List Char}
    (hb : ∀ c ∈ b, isBlank (some c) = true) {α : Type} (meaning : Json → Except Unreadable α) :
    decode ((cs ++ b).map some) meaning = meaning v := by
  rw [Json.decode, h.read hb]

/-- The bytes of a text are read as the text. -/
theorem Reads.decode_bytes {v : Json} {cs : List Char} (h : Reads v cs) {b : List Char}
    (hb : ∀ c ∈ b, isBlank (some c) = true) {α : Type} (meaning : Json → Except Unreadable α) :
    Json.decode (Text.glyphs (String.ofList (cs ++ b)).toUTF8) meaning = meaning v := by
  rw [Text.glyphs_toUTF8, String.toList_ofList, h.decode hb]

end Readback.Json
