namespace Readback.Text

/-- A character, or a byte that is part of none. -/
abbrev Glyph := Option Char

/-- What bytes stand for from the `i`-th on. -/
def glyphsFrom (bytes : ByteArray) (i : Nat) : List Glyph :=
  if _h : i < bytes.size then
    match bytes.utf8DecodeChar? i with
    | some c =>
      have := c.utf8Size_pos
      some c :: glyphsFrom bytes (i + c.utf8Size)
    | none => none :: glyphsFrom bytes (i + 1)
  else []
termination_by bytes.size - i

/-- What bytes stand for, be it a text or not. -/
def glyphs (bytes : ByteArray) : List Glyph :=
  match String.fromUTF8? bytes with
  | some s => s.toList.map some
  | none => glyphsFrom bytes 0

theorem fromUTF8?_toUTF8 (s : String) : String.fromUTF8? s.toUTF8 = some s := by
  simp only [String.fromUTF8?]
  split
  · rfl
  · rename_i h
    exact absurd s.isValidUTF8 (by simpa using h)

theorem glyphs_toUTF8 (s : String) : glyphs s.toUTF8 = s.toList.map some := by
  rw [glyphs, fromUTF8?_toUTF8]

end Readback.Text
