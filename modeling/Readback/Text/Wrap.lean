namespace Readback.Text

def trimEnd (s : String) : String :=
  String.ofList (s.toList.reverse.dropWhile (· = ' ')).reverse

/-- Lines from what is left of a text after `line`: a word that does not fit begins the next one. -/
def wrapFrom (width : Nat) (line : String) : List String → List String
  | [] => [trimEnd line]
  | word :: rest =>
    if word ≠ "" ∧ width < line.length + 1 + word.length then
      trimEnd line :: wrapFrom width word rest
    else wrapFrom width (line ++ " " ++ word) rest

/-- Breaks a text between words into lines of at most `width` characters, as far as its words
fit. -/
def wrap (width : Nat) (s : String) : List String :=
  match s.splitOn " " with
  | [] => []
  | word :: rest => wrapFrom width word rest

end Readback.Text
