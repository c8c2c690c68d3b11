import Readback.Options
import Readback.Text.Wrap

namespace Readback

namespace Flag

def placeholder (f : Flag) : String :=
  f.name.map fun c => if c = '-' then '_' else c.toUpper

def form (f : Flag) : String :=
  let short := f.letter?.elim "    " fun c => String.ofList ['-', c, ',', ' ']
  short ++ "--" ++ f.name ++ if f.isSwitch then "" else " <" ++ f.placeholder ++ ">"

end Flag

namespace Options

/-- How wide a page of help is. -/
def helpWidth : Nat := 80

def indent (n : Nat) (line : String) : String :=
  String.ofList (List.replicate n ' ') ++ line

def purpose (full : Bool) : String :=
  if full then
    "Concurrent randomized data integrity test for block devices.  Every block written is later "
      ++ "read back and compared.  EVERYTHING ON THE DEVICE IS OVERWRITTEN."
  else "Concurrent randomized data integrity test for block devices"

def describe (full : Bool) : Flag → String
  | .help => if full then "Print help (see a summary with '-h')"
    else "Print help (see more with '--help')"
  | f => f.description

def helpEntry (full : Bool) (f : Flag) : List String :=
  indent 2 f.form :: (Text.wrap (helpWidth - 10) (describe full f)).map (indent 10)

/-- The page of help of a program that goes by a name; in the full one the flags are set apart. -/
def help (program : String) (full : Bool) : List String :=
  let entries := Flag.all.map (helpEntry full)
  Text.wrap helpWidth (purpose full)
    ++ ["", "Usage: " ++ program ++ " [OPTIONS]", "", "Options:"]
    ++ (if full then entries.intersperse [""] else entries).flatten

end Options

end Readback
