namespace Readback.Toml

/-- A number of exactly `count` digits, no less than `least` and no more than `greatest`. -/
def bounded (count least greatest : Nat) (s : List Char) : Option (Nat × List Char) :=
  let ds := s.take count
  let n := Nat.ofDigitChars 10 ds 0
  if ds.length = count ∧ ds.all Char.isDigit ∧ least ≤ n ∧ n ≤ greatest then
    some (n, s.drop count)
  else none

def afterMark (mark : Char) : List Char → Option (List Char)
  | c :: s => if c = mark then some s else none
  | [] => none

def isLeap (year : Nat) : Bool :=
  year % 4 = 0 && (year % 100 ≠ 0 || year % 400 = 0)

def daysIn (year month : Nat) : Nat :=
  if month = 2 then if isLeap year then 29 else 28
  else if month ∈ [4, 6, 9, 11] then 30
  else 31

def afterDate (s : List Char) : Option (List Char) := do
  let (year, s) ← bounded 4 0 9999 s
  let (month, s) ← bounded 2 1 12 (← afterMark '-' s)
  let (_, s) ← bounded 2 1 (daysIn year month) (← afterMark '-' s)
  return s

/-- What follows a point and digits, if they come next. -/
def afterFraction : List Char → List Char
  | '.' :: c :: s => if c.isDigit then s.dropWhile Char.isDigit else '.' :: c :: s
  | s => s

def afterTime (s : List Char) : Option (List Char) := do
  let (_, s) ← bounded 2 0 23 s
  let (_, s) ← bounded 2 0 59 (← afterMark ':' s)
  let (_, s) ← bounded 2 0 60 (← afterMark ':' s)
  return afterFraction s

def afterHours (s : List Char) : Option (List Char) := do
  let (_, s) ← bounded 2 0 23 s
  let (_, s) ← bounded 2 0 59 (← afterMark ':' s)
  return s

/-- What follows an offset from universal time, if one comes next. -/
def afterOffset : List Char → List Char
  | [] => []
  | c :: s =>
    if c = 'Z' ∨ c = 'z' then s
    else if c = '+' ∨ c = '-' then (afterHours s).getD (c :: s)
    else c :: s

/-- What follows the time that may stand behind a date. -/
def afterTimeOfDate : List Char → List Char
  | [] => []
  | c :: s =>
    if c = 'T' ∨ c = 't' ∨ c = ' ' then ((afterTime s).map afterOffset).getD (c :: s)
    else c :: s

def afterMoment (s : List Char) : Option (List Char) :=
  match afterDate s with
  | some s => some (afterTimeOfDate s)
  | none => afterTime s

end Readback.Toml
