import ChatMarkup.Toml.Number

/-!
# Dates and times of TOML

A moment is a date, a time of day, or both, and then perhaps with the difference to universal time.
-/

namespace ChatMarkup.Toml

/-- Takes a number of exactly `count` digits off the front of a text. -/
def fixedDigits? (count : Nat) : Reader Nat := fun cs =>
  let ds := cs.take count
  if ds.length = count && ds.all Char.isDigit then some (numberOf 10 ds, cs.drop count) else none

/-- Takes one given character off the front of a text. -/
def expect? (c : Char) : List Char → Option (List Char)
  | d :: rest => if d = c then some rest else none
  | [] => none

/-- Whether a year has a leap day. -/
def isLeapYear (year : Nat) : Bool :=
  year % 4 == 0 && (year % 100 != 0 || year % 400 == 0)

/-- The number of days of a month. -/
def daysInMonth (year month : Nat) : Nat :=
  if month = 2 then if isLeapYear year then 29 else 28
  else if month = 4 || month = 6 || month = 9 || month = 11 then 30
  else 31

/-- What is left of a text after a date. -/
def afterDate? (cs : List Char) : Option (List Char) := do
  let (year, cs) ← fixedDigits? 4 cs
  let (month, cs) ← fixedDigits? 2 (← expect? '-' cs)
  let (day, cs) ← fixedDigits? 2 (← expect? '-' cs)
  if 1 ≤ month && month ≤ 12 && 1 ≤ day && day ≤ daysInMonth year month then return cs else none

/-- What is left of a text after a fraction of a second, if there is one. -/
def afterFraction? : List Char → Option (List Char)
  | '.' :: rest =>
    match rest.takeWhile Char.isDigit with
    | [] => none
    | ds => some (rest.drop ds.length)
  | cs => some cs

/-- What is left of a text after the seconds of a time, if there are any. -/
def afterSeconds? : List Char → Option (List Char)
  | ':' :: rest => do
    let (second, cs) ← fixedDigits? 2 rest
    if second ≤ 60 then afterFraction? cs else none
  | cs => some cs

/-- What is left of a text after the hour and the minute of a time. -/
def afterMinutes? (cs : List Char) : Option (List Char) := do
  let (hour, cs) ← fixedDigits? 2 cs
  let (minute, cs) ← fixedDigits? 2 (← expect? ':' cs)
  if hour ≤ 23 && minute ≤ 59 then return cs else none

/-- What is left of a text after a time of day. -/
def afterTime? (cs : List Char) : Option (List Char) := do
  afterSeconds? (← afterMinutes? cs)

/-- What is left of a text after the difference to universal time, if there is one. -/
def afterOffset? : List Char → Option (List Char)
  | 'Z' :: rest | 'z' :: rest => some rest
  | '+' :: rest | '-' :: rest => afterMinutes? rest
  | cs => some cs

/-- Whether a text is a moment. -/
def isMoment (cs : List Char) : Bool :=
  match afterDate? cs with
  | some [] => true
  | some (c :: rest) =>
    (c == 'T' || c == 't' || c == ' ') && (afterTime? rest).bind afterOffset? == some []
  | none => afterTime? cs == some []

end ChatMarkup.Toml
