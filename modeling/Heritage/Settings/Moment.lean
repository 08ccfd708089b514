/-!
# Dates and times

A settings file may hold a date, a time of day, or a date with a time behind it. A date has a year
of four digits, a month and a day that the calendar has. A time has hours, minutes and seconds,
where a minute may have a leap second, and perhaps a fraction. Only a time behind a date may be
followed by its distance from universal time.

No field is a moment, so that a reader yields no more than the text behind it.
-/

namespace Heritage.Settings.Moment

/-- Reads a number of exactly `count` digits. -/
def readNumber? (count : Nat) (text : List Char) : Option (Nat × List Char) :=
  let digits := text.take count
  if digits.length = count && digits.all Char.isDigit then
    some (digits.foldl (fun n c => n * 10 + (c.toNat - '0'.toNat)) 0, text.drop count)
  else none

/-- What follows the sign `c`. -/
def afterSign? (c : Char) : List Char → Option (List Char)
  | [] => none
  | first :: rest => if first = c then some rest else none

/-- Whether February has a day more in a year. -/
def isLeap (year : Nat) : Bool :=
  year % 4 = 0 && (year % 100 ≠ 0 || year % 400 = 0)

/-- The number of days in a month. -/
def daysIn (year month : Nat) : Nat :=
  if month = 2 then if isLeap year then 29 else 28
  else if month ∈ [4, 6, 9, 11] then 30
  else 31

/-- What follows a date. -/
def afterDate? (text : List Char) : Option (List Char) := do
  let (year, text) ← readNumber? 4 text
  let text ← afterSign? '-' text
  let (month, text) ← readNumber? 2 text
  let text ← afterSign? '-' text
  let (day, text) ← readNumber? 2 text
  if 1 ≤ month && month ≤ 12 && 1 ≤ day && day ≤ daysIn year month then some text else none

/-- What follows hours and minutes. -/
def afterMinutes? (text : List Char) : Option (List Char) := do
  let (hour, text) ← readNumber? 2 text
  let text ← afterSign? ':' text
  let (minute, text) ← readNumber? 2 text
  if hour < 24 && minute < 60 then some text else none

/-- The text without the fraction that it begins with. -/
def skipFraction : List Char → List Char
  | '.' :: d :: rest => if d.isDigit then rest.dropWhile Char.isDigit else '.' :: d :: rest
  | text => text

/-- What follows a time of day. -/
def afterTime? (text : List Char) : Option (List Char) := do
  let text ← afterMinutes? text
  let text ← afterSign? ':' text
  let (second, text) ← readNumber? 2 text
  if second ≤ 60 then some (skipFraction text) else none

/-- The text without the distance from universal time that it begins with. -/
def skipOffset (text : List Char) : List Char :=
  match text with
  | 'Z' :: rest | 'z' :: rest => rest
  | '+' :: rest | '-' :: rest => (afterMinutes? rest).getD text
  | _ => text

/-- The text without the time that it begins with, which a letter or a blank parts from the date
before. -/
def skipTime (text : List Char) : List Char :=
  match text with
  | 'T' :: rest | 't' :: rest | ' ' :: rest =>
    match afterTime? rest with
    | some after => skipOffset after
    | none => text
  | _ => text

/-- What follows the date, the time or both that a text begins with. -/
def after? (text : List Char) : Option (List Char) :=
  match afterDate? text with
  | some rest => some (skipTime rest)
  | none => afterTime? text

example : after? "2000-02-29 23:59:60.5-00:30,".toList = some [','] ∧
    after? "1900-02-29".toList = none ∧ after? "07:32:00Z".toList = some ['Z'] := by decide

end Heritage.Settings.Moment
