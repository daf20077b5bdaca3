import Metrology.Decimal.Literal

/-!
# TOML dates and times

A date `YYYY-MM-DD`, a time `hh:mm:ss` with an optional fraction of the second, or both with a `T`
or a blank between them and an optional offset from universal time.  The readers check the calendar
and the clock and return what follows.
-/

namespace Metrology.Toml

/-- Takes a number of exactly `count` digits off the front of a text. -/
def takeNumber? (count : Nat) (cs : List Char) : Option (Nat × List Char) :=
  let digits := cs.take count
  if digits.length = count ∧ digits.all Char.isDigit then
    some (Nat.ofDigitChars 10 digits 0, cs.drop count)
  else none

/-- Takes a given character off the front of a text. -/
def takeChar? (c : Char) : List Char → Option (List Char)
  | [] => none
  | d :: cs => if d = c then some cs else none

/-- The number of days of a month, which is zero for what is no month. -/
def daysOfMonth (year month : Nat) : Nat :=
  if month = 2 then
    if year % 4 = 0 ∧ (year % 100 ≠ 0 ∨ year % 400 = 0) then 29 else 28
  else if month ∈ [4, 6, 9, 11] then 30
  else if 1 ≤ month ∧ month ≤ 12 then 31
  else 0

/-- Takes a date off the front of a text. -/
def date? (cs : List Char) : Option (List Char) := do
  let (year, cs) ← takeNumber? 4 cs
  let cs ← takeChar? '-' cs
  let (month, cs) ← takeNumber? 2 cs
  let cs ← takeChar? '-' cs
  let (day, cs) ← takeNumber? 2 cs
  if 1 ≤ day ∧ day ≤ daysOfMonth year month then some cs else none

/-- Takes hours and minutes off the front of a text. -/
def hourMinute? (cs : List Char) : Option (List Char) := do
  let (hour, cs) ← takeNumber? 2 cs
  let cs ← takeChar? ':' cs
  let (minute, cs) ← takeNumber? 2 cs
  if hour < 24 ∧ minute < 60 then some cs else none

/-- Takes the fraction of a second off the front of a text, if there is one. -/
def skipFraction (cs : List Char) : List Char :=
  match takeChar? '.' cs with
  | some rest => if rest.head?.any Char.isDigit then rest.dropWhile Char.isDigit else cs
  | none => cs

/-- Takes a time off the front of a text; a minute may have a leap second. -/
def time? (cs : List Char) : Option (List Char) := do
  let cs ← hourMinute? cs
  let cs ← takeChar? ':' cs
  let (second, cs) ← takeNumber? 2 cs
  if second ≤ 60 then some (skipFraction cs) else none

/-- Takes an offset from universal time off the front of a text, if there is one. -/
def skipOffset : List Char → List Char
  | [] => []
  | c :: cs =>
    if c = 'Z' ∨ c = 'z' then cs
    else if c = '+' ∨ c = '-' then (hourMinute? cs).getD (c :: cs)
    else c :: cs

/-- Takes a time and an offset, with a mark before them, off the front of a text, if there are
any. -/
def skipTimeOfDay (cs : List Char) : List Char :=
  match cs with
  | [] => []
  | c :: rest =>
    if c = 'T' ∨ c = 't' ∨ c = ' ' then
      match time? rest with
      | some rest => skipOffset rest
      | none => cs
    else cs

/-- Takes a date, a time or both off the front of a text. -/
def dateTime? (cs : List Char) : Option (List Char) :=
  match date? cs with
  | some rest => some (skipTimeOfDay rest)
  | none => time? cs

example : daysOfMonth 1900 2 = 28 ∧ daysOfMonth 2000 2 = 29 := by decide

end Metrology.Toml
