import Lisplet.Number.Decimal

/-!
# Timestamps

A date is a year of four digits, a month and a day with a dash between them. A time of day may
follow: after a letter T, and then a time zone has to come; or after spaces, and then none may.
Seconds may have a fraction.

* `Timestamp.isTimestamp`: numbers may have one or two digits;
* `Timestamp.isInstant`: the strict form, with a time of day.
-/

namespace Lisplet.Timestamp

/-- Read a number of one or two digits. -/
def number : List Char → Option (Nat × List Char)
  | a :: b :: rest =>
    if a.isDigit then
      if b.isDigit then some (Decimal.ofDigits [a, b], rest)
      else some (Decimal.ofDigits [a], b :: rest)
    else none
  | [a] => if a.isDigit then some (Decimal.ofDigits [a], []) else none
  | [] => none

/-- Read a number of two digits. -/
def pair : List Char → Option (Nat × List Char)
  | a :: b :: rest =>
    if a.isDigit && b.isDigit then some (Decimal.ofDigits [a, b], rest) else none
  | _ => none

/-- Read a given character. -/
def mark (x : Char) : List Char → Option (List Char)
  | c :: rest => if c = x then some rest else none
  | [] => none

/-- Whether a year has a leap day. -/
def isLeap (year : Nat) : Bool := year % 4 == 0 && (year % 100 != 0 || year % 400 == 0)

/-- The number of days of a month. -/
def daysIn (year month : Nat) : Nat :=
  if month = 2 then (if isLeap year then 29 else 28)
  else if month = 4 || month = 6 || month = 9 || month = 11 then 30
  else 31

/-- Read a date whose month and day are read in a given way. -/
def date (field : List Char → Option (Nat × List Char)) (cs : List Char) :
    Option (List Char) := do
  let year := cs.takeWhile Char.isDigit
  if year.length ≠ 4 then none
  let rest ← mark '-' (cs.drop 4)
  let (month, rest) ← field rest
  let rest ← mark '-' rest
  let (day, rest) ← field rest
  if 1 ≤ month && month ≤ 12 && 1 ≤ day && day ≤ daysIn (Decimal.ofDigits year) month then
    some rest
  else none

/-- Drop a fraction: a point or a comma with digits after it. -/
def dropFraction : List Char → List Char
  | p :: d :: rest =>
    if (p = '.' || p = ',') && d.isDigit then rest.dropWhile Char.isDigit else p :: d :: rest
  | cs => cs

/-- Read a time of day whose minute and second are read in a given way. -/
def time (field : List Char → Option (Nat × List Char)) (cs : List Char) :
    Option (List Char) := do
  let (hour, rest) ← number cs
  let rest ← mark ':' rest
  let (minute, rest) ← field rest
  let rest ← mark ':' rest
  let (second, rest) ← field rest
  if hour < 24 && minute < 60 && second < 60 then some (dropFraction rest) else none

/-- Read a time zone. -/
def zone : List Char → Option (List Char)
  | 'Z' :: rest => some rest
  | s :: rest => do
    if s ≠ '+' && s ≠ '-' then none
    let (hour, rest) ← pair rest
    let rest ← mark ':' rest
    let (minute, rest) ← pair rest
    if hour ≤ 24 && minute ≤ 60 then some rest else none
  | [] => none

/-- Read what follows a date to its end. -/
def afterDate : List Char → Option (List Char)
  | [] => some []
  | 'T' :: rest => do zone (← time number rest)
  | 't' :: rest => do zone (← time number rest)
  | ' ' :: rest => time number (rest.dropWhile (· = ' '))
  | _ => none

/-- Whether a text is a timestamp. -/
def isTimestamp (text : String) : Bool :=
  match (date number text.toList).bind afterDate with
  | some [] => true
  | _ => false

/-- Whether a text is an instant: a date and a time of day, all in two digits but for the year and
the hour, with the letter T between them and the letter Z after them. -/
def isInstant (text : String) : Bool :=
  match date pair text.toList with
  | some ('T' :: rest) => time pair rest == some ['Z']
  | _ => false

end Lisplet.Timestamp
