import CacheUpkeep.Calendar.Instant
import CacheUpkeep.Text.Blank
import CacheUpkeep.Text.Decimal

/-!
# Timestamps

The text of an instant: date, time of day and offset.  Reading is lenient about
blanks, digit counts and the mark between date and time; writing uses one form,
in UTC, with the fewest of 0, 3, 6 or 9 fraction digits.
-/

namespace CacheUpkeep.Calendar.Timestamp

open CacheUpkeep.Text

/-- Reads one digit or more, at most `limit`, as a number. -/
def readDigits (limit : Nat) (text : List Char) : Option (Nat × List Char) :=
  let ds := (text.take limit).takeWhile isDigit
  if ds.isEmpty then none else some (digitsValue ds, text.drop ds.length)

def readNumber (limit : Nat) (text : List Char) : Option (Nat × List Char) :=
  readDigits limit (dropBlankStart text)

/-- A year has at most four digits unless it carries a sign. -/
def readYear (text : List Char) : Option (Int × List Char) :=
  match dropBlankStart text with
  | '-' :: rest => (readDigits rest.length rest).map fun (n, rest) => (-(n : Int), rest)
  | '+' :: rest => (readDigits rest.length rest).map fun (n, rest) => ((n : Int), rest)
  | text => (readDigits 4 text).map fun (n, rest) => ((n : Int), rest)

/-- Reads one character after any blanks. -/
def readMark (mark : Char) (text : List Char) : Option (List Char) :=
  match dropBlankStart text with
  | c :: rest => if c = mark then some rest else none
  | [] => none

/-- Nanoseconds of a fraction of a second; digits after the ninth are dropped. -/
def readFraction : List Char → Option (Nat × List Char)
  | '.' :: text =>
      let ds := text.takeWhile isDigit
      if ds.isEmpty then none
      else some (digitsValue ((ds ++ List.replicate 9 '0').take 9), text.drop ds.length)
  | text => some (0, text)

def twoDigits : List Char → Option (Nat × List Char)
  | a :: b :: rest =>
      if isDigit a && isDigit b then some (digitsValue [a, b], rest) else none
  | _ => none

/-- Hours and minutes of an offset, in seconds. -/
def readOffsetSeconds (text : List Char) : Option (Nat × List Char) := do
  let (hours, text) ← twoDigits text
  let text := text.dropWhile fun c => c = ':' || isBlank c
  let (minutes, text) ← twoDigits text
  if 60 ≤ minutes || 24 ≤ hours then none
  else some (hours * 3600 + minutes * 60, text)

/-- The offset from UTC, in seconds to the east. -/
def readOffset (text : List Char) : Option (Int × List Char) :=
  match text with
  | u :: t :: c :: rest =>
      if [u, t, c].map Char.toUpper = ['U', 'T', 'C'] then some (0, rest)
      else readSigned text
  | _ => readSigned text
where
  readSigned : List Char → Option (Int × List Char)
    | c :: rest =>
        if c = 'Z' || c = 'z' then some (0, rest)
        else if c = '+' then
          (readOffsetSeconds rest).map fun (n, rest) => ((n : Int), rest)
        else if c = '-' || c = '\u2212' then
          (readOffsetSeconds rest).map fun (n, rest) => (-(n : Int), rest)
        else none
    | [] => none

def readDate (text : List Char) : Option (Date × List Char) := do
  let (year, text) ← readYear text
  let text ← readMark '-' text
  let (month, text) ← readNumber 2 text
  let text ← readMark '-' text
  let (day, text) ← readNumber 2 text
  let date ← Date.of? year month day
  return (date, text)

/-- Second of the day and nanoseconds; the second 60 is a leap second. -/
def readTime (text : List Char) : Option (Nat × Nat × List Char) := do
  let (hour, text) ← readNumber 2 text
  let text ← readMark ':' text
  let (minute, text) ← readNumber 2 text
  let text ← readMark ':' text
  let (second, text) ← readNumber 2 text
  let (nano, text) ← readFraction text
  if 24 ≤ hour || 60 ≤ minute || 61 ≤ second then none
  else if second = 60 then
    return (hour * 3600 + minute * 60 + 59, nano + nanosPerSecond, text)
  else return (hour * 3600 + minute * 60 + second, nano, text)

def readList (text : List Char) : Option Instant := do
  let (date, text) ← readDate text
  let text ←
    match text with
    | c :: rest => if c = 'T' || c = 't' || c = ' ' then some rest else none
    | [] => none
  let (second, nano, text) ← readTime text
  let (offset, text) ← readOffset (dropBlankStart text)
  if !(dropBlankStart text).isEmpty then none
  let stamp ← Instant.of? date second nano
  stamp.shift? (-offset)

/-- The instant that a timestamp names, in UTC. -/
def read (text : String) : Option Instant :=
  readList text.toList

/-- Four digits for the years 0 to 9999, and otherwise a sign before at least four. -/
def yearText (year : Int) : List Char :=
  if 0 ≤ year && year ≤ 9999 then (digits year.toNat).leftpad 4 '0'
  else (if year < 0 then '-' else '+') :: (digits year.natAbs).leftpad 4 '0'

def fractionText (nano : Nat) : List Char :=
  if nano = 0 then []
  else if nano % 1000000 = 0 then '.' :: (digits (nano / 1000000)).leftpad 3 '0'
  else if nano % 1000 = 0 then '.' :: (digits (nano / 1000)).leftpad 6 '0'
  else '.' :: (digits nano).leftpad 9 '0'

def twoDigitText (n : Nat) : List Char :=
  (digits n).leftpad 2 '0'

def writeList (t : Instant) : List Char :=
  let leap := nanosPerSecond ≤ t.nano
  let second := t.second % 60 + if leap then 1 else 0
  let nano := if leap then t.nano - nanosPerSecond else t.nano
  yearText t.date.year ++ '-' :: twoDigitText t.date.month ++ '-' ::
    twoDigitText t.date.day ++ 'T' :: twoDigitText (t.second / 3600) ++ ':' ::
    twoDigitText (t.second / 60 % 60) ++ ':' :: twoDigitText second ++
    fractionText nano ++ ['Z']

def write (t : Instant) : String :=
  String.ofList (writeList t)

end CacheUpkeep.Calendar.Timestamp
