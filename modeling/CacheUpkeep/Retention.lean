import CacheUpkeep.Calendar.Instant
import CacheUpkeep.Json.Misfit
import CacheUpkeep.Number.Limits
import CacheUpkeep.Text.Blank

/-!
# Retention windows

A window is a number of days or weeks.  What was last used within the window is
kept; what was last used at or beyond it may go.  In text a window is a number
and one of the letters `d` and `w`.
-/

namespace CacheUpkeep

open CacheUpkeep.Text CacheUpkeep.Calendar CacheUpkeep.Number

inductive RetentionUnit where
  | days
  | weeks
deriving DecidableEq, Repr

def RetentionUnit.letter : RetentionUnit → Char
  | .days => 'd'
  | .weeks => 'w'

def RetentionUnit.ofLetter? (c : Char) : Option RetentionUnit :=
  if c = 'd' || c = 'D' then some .days
  else if c = 'w' || c = 'W' then some .weeks
  else none

structure RetentionWindow where
  amount : Nat
  unit : RetentionUnit
  amount_lt : amount < limit32
deriving DecidableEq, Repr

inductive RetentionError where
  | empty
  | invalid (text : String)
  | zero (text : String)
deriving DecidableEq, Repr

def RetentionError.message : RetentionError → String
  | .empty => "empty retention expression"
  | .invalid text => "invalid retention '" ++ text ++ "': expected <integer><d|w>, e.g. 2w"
  | .zero text => "retention must be at least one day, got '" ++ text ++ "'"

namespace RetentionWindow

/-- Two weeks. -/
def standard : RetentionWindow :=
  ⟨2, .weeks, by decide⟩

instance : Inhabited RetentionWindow :=
  ⟨standard⟩

def totalDays (w : RetentionWindow) : Nat :=
  match w.unit with
  | .days => w.amount
  | .weeks => 7 * w.amount

def totalSeconds (w : RetentionWindow) : Nat :=
  secondsPerDay * w.totalDays

/-- The least number of whole weeks that covers the window. -/
def wholeWeeks (w : RetentionWindow) : Nat :=
  match w.unit with
  | .days => (w.amount + 6) / 7
  | .weeks => w.amount

/-- Last used at or beyond the window before `now`. -/
def expired (w : RetentionWindow) (lastUsed now : Instant) : Bool :=
  ((w.totalSeconds * nanosPerSecond : Nat) : Int) ≤ now.since lastUsed

def text (w : RetentionWindow) : String :=
  String.ofList (digits w.amount ++ [w.unit.letter])

/-- A numeral of 32 bits with an optional plus sign. -/
def readAmount? (text : List Char) : Option Nat :=
  let ds :=
    match text with
    | '+' :: rest => rest
    | _ => text
  if ds.isEmpty || !ds.all isDigit then none
  else
    let n := digitsValue ds
    if n < limit32 then some n else none

/-- Reads a window from a text without blanks at its ends. -/
def readTrimmed (text : List Char) : Except RetentionError RetentionWindow :=
  match text.getLast? with
  | none => .error .empty
  | some last =>
      match RetentionUnit.ofLetter? last, readAmount? text.dropLast with
      | some unit, some amount =>
          if amount = 0 then .error (.zero (String.ofList text))
          else if h : amount < limit32 then .ok ⟨amount, unit, h⟩
          else .error (.invalid (String.ofList text))
      | _, _ => .error (.invalid (String.ofList text))

def read (text : String) : Except RetentionError RetentionWindow :=
  readTrimmed (trimList text.toList)

/-- A window in a configuration is a text. -/
def ofJson : Json → Except Json.Misfit RetentionWindow
  | .string text =>
      match read text with
      | .ok w => .ok w
      | .error e => .error (.refused e.message)
  | value => .error (.wrongType value.describe "a string")

end RetentionWindow

end CacheUpkeep
