import CacheUpkeep.Toml.Reader

/-!
# Marked tables

A table whose first key is the mark stands for the moment that its value names.
The text of such a moment may be an hour 24 and an offset of a whole day, which
no moment of a document is.
-/

namespace CacheUpkeep.Toml

open CacheUpkeep.Text

def momentMark : String :=
  "$__toml_private_datetime"

namespace Moment

/-- A time on its own has an hour of two digits before its first colon. -/
def isTimeAlone : List Char → Bool
  | _ :: _ :: ':' :: _ => true
  | _ => false

def readDayTime? (text : List Char) : Option (TimeText × List Char) := do
  let (time, rest) ← readClock text
  if 24 < time.hour || 59 < time.minute || 60 < time.second then none
  else return (time, rest)

/-- The offset that ends a text, at most one day to either side. -/
def readLastOffset? (text : List Char) : Option (Option OffsetText) :=
  match text with
  | [] => some none
  | ['Z'] | ['z'] => some (some .utc)
  | sign :: rest =>
      if sign = '+' || sign = '-' then do
        let (hours, minutes, after) ← readShift rest
        let n : Int := hours * 60 + minutes
        if 24 * 60 < n || !after.isEmpty then none
        else return some (.minutes (if sign = '-' then -n else n))
      else none

def ofText? (text : String) : Option Moment :=
  let text := text.toList
  if isTimeAlone text then do
    let (time, rest) ← readDayTime? text
    if rest.isEmpty then return ⟨none, some time, none⟩ else none
  else do
    let (date, rest) ← readDate text
    match rest with
    | [] => return ⟨some date, none, none⟩
    | mark :: rest =>
        if mark = 'T' || mark = 't' || mark = ' ' then
          let (time, rest) ← readDayTime? rest
          return ⟨some date, some time, ← readLastOffset? rest⟩
        else none

end Moment

def markedMoment? : Value → Option Value
  | .string text => (Moment.ofText? text).map .moment
  | _ => none

mutual

/-- The value with each marked table replaced; `none` if one names no moment. -/
def Value.settled? : Value → Option Value
  | .array items => (settledItems? items).map .array
  | .table entries =>
      match entries with
      | (key, value) :: rest =>
          if key = momentMark then markedMoment? value
          else (settledEntries? ((key, value) :: rest)).map .table
      | [] => some (.table [])
  | value => some value

def settledItems? : List Value → Option (List Value)
  | [] => some []
  | item :: rest => do
      let item ← item.settled?
      return item :: (← settledItems? rest)

def settledEntries? : Entries → Option Entries
  | [] => some []
  | (key, value) :: rest => do
      let value ← value.settled?
      return (key, value) :: (← settledEntries? rest)

end

end CacheUpkeep.Toml
