import CacheUpkeep.Calendar.Date
import CacheUpkeep.Json.Value
import CacheUpkeep.Text.Decimal

/-!
# TOML values

The values of a TOML document and their JSON form: dates and times become their
text, and a number that is not finite becomes null.
-/

namespace CacheUpkeep.Toml

open CacheUpkeep.Text

structure DateText where
  year : Nat
  month : Nat
  day : Nat
deriving DecidableEq, Repr

structure TimeText where
  hour : Nat
  minute : Nat
  second : Nat
  nano : Nat
deriving DecidableEq, Repr

/-- An offset from UTC; `minutes` counts to the east. -/
inductive OffsetText where
  | utc
  | minutes (n : Int)
deriving DecidableEq, Repr

structure Moment where
  date : Option DateText
  time : Option TimeText
  offset : Option OffsetText
deriving DecidableEq, Repr

def DateText.text (d : DateText) : String :=
  paddedNumeral 4 d.year ++ "-" ++ paddedNumeral 2 d.month ++ "-" ++
    paddedNumeral 2 d.day

/-- The fraction is written without zeros at its end. -/
def TimeText.text (t : TimeText) : String :=
  let fraction :=
    if t.nano = 0 then ""
    else
      let ds := (digits t.nano).leftpad 9 '0'
      "." ++ String.ofList (ds.reverse.dropWhile (· = '0')).reverse
  paddedNumeral 2 t.hour ++ ":" ++ paddedNumeral 2 t.minute ++ ":" ++
    paddedNumeral 2 t.second ++ fraction

def OffsetText.text : OffsetText → String
  | .utc => "Z"
  | .minutes n =>
      (if n < 0 then "-" else "+") ++ paddedNumeral 2 (n.natAbs / 60) ++ ":" ++
        paddedNumeral 2 (n.natAbs % 60)

def Moment.text (m : Moment) : String :=
  let date := (m.date.map DateText.text).getD ""
  let time := (m.time.map TimeText.text).getD ""
  let offset := (m.offset.map OffsetText.text).getD ""
  let mark := if m.date.isSome && m.time.isSome then "T" else ""
  date ++ mark ++ time ++ offset

inductive Value where
  | string (text : String)
  | integer (n : Int)
  | real (x : Number.Binary64)
  | notFinite
  | bool (b : Bool)
  | moment (m : Moment)
  | array (items : List Value)
  | table (entries : List (String × Value))
deriving Repr, Inhabited

abbrev Entries := List (String × Value)

mutual

def Value.toJson : Value → Json
  | .string text => .string text
  | .integer n => .number (.integer n)
  | .real x => .number (.real x)
  | .notFinite => .null
  | .bool b => .bool b
  | .moment m => .string m.text
  | .array items => .array (itemsToJson items)
  | .table entries => .object (Json.sortedMembers (entriesToMembers entries))

def itemsToJson : List Value → List Json
  | [] => []
  | item :: rest => item.toJson :: itemsToJson rest

def entriesToMembers : Entries → Json.Members
  | [] => []
  | (key, value) :: rest => (key, value.toJson) :: entriesToMembers rest

end

end CacheUpkeep.Toml
