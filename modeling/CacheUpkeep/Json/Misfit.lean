import CacheUpkeep.Json.Syntax
import CacheUpkeep.Number.ShortestDecimal
import CacheUpkeep.Text.Quoted

/-!
# Values that do not fit

Why a JSON value cannot be read as a structure, and the message for it.
-/

namespace CacheUpkeep.Json

open CacheUpkeep.Text

inductive Misfit where
  | malformed
  | wrongType (found wanted : String)
  | wrongValue (found wanted : String)
  | wrongLength (length : Nat) (wanted : String)
  | unknownVariant (name wanted : String)
  | missingField (name : String)
  | duplicateField (name : String)
  | valueWanted
  | trailing
  | refused (reason : String)
deriving DecidableEq, Repr

def Misfit.message : Misfit → String
  | .malformed => "invalid JSON"
  | .wrongType found wanted => s!"invalid type: {found}, expected {wanted}"
  | .wrongValue found wanted => s!"invalid value: {found}, expected {wanted}"
  | .wrongLength length wanted => s!"invalid length {length}, expected {wanted}"
  | .unknownVariant name wanted =>
      "unknown variant `" ++ name ++ "`, expected " ++ wanted
  | .missingField name => "missing field `" ++ name ++ "`"
  | .duplicateField name => "duplicate field `" ++ name ++ "`"
  | .valueWanted => "expected value"
  | .trailing => "trailing characters"
  | .refused reason => reason

def describeInteger (n : Int) : String :=
  let sign := if n < 0 then "-" else ""
  "integer `" ++ sign ++ numeral n.natAbs ++ "`"

def describeNumber : JsonNumber → String
  | .integer n => describeInteger n
  | .real x => "floating point `" ++ x.text ++ "`"

def describeBool (b : Bool) : String :=
  if b then "boolean `true`" else "boolean `false`"

def describeString (text : String) : String :=
  "string " ++ quoted text

def describe : Json → String
  | .null => "null"
  | .bool b => describeBool b
  | .number n => describeNumber n
  | .string text => describeString text
  | .array _ => "sequence"
  | .object _ => "map"

/-- The same for a tree; numbers and strings without a value describe as malformed. -/
def Tree.describe : Tree → Option String
  | .null => some "null"
  | .bool b => some (describeBool b)
  | .number n => n.toNumber?.map describeNumber
  | .string text => text.map describeString
  | .array _ => some "sequence"
  | .object _ => some "map"

end CacheUpkeep.Json
