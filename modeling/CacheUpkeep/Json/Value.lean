import CacheUpkeep.Number.Binary64

/-!
# JSON values

Objects are lists of members.  `Json.insert` keeps members sorted by key with
each key once, which is the form that reading a text gives.
-/

namespace CacheUpkeep

/-- An integer between `-2 ^ 63` and `2 ^ 64 - 1` is kept exactly. -/
inductive JsonNumber where
  | integer (n : Int)
  | real (x : Number.Binary64)
deriving DecidableEq, Repr

inductive Json where
  | null
  | bool (b : Bool)
  | number (n : JsonNumber)
  | string (text : String)
  | array (items : List Json)
  | object (members : List (String × Json))
deriving Repr, Inhabited

abbrev Json.Members := List (String × Json)

namespace Json

def insert (key : String) (value : Json) : Members → Members
  | [] => [(key, value)]
  | (k, v) :: rest =>
      if key < k then (key, value) :: (k, v) :: rest
      else if key = k then (key, value) :: rest
      else (k, v) :: insert key value rest

/-- The members sorted by key, the last of those with one key. -/
def sortedMembers (members : Members) : Members :=
  members.foldl (fun sorted (key, value) => insert key value sorted) []

def member? (key : String) (members : Members) : Option Json :=
  members.lookup key

def field? (key : String) : Json → Option Json
  | .object members => member? key members
  | _ => none

def string? : Json → Option String
  | .string text => some text
  | _ => none

def natural (n : Nat) : Json :=
  .number (.integer n)

end Json

end CacheUpkeep
