import CacheUpkeep.Json.Value
import CacheUpkeep.Number.ShortestDecimal
import CacheUpkeep.Text.Quoted

/-!
# Writing JSON

Two layouts of one value: on one line, and with an indent of two spaces a level.
Members keep their order.
-/

namespace CacheUpkeep.Json

open CacheUpkeep.Text

/-- Quotes, backslashes and controls are escaped; all else stands for itself. -/
def escapedChar (c : Char) : List Char :=
  if c = '"' then ['\\', '"']
  else if c = '\\' then ['\\', '\\']
  else if c = '\x08' then ['\\', 'b']
  else if c = '\x0c' then ['\\', 'f']
  else if c = '\n' then ['\\', 'n']
  else if c = '\r' then ['\\', 'r']
  else if c = '\t' then ['\\', 't']
  else if c.toNat < 32 then
    ['\\', 'u', '0', '0', hexDigit (c.toNat / 16), hexDigit (c.toNat % 16)]
  else [c]

def quotedString (text : String) : List Char :=
  '"' :: text.toList.flatMap escapedChar ++ ['"']

def integerText (n : Int) : List Char :=
  if n < 0 then '-' :: digits n.natAbs else digits n.natAbs

def JsonNumber.chars : JsonNumber → List Char
  | .integer n => integerText n
  | .real x => x.text.toList

def joinWith (mark : List Char) : List (List Char) → List Char
  | [] => []
  | [last] => last
  | first :: rest => first ++ mark ++ joinWith mark rest

mutual

def compactChars : Json → List Char
  | .null => "null".toList
  | .bool b => (if b then "true" else "false").toList
  | .number n => JsonNumber.chars n
  | .string text => quotedString text
  | .array items => '[' :: joinWith [','] (compactItems items) ++ [']']
  | .object members => '\x7b' :: joinWith [','] (compactMembers members) ++ ['\x7d']

def compactItems : List Json → List (List Char)
  | [] => []
  | item :: rest => compactChars item :: compactItems rest

def compactMembers : Members → List (List Char)
  | [] => []
  | (key, value) :: rest =>
      (quotedString key ++ ':' :: compactChars value) :: compactMembers rest

end

def newLine (level : Nat) : List Char :=
  '\n' :: List.replicate (2 * level) ' '

/-- Brackets around parts on lines of their own; nothing between if there are none. -/
def block (level : Nat) (opening closing : Char) (parts : List (List Char)) :
    List Char :=
  if parts.isEmpty then [opening, closing]
  else
    opening :: newLine (level + 1) ++ joinWith (',' :: newLine (level + 1)) parts ++
      newLine level ++ [closing]

mutual

def prettyChars (level : Nat) : Json → List Char
  | .null => "null".toList
  | .bool b => (if b then "true" else "false").toList
  | .number n => JsonNumber.chars n
  | .string text => quotedString text
  | .array items => block level '[' ']' (prettyItems (level + 1) items)
  | .object members => block level '\x7b' '\x7d' (prettyMembers (level + 1) members)

def prettyItems (level : Nat) : List Json → List (List Char)
  | [] => []
  | item :: rest => prettyChars level item :: prettyItems level rest

def prettyMembers (level : Nat) : Members → List (List Char)
  | [] => []
  | (key, value) :: rest =>
      (quotedString key ++ ':' :: ' ' :: prettyChars level value) ::
        prettyMembers level rest

end

def compact (value : Json) : String :=
  String.ofList (compactChars value)

def pretty (value : Json) : String :=
  String.ofList (prettyChars 0 value)

end CacheUpkeep.Json
