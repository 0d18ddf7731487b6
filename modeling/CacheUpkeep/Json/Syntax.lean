import CacheUpkeep.Json.Numeral

/-!
# The syntax of JSON

Reads a text into a tree that keeps members in the order of the text, with
repeated keys, and numerals as written.  `Syntax.toJson?` adds what the grammar
does not say: numbers must be finite, strings must be text and nesting is
bounded.
-/

namespace CacheUpkeep.Json

open CacheUpkeep.Text

/-- A string is `none` if an escape in it stands for half of a surrogate pair. -/
inductive Tree where
  | null
  | bool (b : Bool)
  | number (n : Numeral)
  | string (text : Option String)
  | array (items : List Tree)
  | object (members : List (Option String × Tree))
deriving Repr, Inhabited

namespace Tree

def isSpace (c : Char) : Bool :=
  c = ' ' || c = '\n' || c = '\t' || c = '\r'

def skipSpace (text : List Char) : List Char :=
  text.dropWhile isSpace

def hexValue? (c : Char) : Option Nat :=
  if '0' ≤ c && c ≤ '9' then some (c.toNat - 48)
  else if 'a' ≤ c && c ≤ 'f' then some (c.toNat - 87)
  else if 'A' ≤ c && c ≤ 'F' then some (c.toNat - 55)
  else none

def hexUnit? (a b c d : Char) : Option Nat := do
  return (← hexValue? a) * 4096 + (← hexValue? b) * 256 + (← hexValue? c) * 16 +
    (← hexValue? d)

def escapeChar? (c : Char) : Option Char :=
  if c = '"' then some '"'
  else if c = '\\' then some '\\'
  else if c = '/' then some '/'
  else if c = 'b' then some '\x08'
  else if c = 'f' then some '\x0c'
  else if c = 'n' then some '\n'
  else if c = 'r' then some '\r'
  else if c = 't' then some '\t'
  else none

/-- One element of a string: a character, or a 16-bit unit given in hexadecimal. -/
inductive StringPart where
  | char (c : Char)
  | unit (n : Nat)
deriving DecidableEq, Repr

/-- The parts of a string up to its closing quote, and the text after it. -/
def readParts : List Char → Option (List StringPart × List Char)
  | [] => none
  | '"' :: rest => some ([], rest)
  | '\\' :: 'u' :: a :: b :: c :: d :: rest => do
      let unit ← hexUnit? a b c d
      let (parts, rest) ← readParts rest
      return (.unit unit :: parts, rest)
  | '\\' :: e :: rest => do
      let c ← escapeChar? e
      let (parts, rest) ← readParts rest
      return (.char c :: parts, rest)
  | c :: rest =>
      if c.toNat < 32 || c = '\\' then none
      else (readParts rest).map fun (parts, rest) => (.char c :: parts, rest)

/-- Joins surrogate pairs; `none` if one half stands alone. -/
def joinParts : List StringPart → Option (List Char)
  | [] => some []
  | .char c :: rest => (joinParts rest).map (c :: ·)
  | .unit high :: .unit low :: rest =>
      if 0xD800 ≤ high && high < 0xDC00 && 0xDC00 ≤ low && low < 0xE000 then
        (joinParts rest).map
          (Char.ofNat (0x10000 + (high - 0xD800) * 1024 + (low - 0xDC00)) :: ·)
      else if 0xD800 ≤ high && high < 0xE000 then none
      else (joinParts (.unit low :: rest)).map (Char.ofNat high :: ·)
  | .unit n :: rest =>
      if 0xD800 ≤ n && n < 0xE000 then none
      else (joinParts rest).map (Char.ofNat n :: ·)

def readString (text : List Char) : Option (Option String × List Char) :=
  (readParts text).map fun (parts, rest) =>
    ((joinParts parts).map String.ofList, rest)

def readWhole : List Char → Option (List Char × List Char)
  | '0' :: rest =>
      match rest with
      | c :: _ => if isDigit c then none else some (['0'], rest)
      | [] => some (['0'], rest)
  | text =>
      let ds := text.takeWhile isDigit
      if ds.isEmpty then none else some (ds, text.dropWhile isDigit)

def readFraction : List Char → Option (Option (List Char) × List Char)
  | '.' :: text =>
      let ds := text.takeWhile isDigit
      if ds.isEmpty then none else some (some ds, text.dropWhile isDigit)
  | text => some (none, text)

def readExponent : List Char → Option (Option Exponent × List Char)
  | c :: text =>
      if c = 'e' || c = 'E' then
        let (negative, text) :=
          match text with
          | '+' :: rest => (false, rest)
          | '-' :: rest => (true, rest)
          | text => (false, text)
        let ds := text.takeWhile isDigit
        if ds.isEmpty then none else some (some ⟨negative, ds⟩, text.dropWhile isDigit)
      else some (none, c :: text)
  | [] => some (none, [])

def readNumeral (text : List Char) : Option (Numeral × List Char) := do
  let (negative, text) :=
    match text with
    | '-' :: rest => (true, rest)
    | text => (false, text)
  let (whole, text) ← readWhole text
  let (fraction, text) ← readFraction text
  let (exponent, text) ← readExponent text
  return (⟨negative, whole, fraction, exponent⟩, text)

mutual

/-- Reads a value that starts at the first character. -/
def readValue : Nat → List Char → Option (Tree × List Char)
  | 0, _ => none
  | fuel + 1, text =>
      match text with
      | 'n' :: 'u' :: 'l' :: 'l' :: rest => some (.null, rest)
      | 't' :: 'r' :: 'u' :: 'e' :: rest => some (.bool true, rest)
      | 'f' :: 'a' :: 'l' :: 's' :: 'e' :: rest => some (.bool false, rest)
      | '"' :: rest => (readString rest).map fun (s, rest) => (.string s, rest)
      | '[' :: rest =>
          match skipSpace rest with
          | ']' :: rest => some (.array [], rest)
          | rest => (readItems fuel rest).map fun (items, rest) => (.array items, rest)
      | '\x7b' :: rest =>
          match skipSpace rest with
          | '\x7d' :: rest => some (.object [], rest)
          | rest =>
              (readMembers fuel rest).map fun (members, rest) => (.object members, rest)
      | text => (readNumeral text).map fun (n, rest) => (.number n, rest)

def readItems : Nat → List Char → Option (List Tree × List Char)
  | 0, _ => none
  | fuel + 1, text => do
      let (item, rest) ← readValue fuel text
      match skipSpace rest with
      | ']' :: rest => return ([item], rest)
      | ',' :: rest =>
          let (items, rest) ← readItems fuel (skipSpace rest)
          return (item :: items, rest)
      | _ => none

def readMembers : Nat → List Char → Option (List (Option String × Tree) × List Char)
  | 0, _ => none
  | fuel + 1, text => do
      match text with
      | '"' :: rest =>
          let (key, rest) ← readString rest
          match skipSpace rest with
          | ':' :: rest =>
              let (value, rest) ← readValue fuel (skipSpace rest)
              match skipSpace rest with
              | '\x7d' :: rest => return ([(key, value)], rest)
              | ',' :: rest =>
                  let (members, rest) ← readMembers fuel (skipSpace rest)
                  return ((key, value) :: members, rest)
              | _ => none
          | _ => none
      | _ => none

end

/-- Every value and every step takes at least one character. -/
def readList (text : List Char) : Option Tree :=
  match readValue (text.length + 1) (skipSpace text) with
  | some (tree, rest) => if (skipSpace rest).isEmpty then some tree else none
  | none => none

def read (text : String) : Option Tree :=
  readList text.toList

/-- Arrays and objects nest less deeply than this. -/
def depthLimit : Nat := 128

mutual

/-- The value of a tree within `depth` levels of nesting. -/
def toJsonWithin (depth : Nat) : Tree → Option Json
  | .null => some .null
  | .bool b => some (.bool b)
  | .number n => n.toNumber?.map .number
  | .string text => text.map .string
  | .array items =>
      if depth ≤ 1 then none else (itemsWithin (depth - 1) items).map .array
  | .object members =>
      if depth ≤ 1 then none
      else (membersWithin (depth - 1) members).map fun ms => .object (sortedMembers ms)

def itemsWithin (depth : Nat) : List Tree → Option (List Json)
  | [] => some []
  | item :: rest => do
      return (← toJsonWithin depth item) :: (← itemsWithin depth rest)

def membersWithin (depth : Nat) : List (Option String × Tree) → Option Members
  | [] => some []
  | (key, value) :: rest => do
      return (← key, ← toJsonWithin depth value) :: (← membersWithin depth rest)

end

def toJson? (tree : Tree) : Option Json :=
  toJsonWithin depthLimit tree

end Tree

/-- The value of a text, with sorted keys and the last of repeated members. -/
def read (text : String) : Option Json :=
  (Tree.read text).bind Tree.toJson?

end CacheUpkeep.Json
