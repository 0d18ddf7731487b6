import CacheUpkeep.Text.Decimal
import CacheUpkeep.Text.Letters

/-!
# Patterns of log filters

A field of a log filter may ask for a value: a truth value, a number or a regular
expression.  Only whether the value is one of them matters here, since no value
decides for an event outside spans.  A value holds no closing brace, so a counted
repetition is never complete.
-/

namespace CacheUpkeep.CommandLine.LogPattern

open CacheUpkeep.Text

structure Flags where
  blanks : Bool
  unicode : Bool
deriving DecidableEq, Repr

/-- The reading of a pattern: flags of this group, those of groups around it, names. -/
structure Reading where
  flags : Flags
  outer : List Flags
  names : List (List Char)
  repeatable : Bool
deriving DecidableEq, Repr

def Reading.start : Reading :=
  ⟨⟨false, true⟩, [], [], false⟩

def isAsciiLetter (c : Char) : Bool :=
  c.isAlpha

def isHexDigit (c : Char) : Bool :=
  isDigit c || ('a' ≤ c && c ≤ 'f') || ('A' ≤ c && c ≤ 'F')

def hexDigitValue (c : Char) : Nat :=
  if isDigit c then digitValue c else 10 + (c.toLower.toNat - 'a'.toNat)

def hexValueOf (cs : List Char) : Nat :=
  cs.foldl (fun n c => 16 * n + hexDigitValue c) 0

/-! ## Escapes -/

/-- What an escape stands for: one code point, several, or a place in the text. -/
inductive EscapeKind where
  | literal (code : Nat)
  | several (negated : Bool)
  | place
deriving DecidableEq, Repr

def readHex? (count : Nat) (text : List Char) : Option (EscapeKind × List Char) :=
  let ds := text.take count
  let n := hexValueOf ds
  if ds.length = count && ds.all isHexDigit && n.isValidChar then
    some (.literal n, text.drop count)
  else none

def categoryLetters : List Char :=
  "clmnpsz".toList

def controlLetter? (c : Char) : Option Nat :=
  match c with
  | 'a' => some 7
  | 'f' => some 12
  | 't' => some 9
  | 'n' => some 10
  | 'r' => some 13
  | 'v' => some 11
  | _ => none

/--
The escape after a backslash.  A word boundary needs the letters of ASCII alone,
and what is negated then matches parts of characters, which is refused.
-/
def readEscape? (unicode : Bool) (text : List Char) : Option (EscapeKind × List Char) :=
  match text with
  | [] => none
  | 'x' :: rest => readHex? 2 rest
  | 'u' :: rest => readHex? 4 rest
  | 'U' :: rest => readHex? 8 rest
  | 'p' :: c :: rest | 'P' :: c :: rest =>
      if unicode && categoryLetters.contains c.toLower then some (.several false, rest)
      else none
  | c :: rest =>
      if c = 'd' || c = 's' || c = 'w' then some (.several false, rest)
      else if c = 'D' || c = 'S' || c = 'W' then
        if unicode then some (.several true, rest) else none
      else if c = 'A' || c = 'z' then some (.place, rest)
      else if c = 'b' || c = 'B' || c = '<' || c = '>' then
        if unicode then none else some (.place, rest)
      else
        match controlLetter? c with
        | some n => some (.literal n, rest)
        | none =>
            if isDigit c || isAsciiLetter c || 128 ≤ c.toNat then none
            else some (.literal c.toNat, rest)

/-! ## Bracket lists -/

def dropBlanks (flags : Flags) (text : List Char) : List Char :=
  if flags.blanks then text.dropWhile Char.isWhitespace else text

def classNames : List String :=
  ["alnum", "alpha", "ascii", "blank", "cntrl", "digit", "graph", "lower", "print",
    "punct", "space", "upper", "word", "xdigit"]

/-- The text after a named class such as `[:alpha:]`, if one starts here. -/
def namedClass? (text : List Char) : Option (List Char) :=
  match text with
  | '[' :: ':' :: rest =>
      let rest := match rest with
        | '^' :: more => more
        | _ => rest
      let name := rest.takeWhile (· ≠ ':')
      match rest.dropWhile (· ≠ ':') with
      | ':' :: ']' :: after =>
          if classNames.contains (String.ofList name) then some after else none
      | _ => none
  | _ => none

def readElement? (flags : Flags) (text : List Char) : Option (EscapeKind × List Char) :=
  match text with
  | [] => none
  | '\\' :: rest => readEscape? flags.unicode rest
  | c :: rest =>
      if flags.unicode || c.toNat < 128 then some (.literal c.toNat, rest) else none

def readRange? (flags : Flags) (text : List Char) : Option (List Char) := do
  let (low, rest) ← readElement? flags text
  if low = .place then none
  let rest := dropBlanks flags rest
  match rest with
  | '-' :: more =>
      match dropBlanks flags more with
      | ']' :: _ | '-' :: _ => return rest
      | more => do
          let (high, after) ← readElement? flags more
          match low, high with
          | .literal a, .literal b => if a ≤ b then return after else none
          | _, _ => none
  | _ => return rest

/-- The start of a bracket list: it may be negated, and hyphens or a bracket stand first. -/
def openList? (flags : Flags) (text : List Char) : Option (List Char) :=
  let text := dropBlanks flags text
  let (negated, text) :=
    match text with
    | '^' :: rest => (true, dropBlanks flags rest)
    | _ => (false, text)
  if negated && !flags.unicode then none
  else
    let hyphens := text.takeWhile (· = '-')
    let text := text.drop hyphens.length
    match text with
    | ']' :: rest => if hyphens.isEmpty then some rest else some text
    | _ => some text

/-- The text after bracket lists, so many of them within each other. -/
def readList? (flags : Flags) : Nat → Nat → List Char → Option (List Char)
  | 0, _, _ => none
  | fuel + 1, depth, text =>
      match dropBlanks flags text with
      | [] => none
      | ']' :: rest => if depth = 0 then some rest else readList? flags fuel (depth - 1) rest
      | '&' :: '&' :: rest | '-' :: '-' :: rest | '~' :: '~' :: rest =>
          readList? flags fuel depth rest
      | '[' :: rest =>
          match namedClass? ('[' :: rest) with
          | some after => readList? flags fuel depth after
          | none =>
              match openList? flags rest with
              | some inner => readList? flags fuel (depth + 1) inner
              | none => none
      | text =>
          match readRange? flags text with
          | some rest => readList? flags fuel depth rest
          | none => none

/-! ## Groups -/

/-- The flags before a colon or a closing parenthesis, each with whether it is negated. -/
def readFlags? (seen : List (Char × Bool)) (negated : Bool) :
    List Char → Option (List (Char × Bool) × List Char)
  | [] => none
  | c :: rest =>
      if c = ':' || c = ')' then
        if negated && seen.head?.any (fun flag => flag.1 = '-') then none
        else some (seen, c :: rest)
      else if c = '-' then
        if negated then none else readFlags? (('-', true) :: seen) true rest
      else if "imsUuRx".toList.contains c && seen.all fun flag => flag.1 ≠ c then
        readFlags? ((c, negated) :: seen) negated rest
      else none

def Flags.apply (flags : Flags) (changes : List (Char × Bool)) : Flags :=
  ⟨((changes.lookup 'x').map (!·)).getD flags.blanks,
    ((changes.lookup 'u').map (!·)).getD flags.unicode⟩

def readGroupName? (text : List Char) : Option (List Char × List Char) :=
  let name := text.takeWhile (· ≠ '>')
  match name, text.drop name.length with
  | first :: others, '>' :: rest =>
      let isFirst := first = '_' || (isLetterOrNumber first && !isDigit first)
      let isOther (c : Char) : Bool :=
        c = '_' || c = '.' || c = '[' || c = ']' || isLetterOrNumber c
      if isFirst && others.all isOther then some (name, rest) else none
  | _, _ => none

def Reading.nest (r : Reading) (flags : Flags) : Reading :=
  { r with flags, outer := r.flags :: r.outer, repeatable := false }

def Reading.nestNamed? (r : Reading) (text : List Char) : Option (Reading × List Char) := do
  let (name, rest) ← readGroupName? text
  if r.names.contains name then none
  else return ({ r.nest r.flags with names := name :: r.names }, rest)

/-- What follows an opening parenthesis: a group, or flags for the rest of this one. -/
def Reading.openGroup? (r : Reading) (text : List Char) : Option (Reading × List Char) :=
  match dropBlanks r.flags text with
  | '?' :: 'P' :: '<' :: rest => r.nestNamed? rest
  | '?' :: '=' :: _ | '?' :: '!' :: _ | '?' :: '<' :: '=' :: _ | '?' :: '<' :: '!' :: _ =>
      none
  | '?' :: '<' :: rest => r.nestNamed? rest
  | '?' :: rest => do
      let (changes, rest) ← readFlags? [] false rest
      match rest with
      | ')' :: rest =>
          if changes.isEmpty then none
          else return ({ r with flags := r.flags.apply changes, repeatable := false }, rest)
      | rest => return (r.nest (r.flags.apply changes), rest.drop 1)
  | rest => some (r.nest r.flags, rest)

/-! ## Patterns -/

def Reading.step? (r : Reading) (c : Char) (rest : List Char) :
    Option (Reading × List Char) :=
  let whole := { r with repeatable := true }
  match c with
  | '(' => r.openGroup? rest
  | ')' =>
      match r.outer with
      | [] => none
      | flags :: outer => some ({ r with flags, outer, repeatable := true }, rest)
  | '|' => some ({ r with repeatable := false }, rest)
  | '[' => do
      let inner ← openList? r.flags rest
      return (whole, ← readList? r.flags (rest.length + 1) 0 inner)
  | '*' | '+' | '?' =>
      if !r.repeatable then none
      else
        match rest with
        | '?' :: rest => some (whole, rest)
        | _ => some (whole, rest)
  | '\x7b' => none
  | '\\' => (readEscape? r.flags.unicode rest).map fun (_, rest) => (whole, rest)
  | '.' => if r.flags.unicode then some (whole, rest) else none
  | _ => some (whole, rest)

/-- Reads a pattern; every part takes a character, so its length is fuel enough. -/
def Reading.readAll : Nat → Reading → List Char → Bool
  | 0, _, _ => false
  | fuel + 1, r, text =>
      let text := dropBlanks r.flags text
      match text with
      | [] => r.outer.isEmpty
      | c :: rest =>
          if r.flags.blanks && c = '#' then
            readAll fuel r (rest.dropWhile (· ≠ '\n'))
          else
            match r.step? c rest with
            | some (r, rest) => readAll fuel r rest
            | none => false

def isRegular (text : List Char) : Bool :=
  Reading.start.readAll (text.length + 1) text

/-! ## Numbers -/

def isDecimalText (text : List Char) : Bool :=
  let whole := text.takeWhile isDigit
  let rest := text.dropWhile isDigit
  let (part, rest) :=
    match rest with
    | '.' :: rest => (rest.takeWhile isDigit, rest.dropWhile isDigit)
    | _ => ([], rest)
  let power :=
    match rest with
    | [] => true
    | 'e' :: '-' :: ds | 'e' :: '+' :: ds | 'E' :: '-' :: ds | 'E' :: '+' :: ds
    | 'e' :: ds | 'E' :: ds => !ds.isEmpty && ds.all isDigit
    | _ => false
  (!whole.isEmpty || !part.isEmpty) && power

def isNumber (text : List Char) : Bool :=
  let text :=
    match text with
    | '+' :: rest | '-' :: rest => rest
    | _ => text
  isDecimalText text ||
    ["inf", "infinity", "nan"].any fun name => text.map Char.toLower = name.toList

def isValid (text : List Char) : Bool :=
  isNumber text || isRegular text

end CacheUpkeep.CommandLine.LogPattern
