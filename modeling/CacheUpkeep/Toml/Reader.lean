import CacheUpkeep.Number.Limits
import CacheUpkeep.Toml.Table

/-!
# Reading TOML

The grammar of TOML 1.0 over lists of characters.  Each reader gives what it
read and the text after it.
-/

namespace CacheUpkeep.Toml

open CacheUpkeep.Text CacheUpkeep.Number

def isGap (c : Char) : Bool :=
  c = ' ' || c = '\t'

def skipGap (text : List Char) : List Char :=
  text.dropWhile isGap

def isInline (c : Char) : Bool :=
  c = '\t' || (32 ≤ c.toNat && c.toNat ≠ 127)

def newLine? : List Char → Option (List Char)
  | '\n' :: rest => some rest
  | '\r' :: '\n' :: rest => some rest
  | _ => none

def skipComment : List Char → List Char
  | '#' :: rest => rest.dropWhile isInline
  | text => text

/-- The rest of a line after a statement: gap, comment and line end. -/
def endLine? (text : List Char) : Option (List Char) :=
  match skipComment (skipGap text) with
  | [] => some []
  | rest => newLine? rest

/-- Skips gaps, comments and line ends between the items of an array. -/
def skipLines : Nat → List Char → Option (List Char)
  | 0, _ => none
  | fuel + 1, text =>
      match skipGap text with
      | '#' :: rest => (newLine? (rest.dropWhile isInline)).bind (skipLines fuel)
      | '\n' :: rest => skipLines fuel rest
      | '\r' :: '\n' :: rest => skipLines fuel rest
      | rest => some rest

/-! ## Strings -/

def hexDigitValue? (c : Char) : Option Nat :=
  if '0' ≤ c && c ≤ '9' then some (c.toNat - 48)
  else if 'a' ≤ c && c ≤ 'f' then some (c.toNat - 87)
  else if 'A' ≤ c && c ≤ 'F' then some (c.toNat - 55)
  else none

/-- The character of a hexadecimal code point that is no half of a surrogate pair. -/
def codePoint? (text : List Char) : Option Char := do
  let ds ← text.mapM hexDigitValue?
  let n := ds.foldl (fun total d => 16 * total + d) 0
  if n < 0xD800 || (0xE000 ≤ n && n < 0x110000) then some (Char.ofNat n) else none

/-- The character of an escape, without its backslash. -/
def readEscape : List Char → Option (Char × List Char)
  | 'b' :: rest => some ('\x08', rest)
  | 'f' :: rest => some ('\x0c', rest)
  | 'n' :: rest => some ('\n', rest)
  | 'r' :: rest => some ('\r', rest)
  | 't' :: rest => some ('\t', rest)
  | '"' :: rest => some ('"', rest)
  | '\\' :: rest => some ('\\', rest)
  | 'u' :: rest =>
      if rest.length < 4 then none
      else (codePoint? (rest.take 4)).map fun c => (c, rest.drop 4)
  | 'U' :: rest =>
      if rest.length < 8 then none
      else (codePoint? (rest.take 8)).map fun c => (c, rest.drop 8)
  | _ => none

def readBasic : Nat → List Char → Option (List Char × List Char)
  | 0, _ => none
  | fuel + 1, text =>
      match text with
      | '"' :: rest => some ([], rest)
      | '\\' :: rest => do
          let (c, rest) ← readEscape rest
          let (cs, rest) ← readBasic fuel rest
          return (c :: cs, rest)
      | c :: rest =>
          if isInline c then
            (readBasic fuel rest).map fun (cs, rest) => (c :: cs, rest)
          else none
      | [] => none

def readLiteral : List Char → Option (List Char × List Char)
  | '\'' :: rest => some ([], rest)
  | c :: rest =>
      if isInline c then (readLiteral rest).map fun (cs, rest) => (c :: cs, rest)
      else none
  | [] => none

/-- Gaps and line ends after a backslash at the end of a line. -/
def skipFolded : Nat → List Char → List Char
  | 0, text => text
  | fuel + 1, text =>
      match newLine? (skipGap text) with
      | some rest => skipFolded fuel rest
      | none => skipGap text

/--
The rest of a string of several lines.  Three quotes end it, and up to two more
before them belong to it.
-/
def readLong (quote : Char) (escapes : Bool) : Nat → List Char →
    Option (List Char × List Char)
  | 0, _ => none
  | fuel + 1, text =>
      match text with
      | [] => none
      | c :: rest =>
          if c = quote then
            let run := 1 + (rest.takeWhile (· = quote)).length
            let after := rest.dropWhile (· = quote)
            if run < 3 then
              (readLong quote escapes fuel after).map fun (cs, rest) =>
                (List.replicate run quote ++ cs, rest)
            else if run ≤ 5 then some (List.replicate (run - 3) quote, after)
            else none
          else if escapes && c = '\\' then
            match newLine? (skipGap rest) with
            | some next => readLong quote escapes fuel (skipFolded fuel next)
            | none => do
                let (c, rest) ← readEscape rest
                let (cs, rest) ← readLong quote escapes fuel rest
                return (c :: cs, rest)
          else
            match newLine? text with
            | some next =>
                (readLong quote escapes fuel next).map fun (cs, rest) => ('\n' :: cs, rest)
            | none =>
                if isInline c then
                  (readLong quote escapes fuel rest).map fun (cs, rest) => (c :: cs, rest)
                else none

/-- A line end right after the opening quotes does not belong to the string. -/
def dropFirstNewLine (text : List Char) : List Char :=
  (newLine? text).getD text

def readString (text : List Char) : Option (List Char × List Char) :=
  let fuel := text.length + 1
  match text with
  | '"' :: '"' :: '"' :: rest => readLong '"' true fuel (dropFirstNewLine rest)
  | '\'' :: '\'' :: '\'' :: rest => readLong '\'' false fuel (dropFirstNewLine rest)
  | '"' :: rest => readBasic fuel rest
  | '\'' :: rest => readLiteral rest
  | _ => none

/-! ## Keys -/

def isBareKeyChar (c : Char) : Bool :=
  c.isAlphanum || c = '_' || c = '-'

def readSimpleKey (text : List Char) : Option (String × List Char) :=
  match text with
  | '"' :: rest =>
      (readBasic (rest.length + 1) rest).map fun (cs, rest) => (String.ofList cs, rest)
  | '\'' :: rest =>
      (readLiteral rest).map fun (cs, rest) => (String.ofList cs, rest)
  | _ =>
      let key := text.takeWhile isBareKeyChar
      if key.isEmpty then none
      else some (String.ofList key, text.dropWhile isBareKeyChar)

def depthLimit : Nat := 80

def keyLimit : Nat := depthLimit - 1

/-- A key and the tables before its dots; gaps around each part are skipped. -/
def readKey : Nat → List Char → Option ((List String × String) × List Char)
  | 0, _ => none
  | fuel + 1, text => do
      let (key, rest) ← readSimpleKey (skipGap text)
      match skipGap rest with
      | '.' :: rest =>
          let ((path, last), rest) ← readKey fuel rest
          return ((key :: path, last), rest)
      | rest => return (([], key), rest)

/-! ## Numbers, dates and times -/

/-- Digits with single underscores between them, underscores dropped. -/
def readGroups (isDigitChar : Char → Bool) : List Char → Option (List Char × List Char)
  | [] => none
  | c :: rest =>
      if isDigitChar c then
        match rest with
        | '_' :: _ =>
            match readGroupsAfter isDigitChar rest with
            | some (cs, rest) => some (c :: cs, rest)
            | none => none
        | _ =>
            match readGroups isDigitChar rest with
            | some (cs, rest) => some (c :: cs, rest)
            | none => some ([c], rest)
      else none
where
  readGroupsAfter (isDigitChar : Char → Bool) : List Char → Option (List Char × List Char)
    | '_' :: rest => readGroups isDigitChar rest
    | _ => none

def readSign : List Char → Bool × List Char
  | '+' :: rest => (false, rest)
  | '-' :: rest => (true, rest)
  | text => (false, text)

/-- A decimal integer part: no zero before another digit. -/
def readWholePart (text : List Char) : Option (List Char × List Char) :=
  match text with
  | '0' :: rest => some (['0'], rest)
  | _ => readGroups isDigit text

def integerOf (negative : Bool) (n : Nat) : Option Value :=
  if negative then if n ≤ signedLimit64 then some (.integer (-(n : Int))) else none
  else if n < signedLimit64 then some (.integer n) else none

def readRadix (radix : Nat) (text : List Char) : Option (Value × List Char) := do
  let accepts (c : Char) : Bool :=
    match hexDigitValue? c with
    | some d => d < radix
    | none => false
  let (ds, rest) ← readGroups accepts text
  let n := ds.foldl (fun total c => radix * total + (hexDigitValue? c).getD 0) 0
  let value ← integerOf false n
  return (value, rest)

def readInteger (text : List Char) : Option (Value × List Char) :=
  match text with
  | '0' :: 'x' :: rest => readRadix 16 rest
  | '0' :: 'o' :: rest => readRadix 8 rest
  | '0' :: 'b' :: rest => readRadix 2 rest
  | _ => do
      let (negative, text) := readSign text
      let (ds, rest) ← readWholePart text
      let value ← integerOf negative (digitsValue ds)
      return (value, rest)

/-- Too large a number is refused, and too small a one is no finite number. -/
def realOfDecimal (negative : Bool) (ds : List Char) (k : Int) : Option Value :=
  let significant := ds.dropWhile (· = '0')
  let top : Int := significant.length + k
  let rounded :=
    if significant.isEmpty || top < -400 then some (Number.Binary64.zero negative)
    else if 400 < top then none
    else Number.Binary64.ofDecimal negative (digitsValue significant) k
  match rounded with
  | some x => some (.real x)
  | none => if negative then some .notFinite else none

def readExponentPart : List Char → Option (Option Int × List Char)
  | c :: text =>
      if c = 'e' || c = 'E' then do
        let (negative, text) := readSign text
        let (ds, rest) ← readGroups isDigit text
        let n : Int := digitsValue ds
        return (some (if negative then -n else n), rest)
      else some (none, c :: text)
  | [] => some (none, [])

def readReal (text : List Char) : Option (Value × List Char) := do
  let (negative, text) := readSign text
  match text with
  | 'i' :: 'n' :: 'f' :: rest => return (.notFinite, rest)
  | 'n' :: 'a' :: 'n' :: rest => return (.notFinite, rest)
  | _ =>
      let (whole, rest) ← readWholePart text
      match rest with
      | '.' :: rest =>
          let (fraction, rest) ← readGroups isDigit rest
          let (exponent, rest) ← readExponentPart rest
          let k := exponent.getD 0 - fraction.length
          let value ← realOfDecimal negative (whole ++ fraction) k
          return (value, rest)
      | _ =>
          let (exponent, rest) ← readExponentPart rest
          let value ← realOfDecimal negative whole (← exponent)
          return (value, rest)

def readFixed (count : Nat) (text : List Char) : Option (Nat × List Char) :=
  let ds := text.take count
  if ds.length = count && ds.all isDigit then some (digitsValue ds, text.drop count)
  else none

def readMark (mark : Char) : List Char → Option (List Char)
  | c :: rest => if c = mark then some rest else none
  | [] => none

def readDate (text : List Char) : Option (DateText × List Char) := do
  let (year, text) ← readFixed 4 text
  let text ← readMark '-' text
  let (month, text) ← readFixed 2 text
  let text ← readMark '-' text
  let (day, text) ← readFixed 2 text
  if Calendar.IsDate year month day then return (⟨year, month, day⟩, text) else none

/-- A time whose parts may be any numbers of two digits. -/
def readClock (text : List Char) : Option (TimeText × List Char) := do
  let (hour, text) ← readFixed 2 text
  let text ← readMark ':' text
  let (minute, text) ← readFixed 2 text
  let text ← readMark ':' text
  let (second, text) ← readFixed 2 text
  let (nano, text) ←
    match text with
    | '.' :: rest =>
        let ds := rest.takeWhile isDigit
        if ds.isEmpty then none
        else
          some (digitsValue ((ds ++ List.replicate 9 '0').take 9), rest.drop ds.length)
    | text => some (0, text)
  return (⟨hour, minute, second, nano⟩, text)

def readTime (text : List Char) : Option (TimeText × List Char) := do
  let (time, rest) ← readClock text
  if 24 ≤ time.hour || 60 ≤ time.minute || 61 ≤ time.second then none
  else return (time, rest)

/-- Hours and minutes that may be any numbers of two digits. -/
def readShift (text : List Char) : Option (Nat × Nat × List Char) := do
  let (hours, rest) ← readFixed 2 text
  let rest ← readMark ':' rest
  let (minutes, rest) ← readFixed 2 rest
  return (hours, minutes, rest)

def readOffset (text : List Char) : Option (Option OffsetText × List Char) :=
  match text with
  | c :: rest =>
      if c = 'Z' || c = 'z' then some (some .utc, rest)
      else if c = '+' || c = '-' then do
        let (hours, minutes, rest) ← readShift rest
        if 24 ≤ hours || 60 ≤ minutes then none
        else
          let n : Int := hours * 60 + minutes
          return (some (.minutes (if c = '-' then -n else n)), rest)
      else some (none, c :: rest)
  | [] => some (none, [])

def startsTime : List Char → Bool
  | a :: b :: _ => isDigit a && isDigit b
  | _ => false

def readMoment (text : List Char) : Option (Moment × List Char) :=
  match readDate text with
  | some (date, rest) =>
      match rest with
      | c :: after =>
          if (c = 'T' || c = 't' || c = ' ') && startsTime after then do
            let (time, rest) ← readTime after
            let (offset, rest) ← readOffset rest
            return (⟨some date, some time, offset⟩, rest)
          else some (⟨some date, none, none⟩, rest)
      | [] => some (⟨some date, none, none⟩, [])
  | none => (readTime text).map fun (time, rest) => (⟨none, some time, none⟩, rest)

/-- Whether the text is a date or a time rather than a number. -/
def looksLikeMoment (text : List Char) : Bool :=
  let ds := text.takeWhile isDigit
  match text.drop ds.length with
  | '-' :: _ => ds.length = 4
  | ':' :: _ => ds.length = 2
  | _ => false

def readNumberOrMoment (text : List Char) : Option (Value × List Char) :=
  if looksLikeMoment text then
    (readMoment text).map fun (m, rest) => (.moment m, rest)
  else
    match readReal text with
    | some result => some result
    | none => if isRealText text then none else readInteger text
where
  isRealText (text : List Char) : Bool :=
    let (_, text) := readSign text
    match readWholePart text with
    | some (_, c :: _) => c = '.' || c = 'e' || c = 'E'
    | _ => false

/-! ## Values -/

mutual

/-- Reads a value inside `depth` arrays and inline tables. -/
def readValue (depth : Nat) : Nat → List Char → Option (Value × List Char)
  | 0, _ => none
  | fuel + 1, text =>
      match text with
      | '"' :: _ | '\'' :: _ =>
          (readString text).map fun (cs, rest) => (.string (String.ofList cs), rest)
      | '[' :: rest =>
          if depthLimit ≤ depth + 1 then none
          else do
            let (items, rest) ← readItems (depth + 1) fuel rest
            return (.array items, rest)
      | '\x7b' :: rest =>
          if depthLimit ≤ depth + 1 then none
          else
            match skipGap rest with
            | '\x7d' :: rest => some (.table [], rest)
            | rest => do
                let (slots, rest) ← readPairs (depth + 1) fuel [] rest
                return (.table (slotsToEntries slots), rest)
      | 't' :: 'r' :: 'u' :: 'e' :: rest => some (.bool true, rest)
      | 'f' :: 'a' :: 'l' :: 's' :: 'e' :: rest => some (.bool false, rest)
      | _ => readNumberOrMoment text

/-- Reads the items of an array and its closing bracket; the last comma is optional. -/
def readItems (depth : Nat) : Nat → List Char → Option (List Value × List Char)
  | 0, _ => none
  | fuel + 1, text => do
      match ← skipLines (text.length + 1) text with
      | ']' :: rest => return ([], rest)
      | text =>
          let (item, rest) ← readValue depth fuel text
          match ← skipLines (rest.length + 1) rest with
          | ']' :: rest => return ([item], rest)
          | ',' :: rest =>
              let (items, rest) ← readItems depth fuel rest
              return (item :: items, rest)
          | _ => none

/-- Reads the pairs of an inline table and its closing brace, all on one line. -/
def readPairs (depth : Nat) : Nat → Slots → List Char → Option (Slots × List Char)
  | 0, _, _ => none
  | fuel + 1, slots, text => do
      let ((path, key), rest) ← readKey keyLimit text
      match rest with
      | '=' :: rest =>
          let (value, rest) ← readValue depth fuel (skipGap rest)
          let slots ← slots.addPair path key value
          match skipGap rest with
          | '\x7d' :: rest => return (slots, rest)
          | ',' :: rest => readPairs depth fuel slots rest
          | _ => none
      | _ => none

end

/-! ## Documents -/

def readPair (text : List Char) : Option (Statement × List Char) := do
  let ((path, key), rest) ← readKey keyLimit text
  match rest with
  | '=' :: rest =>
      let (value, rest) ← readValue 0 (rest.length + 1) (skipGap rest)
      return (.pair path key value, rest)
  | _ => none

def readHeader (text : List Char) : Option (Statement × List Char) :=
  match text with
  | '[' :: '[' :: rest => do
      let ((path, key), rest) ← readKey keyLimit rest
      match rest with
      | ']' :: ']' :: rest => return (.element path key, rest)
      | _ => none
  | '[' :: rest => do
      let ((path, key), rest) ← readKey keyLimit rest
      match rest with
      | ']' :: rest => return (.header path key, rest)
      | _ => none
  | _ => none

def readStatements : Nat → List Char → Option (List Statement)
  | 0, _ => none
  | fuel + 1, text =>
      match skipGap text with
      | [] => some []
      | '#' :: rest => (endLine? ('#' :: rest)).bind (readStatements fuel)
      | '\n' :: rest => readStatements fuel rest
      | '\r' :: '\n' :: rest => readStatements fuel rest
      | text => do
          let (statement, rest) ←
            if text.head? = some '[' then readHeader text else readPair text
          let rest ← endLine? rest
          return statement :: (← readStatements fuel rest)

/-- A byte order mark may come before the document. -/
def dropMark : List Char → List Char
  | '\uFEFF' :: rest => rest
  | text => text

def read (text : String) : Option Entries := do
  let text := dropMark text.toList
  entriesOf (← readStatements (text.length + 1) text)

end CacheUpkeep.Toml
