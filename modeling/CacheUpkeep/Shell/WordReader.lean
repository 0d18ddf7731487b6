import CacheUpkeep.Shell.Token

/-!
# Reading words

A word ends at a blank, a line break or an operator outside of quotes and braces.
Each quote, brace or arithmetic expression opens a frame, and a frame says what
the characters in it mean and which of them ends it.
-/

namespace CacheUpkeep.Shell

inductive Quoting where
  | bare
  | double
  | single
  | arithmetic
deriving DecidableEq, Repr

/--
The part of a word between a brace, an arithmetic expression or a document and its
end.  `inner` counts double quotes within the braces, `held` keeps the quoting of
the braces when they close, and `document` is the line that ends a document.
-/
structure Frame where
  quoting : Quoting
  doubled : Bool
  inner : Bool
  braced : Bool
  held : Bool
  depth : Nat
  document : Option Announced
deriving DecidableEq, Repr

namespace Frame

def word : Frame :=
  ⟨.bare, false, false, false, false, 0, none⟩

def arithmetic (outer : Frame) : Frame :=
  ⟨.arithmetic, true, false, false, false, 0, outer.document⟩

def ofDocument (a : Announced) : Frame :=
  ⟨if a.expands then .double else .single, a.expands, false, false, false, 0, some a⟩

def braces (f : Frame) (quoting : Quoting) : Frame :=
  if quoting ≠ f.quoting || f.inner then
    ⟨quoting, quoting ≠ .bare, false, true, quoting ≠ .bare, 0, f.document⟩
  else { f with braced := true, held := f.held || f.doubled }

end Frame

/-- How commands within a word are read: up to a parenthesis, or a text of its own. -/
structure CommandReaders where
  parenthesized : Reading Command
  whole : Reading Command

namespace Reader

def isNameStart (c : Char) : Bool :=
  c.isAlpha || c = '_'

def isNameChar (c : Char) : Bool :=
  c.isAlphanum || c = '_'

def isName (text : List Char) : Bool :=
  match text with
  | c :: rest => isNameStart c && rest.all isNameChar
  | [] => false

def isSpecial (c : Char) : Bool :=
  c.isDigit || "!#$*-?@".toList.contains c

def backquote : Char := '\x60'

def run (kind : Char → Bool) : Nat → List Char → Reading (List Char × Option Char)
  | 0, text => return (text.reverse, none)
  | fuel + 1, text => do
      match ← joined with
      | some c => if kind c then run kind fuel (c :: text) else return (text.reverse, some c)
      | none => return (text.reverse, none)

def runAfter (kind : Char → Bool) (c : Char) : Reading (List Char × Option Char) := do
  run kind ((← get).rest.length + 1) [c]

/-! ## Parameters -/

def fallbackOf? (c : Char) : Option Fallback :=
  match c with
  | '-' => some .word
  | '+' => some .alternative
  | '?' => some .complain
  | '=' => some .assign
  | _ => none

/-- The treatment after the name of a parameter; `none` if the brace closes at once. -/
def treatmentAfter (c : Option Char) : Reading (Option Treatment) := do
  match c with
  | some '\x7d' => return none
  | some ':' =>
      match ← joined with
      | some '\x7d' => return some .spilled
      | some d => return some (((fallbackOf? d).map (.fallback · true)).getD .refused)
      | none => return some .refused
  | some '#' => return some (.trim .start (← takes '#'))
  | some '%' => return some (.trim .finish (← takes '%'))
  | some d => return some (((fallbackOf? d).map (.fallback · false)).getD .refused)
  | none => return some .refused

/-- The name after an opening brace, with its treatment, or `none` if that is no name. -/
def bracedName : Reading (String × Option Treatment) := do
  match ← joined with
  | some '\x7d' =>
      giveBack '\x7d'
      return ("", some .refused)
  | some '#' => afterHash
  | some c =>
      if isNameStart c then
        let (name, next) ← runAfter isNameChar c
        return (String.ofList name, ← treatmentAfter next)
      else if c.isDigit then
        let (name, next) ← runAfter Char.isDigit c
        return (String.ofList name, ← treatmentAfter next)
      else if isSpecial c then
        return (String.singleton c, ← treatmentAfter (← joined))
      else return ("", some .refused)
  | none => return ("", some .refused)
where
  /-- A hash asks for a length unless it is the parameter itself. -/
  afterHash : Reading (String × Option Treatment) := do
    match ← joined with
    | some c =>
        if isNameStart c then
          lengthOf (← runAfter isNameChar c)
        else if c.isDigit then lengthOf (← runAfter Char.isDigit c)
        else
          let next ← joined
          if c = '\x7d' || next ≠ some '\x7d' then
            giveBack next
            return ("#", ← treatmentAfter (some c))
          else
            giveBack next
            return if isSpecial c then (String.singleton c, some .length)
              else ("", some .refused)
    | none => return ("", some .refused)
  /-- The length of a parameter, if the brace closes after its name. -/
  lengthOf (found : List Char × Option Char) : Reading (String × Option Treatment) := do
    giveBack found.2
    let treatment := if found.2 = some '\x7d' then Treatment.length else .refused
    return (String.ofList found.1, some treatment)

/-- The parameter after a dollar sign without a brace. -/
def plainName (c : Char) : Reading String := do
  if isNameStart c then
    let (name, next) ← runAfter isNameChar c
    giveBack next
    return String.ofList name
  else return String.singleton c

/-! ## Substitutions -/

/-- The text up to a closing backquote; some backslashes in it go away. -/
def backquoted (doubled : Bool) : Nat → List Char → Reading (List Char)
  | 0, text => return text.reverse
  | fuel + 1, text => do
      match ← joined with
      | none => fail "EOF in backquote substitution"
      | some '\n' => do
          nextLine
          backquoted doubled fuel ('\n' :: text)
      | some '\\' =>
          match ← raw with
          | none => fail "EOF in backquote substitution"
          | some c =>
              if c = '\\' || c = backquote || c = '$' || (doubled && c = '"') then
                backquoted doubled fuel (c :: text)
              else
                backquoted doubled fuel (c :: '\\' :: text)
      | some c =>
          if c = backquote then return text.reverse
          else backquoted doubled fuel (c :: text)

def within {α : Type} (x : Reading α) : Reading α := do
  let before ← get
  let a ← x
  modify fun r => { r with quoted := before.quoted, announced := before.announced }
  return a

/-- The command in a text of its own, whose lines count from one. -/
def commandIn (readers : CommandReaders) (text : List Char) : Reading Command := do
  let before ← get
  set { before with rest := text, line := 1, announced := [], active := [] }
  let c ← readers.whole
  modify fun r =>
    { r with
      rest := before.rest, line := before.line, again := false, active := before.active }
  return c

/-! ## Frames -/

def endsDocument (a : Announced) (text : List Char) : Option (List Char) :=
  if a.mark.isPrefixOf text then
    match text.drop a.mark.length with
    | [] => some []
    | '\n' :: rest => some rest
    | _ => none
  else none

/-- The first character of a line; `none` if the line ends the document of the frame. -/
def lineStart (f : Frame) (c : Option Char) : Reading (Option Char) := do
  match f.document, c with
  | some a, some first => do
      let r ← get
      let text := first :: r.rest
      let text := if a.stripsTabs then text.dropWhile (· = '\t') else text
      match endsDocument a text with
      | some rest =>
          set { r with rest, line := r.line + 1 }
          return none
      | none =>
          set { r with rest := text.drop 1 }
          return text.head?
  | _, c => return c

def nextIn (f : Frame) : Reading (Option Char) :=
  if f.quoting = .single then raw else joined

def escapedPieces (f : Frame) (c : Char) : Word :=
  let kept :=
    f.doubled && c ≠ '\\' && c ≠ backquote && c ≠ '$' &&
      (c ≠ '"' || (f.document.isSome && !f.braced)) && (c ≠ '\x7d' || !f.braced)
  if kept then [.escaped c, .escaped '\\'] else [.escaped c]

def checkEnd (f : Frame) : Reading Unit := do
  if f.quoting = .arithmetic then fail "Missing '))'"
  else if f.quoting ≠ .bare && f.document.isNone then fail "Unterminated quoted string"
  else if f.braced then fail "Missing '\x7d'"

def isWordEnd (c : Char) : Bool :=
  " \t<>();&|".toList.contains c

/-- The mark of a quote, which documents have none of. -/
def quoteMark (f : Frame) : Word :=
  if f.document.isSome then [] else [.quote]

def plain (f : Frame) (c : Char) : Piece :=
  if f.quoting = .double || f.quoting = .single then .escaped c else .char c

/--
Reads to the end of a frame, with the pieces so far in reverse order.  The result
has the character that ended the word, which only the frame of a word leaves.
-/
def scan (readers : CommandReaders) :
    Nat → Frame → Option Char → Word → Reading (Word × Option Char)
  | 0, f, _, pieces => do
      checkEnd f
      return (pieces.reverse, none)
  | fuel + 1, f, c, pieces => do
      match c with
      | none =>
          checkEnd f
          return (pieces.reverse, none)
      | some c =>
          let more (f : Frame) (pieces : Word) : Reading (Word × Option Char) := do
            scan readers fuel f (← nextIn f) pieces
          if c = '\n' then
            if f.quoting = .bare && !f.braced then
              checkEnd f
              return (pieces.reverse, some c)
            else
              nextLine
              scan readers fuel f (← lineStart f (← nextIn f)) (plain f c :: pieces)
          else if f.quoting = .single then
            if c = '\'' && (f.document.isNone || f.braced) then
              modify fun r => { r with quoted := true }
              let f := if f.held then f else { f with quoting := .bare, doubled := false }
              more f (quoteMark f ++ pieces)
            else more f (.escaped c :: pieces)
          else if c = '\\' then
            match ← raw with
            | none => more f (.escaped '\\' :: pieces)
            | some d =>
                modify fun r => { r with quoted := true }
                more f (escapedPieces f d ++ pieces)
          else if c = '$' then
            let piece ← dollar fuel f
            more f (piece :: pieces)
          else if c = backquote && !(← get).expectation.mark then
            let text ← backquoted f.doubled ((← get).rest.length + 1) []
            let command ← within (commandIn readers text)
            more f (.substitution command :: pieces)
          else if c = '\x7d' && f.braced && !f.inner then return (pieces.reverse, none)
          else
            match f.quoting with
            | .bare =>
                if c = '\'' then
                  let f := { f with quoting := .single }
                  more f (quoteMark f ++ pieces)
                else if c = '"' then
                  let f :=
                    { f with quoting := .double, doubled := true, inner := f.inner ^^ f.braced }
                  more f (quoteMark f ++ pieces)
                else if isWordEnd c && !f.braced then
                  checkEnd f
                  return (pieces.reverse, some c)
                else more f (.char c :: pieces)
            | .double =>
                if c = '"' && (f.document.isNone || f.braced) then
                  modify fun r => { r with quoted := true }
                  let f := if f.held then f else { f with quoting := .bare, doubled := false }
                  let f := { f with inner := f.inner ^^ f.braced }
                  more f (quoteMark f ++ pieces)
                else more f (.escaped c :: pieces)
            | _ =>
                if c = '(' then more { f with depth := f.depth + 1 } (.char c :: pieces)
                else if c = ')' then
                  if 0 < f.depth then more { f with depth := f.depth - 1 } (.char c :: pieces)
                  else if ← takes ')' then return (pieces.reverse, none)
                  else more f (.char c :: pieces)
                else more f (.char c :: pieces)
where
  /-- The piece after a dollar sign. -/
  dollar (fuel : Nat) (f : Frame) : Reading Piece := do
    let c ← joined
    match c with
    | none => return plain f '$'
    | some d =>
        if (← get).expectation.mark then
          giveBack c
          return plain f '$'
        else if d = '(' then
          if ← takes '(' then
            let inner := f.arithmetic
            let (word, _) ← scan readers fuel inner (← nextIn inner) []
            return .arithmetic word
          else return .substitution (← within readers.parenthesized)
        else if d = '\x7b' then
          let (name, treatment) ← bracedName
          match treatment with
          | none => return .parameter name .value []
          | some t =>
              let quoting :=
                match t, f.quoting with
                | .trim _ _, _ => .bare
                | _, .arithmetic => .double
                | _, quoting => quoting
              let inner := f.braces quoting
              let (word, _) ← scan readers fuel inner (← nextIn inner) []
              return .parameter name t word
        else if isNameStart d || isSpecial d then
          return .parameter (← plainName d) .value []
        else
          giveBack c
          return plain f '$'

/-- Reads a word that starts with the given character, and the character after it. -/
def readWord (readers : CommandReaders) (c : Option Char) : Reading (Word × Option Char) := do
  modify fun r => { r with quoted := false }
  scan readers ((← get).rest.length + 2) Frame.word c []

def readDocument (readers : CommandReaders) (a : Announced) : Reading Unit := do
  let f := Frame.ofDocument a
  let first ← if a.expands then joined else raw
  let (body, _) ← scan readers ((← get).rest.length + 2) f (← lineStart f first) []
  modify fun r => { r with documents := r.documents ++ [(a.number, ⟨body, a.expands⟩)] }

/-- A text that is expanded as a whole, such as a prompt. -/
def prompt (readers : CommandReaders) : Reading Word := do
  let whole : Announced := ⟨0, ['\n'], false, true⟩
  return (← scan readers ((← get).rest.length + 2) (Frame.ofDocument whole) (← joined) []).1

def readDocuments (readers : CommandReaders) : Reading Unit := do
  let announced := (← get).announced
  modify fun r => { r with announced := [] }
  for a in announced do
    readDocument readers a

end Reader

end CacheUpkeep.Shell
