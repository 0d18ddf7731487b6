import CacheUpkeep.Shell.WordReader

/-!
# Reading commands

The grammar of the shell language: lists of pipelines of commands, compound
commands and the definitions of functions.  A script is read one complete command
after the other, so that each of them can run before the next one is read.
-/

namespace CacheUpkeep.Shell.Reader

def specialNames : List String :=
  [".", ":", "break", "continue", "eval", "exec", "exit", "export", "local", "readonly",
    "return", "set", "shift", "times", "trap", "unset"]

def literalText? (w : Word) : Option (List Char) :=
  w.mapM fun p =>
    match p with
    | .char c => some c
    | _ => none

def isAssignment (w : Word) : Bool :=
  let leading := (w.takeWhile isLiteral).filterMap charOf
  match leading.dropWhile isNameChar with
  | '=' :: _ => isName (leading.takeWhile isNameChar)
  | _ => false
where
  isLiteral : Piece → Bool
    | .char _ => true
    | _ => false
  charOf : Piece → Option Char
    | .char c => some c
    | _ => none

def unquoted (w : Word) : List Char :=
  w.filterMap fun p =>
    match p with
    | .char c | .escaped c => some c
    | _ => none

/-! ## Tokens -/

/-- The descriptor in front of a redirection, if the word there is one digit or none. -/
def descriptorBefore? (w : Word) (quoted : Bool) : Option (Option Nat) :=
  if quoted then none
  else
    match w with
    | [] => some none
    | [.char d] => if d.isDigit then some (some (d.toNat - 48)) else none
    | _ => none

def redirectMark (fd : Option Nat) (c : Char) : Reading RedirectMark := do
  if c = '>' then
    let fd := fd.getD 1
    if ← takes '>' then return .file fd .append
    else if ← takes '|' then return .file fd .overwrite
    else if ← takes '&' then return .copy fd
    else return .file fd .write
  else
    let fd := fd.getD 0
    if ← takes '<' then return .document fd (← takes '-')
    else if ← takes '&' then return .copy fd
    else if ← takes '>' then return .file fd .readWrite
    else return .file fd .read

/-- A word, or the redirection that it stands in front of. -/
def wordToken (readers : CommandReaders) (c : Char) : Reading Token := do
  let (word, next) ← readWord readers c
  match descriptorBefore? word (← get).quoted, next with
  | some fd, some '<' => return .redirect (← redirectMark fd '<')
  | some fd, some '>' => return .redirect (← redirectMark fd '>')
  | _, _ =>
      giveBack next
      modify fun r => { r with word }
      return .word

def basicToken (readers : CommandReaders) : Nat → Reading Token
  | 0 => return .finish
  | fuel + 1 => do
      match ← joined with
      | none => return .finish
      | some '#' =>
          modify fun r => { r with rest := r.rest.dropWhile (· ≠ '\n') }
          basicToken readers fuel
      | some '\n' =>
          nextLine
          return .newline
      | some '&' => return if ← takes '&' then .both else .ampersand
      | some '|' => return if ← takes '|' then .either else .pipe
      | some ';' => return if ← takes ';' then .endCase else .semicolon
      | some '(' => return .left
      | some ')' => return .right
      | some c =>
          if c = ' ' || c = '\t' then basicToken readers fuel
          else wordToken readers c

/-- The next token, or the last one if it is to be given again. -/
def anyToken (readers : CommandReaders) : Reading Token := do
  let r ← get
  if r.again then
    set { r with again := false }
    return r.last
  else
    let t ← basicToken readers (r.rest.length + 1)
    modify fun r => { r with last := t }
    return t

/-- Passes over line breaks, with the documents that start after them. -/
def passBreaks (readers : CommandReaders) : Nat → Token → Reading Token
  | 0, t => return t
  | fuel + 1, t => do
      if t = .newline then
        readDocuments readers
        expect .none
        passBreaks readers fuel (← anyToken readers)
      else return t

def aliasFor? (r : Reader) (name : String) : Option String :=
  let inUse := r.active.any fun (n, left) => n = name && left ≤ r.rest.length
  if inUse then none else r.aliases.lookup name

/-- Whether the text of an alias with a blank at its end has been left since. -/
def leavesBlank (before after : Reader) : Bool :=
  after.active.any fun (name, left) =>
    let ending := ((after.aliases.lookup name).getD "").toList.getLast?
    (ending = some ' ' || ending = some '\t') &&
      left < before.rest.length && after.rest.length ≤ left

/-- The next token as the place expects it; an alias gives way to its text. -/
def tokenAs (readers : CommandReaders) (wanted : Expectation) : Nat → Reading Token
  | 0 => return (← get).last
  | fuel + 1 => do
      let before ← get
      let t ← anyToken readers
      let follows := leavesBlank before (← get)
      let wanted := { wanted with aliases := wanted.aliases || follows }
      let t ← if wanted.breaks then passBreaks readers ((← get).rest.length + 1) t else pure t
      let wanted := wanted.union (← get).expectation
      expect .none
      let r ← get
      if t ≠ .word || r.quoted then return t
      else
        match literalText? r.word with
        | none => return t
        | some text =>
            let name := String.ofList text
            match if wanted.keywords then Keyword.read? name else none with
            | some k =>
                set { r with last := .keyword k }
                return .keyword k
            | none =>
                match if wanted.aliases then aliasFor? r name else none with
                | some value =>
                    set { r with
                      rest := value.toList ++ r.rest
                      active := (name, r.rest.length) :: r.active }
                    tokenAs readers wanted fuel
                | none => return t

def aliasLimit : Nat := 100

def token (readers : CommandReaders) : Reading Token := do
  tokenAs readers (← get).expectation aliasLimit

/-! ## Redirections -/

def redirect (readers : CommandReaders) (mark : RedirectMark) : Reading Redirect := do
  match mark with
  | .document _ _ => expect { Expectation.none with mark := true }
  | _ => pure ()
  let t ← token readers
  if t ≠ .word then refuse none
  let r ← get
  match mark with
  | .file fd kind => return .file fd kind r.word
  | .copy fd => return .copy fd r.word
  | .document fd stripsTabs =>
      let a : Announced := ⟨r.nextDocument, unquoted r.word, stripsTabs, !r.quoted⟩
      set { r with announced := r.announced ++ [a], nextDocument := r.nextDocument + 1 }
      return .document fd a.number

def redirects (readers : CommandReaders) : Nat → Reading (List Redirect)
  | 0 => return []
  | fuel + 1 => do
      match ← token readers with
      | .redirect mark =>
          let r ← redirect readers mark
          return r :: (← redirects readers fuel)
      | _ =>
          repeatToken
          return []

def words (readers : CommandReaders) : Nat → Reading (List Word)
  | 0 => return []
  | fuel + 1 => do
      match ← token readers with
      | .word =>
          let w := (← get).word
          return w :: (← words readers fuel)
      | _ => return []

def patterns (readers : CommandReaders) : Nat → Reading (List Word)
  | 0 => return []
  | fuel + 1 => do
      let w := (← get).word
      if (← token readers) = .pipe then
        let _ ← token readers
        return w :: (← patterns readers fuel)
      else return [w]

/-! ## Commands -/

def allArguments : Word :=
  [.quote, .parameter "@" .value [], .quote]

def detach : Command → Command
  | .pipeline _ commands => .pipeline true commands
  | .redirected line body redirects => .detached line body redirects
  | c => .detached 0 c []

/-- The parts of a simple command that have been read, each list in reverse order. -/
structure SimpleParts where
  assignments : List Word
  words : List Word
  redirects : List Redirect

def SimpleParts.command (p : SimpleParts) (line : Nat) : Command :=
  .simple line p.assignments.reverse p.words.reverse p.redirects.reverse

/-- A word is the name of a function if nothing else comes before it. -/
def SimpleParts.functionName? (p : SimpleParts) : Option Word :=
  match p.assignments, p.words, p.redirects with
  | [], [name], [] => some name
  | _, _, _ => none

def checkKeyword (readers : CommandReaders) (k : Keyword) : Reading Unit := do
  let t ← token readers
  if t ≠ .keyword k then refuse (some (.keyword k))

def checkToken (readers : CommandReaders) (expected : Token) : Reading Unit := do
  let t ← token readers
  if t ≠ expected then refuse (some expected)

mutual

/-- The command up to a closing parenthesis, which ends all documents in it. -/
def parenthesized : Nat → Reading Command
  | 0 => refuse none
  | fuel + 1 => do
      modify fun r => { r with announced := [] }
      let c ← innerList fuel
      let readers := ⟨parenthesized fuel, innerList fuel⟩
      checkToken readers .right
      let rest := (← get).rest
      modify fun r => { r with rest := [] }
      readDocuments readers
      modify fun r => { r with rest }
      return c

def innerList : Nat → Reading Command
  | 0 => refuse none
  | fuel + 1 => do
      return (← list fuel false true none).getD .nothing

def body : Nat → Reading Command
  | 0 => refuse none
  | fuel + 1 => do
      return (← list fuel false false none).getD .nothing

/--
Commands with separators between them.  A list of its own ends with its line, and
another one at a token that can end it; `none` says that the text ends here.
-/
def list : Nat → Bool → Bool → Option Command → Reading (Option Command)
  | 0, _, _, _ => refuse none
  | fuel + 1, ownLine, mayEnd, before => do
      let readers := ⟨parenthesized fuel, innerList fuel⟩
      let atEnd : Reading (Option Command) := do
        readDocuments readers
        modify fun r => { r with again := true, last := .finish }
        return before <|> if ownLine then none else some .nothing
      expect (if ownLine then .command else .commandBelow)
      match ← token readers with
      | .newline =>
          readDocuments readers
          return before <|> some .nothing
      | .finish => atEnd
      | t =>
          repeatToken
          if mayEnd && !ownLine && t.endsList then return before <|> some .nothing
          else
            let c ← andOr fuel
            let t ← token readers
            let c := if t = .ampersand then detach c else c
            let sofar :=
              match before with
              | some b => .sequence b c
              | none => c
            match t with
            | .finish =>
                readDocuments readers
                modify fun r => { r with again := true, last := .finish }
                return some sofar
            | .newline =>
                repeatToken
                list fuel ownLine true (some sofar)
            | .ampersand | .semicolon => list fuel ownLine true (some sofar)
            | _ =>
                if ownLine then refuse none
                else
                  repeatToken
                  return some sofar

def andOr : Nat → Reading Command
  | 0 => refuse none
  | fuel + 1 => do
      let first ← pipeline fuel
      andOrAfter fuel first

def andOrAfter : Nat → Command → Reading Command
  | 0, _ => refuse none
  | fuel + 1, first => do
      let readers := ⟨parenthesized fuel, innerList fuel⟩
      match ← token readers with
      | .both =>
          expect .commandBelow
          let second ← pipeline fuel
          andOrAfter fuel (.both first second)
      | .either =>
          expect .commandBelow
          let second ← pipeline fuel
          andOrAfter fuel (.either first second)
      | _ =>
          repeatToken
          return first

def pipeline : Nat → Reading Command
  | 0 => refuse none
  | fuel + 1 => do
      let readers := ⟨parenthesized fuel, innerList fuel⟩
      if (← token readers) = .keyword .bang then
        expect .command
        return .negation (← piped fuel)
      else
        repeatToken
        piped fuel

def piped : Nat → Reading Command
  | 0 => refuse none
  | fuel + 1 => do
      let first ← command fuel
      match ← pipedAfter fuel with
      | [] => return first
      | others => return .pipeline false (first :: others)

def pipedAfter : Nat → Reading (List Command)
  | 0 => refuse none
  | fuel + 1 => do
      let readers := ⟨parenthesized fuel, innerList fuel⟩
      if (← token readers) = .pipe then
        expect .commandBelow
        let c ← command fuel
        return c :: (← pipedAfter fuel)
      else
        repeatToken
        return []

def command : Nat → Reading Command
  | 0 => refuse none
  | fuel + 1 => do
      let readers := ⟨parenthesized fuel, innerList fuel⟩
      let line := (← get).line
      match ← token readers with
      | .keyword .if =>
          let c ← choice fuel
          checkKeyword readers .fi
          redirected fuel line c
      | .keyword .while => redirected fuel line (← loopBody fuel true)
      | .keyword .until => redirected fuel line (← loopBody fuel false)
      | .keyword .for => redirected fuel line (← each fuel line)
      | .keyword .case => redirected fuel line (← cases fuel line)
      | .keyword .opening =>
          let c ← body fuel
          checkKeyword readers .closing
          redirected fuel line c
      | .left =>
          let c ← body fuel
          checkToken readers .right
          redirected fuel line (.subshell line c [])
      | .word | .redirect _ =>
          repeatToken
          let line := (← get).line
          simple fuel line true ⟨[], [], []⟩
      | _ => refuse none

def redirected : Nat → Nat → Command → Reading Command
  | 0, _, _ => refuse none
  | fuel + 1, line, c => do
      let readers := ⟨parenthesized fuel, innerList fuel⟩
      expect .command
      match ← redirects readers ((← get).rest.length + 1), c with
      | [], c => return c
      | rs, .subshell line body _ => return .subshell line body rs
      | rs, c => return .redirected line c rs

def choice : Nat → Reading Command
  | 0 => refuse none
  | fuel + 1 => do
      let readers := ⟨parenthesized fuel, innerList fuel⟩
      let condition ← body fuel
      checkKeyword readers .then
      let accepted ← body fuel
      match ← token readers with
      | .keyword .elif => return .choice condition accepted (← choice fuel)
      | .keyword .else => return .choice condition accepted (← body fuel)
      | _ =>
          repeatToken
          return .choice condition accepted .nothing

def loopBody : Nat → Bool → Reading Command
  | 0, _ => refuse none
  | fuel + 1, whileTrue => do
      let readers := ⟨parenthesized fuel, innerList fuel⟩
      let condition ← body fuel
      checkKeyword readers .do
      let c ← body fuel
      checkKeyword readers .done
      return .loop whileTrue condition c

def each : Nat → Nat → Reading Command
  | 0, _ => refuse none
  | fuel + 1, line => do
      let readers := ⟨parenthesized fuel, innerList fuel⟩
      let t ← token readers
      let r ← get
      match if t = .word && !r.quoted then literalText? r.word else none with
      | none => fail "Bad for loop variable"
      | some name =>
          if !isName name then fail "Bad for loop variable"
          else
            expect .commandBelow
            let items ←
              if (← token readers) = .keyword .in then do
                let ws ← words readers (r.rest.length + 1)
                let last := (← get).last
                if last ≠ .newline && last ≠ .semicolon then refuse none
                pure ws
              else do
                if (← get).last ≠ .semicolon then repeatToken
                pure [allArguments]
            expect .commandBelow
            checkKeyword readers .do
            let c ← body fuel
            checkKeyword readers .done
            return .each line (String.ofList name) items c

def cases : Nat → Nat → Reading Command
  | 0, _ => refuse none
  | fuel + 1, line => do
      let readers := ⟨parenthesized fuel, innerList fuel⟩
      checkToken readers .word
      let w := (← get).word
      expect .commandBelow
      checkKeyword readers .in
      return .cases line w (← caseItems fuel)

def caseItems : Nat → Reading (List (List Word × Command))
  | 0 => refuse none
  | fuel + 1 => do
      let readers := ⟨parenthesized fuel, innerList fuel⟩
      expect ⟨true, false, true, false⟩
      match ← token readers with
      | .keyword .esac => return []
      | t =>
          if t = .left then
            let _ ← token readers
          let ps ← patterns readers ((← get).rest.length + 1)
          if (← get).last ≠ .right then refuse (some .right)
          let c ← innerList fuel
          expect ⟨true, false, true, false⟩
          match ← token readers with
          | .keyword .esac => return [(ps, c)]
          | .endCase => return (ps, c) :: (← caseItems fuel)
          | _ => refuse (some .endCase)

def simple : Nat → Nat → Bool → SimpleParts → Reading Command
  | 0, _, _, _ => refuse none
  | fuel + 1, line, mayAssign, parts => do
      let readers := ⟨parenthesized fuel, innerList fuel⟩
      expect { Expectation.none with aliases := mayAssign }
      match ← token readers with
      | .word =>
          let w := (← get).word
          if mayAssign && isAssignment w then
            simple fuel line true { parts with assignments := w :: parts.assignments }
          else simple fuel line false { parts with words := w :: parts.words }
      | .redirect mark =>
          let r ← redirect readers mark
          simple fuel line mayAssign { parts with redirects := r :: parts.redirects }
      | .left =>
          match parts.functionName? with
          | some name => function fuel name
          | none =>
              repeatToken
              return parts.command line
      | _ =>
          repeatToken
          return parts.command line

def function : Nat → Word → Reading Command
  | 0, _ => refuse none
  | fuel + 1, w => do
      let readers := ⟨parenthesized fuel, innerList fuel⟩
      checkToken readers .right
      match literalText? w with
      | none => fail "Bad function name"
      | some text =>
          let name := String.ofList text
          if !isName text || specialNames.contains name then fail "Bad function name"
          else
            expect .commandBelow
            return .define name (← command fuel)

end

/-- A text that is a word as a whole, with commands in it. -/
def promptWord : Reading Word := do
  let depth := 20 * (← get).rest.length + 100
  prompt ⟨parenthesized depth, innerList depth⟩

/-- The next complete command; `none` at the end of the text. -/
def nextCommand : Reading (Option Command) := do
  modify fun r => { r with again := false, announced := [], expectation := .none }
  list (20 * (← get).rest.length + 100) true false none

end CacheUpkeep.Shell.Reader
