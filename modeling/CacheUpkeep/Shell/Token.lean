import CacheUpkeep.Shell.Syntax

/-!
# Tokens of the shell language

The tokens that commands are made of, and the reader that gives them one after
the other.  A word of a token stands in the reader, with whether any of it is
quoted.  Whether a word may be a keyword or an alias, and whether line breaks
before it count, is for the place that it is read at.
-/

namespace CacheUpkeep.Shell

inductive Keyword where
  | bang
  | case
  | do
  | done
  | elif
  | else
  | esac
  | fi
  | for
  | if
  | in
  | then
  | until
  | while
  | opening
  | closing
deriving DecidableEq, Repr

namespace Keyword

def text : Keyword → String
  | .bang => "!"
  | .case => "case"
  | .do => "do"
  | .done => "done"
  | .elif => "elif"
  | .else => "else"
  | .esac => "esac"
  | .fi => "fi"
  | .for => "for"
  | .if => "if"
  | .in => "in"
  | .then => "then"
  | .until => "until"
  | .while => "while"
  | .opening => "\x7b"
  | .closing => "\x7d"

def all : List Keyword :=
  [bang, case, «do», done, elif, «else», esac, fi, «for», «if», «in», «then», «until»,
    «while», opening, closing]

def read? (text : String) : Option Keyword :=
  all.find? fun k => k.text = text

end Keyword

inductive RedirectMark where
  | file (fd : Nat) (kind : RedirectKind)
  | copy (fd : Nat)
  | document (fd : Nat) (stripsTabs : Bool)
deriving DecidableEq, Repr

inductive Token where
  | finish
  | newline
  | semicolon
  | ampersand
  | both
  | either
  | pipe
  | left
  | right
  | endCase
  | redirect (mark : RedirectMark)
  | word
  | keyword (k : Keyword)
deriving DecidableEq, Repr

def Token.name : Token → String
  | .finish => "end of file"
  | .newline => "newline"
  | .semicolon => "\";\""
  | .ampersand => "\"&\""
  | .both => "\"&&\""
  | .either => "\"||\""
  | .pipe => "\"|\""
  | .left => "\"(\""
  | .right => "\")\""
  | .endCase => "\";;\""
  | .redirect _ => "redirection"
  | .word => "word"
  | .keyword k => "\"" ++ k.text ++ "\""

def Token.endsList : Token → Bool
  | .finish | .right | .endCase => true
  | .keyword k =>
      k = .do || k = .done || k = .elif || k = .else || k = .esac || k = .fi ||
        k = .then || k = .closing
  | _ => false

structure Expectation where
  keywords : Bool
  aliases : Bool
  breaks : Bool
  mark : Bool
deriving DecidableEq, Repr

namespace Expectation

def none : Expectation :=
  ⟨false, false, false, false⟩

/-- A command may start here. -/
def command : Expectation :=
  ⟨true, true, false, false⟩

/-- A command may start here or after line breaks. -/
def commandBelow : Expectation :=
  ⟨true, true, true, false⟩

def union (a b : Expectation) : Expectation :=
  ⟨a.keywords || b.keywords, a.aliases || b.aliases, a.breaks || b.breaks,
    a.mark || b.mark⟩

end Expectation

/-- A document that is announced, with its number and the line that ends it. -/
structure Announced where
  number : Nat
  mark : List Char
  stripsTabs : Bool
  expands : Bool
deriving DecidableEq, Repr

/-- Where a reading stands; `active` are aliases in use until as much text is left. -/
structure Reader where
  rest : List Char
  line : Nat
  again : Bool
  last : Token
  expectation : Expectation
  word : Word
  quoted : Bool
  announced : List Announced
  documents : List (Nat × Document)
  nextDocument : Nat
  aliases : List (String × String)
  active : List (String × Nat)

structure SyntaxFault where
  line : Nat
  message : String
deriving DecidableEq, Repr

abbrev Reading := StateT Reader (Except SyntaxFault)

namespace Reader

/-- A reader of a text whose documents get the given number and those after it. -/
def ofText (text : List Char) (nextDocument : Nat) (aliases : List (String × String)) :
    Reader :=
  ⟨text, 1, false, .newline, .none, [], false, [], [], nextDocument, aliases, []⟩

def fail {α : Type} (message : String) : Reading α := do
  throw ⟨(← get).line, "Syntax error: " ++ message⟩

def complaintLimit : Nat := 63

def refuse {α : Type} (expected : Option Token) : Reading α := do
  let found := (← get).last.name ++ " unexpected"
  let text :=
    match expected with
    | some t => found ++ " (expecting " ++ t.name ++ ")"
    | none => found
  fail (String.ofList (text.toList.take complaintLimit))

def nextLine : Reading Unit :=
  modify fun r => { r with line := r.line + 1 }

/-- The next character; `none` at the end. -/
def raw : Reading (Option Char) := do
  let r ← get
  match r.rest with
  | [] => return none
  | c :: rest =>
      set { r with rest }
      return some c

def dropJoins (line : Nat) : List Char → Nat × List Char
  | '\\' :: '\n' :: rest => dropJoins (line + 1) rest
  | text => (line, text)

/-- The next character after hidden line breaks. -/
def joined : Reading (Option Char) := do
  modify fun r =>
    let (line, rest) := dropJoins r.line r.rest
    { r with line, rest }
  raw

def giveBack (c : Option Char) : Reading Unit :=
  modify fun r => { r with rest := c.toList ++ r.rest }

def takes (c : Char) : Reading Bool := do
  let d ← joined
  if d = some c then return true
  else
    giveBack d
    return false

def repeatToken : Reading Unit :=
  modify fun r => { r with again := true }

def expect (e : Expectation) : Reading Unit :=
  modify fun r => { r with expectation := e }

end Reader

end CacheUpkeep.Shell
