/-!
# Shell commands

The commands of the shell language as they are read, before any word of them is
expanded.  A command keeps the number of the line that it starts on.
-/

namespace CacheUpkeep.Shell

/-- What takes the place of a missing value, or of a value that is there. -/
inductive Fallback where
  | word
  | alternative
  | assign
  | complain
deriving DecidableEq, Repr

/-- The end of a value that a pattern is taken from. -/
inductive Side where
  | start
  | finish
deriving DecidableEq, Repr

/--
What is done with the value of a parameter; a spilled one is followed by the word
after it, and by nothing of what comes then.
-/
inductive Treatment where
  | value
  | spilled
  | length
  | fallback (kind : Fallback) (emptyCounts : Bool)
  | trim (side : Side) (longest : Bool)
  | refused
deriving DecidableEq, Repr

inductive RedirectKind where
  | read
  | write
  | overwrite
  | append
  | readWrite
deriving DecidableEq, Repr

mutual

/-- A part of a word; `quote` is a double quote or a single one, opening or closing. -/
inductive Piece where
  | char (c : Char)
  | escaped (c : Char)
  | quote
  | parameter (name : String) (treatment : Treatment) (word : List Piece)
  | arithmetic (word : List Piece)
  | substitution (command : Command)

/-- What a descriptor is bound to; a document is kept apart under its number. -/
inductive Redirect where
  | file (fd : Nat) (kind : RedirectKind) (name : List Piece)
  | copy (fd : Nat) (source : List Piece)
  | document (fd : Nat) (number : Nat)

inductive Command where
  | nothing
  | simple (line : Nat) (assignments words : List (List Piece)) (redirects : List Redirect)
  | pipeline (detached : Bool) (commands : List Command)
  | redirected (line : Nat) (body : Command) (redirects : List Redirect)
  | subshell (line : Nat) (body : Command) (redirects : List Redirect)
  | detached (line : Nat) (body : Command) (redirects : List Redirect)
  | both (first second : Command)
  | either (first second : Command)
  | sequence (first second : Command)
  | negation (body : Command)
  | choice (condition accepted rejected : Command)
  | loop (whileTrue : Bool) (condition body : Command)
  | each (line : Nat) (name : String) (words : List (List Piece)) (body : Command)
  | cases (line : Nat) (word : List Piece) (items : List (List (List Piece) × Command))
  | define (name : String) (body : Command)

end

abbrev Word := List Piece

instance : Inhabited Command :=
  ⟨.nothing⟩

/-- A document as it follows a command, and whether it is expanded when it is used. -/
structure Document where
  body : Word
  expands : Bool

end CacheUpkeep.Shell
