import CacheUpkeep.Shell.Pattern

/-!
# Fields

An expanded word is a list of atoms: octets, the traces of quotes, and the starts of
the parts that fields are split in.  Splitting ends a field at separators; blanks
among the separators count as one with those beside them in their part.
-/

namespace CacheUpkeep.Shell

/-- A part that starts is split at NUL octets alone if `nulls` says so. -/
inductive Atom where
  | char (c : Char) (quoted splits : Bool)
  | mark
  | part (nulls : Bool)
deriving DecidableEq, Repr

namespace Atom

def chars (quoted splits : Bool) (text : List Char) : List Atom :=
  text.map fun c => .char c quoted splits

def text (atoms : List Atom) : String :=
  String.ofList (atoms.filterMap fun
    | .char c _ _ => some c
    | _ => none)

def pattern (atoms : List Atom) : Pattern :=
  atoms.filterMap fun
    | .char c quoted _ => some ⟨c, quoted⟩
    | _ => none

end Atom

/-- What separates fields: its octets, of which NUL is always one. -/
structure Separators where
  octets : List Char

namespace Separators

def contains (s : Separators) (nulls : Bool) (c : Char) : Bool :=
  c.toNat = 0 || (!nulls && s.octets.contains c)

/-- Blanks beside each other separate once. -/
def isBlank (c : Char) : Bool :=
  c.toNat = 0 || c = ' ' || c = '\t' || c = '\n'

end Separators

/--
A splitting under way: fields that are complete and atoms of the current one in
reverse order, whether blanks before are passed over, and the kind of the part.
`left` counts the fields that may still be split off, and `kept` how much of the last
one stays when its separators at the end are taken away.
-/
structure Splitting where
  fields : List (List Atom)
  field : List Atom
  afterBlank : Bool
  nulls : Bool
  nullsBefore : Bool
  left : Option Nat
  kept : Option Nat

namespace Splitting

def start (limit : Option Nat) : Splitting :=
  ⟨[], [], false, false, false, limit, none⟩

def endField (s : Splitting) : Splitting :=
  { s with fields := s.field.reverse :: s.fields, field := [] }

def push (s : Splitting) (a : Atom) : Splitting :=
  { s with field := a :: s.field }

/-- An octet of the last field, which keeps its separators but those at its end. -/
def pushLast (s : Splitting) (a : Atom) (separates blank : Bool) : Splitting :=
  if blank then { s.push a with kept := s.kept <|> some s.field.length }
  else
    let kept := if separates && s.afterBlank then s.kept else none
    { s.push a with kept, afterBlank := false }

/-- A separator outside of blanks that came before. -/
def separate (s : Splitting) (a : Atom) (blank : Bool) : Splitting :=
  let afterBlank := if s.nulls || s.nullsBefore then s.afterBlank else blank
  if s.field.isEmpty && afterBlank then { s with afterBlank := false }
  else
    match s.left with
    | some 1 =>
        { s.push a with left := some 0, kept := some s.field.length, afterBlank }
    | left => { s.endField with left := left.map (· - 1), afterBlank }

def step (separators : Separators) (s : Splitting) (a : Atom) : Splitting :=
  match a with
  | .part nulls => { s with nullsBefore := s.nulls, nulls, afterBlank := false }
  | .mark => s.push a
  | .char c _ splits =>
      if !splits then s.push a
      else
        let separates := separators.contains s.nulls c
        let blank := separates && Separators.isBlank c
        if s.left = some 0 then s.pushLast a separates blank
        else if s.afterBlank then
          if blank then s
          else if separates then { s with afterBlank := false }
          else { s.push a with afterBlank := false }
        else if separates then s.separate a blank
        else { s.push a with afterBlank := false }

def finish (s : Splitting) : List (List Atom) :=
  let field :=
    match s.kept with
    | some n => s.field.reverse.take n
    | none => s.field.reverse
  let last := if field.isEmpty && !s.nulls then [] else [field]
  s.fields.reverse ++ last

end Splitting

/-- The fields of an expanded word, at most so many of them. -/
def splitFields (separators : Separators) (limit : Option Nat) (atoms : List Atom) :
    List (List Atom) :=
  (atoms.foldl (Splitting.step separators) (Splitting.start limit)).finish

end CacheUpkeep.Shell
