import CacheUpkeep.Shell.Builtin.Basic
import CacheUpkeep.Shell.Field

/-!
# Input

The built-in commands that take something apart: a line of input into fields, and
arguments into options.
-/

namespace CacheUpkeep.Shell.Builtin

open CacheUpkeep.Text Sh

/-! ## Input -/

/-- Reads one line as atoms in reverse order; a backslash may quote what follows it. -/
def readLineFrom (raw : Bool) : Nat → Bool → List Atom → Sh (List Atom × Bool)
  | 0, _, atoms => return (atoms, false)
  | fuel + 1, escaped, atoms => do
      let s ← get
      match s.process.descriptors.lookup 0 with
      | none => return (atoms, false)
      | some stream =>
          let (octets, world) := s.world.read stream 1
          MonadState.set { s with world }
          match octets with
          | [] => return (atoms, false)
          | b :: _ =>
              let c := Char.ofNat b.toNat
              if c = Char.ofNat 0 then readLineFrom raw fuel escaped atoms
              else if escaped then
                if c = '\n' then readLineFrom raw fuel false (.part false :: atoms)
                else readLineFrom raw fuel false (.part false :: .char c true false :: atoms)
              else if c = '\\' && !raw then readLineFrom raw fuel true atoms
              else if c = '\n' then return (atoms, true)
              else readLineFrom raw fuel false (.char c false true :: atoms)

def lineLimit : Nat := 10000000

/-- Gives fields to names; names without a field get an empty text. -/
def assignFields : List String → List (List Atom) → Sh Unit
  | [], _ => pure ()
  | name :: names, fields => do
      checkName name
      setVariable name (Atom.text (fields.headD []))
      assignFields names (fields.drop 1)

def read (args : List String) : Sh Nat := do
  let (flags, names) ← flags [('p', true), ('r', false)] args
  if names.isEmpty then fail "arg count"
  let raw := flags.any fun (c, _) => c = 'r'
  let (atoms, complete) ← readLineFrom raw lineLimit false [.part false]
  let fields := splitFields ⟨(← process).separators⟩ (some names.length) atoms.reverse
  assignFields names fields
  return if complete then 0 else 1

/-- What reading one option gives: its letter, its text, and where reading goes on. -/
structure OptionFound where
  letter : Char
  text : Option String
  complaint : Option String
  index : Nat
  offset : Option Nat
  done : Bool

def optionRule? (letter : Char) : List Char → Option Bool
  | [] => none
  | c :: ':' :: rest => if c = letter then some true else optionRule? letter rest
  | c :: rest => if c = letter then some false else optionRule? letter rest

/-- The option at a letter; `index` is the number of the argument after its word. -/
def optionAt (known : String) (args : List String) (index : Nat) (word : List Char)
    (offset : Nat) : OptionFound :=
  let silent := known.toList.head? = some ':'
  let letter := (word.drop offset).headD ' '
  let rest := word.drop (offset + 1)
  let next : Option Nat := some (offset + 1)
  let name := String.singleton letter
  match optionRule? letter known.toList with
  | none =>
      if silent then ⟨'?', some name, none, index, next, false⟩
      else ⟨'?', none, some ("Illegal option -" ++ name), index, next, false⟩
  | some false => ⟨letter, some "", none, index, next, false⟩
  | some true =>
      if !rest.isEmpty then ⟨letter, some (String.ofList rest), none, index, none, false⟩
      else
        match args[index - 1]? with
        | some text => ⟨letter, some text, none, index + 1, none, false⟩
        | none =>
            if silent then ⟨':', some name, none, index, none, false⟩
            else ⟨'?', none, some ("No arg for -" ++ name ++ " option"), index, none, false⟩

def nextOption (known : String) (args : List String) (index : Nat) (offset : Option Nat) :
    OptionFound :=
  let current := (offset.bind fun n => (args[index - 2]?).map fun w => (w.toList, n)).bind
    fun (w, n) => if 2 ≤ index && n < w.length then some (w, n) else none
  match current with
  | some (word, n) => optionAt known args index word n
  | none =>
      match (args[index - 1]?).map String.toList with
      | some ['-', '-'] => ⟨'?', none, none, index + 1, none, true⟩
      | some ('-' :: c :: cs) => optionAt known args (index + 1) ('-' :: c :: cs) 1
      | _ => ⟨'?', none, none, index, none, true⟩

def getopts (args : List String) : Sh Nat := do
  match ← plainArguments args with
  | known :: name :: given =>
      let p ← process
      let args := if given.isEmpty then p.args else given
      let inside := p.optionIndex ≤ args.length + 1
      let found := nextOption known args (if inside then p.optionIndex else 1)
        (if inside then p.optionOffset else none)
      match found.complaint with
      | some message =>
          let _ ← writeTo 2 (message ++ "\n")
      | none => pure ()
      if !found.done then
        match found.text with
        | some text => setVariable "OPTARG" text
        | none => unsetVariable "OPTARG"
      setVariable "OPTIND" (numeral found.index)
      modifyProcess fun p => { p with optionIndex := 1, optionOffset := none }
      checkName name
      setVariable name (String.singleton found.letter)
      modifyProcess fun p =>
        { p with optionIndex := found.index, optionOffset := found.offset }
      return if found.done then 1 else 0
  | _ => fail "Usage: getopts optstring var [arg...]"

end CacheUpkeep.Shell.Builtin
