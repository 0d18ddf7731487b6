import CacheUpkeep.Shell.Condition
import CacheUpkeep.Shell.Format
import CacheUpkeep.Shell.State

/-!
# Arguments and output

How the built-in commands read the flags at the start of their arguments, and those
of them that do no more than to write or to test something.
-/

namespace CacheUpkeep.Shell.Builtin

open Sh

/-! ## Arguments -/

/-- The flags at the start of arguments; those marked with true take a text. -/
def flagsFrom (known : List (Char × Bool)) :
    Nat → List String → Sh (List (Char × String) × List String)
  | 0, args => return ([], args)
  | fuel + 1, args => do
      match args with
      | [] => return ([], [])
      | arg :: rest =>
          match arg.toList with
          | ['-'] => return ([], args)
          | ['-', '-'] => return ([], rest)
          | '-' :: c :: cs => one fuel c cs rest
          | _ => return ([], args)
where
  /-- The flag at the start of letters, and what follows it. -/
  one (fuel : Nat) (c : Char) (cs : List Char) (rest : List String) :
      Sh (List (Char × String) × List String) := do
    match known.lookup c with
    | none => fail ("Illegal option -" ++ String.singleton c)
    | some true =>
        match cs, rest with
        | [], [] => fail ("No arg for -" ++ String.singleton c ++ " option")
        | [], text :: rest =>
            let (flags, rest) ← flagsFrom known fuel rest
            return ((c, text) :: flags, rest)
        | cs, rest =>
            let (flags, rest) ← flagsFrom known fuel rest
            return ((c, String.ofList cs) :: flags, rest)
    | some false =>
        let after := if cs.isEmpty then rest else String.ofList ('-' :: cs) :: rest
        let (flags, rest) ← flagsFrom known fuel after
        return ((c, "") :: flags, rest)

def flags (known : List (Char × Bool)) (args : List String) :
    Sh (List (Char × String) × List String) :=
  flagsFrom known (((args.map String.length).foldr (· + ·) 0) + args.length + 1) args

def plainArguments (args : List String) : Sh (List String) := do
  return (← flags [] args).2

/-- Whether the first argument starts with a flag after which nothing else counts. -/
def startsWithFlag (flag : Char) (args : List String) : Bool :=
  ['-', flag].isPrefixOf (args.headD "").toList

def numberLimit : Int := 2147483647

def number (text : String) : Sh Nat :=
  match Arithmetic.number? false text with
  | some n =>
      if 0 ≤ n && n ≤ numberLimit then return n.toNat else fail ("Illegal number: " ++ text)
  | none => fail ("Illegal number: " ++ text)

/-- A text in single quotes, with single quotes of its own in double ones. -/
def quotedWith : Nat → List Char → List Char
  | 0, _ => []
  | fuel + 1, text =>
      let start := text.takeWhile (· ≠ '\'')
      let rest := text.drop start.length
      let quotes := rest.takeWhile (· = '\'')
      let after := rest.drop quotes.length
      let body := '\'' :: start ++ ['\'']
      if quotes.isEmpty then body
      else
        let body := body ++ '"' :: quotes ++ ['"']
        if after.isEmpty then body else body ++ quotedWith fuel after

def quoted (text : String) : String :=
  String.ofList (quotedWith (text.length + 1) text.toList)

/-! ## Output -/

def echoParts (newline : Bool) : List String → Sh Unit
  | [] => if newline then put "\n" else pure ()
  | arg :: rest => do
      let u := unescape arg.toList
      put (String.ofList u.text)
      if u.stop then pure ()
      else
        if !rest.isEmpty then put " "
        echoParts newline rest

def echo (args : List String) : Sh Nat := do
  match args with
  | "-n" :: rest => echoParts false rest
  | _ => echoParts true args
  return 0

def printf (args : List String) : Sh Nat := do
  match ← plainArguments args with
  | [] => fail "usage: printf format [arg ...]"
  | format :: args =>
      let printed := Format.print format args
      printed.complaints.forM warn
      put (String.ofList printed.output.reverse)
      match printed.fault with
      | some message => fail message
      | none => return if printed.complaints.isEmpty then 0 else 1

def test (args : List String) : Sh Nat := do
  match Condition.evaluate (← files) args with
  | .ok true => return 0
  | .ok false => return 1
  | .error message => fail message

/-- The last word counts as the bracket that closes if it starts with one. -/
def bracket (args : List String) : Sh Nat :=
  if (args.getLast?.getD "").toList.head? = some ']' then test args.dropLast
  else fail "missing ]"

end CacheUpkeep.Shell.Builtin
