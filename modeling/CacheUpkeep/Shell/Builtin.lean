import CacheUpkeep.Shell.Builtin.Directories
import CacheUpkeep.Shell.Builtin.Input
import CacheUpkeep.Shell.Builtin.Names
import CacheUpkeep.Shell.Builtin.Signals
import CacheUpkeep.Shell.Mask

/-!
# Built-in commands of the shell

The commands that run inside of the shell itself and run no other ones.  Each gives
its status; what it writes is kept until it ends.
-/

namespace CacheUpkeep.Shell.Builtin

open Sh

/-! ## Control -/

def exit (args : List String) : Sh Nat := do
  match args with
  | [] => pure ()
  | code :: _ =>
      let n ← number code
      modifyProcess fun p => { p with saved := some n }
  throw .exit

def giveResult (args : List String) : Sh Nat := do
  let p ← process
  let status ←
    match args with
    | [] => pure p.status
    | code :: _ => number code
  let kind := if args.isEmpty then Skip.bareResult else .result
  modifyProcess fun p => { p with skip := some (kind, 0) }
  return status

def leaveLoops (skip : Skip) (args : List String) : Sh Nat := do
  let n ←
    match args with
    | [] => pure 1
    | text :: _ => do
        let n ← number text
        if n = 0 then fail ("Illegal number: " ++ text)
        pure n
  modifyProcess fun p =>
    let n := min n p.loops
    if n = 0 then p else { p with skip := some (skip, n) }
  return 0

def shift (args : List String) : Sh Nat := do
  let n ←
    match args with
    | [] => pure 1
    | text :: _ => number text
  let p ← process
  if p.args.length < n then fail "can't shift that many"
  setArguments (p.args.drop n)
  return 0

/-! ## Masks -/

def umask (args : List String) : Sh Nat := do
  let (flags, args) ← flags [('S', false)] args
  let mask := (← process).mask
  match args with
  | [] => put ((if flags.isEmpty then Mask.number mask else Mask.text mask) ++ "\n")
  | text :: _ =>
      match Mask.change mask text with
      | .ok mask => modifyProcess fun p => { p with mask }
      | .error message => fail message
  return 0

/-! ## All commands -/

def run? (name : String) (args : List String) : Option (Sh Nat) :=
  match name with
  | ":" | "true" => some (pure 0)
  | "false" => some (pure 1)
  | "echo" => some (echo args)
  | "printf" => some (printf args)
  | "test" => some (test args)
  | "[" => some (bracket args)
  | "exit" => some (exit args)
  | "return" => some (giveResult args)
  | "break" => some (leaveLoops .leave args)
  | "continue" => some (leaveLoops .again args)
  | "shift" => some (shift args)
  | "export" => some (mark name ⟨true, false⟩ args)
  | "readonly" => some (mark name ⟨false, true⟩ args)
  | "unset" => some (unset args)
  | "local" => some (localVariables args)
  | "set" => some (set args)
  | "cd" | "chdir" => some (changeDirectory args)
  | "pwd" => some (printDirectory args)
  | "read" => some (read args)
  | "getopts" => some (getopts args)
  | "alias" => some (defineAliases args)
  | "unalias" => some (unalias args)
  | "umask" => some (umask args)
  | "trap" => some (trap args)
  | "kill" => some (kill args)
  | "type" => some (type args)
  | "hash" => some (hash args)
  | "times" => some (do
      put "0m0.000000s 0m0.000000s\n0m0.000000s 0m0.000000s\n"
      return 0)
  | "jobs" => some (do
      let _ ← flags [('l', false), ('p', false)] args
      return 0)
  | "fg" | "bg" =>
      some (fail (match args with
        | [] => "No current job"
        | job :: _ => "No such job: " ++ job))
  | "ulimit" => some (do
      put "unlimited\n"
      return 0)
  | _ => none

end CacheUpkeep.Shell.Builtin
