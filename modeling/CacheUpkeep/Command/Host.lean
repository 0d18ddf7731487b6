import CacheUpkeep.Command.Basic
import CacheUpkeep.Shell.Run

/-!
# Commands of a machine

A runner that runs the programs in the files of a machine, with the variables
of its environment.
-/

namespace CacheUpkeep

open CacheUpkeep.Text

structure Host where
  env : List (String × String)
deriving DecidableEq, Repr

namespace Host

def setVariable (env : List (String × String)) (v : String × String) :
    List (String × String) :=
  v :: env.filter fun (name, _) => name ≠ v.1

def hasNul (text : String) : Bool :=
  text.toList.any fun c => c.toNat = 0

def commandHasNul (c : Command) : Bool :=
  hasNul c.program || c.args.any hasNul || c.env.any fun (k, v) => hasNul k || hasNul v

def environmentFor (host : Host) (c : Command) : List (String × String) :=
  c.env.foldl setVariable host.env

/-- Whether a command is looked up in the search path of its own variables. -/
def hasOwnPath (c : Command) : Bool :=
  !Shell.Program.hasSlash c.program && c.env.any fun (name, _) => name = "PATH"

/-- The arguments of a program, as octets. -/
def octets (args : List String) : List String :=
  args.map Shell.Octets.ofText

/-- The program that a command starts, or why it does not start. -/
def launch (fs : FileSystem) (env : List (String × String)) (c : Command) :
    Except IoError Shell.Launch :=
  if commandHasNul c then .error .nulInArgument
  else
    let path := (env.lookup "PATH").map Shell.Octets.ofText
    let name := Shell.Octets.ofText c.program
    match Shell.Program.start fs path name (octets c.args) with
    | .error .execFormat =>
        if hasOwnPath c then
          Shell.Startup.launch fs (path.getD "") name (octets c.args)
        else .error .execFormat
    | r => r

def exitCode : Shell.Ending → Option Int
  | .exit code => some code
  | .signal _ => none

def run (host : Host) (c : Command) : Action FileSystem CommandError CommandOutput :=
  Action.ofOutcome fun fs =>
    let env := environmentFor host c
    match launch fs env c with
    | .error .notFound => (.error (.notFound c.program), fs)
    | .error e => (.error (.spawn c.line e), fs)
    | .ok l =>
        let o := Shell.runProgram fs env l
        (.ok ⟨exitCode o.ending, decodeLossy o.stdout, decodeLossy o.stderr⟩, o.files)

def runner (host : Host) : CommandRunner FileSystem where
  run := host.run
  locate program fs := Shell.Program.locate fs host.env program

end Host

end CacheUpkeep
