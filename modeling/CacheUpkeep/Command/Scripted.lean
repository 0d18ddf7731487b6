import CacheUpkeep.Command.Basic

/-!
# Scripted commands

A runner that answers from a list of registered outputs.  The longest
registered beginning of the command line decides, and of equal ones the latest;
a command that nothing matches succeeds without output.
-/

namespace CacheUpkeep

structure CommandScript where
  responses : List (String × CommandOutput)
  missing : List String
  calls : List String
deriving DecidableEq, Repr

namespace CommandScript

def empty : CommandScript :=
  ⟨[], [], []⟩

def respond (script : CommandScript) (start : String) (o : CommandOutput) : CommandScript :=
  { script with responses := script.responses ++ [(start, o)] }

def markMissing (script : CommandScript) (program : String) : CommandScript :=
  { script with missing := script.missing ++ [program] }

def startsWith (line start : String) : Bool :=
  start.toList.isPrefixOf line.toList

/-- The better of the best match so far and the next response. -/
def better (line : String) (best : Option (String × CommandOutput))
    (response : String × CommandOutput) : Option (String × CommandOutput) :=
  if startsWith line response.1 then
    match best with
    | some b => if response.1.length < b.1.length then some b else some response
    | none => some response
  else best

def outputFor (script : CommandScript) (line : String) : CommandOutput :=
  match script.responses.foldl (better line) none with
  | some (_, o) => o
  | none => .success ""

/-- Every call is recorded, also that of a missing program. -/
def run (c : Command) : Action CommandScript CommandError CommandOutput :=
  Action.ofOutcome fun script =>
    let recorded := { script with calls := script.calls ++ [c.line] }
    if script.missing.contains c.program then (.error (.notFound c.program), recorded)
    else (.ok (script.outputFor c.line), recorded)

def locate (program : String) (script : CommandScript) : Option Path :=
  if script.missing.contains program then none
  else some ((Path.ofString "/usr/bin").join (Path.ofString program))

def runner : CommandRunner CommandScript where
  run := run
  locate := locate

end CommandScript

end CacheUpkeep
